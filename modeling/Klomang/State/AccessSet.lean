import Klomang.State.Transaction
import Mathlib.Data.Finset.Basic
import Mathlib.Data.Finset.Dedup
import Mathlib.Tactic.Tauto

/-! `core/state/access_set.rs` and the access sets of `core/state/transaction.rs`: the keys
a transaction is taken to read and to write. -/
namespace Klomang

structure AccessSet where
  readSet : Finset Bytes32
  writeSet : Finset Bytes32
  deriving DecidableEq

namespace AccessSet

/-- `AccessSet::new`. -/
def new : AccessSet := ⟨∅, ∅⟩

/-- `has_conflict`. -/
def hasConflict (access other : AccessSet) : Bool :=
  !decide (Disjoint access.writeSet other.readSet) || !decide (Disjoint access.writeSet other.writeSet) ||
    !decide (Disjoint other.writeSet access.readSet)

/-- `merge`. -/
def merge (access other : AccessSet) : AccessSet :=
  ⟨access.readSet ∪ other.readSet, access.writeSet ∪ other.writeSet⟩

/-- Two access sets are free of conflicts when neither writes what the other reads or writes. -/
theorem has_conflict_eq_false {access other : AccessSet} :
    access.hasConflict other = false ↔ Disjoint access.writeSet other.readSet ∧
      Disjoint access.writeSet other.writeSet ∧ Disjoint other.writeSet access.readSet := by
  simp [hasConflict, and_assoc]

theorem has_conflict_comm (access other : AccessSet) : access.hasConflict other = other.hasConflict access := by
  rw [Bool.eq_iff_iff, ← not_iff_not, Bool.not_eq_true, Bool.not_eq_true, has_conflict_eq_false,
    has_conflict_eq_false, disjoint_comm (a := access.writeSet) (b := other.writeSet)]
  exact ⟨fun ⟨first, second, third⟩ => ⟨third, second, first⟩, fun ⟨first, second, third⟩ => ⟨third, second, first⟩⟩

/-- Against a merged set there is a conflict exactly when one part conflicts. -/
theorem has_conflict_merge (access first second : AccessSet) :
    access.hasConflict (first.merge second) = (access.hasConflict first || access.hasConflict second) := by
  rw [Bool.eq_iff_iff, Bool.or_eq_true, ← not_iff_not, not_or, Bool.not_eq_true, Bool.not_eq_true,
    Bool.not_eq_true, has_conflict_eq_false, has_conflict_eq_false, has_conflict_eq_false, merge]
  simp only [Finset.disjoint_union_left, Finset.disjoint_union_right]
  tauto

theorem has_conflict_new (access : AccessSet) : access.hasConflict new = false := by
  simp [has_conflict_eq_false, new]

end AccessSet

namespace Transaction
variable [Blake3]

/-- The 32 bytes of a payload from a position on, where there are so many. -/
def slotAt (payload : List UInt8) (i : Nat) : Option Bytes32 :=
  if width : ((payload.drop i).take 32).length = 32 then some ⟨(payload.drop i).take 32, width⟩ else none

/-- `analyze_execution_payload`. Of the parsed module the source only collects the imported
names, which it does not use; the slots are read off the bytes themselves. -/
def analyzeExecutionPayload (payload : List UInt8) : AccessSet :=
  let positions := if payload.length ≥ 8 then List.range' 0 ((payload.length - 32 + 7) / 8) 8 else []
  let slots := (positions.filterMap (slotAt payload)).filter fun slot =>
    slot ≠ .replicate 0 && slot ≠ .replicate 255
  let accessSet : AccessSet := ⟨slots.toFinset, slots.toFinset⟩
  if accessSet.readSet = ∅ ∧ accessSet.writeSet = ∅ then
    -- a pseudo-slot stands for a payload without any pattern
    { accessSet with writeSet := insert (Hash.new payload) accessSet.writeSet }
  else accessSet

/-- `generate_access_set`. -/
def generateAccessSet (tx : Transaction) : AccessSet :=
  let reads := (List.range tx.inputs.length).map fun i => tx.hashWithIndex (UInt32.ofNat i)
  let writes := (List.range tx.outputs.length).map fun i => tx.hashWithIndex (UInt32.ofNat i)
  let accessSet : AccessSet := ⟨reads.toFinset, writes.toFinset⟩
  match tx.contractAddress with
  | none => accessSet
  | some contractAddr =>
    let accessSet := { accessSet with writeSet := insert contractAddr accessSet.writeSet }
    accessSet.merge (analyzeExecutionPayload tx.executionPayload)

end Transaction
end Klomang
