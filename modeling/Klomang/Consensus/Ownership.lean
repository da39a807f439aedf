import Klomang.Consensus.Validation
import Klomang.Sample
import Klomang.State.Utxo

/-! Who may spend an output. Both validators check a signature against the key that
the input itself carries; neither compares that key with the output it spends. -/
namespace Klomang.Ownership

open GhostDag (TransactionsSigned)
open UtxoSet (WellSigned Covered)

section Statement
variable [Blake3]

/-- Every input that finds its output carries the key whose hash the output names. -/
def Owned (set : UtxoSet) (tx : Transaction) : Prop :=
  ∀ input ∈ tx.inputs, ∀ output, set.utxos.lookup input.outpoint = some output →
    Hash.new input.pubkey = output.pubkeyHash

end Statement

section Planting

/-- A set that holds one output at each of the given outpoints. -/
def planted (output : TxOutput) (outpoints : List OutPoint) : UtxoSet :=
  ⟨outpoints.foldr (fun outpoint utxos => Finmap.insert outpoint output utxos) ∅⟩

theorem lookup_planted (output : TxOutput) (outpoints : List OutPoint) (outpoint : OutPoint) :
    (planted output outpoints).utxos.lookup outpoint = if outpoint ∈ outpoints then some output else none := by
  induction outpoints with
  | nil => rfl
  | cons first rest ih =>
    simp only [planted, List.foldr_cons, FiniteMap.lookup_insert_ite] at ih ⊢
    rw [ih]
    by_cases same : outpoint = first <;> simp [same]

/-- There is more than one hash. -/
theorem exists_other_hash (hash : Hash) : ∃ other : Hash, other ≠ hash := by
  by_cases zero : Bytes32.replicate 0 = hash
  · refine ⟨.replicate 1, fun one => ?_⟩
    have same := congrArg Bytes32.bytes (one.trans zero.symm)
    simp [Bytes32.replicate] at same
  · exact ⟨_, zero⟩

end Planting

section Validators
variable [Blake3] [SchnorrScheme]

/-- A well-signed transaction is covered by outputs that name somebody else. -/
theorem exists_foreign_coin {tx : Transaction} (spends : tx.inputs ≠ []) (signed : WellSigned tx) :
    ∃ set : UtxoSet, Covered set tx ∧ ¬ Owned set tx := by
  obtain ⟨first, rest, listed⟩ := List.exists_cons_of_ne_nil spends
  obtain ⟨stranger, foreign⟩ := exists_other_hash (Hash.new first.pubkey)
  have distinct := signed.distinct
  rw [listed, List.map_cons, List.nodup_cons] at distinct
  -- the first input finds enough for all outputs, the others find nothing of value
  let funds : TxOutput := ⟨UInt64.ofNat (tx.outputs.map fun output => output.value.toNat).sum, stranger⟩
  let dust := planted ⟨0, stranger⟩ (rest.map TxInput.outpoint)
  let set : UtxoSet := ⟨dust.utxos.insert first.outpoint funds⟩
  have lookup : ∀ outpoint, set.utxos.lookup outpoint =
      if outpoint = first.outpoint then some funds
      else if outpoint ∈ rest.map TxInput.outpoint then some ⟨0, stranger⟩ else none := by
    intro outpoint
    simp only [set, FiniteMap.lookup_insert_ite, dust, lookup_planted]
  have worthless : ∀ input ∈ rest, set.valueAt input.outpoint = 0 := by
    intro input member
    have different : input.outpoint ≠ first.outpoint := fun same =>
      distinct.1 (same ▸ List.mem_map_of_mem member)
    rw [UtxoSet.valueAt, lookup, if_neg different, if_pos (List.mem_map_of_mem member)]
    rfl
  have total : (tx.inputs.map fun input => set.valueAt input.outpoint).sum =
      (tx.outputs.map fun output => output.value.toNat).sum := by
    have head : set.valueAt first.outpoint = (tx.outputs.map fun output => output.value.toNat).sum := by
      rw [UtxoSet.valueAt, lookup, if_pos rfl]
      exact UInt64.toNat_ofNat_of_lt' signed.fits
    rw [listed, List.map_cons, List.sum_cons, head, List.map_congr_left worthless]
    simp
  refine ⟨set, ⟨?_, by rw [total]; exact signed.fits, total.ge⟩, fun owned => ?_⟩
  · intro input member
    rw [listed, List.mem_cons] at member
    rw [lookup]
    rcases member with rfl | later
    · simp
    · rw [if_pos (List.mem_map_of_mem later)]
      split <;> rfl
  · have here := owned first (by rw [listed]; exact List.mem_cons_self) funds (by rw [lookup, if_pos rfl])
    exact foreign here.symm

/-- Ownership is enforced by neither validator: an accepted transaction is owned in every set of
unspent outputs only when no set can make it acceptable, and an accepted block only when it
is refused or spends nothing. -/
theorem owned_iff_never_accepted [Channel] (ghostDag : GhostDag) (dag : Dag) :
    (∀ tx : Transaction, tx.inputs ≠ [] →
      ((∀ set : UtxoSet, (∃ fee, set.validateTx tx = .ok fee) → Owned set tx) ↔ ¬ WellSigned tx)) ∧
    (∀ block : BlockNode,
      ((∀ set : UtxoSet, ghostDag.validateTransactions block dag = .ok () →
          ∀ tx ∈ block.transactions, Owned set tx) ↔
        ¬ (TransactionsSigned block.transactions ∧ ∃ tx ∈ block.transactions, tx.inputs ≠ []))) := by
  constructor
  · intro tx spends
    constructor
    · intro owned signed
      obtain ⟨set, covered, stolen⟩ := exists_foreign_coin spends signed
      exact stolen (owned set ((UtxoSet.validate_tx_ok_iff spends).mpr ⟨signed, covered⟩))
    · intro unsigned set accepted
      exact absurd ((UtxoSet.validate_tx_ok_iff spends).mp accepted).1 unsigned
  · intro block
    rw [GhostDag.validate_transactions_ok_iff]
    constructor
    · rintro owned ⟨signed, tx, member, spends⟩
      obtain ⟨first, rest, listed⟩ := List.exists_cons_of_ne_nil spends
      obtain ⟨stranger, foreign⟩ := exists_other_hash (Hash.new first.pubkey)
      have here := owned (planted ⟨0, stranger⟩ [first.outpoint]) signed tx member first
        (by rw [listed]; exact List.mem_cons_self) ⟨0, stranger⟩ (by simp [lookup_planted])
      exact foreign here.symm
    · intro refused set signed tx member input inputMem
      have spends : tx.inputs ≠ [] := List.ne_nil_of_mem inputMem
      exact absurd ⟨signed, tx, member, spends⟩ refused

end Validators

section Theft
open Klomang.Sample

/-- A key that owns nothing. -/
def thief : List UInt8 := List.replicate 32 5

/-- A transaction that spends an output with a key of its own choosing. -/
def unsigned : Transaction :=
  Transaction.new [⟨.replicate 7, 0, [], thief, .all⟩] [⟨1, .replicate 9⟩]

/-- The same transaction with the thief's signature. -/
def theft : Transaction :=
  { unsigned with inputs := [⟨.replicate 7, 0,
      thief ++ (Schnorr.taggedHash Schnorr.tagTxSign (Schnorr.serializeTxForSighash unsigned 0 .all)).bytes,
      thief, .all⟩] }

/-- A coin that names another hash. -/
def victim : UtxoSet := planted ⟨1, .replicate 3⟩ [(.replicate 7, 0)]

/-- Every accepted unsigned transaction is owned, for there is none; the signed one is not. -/
theorem unsigned_owned_theft_not :
    (∀ set : UtxoSet, (∃ fee, set.validateTx unsigned = .ok fee) → Owned set unsigned) ∧
      ¬ ∀ set : UtxoSet, (∃ fee, set.validateTx theft = .ok fee) → Owned set theft := by
  have either := (owned_iff_never_accepted (GhostDag.new 1) Dag.new).1
  constructor
  · refine (either unsigned (List.cons_ne_nil _ _)).mpr fun signed => ?_
    have verified := signed.verified _ List.mem_cons_self
    revert verified
    decide +kernel
  · intro owned
    have accepted : victim.validateTx theft = .ok 0 := by decide +kernel
    have spends : theft.inputs ≠ [] := List.cons_ne_nil _ _
    exact (either theft spends).mp owned ((UtxoSet.validate_tx_ok_iff spends).mp ⟨0, accepted⟩).1

/-- Both validators accept a spend of somebody else's coin. -/
theorem theft_accepted :
    victim.validateTx theft = .ok 0 ∧
      (GhostDag.new 1).validateTransactions
        ⟨⟨.replicate 8, ∅, 0, 1, 0, .replicate 0, none, none⟩, ∅, none, ∅, ∅, 0, [theft]⟩ Dag.new = .ok () ∧
      ¬ Owned victim theft := by
  refine ⟨by decide +kernel, by decide +kernel, fun owned => ?_⟩
  have same := owned _ List.mem_cons_self ⟨1, .replicate 3⟩ (by decide +kernel)
  revert same
  decide +kernel

end Theft
end Klomang.Ownership
