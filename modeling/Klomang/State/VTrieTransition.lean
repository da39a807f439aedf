import Klomang.Lib.Edits
import Klomang.State.VTrieErasure
import Klomang.StateManager.Sample

/-! State transitions that fail. Outputs to the burn address are looked for before anything is written, but the supply
is compared with the cap after the updates and the supply are in the tree, and nothing takes them back. -/
namespace Klomang.VerkleTree

section Failures
variable [Blake3] [Bandersnatch] {S : Type} [Storage S] {tree : VerkleTree S}

/-- A later tree has the nodes and the root of an earlier one. -/
structure SameNodes (before after : VerkleTree S) : Prop where
  nodes : ∀ path, Storage.get after.storage (keyForPath path) = Storage.get before.storage (keyForPath path)
  root : after.getRoot.1 = before.getRoot.1

/-- Writes of leaves as edits. -/
def edits (writes : List (Bytes32 × List UInt8)) : List (Edit Bytes32 (List UInt8)) :=
  writes.map fun write => (write.1, some write.2)

/-- Some writes have been made already: the nodes down to every leaf are stored, and every leaf holds what is written
there last. -/
structure InPlace (storage : S) (writes : List (Bytes32 × List UInt8)) : Prop where
  above : ∀ write ∈ writes, ∀ path, path <+: write.1.bytes → storedNode storage path = true
  leaf : ∀ key value, Edit.last key (edits writes) = some value →
    Storage.get storage (keyForPath key.bytes) = some (serializeNode value)

/-- Equal nodes give equal roots. -/
theorem Coherent.same_nodes {later : VerkleTree S} (coherent : tree.Coherent) (alsoLater : later.Coherent)
    (nodes : ∀ path, Storage.get later.storage (keyForPath path) = Storage.get tree.storage (keyForPath path)) :
    SameNodes tree later := by
  refine ⟨nodes, ?_⟩
  have same : commitmentAt later.storage [] = commitmentAt tree.storage [] :=
    node_commitment_congr _ _ fun below _ => nodes below
  rw [coherent.get_root.1, alsoLater.get_root.1, storageRoot, storageRoot, same]

section Writes
variable {key : Bytes32} {value : List UInt8} {writes : List (Bytes32 × List UInt8)} {path : List UInt8}

/-- Where the nodes are there already, an insertion writes its leaf only. -/
theorem insert_stored_above (above : ∀ path, path <+: key.bytes → storedNode tree.storage path = true)
    (other : path ≠ key.bytes) :
    Storage.get (tree.insert key value).storage (keyForPath path) = Storage.get tree.storage (keyForPath path) := by
  rw [get_insert, if_neg other]
  by_cases on : path <+: key.bytes
  · obtain ⟨stored, found⟩ := Option.isSome_iff_exists.mp (above path on)
    rw [found]
    rfl
  · rw [if_neg on, Option.or_none]

theorem insert_all_cons (tree : VerkleTree S) (write : Bytes32 × List UInt8) :
    tree.insertAll (write :: writes) = (tree.insert write.1 write.2).insertAll writes := rfl

/-- A leaf holds what was written there last. -/
theorem insert_all_leaf (writes : List (Bytes32 × List UInt8)) (tree : VerkleTree S) (key : Bytes32) :
    Storage.get (tree.insertAll writes).storage (keyForPath key.bytes) =
      ((Edit.last key (edits writes)).map serializeNode).or (Storage.get tree.storage (keyForPath key.bytes)) := by
  induction writes generalizing tree with
  | nil => rfl
  | cons write rest ih =>
    have split : edits (write :: rest) = (write.1, some write.2) :: edits rest := rfl
    rw [insert_all_cons, ih, split, Edit.last]
    cases Edit.last key (edits rest) with
    | some value => rfl
    | none =>
      by_cases same : write.1 = key
      · subst same
        rw [get_insert, if_pos rfl, if_pos rfl]
        rfl
      · rw [insert_agree tree write.1 write.2 key.bytes (key_off_path (Ne.symm same)), if_neg same]
        rfl

/-- Writes store the nodes down to their leaves and no others. -/
theorem stored_insert_all : storedNode (tree.insertAll writes).storage path = true ↔
    storedNode tree.storage path = true ∨ ∃ write ∈ writes, path <+: write.1.bytes := by
  induction writes generalizing tree with
  | nil => simp [insertAll]
  | cons write rest ih =>
    rw [insert_all_cons, ih, stored_insert, or_assoc]
    simp

/-- Where the nodes are there already, writes change their leaves only. -/
theorem insert_all_stored_above
    (above : ∀ write ∈ writes, ∀ node, node <+: write.1.bytes → storedNode tree.storage node = true)
    (other : ∀ write ∈ writes, path ≠ write.1.bytes) :
    Storage.get (tree.insertAll writes).storage (keyForPath path) = Storage.get tree.storage (keyForPath path) := by
  induction writes generalizing tree with
  | nil => rfl
  | cons write rest ih =>
    obtain ⟨aboveFirst, aboveRest⟩ := List.forall_mem_cons.mp above
    obtain ⟨otherFirst, otherRest⟩ := List.forall_mem_cons.mp other
    have still : ∀ other ∈ rest, ∀ node, node <+: other.1.bytes →
        storedNode (tree.insert write.1 write.2).storage node = true := by
      intro other member node on
      rw [stored_insert]
      exact .inl (aboveRest other member node on)
    rw [insert_all_cons, ih still otherRest, insert_stored_above aboveFirst otherFirst]

/-- Writes leave every node as it was exactly when they have been made already. -/
theorem insert_all_same_iff : (∀ path, Storage.get (tree.insertAll writes).storage (keyForPath path) =
    Storage.get tree.storage (keyForPath path)) ↔ InPlace tree.storage writes := by
  constructor
  · intro same
    constructor
    · intro write member path above
      have stored : storedNode (tree.insertAll writes).storage path = true :=
        stored_insert_all.mpr (.inr ⟨write, member, above⟩)
      rwa [storedNode, same, ← storedNode] at stored
    · intro key value found
      have written := insert_all_leaf writes tree key
      rwa [same, found] at written
  · intro placed path
    by_cases leaf : ∃ write ∈ writes, path = write.1.bytes
    · obtain ⟨write, member, rfl⟩ := leaf
      rw [insert_all_leaf]
      cases found : Edit.last write.1 (edits writes) with
      | none => rfl
      | some value =>
        rw [placed.leaf _ _ found]
        rfl
    · exact insert_all_stored_above placed.above fun write member same => leaf ⟨write, member, same⟩

end Writes

section Transitions
variable {updates : List (Bytes32 × List UInt8)} {newTotalSupply : Nat}

/-- Everything that a transition writes: the updates, then the supply. -/
def transitionWrites (updates : List (Bytes32 × List UInt8)) (newTotalSupply : Nat) : List (Bytes32 × List UInt8) :=
  updates ++ [(totalSupplyKey, Bytes.leBytes 16 newTotalSupply)]

/-- How a transition ends: with nothing written for an output to the burn address, otherwise with everything written
whether the supply is in the cap or not. -/
theorem apply_state_transition_cases (tree : VerkleTree S) (updates : List (Bytes32 × List UInt8))
    (newTotalSupply : Nat) :
    ((burnUpdate updates).isSome ∧ (∃ error, (tree.applyStateTransition updates newTotalSupply).1 = .error error) ∧
      (tree.applyStateTransition updates newTotalSupply).2 = { tree with dirty := true }) ∨
    (burnUpdate updates = none ∧ (tree.applyStateTransition updates newTotalSupply).2 =
        ({ tree with dirty := true } : VerkleTree S).insertAll (transitionWrites updates newTotalSupply) ∧
      ((∃ error, (tree.applyStateTransition updates newTotalSupply).1 = .error error) ↔
        EconomicConstants.maxGlobalSupplyNanoSlug < newTotalSupply)) := by
  have all : ({ tree with dirty := true } : VerkleTree S).insertAll (transitionWrites updates newTotalSupply) =
      (({ tree with dirty := true } : VerkleTree S).insertAll updates).insert totalSupplyKey
        (Bytes.leBytes 16 newTotalSupply) := by
    rw [insertAll, transitionWrites, List.foldl_append]
    rfl
  rw [applyStateTransition, all]
  dsimp only
  cases burnUpdate updates with
  | some key => exact .inl ⟨rfl, ⟨_, rfl⟩, rfl⟩
  | none =>
    dsimp only
    by_cases above : newTotalSupply > EconomicConstants.maxGlobalSupplyNanoSlug
    · rw [if_pos above]
      exact .inr ⟨rfl, rfl, iff_of_true ⟨_, rfl⟩ above⟩
    · rw [if_neg above]
      refine .inr ⟨rfl, rfl, iff_of_false ?_ above⟩
      rintro ⟨error, failed⟩
      cases failed

/-- A transition that fails leaves the nodes and the root as they were exactly when it fails for an output to the burn
address, or the tree holds already what it writes. -/
theorem failed_transition_untouched_iff (coherent : tree.Coherent) :
    ((∃ error, (tree.applyStateTransition updates newTotalSupply).1 = .error error) →
      SameNodes tree (tree.applyStateTransition updates newTotalSupply).2) ↔
    (burnUpdate updates).isSome ∨ newTotalSupply ≤ EconomicConstants.maxGlobalSupplyNanoSlug ∨
      InPlace tree.storage (transitionWrites updates newTotalSupply) := by
  have kept := coherent.apply_state_transition updates newTotalSupply
  rcases apply_state_transition_cases tree updates newTotalSupply with
    ⟨burned, _, untouched⟩ | ⟨none, written, fails⟩
  · refine iff_of_true (fun _ => ?_) (.inl burned)
    apply coherent.same_nodes kept
    intro path
    rw [untouched]
  · rw [fails, none, written]
    rw [written] at kept
    have same : (∀ path, Storage.get (({ tree with dirty := true } : VerkleTree S).insertAll
        (transitionWrites updates newTotalSupply)).storage (keyForPath path) =
          Storage.get tree.storage (keyForPath path)) ↔
        InPlace tree.storage (transitionWrites updates newTotalSupply) := insert_all_same_iff
    by_cases above : EconomicConstants.maxGlobalSupplyNanoSlug < newTotalSupply
    · rw [← same]
      constructor
      · intro untouched
        exact .inr (.inr (untouched above).nodes)
      · rintro (burned | within | nodes) _
        · cases burned
        · omega
        · exact coherent.same_nodes kept nodes
    · exact iff_of_true (fun exceeds => absurd exceeds above) (.inr (.inl (Nat.not_lt.mp above)))

end Transitions

end Failures

section Runs
open Klomang.Sample

/-- An update with an output to the burn address. -/
def burning : List (Bytes32 × List UInt8) := [(.replicate 7, TxOutput.serialize ⟨5, .replicate 0⟩)]

/-- An output to the burn address is refused before anything is written. -/
theorem burn_untouched : (∃ error, (emptyTree.applyStateTransition burning 0).1 = .error error) ∧
    SameNodes emptyTree (emptyTree.applyStateTransition burning 0).2 := by
  have burned : (burnUpdate burning).isSome := by decide +kernel
  have failed : ∃ error, (emptyTree.applyStateTransition burning 0).1 = .error error := by
    rcases apply_state_transition_cases emptyTree burning 0 with ⟨_, failed, _⟩ | ⟨none, _⟩
    · exact failed
    · rw [none] at burned
      cases burned
  exact ⟨failed, (failed_transition_untouched_iff manager_built.coherent).mpr (.inl burned) failed⟩

/-- A supply above the cap is refused with its leaf in the tree. -/
theorem refused_supply_written :
    (∃ error, (emptyTree.applyStateTransition [] (EconomicConstants.maxGlobalSupplyNanoSlug + 1)).1 = .error error) ∧
      ¬ SameNodes emptyTree
        (emptyTree.applyStateTransition [] (EconomicConstants.maxGlobalSupplyNanoSlug + 1)).2 := by
  rcases apply_state_transition_cases emptyTree [] (EconomicConstants.maxGlobalSupplyNanoSlug + 1) with
    ⟨burned, _⟩ | ⟨_, written, fails⟩
  · cases burned
  refine ⟨fails.mpr (Nat.lt_succ_self _), fun same => ?_⟩
  have stored : storedNode (emptyTree.applyStateTransition [] (EconomicConstants.maxGlobalSupplyNanoSlug + 1)).2.storage
      totalSupplyKey.bytes = true := by
    rw [written]
    exact stored_insert_all.mpr (.inr ⟨_, List.mem_cons_self, List.prefix_refl _⟩)
  rw [storedNode, same.nodes] at stored
  revert stored
  decide +kernel

end Runs
end Klomang.VerkleTree
