import Klomang.State.VTrieAncestors
import Klomang.State.VTrieTransition
import Klomang.StateManager.VerkleSync

/-! What the proofs of the state tree are worth to who knows its root alone. The tree forgets nothing, so they show which
outputs were created, and not which are still unspent. -/
namespace Klomang.Books
variable {K V : Type} [DecidableEq K] {moves : List (Move K V)} {key : K} {entry : Option V}

/-- A record has an entry when it had one, or something was put there. -/
theorem record_isSome :
    (moves.foldl (record key) entry).isSome = true ↔ entry.isSome = true ∨ ∃ value, .put key value ∈ moves := by
  induction moves generalizing entry with
  | nil => simp
  | cons first rest ih =>
    rw [List.foldl_cons, ih]
    cases first with
    | take other => simp [record]
    | put other value =>
      rw [record]
      split
      next same =>
        subst same
        exact iff_of_true (.inl rfl) (.inr ⟨value, List.mem_cons_self⟩)
      next different =>
        refine or_congr_right (exists_congr fun value => ?_)
        simp [Ne.symm different]

end Klomang.Books

namespace Klomang.VerkleTree
variable [Blake3] [Bandersnatch] {S : Type} [Storage S] {tree : VerkleTree S}

/-- Writes into a tree in which nothing is marked keep its shape. -/
theorem Intact.insert_all (intact : tree.Intact) (unpruned : tree.prunedKeys = ∅) {writes : List (Bytes32 × List UInt8)}
    (short : ∀ write ∈ writes, write.2.length < 2 ^ 32) :
    (tree.insertAll writes).Intact ∧ (tree.insertAll writes).prunedKeys = ∅ := by
  induction writes generalizing tree with
  | nil => exact ⟨intact, unpruned⟩
  | cons write rest ih =>
    obtain ⟨here, later⟩ := List.forall_mem_cons.mp short
    rw [insert_all_cons]
    refine ih (intact.insert (unpruned ▸ Finset.notMem_empty _) here) ?_ later
    rw [insert_pruned, unpruned]

/-- So does a transition, whether it succeeds or not. -/
theorem Intact.apply_state_transition (intact : tree.Intact) (unpruned : tree.prunedKeys = ∅)
    {updates : List (Bytes32 × List UInt8)} (short : ∀ update ∈ updates, update.2.length < 2 ^ 32) (newTotalSupply : Nat) :
    (tree.applyStateTransition updates newTotalSupply).2.Intact ∧
      (tree.applyStateTransition updates newTotalSupply).2.prunedKeys = ∅ := by
  have dirty : ({ tree with dirty := true } : VerkleTree S).Intact := intact.same_contents ⟨rfl, rfl⟩
  rcases apply_state_transition_cases tree updates newTotalSupply with ⟨_, _, unwritten⟩ | ⟨_, written, _⟩
  · exact unwritten ▸ ⟨dirty, unpruned⟩
  · rw [written]
    refine dirty.insert_all unpruned fun write member => ?_
    rcases List.mem_append.mp member with update | supply
    · exact short write update
    · rw [List.mem_singleton.mp supply, Bytes.length_leBytes]
      decide

/-- The proof of a key shows its leaf. -/
theorem Intact.proven (intact : tree.Intact) (key : Bytes32) :
    provenValue tree.storage key = VerkleTree.leaves tree.storage key := by
  rw [provenValue]
  split
  · rfl
  next beyond =>
    cases leaf : VerkleTree.leaves tree.storage key with
    | none => rfl
    | some value => exact absurd (intact.path_stored (stored_of_leaf leaf) (length_key key).le) beyond

end Klomang.VerkleTree

namespace Klomang.StateManager

section Recorded
variable [Blake3] [Bandersnatch] {S : Type} [Storage S]

/-- The moves of a block that is applied. -/
def appliedMoves [Wasmer] (session : Session S) (block : BlockNode) : List (Move OutPoint TxOutput) :=
  match (session.manager.applyBlock block session.utxo).1 with
  | .ok () => block.moves
  | .error _ => []

/-- The tree holds at every outpoint what the moves put there last. -/
structure Recorded (outpoints : Set OutPoint) (session : Session S) (moves : List (Move OutPoint TxOutput)) : Prop where
  sound : session.manager.Sound
  unpruned : session.manager.tree.prunedKeys = ∅
  intact : session.manager.tree.Intact
  leaf : ∀ outpoint ∈ outpoints, session.manager.tree.get outpoint.key =
    .ok ((moves.foldl (Books.record outpoint) none).map TxOutput.serialize)

variable {outpoints : Set OutPoint} {session : Session S} {block : BlockNode} {moves : List (Move OutPoint TxOutput)}

theorem started_recorded (storage : S) (empty : ∀ key, Storage.get storage key = none) (outpoints : Set OutPoint) :
    Recorded outpoints ⟨started (VerkleTree.fresh storage), .new⟩ [] := by
  obtain ⟨kept, synced⟩ := started_synced storage empty outpoints
  refine ⟨kept.sound, kept.unpruned, ?_, synced⟩
  exact (VerkleTree.fresh_intact empty).same_contents
    ⟨(VerkleTree.get_root_storage _).symm, (VerkleTree.get_root_pruned _).symm⟩

theorem Recorded.same_tree {later : StateManager S} {utxo : UtxoSet} (recorded : Recorded outpoints session moves)
    (sound : later.Sound) (contents : VerkleTree.SameContents session.manager.tree later.tree) :
    Recorded outpoints ⟨later, utxo⟩ moves := by
  have unpruned : later.tree.prunedKeys = ∅ := contents.prunedKeys.symm.trans recorded.unpruned
  refine ⟨sound, unpruned, recorded.intact.same_contents contents, fun outpoint inside => ?_⟩
  have before := recorded.leaf outpoint inside
  rw [VerkleTree.get_of_unpruned recorded.unpruned, contents.storage] at before
  rw [← before]
  exact VerkleTree.get_of_unpruned unpruned outpoint.key

/-- An applied block writes what it creates. -/
theorem Recorded.applied {later : StateManager S} {left : UtxoSet} (recorded : Recorded outpoints session moves)
    (separated : Separated outpoints) (creates : CreatesAt outpoints block) (sound : later.Sound)
    (applied : Applied session.manager session.utxo block later left) :
    Recorded outpoints ⟨later, left⟩ (moves ++ block.moves) := by
  obtain ⟨tree, storage, pruned, _, untouched⟩ := applied.written
  have here := untouched creates.plain
  subst here
  obtain ⟨written, unmarked⟩ :=
    recorded.intact.apply_state_transition recorded.unpruned (@writes_short _ block.moves) later.currentTotalSupply
  refine ⟨sound, pruned.trans recorded.unpruned, written.same_contents ⟨storage.symm, ?_⟩, fun outpoint inside => ?_⟩
  · rw [unmarked, ← recorded.unpruned]
    exact pruned.symm
  · rw [List.foldl_append]
    exact (applied.leaf separated creates recorded.unpruned inside (recorded.leaf outpoint inside)).2

variable [SchnorrScheme] [Channel] [Wasmer]

theorem Recorded.step (recorded : Recorded outpoints session moves) (separated : Separated outpoints)
    (creates : CreatesAt outpoints block) :
    Recorded outpoints (stepBlock session block) (moves ++ appliedMoves session block) := by
  have sound := step_sound recorded.sound (.applyBlock block)
  dsimp only [stepBlock, Session.step, appliedMoves] at sound ⊢
  rcases recorded.sound.apply_block_cases block session.utxo with ⟨later, left, ran⟩ | ⟨error, failed⟩
  · rw [ran] at sound ⊢
    exact recorded.applied separated creates sound (apply_block_ok ran)
  · rw [failed] at sound ⊢
    rw [List.append_nil]
    exact recorded.same_tree sound ⟨recorded.sound.coherent.cloned_storage.symm, rfl⟩

theorem run_recorded {start : Session S} (recorded : Recorded outpoints start []) (separated : Separated outpoints)
    (blocks : List BlockNode) (creates : ∀ block ∈ blocks, CreatesAt outpoints block) :
    Recorded outpoints (Runs.run stepBlock start blocks) (Runs.gather stepBlock appliedMoves start blocks) := by
  induction blocks using List.reverseRecOn with
  | nil => exact recorded
  | append_singleton blocks block ih =>
    rw [Runs.run_snoc, Runs.gather_snoc]
    exact (ih fun other member => creates other (List.mem_append_left _ member)).step separated (creates block (by simp))

end Recorded

section Proofs
variable [Blake3] [Bandersnatch] {S T : Type} [Storage S] [Storage T] {outpoints : Set OutPoint} {session : Session S}
  {moves : List (Move OutPoint TxOutput)} {outpoint : OutPoint}

/-- The proof for an outpoint shows what was put there last, and under the root of the manager no other proof for it is
accepted that shows anything else. -/
structure ShowsCreation (T : Type) [Storage T] (manager : StateManager S) (moves : List (Move OutPoint TxOutput))
    (outpoint : OutPoint) (proof : VerkleProof) : Prop where
  generated : (manager.tree.generateProof outpoint.key).1 = .ok proof
  verified : manager.tree.verifyProof proof = .ok true
  root : manager.getRootHash.1 = .ok proof.root
  shown : proof.leafValue = (moves.foldl (Books.record outpoint) none).map TxOutput.serialize
  member : proof.proofType = .membership ↔ ∃ output, .put outpoint output ∈ moves
  binding : ∀ (verifier : VerkleTree T) other, VerkleTree.Reached verifier → verifier.verifyProof other = .ok true →
    other.root = proof.root → other.path = outpoint.key.bytes → VerkleTree.Collisionless other proof →
    other.leafValue = proof.leafValue

theorem Recorded.shows (T : Type) [Storage T] (recorded : Recorded outpoints session moves) (inside : outpoint ∈ outpoints) :
    ∃ proof, ShowsCreation T session.manager moves outpoint proof := by
  have coherent := recorded.sound.coherent
  have accepted := VerkleTree.storage_proof_accepted coherent.rooted outpoint.key
  have leaf := recorded.leaf outpoint inside
  rw [VerkleTree.get_of_unpruned recorded.unpruned, ← recorded.intact.proven, Except.ok.injEq] at leaf
  refine ⟨_, (coherent.generate_proof outpoint.key).1, (coherent.verify_proof _).mpr accepted, ?_, leaf, ?_, ?_⟩
  · have root := coherent.get_root.1
    rw [getRootHash]
    cases asked : session.manager.tree.getRoot with
    | mk outcome tree =>
      rw [asked] at root
      cases root
      rfl
  · have created : (moves.foldl (Books.record outpoint) none).isSome = true ↔
        (none : Option TxOutput).isSome = true ∨ ∃ output, .put outpoint output ∈ moves := Books.record_isSome
    rw [Option.isSome_none, or_iff_right Bool.false_ne_true] at created
    rw [← created, accepted.typed, ← Option.isSome_map (f := TxOutput.serialize), ← leaf]
    rfl
  · intro verifier other reached also root path collisionless
    exact VerkleTree.accepted_bound ((reached.coherent.verify_proof other).mp also) accepted root path collisionless

variable [SchnorrScheme] [Channel] [Wasmer]

/-- What a light client learns. After any run of blocks of plain transactions the proof of an outpoint is accepted under the
root of the manager, and shows the output that an applied block created there last, whether or not it was spent since;
it is one of membership exactly when an applied block created an output there. No proof that shows anything else is
accepted, by any verifier, unless it collides. -/
theorem proofs_show_creation {storage : S} (empty : ∀ key, Storage.get storage key = none)
    {tree : VerkleTree S} (fresh : VerkleTree.new storage = .ok tree) {manager : StateManager S}
    (made : StateManager.new tree = .ok manager) (separated : Separated outpoints) (blocks : List BlockNode)
    (creates : ∀ block ∈ blocks, CreatesAt outpoints block) :
    ∀ outpoint ∈ outpoints, ∃ proof,
      ShowsCreation T (Runs.run stepBlock ⟨manager, .new⟩ blocks).manager
        (Runs.gather stepBlock appliedMoves ⟨manager, .new⟩ blocks) outpoint proof := by
  have treeSame : VerkleTree.fresh storage = tree := Except.ok.inj ((VerkleTree.new_ok storage).symm.trans fresh)
  subst treeSame
  have managerSame : started (VerkleTree.fresh storage) = manager :=
    Except.ok.inj ((new_ok (VerkleTree.fresh_coherent storage)).symm.trans made)
  subst managerSame
  exact fun outpoint inside => (run_recorded (started_recorded storage empty outpoints) separated blocks creates).shows T inside

end Proofs

section Witness
open Klomang.Sample

/-- The proof of a coin that is created and spent in one block. -/
theorem spent_coin_shown : ∃ proof,
    ShowsCreation MemoryStorage (Runs.run stepBlock ⟨manager, .new⟩ [spending]).manager
      (Runs.gather stepBlock appliedMoves ⟨manager, .new⟩ [spending]) coin proof := by
  refine proofs_show_creation (fun _ => rfl) (VerkleTree.new_ok _) manager_made coins_separated [spending] ?_ coin (.inl rfl)
  intro block member
  rw [List.mem_singleton.mp member]
  exact spending_creates

end Witness
end Klomang.StateManager
