import Klomang.StateManager.Heights
import Klomang.StateManager.Sample

/-! The state tree next to the set of unspent outputs. A block writes the outputs it creates to
the tree, but it never removes the ones it spends: the tree is a record that forgets nothing. -/
namespace Klomang.StateManager

section Statement
variable [Blake3] [Bandersnatch] {S : Type} [Storage S]

/-- The tree holds the serialized output exactly where the set holds an output. -/
def Synced (outpoints : Set OutPoint) (session : Session S) : Prop :=
  ∀ outpoint ∈ outpoints, session.manager.tree.get outpoint.key =
    .ok ((session.utxo.utxos.lookup outpoint).map TxOutput.serialize)

/-- If the books accept a block, it creates again whatever it spends. -/
def Replacing (session : Session S) (block : BlockNode) : Prop :=
  Acceptable (session.manager.books session.utxo) block → ∀ outpoint, Books.Replaced block.moves outpoint

/-- Hashing keeps the outpoints apart from each other and from the supply. -/
structure Separated (outpoints : Set OutPoint) : Prop where
  injective : Set.InjOn OutPoint.key outpoints
  apart : ∀ outpoint ∈ outpoints, outpoint.key ≠ VerkleTree.totalSupplyKey

/-- A block of plain transactions that creates outputs at some outpoints only. -/
structure CreatesAt (outpoints : Set OutPoint) (block : BlockNode) : Prop where
  plain : ∀ tx ∈ block.transactions, tx.Plain
  created : ∀ outpoint output, .put outpoint output ∈ block.moves → outpoint ∈ outpoints

end Statement

section Leaves
variable [Blake3] {outpoints : Set OutPoint}

/-- What moves leave at the leaf of an outpoint is their record. -/
theorem write_leaves_record (separated : Separated outpoints) {moves : List (Move OutPoint TxOutput)}
    (created : ∀ outpoint output, .put outpoint output ∈ moves → outpoint ∈ outpoints)
    {before : Bytes32 → Option (List UInt8)} {outpoint : OutPoint} (inside : outpoint ∈ outpoints)
    {entry : Option TxOutput} (same : before outpoint.key = entry.map TxOutput.serialize) :
    VerkleTree.writeLeaves (writes moves) before outpoint.key =
      (moves.foldl (Books.record outpoint) entry).map TxOutput.serialize := by
  induction moves generalizing before entry with
  | nil => exact same
  | cons first rest ih =>
    have createdLater : ∀ outpoint output, .put outpoint output ∈ rest → outpoint ∈ outpoints :=
      fun other output member => created other output (List.mem_cons_of_mem _ member)
    cases first with
    | take other => exact ih createdLater same
    | put other output =>
      apply ih createdLater
      rw [Books.record]
      dsimp only
      by_cases equal : other = outpoint
      · subst equal
        rw [Function.update_self, if_pos rfl]
        rfl
      · have listed := created other output List.mem_cons_self
        have different : outpoint.key ≠ other.key := fun clash =>
          equal (separated.injective listed inside clash.symm)
        rw [Function.update_of_ne different, if_neg equal]
        exact same

variable [Bandersnatch] {S : Type} [Storage S] {manager later : StateManager S} {utxo left : UtxoSet} {block : BlockNode}

/-- After a block of plain transactions the leaf of an outpoint holds the record of the moves. -/
theorem Applied.leaf (applied : Applied manager utxo block later left) (separated : Separated outpoints)
    (creates : CreatesAt outpoints block) (unpruned : manager.tree.prunedKeys = ∅) {outpoint : OutPoint}
    (inside : outpoint ∈ outpoints) {entry : Option TxOutput}
    (same : manager.tree.get outpoint.key = .ok (entry.map TxOutput.serialize)) :
    later.tree.prunedKeys = ∅ ∧ later.tree.get outpoint.key =
      .ok ((block.moves.foldl (Books.record outpoint) entry).map TxOutput.serialize) := by
  obtain ⟨tree, storage, pruned, _, untouched⟩ := applied.written
  have here := untouched creates.plain
  subst here
  have still : later.tree.prunedKeys = ∅ := pruned.trans unpruned
  have through : (manager.tree.applyStateTransition (writes block.moves) later.currentTotalSupply).1 = .ok () := by
    rw [VerkleTree.apply_state_transition_ok_iff, burn_update_none]
    exact ⟨applied.noBurn, applied.capped⟩
  rw [VerkleTree.get_of_unpruned unpruned, Except.ok.injEq] at same
  refine ⟨still, ?_⟩
  rw [VerkleTree.get_of_unpruned still, storage, VerkleTree.leaves_apply_state_transition writes_short through,
    Function.update_of_ne (separated.apart outpoint inside),
    write_leaves_record separated creates.created inside same]

/-- An applied block keeps the tree in step with the set exactly when it creates again whatever it
spends. -/
theorem Applied.synced_iff (applied : Applied manager utxo block later left) (separated : Separated outpoints)
    (creates : CreatesAt outpoints block) (unpruned : manager.tree.prunedKeys = ∅)
    (outside : ∀ outpoint ∉ outpoints, utxo.utxos.lookup outpoint = none)
    (synced : Synced outpoints ⟨manager, utxo⟩) :
    Synced outpoints ⟨later, left⟩ ↔ ∀ outpoint, Books.Replaced block.moves outpoint := by
  have settled : ∀ outpoint ∈ outpoints, (later.tree.get outpoint.key =
      .ok ((left.utxos.lookup outpoint).map TxOutput.serialize) ↔ Books.Replaced block.moves outpoint) := by
    intro outpoint inside
    have entry := Books.play_lookup applied.played outpoint
    rw [(applied.leaf separated creates unpruned inside (synced outpoint inside)).2, Except.ok.injEq,
      ← Books.settled_iff_replaced applied.played outpoint]
    dsimp only [books] at entry ⊢
    rw [entry, (Option.map_injective serialize_injective).eq_iff]
    exact eq_comm
  constructor
  · intro after outpoint
    by_cases inside : outpoint ∈ outpoints
    · exact (settled outpoint inside).mp (after outpoint inside)
    · exact Books.replaced_of_absent applied.played (outside outpoint inside)
        fun output member => inside (creates.created outpoint output member)
  · intro replaced outpoint inside
    exact (settled outpoint inside).mpr (replaced outpoint)

end Leaves

section Runs
variable [Blake3] [Bandersnatch] {S : Type} [Storage S]

/-- What blocks keep, in step or not: nothing is pruned, and nothing is unspent but what was created. -/
structure Unpruned (outpoints : Set OutPoint) (session : Session S) : Prop where
  sound : session.manager.Sound
  unpruned : session.manager.tree.prunedKeys = ∅
  outside : ∀ outpoint ∉ outpoints, session.utxo.utxos.lookup outpoint = none

/-- A manager over an empty tree starts in step with the empty set. -/
theorem started_synced (storage : S) (empty : ∀ key, Storage.get storage key = none) (outpoints : Set OutPoint) :
    Unpruned outpoints ⟨started (VerkleTree.fresh storage), .new⟩ ∧
      Synced outpoints ⟨started (VerkleTree.fresh storage), .new⟩ := by
  have pruned : (started (VerkleTree.fresh storage)).tree.prunedKeys = ∅ :=
    (VerkleTree.get_root_pruned _).trans (VerkleTree.fresh_pruned storage)
  refine ⟨⟨started_sound (VerkleTree.fresh_coherent storage), pruned, fun _ _ => rfl⟩, fun outpoint _ => ?_⟩
  rw [VerkleTree.get_of_unpruned pruned]
  dsimp only [started]
  rw [VerkleTree.get_root_storage, VerkleTree.leaves_fresh, VerkleTree.leaves, VerkleTree.storedValue, empty]
  rfl

variable [SchnorrScheme] [Channel] [Wasmer]

/-- Apply a block, whatever its outcome. -/
def stepBlock (session : Session S) (block : BlockNode) : Session S := session.step (.applyBlock block)

variable {outpoints : Set OutPoint} {session : Session S} {block : BlockNode}

theorem Unpruned.step (kept : Unpruned outpoints session) (creates : CreatesAt outpoints block) :
    Unpruned outpoints (stepBlock session block) := by
  refine ⟨step_sound kept.sound _, ?_, ?_⟩ <;> dsimp only [stepBlock, Session.step] <;>
    rcases kept.sound.apply_block_cases block session.utxo with ⟨later, left, ran⟩ | ⟨error, failed⟩
  · obtain ⟨tree, _, pruned, _, untouched⟩ := (apply_block_ok ran).written
    rw [untouched creates.plain] at pruned
    rw [ran]
    exact pruned.trans kept.unpruned
  · rw [failed]
    exact (VerkleTree.cloned_pruned _).trans kept.unpruned
  · rw [ran]
    intro outpoint outside
    have absent := kept.outside outpoint outside
    have never := fun output member => outside (creates.created outpoint output member)
    have untaken : .take outpoint ∉ block.moves := by
      intro taken
      obtain ⟨before, rest, split⟩ := List.append_of_mem taken
      obtain ⟨output, put⟩ := Books.replaced_of_absent (apply_block_ok ran).played absent never before rest split
      exact never output (by rw [split]; simp [put])
    exact (Books.play_untouched (apply_block_ok ran).played untaken never).trans absent
  · rw [failed]
    exact kept.outside

/-- One block keeps the tree in step exactly when it is refused or creates again what it spends. -/
theorem Unpruned.synced_iff (kept : Unpruned outpoints session) (separated : Separated outpoints)
    (creates : CreatesAt outpoints block) (synced : Synced outpoints session) :
    Synced outpoints (stepBlock session block) ↔ Replacing session block := by
  have accepts : (session.manager.applyBlock block session.utxo).1 = .ok () ↔
      Acceptable (session.manager.books session.utxo) block :=
    apply_block_ok_iff creates.plain kept.sound.coherent kept.sound.indexed kept.sound.idle
  unfold Replacing
  rw [← accepts]
  dsimp only [stepBlock, Session.step]
  rcases kept.sound.apply_block_cases block session.utxo with ⟨later, left, ran⟩ | ⟨error, failed⟩
  · rw [ran]
    dsimp only
    rw [(apply_block_ok ran).synced_iff separated creates kept.unpruned kept.outside synced]
    exact ⟨fun replaced _ => replaced, fun replacing => replacing rfl⟩
  · rw [failed]
    refine iff_of_true (fun outpoint inside => ?_) fun absurdity => nomatch absurdity
    have pruned : session.manager.tree.cloned.prunedKeys = ∅ := (VerkleTree.cloned_pruned _).trans kept.unpruned
    have before := synced outpoint inside
    rw [VerkleTree.get_of_unpruned kept.unpruned] at before
    dsimp only
    rw [VerkleTree.get_of_unpruned pruned, kept.sound.coherent.cloned_storage]
    exact before

/-- The Verkle state is the set of unspent outputs in every state of a run of blocks if and only if
every block that is applied creates again whatever it spends. -/
theorem verkle_synced_iff_replacing {storage : S} (empty : ∀ key, Storage.get storage key = none)
    {tree : VerkleTree S} (fresh : VerkleTree.new storage = .ok tree) {manager : StateManager S}
    (made : StateManager.new tree = .ok manager) (separated : Separated outpoints) (blocks : List BlockNode)
    (creates : ∀ block ∈ blocks, CreatesAt outpoints block) :
    Runs.Always stepBlock ⟨manager, .new⟩ (Synced outpoints) blocks ↔
      Runs.Meets stepBlock ⟨manager, .new⟩ Replacing blocks := by
  have treeSame : VerkleTree.fresh storage = tree := Except.ok.inj ((VerkleTree.new_ok storage).symm.trans fresh)
  subst treeSame
  have managerSame : started (VerkleTree.fresh storage) = manager :=
    Except.ok.inj ((new_ok (VerkleTree.fresh_coherent storage)).symm.trans made)
  subst managerSame
  obtain ⟨kept, synced⟩ := started_synced storage empty outpoints
  refine Runs.always_iff_meets (Unpruned outpoints) (Synced outpoints) kept synced ?_ ?_ blocks creates
  · intro session block creates kept
    exact kept.step creates
  · intro session block creates kept synced
    exact kept.synced_iff separated creates synced

end Runs

section Spending
open Klomang.Sample

/-- The outpoint of a coinbase of five. -/
def coin : OutPoint := ((reward 5).id, 0)

/-- The outpoint of what spends it. -/
def change : OutPoint := ((spend coin 5).id, 0)

/-- A block that creates a coin and spends it again. -/
def spending : BlockNode := blockOf [reward 5, spend coin 5]

theorem spending_moves : spending.moves =
    [.put coin ⟨5, .replicate 9⟩, .take coin, .put change ⟨5, .replicate 9⟩] := by
  simp [spending, blockOf, BlockNode.moves, Transaction.moves, Transaction.created, reward, spend, Transaction.new,
    coin, change, TxInput.outpoint]

theorem spending_creates : CreatesAt {coin, change} spending where
  plain := by decide
  created := by
    intro outpoint output member
    rw [spending_moves] at member
    simp only [List.mem_cons, Move.put.injEq, reduceCtorEq, List.not_mem_nil, or_false, false_or] at member
    rcases member with ⟨rfl, _⟩ | ⟨rfl, _⟩
    · exact .inl rfl
    · exact .inr rfl

theorem coins_separated : Separated {coin, change} where
  injective := by
    rintro left (rfl | rfl) right (rfl | rfl) same <;> first | exact absurd same (by decide +kernel) | rfl
  apart := by
    rintro outpoint (rfl | rfl) <;> decide +kernel

theorem spending_played : (manager.books .new).ledger spending.moves = some
    ⟨Finmap.insert change ⟨5, .replicate 9⟩ (Finmap.erase coin (Finmap.insert coin ⟨5, .replicate 9⟩ ∅)), 5⟩ := by
  rw [spending_moves, Books.ledger, Books.play_cons, Books.move, Option.bind_some, Books.play_cons, Books.move]
  dsimp only
  rw [Finmap.lookup_insert]
  rfl

/-- After a first coinbase the tree is in step. -/
theorem reward_synced : Synced {coin} (Runs.run stepBlock ⟨manager, .new⟩ [blockOf [reward 5]]) := by
  have separated : Separated {coin} :=
    ⟨Set.injOn_singleton _ _, fun outpoint inside => by rw [inside]; exact coins_separated.apart coin (.inl rfl)⟩
  have creates : ∀ block ∈ [blockOf [reward 5]], CreatesAt {coin} block := by
    intro block member
    rw [List.mem_singleton.mp member]
    refine ⟨by decide, fun outpoint output created => ?_⟩
    obtain ⟨rfl, _⟩ := Move.put.inj (List.mem_singleton.mp created)
    rfl
  refine (verkle_synced_iff_replacing (fun _ => rfl) (VerkleTree.new_ok _) manager_made separated _ creates).mpr ?_
    _ (List.prefix_refl _)
  refine (Runs.meets_snoc [] _).mpr ⟨Runs.meets_nil, fun _ outpoint before rest split => ?_⟩
  have put : ∃ output, (blockOf [reward 5]).moves = [.put coin output] := ⟨_, rfl⟩
  obtain ⟨output, put⟩ := put
  rw [put, eq_comm, List.append_eq_singleton_iff] at split
  simp at split

/-- A coin that is created and spent is no longer unspent, but its leaf is still there. -/
theorem spent_leaf_stays :
    let reached := Runs.run stepBlock ⟨manager, .new⟩ [spending]
    Separated {coin, change} ∧ CreatesAt {coin, change} spending ∧
      reached.utxo.utxos.lookup coin = none ∧
      reached.manager.tree.get coin.key = .ok (some (TxOutput.serialize ⟨5, .replicate 9⟩)) := by
  obtain ⟨kept, synced⟩ := started_synced (∅ : MemoryStorage) (fun _ => rfl) {coin, change}
  have noBurn : NoBurn spending.moves := (burn_update_none _).mp (by decide +kernel)
  have accepted := apply_block_accepts spending_creates.plain kept.sound.coherent kept.sound.indexed
    kept.sound.idle spending_played noBurn (show 5 ≤ EconomicConstants.maxGlobalSupplyNanoSlug by decide)
  obtain ⟨later, left, ran⟩ : ∃ later left, manager.applyBlock spending .new = (.ok (), later, left) :=
    accepted.imp fun _ ran => ⟨_, ran⟩
  have applied := apply_block_ok ran
  have reached : Runs.run stepBlock ⟨manager, .new⟩ [spending] = ⟨later, left⟩ := by
    rw [Runs.run, List.foldl_cons, List.foldl_nil, stepBlock, Session.step, ran]
  have leaf := (applied.leaf coins_separated spending_creates kept.unpruned (.inl rfl) (synced coin (.inl rfl))).2
  have entry := Books.play_lookup applied.played coin
  dsimp only
  rw [reached]
  refine ⟨coins_separated, spending_creates, entry.trans ?_, leaf.trans ?_⟩ <;> rw [spending_moves]
  · simp [Books.settle]
    decide +kernel
  · simp [Books.record]

end Spending
end Klomang.StateManager
