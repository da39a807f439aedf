import Klomang.State.BlockchainRuns
import Klomang.StateManager.PruningCycle
import Klomang.StateManager.TwoLedgers

/-! The two ledgers over a run: the state manager with its set of unspent outputs, and a `BlockchainState` that is given
the same blocks, marks and pruning cycles. They keep their prune markers in different ways, so this takes outpoints
that are not marked before they are created. -/
namespace Klomang.StateManager
open BlockchainState (createdBy spentBy)
open BlockchainState.Whole (Applies toPrune erased prune_older_than_eq mem_to_prune to_prune_nodup lookup_erased)

section Ledgers
variable [Blake3] [Bandersnatch] [SchnorrScheme] [Channel] [Wasmer] {S : Type} [Storage S]

/-- Both ledgers. -/
structure Ledgers (S : Type) [Storage S] [Blake3] [Bandersnatch] where
  session : Session S
  state : BlockchainState.Whole

/-- A call for both ledgers, and the order in which the blockchain state iterates its markers. -/
abbrev SharedCall : Type := Call × Enumeration OutPoint

/-- What a blockchain state makes of a call. -/
def follow (state : BlockchainState.Whole) (order : Enumeration OutPoint) : Call → BlockchainState.Whole
  | .applyBlock block => (state.applyBlock block).2
  | .markOutpointForPruning outpoint epoch timestamp => state.markLeafForPruning outpoint epoch timestamp
  | .executePruningCycle _ epochThreshold => (state.pruneOlderThan order epochThreshold).2
  | _ => state

def Ledgers.step (ledgers : Ledgers S) (call : SharedCall) : Ledgers S :=
  ⟨ledgers.session.step call.1, follow ledgers.state call.2 call.1⟩

/-- Blocks of plain transactions that create outputs at some outpoints, marks and pruning cycles. -/
def Common (outpoints : Set OutPoint) : Call → Prop
  | .applyBlock block => CreatesAt outpoints block
  | .markOutpointForPruning _ _ _ => True
  | .executePruningCycle _ _ => True
  | _ => False

/-- A block is applied by both ledgers, and creates no outpoint that either of them has marked. -/
def Accepted (ledgers : Ledgers S) (call : SharedCall) : Prop :=
  ∀ block, call.1 = .applyBlock block →
    Applies ledgers.state block ∧ (ledgers.session.manager.applyBlock block ledgers.session.utxo).1 = .ok () ∧
      ∀ tx ∈ block.transactions, ∀ outpoint ∈ createdBy tx,
        ledgers.session.manager.pruneMarkers.lookup outpoint = none ∧ ledgers.state.pruneMarkers.lookup outpoint = none

/-- The ledgers hold the same outputs, and any pruning cycle now goes through on both of them, leaves the same outputs
again and returns the same outpoints, but for those that are marked and not held. -/
def InStep (ledgers : Ledgers S) : Prop :=
  ledgers.session.utxo = ledgers.state.utxoSet ∧
    ∀ (order other : Enumeration OutPoint) (epochThreshold : UInt64), ∃ pruned later state,
      ledgers.session.manager.executePruningCycle order epochThreshold ledgers.session.utxo =
        (.ok pruned, later, state.utxoSet) ∧
      ∃ returned, ledgers.state.pruneOlderThan other epochThreshold = (.ok returned, state) ∧
        pruned.Perm (returned.filter fun outpoint => (ledgers.state.utxoSet.utxos.lookup outpoint).isSome)

/-- What keeps the ledgers in step: every held output is indexed and has its leaf, and both ledgers mark it alike. -/
structure Together (outpoints : Set OutPoint) (ledgers : Ledgers S) : Prop where
  sound : ledgers.session.manager.Sound
  leaves : LeavesHeld outpoints ledgers.session.manager
  indexed : Indexed ledgers.session.manager.outpointToKey ledgers.session.utxo.utxos
  outputs : ledgers.session.utxo = ledgers.state.utxoSet
  marks : ∀ outpoint, ledgers.session.utxo.utxos.lookup outpoint ≠ none →
    ledgers.session.manager.pruneMarkers.lookup outpoint = ledgers.state.pruneMarkers.lookup outpoint

end Ledgers

section Steps
variable [Blake3] [Bandersnatch] {S : Type} [Storage S] {ledgers : Ledgers S} {outpoints : Set OutPoint}
  {order other : Enumeration OutPoint} {epochThreshold : UInt64} {outpoint : OutPoint}

/-- Of the held outpoints, both ledgers prune the same. -/
theorem Together.due_iff (together : Together outpoints ledgers) (other : Enumeration OutPoint)
    (held : ledgers.session.utxo.utxos.lookup outpoint ≠ none) :
    outpoint ∈ ledgers.session.manager.indexed (ledgers.session.manager.keysToPrune order epochThreshold) ↔
      outpoint ∈ ledgers.state.toPrune other epochThreshold := by
  have named : (ledgers.session.manager.outpointToKey.lookup outpoint).isSome = true := by
    rw [together.indexed outpoint, Option.isSome_map]
    exact Option.isSome_iff_ne_none.mpr held
  rw [mem_indexed_iff, mem_to_prune]
  constructor
  · rintro ⟨_, marker, found, due⟩
    exact ⟨marker, together.marks outpoint held ▸ found, due⟩
  · rintro ⟨marker, found, due⟩
    exact ⟨named, marker, (together.marks outpoint held).trans found, due⟩

/-- What is pruned from the index was held. -/
theorem Together.held_of_due (together : Together outpoints ledgers)
    (due : outpoint ∈ ledgers.session.manager.indexed (ledgers.session.manager.keysToPrune order epochThreshold)) :
    ledgers.session.utxo.utxos.lookup outpoint ≠ none := by
  have named := (mem_indexed_iff.mp due).indexed
  rw [together.indexed outpoint, Option.isSome_map] at named
  exact Option.isSome_iff_ne_none.mp named

/-- A pruning cycle on both ledgers. -/
theorem Together.cycle (together : Together outpoints ledgers) (injective : Set.InjOn OutPoint.key outpoints)
    (order other : Enumeration OutPoint) (epochThreshold : UInt64) :
    ∃ later, ledgers.session.manager.executePruningCycle order epochThreshold ledgers.session.utxo =
        (.ok (ledgers.session.manager.indexed (ledgers.session.manager.keysToPrune order epochThreshold)), later,
          (ledgers.state.erased (ledgers.state.toPrune other epochThreshold)).utxoSet) ∧
      Removed ledgers.session.manager ledgers.session.utxo
        (ledgers.session.manager.indexed (ledgers.session.manager.keysToPrune order epochThreshold)) later
        (ledgers.state.erased (ledgers.state.toPrune other epochThreshold)).utxoSet := by
  have distinct : (ledgers.session.manager.keysToPrune order epochThreshold).Nodup := (order.nodup _).filter _
  rcases prune_each_cases [] ledgers.session.manager ledgers.session.utxo distinct with
    ⟨_, later, left, ran, removed⟩ | ⟨blocked, _⟩
  · have same : left = (ledgers.state.erased (ledgers.state.toPrune other epochThreshold)).utxoSet := by
      apply BlockchainState.utxo_set_ext
      intro outpoint
      rw [removed.outputs, (lookup_erased _ _ _).1, ← together.outputs]
      by_cases held : ledgers.session.utxo.utxos.lookup outpoint = none
      · rw [held, ite_self, ite_self]
      · simp only [together.due_iff other held]
    subst same
    exact ⟨later, ran, removed⟩
  · exact absurd (together.leaves.clear injective distinct) blocked

theorem Together.in_step (together : Together outpoints ledgers) (injective : Set.InjOn OutPoint.key outpoints) :
    InStep ledgers := by
  refine ⟨together.outputs, fun order other epochThreshold => ?_⟩
  obtain ⟨later, ran, _⟩ := together.cycle injective order other epochThreshold
  refine ⟨_, later, _, ran, _, prune_older_than_eq _ _ _, ?_⟩
  have distinct : (ledgers.session.manager.keysToPrune order epochThreshold).Nodup := (order.nodup _).filter _
  refine (List.perm_ext_iff_of_nodup (distinct.filter _) ((to_prune_nodup _ _ _).filter _)).mpr fun outpoint => ?_
  refine Iff.trans ?_ List.mem_filter.symm
  rw [← together.outputs]
  constructor
  · intro due
    have held := together.held_of_due due
    exact ⟨(together.due_iff other held).mp due, Option.isSome_iff_ne_none.mpr held⟩
  · rintro ⟨due, held⟩
    exact (together.due_iff other (Option.isSome_iff_ne_none.mp held)).mpr due

/-- Pruning on both ledgers keeps them together. -/
theorem Together.pruned (together : Together outpoints ledgers) (injective : Set.InjOn OutPoint.key outpoints)
    {later : StateManager S} {left : UtxoSet} {gone : List OutPoint} (sound : later.Sound)
    (indexed : Indexed later.outpointToKey left.utxos)
    (removed : Removed ledgers.session.manager ledgers.session.utxo gone later left)
    (outputs : left = (ledgers.state.erased (ledgers.state.toPrune other epochThreshold)).utxoSet)
    (due : ∀ outpoint, ledgers.session.utxo.utxos.lookup outpoint ≠ none →
      (outpoint ∈ gone ↔ outpoint ∈ ledgers.state.toPrune other epochThreshold)) :
    Together outpoints ⟨⟨later, left⟩, ledgers.state.erased (ledgers.state.toPrune other epochThreshold)⟩ where
  sound := sound
  leaves := together.leaves.removed injective removed
  indexed := indexed
  outputs := outputs
  marks := by
    intro outpoint held
    dsimp only at held ⊢
    rw [removed.outputs] at held
    split at held
    · exact absurd rfl held
    next stays =>
      rw [removed.markers, if_neg stays, (lookup_erased _ _ _).2, if_neg ((due outpoint held).not.mp stays)]
      exact together.marks outpoint held

variable [Wasmer]

omit [Blake3] [Bandersnatch] [Wasmer] in
/-- What a block takes away, one of its transactions spends. -/
theorem spent_of_take {block : BlockNode} (taken : .take outpoint ∈ block.moves) :
    ∃ tx ∈ block.transactions, outpoint ∈ spentBy tx := by
  obtain ⟨tx, inside, made⟩ := List.mem_flatMap.mp taken
  refine ⟨tx, inside, ?_⟩
  rcases List.mem_append.mp made with take | put
  · obtain ⟨input, spends, same⟩ := List.mem_map.mp take
    cases same
    exact List.mem_map_of_mem spends
  · obtain ⟨_, _, same⟩ := List.mem_map.mp put
    cases same

/-- A block that is applied leaves the marks, but for those of what it spends. -/
theorem marks_after_block {manager later : StateManager S} {utxo left : UtxoSet} {block : BlockNode}
    (ran : manager.applyBlock block utxo = (.ok (), later, left)) (outpoint : OutPoint) :
    later.pruneMarkers.lookup outpoint = manager.pruneMarkers.lookup outpoint ∨
      later.pruneMarkers.lookup outpoint = none ∧ ∃ tx ∈ block.transactions, outpoint ∈ spentBy tx := by
  rw [(apply_block_reindexed ran).markers, Edit.lookup_replay]
  cases last : Edit.last outpoint (block.moves.filterMap Move.markerEdit) with
  | none => exact .inl rfl
  | some value =>
    obtain ⟨move, made, marked⟩ := List.mem_filterMap.mp (Edit.mem_of_last last)
    cases move with
    | put other output => cases marked
    | take other =>
      cases marked
      exact .inr ⟨rfl, spent_of_take made⟩

variable [SchnorrScheme]

/-- A block that both ledgers apply keeps them together, when it creates nothing that is marked. -/
theorem Together.applied (together : Together outpoints ledgers) {block : BlockNode} (creates : CreatesAt outpoints block)
    (applies : Applies ledgers.state block)
    (accepts : (ledgers.session.manager.applyBlock block ledgers.session.utxo).1 = .ok ())
    (unmarked : ∀ tx ∈ block.transactions, ∀ outpoint ∈ createdBy tx,
      ledgers.session.manager.pruneMarkers.lookup outpoint = none ∧ ledgers.state.pruneMarkers.lookup outpoint = none)
    (sound : (ledgers.session.manager.applyBlock block ledgers.session.utxo).2.1.Sound) :
    Together outpoints ⟨⟨(ledgers.session.manager.applyBlock block ledgers.session.utxo).2.1,
      (ledgers.session.manager.applyBlock block ledgers.session.utxo).2.2⟩, (ledgers.state.applyBlock block).2⟩ := by
  rcases ran : ledgers.session.manager.applyBlock block ledgers.session.utxo with ⟨outcome, later, left⟩
  rw [ran] at accepts sound
  cases accepts
  have after := applies.after
  have outputs : left = (ledgers.state.applyBlock block).2.utxoSet := by
    rcases together.sound.agrees creates.plain applies.ran with ⟨_, agreed⟩ | ⟨_, _, _, _, failed, _⟩
    · rw [← together.outputs, ran] at agreed
      cases agreed
      rw [together.outputs]
      exact (congrArg (·.utxoSet) after).symm
    · rw [← together.outputs, ran] at failed
      cases failed
  refine ⟨sound, ?_, ?_, outputs, fun outpoint held => ?_⟩
  · exact together.leaves.apply_block creates ran
  · dsimp only
    rw [(apply_block_reindexed ran).index]
    exact Indexed.replayed (ledgers.session.manager.books ledgers.session.utxo) together.indexed (apply_block_ok ran).played
  · dsimp only at held ⊢
    have kept : (ledgers.state.applyBlock block).2.pruneMarkers = ledgers.state.pruneMarkers :=
      congrArg (·.pruneMarkers) after
    rw [kept]
    by_cases created : ∃ tx ∈ block.transactions, outpoint ∈ createdBy tx
    · obtain ⟨tx, member, here⟩ := created
      obtain ⟨bare, alsoBare⟩ := unmarked tx member outpoint here
      rw [alsoBare]
      rcases marks_after_block ran outpoint with same | ⟨gone, _⟩
      · rw [same, bare]
      · exact gone
    · -- what is held and was not created was held before and is not spent
      have looks := BlockchainState.Whole.lookup_run_uncreated ledgers.state.utxoSet
        fun tx member here => created ⟨tx, member, here⟩
      rw [outputs, show (ledgers.state.applyBlock block).2.utxoSet = _ from congrArg (·.utxoSet) after] at held
      dsimp only at held
      rw [looks] at held
      split at held
      · exact absurd rfl held
      next unspent =>
        rcases marks_after_block ran outpoint with same | ⟨_, spent⟩
        · rw [same]
          exact together.marks outpoint (together.outputs ▸ held)
        · exact absurd spent unspent

variable [Channel]

/-- A call that both ledgers accept keeps them together. -/
theorem Together.step (together : Together outpoints ledgers) (injective : Set.InjOn OutPoint.key outpoints)
    {call : SharedCall} (common : Common outpoints call.1) (accepted : Accepted ledgers call) :
    Together outpoints (ledgers.step call) := by
  obtain ⟨call, other⟩ := call
  have sound := step_sound together.sound call
  cases call with
  | applyBlock block =>
    obtain ⟨applies, accepts, unmarked⟩ := accepted block rfl
    exact together.applied common applies accepts unmarked sound
  | markOutpointForPruning outpoint epoch timestamp =>
    refine ⟨sound, together.leaves, together.indexed, together.outputs, fun named held => ?_⟩
    have before := together.marks named held
    dsimp only [Ledgers.step, Session.step, follow, markOutpointForPruning, BlockchainState.Whole.markLeafForPruning]
    rw [FiniteMap.lookup_insert_ite, FiniteMap.lookup_insert_ite, before]
  | executePruningCycle order epochThreshold =>
    have indexed := prune_each_indexed (ledgers.session.manager.keysToPrune order epochThreshold) [] together.indexed
    obtain ⟨later, ran, removed⟩ := together.cycle injective order other epochThreshold
    rw [← executePruningCycle, ran] at indexed
    dsimp only [Session.step] at sound
    rw [ran] at sound
    dsimp only [Ledgers.step, Session.step, follow]
    rw [ran, prune_older_than_eq]
    exact together.pruned injective sound indexed removed rfl fun outpoint held => together.due_iff other held
  | _ => exact common.elim

/-- The two ledgers stay in step: over every run of blocks that both apply and that create nothing marked, of marks and of
pruning cycles, they hold the same outputs in every state reached, and every pruning cycle goes through on both and
prunes the same of what is held. -/
theorem ledgers_stay_in_step {tree : VerkleTree S} (built : VerkleTree.Built tree) {manager : StateManager S}
    (made : StateManager.new tree = .ok manager) (injective : Set.InjOn OutPoint.key outpoints)
    (calls : List SharedCall) (common : ∀ call ∈ calls, Common outpoints call.1)
    (accepted : Runs.Meets Ledgers.step ⟨⟨manager, .new⟩, .new⟩ Accepted calls) :
    Runs.Always Ledgers.step ⟨⟨manager, .new⟩, .new⟩ InStep calls := by
  have initial : Together outpoints (⟨⟨manager, .new⟩, .new⟩ : Ledgers S) := by
    have sound := run_sound built made .new []
    rw [new_ok built.coherent] at made
    cases made
    refine ⟨sound, fun outpoint key found => ?_, fun outpoint => rfl, rfl, fun outpoint held => absurd rfl held⟩
    cases found
  intro before partly
  refine Together.in_step ?_ injective
  induction before using List.reverseRecOn with
  | nil => exact initial
  | append_singleton before call ih =>
    rw [Runs.run_snoc]
    exact (ih ((List.prefix_append before [call]).trans partly)).step injective
      (common call (partly.subset (by simp))) (accepted before call partly)

end Steps

section Witness
open Klomang.Sample

/-- The ledgers stay in step over a coinbase and a mark on its output. -/
theorem marked_reward_in_step : ∃ order : Enumeration OutPoint,
    Runs.Always Ledgers.step ⟨⟨manager, .new⟩, .new⟩ InStep
      [(.applyBlock (blockOf [reward 5]), order), (.markOutpointForPruning coin 1 0, order)] := by
  obtain ⟨order, _⟩ := Enumeration.exists_last coin
  refine ⟨order, ledgers_stay_in_step manager_built manager_made (Set.injOn_singleton OutPoint.key coin) _ ?_ ?_⟩
  · intro call member
    rcases List.mem_pair.mp member with rfl | rfl
    · refine ⟨by decide, fun outpoint output created => ?_⟩
      obtain ⟨rfl, _⟩ := Move.put.inj (List.mem_singleton.mp created)
      rfl
    · trivial
  · refine (Runs.meets_cons _ _).mpr ⟨fun block same => ?_, (Runs.meets_cons _ _).mpr ⟨nofun, Runs.meets_nil⟩⟩
    cases same
    obtain ⟨later, left, ran⟩ := reward_applied
    exact ⟨rfl, congrArg Prod.fst ran, fun _ _ _ _ => ⟨rfl, rfl⟩⟩

end Witness
end Klomang.StateManager
