import Klomang.StateManager.Supply

/-! When the tracked supply is exact. It counts every output that is created and every one that
is spent, but not those that disappear in another way: an output put over an unspent one
with the same outpoint, and an output that a pruning cycle removes. -/
namespace Klomang.StateManager

section Statement
variable [Blake3] [Bandersnatch] {S : Type} [Storage S]

/-- The unspent outputs are worth the tracked supply, and the cross-check finds nothing wrong
with it: all it can report is the root of the tree. -/
structure Exact (session : Session S) : Prop where
  total : session.utxo.totalValue = session.manager.currentTotalSupply
  unreported : ∀ error,
    (session.manager.crossCheckSupplyConsistency session.utxo).1 = .error (.err error) →
      error = .applyBlockFailed "Root hash mismatch between snapshot and current tree"

/-- Nothing of value disappears: no block that the books accept puts an output over an unspent
one that is worth something, and no outpoint that a pruning cycle gets to remove holds a value. -/
def Lossless (session : Session S) : Call → Prop
  | .applyBlock block => Acceptable (session.manager.books session.utxo) block →
      Books.lost TxOutput.amount session.utxo.utxos block.moves = 0
  | .executePruningCycle order epochThreshold =>
    ∀ outpoint ∈ session.manager.doomed (session.manager.keysToPrune order epochThreshold),
      session.utxo.valueAt outpoint = 0
  | _ => True

/-- A block of plain transactions whose outputs fit in memory. -/
structure PlainBlock (block : BlockNode) : Prop where
  plain : ∀ tx ∈ block.transactions, tx.Plain
  representable : (block.transactions.flatMap Transaction.outputs).length < 2 ^ 64

end Statement

theorem PlainBlock.fits {block : BlockNode} (plainBlock : PlainBlock block) :
    EconomicConstants.maxGlobalSupplyNanoSlug + block.outputValue ≤ u128Max := by
  have each : ∀ amount ∈ (block.transactions.flatMap Transaction.outputs).map TxOutput.amount,
      amount ≤ 2 ^ 64 - 1 := by
    intro amount member
    obtain ⟨output, _, rfl⟩ := List.mem_map.mp member
    exact Nat.le_pred_of_lt output.value.toNat_lt
  have sum := List.sum_le_card_nsmul _ _ each
  rw [List.length_map, smul_eq_mul] at sum
  have most : block.outputValue ≤ (2 ^ 64 - 1) * (2 ^ 64 - 1) :=
    sum.trans (Nat.mul_le_mul_right _ (Nat.le_pred_of_lt plainBlock.representable))
  unfold EconomicConstants.maxGlobalSupplyNanoSlug u128Max
  omega

section Steps
variable [Blake3] [Bandersnatch] {S : Type} [Storage S] {manager : StateManager S} {utxo : UtxoSet}

/-- With an exact supply within the cap the cross-check never gets as far as a supply error. -/
theorem cross_check_unreported (coherent : manager.tree.Coherent) (covers : Covers manager utxo 0) :
    ∀ error, (manager.crossCheckSupplyConsistency utxo).1 = .error (.err error) →
      error = .applyBlockFailed "Root hash mismatch between snapshot and current tree" := by
  intro error reported
  have exact : utxo.totalValue = manager.currentTotalSupply := covers.balanced
  have small : ¬ utxo.totalValue > u128Max := by
    have capped := covers.capped
    unfold EconomicConstants.maxGlobalSupplyNanoSlug at capped
    unfold u128Max
    omega
  have rooted := get_root_hash_eq manager coherent.get_root.1
  unfold crossCheckSupplyConsistency at reported
  dsimp only at reported
  rw [if_neg small, if_neg (not_not.mpr exact), rooted] at reported
  dsimp only at reported
  split at reported
  · cases reported
  · split at reported
    · cases reported
      rfl
    · cases reported

theorem Covers.exact (covers : Covers manager utxo 0) (coherent : manager.tree.Coherent) :
    Exact ⟨manager, utxo⟩ := ⟨covers.balanced, cross_check_unreported coherent covers⟩

variable [SchnorrScheme] [Channel] [Wasmer]

/-- Between covering sessions without slack, a call leaves no slack exactly when it is lossless. -/
theorem step_exact_iff {session : Session S} {call : Call} (accounting : Accounting PlainBlock call)
    (sound : session.manager.Sound) (covers : Covers session.manager session.utxo 0) :
    Covers (session.step call).manager (session.step call).utxo 0 ↔ Lossless session call := by
  cases call with
  | applyBlock block =>
    have plainBlock : PlainBlock block := accounting
    have accepts : (session.manager.applyBlock block session.utxo).1 = .ok () ↔
        Acceptable (session.manager.books session.utxo) block :=
      apply_block_ok_iff plainBlock.plain sound.coherent sound.indexed sound.idle
    dsimp only [Session.step, Lossless]
    rw [← accepts]
    rcases sound.apply_block_cases block session.utxo with ⟨later, left, ran⟩ | ⟨error, failed⟩
    · rw [ran]
      have after := (apply_block_ok ran).covers covers plainBlock.fits
      rw [Nat.zero_add] at after
      constructor
      · intro exact _
        have balanced := after.balanced
        rw [← exact.balanced] at balanced
        exact Nat.add_left_cancel balanced
      · intro lossless
        rwa [lossless rfl] at after
    · rw [failed]
      exact iff_of_true ⟨covers.balanced, covers.capped⟩ fun absurdity => nomatch absurdity
  | markOutpointForPruning outpoint epoch timestamp =>
    exact iff_of_true ⟨covers.balanced, covers.capped⟩ trivial
  | executePruningCycle order epochThreshold =>
    have after := covers.pruned order epochThreshold
    rw [Nat.zero_add] at after
    dsimp only [Session.step, Lossless]
    have nothing := List.sum_eq_zero_iff
      (l := (session.manager.doomed (session.manager.keysToPrune order epochThreshold)).map session.utxo.valueAt)
    rw [List.forall_mem_map] at nothing
    rw [← nothing]
    constructor
    · intro exact
      have balanced := after.balanced
      rw [← exact.balanced] at balanced
      exact Nat.add_left_cancel balanced
    · intro lossless
      rwa [lossless] at after
  | _ => exact accounting.elim

/-- Supply accounting: the unspent outputs are worth exactly the tracked supply in every state of a
run if and only if all its calls are lossless. -/
theorem supply_exact_iff_lossless {tree : VerkleTree S} (built : VerkleTree.Built tree)
    (made : StateManager.new tree = .ok manager) (calls : List Call)
    (accounting : ∀ call ∈ calls, Accounting PlainBlock call) :
    Runs.Always Session.step ⟨manager, .new⟩ Exact calls ↔
      Runs.Meets Session.step ⟨manager, .new⟩ Lossless calls := by
  have initial : manager.Sound := run_sound built made .new []
  have covered : Covers manager .new 0 := by
    rw [new_ok built.coherent] at made
    cases made
    exact ⟨rfl, Nat.zero_le _⟩
  have fits : ∀ block, PlainBlock block →
      EconomicConstants.maxGlobalSupplyNanoSlug + block.outputValue ≤ u128Max := fun _ plainBlock => plainBlock.fits
  have always : Runs.Always Session.step ⟨manager, .new⟩
      (fun session : Session S => Covers session.manager session.utxo 0) calls ↔
        Runs.Meets Session.step ⟨manager, .new⟩ Lossless calls :=
    Runs.always_iff_meets (fun session : Session S => session.manager.Sound)
      (fun session => Covers session.manager session.utxo 0) initial covered
      (fun _ call _ sound => step_sound sound call)
      (fun session call allowed sound covers => step_exact_iff allowed sound covers) calls accounting
  rw [← always]
  -- in every state reached the supply is within the cap, so being exact is being covered without slack
  refine forall₂_congr fun before partly => ?_
  obtain ⟨sound, slack, covers⟩ := run_covers built made fits before (Runs.prefix_admitted partly accounting)
  constructor
  · intro exact
    exact ⟨exact.total, covers.capped⟩
  · intro covers
    exact covers.exact sound.coherent

end Steps

section Rewards
open Klomang.Sample

theorem rewards_played : (manager.books .new).ledger (blockOf [reward 5, reward 5]).moves =
    some ⟨Finmap.insert ((reward 5).id, 0) ⟨5, .replicate 9⟩
      (Finmap.insert ((reward 5).id, 0) ⟨5, .replicate 9⟩ ∅), 10⟩ := rfl

/-- After a block with one coinbase the supply is exact. -/
theorem reward_accounted :
    Exact (Runs.run Session.step ⟨manager, .new⟩ [.applyBlock (blockOf [reward 5])]) := by
  refine (supply_exact_iff_lossless manager_built manager_made [.applyBlock (blockOf [reward 5])] ?_).mpr ?_ _
    (List.prefix_refl _)
  · intro call member
    rw [List.mem_singleton.mp member]
    exact ⟨by decide, by decide⟩
  · refine (Runs.meets_snoc [] _).mpr ⟨Runs.meets_nil, fun _ => ?_⟩
    rfl

/-- Two coinbases with the same content have the same id: the second one is put over the first,
and the supply counts both. -/
theorem repeated_reward_miscounted :
    let reached := Runs.run Session.step ⟨manager, .new⟩ [.applyBlock (blockOf [reward 5, reward 5])]
    reached.utxo.totalValue = 5 ∧ reached.manager.currentTotalSupply = 10 ∧ ¬ Exact reached := by
  have coherent : manager.tree.Coherent := (started_sound manager_built.coherent).coherent
  have noBurn : NoBurn (blockOf [reward 5, reward 5]).moves := (burn_update_none _).mp (by decide +kernel)
  have plain : ∀ tx ∈ (blockOf [reward 5, reward 5]).transactions, tx.Plain := by decide
  obtain ⟨later, ran⟩ := apply_block_accepts plain coherent (by decide) rfl rewards_played noBurn (by decide)
  have reached : Runs.run Session.step ⟨manager, .new⟩ [.applyBlock (blockOf [reward 5, reward 5])] =
      ⟨later, ⟨Finmap.insert ((reward 5).id, 0) ⟨5, .replicate 9⟩
        (Finmap.insert ((reward 5).id, 0) ⟨5, .replicate 9⟩ ∅)⟩⟩ := by
    rw [Runs.run, List.foldl_cons, List.foldl_nil, Session.step, ran]
  have supply : 10 = later.currentTotalSupply :=
    congrArg Books.account (Option.some.inj (rewards_played.symm.trans (apply_block_ok ran).played))
  dsimp only
  rw [reached]
  have total : UtxoSet.totalValue ⟨Finmap.insert ((reward 5).id, 0) ⟨5, .replicate 9⟩
      (Finmap.insert ((reward 5).id, 0) ⟨5, .replicate 9⟩ ∅)⟩ = 5 := by decide +kernel
  refine ⟨total, supply.symm, fun exact => ?_⟩
  have same := exact.total
  rw [total, ← supply] at same
  cases same

end Rewards
end Klomang.StateManager
