import Klomang.StateManager.Heights
import Klomang.StateManager.Sample

/-! What the tracked supply says about the unspent outputs. It never falls short of what they
are worth and stays within the supply cap, so no subtraction from it saturates. -/
namespace Klomang

/-- The values of the outputs of a block, added up. -/
def BlockNode.outputValue (block : BlockNode) : Nat :=
  ((block.transactions.flatMap Transaction.outputs).map TxOutput.amount).sum

section Deposits

theorem deposits_takes (inputs : List TxInput) :
    Books.deposits TxOutput.amount (inputs.map fun input => .take input.outpoint) = 0 := by
  rw [Books.deposits, List.map_map]
  exact List.sum_eq_zero fun amount member => by
    obtain ⟨input, _, rfl⟩ := List.mem_map.mp member
    rfl

/-- A transaction adds the values of its outputs. -/
theorem deposits_transaction (tx : Transaction) :
    Books.deposits TxOutput.amount tx.moves = (tx.outputs.map TxOutput.amount).sum := by
  have values : (tx.outputs.zipIdx.map fun item => item.1.amount) = tx.outputs.map TxOutput.amount := by
    conv_rhs => rw [← List.zipIdx_map_fst 0 tx.outputs, List.map_map]
    rfl
  rw [Transaction.moves_eq, Books.deposits_append, deposits_takes, Nat.zero_add, Books.deposits, List.map_map,
    ← values]
  rfl

theorem deposits_transactions (txs : List Transaction) :
    Books.deposits TxOutput.amount (txs.flatMap Transaction.moves) =
      ((txs.flatMap Transaction.outputs).map TxOutput.amount).sum := by
  induction txs with
  | nil => rfl
  | cons tx rest ih =>
    rw [List.flatMap_cons, Books.deposits_append, deposits_transaction, ih, List.flatMap_cons, List.map_append,
      List.sum_append]

theorem deposits_block (block : BlockNode) :
    Books.deposits TxOutput.amount block.moves = block.outputValue := deposits_transactions _

end Deposits

/-- The values held by one hash are part of the total. -/
theorem UtxoSet.held_le_total (set : UtxoSet) (pubkeyHash : Hash) : set.heldBy pubkeyHash ≤ set.totalValue := by
  refine FiniteMap.total_mono set.utxos fun output => ?_
  split
  · exact Nat.le_refl _
  · exact Nat.zero_le _

namespace StateManager

section Removable

/-- The outpoints that pruning gets to remove: those with a key, up to the first whose leaf is gone. -/
def removable (index : FiniteMap OutPoint Bytes32) (stored : Bytes32 → Bool) : List OutPoint → List OutPoint
  | [] => []
  | outpoint :: rest =>
    match index.lookup outpoint with
    | none => removable index stored rest
    | some key =>
      if stored key then
        outpoint :: removable (index.erase outpoint) (fun other => decide (other ≠ key) && stored other) rest
      else []

theorem removable_indexed {index : FiniteMap OutPoint Bytes32} {stored : Bytes32 → Bool}
    {outpoints : List OutPoint} :
    ∀ outpoint ∈ removable index stored outpoints, index.lookup outpoint ≠ none := by
  induction outpoints generalizing index stored with
  | nil => exact fun _ member => nomatch member
  | cons first rest ih =>
    intro outpoint member
    rw [removable] at member
    cases indexed : index.lookup first with
    | none =>
      rw [indexed] at member
      exact ih outpoint member
    | some key =>
      rw [indexed] at member
      dsimp only at member
      split at member
      · rcases List.mem_cons.mp member with rfl | later
        · simp [indexed]
        · have kept := ih outpoint later
          rw [FiniteMap.lookup_erase_ite] at kept
          split at kept
          · exact absurd rfl kept
          · exact kept
      · cases member

end Removable

section Cover
variable [Blake3] [Bandersnatch] {S : Type}

/-- The tracked supply exceeds what the unspent outputs are worth by some slack, within the cap. -/
structure Covers (manager : StateManager S) (utxo : UtxoSet) (slack : Nat) : Prop where
  balanced : utxo.totalValue + slack = manager.currentTotalSupply
  capped : manager.currentTotalSupply ≤ EconomicConstants.maxGlobalSupplyNanoSlug

variable [Storage S] {manager later : StateManager S} {utxo left : UtxoSet} {block : BlockNode} {slack : Nat}

/-- A block leaves as much more slack as it puts over outputs that are still unspent. -/
theorem Applied.covers (applied : Applied manager utxo block later left) (covers : Covers manager utxo slack)
    (fits : EconomicConstants.maxGlobalSupplyNanoSlug + block.outputValue ≤ u128Max) :
    Covers later left (slack + Books.lost TxOutput.amount utxo.utxos block.moves) := by
  have within : (manager.books utxo).account + Books.deposits TxOutput.amount block.moves ≤ u128Max := by
    rw [deposits_block]
    exact (Nat.add_le_add_right covers.capped _).trans fits
  exact ⟨(Books.play_balance slack applied.played covers.balanced within).1, applied.capped⟩

/-- What a pruning cycle gets to remove. -/
def doomed (manager : StateManager S) (outpoints : List OutPoint) : List OutPoint :=
  removable manager.outpointToKey (fun key => VerkleTree.storedNode manager.tree.storage key.bytes) outpoints

/-- Pruning takes the value of every outpoint it gets to remove out of the set. -/
theorem prune_each_total (outpoints pruned : List OutPoint) (manager : StateManager S) (utxo : UtxoSet) :
    (pruneEach outpoints pruned manager utxo).2.2.totalValue +
      ((manager.doomed outpoints).map utxo.valueAt).sum = utxo.totalValue := by
  induction outpoints generalizing pruned manager utxo with
  | nil => exact Nat.add_zero _
  | cons outpoint rest ih =>
    rw [pruneEach, doomed, removable]
    cases indexed : manager.outpointToKey.lookup outpoint with
    | none => exact ih pruned manager utxo
    | some key =>
      dsimp only
      rcases VerkleTree.prune_key_cases manager.tree key with ⟨absent, error, failed⟩ | ⟨present, deleted, left⟩
      · rcases ran : manager.tree.pruneKey key with ⟨outcome, tree⟩
        rw [ran] at failed
        cases failed
        rw [absent, if_neg Bool.false_ne_true]
        exact Nat.add_zero _
      · rcases ran : manager.tree.pruneKey key with ⟨outcome, tree⟩
        rw [ran] at deleted left
        cases deleted
        rw [present, if_pos rfl, List.map_cons, List.sum_cons]
        have erased := FiniteMap.total_erase TxOutput.amount utxo.utxos outpoint
        have further := ih (pruned ++ [outpoint])
          { manager with
            tree
            outpointToKey := manager.outpointToKey.erase outpoint
            pruneMarkers := manager.pruneMarkers.erase outpoint } ⟨utxo.utxos.erase outpoint⟩
        rw [doomed] at further
        simp only [left] at further
        -- an outpoint that is pruned later is another one
        have others : (removable (manager.outpointToKey.erase outpoint)
              (fun other => decide (other ≠ key) && VerkleTree.storedNode manager.tree.storage other.bytes)
              rest).map (UtxoSet.valueAt ⟨utxo.utxos.erase outpoint⟩) =
            (removable (manager.outpointToKey.erase outpoint)
              (fun other => decide (other ≠ key) && VerkleTree.storedNode manager.tree.storage other.bytes)
              rest).map utxo.valueAt := by
          refine List.map_congr_left fun other member => ?_
          have stillIndexed := removable_indexed other member
          rw [FiniteMap.lookup_erase_ite] at stillIndexed
          rw [UtxoSet.valueAt, FiniteMap.lookup_erase_ite, UtxoSet.valueAt]
          split
          · rename_i same
            rw [if_pos same] at stillIndexed
            exact absurd rfl stillIndexed
          · rfl
        rw [others] at further
        rw [UtxoSet.value_at_weight]
        unfold UtxoSet.totalValue at further ⊢
        exact (Nat.add_left_comm _ _ _).trans ((congrArg _ further).trans ((Nat.add_comm _ _).trans erased))

/-- A pruning cycle leaves as much more slack as the outpoints it removes were worth. -/
theorem Covers.pruned (covers : Covers manager utxo slack) (order : Enumeration OutPoint)
    (epochThreshold : UInt64) :
    Covers (manager.executePruningCycle order epochThreshold utxo).2.1
      (manager.executePruningCycle order epochThreshold utxo).2.2
      (slack + ((manager.doomed (manager.keysToPrune order epochThreshold)).map utxo.valueAt).sum) := by
  have removed := prune_each_total (manager.keysToPrune order epochThreshold) [] manager utxo
  obtain ⟨⟨tree, index, markers, pruned, _⟩, _⟩ := prune_each_frame
    (manager.keysToPrune order epochThreshold) [] manager utxo
  have supply : (manager.executePruningCycle order epochThreshold utxo).2.1.currentTotalSupply =
      manager.currentTotalSupply := by rw [executePruningCycle, pruned]
  refine ⟨?_, by rw [supply]; exact covers.capped⟩
  rw [supply, ← covers.balanced, ← removed]
  unfold executePruningCycle
  omega

end Cover

section Saturation
variable [Blake3] [Bandersnatch] [Wasmer] {S : Type} [Storage S]

/-- Where a transaction of a block starts to spend: after the transactions before it, and
after its own contract when it has one. -/
inductive SpendsFrom (manager : StateManager S) (utxo : UtxoSet) (before : List Transaction)
    (tx : Transaction) : StateManager S → UtxoSet → Prop where
  | plain {applied : StateManager S} {left : UtxoSet} (plain : tx.Plain)
      (ran : applyTransactions before ({ manager with applyingBlock := true } : StateManager S).startBlock utxo =
        (.ok (), applied, left)) : SpendsFrom manager utxo before tx applied left
  | contract {applied executed : StateManager S} {left : UtxoSet} (contract : ¬ tx.Plain)
      (ran : applyTransactions before ({ manager with applyingBlock := true } : StateManager S).startBlock utxo =
        (.ok (), applied, left))
      (finished : applied.executeContract tx = (.ok (), executed)) :
      SpendsFrom manager utxo before tx executed left

/-- No input of a block spends more than the tracked supply at that point. -/
def NeverSaturates (manager : StateManager S) (utxo : UtxoSet) (block : BlockNode) : Prop :=
  ∀ before tx after, block.transactions = before ++ tx :: after →
    ∀ spender left, SpendsFrom manager utxo before tx spender left →
      ∀ spent input rest, tx.inputs = spent ++ input :: rest →
        ∀ paying remaining, spendInputs tx spent spender left = (.ok (), paying, remaining) →
          ∀ output, remaining.utxos.lookup input.outpoint = some output →
            output.value.toNat ≤ paying.currentTotalSupply

variable {manager : StateManager S} {utxo : UtxoSet} {block : BlockNode} {slack : Nat}

/-- Up to where a transaction starts to spend, the books moved by the transactions before it. -/
theorem SpendsFrom.played {before : List Transaction} {tx : Transaction} {spender : StateManager S}
    {left : UtxoSet} (starts : SpendsFrom manager utxo before tx spender left) :
    (manager.books utxo).ledger (before.flatMap Transaction.moves) = some (spender.books left) := by
  cases starts with
  | plain _ ran => exact (apply_transactions_played ran).1
  | @contract applied executed _ _ ran finished =>
    obtain ⟨tree, fees, contract, _⟩ := execute_contract_frame applied tx
    rw [finished] at contract
    cases contract
    exact (apply_transactions_played ran).1

theorem Covers.never_saturates (covers : Covers manager utxo slack)
    (fits : EconomicConstants.maxGlobalSupplyNanoSlug + block.outputValue ≤ u128Max) :
    NeverSaturates manager utxo block := by
  intro before tx after listed spender left starts spent input rest inputs paying remaining spending output found
  have played : (manager.books utxo).ledger
      (before.flatMap Transaction.moves ++ spent.map fun input => .take input.outpoint) =
        some (paying.books remaining) := by
    rw [Books.ledger_append, starts.played]
    exact spend_inputs_played spending
  have within : (manager.books utxo).account + Books.deposits TxOutput.amount
      (before.flatMap Transaction.moves ++ spent.map fun input => .take input.outpoint) ≤ u128Max := by
    have part : Books.deposits TxOutput.amount (before.flatMap Transaction.moves) ≤ block.outputValue := by
      rw [← deposits_block, BlockNode.moves, listed, List.flatMap_append, Books.deposits_append]
      exact Nat.le_add_right _ _
    rw [Books.deposits_append, deposits_takes, Nat.add_zero]
    exact (Nat.add_le_add covers.capped part).trans fits
  exact Books.never_overdrawn slack played covers.balanced within found

end Saturation

section Runs
variable [Blake3] [Bandersnatch] [SchnorrScheme] [Channel] [Wasmer] {S : Type} [Storage S]

/-- The calls that account for outputs: blocks with a bound, marks and pruning cycles. -/
def Accounting (bounded : BlockNode → Prop) : Call → Prop
  | .applyBlock block => bounded block
  | .markOutpointForPruning _ _ _ => True
  | .executePruningCycle _ _ => True
  | _ => False

variable {bounded : BlockNode → Prop}

/-- Every accounting call keeps the unspent outputs covered. -/
theorem step_covers
    (fits : ∀ block, bounded block → EconomicConstants.maxGlobalSupplyNanoSlug + block.outputValue ≤ u128Max)
    {session : Session S} {call : Call} (accounting : Accounting bounded call) (sound : session.manager.Sound)
    {slack : Nat} (covers : Covers session.manager session.utxo slack) :
    ∃ slack, Covers (session.step call).manager (session.step call).utxo slack := by
  cases call with
  | applyBlock block =>
    dsimp only [Session.step]
    rcases sound.apply_block_cases block session.utxo with ⟨later, left, ran⟩ | ⟨error, failed⟩
    · rw [ran]
      exact ⟨_, (apply_block_ok ran).covers covers (fits block accounting)⟩
    · rw [failed]
      exact ⟨slack, covers.balanced, covers.capped⟩
  | markOutpointForPruning outpoint epoch timestamp => exact ⟨slack, covers.balanced, covers.capped⟩
  | executePruningCycle order epochThreshold => exact ⟨_, covers.pruned order epochThreshold⟩
  | _ => exact accounting.elim

theorem run_covers {tree : VerkleTree S} (built : VerkleTree.Built tree) {manager : StateManager S}
    (made : StateManager.new tree = .ok manager)
    (fits : ∀ block, bounded block → EconomicConstants.maxGlobalSupplyNanoSlug + block.outputValue ≤ u128Max)
    (calls : List Call) (accounting : ∀ call ∈ calls, Accounting bounded call) :
    let reached := Runs.run Session.step ⟨manager, .new⟩ calls
    reached.manager.Sound ∧ ∃ slack, Covers reached.manager reached.utxo slack := by
  refine Runs.run_invariant (fun session : Session S => session.manager.Sound ∧
    ∃ slack, Covers session.manager session.utxo slack) (Accounting bounded) ?_ ?_ calls accounting
  · refine ⟨run_sound built made .new [], 0, ?_, ?_⟩ <;> rw [new_ok built.coherent] at made <;> cases made
    · rw [UtxoSet.totalValue, UtxoSet.new, FiniteMap.total_empty]
      rfl
    · exact Nat.zero_le _
  · rintro session call allowed ⟨sound, slack, covers⟩
    exact ⟨step_sound sound call, step_covers fits allowed sound covers⟩

/-- The hard cap on held value: after any blocks and prunings the unspent outputs are worth at
most the tracked supply, which is at most the supply cap; no input ever spends more than
the tracked supply, and no balance overflows. -/
theorem held_value_capped {tree : VerkleTree S} (built : VerkleTree.Built tree) {manager : StateManager S}
    (made : StateManager.new tree = .ok manager) (calls : List Call)
    (accounting : ∀ call ∈ calls, Accounting (fun block => block.outputValue < 2 ^ 127) call) :
    let reached := Runs.run Session.step ⟨manager, .new⟩ calls
    reached.utxo.totalValue ≤ reached.manager.currentTotalSupply ∧
      reached.manager.currentTotalSupply ≤ 600_000_000_000_000_000 ∧
      (∀ block : BlockNode, block.outputValue < 2 ^ 127 → NeverSaturates reached.manager reached.utxo block) ∧
      ∀ pubkeyHash, (reached.utxo.getBalance pubkeyHash).toNat = reached.utxo.heldBy pubkeyHash := by
  intro reached
  have fits : ∀ block : BlockNode, block.outputValue < 2 ^ 127 →
      EconomicConstants.maxGlobalSupplyNanoSlug + block.outputValue ≤ u128Max := by
    intro block bounded
    unfold EconomicConstants.maxGlobalSupplyNanoSlug u128Max
    omega
  obtain ⟨_, slack, covers⟩ := run_covers built made fits calls accounting
  have total : reached.utxo.totalValue ≤ reached.manager.currentTotalSupply := Nat.le.intro covers.balanced
  refine ⟨total, covers.capped, fun block bounded => covers.never_saturates (fits block bounded), ?_⟩
  intro pubkeyHash
  have held := (reached.utxo.held_le_total pubkeyHash).trans (total.trans covers.capped)
  have fits : reached.utxo.heldBy pubkeyHash < 2 ^ 64 := by
    unfold EconomicConstants.maxGlobalSupplyNanoSlug at held
    omega
  exact UInt64.toNat_ofNat_of_lt' fits

end Runs

section Reward
open Klomang.Sample

/-- After the same coinbase twice the one output that is left is covered. -/
theorem reward_covered :
    let reached := Runs.run Session.step ⟨manager, .new⟩
      [.applyBlock (blockOf [reward 5]), .applyBlock (blockOf [reward 5])]
    reached.utxo.totalValue ≤ reached.manager.currentTotalSupply ∧
      NeverSaturates reached.manager reached.utxo (blockOf [spend ((reward 5).id, 0) 5]) := by
  have accounting : ∀ call ∈ [Call.applyBlock (blockOf [reward 5]), .applyBlock (blockOf [reward 5])],
      Accounting (fun block => block.outputValue < 2 ^ 127) call := by
    intro call member
    rcases List.mem_pair.mp member with rfl | rfl <;>
      exact (show (blockOf [reward 5]).outputValue < 2 ^ 127 by decide)
  obtain ⟨total, _, never, _⟩ := held_value_capped manager_built manager_made _ accounting
  exact ⟨total, never _ (by decide)⟩

end Reward
end StateManager
end Klomang
