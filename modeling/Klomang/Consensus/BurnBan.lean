import Klomang.Consensus.Reward
import Klomang.Lib.Runs
import Klomang.Sample
import Klomang.State.UtxoEdits
import Klomang.State.VTrieContents

/-! The ban on burning outputs, in its three places. `validate_tx` looks for the hash of the zero address; the state
tree and the coinbase check look for the zero address itself. -/
namespace Klomang.BurnBan
open EconomicConstants

section Places
variable [Blake3] [SchnorrScheme]

/-- What `validate_tx` says of a burn. -/
def burnError : CoreError := .transactionError "Output to zero address (burn) is prohibited by economic policy"

/-- What `apply_state_transition` says of a burn. -/
def blockedError (key : Bytes32) : CoreError :=
  .invalidState ("State transition blocked: attempt to send to burn address in key " ++ VerkleTree.debugKey key)

/-- What `validate_coinbase_reward` says of a burn. -/
def coinbaseError (idx : Nat) : CoreError :=
  .transactionError ("Coinbase output " ++ toString idx ++ " is sent to burn address (zero address) - prohibited")

/-- Every transaction with the output is refused as a burn. -/
def RefusedByLedger (output : TxOutput) : Prop :=
  ∀ (set : UtxoSet) (tx : Transaction), output ∈ tx.outputs → set.validateTx tx = .error burnError

/-- Every update with the serialized output is refused as a burn. -/
def RefusedByTree {S : Type} [Storage S] [Bandersnatch] (tree : VerkleTree S) (output : TxOutput) : Prop :=
  ∀ (updates : List (Bytes32 × List UInt8)) (newTotalSupply : Nat), (∃ key, (key, output.serialize) ∈ updates) →
    ∃ key, (tree.applyStateTransition updates newTotalSupply).1 = .error (blockedError key)

omit [SchnorrScheme] in
/-- Every coinbase with the output that pays the right amount is refused as a burn. -/
def RefusedByCoinbase (output : TxOutput) : Prop :=
  ∀ (block : BlockNode) (tx : Transaction), block.transactions.find? Transaction.isCoinbase = some tx →
    output ∈ tx.outputs →
      ∃ idx, Reward.validateCoinbaseReward block (tx.outputs.map fun output => output.value.toNat).sum =
        .error (coinbaseError idx)

variable (output : TxOutput)

theorem refused_by_ledger_iff : RefusedByLedger output ↔ output.pubkeyHash = Hash.new burnAddress.bytes := by
  constructor
  · intro refused
    by_contra other
    have accepted := refused .new { id := .ofNat 0, inputs := [], outputs := [output] } (by simp)
    simp [UtxoSet.validateTx, other, Transaction.isCoinbase] at accepted
  · intro burns set tx member
    have found : (tx.outputs.any fun output => output.pubkeyHash = Hash.new burnAddress.bytes) = true := by
      simpa using ⟨output, member, burns⟩
    simp [UtxoSet.validateTx, found, burnError]

omit [Blake3] [SchnorrScheme] in
/-- An update carries a burn exactly when it reads as an output to the zero address. -/
theorem burn_update_carried (updates : List (Bytes32 × List UInt8)) (burns : output.pubkeyHash = burnAddress)
    (carried : ∃ key, (key, output.serialize) ∈ updates) : ∃ key, VerkleTree.burnUpdate updates = some key := by
  obtain ⟨key, member⟩ := carried
  rw [← Option.isSome_iff_exists, VerkleTree.burnUpdate, Option.isSome_map, List.find?_isSome]
  exact ⟨_, member, by simp [deserialize_serialize, burns]⟩

omit [SchnorrScheme] in
theorem refused_by_tree_iff {S : Type} [Storage S] [Bandersnatch] (tree : VerkleTree S) :
    RefusedByTree tree output ↔ output.pubkeyHash = burnAddress := by
  constructor
  · intro refused
    by_contra other
    obtain ⟨key, accepted⟩ := refused [(burnAddress, output.serialize)] 0 ⟨burnAddress, by simp⟩
    have harmless : VerkleTree.burnUpdate [(burnAddress, output.serialize)] = none := by
      simp [VerkleTree.burnUpdate, deserialize_serialize, other]
    simp [VerkleTree.applyStateTransition, harmless] at accepted
  · intro burns updates newTotalSupply carried
    obtain ⟨key, found⟩ := burn_update_carried output updates burns carried
    exact ⟨key, by simp [VerkleTree.applyStateTransition, found, blockedError]⟩

omit [Blake3] [SchnorrScheme] in
theorem refused_by_coinbase_iff : RefusedByCoinbase output ↔ output.pubkeyHash = burnAddress := by
  constructor
  · intro refused
    by_contra other
    let coinbase : Transaction := { id := .ofNat 0, inputs := [], outputs := [output] }
    let block : BlockNode :=
      ⟨⟨.ofNat 0, ∅, 0, 1, 0, .ofNat 0, none, none⟩, ∅, none, ∅, ∅, 0, [coinbase]⟩
    obtain ⟨idx, accepted⟩ := refused block coinbase rfl (by simp [coinbase])
    simp [Reward.validateCoinbaseReward, Reward.validateCoinbaseRewardInternal, block, coinbase, other,
      Transaction.isCoinbase] at accepted
  · intro burns block tx found member
    have some : tx.outputs.isEmpty = false := by
      cases outputs : tx.outputs with
      | nil => simp [outputs] at member
      | cons => rfl
    have burned : (tx.outputs.findIdx? fun output => output.pubkeyHash = burnAddress).isSome = true := by
      simpa using ⟨output, member, burns⟩
    obtain ⟨idx, first⟩ := Option.isSome_iff_exists.mp burned
    exact ⟨idx, by simp [Reward.validateCoinbaseReward, Reward.validateCoinbaseRewardInternal, found, some, first,
      coinbaseError]⟩

/-- The three places agree on an output. -/
def BanAgrees {S : Type} [Storage S] [Bandersnatch] (tree : VerkleTree S) (output : TxOutput) : Prop :=
  (RefusedByLedger output ↔ RefusedByTree tree output) ∧ (RefusedByTree tree output ↔ RefusedByCoinbase output)

end Places

section Ledger
variable [Blake3] [SchnorrScheme]

/-- One call of `apply_tx`. -/
def applyStep (set : UtxoSet) (tx : Transaction) : UtxoSet := (set.applyTx tx).2

/-- No output of the set has the zero address. -/
def NoBurnHeld (set : UtxoSet) : Prop :=
  ∀ outpoint output, set.utxos.lookup outpoint = some output → output.pubkeyHash ≠ burnAddress

/-- A transaction that is accepted leaves no output at the zero address. -/
def MakesNoBurn (set : UtxoSet) (tx : Transaction) : Prop :=
  (∃ fee, set.validateTx tx = .ok fee) →
    ∀ outpoint output, UtxoSet.made tx outpoint = some output → output.pubkeyHash ≠ burnAddress

theorem no_burn_held_step {set : UtxoSet} (held : NoBurnHeld set) (tx : Transaction) :
    NoBurnHeld (applyStep set tx) ↔ MakesNoBurn set tx := by
  cases checked : set.validateTx tx with
  | error error =>
    simp only [applyStep, UtxoSet.apply_tx_error checked, MakesNoBurn, checked, reduceCtorEq, exists_false,
      false_implies, iff_true]
    exact held
  | ok fee =>
    simp only [applyStep, UtxoSet.apply_tx_ok checked, NoBurnHeld, MakesNoBurn, checked, Except.ok.injEq, exists_eq',
      forall_const, UtxoSet.lookup_after]
    constructor
    · intro safe outpoint output makes
      exact safe outpoint output (by simp [makes])
    · intro safe outpoint output found
      cases makes : UtxoSet.made tx outpoint with
      | some here =>
        rw [makes, Option.some_or] at found
        exact safe outpoint output (makes.trans found)
      | none =>
        rw [makes, Option.none_or] at found
        split at found
        · cases found
        · exact held outpoint output found

/-- The three bans agree on an output exactly when it has the zero address and the hash of the zero address together
or not at all; and along a run of transactions no output at the zero address is ever held exactly when no
transaction that is accepted leaves one. -/
theorem burn_ban_agrees_iff {S : Type} [Storage S] [Bandersnatch] (tree : VerkleTree S) :
    (∀ output : TxOutput, BanAgrees tree output ↔
      (output.pubkeyHash = Hash.new burnAddress.bytes ↔ output.pubkeyHash = burnAddress)) ∧
    ∀ txs : List Transaction,
      Runs.Always applyStep .new NoBurnHeld txs ↔ Runs.Meets applyStep .new MakesNoBurn txs := by
  constructor
  · intro output
    rw [BanAgrees, refused_by_ledger_iff, refused_by_tree_iff, refused_by_coinbase_iff]
    exact and_iff_left Iff.rfl
  · intro txs
    have empty : NoBurnHeld .new := by
      intro outpoint output found
      simp [UtxoSet.new] at found
    refine Runs.always_iff_meets (fun _ => True) NoBurnHeld trivial empty (fun _ _ _ _ => trivial) ?_ txs
      (fun _ _ => trivial : ∀ tx ∈ txs, True)
    exact fun set tx _ _ held => no_burn_held_step held tx

end Ledger

section Witness
open Klomang.Sample

/-- A coinbase that pays the zero address. -/
def burning : Transaction := .new [] [⟨5, burnAddress⟩]

/-- An output to the hash of the zero address. -/
def hashed : TxOutput := ⟨5, Hash.new burnAddress.bytes⟩

/-- The ledger lets an output to the zero address in, which the other two places refuse, and refuses the hash of the
zero address, which they let through. -/
theorem burn_is_held :
    RefusedByCoinbase ⟨5, burnAddress⟩ ∧ ¬ RefusedByLedger ⟨5, burnAddress⟩ ∧
      RefusedByLedger hashed ∧ ¬ RefusedByCoinbase hashed ∧ ¬ NoBurnHeld (applyStep .new burning) := by
  have apart : burnAddress ≠ Hash.new burnAddress.bytes := by decide +kernel
  refine ⟨(refused_by_coinbase_iff _).mpr rfl, fun refused => apart ((refused_by_ledger_iff _).mp refused),
    (refused_by_ledger_iff _).mpr rfl, fun refused => apart ((refused_by_coinbase_iff _).mp refused).symm, ?_⟩
  intro safe
  exact safe (burning.id, 0) ⟨5, burnAddress⟩ (by decide +kernel) rfl

end Witness
end Klomang.BurnBan
