import Klomang.Consensus.Fees
import Klomang.Vm.Metering

/-! The gas of contract transactions: the check before the executor, the witness of the fee behind it, and what the
reward pool gets. The check agrees with the charges of the executor. The witness multiplies the fee by the share of the
miner without a check, and the pool is given the gas limit, not the gas used. -/
namespace Klomang.StateManager

section Check

/-- What `apply_contract_transition` answers when the gas limit is too low. -/
def insufficientGas (tx : Transaction) : Abort StateManagerError :=
  .err (.applyBlockFailed ("Insufficient gas limit (" ++ toString tx.gasLimit ++ "), required " ++
    toString (requiredGas tx.executionPayload) ++ " for intrinsic+payload cost " ++
    toString tx.executionPayload.length ++ " bytes"))

/-- A payload of less than 2^59 bytes costs what its bytes cost. -/
theorem required_gas_eq {payload : List UInt8} (short : payload.length < 2 ^ 59) :
    requiredGas payload = GasMeter.intrinsicGas + GasMeter.byteCosts payload := by
  have bytes := GasMeter.byte_costs_le payload
  have intrinsic : GasMeter.intrinsicGas = 21_000 := rfl
  have wrapped := GasMeter.fold_wrapping payload (show 0 < 2 ^ 64 by decide)
  rw [Nat.zero_add, Nat.mod_eq_of_lt (show GasMeter.byteCosts payload < 2 ^ 64 by omega)] at wrapped
  change saturatingAdd GasMeter.intrinsicGas
    (payload.foldl (fun total byte => (total + GasMeter.byteCost byte) % 2 ^ 64) 0) = _
  rw [wrapped, GasMeter.saturating_add_fits (by omega)]

theorem head_of_text {text : String} {start : Char} (starts : text.toList.head? = some start) (rest : String) :
    (text ++ rest).toList.head? = some start := by
  rw [String.toList_append, List.head?_append, starts]
  rfl

/-- The text of a failed gas check begins like no other of these failures. -/
theorem insufficient_gas_text (tx : Transaction) {text : String}
    (same : Abort.err (.applyBlockFailed text) = insufficientGas tx) : text.toList.head? = some 'I' := by
  cases same
  refine head_of_text (head_of_text (head_of_text (head_of_text (head_of_text (head_of_text ?_ _) _) _) _) _) _
  decide

variable [Blake3] [Bandersnatch] {S : Type} {manager later : StateManager S} {utxo left : UtxoSet} {tx : Transaction}
  {error : Abort StateManagerError}

/-- An input that is missing is told as such. -/
theorem spend_inputs_error {inputs : List TxInput}
    (failed : spendInputs tx inputs manager utxo = (.error error, later, left)) :
    ∃ text : String, error = .err (.applyBlockFailed text) ∧ text.toList.head? = some 'M' := by
  induction inputs generalizing manager utxo with
  | nil => cases failed
  | cons input rest ih =>
    rw [spendInputs] at failed
    split at failed
    · cases failed
      exact ⟨_, rfl, head_of_text (head_of_text (head_of_text (by decide) _) _) _⟩
    · exact ih failed

theorem apply_utxo_transaction_error (failed : manager.applyUtxoTransaction tx utxo = (.error error, later, left)) :
    ∃ text : String, error = .err (.applyBlockFailed text) ∧ text.toList.head? = some 'M' := by
  unfold applyUtxoTransaction at failed
  split at failed
  · rename_i spending
    cases failed
    exact spend_inputs_error spending
  · cases failed

variable [Wasmer] [Storage S]

/-- `apply_contract_transition` stops at its gas check. -/
def StopsAtGasCheck (manager : StateManager S) (tx : Transaction) (utxo : UtxoSet) : Prop :=
  (manager.applyContractTransition tx utxo).1 = .error (insufficientGas tx)

theorem execute_contract_refused (short : tx.gasLimit.toNat < requiredGas tx.executionPayload) :
    manager.executeContract tx = (.error (insufficientGas tx), manager) := by
  unfold executeContract
  dsimp only
  rw [if_pos short]
  rfl

/-- Behind the check a contract fails with a text of its own. -/
theorem execute_contract_failed (enough : requiredGas tx.executionPayload ≤ tx.gasLimit.toNat)
    (failed : manager.executeContract tx = (.error error, later)) : error ≠ insufficientGas tx := by
  unfold executeContract at failed
  rw [VerkleTree.clone_ok] at failed
  dsimp only at failed
  rw [if_neg (Nat.not_lt.mpr enough)] at failed
  split at failed
  · cases failed
  · cases failed
    intro same
    cases same
  · cases failed
    intro same
    have start := insufficient_gas_text tx same
    rw [head_of_text (show "VM execution failed: ".toList.head? = some 'V' by decide)] at start
    cases start

/-- A call stops at the gas check when the limit is below what the payload requires. -/
theorem stops_at_gas_check_iff :
    StopsAtGasCheck manager tx utxo ↔ tx.gasLimit.toNat < requiredGas tx.executionPayload := by
  rw [StopsAtGasCheck, applyContractTransition]
  by_cases short : tx.gasLimit.toNat < requiredGas tx.executionPayload
  · rw [execute_contract_refused short]
    exact iff_of_true rfl short
  refine iff_of_false ?_ short
  rcases ran : manager.executeContract tx with ⟨outcome, later⟩
  cases outcome with
  | error error => exact fun same => execute_contract_failed (Nat.not_lt.mp short) ran (Except.error.inj same)
  | ok _ =>
    intro stopped
    dsimp only at stopped
    rcases applied : later.applyUtxoTransaction tx utxo with ⟨outcome, _, _⟩
    rw [applied] at stopped
    dsimp only at stopped
    subst stopped
    obtain ⟨text, same, start⟩ := apply_utxo_transaction_error applied
    rw [insufficient_gas_text tx same.symm] at start
    cases start

/-- The gas check passes exactly when the executor's charges before the module go through, and these are then what it
requires and leave the rest of the limit to the module. -/
theorem gas_check_agrees (manager : StateManager S) (utxo : UtxoSet) (short : tx.executionPayload.length < 2 ^ 59) :
    (¬ StopsAtGasCheck manager tx utxo ↔ ∃ charged gas, (GasMeter.new tx.gasLimit).chargeIntrinsic = (.ok (), charged) ∧
      charged.chargePayload tx.executionPayload = (.ok (), gas)) ∧
    ∀ charged gas, (GasMeter.new tx.gasLimit).chargeIntrinsic = (.ok (), charged) →
      charged.chargePayload tx.executionPayload = (.ok (), gas) →
      gas.consumedHost = requiredGas tx.executionPayload ∧ gas.consumedHost ≤ tx.gasLimit.toNat := by
  rw [stops_at_gas_check_iff, required_gas_eq short, Nat.not_lt]
  constructor
  · constructor
    · intro enough
      obtain ⟨charged, intrinsic, payload⟩ :=
        (GasMeter.precharge_ok_iff tx.gasLimit tx.executionPayload).mpr ⟨enough, rfl⟩
      exact ⟨charged, _, intrinsic, payload⟩
    · rintro ⟨charged, gas, intrinsic, payload⟩
      exact ((GasMeter.precharge_ok_iff _ _).mp ⟨charged, intrinsic, payload⟩).1
  · intro charged gas intrinsic payload
    obtain ⟨enough, rfl⟩ := (GasMeter.precharge_ok_iff _ _).mp ⟨charged, intrinsic, payload⟩
    exact ⟨rfl, enough⟩

end Check

section Split
open EconomicConstants (minerRewardPercent)
variable {gasUsed price : Nat}

/-- The witness of a fee splits the gas used at its price by four fifths, and no product exceeds 128 bits. -/
structure SplitExact (witness : GasFeeWitness) (gasUsed price : Nat) : Prop where
  total : witness.totalGasFee = gasUsed * price
  miner : witness.minerShare = 80 * witness.totalGasFee / 100
  shares : witness.minerShare + witness.fullnodeShare = witness.totalGasFee
  unwrapped : gasUsed * price ≤ u128Max ∧ witness.totalGasFee * minerRewardPercent ≤ u128Max

/-- A product that wraps loses more than a hundred, so that the share of the miner shows it. -/
theorem wrapped_share {product : Nat} (exact : product % 2 ^ 128 / 100 = product / 100) : product ≤ u128Max := by
  rw [u128Max]
  omega

/-- The amounts of a witness are those of the split exactly when eighty times the fee fits into 128 bits. -/
theorem witness_amounts_iff :
    ((createGasFeeWitness (min (gasUsed * price) u128Max)).totalGasFee = gasUsed * price ∧
      (createGasFeeWitness (min (gasUsed * price) u128Max)).minerShare = 80 * (gasUsed * price) / 100) ↔
    80 * (gasUsed * price) ≤ u128Max := by
  rw [createGasFeeWitness]
  dsimp only
  generalize gasUsed * price = fee
  have limit : u128Max = 2 ^ 128 - 1 := rfl
  have percent : fee * minerRewardPercent = 80 * fee := Nat.mul_comm _ _
  constructor
  · rintro ⟨whole, miner⟩
    rw [whole, percent] at miner
    exact wrapped_share miner
  · intro fits
    have whole : min fee u128Max = fee := by omega
    rw [whole, percent, Nat.mod_eq_of_lt (by omega)]
    exact ⟨rfl, rfl⟩

/-- The share of the miner is never more than the fee. -/
theorem miner_share_le (totalGasFee : Nat) : (createGasFeeWitness totalGasFee).minerShare ≤ totalGasFee := by
  have wrapped := Nat.mod_le (totalGasFee * minerRewardPercent) (2 ^ 128)
  rw [createGasFeeWitness]
  rw [minerRewardPercent] at wrapped ⊢
  dsimp only
  omega

theorem witness_split_iff :
    SplitExact (createGasFeeWitness (min (gasUsed * price) u128Max)) gasUsed price ↔
      80 * (gasUsed * price) ≤ u128Max := by
  rw [← witness_amounts_iff]
  constructor
  · intro split
    exact ⟨split.total, split.miner.trans (by rw [split.total])⟩
  · rintro ⟨total, miner⟩
    have fits := witness_amounts_iff.mp ⟨total, miner⟩
    have part := miner_share_le (min (gasUsed * price) u128Max)
    refine ⟨total, miner.trans (by rw [total]), ?_, by omega, ?_⟩
    · exact Nat.add_sub_cancel' part
    · rw [total, minerRewardPercent, Nat.mul_comm]
      exact fits

/-- The verifier computes like the witness, so that it accepts every witness, whatever wrapped. -/
theorem witness_verified {totalGasFee : Nat} (narrow : totalGasFee ≤ u128Max) :
    verifyGasFeeDistribution (createGasFeeWitness totalGasFee) = true := by
  have part := miner_share_le totalGasFee
  have limit : u128Max = 2 ^ 128 - 1 := rfl
  rw [createGasFeeWitness] at part
  rw [verifyGasFeeDistribution, createGasFeeWitness]
  dsimp only at part ⊢
  rw [Nat.add_sub_cancel' part, Nat.mod_eq_of_lt (show totalGasFee < 2 ^ 128 by omega)]
  simp

variable [Blake3] [Bandersnatch] [Wasmer] {S : Type} [Storage S] {manager later : StateManager S}
  {utxo left : UtxoSet} {tx : Transaction}

omit [Wasmer] [Storage S] in
/-- Applying the outputs of a transaction leaves the gas fees alone. -/
theorem apply_utxo_transaction_fees (ran : manager.applyUtxoTransaction tx utxo = (.ok (), later, left)) :
    later.blockGasFees = manager.blockGasFees := by
  have kept := (apply_utxo_transaction_grown manager tx utxo).2
  rwa [ran] at kept

/-- A contract transaction that is applied adds the witness of the gas that the executor reports. -/
theorem contract_witnessed (ran : manager.applyContractTransition tx utxo = (.ok (), later, left)) :
    ∃ gasUsed, (VMExecutor.execute tx.executionPayload manager tx.gasLimit).1 = .ok gasUsed ∧
      gasUsed ≤ tx.gasLimit.toNat ∧ later.blockGasFees =
        manager.blockGasFees ++ [createGasFeeWitness (min (gasUsed * tx.maxFeePerGas) u128Max)] := by
  rw [applyContractTransition] at ran
  split at ran
  · cases ran
  rename_i contract
  obtain ⟨_, gasUsed, after, executed, rfl⟩ := execute_contract_ok_iff.mp contract
  obtain ⟨tree, only, _⟩ := execute_tree_only tx.executionPayload manager tx.gasLimit
  rw [executed] at only
  dsimp only at only
  subst only
  refine ⟨gasUsed, by rw [executed], VMExecutor.execute_bounded executed, ?_⟩
  rw [apply_utxo_transaction_fees ran]

/-- The witness of a contract transaction that is applied splits its fee exactly when eighty times the fee fits into 128
bits. The verifier accepts it in any case. -/
theorem split_exact_iff (ran : manager.applyContractTransition tx utxo = (.ok (), later, left)) :
    ∃ gasUsed witness, (VMExecutor.execute tx.executionPayload manager tx.gasLimit).1 = .ok gasUsed ∧
      later.blockGasFees = manager.blockGasFees ++ [witness] ∧
      (SplitExact witness gasUsed tx.maxFeePerGas ↔ 80 * (gasUsed * tx.maxFeePerGas) ≤ u128Max) ∧
      verifyGasFeeDistribution witness = true := by
  obtain ⟨gasUsed, executed, _, added⟩ := contract_witnessed ran
  exact ⟨gasUsed, _, executed, added, witness_split_iff, witness_verified (Nat.min_le_right _ _)⟩

end Split

section Pool
open Reward (gasFee gasFees leftOver acceptedFees calculateAcceptedFees)

/-- The fees of some witnesses together. -/
def totalGasFees (fees : List GasFeeWitness) : Nat := (fees.map GasFeeWitness.totalGasFee).sum

/-- The fee that is recorded for a transaction and the gas it uses. -/
def recordedFee (use : Transaction × Nat) : Nat := min (use.2 * use.1.maxFeePerGas) u128Max

/-- What is recorded for the transactions without inputs, of which the pool gets nothing. -/
def uncollected (uses : List (Transaction × Nat)) : Nat :=
  ((uses.filter fun use => use.1.isCoinbase).map recordedFee).sum

/-- What the pool gets for gas that the transactions with inputs promise and do not use. -/
def unusedGasFees (uses : List (Transaction × Nat)) : Nat :=
  ((uses.filter fun use => !use.1.isCoinbase).map fun use =>
    (use.1.gasLimit.toNat - use.2) * use.1.maxFeePerGas).sum

section Uses
variable {tx : Transaction} {used : Nat} {uses : List (Transaction × Nat)}

/-- A transaction with inputs that uses no more than its limit pays for what it uses and for what it does not. -/
theorem gas_fee_parts (within : used ≤ tx.gasLimit.toNat) (narrow : gasFee tx ≤ u128Max) :
    gasFee tx = (tx.gasLimit.toNat - used) * tx.maxFeePerGas + recordedFee (tx, used) := by
  have paid : used * tx.maxFeePerGas ≤ gasFee tx := Nat.mul_le_mul_right _ within
  rw [recordedFee, Nat.min_eq_left (paid.trans narrow), ← Nat.add_mul, Nat.sub_add_cancel within]
  rfl

/-- The gas fees and what is not collected of the recorded fees make up the same as the fees for unused gas and all the
recorded fees. -/
theorem gas_fees_parts (within : ∀ use ∈ uses, use.2 ≤ use.1.gasLimit.toNat)
    (narrow : ∀ use ∈ uses, use.1.isCoinbase = false → gasFee use.1 ≤ u128Max) :
    gasFees (uses.map Prod.fst) + uncollected uses = unusedGasFees uses + (uses.map recordedFee).sum := by
  induction uses with
  | nil => rfl
  | cons use rest ih =>
    obtain ⟨tx, used⟩ := use
    obtain ⟨withinFirst, withinRest⟩ := List.forall_mem_cons.mp within
    obtain ⟨narrowFirst, narrowRest⟩ := List.forall_mem_cons.mp narrow
    have parts := ih withinRest narrowRest
    rw [gasFees, uncollected, unusedGasFees] at parts
    rw [gasFees, uncollected, unusedGasFees, List.map_cons, List.map_cons, List.sum_cons]
    cases spends : tx.isCoinbase with
    | true =>
      rw [List.filter_cons_of_neg (by simp [spends]), List.filter_cons_of_pos (by simpa using spends),
        List.filter_cons_of_neg (by simp [spends]), List.map_cons, List.sum_cons]
      omega
    | false =>
      have first := gas_fee_parts withinFirst (narrowFirst spends)
      rw [List.filter_cons_of_pos (by simp [spends]), List.filter_cons_of_neg (by simp [spends]),
        List.filter_cons_of_pos (by simp [spends]), List.map_cons, List.sum_cons, List.map_cons, List.sum_cons, first]
      dsimp only
      omega

end Uses

variable [Blake3] [Bandersnatch] [Wasmer] {S : Type} [Storage S] {manager later : StateManager S}
  {utxo left : UtxoSet} {tx : Transaction} {txs : List Transaction}

/-- The gas that a transaction uses over a manager: what the executor reports, none without a contract. -/
def gasUsed (manager : StateManager S) (tx : Transaction) : Nat :=
  if tx.executionPayload.isEmpty && tx.contractAddress.isNone then 0
  else
    match (VMExecutor.execute tx.executionPayload manager tx.gasLimit).1 with
    | .ok gasUsed => gasUsed
    | .error _ => 0

/-- The transactions, each with the gas that it uses over the manager that the ones before it leave. -/
def gasUses : List Transaction → StateManager S → UtxoSet → List (Transaction × Nat)
  | [], _, _ => []
  | tx :: rest, manager, utxo =>
    match manager.applyTransaction tx utxo with
    | (_, later, left) => (tx, manager.gasUsed tx) :: gasUses rest later left

theorem gas_uses_transactions (txs : List Transaction) (manager : StateManager S) (utxo : UtxoSet) :
    (gasUses txs manager utxo).map Prod.fst = txs := by
  induction txs generalizing manager utxo with
  | nil => rfl
  | cons tx rest ih =>
    rw [gasUses, List.map_cons, ih]

/-- A transaction that is applied uses no more than its gas limit and adds its recorded fee. -/
theorem apply_transaction_recorded (ran : manager.applyTransaction tx utxo = (.ok (), later, left)) :
    manager.gasUsed tx ≤ tx.gasLimit.toNat ∧
      totalGasFees later.blockGasFees = totalGasFees manager.blockGasFees + recordedFee (tx, manager.gasUsed tx) := by
  rw [applyTransaction] at ran
  rw [gasUsed]
  by_cases plain : (tx.executionPayload.isEmpty && tx.contractAddress.isNone) = true
  · rw [if_pos plain] at ran ⊢
    rw [apply_utxo_transaction_fees ran, recordedFee, Nat.zero_mul, Nat.zero_min]
    exact ⟨Nat.zero_le _, rfl⟩
  · rw [if_neg plain] at ran ⊢
    obtain ⟨gasUsed, executed, within, added⟩ := contract_witnessed ran
    rw [executed, added, totalGasFees, List.map_append, List.sum_append]
    exact ⟨within, rfl⟩

/-- Transactions that are applied record the fees of what each of them uses. -/
theorem apply_transactions_recorded (ran : applyTransactions txs manager utxo = (.ok (), later, left)) :
    (∀ use ∈ gasUses txs manager utxo, use.2 ≤ use.1.gasLimit.toNat) ∧
      totalGasFees later.blockGasFees =
        totalGasFees manager.blockGasFees + ((gasUses txs manager utxo).map recordedFee).sum := by
  induction txs generalizing manager utxo with
  | nil =>
    cases ran
    exact ⟨fun use member => absurd member List.not_mem_nil, rfl⟩
  | cons tx rest ih =>
    obtain ⟨middle, remaining, first, second⟩ := apply_transactions_cons_ok ran
    obtain ⟨within, recorded⟩ := apply_transaction_recorded first
    obtain ⟨withinRest, recordedRest⟩ := ih second
    rw [gasUses, first]
    refine ⟨List.forall_mem_cons.mpr ⟨within, withinRest⟩, ?_⟩
    rw [recordedRest, recorded, List.map_cons, List.sum_cons, Nat.add_assoc]

variable [SchnorrScheme]

omit [Bandersnatch] [Wasmer] in
/-- No gas fee of an accepted block saturates. -/
theorem accepted_gas_fee {working : UtxoSet} {start total : Nat}
    (accepted : acceptedFees start working txs = .ok total) :
    ∀ tx ∈ txs, tx.isCoinbase = false → gasFee tx ≤ u128Max := by
  induction txs generalizing working start with
  | nil => exact fun tx member => absurd member List.not_mem_nil
  | cons tx rest ih =>
    have limit : u128Max = 2 ^ 128 - 1 := rfl
    rcases Reward.accepted_fees_cons accepted with
      ⟨coinbase, further⟩ | ⟨spends, base, fee, checked, paid, fits, further⟩
    · refine List.forall_mem_cons.mpr ⟨fun spends => ?_, ih further⟩
      rw [coinbase] at spends
      cases spends
    · have covered := UtxoSet.validate_tx_fee spends checked
      exact List.forall_mem_cons.mpr ⟨fun _ => by omega, ih further⟩

variable {block : BlockNode} {fees : UInt64}

/-- The gas that each transaction of a block uses when the block is applied. -/
def blockGasUses (manager : StateManager S) (block : BlockNode) (utxo : UtxoSet) : List (Transaction × Nat) :=
  gasUses block.transactions ({ manager with applyingBlock := true } : StateManager S).startBlock utxo

omit [SchnorrScheme] in
/-- The fees of a block that is applied are those of its own transactions. -/
theorem apply_block_recorded (applied : manager.applyBlock block utxo = (.ok (), later, left)) :
    (∀ use ∈ blockGasUses manager block utxo, use.2 ≤ use.1.gasLimit.toNat) ∧
      totalGasFees later.blockGasFees = ((blockGasUses manager block utxo).map recordedFee).sum := by
  obtain ⟨_, middle, tree, recorded, txs, _, recording, rfl⟩ := apply_block_ran applied
  obtain ⟨_, root, rooted, _, _, _, rfl⟩ := record_snapshot_ok recording
  obtain ⟨within, recorded⟩ := apply_transactions_recorded txs
  exact ⟨within, recorded.trans (Nat.zero_add _)⟩

end Pool

section Runs
open Klomang.Sample Klomang.Priced Reward

/-- A call of a module with a gas limit and a price. -/
def contract (gasLimit : UInt64) (price : Nat) : Transaction :=
  { id := .ofNat 1, inputs := [], outputs := [], executionPayload := [1], gasLimit, maxFeePerGas := price }

/-- A limit of what the payload requires passes the gas check, with nothing left for the module. -/
theorem exact_limit_passes : ¬ StopsAtGasCheck manager (contract 21_016 0) .new :=
  (gas_check_agrees manager .new (by decide)).1.mpr ⟨_, _, rfl, rfl⟩

/-- The module is run to its end and uses at least four fifths of the charges before it. -/
theorem contract_applied (price : Nat) :
    ∃ later, manager.applyContractTransition (contract 100_000 price) .new = (.ok (), later, .new) ∧
      ∀ gasUsed, (VMExecutor.execute [1] manager 100_000).1 = .ok gasUsed → 16_800 ≤ gasUsed ∧ gasUsed ≤ 100_000 := by
  obtain ⟨gasUsed, after, ran⟩ := execute_ran [1] (by decide)
  have enough : requiredGas [1] ≤ (100_000 : UInt64).toNat := by decide
  have called : manager.executeContract (contract 100_000 price) = (.ok (), _) :=
    execute_contract_ok_iff.mpr ⟨enough, gasUsed, after, ran, rfl⟩
  rw [applyContractTransition, called]
  refine ⟨_, rfl, fun other same => ?_⟩
  rw [ran] at same
  cases same
  obtain ⟨totalUsed, refund, settled, rfl⟩ := VMExecutor.execute_settled (engine_meters false) rfl ran
  have charges : GasMeter.intrinsicGas + GasMeter.byteCosts [1] = 21_016 := rfl
  have total := settled.total.1
  have fifth := settled.refund_le
  have within := VMExecutor.execute_bounded ran
  exact ⟨by omega, within⟩

/-- At a price of seven the fee is split exactly. -/
theorem cheap_gas_split :
    ∃ later gasUsed witness, manager.applyContractTransition (contract 100_000 7) .new = (.ok (), later, .new) ∧
      later.blockGasFees = manager.blockGasFees ++ [witness] ∧ SplitExact witness gasUsed 7 := by
  obtain ⟨later, ran, bounds⟩ := contract_applied 7
  obtain ⟨gasUsed, witness, executed, added, exact, _⟩ := split_exact_iff ran
  have bounded := bounds gasUsed executed
  exact ⟨later, gasUsed, witness, ran, added, exact.mpr (by rw [contract, u128Max]; dsimp only; omega)⟩

/-- At a price of 2^110 the fee fits into 128 bits and eighty times the fee does not: the shares are not those of the
fee. -/
theorem dear_gas_split :
    ∃ later gasUsed witness, manager.applyContractTransition (contract 100_000 (2 ^ 110)) .new = (.ok (), later, .new) ∧
      (VMExecutor.execute [1] manager 100_000).1 = .ok gasUsed ∧
      later.blockGasFees = manager.blockGasFees ++ [witness] ∧ ¬ SplitExact witness gasUsed (2 ^ 110) := by
  obtain ⟨later, ran, bounds⟩ := contract_applied (2 ^ 110)
  obtain ⟨gasUsed, executed, _, added⟩ := contract_witnessed ran
  have bounded := bounds gasUsed executed
  refine ⟨later, gasUsed, _, ran, executed, added, fun exact => ?_⟩
  have fits := witness_split_iff.mp exact
  rw [contract, u128Max] at fits
  dsimp only at fits
  omega

/-- A block with a payment of coins is applied. -/
theorem payment_applied {value gas : UInt64} {supply : Nat}
    (moved :
      ((manager.books purse).ledger (Reward.minting [] [fuelled value gas]).moves).map Books.account = some supply)
    (noBurn : NoBurn (Reward.minting [] [fuelled value gas]).moves)
    (capped : supply ≤ EconomicConstants.maxGlobalSupplyNanoSlug) :
    ∃ later left, manager.applyBlock (Reward.minting [] [fuelled value gas]) purse = (.ok (), later, left) := by
  obtain ⟨after, played, rfl⟩ := Option.map_eq_some_iff.mp moved
  have coherent : manager.tree.Coherent := (started_sound manager_built.coherent).coherent
  have plain : ∀ tx ∈ (Reward.minting [] [fuelled value gas]).transactions, tx.Plain := by
    intro tx member
    rw [List.mem_singleton.mp member]
    exact ⟨rfl, rfl⟩
  obtain ⟨later, ran⟩ := apply_block_accepts plain coherent (by decide) rfl played noBurn capped
  exact ⟨later, _, ran⟩

end Runs
end Klomang.StateManager
