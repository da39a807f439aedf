import Klomang.StateManager.VerkleSync
import Mathlib.Data.UInt

/-! Value across a block that is validated and applied. Nothing on that path compares the values
of a transaction's inputs with those of its outputs; what validation does settle is that every
input was there before the block. -/
namespace Klomang.StateManager

/-- A transaction creates no more value than the outputs it spends hold in a set. -/
def Conserved (set : UtxoSet) (tx : Transaction) : Prop :=
  (tx.outputs.map TxOutput.amount).sum ≤ (tx.inputs.map fun input => set.valueAt input.outpoint).sum

section Moves

theorem conserved_congr {set other : UtxoSet} {tx : Transaction}
    (same : ∀ input ∈ tx.inputs, other.utxos.lookup input.outpoint = set.utxos.lookup input.outpoint) :
    Conserved other tx ↔ Conserved set tx := by
  have values : (tx.inputs.map fun input => other.valueAt input.outpoint) =
      tx.inputs.map fun input => set.valueAt input.outpoint := by
    refine List.map_congr_left fun input member => ?_
    rw [UtxoSet.valueAt, UtxoSet.valueAt, same input member]
  rw [Conserved, Conserved, values]

theorem take_of_moves {txs : List Transaction} {outpoint : OutPoint}
    (taken : .take outpoint ∈ txs.flatMap Transaction.moves) :
    ∃ tx ∈ txs, ∃ input ∈ tx.inputs, input.outpoint = outpoint := by
  obtain ⟨tx, member, listed⟩ := List.mem_flatMap.mp taken
  rw [Transaction.moves_eq, List.mem_append, List.mem_map, List.mem_map] at listed
  rcases listed with ⟨input, inputMem, same⟩ | ⟨_, _, absurdity⟩
  · exact ⟨tx, member, input, inputMem, Move.take.inj same⟩
  · cases absurdity

theorem put_of_moves {txs : List Transaction} {outpoint : OutPoint} {output : TxOutput}
    (put : .put outpoint output ∈ txs.flatMap Transaction.moves) :
    ∃ tx ∈ txs, ∃ idx < tx.outputs.length, outpoint = (tx.id, UInt32.ofNat idx) := by
  obtain ⟨tx, member, listed⟩ := List.mem_flatMap.mp put
  rw [Transaction.moves_eq, List.mem_append, List.mem_map, List.mem_map] at listed
  rcases listed with ⟨_, _, absurdity⟩ | ⟨⟨created, idx⟩, there, same⟩
  · cases absurdity
  · obtain ⟨here, _⟩ := Move.put.inj same
    exact ⟨tx, member, idx, (List.mem_zipIdx' there).1, here.symm⟩

end Moves

section Validated
variable [Blake3] [Bandersnatch] [SchnorrScheme] {S : Type} [Storage S] {tree : VerkleTree S}

/-- In a block that validation accepts, the transactions before one leave its inputs as they were. -/
theorem inputs_untouched {before after : List Transaction} {tx : Transaction}
    (signed : GhostDag.TransactionsSigned (before ++ tx :: after))
    (leaves : GhostDag.LeavesFit tree (before ++ tx :: after)) {books middle : Books OutPoint TxOutput}
    (played : books.ledger (before.flatMap Transaction.moves) = some middle) {input : TxInput}
    (member : input ∈ tx.inputs) :
    middle.entries.lookup input.outpoint = books.entries.lookup input.outpoint := by
  apply Books.play_untouched played
  · intro taken
    obtain ⟨earlier, earlierMem, other, otherMem, same⟩ := take_of_moves taken
    have distinct := signed.distinct
    rw [List.flatMap_append, List.flatMap_cons, List.nodup_append'] at distinct
    apply distinct.2.2 (List.mem_flatMap.mpr ⟨earlier, earlierMem, List.mem_map_of_mem otherMem⟩)
    rw [same]
    exact List.mem_append_left _ (List.mem_map_of_mem member)
  · intro output put
    obtain ⟨earlier, earlierMem, idx, within, same⟩ := put_of_moves put
    obtain ⟨value, found⟩ := leaves.inputs tx (by simp) input member
    rw [same] at found
    exact leaves.outputs earlier (by simp [earlierMem]) idx within value found

variable [Wasmer]

/-- Every spending transaction of a block creates no more value than its inputs held when it was
applied. -/
def ConservedWhenApplied (manager : StateManager S) (utxo : UtxoSet) (block : BlockNode) : Prop :=
  ∀ before tx after, block.transactions = before ++ tx :: after → tx.inputs ≠ [] →
    ∀ applied left,
      applyTransactions before ({ manager with applyingBlock := true } : StateManager S).startBlock utxo =
        (.ok (), applied, left) → Conserved left tx

variable {manager : StateManager S} {utxo : UtxoSet} {block : BlockNode}

/-- For a validated block, when its transactions were applied is as good as before the block. -/
theorem conserved_when_applied_iff (plain : ∀ tx ∈ block.transactions, tx.Plain)
    (signed : GhostDag.TransactionsSigned block.transactions)
    (leaves : GhostDag.LeavesFit tree block.transactions) {after : Books OutPoint TxOutput}
    (played : (manager.books utxo).ledger block.moves = some after) :
    ConservedWhenApplied manager utxo block ↔
      ∀ tx ∈ block.transactions, tx.inputs ≠ [] → Conserved utxo tx := by
  have same : ∀ before tx after, block.transactions = before ++ tx :: after → ∀ applied left,
      applyTransactions before ({ manager with applyingBlock := true } : StateManager S).startBlock utxo =
        (.ok (), applied, left) → (Conserved left tx ↔ Conserved utxo tx) := by
    intro before tx after listed applied left ran
    rw [listed] at signed leaves
    exact conserved_congr fun input member =>
      inputs_untouched signed leaves (apply_transactions_played ran).1 member
  constructor
  · intro conserved tx member spends
    obtain ⟨before, rest, listed⟩ := List.append_of_mem member
    rw [BlockNode.moves, listed, List.flatMap_append, Books.ledger_append] at played
    obtain ⟨halfway, first, _⟩ := Option.bind_eq_some_iff.mp played
    rw [listed] at plain
    obtain ⟨applied, left, ran, _⟩ := apply_plain_transactions_ok
      ({ manager with applyingBlock := true } : StateManager S).startBlock
      (fun other earlier => plain other (List.mem_append_left _ earlier)) first
    exact (same before tx rest listed applied left ran).mp (conserved before tx rest listed spends applied left ran)
  · intro conserved before tx after listed spends applied left ran
    exact (same before tx after listed applied left ran).mpr (conserved tx (by simp [listed]) spends)

variable [Channel]

/-- Value is conserved by the spending transactions of an accepted block exactly when each creates
no more than its inputs hold in the set that the block is applied to: acceptance checks it nowhere. -/
theorem accepted_block_conserves_iff (manager : StateManager S) (clock : Except String UInt64)
    (order : Enumeration Hash) (block : BlockNode) (utxo : UtxoSet) (dag : Dag) (consensus : GhostDag)
    (plain : ∀ tx ∈ block.transactions, tx.Plain)
    (accepted : (manager.validateAndApplyBlock clock order block utxo dag consensus).1 = .ok ()) :
    ConservedWhenApplied manager utxo block ↔
      ∀ tx ∈ block.transactions, tx.inputs ≠ [] → Conserved utxo tx := by
  rcases validate_and_apply_block_cases manager clock order block utxo dag consensus with
    ⟨error, refused⟩ | ⟨⟨currentTime, valid⟩, applied⟩
  · rw [refused] at accepted
    cases accepted
  · obtain ⟨_, signed, leaves⟩ :=
      (GhostDag.validate_block_ok_iff consensus order block dag manager.tree currentTime).mp valid
    rw [applied] at accepted
    rcases ran : manager.applyBlock block utxo with ⟨outcome, later, left⟩
    rw [ran] at accepted
    cases accepted
    exact conserved_when_applied_iff plain signed leaves (apply_block_ok ran).played

end Validated

section Inflation
open Klomang.Sample

/-- A transaction that spends the coinbase of five into one output, with a signature. -/
def payment (value : UInt64) : Transaction :=
  { spend coin value with
    inputs := [⟨coin.1, coin.2, List.replicate 32 5 ++
      (Schnorr.taggedHash Schnorr.tagTxSign (Schnorr.serializeTxForSighash (spend coin value) 0 .all)).bytes,
      List.replicate 32 5, .all⟩] }

/-- A block on top of the coinbase, with the easiest difficulty. -/
def paymentBlock (value : UInt64) : BlockNode :=
  ⟨⟨.replicate 2, {.replicate 1}, 0, 2 ^ 64 - 1, 0, .replicate 0, none, none⟩, ∅, none, ∅, ∅, 0, [payment value]⟩

/-- The graph of the two blocks. -/
def chain (value : UInt64) : Dag := ((Dag.new.addBlock (blockOf [reward 5])).2.addBlock (paymentBlock value)).2

/-- What has to be evaluated for a payment. -/
structure Valid (value : UInt64) : Prop where
  header : GhostDag.HeaderFits (GhostDag.new 1) sorted (paymentBlock value) (chain value) 0
  signed : GhostDag.TransactionsSigned [payment value]
  reorganizes : (GhostDag.new 1).canReorganize (chain value) (.replicate 2) = .ok true
  separated : Separated {coin, ((payment value).id, 0)}
  different : ((payment value).id, 0) ≠ coin
  small : value.toNat ≤ EconomicConstants.maxGlobalSupplyNanoSlug

theorem five_valid : Valid 5 where
  header := ⟨by decide +kernel, by decide +kernel, by decide +kernel, by decide +kernel, by decide +kernel⟩
  signed := (GhostDag.validate_transactions_ok_iff (paymentBlock 5) Dag.new).mp
    (show (GhostDag.new 1).validateTransactions (paymentBlock 5) Dag.new = .ok () by decide +kernel)
  reorganizes := by decide +kernel
  separated := by
    refine ⟨?_, ?_⟩
    · rintro left (rfl | rfl) right (rfl | rfl) same <;> first | exact absurd same (by decide +kernel) | rfl
    · rintro outpoint (rfl | rfl) <;> decide +kernel
  different := by decide +kernel
  small := by decide

theorem ten_valid : Valid 10 where
  header := ⟨by decide +kernel, by decide +kernel, by decide +kernel, by decide +kernel, by decide +kernel⟩
  signed := (GhostDag.validate_transactions_ok_iff (paymentBlock 10) Dag.new).mp
    (show (GhostDag.new 1).validateTransactions (paymentBlock 10) Dag.new = .ok () by decide +kernel)
  reorganizes := by decide +kernel
  separated := by
    refine ⟨?_, ?_⟩
    · rintro left (rfl | rfl) right (rfl | rfl) same <;> first | exact absurd same (by decide +kernel) | rfl
    · rintro outpoint (rfl | rfl) <;> decide +kernel
  different := by decide +kernel
  small := by decide

/-- The session after the coinbase. -/
def paid : Session MemoryStorage := Runs.run Session.step ⟨manager, .new⟩ [.applyBlock (blockOf [reward 5])]

/-- The manager is sound after the coinbase, the coin is in the books and has a leaf, and the output of a payment has
none. -/
theorem paid_books {value : UInt64} (valid : Valid value) :
    ∃ later left, paid = ⟨later, left⟩ ∧ later.Sound ∧
      later.books left = ⟨Finmap.insert coin ⟨5, .replicate 9⟩ ∅, 5⟩ ∧
      GhostDag.LeavesFit later.tree [payment value] := by
  obtain ⟨kept, synced⟩ := started_synced (∅ : MemoryStorage) (fun _ => rfl) {coin, ((payment value).id, 0)}
  obtain ⟨later, left, ran⟩ := reward_applied
  have applied := apply_block_ok ran
  have reached : paid = ⟨later, left⟩ := by
    rw [paid, Runs.run, List.foldl_cons, List.foldl_nil, Session.step, ran]
  have books : later.books left = ⟨Finmap.insert coin ⟨5, .replicate 9⟩ ∅, 5⟩ :=
    (Option.some.inj (reward_played.symm.trans applied.played)).symm
  have sound : later.Sound := by
    obtain ⟨change, coherent⟩ := applied.change kept.sound.coherent
    exact change.sound kept.sound coherent
  have creates : CreatesAt {coin, ((payment value).id, 0)} (blockOf [reward 5]) := by
    refine ⟨by decide, fun outpoint output created => ?_⟩
    obtain ⟨rfl, _⟩ := Move.put.inj (List.mem_singleton.mp created)
    exact .inl rfl
  have moves : (blockOf [reward 5]).moves = [.put coin ⟨5, .replicate 9⟩] := rfl
  have coinLeaf := (applied.leaf valid.separated creates kept.unpruned (.inl rfl) (synced _ (.inl rfl))).2
  have newLeaf := (applied.leaf valid.separated creates kept.unpruned (.inr rfl) (synced _ (.inr rfl))).2
  rw [moves] at coinLeaf newLeaf
  simp only [List.foldl_cons, List.foldl_nil, Books.record, if_true, if_neg valid.different.symm] at coinLeaf newLeaf
  refine ⟨later, left, reached, sound, books, fun tx member input inputMem => ?_,
    fun tx member idx within other found => ?_⟩
  · rw [List.mem_singleton.mp member] at inputMem
    rw [List.mem_singleton.mp inputMem]
    exact ⟨_, coinLeaf⟩
  · rw [List.mem_singleton.mp member] at within found
    obtain rfl : idx = 0 := Nat.lt_one_iff.mp within
    have nothing : Finmap.lookup ((payment value).id, 0) UtxoSet.new.utxos = none := Finmap.lookup_empty _
    rw [nothing] at newLeaf
    cases newLeaf.symm.trans found

/-- A payment takes the coin out of the books and puts its output in. -/
theorem payment_played (value : UInt64) :
    (⟨Finmap.insert coin ⟨5, .replicate 9⟩ ∅, 5⟩ : Books OutPoint TxOutput).ledger (paymentBlock value).moves = some
      ⟨Finmap.insert ((payment value).id, 0) ⟨value, .replicate 9⟩
        (Finmap.erase coin (Finmap.insert coin ⟨5, .replicate 9⟩ ∅)), min value.toNat u128Max⟩ := by
  have paying : (paymentBlock value).moves = [.take coin, .put ((payment value).id, 0) ⟨value, .replicate 9⟩] := rfl
  rw [paying, Books.ledger, Books.play_cons, Books.move]
  dsimp only
  rw [Finmap.lookup_insert]
  simp [Books.play_cons, Books.move, TxOutput.amount]

/-- After the coinbase the payment is accepted, whatever it pays. -/
theorem payment_accepted {value : UInt64} (valid : Valid value) :
    paid.utxo.valueAt coin = 5 ∧
      (paid.manager.validateAndApplyBlock (.ok 0) sorted (paymentBlock value) paid.utxo (chain value)
        (GhostDag.new 1)).1 = .ok () := by
  obtain ⟨later, left, reached, sound, books, leaves⟩ := paid_books valid
  have entries : left.utxos = Finmap.insert coin ⟨5, .replicate 9⟩ ∅ := congrArg Books.entries books
  have played := payment_played value
  rw [← books] at played
  have noBurn : NoBurn (paymentBlock value).moves := by
    intro outpoint output member
    have created : output = ⟨value, .replicate 9⟩ := by
      have paying : (paymentBlock value).moves =
        [.take coin, .put ((payment value).id, 0) ⟨value, .replicate 9⟩] := rfl
      rw [paying] at member
      simp only [List.mem_cons, reduceCtorEq, false_or, List.not_mem_nil, or_false, Move.put.injEq] at member
      exact member.2
    rw [created]
    exact (by decide : (Bytes32.replicate 9 : Hash) ≠ EconomicConstants.burnAddress)
  have plain : ∀ tx ∈ (paymentBlock value).transactions, tx.Plain := by
    intro tx member
    rw [List.mem_singleton.mp member]
    exact ⟨rfl, rfl⟩
  obtain ⟨final, finished⟩ := apply_block_accepts plain sound.coherent sound.indexed sound.idle played noBurn
    ((Nat.min_le_left _ _).trans valid.small)
  have validated := (GhostDag.validate_block_ok_iff (GhostDag.new 1) sorted (paymentBlock value) (chain value)
    later.tree 0).mpr ⟨valid.header, valid.signed, leaves⟩
  rw [reached]
  refine ⟨by rw [UtxoSet.valueAt, entries, Finmap.lookup_insert]; rfl, ?_⟩
  dsimp only
  rw [validated_applied validated valid.reorganizes, finished]

/-- A payment conserves value when it pays at most what the coin holds. -/
theorem payment_conserved_iff (set : UtxoSet) (value : UInt64) :
    Conserved set (payment value) ↔ value.toNat ≤ set.valueAt coin := by
  have outputs : (payment value).outputs = [⟨value, .replicate 9⟩] := rfl
  have held : ((payment value).inputs.map fun input => set.valueAt input.outpoint) = [set.valueAt coin] := rfl
  rw [Conserved, outputs, held]
  simp [TxOutput.amount]

/-- Paying the coin on as it is conserves value. -/
theorem five_conserved : ConservedWhenApplied paid.manager paid.utxo (paymentBlock 5) := by
  obtain ⟨held, accepted⟩ := payment_accepted five_valid
  have plain : ∀ tx ∈ (paymentBlock 5).transactions, tx.Plain := by decide
  refine (accepted_block_conserves_iff paid.manager _ _ _ paid.utxo _ _ plain accepted).mpr ?_
  intro tx member _
  rw [List.mem_singleton.mp member, payment_conserved_iff, held]
  decide

/-- Validation lets a block through that spends the coin of five into an output of ten. -/
theorem inflation_accepted :
    (paid.manager.validateAndApplyBlock (.ok 0) sorted (paymentBlock 10) paid.utxo (chain 10) (GhostDag.new 1)).1 =
      .ok () ∧ ¬ ConservedWhenApplied paid.manager paid.utxo (paymentBlock 10) := by
  obtain ⟨held, accepted⟩ := payment_accepted ten_valid
  refine ⟨accepted, fun conserved => ?_⟩
  have first := conserved [] (payment 10) [] rfl (List.cons_ne_nil _ _) _ paid.utxo (applyTransactions.eq_1 _ _)
  rw [payment_conserved_iff, held] at first
  revert first
  decide

end Inflation
end Klomang.StateManager
