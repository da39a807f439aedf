import Klomang.Consensus.GhostDag
import Klomang.Crypto.Schnorr
import Klomang.Lib.Enumeration
import Klomang.Pow.Hash
import Klomang.State.VTrie

/-! `core/consensus/ghostdag.rs`: the validation of a block before it is applied. -/
namespace Klomang.GhostDag

section Transactions

/-- Add the outpoints of a transaction to those the block has spent so far. -/
def spendOutpoints : Finset OutPoint → List TxInput → Except CoreError (Finset OutPoint)
  | spent, [] => .ok spent
  | spent, input :: rest =>
    if input.outpoint ∈ spent then
      .error (.consensusError
        ("Double-spend across block detected for outpoint " ++ OutPoint.debug input.outpoint))
    else spendOutpoints (insert input.outpoint spent) rest

theorem spend_outpoints_ok {spent after : Finset OutPoint} {inputs : List TxInput} :
    spendOutpoints spent inputs = .ok after ↔
      (inputs.map TxInput.outpoint).Nodup ∧ (∀ input ∈ inputs, input.outpoint ∉ spent) ∧
        after = spent ∪ (inputs.map TxInput.outpoint).toFinset := by
  induction inputs generalizing spent with
  | nil => simp [spendOutpoints, eq_comm]
  | cons input rest ih =>
    rw [spendOutpoints]
    by_cases before : input.outpoint ∈ spent
    · simp [before]
    · rw [if_neg before, ih, List.map_cons, List.nodup_cons, List.forall_mem_cons, List.toFinset_cons,
        Finset.insert_union, Finset.union_insert]
      constructor
      · rintro ⟨distinct, apart, rfl⟩
        refine ⟨⟨fun again => ?_, distinct⟩, ⟨before, fun other member there => ?_⟩, rfl⟩
        · obtain ⟨other, member, same⟩ := List.mem_map.mp again
          exact apart other member (same ▸ Finset.mem_insert_self _ _)
        · exact apart other member (Finset.mem_insert_of_mem there)
      · rintro ⟨⟨once, distinct⟩, ⟨_, apart⟩, rfl⟩
        refine ⟨distinct, fun other member => ?_, rfl⟩
        rw [Finset.mem_insert, not_or]
        refine ⟨fun same => once ?_, apart other member⟩
        exact same ▸ List.mem_map_of_mem member

variable [Blake3] [SchnorrScheme]

/-- One level of `compute_transaction_merkle_root`: hashes in pairs, an odd one alone. -/
def hashPairs : List Hash → List Hash
  | [] => []
  | [last] => [Hash.new last.bytes]
  | left :: right :: rest => Hash.new (left.bytes ++ right.bytes) :: hashPairs rest

/-- Levels are hashed until one hash is left; every level is shorter than the one before. -/
def merkleLevels : Nat → List Hash → Hash
  | 0, _ => Hash.new []
  | _, [] => Hash.new []
  | _, [root] => root
  | fuel + 1, hashes => merkleLevels fuel (hashPairs hashes)

/-- `compute_transaction_merkle_root`. -/
def computeTransactionMerkleRoot (_ : GhostDag) (transactions : List Transaction) : Hash :=
  if transactions.isEmpty then Hash.new []
  else merkleLevels transactions.length (transactions.map Transaction.id)

/-- The signature item of one input. -/
def signatureItem (tx : Transaction) (inputIdx : Nat) (input : TxInput) : Except CoreError Schnorr.SignatureItem :=
  if input.signature.isEmpty then
    .error (.consensusError
      ("Missing signature for input " ++ toString inputIdx ++ " in transaction " ++ toString tx.id))
  else
    match Schnorr.computeSighash tx inputIdx input.sighashType with
    | .error error => .error (.cryptographicError ("Sighash error: " ++ toString error))
    | .ok sighash =>
      match SchnorrScheme.verifyingKeyFromBytes input.pubkey with
      | .error error => .error (.cryptographicError ("Invalid pubkey: " ++ error))
      | .ok pubkey =>
        match SchnorrScheme.signatureTryFrom input.signature with
        | .error error => .error (.cryptographicError ("Invalid signature: " ++ error))
        | .ok signature => .ok (pubkey, sighash, signature)

/-- The items of the inputs from a position on, behind the items collected so far. -/
def collectFrom (tx : Transaction) :
    List (TxInput × Nat) → List Schnorr.SignatureItem → Except CoreError (List Schnorr.SignatureItem)
  | [], items => .ok items
  | (input, inputIdx) :: rest, items =>
    match signatureItem tx inputIdx input with
    | .error error => .error error
    | .ok item => collectFrom tx rest (items ++ [item])

/-- `collect_transaction_signatures`. -/
def collectTransactionSignatures (_ : GhostDag) (tx : Transaction) (items : List Schnorr.SignatureItem) :
    Except CoreError (List Schnorr.SignatureItem) :=
  collectFrom tx tx.inputs.zipIdx items

/-- The loop of `validate_transactions`. -/
def validateEach (ghostDag : GhostDag) :
    List Transaction → Finset OutPoint → List Schnorr.SignatureItem →
      Except CoreError (List Schnorr.SignatureItem)
  | [], _, items => .ok items
  | tx :: rest, spent, items =>
    let expectedId := tx.calculateId
    if tx.id ≠ expectedId then
      .error (.consensusError
        ("Invalid transaction id: expected " ++ toString expectedId ++ " but got " ++ toString tx.id))
    else
      match spendOutpoints spent tx.inputs with
      | .error error => .error error
      | .ok spent =>
        match ghostDag.collectTransactionSignatures tx items with
        | .error error => .error error
        | .ok items => validateEach ghostDag rest spent items

/-- `validate_transactions`. -/
def validateTransactions [Channel] (ghostDag : GhostDag) (block : BlockNode) (_dag : Dag) : Except CoreError Unit :=
  match ghostDag.validateEach block.transactions ∅ [] with
  | .error error => .error error
  | .ok signatureItems =>
    match Schnorr.batchVerify signatureItems with
    | .error error => .error error
    | .ok true => .ok ()
    | .ok false => .error (.consensusError "One or more invalid signatures in block")

end Transactions

section Blocks
variable [Blake3] [SchnorrScheme] [Channel] [Bandersnatch] {S : Type} [Storage S]

/-- `outpoint_key`. -/
def outpointKey (prevTx : Hash) (index : UInt32) : Bytes32 :=
  Hash.new (prevTx.bytes ++ Bytes.beBytes 4 index.toNat)

/-- An input of a transaction is present in the state tree. -/
def checkInput (verkleTree : VerkleTree S) (input : TxInput) : Except CoreError Unit :=
  match verkleTree.get (outpointKey input.prevTx input.index) with
  | .ok (some _) => .ok ()
  | .ok none =>
    .error (.consensusError ("Missing input UTXO in Verkle tree for outpoint (" ++ toString input.prevTx ++
      ", " ++ toString input.index ++ ")"))
  | .error error => .error (.cryptographicError ("Verkle tree query failed: " ++ toString error))

/-- An output of a transaction is absent from the state tree; a failed query counts as absent. -/
def checkOutput (verkleTree : VerkleTree S) (tx : Transaction) (idx : Nat) : Except CoreError Unit :=
  match verkleTree.get (tx.hashWithIndex (UInt32.ofNat idx)) with
  | .ok (some _) =>
    .error (.consensusError ("Output key collision in Verkle tree for tx " ++ toString tx.id ++
      " output " ++ toString idx))
  | _ => .ok ()

/-- `validate_verkle_proof`. -/
def validateVerkleProof (_ : GhostDag) (block : BlockNode) (verkleTree : VerkleTree S) : Except CoreError Unit :=
  block.transactions.forM fun tx => do
    tx.inputs.forM (checkInput verkleTree)
    (List.range tx.outputs.length).forM (checkOutput verkleTree tx)

/-- `validate_block`. The parents are looked up in the iteration order of their set. -/
def validateBlock (ghostDag : GhostDag) (order : Enumeration Hash) (block : BlockNode) (dag : Dag)
    (verkleTree : VerkleTree S) (currentTime : UInt64) : Except CoreError Unit :=
  match (order.list block.header.parents).find? fun parent => (dag.getBlock parent).isNone with
  | some parent =>
    .error (.consensusError ("Parent block " ++ toString parent ++ " not found in DAG"))
  | none =>
    let maxFutureTime := 2 * 60 * 60
    let maxPastTime := 24 * 60 * 60
    -- the sum saturates at the largest `u64`
    if block.header.timestamp.toNat > min (currentTime.toNat + maxFutureTime) (2 ^ 64 - 1) then
      .error (.consensusError ("Block timestamp " ++ toString block.header.timestamp ++
        " is too far in the future (current: " ++ toString currentTime ++ ")"))
    else if block.header.timestamp.toNat < currentTime.toNat - maxPastTime then
      .error (.consensusError ("Block timestamp " ++ toString block.header.timestamp ++
        " is too far in the past (current: " ++ toString currentTime ++ ")"))
    else if block.header.difficulty = 0 then
      .error (.consensusError "Block difficulty cannot be zero")
    else
      let txRoot := ghostDag.computeTransactionMerkleRoot block.transactions
      let blockHash := Pow.calculateHash block.header.timestamp block.header.difficulty
        (order.list block.header.parents) block.blueScore block.header.nonce txRoot
      if Pow.isValidPow blockHash block.header.difficulty then do
        ghostDag.validateTransactions block dag
        ghostDag.validateVerkleProof block verkleTree
      else
        .error (.consensusError ("Invalid PoW: hash " ++ toString blockHash ++
          " does not meet difficulty " ++ toString block.header.difficulty))

end Blocks

section Acceptance
variable [Blake3] [SchnorrScheme] {ghostDag : GhostDag}

/-- An input carries a signature that its own key verifies. -/
def InputSigned (tx : Transaction) (inputIdx : Nat) (input : TxInput) : Prop :=
  ∃ item, signatureItem tx inputIdx input = .ok item ∧ Schnorr.itemVerifies item = true

theorem collect_from_ok {tx : Transaction} {inputs : List (TxInput × Nat)}
    {items after : List Schnorr.SignatureItem} (collected : collectFrom tx inputs items = .ok after) :
    ∃ added, after = items ++ added ∧
      inputs.map (fun item => signatureItem tx item.2 item.1) = added.map .ok := by
  induction inputs generalizing items with
  | nil => exact ⟨[], by simpa [collectFrom, eq_comm] using collected, rfl⟩
  | cons input rest ih =>
    obtain ⟨input, inputIdx⟩ := input
    rw [collectFrom] at collected
    cases made : signatureItem tx inputIdx input with
    | error error => rw [made] at collected; cases collected
    | ok item =>
      rw [made] at collected
      obtain ⟨added, rfl, each⟩ := ih collected
      refine ⟨item :: added, by simp, ?_⟩
      rw [List.map_cons, List.map_cons, made, each]

theorem collect_from_complete {tx : Transaction} {inputs : List (TxInput × Nat)}
    (made : ∀ item ∈ inputs, ∃ made, signatureItem tx item.2 item.1 = .ok made)
    (items : List Schnorr.SignatureItem) : ∃ after, collectFrom tx inputs items = .ok after := by
  induction inputs generalizing items with
  | nil => exact ⟨items, rfl⟩
  | cons input rest ih =>
    obtain ⟨input, inputIdx⟩ := input
    obtain ⟨⟨item, here⟩, later⟩ := List.forall_mem_cons.mp made
    obtain ⟨after, collected⟩ := ih later (items ++ [item])
    refine ⟨after, ?_⟩
    rw [collectFrom, here]
    exact collected

/-- What `validate_transactions` checks. -/
structure TransactionsSigned (transactions : List Transaction) : Prop where
  ids : ∀ tx ∈ transactions, tx.id = tx.calculateId
  distinct : (transactions.flatMap fun tx => tx.inputs.map TxInput.outpoint).Nodup
  signed : ∀ tx ∈ transactions, ∀ item ∈ tx.inputs.zipIdx, InputSigned tx item.2 item.1

private theorem validate_each_ok {transactions : List Transaction} {spent : Finset OutPoint}
    {items after : List Schnorr.SignatureItem}
    (ran : ghostDag.validateEach transactions spent items = .ok after) :
    (∀ tx ∈ transactions, tx.id = tx.calculateId) ∧
    (transactions.flatMap fun tx => tx.inputs.map TxInput.outpoint).Nodup ∧
    (∀ tx ∈ transactions, ∀ input ∈ tx.inputs, input.outpoint ∉ spent) ∧
    ∃ added, after = items ++ added ∧
      (transactions.flatMap fun tx => tx.inputs.zipIdx.map fun item => signatureItem tx item.2 item.1) =
        added.map .ok := by
  induction transactions generalizing spent items with
  | nil => exact ⟨by simp, by simp, by simp, [], by simpa [validateEach, eq_comm] using ran, rfl⟩
  | cons tx rest ih =>
    rw [validateEach] at ran
    split at ran
    · cases ran
    rename_i named
    cases spending : spendOutpoints spent tx.inputs with
    | error error => rw [spending] at ran; cases ran
    | ok later =>
      rw [spending] at ran
      obtain ⟨distinct, apart, rfl⟩ := spend_outpoints_ok.mp spending
      dsimp only at ran
      cases collecting : ghostDag.collectTransactionSignatures tx items with
      | error error => rw [collecting] at ran; cases ran
      | ok collected =>
        rw [collecting] at ran
        obtain ⟨first, rfl, firstEach⟩ := collect_from_ok collecting
        obtain ⟨ids, restDistinct, restApart, second, rfl, secondEach⟩ := ih ran
        refine ⟨?_, ?_, ?_, first ++ second, by simp, ?_⟩
        · exact List.forall_mem_cons.mpr ⟨not_ne_iff.mp named, ids⟩
        · rw [List.flatMap_cons, List.nodup_append']
          refine ⟨distinct, restDistinct, fun outpoint here there => ?_⟩
          obtain ⟨other, member, listed⟩ := List.mem_flatMap.mp there
          obtain ⟨input, inputMem, rfl⟩ := List.mem_map.mp listed
          exact restApart other member input inputMem
            (Finset.mem_union_right _ (List.mem_toFinset.mpr here))
        · refine List.forall_mem_cons.mpr ⟨apart, fun other member input inputMem there => ?_⟩
          exact restApart other member input inputMem (Finset.mem_union_left _ there)
        · rw [List.flatMap_cons, List.map_append, firstEach, secondEach]

private theorem validate_each_complete (ghostDag : GhostDag) {transactions : List Transaction} {spent : Finset OutPoint}
    (ids : ∀ tx ∈ transactions, tx.id = tx.calculateId)
    (distinct : (transactions.flatMap fun tx => tx.inputs.map TxInput.outpoint).Nodup)
    (apart : ∀ tx ∈ transactions, ∀ input ∈ tx.inputs, input.outpoint ∉ spent)
    (made : ∀ tx ∈ transactions, ∀ item ∈ tx.inputs.zipIdx,
      ∃ made, signatureItem tx item.2 item.1 = .ok made)
    (items : List Schnorr.SignatureItem) : ∃ after, ghostDag.validateEach transactions spent items = .ok after := by
  induction transactions generalizing spent items with
  | nil => exact ⟨items, rfl⟩
  | cons tx rest ih =>
    obtain ⟨named, restIds⟩ := List.forall_mem_cons.mp ids
    obtain ⟨here, restApart⟩ := List.forall_mem_cons.mp apart
    obtain ⟨madeHere, restMade⟩ := List.forall_mem_cons.mp made
    rw [List.flatMap_cons, List.nodup_append'] at distinct
    obtain ⟨once, restDistinct, disjoint⟩ := distinct
    have spending := spend_outpoints_ok.mpr ⟨once, here, rfl⟩
    obtain ⟨collected, collecting⟩ := collect_from_complete madeHere items
    have stillApart : ∀ other ∈ rest, ∀ input ∈ other.inputs,
        input.outpoint ∉ spent ∪ (tx.inputs.map TxInput.outpoint).toFinset := by
      intro other member input inputMem there
      rcases Finset.mem_union.mp there with before | now
      · exact restApart other member input inputMem before
      · refine disjoint (List.mem_toFinset.mp now) (List.mem_flatMap.mpr ⟨other, member, ?_⟩)
        exact List.mem_map_of_mem inputMem
    obtain ⟨after, ran⟩ := ih restIds restDistinct stillApart restMade collected
    refine ⟨after, ?_⟩
    rw [validateEach, if_neg (not_ne_iff.mpr named), spending, collectTransactionSignatures, collecting]
    exact ran

/-- `validate_transactions` accepts a block exactly when its checks hold; the set of unspent
outputs and the graph are not read. -/
theorem validate_transactions_ok_iff [Channel] (block : BlockNode) (dag : Dag) :
    ghostDag.validateTransactions block dag = .ok () ↔ TransactionsSigned block.transactions := by
  unfold validateTransactions
  constructor
  · intro accepted
    cases ran : ghostDag.validateEach block.transactions ∅ [] with
    | error error => rw [ran] at accepted; cases accepted
    | ok items =>
      rw [ran] at accepted
      dsimp only at accepted
      obtain ⟨ids, distinct, _, added, all, each⟩ := validate_each_ok ran
      rw [List.nil_append] at all
      rw [← all] at each
      obtain ⟨valid, verified⟩ := Schnorr.batch_verify_ok items
      rw [verified] at accepted
      cases valid with
      | false => cases accepted
      | true =>
        refine ⟨ids, distinct, fun tx member item itemMem => ?_⟩
        have listed : signatureItem tx item.2 item.1 ∈ items.map .ok := by
          rw [← each]
          exact List.mem_flatMap.mpr ⟨tx, member, List.mem_map_of_mem (f := fun item =>
            signatureItem tx item.2 item.1) itemMem⟩
        obtain ⟨made, madeMem, same⟩ := List.mem_map.mp listed
        exact ⟨made, same.symm, (Schnorr.batch_verify_iff _).mp verified made madeMem⟩
  · rintro ⟨ids, distinct, signed⟩
    obtain ⟨items, ran⟩ := validate_each_complete ghostDag ids distinct
      (fun _ _ _ _ => Finset.notMem_empty _)
      (fun tx member item itemMem => (signed tx member item itemMem).imp fun _ both => both.1) []
    obtain ⟨_, _, _, added, all, each⟩ := validate_each_ok ran
    rw [List.nil_append] at all
    rw [← all] at each
    have verified : Schnorr.batchVerify items = .ok true := by
      rw [Schnorr.batch_verify_iff]
      intro made madeMem
      have listed : (Except.ok made : Except CoreError Schnorr.SignatureItem) ∈ items.map .ok :=
        List.mem_map_of_mem madeMem
      rw [← each] at listed
      obtain ⟨tx, member, itemListed⟩ := List.mem_flatMap.mp listed
      obtain ⟨item, itemMem, same⟩ := List.mem_map.mp itemListed
      obtain ⟨other, sameOther, valid⟩ := signed tx member item itemMem
      rw [sameOther] at same
      exact Except.ok.inj same ▸ valid
    rw [ran]
    dsimp only
    rw [verified]

/-- A signed input has a signature and a key that parse, and the signature is over the sighash of this input under its
own type. -/
theorem input_signed_iff (tx : Transaction) (inputIdx : Nat) (input : TxInput) :
    InputSigned tx inputIdx input ↔
      input.signature ≠ [] ∧ ∃ pubkey signature sighash,
        SchnorrScheme.verifyingKeyFromBytes input.pubkey = .ok pubkey ∧
        SchnorrScheme.signatureTryFrom input.signature = .ok signature ∧
        Schnorr.computeSighash tx inputIdx input.sighashType = .ok sighash ∧
        SchnorrScheme.verify pubkey sighash.bytes signature = true := by
  rw [InputSigned, signatureItem]
  constructor
  · rintro ⟨item, made, verified⟩
    split at made
    · cases made
    rename_i signed
    refine ⟨fun empty => signed (List.isEmpty_iff.mpr empty), ?_⟩
    split at made
    · cases made
    rename_i sighash hashed
    split at made
    · cases made
    rename_i pubkey keyParsed
    split at made
    · cases made
    rename_i signature signatureParsed
    cases made
    exact ⟨pubkey, signature, sighash, keyParsed, signatureParsed, hashed, verified⟩
  · rintro ⟨signed, pubkey, signature, sighash, keyParsed, signatureParsed, hashed, verified⟩
    refine ⟨(pubkey, sighash, signature), ?_, verified⟩
    rw [if_neg fun empty => signed (List.isEmpty_iff.mp empty), hashed, keyParsed, signatureParsed]

/-- `validate_transactions` is exact: it accepts a block exactly when every id is the computed one, no outpoint is spent
twice in the block, and every input is signed. -/
theorem validate_transactions_exact [Channel] (ghostDag : GhostDag) (block : BlockNode) (dag : Dag) :
    ghostDag.validateTransactions block dag = .ok () ↔
      (∀ tx ∈ block.transactions, tx.id = tx.calculateId) ∧
      (block.transactions.flatMap fun tx => tx.inputs.map TxInput.outpoint).Nodup ∧
      ∀ tx ∈ block.transactions, ∀ position input, tx.inputs[position]? = some input →
        input.signature ≠ [] ∧ ∃ pubkey signature sighash,
          SchnorrScheme.verifyingKeyFromBytes input.pubkey = .ok pubkey ∧
          SchnorrScheme.signatureTryFrom input.signature = .ok signature ∧
          Schnorr.computeSighash tx position input.sighashType = .ok sighash ∧
          SchnorrScheme.verify pubkey sighash.bytes signature = true := by
  rw [validate_transactions_ok_iff]
  constructor
  · rintro ⟨ids, distinct, signed⟩
    refine ⟨ids, distinct, fun tx member position input here => ?_⟩
    apply (input_signed_iff tx position input).mp
    exact signed tx member (input, position) (List.mk_mem_zipIdx_iff_getElem?.mpr here)
  · rintro ⟨ids, distinct, signed⟩
    refine ⟨ids, distinct, fun tx member item itemMem => ?_⟩
    apply (input_signed_iff tx item.2 item.1).mpr
    exact signed tx member item.2 item.1 (List.mk_mem_zipIdx_iff_getElem?.mp itemMem)

end Acceptance

section Checks

/-- A loop of checks passes when every check does. -/
theorem for_each_ok {α ε : Type} (check : α → Except ε Unit) (list : List α) :
    list.forM check = .ok () ↔ ∀ element ∈ list, check element = .ok () := by
  induction list with
  | nil => simp [List.forM, pure, Except.pure]
  | cons first rest ih =>
    rw [List.forM, List.forall_mem_cons, ← ih]
    cases check first with
    | error error => simp [bind, Except.bind]
    | ok _ => simp [bind, Except.bind]

variable [Blake3] [Bandersnatch] {S : Type} [Storage S]

/-- What `validate_verkle_proof` checks: the tree has a leaf for every input and none for an output. -/
structure LeavesFit (tree : VerkleTree S) (transactions : List Transaction) : Prop where
  inputs : ∀ tx ∈ transactions, ∀ input ∈ tx.inputs, ∃ value, tree.get input.outpoint.key = .ok (some value)
  outputs : ∀ tx ∈ transactions, ∀ idx < tx.outputs.length, ∀ value,
    tree.get (OutPoint.key (tx.id, UInt32.ofNat idx)) ≠ .ok (some value)

theorem validate_verkle_proof_ok_iff (ghostDag : GhostDag) (block : BlockNode) (tree : VerkleTree S) :
    ghostDag.validateVerkleProof block tree = .ok () ↔ LeavesFit tree block.transactions := by
  have found : ∀ input, checkInput tree input = .ok () ↔ ∃ value, tree.get input.outpoint.key = .ok (some value) := by
    intro input
    have key : outpointKey input.prevTx input.index = input.outpoint.key := rfl
    rw [checkInput, key]
    rcases tree.get input.outpoint.key with _ | (_ | value) <;> simp
  have fresh : ∀ tx idx, checkOutput tree tx idx = .ok () ↔
      ∀ value, tree.get (OutPoint.key (tx.id, UInt32.ofNat idx)) ≠ .ok (some value) := by
    intro tx idx
    rw [checkOutput, hash_with_index_is_key]
    rcases tree.get (OutPoint.key (tx.id, UInt32.ofNat idx)) with _ | (_ | value) <;> simp
  have both : ∀ tx : Transaction, (do
      tx.inputs.forM (checkInput tree)
      (List.range tx.outputs.length).forM (checkOutput tree tx) : Except CoreError Unit) = .ok () ↔
        (∀ input ∈ tx.inputs, ∃ value, tree.get input.outpoint.key = .ok (some value)) ∧
        ∀ idx < tx.outputs.length, ∀ value,
          tree.get (OutPoint.key (tx.id, UInt32.ofNat idx)) ≠ .ok (some value) := by
    intro tx
    have inputs := for_each_ok (checkInput tree) tx.inputs
    have outputs := for_each_ok (checkOutput tree tx) (List.range tx.outputs.length)
    simp only [found, fresh, List.mem_range] at inputs outputs
    rw [← inputs, ← outputs]
    cases tx.inputs.forM (checkInput tree) <;> simp [bind, Except.bind]
  rw [validateVerkleProof, for_each_ok]
  simp only [both]
  exact ⟨fun checked => ⟨fun tx member => (checked tx member).1, fun tx member => (checked tx member).2⟩,
    fun fit tx member => ⟨fit.inputs tx member, fit.outputs tx member⟩⟩

variable [SchnorrScheme]

/-- A header that `validate_block` lets through. -/
structure HeaderFits (ghostDag : GhostDag) (order : Enumeration Hash) (block : BlockNode) (dag : Dag)
    (currentTime : UInt64) : Prop where
  parents : ∀ parent ∈ block.header.parents, (dag.getBlock parent).isSome = true
  notFuture : block.header.timestamp.toNat ≤ min (currentTime.toNat + 2 * 60 * 60) (2 ^ 64 - 1)
  notPast : currentTime.toNat - 24 * 60 * 60 ≤ block.header.timestamp.toNat
  difficulty : block.header.difficulty ≠ 0
  pow : Pow.isValidPow (Pow.calculateHash block.header.timestamp block.header.difficulty
    (order.list block.header.parents) block.blueScore block.header.nonce
    (ghostDag.computeTransactionMerkleRoot block.transactions)) block.header.difficulty = true

/-- `validate_block` accepts a block exactly when its header, its transactions and its leaves fit. -/
theorem validate_block_ok_iff [Channel] (ghostDag : GhostDag) (order : Enumeration Hash)
    (block : BlockNode) (dag : Dag) (tree : VerkleTree S) (currentTime : UInt64) :
    ghostDag.validateBlock order block dag tree currentTime = .ok () ↔
      HeaderFits ghostDag order block dag currentTime ∧ TransactionsSigned block.transactions ∧
        LeavesFit tree block.transactions := by
  unfold validateBlock
  cases missing : (order.list block.header.parents).find? fun parent => (dag.getBlock parent).isNone with
  | some parent =>
    have absent := List.find?_some missing
    have named := (order.mem _ _).mp (List.mem_of_find?_eq_some missing)
    simp only [reduceCtorEq, false_iff, not_and]
    intro header
    have stored := header.parents parent named
    rw [Option.isNone_iff_eq_none.mp absent] at stored
    cases stored
  | none =>
    have known : ∀ parent ∈ block.header.parents, (dag.getBlock parent).isSome = true := by
      intro parent named
      have here := List.find?_eq_none.mp missing parent ((order.mem _ _).mpr named)
      cases stored : dag.getBlock parent with
      | none =>
        rw [stored] at here
        exact absurd rfl here
      | some _ => rfl
    dsimp only
    split
    · rename_i future
      simp only [reduceCtorEq, false_iff, not_and]
      exact fun header => absurd header.notFuture (Nat.not_le.mpr future)
    split
    · rename_i past
      simp only [reduceCtorEq, false_iff, not_and]
      exact fun header => absurd header.notPast (Nat.not_le.mpr past)
    split
    · rename_i zero
      simp only [reduceCtorEq, false_iff, not_and]
      exact fun header => absurd zero header.difficulty
    split
    · rename_i notFuture notPast difficulty pow
      have header : HeaderFits ghostDag order block dag currentTime :=
        ⟨known, Nat.not_lt.mp notFuture, Nat.not_lt.mp notPast, difficulty, pow⟩
      rw [← validate_transactions_ok_iff block dag, ← validate_verkle_proof_ok_iff ghostDag block tree]
      constructor
      · intro accepted
        cases signed : ghostDag.validateTransactions block dag with
        | error error =>
          rw [signed] at accepted
          cases accepted
        | ok _ =>
          rw [signed] at accepted
          exact ⟨header, rfl, accepted⟩
      · rintro ⟨_, signed, leaves⟩
        rw [signed]
        exact leaves
    · rename_i weak
      simp only [reduceCtorEq, false_iff, not_and]
      exact fun header => absurd header.pow weak

end Checks
end Klomang.GhostDag
