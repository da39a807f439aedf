import Klomang.StateManager.Indices

/-! What one plain transaction does to one outpoint. Its inputs are taken up to the first that is
missing or repeated; its outputs are put only when all of them were taken. -/
namespace Klomang

namespace Transaction

/-- The outpoints the inputs spend. -/
def spends (tx : Transaction) : List OutPoint := tx.inputs.map TxInput.outpoint

/-- The outpoints of the outputs. -/
def creates (tx : Transaction) : List OutPoint := tx.created.map Prod.fst

/-- What the outputs are worth. -/
def worth (tx : Transaction) : Nat := (tx.outputs.map TxOutput.amount).sum

theorem mem_creates_iff {tx : Transaction} {outpoint : OutPoint} :
    outpoint ∈ tx.creates ↔ ∃ item ∈ tx.outputs.zipIdx, (tx.id, UInt32.ofNat item.2) = outpoint := by
  simp [creates, created]

theorem creates_own {tx : Transaction} {outpoint : OutPoint} (member : outpoint ∈ tx.creates) : outpoint.1 = tx.id := by
  simp only [creates, created, List.map_map, List.mem_map] at member
  obtain ⟨_, _, rfl⟩ := member
  rfl

theorem moves_split (tx : Transaction) :
    tx.moves = tx.spends.map .take ++ tx.created.map fun (outpoint, output) => .put outpoint output := by
  rw [moves, spends, List.map_map]
  rfl

theorem created_worth (tx : Transaction) : (tx.created.map fun (_, output) => output.amount).sum = tx.worth := by
  have values : (tx.outputs.zipIdx.map fun item => item.1.amount) = tx.outputs.map TxOutput.amount := by
    conv_rhs => rw [← List.zipIdx_map_fst 0 tx.outputs, List.map_map]
    rfl
  rw [worth, created, List.map_map, ← values]
  rfl

/-- A move of a transaction is about an outpoint it spends or creates. -/
theorem move_key {tx : Transaction} {move : Move OutPoint TxOutput} (member : move ∈ tx.moves) :
    move.key ∈ tx.spends ∨ move.key ∈ tx.creates := by
  rw [moves_split, List.mem_append] at member
  rcases member with taken | put
  · obtain ⟨outpoint, spent, rfl⟩ := List.mem_map.mp taken
    exact .inl spent
  · obtain ⟨⟨outpoint, output⟩, created, rfl⟩ := List.mem_map.mp put
    exact .inr (List.mem_map.mpr ⟨_, created, rfl⟩)

end Transaction

/-- An outpoint that comes up in a list before anything has been repeated. -/
def Reached (outpoints : List OutPoint) (outpoint : OutPoint) : Prop :=
  ∃ before after, outpoints = before ++ outpoint :: after ∧ (before ++ [outpoint]).Nodup

theorem reached_of_nodup {outpoints : List OutPoint} (distinct : outpoints.Nodup) {outpoint : OutPoint}
    (member : outpoint ∈ outpoints) : Reached outpoints outpoint := by
  obtain ⟨before, after, rfl⟩ := List.append_of_mem member
  refine ⟨before, after, rfl, distinct.sublist ?_⟩
  exact List.Sublist.append_left (List.cons_sublist_cons.mpr (List.nil_sublist after)) before

theorem Reached.mem {outpoints : List OutPoint} {outpoint : OutPoint} (reached : Reached outpoints outpoint) :
    outpoint ∈ outpoints := by
  obtain ⟨before, after, rfl, _⟩ := reached
  simp

namespace StateManager

section Taking
variable {utxo : UtxoSet} {outpoint : OutPoint}

/-- Spending takes an outpoint away exactly when it gets to it: nothing is repeated up to there
and everything up to there is unspent. -/
def TakenFrom (utxo : UtxoSet) (outpoints : List OutPoint) (outpoint : OutPoint) : Prop :=
  ∃ before after, outpoints = before ++ outpoint :: after ∧ (before ++ [outpoint]).Nodup ∧
    ∀ other ∈ before ++ [outpoint], utxo.utxos.lookup other ≠ none

theorem TakenFrom.reached {outpoints : List OutPoint} (taken : TakenFrom utxo outpoints outpoint) :
    Reached outpoints outpoint := by
  obtain ⟨before, after, split, distinct, _⟩ := taken
  exact ⟨before, after, split, distinct⟩

/-- An outpoint that is reached where everything is there is taken. -/
theorem taken_from_reached {outpoints : List OutPoint} (reached : Reached outpoints outpoint)
    (present : ∀ other ∈ outpoints, utxo.utxos.lookup other ≠ none) : TakenFrom utxo outpoints outpoint := by
  obtain ⟨before, after, split, nodup⟩ := reached
  refine ⟨before, after, split, nodup, fun other listed => present other ?_⟩
  rw [split]
  rcases List.mem_append.mp listed with earlier | last
  · exact List.mem_append_left _ earlier
  · rw [List.mem_singleton.mp last]
    simp

theorem taken_from_all {outpoints : List OutPoint} (distinct : outpoints.Nodup)
    (present : ∀ other ∈ outpoints, utxo.utxos.lookup other ≠ none) (member : outpoint ∈ outpoints) :
    TakenFrom utxo outpoints outpoint :=
  taken_from_reached (reached_of_nodup distinct member) present

end Taking

section Effects
variable [Blake3] [Bandersnatch] {S : Type} {manager later : StateManager S} {utxo left : UtxoSet}
  {tx : Transaction} {outpoint : OutPoint}

section Spending

private theorem lookup_stays_none (tx : Transaction) (inputs : List TxInput) (manager : StateManager S) (utxo : UtxoSet)
    (absent : utxo.utxos.lookup outpoint = none) :
    (spendInputs tx inputs manager utxo).2.2.utxos.lookup outpoint = none := by
  induction inputs generalizing manager utxo with
  | nil => exact absent
  | cons input rest ih =>
    rw [spendInputs]
    cases utxo.utxos.lookup input.outpoint with
    | none => exact absent
    | some output =>
      apply ih _ _
      rw [FiniteMap.lookup_erase_ite, absent, ite_self]

theorem spend_inputs_taken (tx : Transaction) (outpoint : OutPoint) (inputs : List TxInput)
    (manager : StateManager S) (utxo : UtxoSet)
    (taken : TakenFrom utxo (inputs.map TxInput.outpoint) outpoint) :
    (spendInputs tx inputs manager utxo).2.2.utxos.lookup outpoint = none := by
  induction inputs generalizing manager utxo with
  | nil =>
    obtain ⟨before, after, split, _⟩ := taken
    exact absurd split (by simp)
  | cons input rest ih =>
    obtain ⟨before, after, split, distinct, present⟩ := taken
    rw [List.map_cons] at split
    rw [spendInputs]
    cases before with
    | nil =>
      cases split
      obtain ⟨output, found⟩ := Option.ne_none_iff_exists'.mp (present input.outpoint (by simp))
      rw [found]
      exact lookup_stays_none tx rest _ _ (Finmap.lookup_erase _ _)
    | cons first others =>
      obtain ⟨rfl, further⟩ := List.cons.inj split
      obtain ⟨output, found⟩ := Option.ne_none_iff_exists'.mp (present input.outpoint (by simp))
      rw [found]
      obtain ⟨fresh, nodup⟩ := List.nodup_cons.mp distinct
      refine ih _ _ ⟨others, after, further, nodup, fun other listed => ?_⟩
      have different : other ≠ input.outpoint := fun same => fresh (same ▸ listed)
      dsimp only
      rw [Finmap.lookup_erase_ne different]
      exact present other (List.mem_cons_of_mem _ listed)

theorem spend_inputs_untaken (tx : Transaction) (outpoint : OutPoint) (inputs : List TxInput)
    (manager : StateManager S) (utxo : UtxoSet)
    (untaken : ¬ TakenFrom utxo (inputs.map TxInput.outpoint) outpoint) :
    (spendInputs tx inputs manager utxo).2.2.utxos.lookup outpoint = utxo.utxos.lookup outpoint := by
  induction inputs generalizing manager utxo with
  | nil => rfl
  | cons input rest ih =>
    rw [spendInputs]
    cases found : utxo.utxos.lookup input.outpoint with
    | none => rfl
    | some output =>
      have different : outpoint ≠ input.outpoint := by
        rintro rfl
        exact untaken ⟨[], rest.map TxInput.outpoint, rfl, List.nodup_singleton _, by simp [found]⟩
      dsimp only
      rw [ih, Finmap.lookup_erase_ne different]
      rintro ⟨before, after, split, distinct, present⟩
      refine untaken ⟨input.outpoint :: before, after, congrArg (List.cons _) split, ?_, ?_⟩
      · refine List.nodup_cons.mpr ⟨fun member => ?_, distinct⟩
        exact present _ member (Finmap.lookup_erase _ _)
      · intro other listed
        rcases List.mem_cons.mp listed with rfl | further
        · simp [found]
        · have still := present other further
          rw [FiniteMap.lookup_erase_ite] at still
          split at still
          · exact absurd rfl still
          · exact still

end Spending

section Creating

theorem create_outputs_elsewhere (tx : Transaction) (outpoint : OutPoint)
    (outputs : List (TxOutput × Nat)) (manager : StateManager S) (utxo : UtxoSet)
    (elsewhere : ∀ item ∈ outputs, (tx.id, UInt32.ofNat item.2) ≠ outpoint) :
    (createOutputs tx outputs manager utxo).2.utxos.lookup outpoint = utxo.utxos.lookup outpoint := by
  induction outputs generalizing manager utxo with
  | nil => rfl
  | cons item rest ih =>
    obtain ⟨here, further⟩ := List.forall_mem_cons.mp elsewhere
    rw [createOutputs, ih _ _ further]
    exact Finmap.lookup_insert_of_ne _ fun same => here same.symm

theorem create_outputs_there (tx : Transaction) (outpoint : OutPoint)
    (outputs : List (TxOutput × Nat)) (manager : StateManager S) (utxo : UtxoSet)
    (there : (∃ item ∈ outputs, (tx.id, UInt32.ofNat item.2) = outpoint) ∨ utxo.utxos.lookup outpoint ≠ none) :
    (createOutputs tx outputs manager utxo).2.utxos.lookup outpoint ≠ none := by
  induction outputs generalizing manager utxo with
  | nil =>
    rw [createOutputs]
    simpa using there
  | cons item rest ih =>
    rw [createOutputs]
    apply ih _ _
    dsimp only
    rw [FiniteMap.lookup_insert_ite]
    rcases there with ⟨created, member, same⟩ | present
    · rcases List.mem_cons.mp member with rfl | further
      · exact .inr (by simp [same])
      · exact .inl ⟨created, further, same⟩
    · right
      split
      · simp
      · exact present

end Creating

section Applying

/-- A plain transaction goes through exactly when its inputs repeat nothing and are all unspent. -/
theorem apply_utxo_transaction_ok_iff (manager : StateManager S) (tx : Transaction) (utxo : UtxoSet) :
    (manager.applyUtxoTransaction tx utxo).1.isOk = true ↔
      tx.spends.Nodup ∧ ∀ outpoint ∈ tx.spends, utxo.utxos.lookup outpoint ≠ none := by
  constructor
  · intro succeeded
    rcases ran : manager.applyUtxoTransaction tx utxo with ⟨outcome, later, left⟩
    rw [ran] at succeeded
    cases outcome with
    | error error => cases succeeded
    | ok _ =>
      have played := (apply_utxo_transaction_played manager ran).1
      rw [Transaction.moves_split, Books.ledger_append] at played
      obtain ⟨halfway, taken, _⟩ := Option.bind_eq_some_iff.mp played
      obtain ⟨distinct, present, _⟩ := Books.takes_played taken
      exact ⟨distinct, present⟩
  · rintro ⟨distinct, present⟩
    obtain ⟨halfway, taken⟩ := Books.takes_play TxOutput.amount u128Max (manager.books utxo) distinct present
    obtain ⟨after, put, _⟩ := Books.puts_play TxOutput.amount u128Max halfway tx.created
    have played : (manager.books utxo).ledger tx.moves = some after := by
      rw [Transaction.moves_split, Books.ledger_append, Books.ledger, taken]
      exact put
    obtain ⟨index, markers, applied⟩ := apply_utxo_transaction_ok played
    rw [applied]
    rfl

/-- What a plain transaction does to one outpoint. -/
theorem apply_utxo_transaction_lookup (manager : StateManager S) (tx : Transaction) (utxo : UtxoSet)
    (outpoint : OutPoint) :
    let result := manager.applyUtxoTransaction tx utxo
    (result.1.isOk = true → outpoint ∈ tx.creates → result.2.2.utxos.lookup outpoint ≠ none) ∧
    ((result.1.isOk = true → outpoint ∉ tx.creates) →
      (TakenFrom utxo tx.spends outpoint → result.2.2.utxos.lookup outpoint = none) ∧
      (¬ TakenFrom utxo tx.spends outpoint →
        result.2.2.utxos.lookup outpoint = utxo.utxos.lookup outpoint)) := by
  have taken := spend_inputs_taken tx outpoint tx.inputs manager utxo
  have untaken := spend_inputs_untaken tx outpoint tx.inputs manager utxo
  unfold applyUtxoTransaction
  rcases spent : spendInputs tx tx.inputs manager utxo with ⟨outcome, spender, remaining⟩
  rw [spent] at taken untaken
  cases outcome with
  | error error => exact ⟨nofun, fun _ => ⟨taken, untaken⟩⟩
  | ok _ =>
    refine ⟨fun _ created => ?_, fun elsewhere => ?_⟩
    · exact create_outputs_there tx outpoint _ spender remaining (.inl (Transaction.mem_creates_iff.mp created))
    · have kept := create_outputs_elsewhere tx outpoint tx.outputs.zipIdx spender remaining fun item member same =>
        elsewhere rfl (Transaction.mem_creates_iff.mpr ⟨item, member, same⟩)
      exact ⟨fun taking => kept.trans (taken taking), fun sparing => kept.trans (untaken sparing)⟩

/-- What a plain transaction that goes through does to the supply. -/
theorem apply_utxo_transaction_supply (ran : manager.applyUtxoTransaction tx utxo = (.ok (), later, left))
    (fits : manager.currentTotalSupply ≤ u128Max) :
    later.currentTotalSupply =
      min (manager.currentTotalSupply - (tx.spends.map (FiniteMap.weight TxOutput.amount utxo.utxos)).sum + tx.worth)
        u128Max := by
  have played := (apply_utxo_transaction_played manager ran).1
  rw [Transaction.moves_split, Books.ledger_append] at played
  obtain ⟨halfway, taken, put⟩ := Option.bind_eq_some_iff.mp played
  obtain ⟨_, _, account⟩ := Books.takes_played taken
  obtain ⟨after, again, filled⟩ := Books.puts_play TxOutput.amount u128Max halfway tx.created
  cases put.symm.trans again
  have within : halfway.account ≤ u128Max := by
    rw [account]
    exact (Nat.sub_le _ _).trans fits
  have finished : later.currentTotalSupply = _ := filled within
  rw [finished, account, Transaction.created_worth]
  rfl

end Applying

end Effects
end StateManager
end Klomang
