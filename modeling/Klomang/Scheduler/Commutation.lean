import Klomang.StateManager.Spending
import Klomang.State.AccessSet

/-! Two plain transactions in either order. What the order can change is whether a spent
outpoint is still there or already there, and where the tracked supply saturates. -/
namespace Klomang

/-- What the first transaction takes away or creates is nothing the second one spends, as far as
each of them can get. -/
def Unaffected (first second : Transaction) : Prop :=
  second.spends.Nodup → ∀ outpoint ∈ second.spends,
    ¬ Reached first.spends outpoint ∧ (first.spends.Nodup → outpoint ∉ first.creates)

/-- Transactions with distinct ids that do not affect each other move different outpoints. -/
theorem moves_apart {first second : Transaction} (distinct : first.id ≠ second.id) (ahead : Unaffected first second)
    (behind : Unaffected second first) (firstNodup : first.spends.Nodup) (secondNodup : second.spends.Nodup) :
    ∀ move ∈ first.moves, ∀ other ∈ second.moves, move.key ≠ other.key := by
  intro move here other there same
  rcases Transaction.move_key here with spent | created <;>
    rcases Transaction.move_key there with alsoSpent | alsoCreated
  · rw [← same] at alsoSpent
    exact (ahead secondNodup _ alsoSpent).1 (reached_of_nodup firstNodup spent)
  · rw [← same] at alsoCreated
    exact (behind firstNodup _ spent).2 secondNodup alsoCreated
  · rw [← same] at alsoSpent
    exact (ahead secondNodup _ alsoSpent).2 firstNodup created
  · rw [← same] at alsoCreated
    exact distinct ((Transaction.creates_own created).symm.trans (Transaction.creates_own alsoCreated))

/-- Neither order of the two can make the supply saturate: one that takes from it does not meet
one that adds to it. -/
def Unsaturating (first second : Transaction) : Prop :=
  first.spends.Nodup → second.spends.Nodup →
    (first.spends = [] ∨ second.worth = 0) ∧ (second.spends = [] ∨ first.worth = 0)

theorem worth_bound (tx : Transaction) : tx.worth ≤ tx.outputs.length * (2 ^ 64 - 1) := by
  have each : ∀ amount ∈ tx.outputs.map TxOutput.amount, amount ≤ 2 ^ 64 - 1 := by
    intro amount member
    obtain ⟨output, _, rfl⟩ := List.mem_map.mp member
    exact Nat.le_sub_one_of_lt output.value.toNat_lt
  simpa [Transaction.worth] using List.sum_le_card_nsmul _ _ each

/-- A set with exactly the given outpoints, each worth what is asked. -/
def stocked (outpoints : List OutPoint) (value : OutPoint → UInt64) : UtxoSet :=
  ⟨outpoints.foldr (fun outpoint set => set.insert outpoint ⟨value outpoint, .replicate 0⟩) ∅⟩

theorem stocked_lookup (outpoints : List OutPoint) (value : OutPoint → UInt64) (outpoint : OutPoint) :
    (stocked outpoints value).utxos.lookup outpoint =
      if outpoint ∈ outpoints then some ⟨value outpoint, .replicate 0⟩ else none := by
  unfold stocked
  induction outpoints with
  | nil => rfl
  | cons first rest ih =>
    dsimp only at ih
    rw [List.foldr_cons, FiniteMap.lookup_insert_ite, ih]
    by_cases same : outpoint = first
    · simp [same]
    · simp [same]

theorem stocked_present {outpoints : List OutPoint} (value : OutPoint → UInt64) {outpoint : OutPoint}
    (member : outpoint ∈ outpoints) : (stocked outpoints value).utxos.lookup outpoint ≠ none := by
  simp [stocked_lookup, member]

theorem stocked_weight {outpoints : List OutPoint} (value : OutPoint → UInt64) {outpoint : OutPoint}
    (member : outpoint ∈ outpoints) :
    FiniteMap.weight TxOutput.amount (stocked outpoints value).utxos outpoint = (value outpoint).toNat := by
  rw [FiniteMap.weight, stocked_lookup, if_pos member]
  rfl

theorem stocked_worthless (outpoints : List OutPoint) : (stocked outpoints fun _ => 0).totalValue = 0 := by
  apply Finset.sum_eq_zero
  intro outpoint _
  rw [FiniteMap.weight, stocked_lookup]
  split <;> rfl

namespace StateManager

section Turns
variable [Blake3] [Bandersnatch] {S : Type} {manager later : StateManager S} {utxo left : UtxoSet}
  {tx : Transaction} {outpoint : OutPoint}

section Order
variable [Wasmer] [Storage S]

/-- Two transactions one after the other, each whatever became of the other: whether they went
through, and what they leave. -/
def inTurn (manager : StateManager S) (utxo : UtxoSet) (first second : Transaction) :
    Bool × Bool × StateManager S × UtxoSet :=
  let (outcome, later, left) := manager.applyTransaction first utxo
  let (further, last, remaining) := later.applyTransaction second left
  (outcome.isOk, further.isOk, last, remaining)

variable {first second : Transaction}

/-- Either order gives the same outcome: each transaction goes through in both orders or in
none, and when both go through they leave the same outputs, supply and index. -/
structure SameEitherWay (manager : StateManager S) (utxo : UtxoSet) (first second : Transaction) : Prop where
  firstOutcome : (manager.inTurn utxo first second).1 = (manager.inTurn utxo second first).2.1
  secondOutcome : (manager.inTurn utxo first second).2.1 = (manager.inTurn utxo second first).1
  leaves : (manager.inTurn utxo first second).1 = true → (manager.inTurn utxo first second).2.1 = true →
    (manager.inTurn utxo first second).2.2.2 = (manager.inTurn utxo second first).2.2.2 ∧
    (manager.inTurn utxo first second).2.2.1.currentTotalSupply =
      (manager.inTurn utxo second first).2.2.1.currentTotalSupply ∧
    (manager.inTurn utxo first second).2.2.1.outpointToKey =
      (manager.inTurn utxo second first).2.2.1.outpointToKey

theorem SameEitherWay.symm (same : SameEitherWay manager utxo first second) :
    SameEitherWay manager utxo second first := by
  refine ⟨same.secondOutcome.symm, same.firstOutcome.symm, fun one two => ?_⟩
  obtain ⟨outputs, supply, index⟩ := same.leaves (same.firstOutcome.trans two) (same.secondOutcome.trans one)
  exact ⟨outputs.symm, supply.symm, index.symm⟩

/-- Two plain transactions that both go through in turn. -/
structure WentThrough (manager : StateManager S) (utxo : UtxoSet) (first second : Transaction)
    (middle : StateManager S) (halfway : UtxoSet) (last : StateManager S) (left : UtxoSet) : Prop where
  ran : manager.applyUtxoTransaction first utxo = (.ok (), middle, halfway)
  further : middle.applyUtxoTransaction second halfway = (.ok (), last, left)
  turn : manager.inTurn utxo first second = (true, true, last, left)

theorem in_turn_plain (firstPlain : first.Plain) (secondPlain : second.Plain) (manager : StateManager S)
    (utxo : UtxoSet) :
    (manager.inTurn utxo first second).1 = (manager.applyUtxoTransaction first utxo).1.isOk ∧
      (manager.inTurn utxo first second).2.1 =
        ((manager.applyUtxoTransaction first utxo).2.1.applyUtxoTransaction second
          (manager.applyUtxoTransaction first utxo).2.2).1.isOk := by
  rw [inTurn, apply_plain_transaction firstPlain]
  rcases manager.applyUtxoTransaction first utxo with ⟨outcome, middle, halfway⟩
  dsimp only
  rw [apply_plain_transaction secondPlain]
  exact ⟨rfl, rfl⟩

theorem went_through (firstPlain : first.Plain) (secondPlain : second.Plain)
    (one : (manager.inTurn utxo first second).1 = true) (two : (manager.inTurn utxo first second).2.1 = true) :
    ∃ middle halfway last left, WentThrough manager utxo first second middle halfway last left := by
  obtain ⟨firstTurn, secondTurn⟩ := in_turn_plain firstPlain secondPlain manager utxo
  rw [firstTurn] at one
  rw [secondTurn] at two
  rcases ran : manager.applyUtxoTransaction first utxo with ⟨outcome, middle, halfway⟩
  rw [ran] at one two
  cases outcome with
  | error error => cases one
  | ok _ =>
    rcases further : middle.applyUtxoTransaction second halfway with ⟨outcome, last, left⟩
    rw [further] at two
    cases outcome with
    | error error => cases two
    | ok _ =>
      refine ⟨middle, halfway, last, left, ran, further, ?_⟩
      rw [inTurn, apply_plain_transaction firstPlain, ran]
      dsimp only
      rw [apply_plain_transaction secondPlain, further]
      rfl

end Order

section Apart

variable {first second : Transaction}

/-- The outputs a second transaction spends look the same after the first. -/
theorem unaffected_lookup (apart : Unaffected first second) (distinct : second.spends.Nodup)
    (manager : StateManager S) (utxo : UtxoSet) {outpoint : OutPoint} (spent : outpoint ∈ second.spends) :
    (manager.applyUtxoTransaction first utxo).2.2.utxos.lookup outpoint = utxo.utxos.lookup outpoint := by
  obtain ⟨unreached, uncreated⟩ := apart distinct outpoint spent
  refine ((apply_utxo_transaction_lookup manager first utxo outpoint).2 fun succeeded => ?_).2 fun taken => ?_
  · exact uncreated ((apply_utxo_transaction_ok_iff manager first utxo).mp succeeded).1
  · exact unreached taken.reached

theorem unaffected_outcome (apart : Unaffected first second) (manager : StateManager S) (utxo : UtxoSet) :
    ((manager.applyUtxoTransaction first utxo).2.1.applyUtxoTransaction second
      (manager.applyUtxoTransaction first utxo).2.2).1.isOk = (manager.applyUtxoTransaction second utxo).1.isOk := by
  rw [Bool.eq_iff_iff, apply_utxo_transaction_ok_iff, apply_utxo_transaction_ok_iff]
  refine and_congr_right fun distinct => forall₂_congr fun outpoint spent => ?_
  rw [unaffected_lookup apart distinct manager utxo spent]

theorem unaffected_weights (apart : Unaffected first second) (distinct : second.spends.Nodup)
    (manager : StateManager S) (utxo : UtxoSet) :
    second.spends.map (FiniteMap.weight TxOutput.amount (manager.applyUtxoTransaction first utxo).2.2.utxos) =
      second.spends.map (FiniteMap.weight TxOutput.amount utxo.utxos) := by
  apply List.map_congr_left
  intro outpoint spent
  rw [FiniteMap.weight, FiniteMap.weight, unaffected_lookup apart distinct manager utxo spent]

end Apart

section Supplies
variable {first second : Transaction}

/-- What the inputs of a transaction are worth. -/
def spentValue (utxo : UtxoSet) (tx : Transaction) : Nat :=
  (tx.spends.map (FiniteMap.weight TxOutput.amount utxo.utxos)).sum

/-- Where the supply covers the unspent outputs and has room, it comes out the same. -/
theorem roomy_supply (ahead : Unaffected first second) (firstNodup : first.spends.Nodup)
    (secondNodup : second.spends.Nodup) (covers : utxo.totalValue ≤ manager.currentTotalSupply)
    (room : manager.currentTotalSupply + (first.worth + second.worth) ≤ u128Max) :
    min (min (manager.currentTotalSupply - spentValue utxo first + first.worth) u128Max -
        spentValue utxo second + second.worth) u128Max =
      min (min (manager.currentTotalSupply - spentValue utxo second + second.worth) u128Max -
        spentValue utxo first + first.worth) u128Max := by
  have apart : (first.spends ++ second.spends).Nodup := by
    refine List.nodup_append.mpr ⟨firstNodup, secondNodup, ?_⟩
    rintro outpoint here _ there rfl
    exact (ahead secondNodup outpoint there).1 (reached_of_nodup firstNodup here)
  have held := FiniteMap.weights_le_total TxOutput.amount utxo.utxos apart
  rw [List.map_append, List.sum_append] at held
  have within : spentValue utxo first + spentValue utxo second ≤ manager.currentTotalSupply := held.trans covers
  omega

theorem unsaturating_supply (safe : Unsaturating first second) (firstNodup : first.spends.Nodup)
    (secondNodup : second.spends.Nodup) (fits : manager.currentTotalSupply ≤ u128Max) :
    min (min (manager.currentTotalSupply - spentValue utxo first + first.worth) u128Max -
        spentValue utxo second + second.worth) u128Max =
      min (min (manager.currentTotalSupply - spentValue utxo second + second.worth) u128Max -
        spentValue utxo first + first.worth) u128Max := by
  have nothing : ∀ tx : Transaction, tx.spends = [] → spentValue utxo tx = 0 := by
    intro tx empty
    rw [spentValue, empty]
    rfl
  obtain ⟨firstSafe, secondSafe⟩ := safe firstNodup secondNodup
  rcases firstSafe with empty | worthless <;> rcases secondSafe with alsoEmpty | alsoWorthless
  · rw [nothing first empty, nothing second alsoEmpty]
    omega
  · rw [nothing first empty, alsoWorthless]
    omega
  · rw [nothing second alsoEmpty, worthless]
    omega
  · rw [worthless, alsoWorthless]
    omega

end Supplies

section Agreement
variable [Wasmer] [Storage S] {first second : Transaction}

/-- Two transactions that went through in turn, seen from the manager they started on. -/
theorem WentThrough.effects {middle last : StateManager S} {halfway : UtxoSet}
    (went : WentThrough manager utxo first second middle halfway last left) (apart : Unaffected first second)
    (fits : manager.currentTotalSupply ≤ u128Max) :
    left.utxos = Edit.replay utxo.utxos ((first.moves ++ second.moves).map Move.entryEdit) ∧
      last.outpointToKey = Edit.replay manager.outpointToKey ((first.moves ++ second.moves).map Move.indexEdit) ∧
      last.currentTotalSupply =
        min (min (manager.currentTotalSupply - spentValue utxo first + first.worth) u128Max -
          spentValue utxo second + second.worth) u128Max := by
  obtain ⟨ran, further, _⟩ := went
  have firstPlayed := (apply_utxo_transaction_played manager ran).1
  have secondPlayed := (apply_utxo_transaction_played middle further).1
  have distinct : second.spends.Nodup :=
    ((apply_utxo_transaction_ok_iff middle second halfway).mp (by rw [further]; rfl)).1
  have weights := unaffected_weights apart distinct manager utxo
  rw [ran] at weights
  have firstIndex := (apply_utxo_transaction_reindexed manager first utxo).index
  have secondIndex := (apply_utxo_transaction_reindexed middle second halfway).index
  rw [ran, Books.performed_played firstPlayed] at firstIndex
  rw [further, Books.performed_played secondPlayed] at secondIndex
  have firstSupply := apply_utxo_transaction_supply ran fits
  have room : middle.currentTotalSupply ≤ u128Max := by
    rw [firstSupply]
    exact Nat.min_le_right _ _
  refine ⟨?_, ?_, ?_⟩
  · rw [List.map_append, Edit.replay_append]
    exact (Books.play_entries secondPlayed).trans
      (congrArg (fun entries => Edit.replay entries _) (Books.play_entries firstPlayed))
  · rw [List.map_append, Edit.replay_append, ← firstIndex, ← secondIndex]
  · rw [apply_utxo_transaction_supply further room, weights, firstSupply, spentValue, spentValue]

/-- Where neither affects the other, and the supply comes out the same, either order does. -/
theorem same_either_way (firstPlain : first.Plain) (secondPlain : second.Plain) (distinct : first.id ≠ second.id)
    (ahead : Unaffected first second) (behind : Unaffected second first)
    (fits : manager.currentTotalSupply ≤ u128Max)
    (supply : first.spends.Nodup → second.spends.Nodup →
      (∀ outpoint ∈ first.spends, utxo.utxos.lookup outpoint ≠ none) →
      (∀ outpoint ∈ second.spends, utxo.utxos.lookup outpoint ≠ none) →
      min (min (manager.currentTotalSupply - spentValue utxo first + first.worth) u128Max -
          spentValue utxo second + second.worth) u128Max =
        min (min (manager.currentTotalSupply - spentValue utxo second + second.worth) u128Max -
          spentValue utxo first + first.worth) u128Max) : SameEitherWay manager utxo first second := by
  obtain ⟨firstAhead, secondBehind⟩ := in_turn_plain firstPlain secondPlain manager utxo
  obtain ⟨secondAhead, firstBehind⟩ := in_turn_plain secondPlain firstPlain manager utxo
  have firstSame : (manager.inTurn utxo first second).1 = (manager.inTurn utxo second first).2.1 := by
    rw [firstAhead, firstBehind, unaffected_outcome behind]
  have secondSame : (manager.inTurn utxo first second).2.1 = (manager.inTurn utxo second first).1 := by
    rw [secondBehind, secondAhead, unaffected_outcome ahead]
  refine ⟨firstSame, secondSame, fun one two => ?_⟩
  obtain ⟨_, _, last, left, went⟩ := went_through firstPlain secondPlain one two
  obtain ⟨_, _, otherLast, otherLeft, otherWent⟩ :=
    went_through secondPlain firstPlain (secondSame ▸ two) (firstSame ▸ one)
  rw [firstAhead, apply_utxo_transaction_ok_iff] at one
  rw [secondSame, secondAhead, apply_utxo_transaction_ok_iff] at two
  obtain ⟨entries, index, total⟩ := went.effects ahead fits
  obtain ⟨otherEntries, otherIndex, otherTotal⟩ := otherWent.effects behind fits
  have apart := moves_apart distinct ahead behind one.1 two.1
  rw [went.turn, otherWent.turn]
  refine ⟨?_, ?_, ?_⟩
  · have entriesSame : left.utxos = otherLeft.utxos := by
      rw [entries, otherEntries]
      exact Move.replay_comm Move.entryEdit (fun move => by cases move <;> rfl) utxo.utxos apart
    exact congrArg UtxoSet.mk entriesSame
  · dsimp only
    rw [total, otherTotal]
    exact supply one.1 two.1 one.2 two.2
  · dsimp only
    rw [index, otherIndex]
    exact Move.replay_comm Move.indexEdit (fun move => by cases move <;> rfl) manager.outpointToKey apart

/-- When the first of two goes through. -/
theorem turn_first (manager : StateManager S) (firstPlain : first.Plain) (secondPlain : second.Plain) :
    (manager.inTurn utxo first second).1 = true ↔
      first.spends.Nodup ∧ ∀ outpoint ∈ first.spends, utxo.utxos.lookup outpoint ≠ none := by
  rw [(in_turn_plain firstPlain secondPlain manager utxo).1, apply_utxo_transaction_ok_iff]

/-- When the second of two goes through. -/
theorem turn_second (firstPlain : first.Plain) (secondPlain : second.Plain) :
    (manager.inTurn utxo first second).2.1 = true ↔ second.spends.Nodup ∧ ∀ outpoint ∈ second.spends,
      (manager.applyUtxoTransaction first utxo).2.2.utxos.lookup outpoint ≠ none := by
  rw [(in_turn_plain firstPlain secondPlain manager utxo).2, apply_utxo_transaction_ok_iff]

/-- A transaction that takes an outpoint another one spends comes out differently where
everything is there to be spent. -/
theorem unreached_of_same (firstPlain : first.Plain) (secondPlain : second.Plain) (distinct : first.id ≠ second.id)
    (same : SameEitherWay manager (stocked (first.spends ++ second.spends) fun _ => 0) first second)
    (secondNodup : second.spends.Nodup) {outpoint : OutPoint} (spent : outpoint ∈ second.spends) :
    ¬ Reached first.spends outpoint := by
  intro reached
  have firstThere : ∀ other ∈ first.spends,
      (stocked (first.spends ++ second.spends) fun _ => 0).utxos.lookup other ≠ none :=
    fun other member => stocked_present _ (List.mem_append_left _ member)
  have secondThere : ∀ other ∈ second.spends,
      (stocked (first.spends ++ second.spends) fun _ => 0).utxos.lookup other ≠ none :=
    fun other member => stocked_present _ (List.mem_append_right _ member)
  have taken : TakenFrom (stocked (first.spends ++ second.spends) fun _ => 0) first.spends outpoint :=
    taken_from_reached reached firstThere
  -- the second one goes through when it comes first, so it must when it comes second
  have goesFirst := (turn_first manager secondPlain firstPlain).mpr ⟨secondNodup, secondThere⟩
  rw [← same.secondOutcome] at goesFirst
  have stillThere := ((turn_second firstPlain secondPlain).mp goesFirst).2 outpoint spent
  have behaviour := apply_utxo_transaction_lookup manager first
    (stocked (first.spends ++ second.spends) fun _ => 0) outpoint
  -- which leaves only that the first one went through and created the outpoint again
  by_cases recreated : (manager.applyUtxoTransaction first
      (stocked (first.spends ++ second.spends) fun _ => 0)).1.isOk = true ∧ outpoint ∈ first.creates
  · have foreign : outpoint ∉ second.creates := fun created =>
      distinct ((Transaction.creates_own recreated.2).symm.trans (Transaction.creates_own created))
    have one : (manager.inTurn (stocked (first.spends ++ second.spends) fun _ => 0) first second).1 = true := by
      rw [(in_turn_plain firstPlain secondPlain _ _).1]
      exact recreated.1
    rw [same.firstOutcome] at one
    have there := ((turn_second secondPlain firstPlain).mp one).2 outpoint reached.mem
    have gone := ((apply_utxo_transaction_lookup manager second
      (stocked (first.spends ++ second.spends) fun _ => 0) outpoint).2 fun _ => foreign).1
        (taken_from_all secondNodup secondThere spent)
    exact there gone
  · exact stillThere ((behaviour.2 fun succeeded created => recreated ⟨succeeded, created⟩).1 taken)

/-- A transaction that creates an outpoint another one spends comes out differently where only
that outpoint is missing. -/
theorem uncreated_of_same (firstPlain : first.Plain) (secondPlain : second.Plain)
    (unreached : ∀ outpoint ∈ second.spends, ¬ Reached first.spends outpoint)
    (same : ∀ outpoints, SameEitherWay manager (stocked outpoints fun _ => 0) first second)
    (firstNodup : first.spends.Nodup) (secondNodup : second.spends.Nodup) {outpoint : OutPoint}
    (spent : outpoint ∈ second.spends) : outpoint ∉ first.creates := by
  intro created
  let others := (first.spends ++ second.spends).filter (· ≠ outpoint)
  have unspent : ∀ other ∈ second.spends, other ∉ first.spends := fun other member taken =>
    unreached other member (reached_of_nodup firstNodup taken)
  have firstThere : ∀ other ∈ first.spends, (stocked others fun _ => 0).utxos.lookup other ≠ none := by
    intro other member
    refine stocked_present _ (List.mem_filter.mpr ⟨List.mem_append_left _ member, ?_⟩)
    have different : other ≠ outpoint := fun clash => unspent outpoint spent (clash ▸ member)
    simp [different]
  have through : (manager.applyUtxoTransaction first (stocked others fun _ => 0)).1.isOk = true :=
    (apply_utxo_transaction_ok_iff manager first _).mpr ⟨firstNodup, firstThere⟩
  have secondThere : ∀ other ∈ second.spends,
      (manager.applyUtxoTransaction first (stocked others fun _ => 0)).2.2.utxos.lookup other ≠ none := by
    intro other member
    obtain ⟨there, elsewhere⟩ := apply_utxo_transaction_lookup manager first (stocked others fun _ => 0) other
    by_cases made : other ∈ first.creates
    · exact there through made
    · rw [(elsewhere fun _ => made).2 fun taken => unreached other member taken.reached]
      refine stocked_present _ (List.mem_filter.mpr ⟨List.mem_append_right _ member, ?_⟩)
      have different : other ≠ outpoint := fun clash => made (clash ▸ created)
      simp [different]
  have two := (turn_second firstPlain secondPlain).mpr ⟨secondNodup, secondThere⟩
  rw [(same others).secondOutcome] at two
  have present := ((turn_first manager secondPlain firstPlain).mp two).2 outpoint spent
  rw [stocked_lookup, if_neg (by simp [others])] at present
  exact present rfl

/-- Transactions that come out the same on every set of worthless outputs do not affect each
other. -/
theorem unaffected_of_same (firstPlain : first.Plain) (secondPlain : second.Plain) (distinct : first.id ≠ second.id)
    (same : ∀ outpoints, SameEitherWay manager (stocked outpoints fun _ => 0) first second) :
    Unaffected first second := by
  intro secondNodup outpoint spent
  have unreached : ∀ outpoint ∈ second.spends, ¬ Reached first.spends outpoint := fun outpoint member =>
    unreached_of_same firstPlain secondPlain distinct (same _) secondNodup member
  exact ⟨unreached outpoint spent, fun firstNodup =>
    uncreated_of_same firstPlain secondPlain unreached same firstNodup secondNodup spent⟩

/-- Where nothing is tracked, taking one unit before adding loses it and taking it after does not. -/
theorem unsaturating_of_same (firstPlain : first.Plain) (secondPlain : second.Plain)
    (ahead : Unaffected first second) (behind : Unaffected second first) (firstNodup : first.spends.Nodup)
    (secondNodup : second.spends.Nodup) (counted : first.worth + second.worth ≤ u128Max)
    (untracked : manager.currentTotalSupply = 0)
    (same : ∀ outpoints value, SameEitherWay manager (stocked outpoints value) first second) :
    first.spends = [] ∨ second.worth = 0 := by
  by_contra clash
  rw [not_or] at clash
  obtain ⟨spent, member⟩ := List.exists_mem_of_ne_nil _ clash.1
  let value : OutPoint → UInt64 := fun outpoint => if outpoint = spent then 1 else 0
  obtain ⟨utxo, stock⟩ : ∃ utxo, utxo = stocked (first.spends ++ second.spends) value := ⟨_, rfl⟩
  have firstThere : ∀ other ∈ first.spends, utxo.utxos.lookup other ≠ none := by
    rw [stock]
    exact fun other member => stocked_present _ (List.mem_append_left _ member)
  have secondThere : ∀ other ∈ second.spends, utxo.utxos.lookup other ≠ none := by
    rw [stock]
    exact fun other member => stocked_present _ (List.mem_append_right _ member)
  have agree := same (first.spends ++ second.spends) value
  rw [← stock] at agree
  have one := (turn_first manager firstPlain secondPlain).mpr ⟨firstNodup, firstThere⟩
  have two := (turn_first manager secondPlain firstPlain).mpr ⟨secondNodup, secondThere⟩
  rw [← agree.secondOutcome] at two
  obtain ⟨_, _, _, _, went⟩ := went_through firstPlain secondPlain one two
  obtain ⟨_, _, _, _, otherWent⟩ := went_through secondPlain firstPlain (agree.secondOutcome ▸ two)
    (agree.firstOutcome ▸ one)
  have fits : manager.currentTotalSupply ≤ u128Max := by rw [untracked]; exact Nat.zero_le _
  have supply := (agree.leaves one two).2.1
  rw [went.turn, otherWent.turn] at supply
  dsimp only at supply
  rw [(went.effects ahead fits).2.2, (otherWent.effects behind fits).2.2, untracked] at supply
  have taken : 1 ≤ spentValue utxo first := by
    have unit : FiniteMap.weight TxOutput.amount utxo.utxos spent = 1 := by
      rw [stock, stocked_weight _ (List.mem_append_left _ member)]
      simp [value]
    exact unit ▸ List.le_sum_of_mem (List.mem_map_of_mem member)
  have untaken : spentValue utxo second = 0 := by
    apply List.sum_eq_zero
    intro amount listed
    obtain ⟨other, spends, rfl⟩ := List.mem_map.mp listed
    have different : other ≠ spent := by
      rintro rfl
      exact (ahead secondNodup other spends).1 (reached_of_nodup firstNodup member)
    rw [stock, stocked_weight _ (List.mem_append_right _ spends)]
    simp [value, different]
  omega

end Agreement

section AccessSets
variable [Wasmer] [Storage S] [Inhabited S] {first second : Transaction}

/-- Plain transactions with distinct ids commute on every manager and every set of unspent
outputs exactly when neither affects the other and neither order can saturate the supply;
where the supply covers the outputs and has room, exactly when neither affects the other. -/
theorem plain_transactions_commute_iff (firstPlain : first.Plain) (secondPlain : second.Plain)
    (distinct : first.id ≠ second.id) (counted : first.outputs.length + second.outputs.length < 2 ^ 64) :
    ((∀ (manager : StateManager S) (utxo : UtxoSet), manager.currentTotalSupply ≤ u128Max →
        SameEitherWay manager utxo first second) ↔
      Unaffected first second ∧ Unaffected second first ∧ Unsaturating first second) ∧
    ((∀ (manager : StateManager S) (utxo : UtxoSet), utxo.totalValue ≤ manager.currentTotalSupply →
        manager.currentTotalSupply + (first.worth + second.worth) ≤ u128Max →
        SameEitherWay manager utxo first second) ↔
      Unaffected first second ∧ Unaffected second first) := by
  have room : first.worth + second.worth ≤ u128Max := by
    have firstBound := worth_bound first
    have secondBound := worth_bound second
    have total : (first.outputs.length + second.outputs.length) * (2 ^ 64 - 1) ≤ u128Max := by
      refine (Nat.mul_le_mul_right _ counted.le).trans ?_
      decide
    rw [Nat.add_mul] at total
    omega
  obtain ⟨manager, untracked⟩ : ∃ manager : StateManager S, manager.currentTotalSupply = 0 :=
    ⟨started (VerkleTree.fresh default), rfl⟩
  constructor
  · constructor
    · intro same
      have always : ∀ outpoints value, SameEitherWay manager (stocked outpoints value) first second :=
        fun outpoints value => same manager _ (untracked ▸ Nat.zero_le _)
      have ahead := unaffected_of_same firstPlain secondPlain distinct fun outpoints => always outpoints _
      have behind := unaffected_of_same secondPlain firstPlain distinct.symm fun outpoints => (always outpoints _).symm
      refine ⟨ahead, behind, fun firstNodup secondNodup => ⟨?_, ?_⟩⟩
      · exact unsaturating_of_same firstPlain secondPlain ahead behind firstNodup secondNodup room untracked always
      · exact unsaturating_of_same secondPlain firstPlain behind ahead secondNodup firstNodup
          (Nat.add_comm _ _ ▸ room) untracked fun outpoints value => (always outpoints value).symm
    · rintro ⟨ahead, behind, safe⟩ manager utxo fits
      exact same_either_way firstPlain secondPlain distinct ahead behind fits fun firstNodup secondNodup _ _ =>
        unsaturating_supply safe firstNodup secondNodup fits
  · constructor
    · intro same
      have always : ∀ outpoints, SameEitherWay manager (stocked outpoints fun _ => 0) first second := by
        intro outpoints
        refine same manager _ ?_ (by rw [untracked, Nat.zero_add]; exact room)
        rw [stocked_worthless]
        exact Nat.zero_le _
      exact ⟨unaffected_of_same firstPlain secondPlain distinct always,
        unaffected_of_same secondPlain firstPlain distinct.symm fun outpoints => (always outpoints).symm⟩
    · rintro ⟨ahead, behind⟩ manager utxo covers enough
      have fits : manager.currentTotalSupply ≤ u128Max := (Nat.le_add_right _ _).trans enough
      exact same_either_way firstPlain secondPlain distinct ahead behind fits fun firstNodup secondNodup _ _ =>
        roomy_supply ahead firstNodup secondNodup covers enough

/-- The access sets of two plain transactions are sound, when they do not conflict, exactly for
transactions that commute anyway. The keys they name are under the transaction's own id, so a
spent outpoint is not among them. -/
theorem access_sets_sound_iff (firstPlain : first.Plain) (secondPlain : second.Plain)
    (distinct : first.id ≠ second.id) (counted : first.outputs.length + second.outputs.length < 2 ^ 64) :
    ((first.generateAccessSet.hasConflict second.generateAccessSet = false →
        ∀ (manager : StateManager S) (utxo : UtxoSet), manager.currentTotalSupply ≤ u128Max →
          SameEitherWay manager utxo first second) ↔
      first.generateAccessSet.hasConflict second.generateAccessSet = true ∨
        Unaffected first second ∧ Unaffected second first ∧ Unsaturating first second) ∧
    ((first.generateAccessSet.hasConflict second.generateAccessSet = false →
        ∀ (manager : StateManager S) (utxo : UtxoSet), utxo.totalValue ≤ manager.currentTotalSupply →
          manager.currentTotalSupply + (first.worth + second.worth) ≤ u128Max →
          SameEitherWay manager utxo first second) ↔
      first.generateAccessSet.hasConflict second.generateAccessSet = true ∨
        Unaffected first second ∧ Unaffected second first) := by
  obtain ⟨anyManager, covering⟩ :=
    plain_transactions_commute_iff (S := S) firstPlain secondPlain distinct counted
  rw [anyManager, covering]
  cases first.generateAccessSet.hasConflict second.generateAccessSet with
  | true => simp
  | false => simp

end AccessSets

end Turns

section Spends
open Klomang.Sample

/-- Two coinbases commute. -/
theorem rewards_commute : SameEitherWay manager .new (reward 5) (reward 6) := by
  have distinct : (reward 5).id ≠ (reward 6).id := by decide +kernel
  have apart : Unaffected (reward 5) (reward 6) := fun _ _ member => absurd member List.not_mem_nil
  have behind : Unaffected (reward 6) (reward 5) := fun _ _ member => absurd member List.not_mem_nil
  have free : (reward 5).generateAccessSet.hasConflict (reward 6).generateAccessSet = false := by decide +kernel
  exact (access_sets_sound_iff (S := MemoryStorage) (by decide) (by decide) distinct (by decide)).1.mpr
    (.inr ⟨apart, behind, fun _ _ => ⟨.inl rfl, .inl rfl⟩⟩) free manager .new (Nat.zero_le _)

/-- Two transactions that spend the same output have access sets without conflict, and only the
one that comes first goes through. -/
theorem double_spend_unseen :
    (spend (.replicate 3, 0) 5).Plain ∧ (spend (.replicate 3, 0) 6).Plain ∧
      (spend (.replicate 3, 0) 5).id ≠ (spend (.replicate 3, 0) 6).id ∧
      (spend (.replicate 3, 0) 5).generateAccessSet.hasConflict (spend (.replicate 3, 0) 6).generateAccessSet = false ∧
      ¬ SameEitherWay manager (stocked [(.replicate 3, 0)] fun _ => 5) (spend (.replicate 3, 0) 5)
        (spend (.replicate 3, 0) 6) := by
  have firstPlain : (spend (.replicate 3, 0) 5).Plain := by decide
  have secondPlain : (spend (.replicate 3, 0) 6).Plain := by decide
  refine ⟨firstPlain, secondPlain, by decide +kernel, by decide +kernel, fun same => ?_⟩
  have there : ∀ other ∈ [(.replicate 3, 0)], (stocked [(.replicate 3, 0)] fun _ => 5).utxos.lookup other ≠ none :=
    fun other member => stocked_present _ member
  have one := (turn_first manager firstPlain secondPlain).mpr ⟨List.nodup_singleton _, there⟩
  rw [same.firstOutcome] at one
  have still := ((turn_second secondPlain firstPlain).mp one).2 (.replicate 3, 0) List.mem_cons_self
  have own : (spend (.replicate 3, 0) 6).id ≠ .replicate 3 := by decide +kernel
  have foreign : (.replicate 3, 0) ∉ (spend (.replicate 3, 0) 6).creates := fun created =>
    own (Transaction.creates_own created).symm
  exact still (((apply_utxo_transaction_lookup manager (spend (.replicate 3, 0) 6) _ (.replicate 3, 0)).2
    fun _ => foreign).1 (taken_from_all (List.nodup_singleton _) there List.mem_cons_self))

end Spends
end StateManager
end Klomang
