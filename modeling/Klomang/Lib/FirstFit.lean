import Klomang.Lib.Greedy
import Mathlib.Data.Finset.Basic
import Mathlib.Data.List.Nodup
import Mathlib.Data.List.Pairwise
import Mathlib.Data.Fintype.EquivFin

/-! Greedy rounds as first fit. The round that takes a member is the first one with nobody in conflict with it
among the members before it. The rounds keep the order of the queue wherever there is a conflict exactly when
every member takes its depth, the length of the longest chain of conflicts that leads to it. -/
namespace Klomang.Greedy
variable {α : Type} (conflict : α → α → Bool)

section Numbers

theorem exists_unused (used : List Nat) : ∃ number, number ∉ used := by
  obtain ⟨number, unused⟩ := Infinite.exists_notMem_finset used.toFinset
  exact ⟨number, by simpa using unused⟩

/-- The least number that is not in a list. -/
def firstUnused (used : List Nat) : Nat := Nat.find (exists_unused used)

/-- The least number above all numbers of a list. -/
def height (numbers : List Nat) : Nat := numbers.foldr (fun number above => max (number + 1) above) 0

/-- The numbers of a list leave none out on the way up. -/
def Gapless (numbers : List Nat) : Prop := ∀ number < height numbers, number ∈ numbers

instance (numbers : List Nat) : Decidable (Gapless numbers) := by unfold Gapless; infer_instance

variable {numbers : List Nat} {number : Nat}

theorem first_unused_notMem (used : List Nat) : firstUnused used ∉ used := Nat.find_spec (exists_unused used)

theorem mem_of_lt_first_unused (below : number < firstUnused numbers) : number ∈ numbers :=
  not_not.mp (Nat.find_min (exists_unused numbers) below)

theorem first_unused_le (unused : number ∉ numbers) : firstUnused numbers ≤ number := Nat.find_min' _ unused

theorem lt_height (member : number ∈ numbers) : number < height numbers := by
  induction numbers with
  | nil => cases member
  | cons first rest ih =>
    have unfolded : height (first :: rest) = max (first + 1) (height rest) := rfl
    rcases List.mem_cons.mp member with rfl | further
    · omega
    · have below := ih further
      omega

theorem height_le {bound : Nat} (below : ∀ number ∈ numbers, number < bound) : height numbers ≤ bound := by
  induction numbers with
  | nil => exact Nat.zero_le _
  | cons first rest ih =>
    have unfolded : height (first :: rest) = max (first + 1) (height rest) := rfl
    have here := below first List.mem_cons_self
    have further := ih fun number member => below number (List.mem_cons_of_mem _ member)
    omega

theorem gapless_iff : Gapless numbers ↔ ∀ number ∈ numbers, number < firstUnused numbers := by
  constructor
  · intro gapless number member
    by_contra above
    have below := lt_height member
    exact first_unused_notMem numbers (gapless _ (by omega))
  · intro below number small
    exact mem_of_lt_first_unused (small.trans_le (height_le below))

theorem Gapless.first_unused (gapless : Gapless numbers) : firstUnused numbers = height numbers := by
  apply le_antisymm
  · exact first_unused_le fun member => (lt_height member).false
  · exact height_le (gapless_iff.mp gapless)

/-- Without the zeros everything moves down by one. -/
theorem first_unused_pred (zero : 0 ∈ numbers) :
    firstUnused ((numbers.filter (· ≠ 0)).map Nat.pred) + 1 = firstUnused numbers := by
  have mem : ∀ number, number ∈ (numbers.filter (· ≠ 0)).map Nat.pred ↔ number + 1 ∈ numbers := by
    intro number
    simp only [List.mem_map, List.mem_filter, decide_eq_true_eq]
    constructor
    · rintro ⟨other, ⟨member, positive⟩, rfl⟩
      rwa [Nat.pred_eq_sub_one, Nat.sub_add_cancel (Nat.pos_of_ne_zero positive)]
    · intro member
      exact ⟨number + 1, ⟨member, by simp⟩, rfl⟩
  apply le_antisymm
  · have positive : firstUnused numbers ≠ 0 := fun none => first_unused_notMem numbers (none ▸ zero)
    have unused : firstUnused numbers - 1 ∉ (numbers.filter (· ≠ 0)).map Nat.pred := by
      rw [mem, Nat.sub_add_cancel (Nat.pos_of_ne_zero positive)]
      exact first_unused_notMem numbers
    have below := first_unused_le unused
    omega
  · apply first_unused_le
    rw [← mem]
    exact first_unused_notMem _

end Numbers

section Valuing

/-- What the members before a member that conflict with it are worth, when the worth of a member is computed from
such a list. The nearest member comes first. -/
def worths (value : List Nat → Nat) : List α → α → List Nat
  | [], _ => []
  | earlier :: before, next =>
    if conflict earlier next then value (worths value before earlier) :: worths value before next
    else worths value before next

/-- The round that first fits a member. -/
def fit (before : List α) (next : α) : Nat := firstUnused (worths conflict firstUnused before next)

/-- The length of the longest chain of conflicts that leads to a member. -/
def depth (before : List α) (next : α) : Nat := height (worths conflict height before next)

variable {conflict} {value : List Nat → Nat} {number : Nat}

theorem mem_worths {before : List α} {next : α} :
    number ∈ worths conflict value before next ↔
      ∃ nearer earlier further, before = nearer ++ earlier :: further ∧ conflict earlier next = true ∧
        value (worths conflict value further earlier) = number := by
  induction before with
  | nil => simp [worths]
  | cons first rest ih =>
    have here : number ∈ worths conflict value (first :: rest) next ↔
        (conflict first next = true ∧ value (worths conflict value rest first) = number) ∨
          number ∈ worths conflict value rest next := by
      rw [worths]
      split
      · rename_i clash
        simp [clash, eq_comm]
      · rename_i free
        simp [free]
    rw [here, ih]
    constructor
    · rintro (⟨clash, worth⟩ | ⟨nearer, earlier, further, rfl, clash, worth⟩)
      · exact ⟨[], first, rest, rfl, clash, worth⟩
      · exact ⟨first :: nearer, earlier, further, rfl, clash, worth⟩
    · rintro ⟨nearer, earlier, further, split, clash, worth⟩
      cases nearer with
      | nil =>
        cases split
        exact .inl ⟨clash, worth⟩
      | cons _ nearer =>
        cases split
        exact .inr ⟨nearer, earlier, further, rfl, clash, worth⟩

theorem fit_eq_zero_iff {before : List α} {next : α} :
    fit conflict before next = 0 ↔ 0 ∉ worths conflict firstUnused before next := by
  constructor
  · intro none member
    exact first_unused_notMem _ (none ▸ member)
  · exact fun unused => Nat.le_zero.mp (first_unused_le unused)

/-- Who is left after the first round, the nearest first. -/
noncomputable def leftOver (conflict : α → α → Bool) : List α → List α
  | [] => []
  | earlier :: before =>
    if fit conflict before earlier = 0 then leftOver conflict before else earlier :: leftOver conflict before

theorem worths_left_over (before : List α) (next : α) :
    worths conflict firstUnused (leftOver conflict before) next =
      ((worths conflict firstUnused before next).filter (· ≠ 0)).map Nat.pred := by
  induction before generalizing next with
  | nil => rfl
  | cons earlier before ih =>
    by_cases first : fit conflict before earlier = 0
    · have worth : firstUnused (worths conflict firstUnused before earlier) = 0 := first
      simp only [leftOver, worths, first, worth, if_true]
      rw [ih]
      split <;> simp
    · have zero : 0 ∈ worths conflict firstUnused before earlier := not_not.mp (mt fit_eq_zero_iff.mpr first)
      have worth := first_unused_pred zero
      rw [← ih] at worth
      simp only [leftOver, worths, first, if_false, ih next]
      split
      · simp [← worth]
      · rfl

/-- Who is left fits one round earlier than before. -/
theorem fit_left_over {before : List α} {next : α} (left : fit conflict before next ≠ 0) :
    fit conflict (leftOver conflict before) next + 1 = fit conflict before next := by
  rw [fit, worths_left_over, first_unused_pred (not_not.mp (mt fit_eq_zero_iff.mpr left))]
  rfl

end Valuing

section Rounds

/-- The first round takes those whose first fit it is, and leaves the others in their order. -/
theorem select_fit (seen group : List α)
    (taken : ∀ next, (group.any fun existing => conflict existing next) =
      decide (0 ∈ worths conflict firstUnused seen next)) (before : List α) (next : α) (after : List α) :
    (fit conflict (before.reverse ++ seen) next = 0 → next ∈ (select conflict group (before ++ next :: after)).1) ∧
      (fit conflict (before.reverse ++ seen) next ≠ 0 → ∃ further later,
        (select conflict group (before ++ next :: after)).2 = further ++ next :: later ∧
          further.reverse ++ leftOver conflict seen = leftOver conflict (before.reverse ++ seen)) := by
  induction before generalizing seen group with
  | nil =>
    rw [List.reverse_nil, List.nil_append, List.nil_append, Ne, fit_eq_zero_iff, select, taken]
    constructor
    · intro unused
      rw [if_neg (by simpa using unused)]
      exact (select_grows conflict _ _).subset (by simp)
    · intro used
      rw [if_pos (by simpa using used)]
      exact ⟨[], _, rfl, rfl⟩
  | cons earlier before ih =>
    have seenLater : (earlier :: before).reverse ++ seen = before.reverse ++ (earlier :: seen) := by simp
    rw [seenLater, List.cons_append, select, taken]
    by_cases first : fit conflict seen earlier = 0
    · have unused := fit_eq_zero_iff.mp first
      have worth : firstUnused (worths conflict firstUnused seen earlier) = 0 := first
      rw [if_neg (by simpa using unused)]
      have step := ih (earlier :: seen) (group ++ [earlier]) fun other => by
        rw [List.any_append, taken, worths, worth]
        split <;> simp_all
      have skipped : leftOver conflict (earlier :: seen) = leftOver conflict seen := by simp [leftOver, first]
      rwa [skipped] at step
    · have used := not_not.mp (mt fit_eq_zero_iff.mpr first)
      have worth : firstUnused (worths conflict firstUnused seen earlier) ≠ 0 := first
      rw [if_pos (by simpa using used)]
      obtain ⟨here, left⟩ := ih (earlier :: seen) group fun other => by
        rw [taken, worths]
        split <;> simp [worth.symm]
      have kept : leftOver conflict (earlier :: seen) = earlier :: leftOver conflict seen := by simp [leftOver, first]
      refine ⟨here, fun later => ?_⟩
      obtain ⟨further, rest, split, order⟩ := left later
      refine ⟨earlier :: further, rest, by simp [split], ?_⟩
      rw [← order, kept]
      simp

/-- Every member is in the round that first fits it. -/
theorem rounds_fit (queue before : List α) (next : α) (after : List α) (split : queue = before ++ next :: after) :
    ∃ group, (rounds conflict queue)[fit conflict before.reverse next]? = some group ∧ next ∈ group := by
  induction queue using rounds.induct conflict generalizing before after with
  | case1 => simp at split
  | case2 first rest selected ih =>
    have round := select_fit conflict [] [] (by simp [worths]) before next after
    rw [← split, List.append_nil] at round
    rw [rounds]
    by_cases here : fit conflict before.reverse next = 0
    · rw [here]
      exact ⟨_, rfl, round.1 here⟩
    · obtain ⟨further, later, left, order⟩ := round.2 here
      rw [leftOver, List.append_nil] at order
      obtain ⟨group, found, member⟩ := ih further later left
      rw [order] at found
      refine ⟨group, ?_, member⟩
      rw [← fit_left_over here, List.getElem?_cons_succ]
      exact found

end Rounds

section Order
variable {conflict}

/-- Where no number is left out, first fit gives every member its depth. -/
theorem worths_agree (before : List α) (next : α)
    (gapless : ∀ nearer earlier further, before = nearer ++ earlier :: further →
      Gapless (worths conflict firstUnused further earlier) ∨ Gapless (worths conflict height further earlier)) :
    worths conflict firstUnused before next = worths conflict height before next := by
  induction before generalizing next with
  | nil => rfl
  | cons earlier before ih =>
    have agreed : ∀ next, worths conflict firstUnused before next = worths conflict height before next :=
      fun next => ih next fun nearer other further split => gapless (earlier :: nearer) other further (by simp [split])
    have worth : firstUnused (worths conflict firstUnused before earlier) =
        height (worths conflict height before earlier) := by
      rcases gapless [] earlier before rfl with here | here
      · rw [here.first_unused, agreed]
      · rw [agreed, here.first_unused]
    rw [worths, worths, worth, agreed]

/-- Nobody is in two groups. -/
theorem round_unique {queue : List α} (distinct : queue.Nodup) {i j : Nat} {group other : List α} {member : α}
    (found : (rounds conflict queue)[i]? = some group) (here : member ∈ group)
    (also : (rounds conflict queue)[j]? = some other) (there : member ∈ other) : i = j := by
  have dealt : (rounds conflict queue).flatten.Nodup := (rounds_perm queue).nodup_iff.mpr distinct
  obtain ⟨_, disjoint⟩ := List.nodup_flatten.mp dealt
  rw [List.pairwise_iff_getElem] at disjoint
  obtain ⟨iShort, rfl⟩ := List.getElem?_eq_some_iff.mp found
  obtain ⟨jShort, rfl⟩ := List.getElem?_eq_some_iff.mp also
  rcases Nat.lt_trichotomy i j with less | same | more
  · exact absurd there (disjoint i j iShort jShort less here)
  · exact same
  · exact absurd here (disjoint j i jShort iShort more there)

theorem pair_sublist_iff {left right : α} {queue : List α} :
    [left, right].Sublist queue ↔ ∃ before between after, queue = before ++ left :: (between ++ right :: after) := by
  rw [List.cons_sublist_iff]
  constructor
  · rintro ⟨front, back, rfl, leftMember, rightMember⟩
    obtain ⟨before, between, rfl⟩ := List.append_of_mem leftMember
    obtain ⟨beyond, after, rfl⟩ := List.append_of_mem (List.singleton_sublist.mp rightMember)
    exact ⟨before, between ++ beyond, after, by simp⟩
  · rintro ⟨before, between, after, rfl⟩
    exact ⟨before ++ [left], between ++ right :: after, by simp, by simp, by simp⟩

/-- The rounds keep every conflicting pair in the order of the queue exactly when every member that has a depth
is in conflict with members of each smaller depth before it. -/
theorem rounds_ordered_iff (conflict : α → α → Bool) {queue : List α} (distinct : queue.Nodup) :
    (∀ (i j : Nat) leftGroup rightGroup left right, (rounds conflict queue)[i]? = some leftGroup → left ∈ leftGroup →
        (rounds conflict queue)[j]? = some rightGroup → right ∈ rightGroup → [left, right].Sublist queue →
          conflict left right = true → i < j) ↔
      ∀ before next after, queue = before ++ next :: after → Gapless (worths conflict height before.reverse next) := by
  have fits : (∀ (i j : Nat) leftGroup rightGroup left right, (rounds conflict queue)[i]? = some leftGroup →
      left ∈ leftGroup → (rounds conflict queue)[j]? = some rightGroup → right ∈ rightGroup →
        [left, right].Sublist queue → conflict left right = true → i < j) ↔
      ∀ before next after, queue = before ++ next :: after →
        Gapless (worths conflict firstUnused before.reverse next) := by
    constructor
    · intro ordered before next after split
      rw [gapless_iff]
      intro number member
      obtain ⟨nearer, earlier, further, whole, clash, worth⟩ := mem_worths.mp member
      have front : before = further.reverse ++ earlier :: nearer.reverse := by
        rw [← List.reverse_reverse before, whole]
        simp
      have placed : queue = further.reverse ++ earlier :: (nearer.reverse ++ next :: after) := by simp [split, front]
      obtain ⟨leftGroup, leftFound, leftMember⟩ := rounds_fit conflict queue _ earlier _ placed
      obtain ⟨rightGroup, rightFound, rightMember⟩ := rounds_fit conflict queue before next after split
      rw [List.reverse_reverse, fit, worth] at leftFound
      exact ordered _ _ _ _ earlier next leftFound leftMember rightFound rightMember
        (pair_sublist_iff.mpr ⟨_, _, _, placed⟩) clash
    · intro gapless i j leftGroup rightGroup left right leftFound leftMember rightFound rightMember pair clash
      obtain ⟨before, between, after, placed⟩ := pair_sublist_iff.mp pair
      have split : queue = (before ++ left :: between) ++ right :: after := by simp [placed]
      obtain ⟨_, leftFits, leftThere⟩ := rounds_fit conflict queue before left _ placed
      obtain ⟨_, rightFits, rightThere⟩ := rounds_fit conflict queue _ right after split
      rw [round_unique distinct leftFound leftMember leftFits leftThere,
        round_unique distinct rightFound rightMember rightFits rightThere]
      apply gapless_iff.mp (gapless _ _ _ split)
      rw [mem_worths]
      exact ⟨between.reverse, left, before.reverse, by simp, clash, rfl⟩
  rw [fits]
  have parted : ∀ {before : List α} {next : α} {after : List α}, queue = before ++ next :: after →
      ∀ nearer earlier further, before.reverse = nearer ++ earlier :: further →
        queue = further.reverse ++ earlier :: (nearer.reverse ++ next :: after) := by
    intro before next after split nearer earlier further whole
    rw [split, ← List.reverse_reverse before, whole]
    simp
  constructor
  · intro gapless before next after split
    rw [← worths_agree]
    · exact gapless before next after split
    · intro nearer earlier further whole
      have here := gapless _ _ _ (parted split nearer earlier further whole)
      rw [List.reverse_reverse] at here
      exact .inl here
  · intro gapless before next after split
    rw [worths_agree]
    · exact gapless before next after split
    · intro nearer earlier further whole
      have here := gapless _ _ _ (parted split nearer earlier further whole)
      rw [List.reverse_reverse] at here
      exact .inr here

end Order

section Width
variable {conflict} {queue : List α}

/-- A member of a round conflicts with somebody before it in every earlier round. -/
theorem rounds_packed (distinct : queue.Nodup) {i j : Nat} {group other : List α} {next : α}
    (found : (rounds conflict queue)[j]? = some group) (here : next ∈ group)
    (earlierFound : (rounds conflict queue)[i]? = some other) (below : i < j) :
    ∃ earlier ∈ other, [earlier, next].Sublist queue ∧ conflict earlier next = true := by
  have placed := (rounds_perm queue).subset (List.mem_flatten.mpr ⟨group, List.mem_of_getElem? found, here⟩)
  obtain ⟨before, after, split⟩ := List.append_of_mem placed
  obtain ⟨_, fitFound, fitHere⟩ := rounds_fit conflict queue before next after split
  rw [round_unique distinct found here fitFound fitHere] at below
  obtain ⟨nearer, earlier, further, whole, clash, worth⟩ := mem_worths.mp (mem_of_lt_first_unused below)
  have front : before = further.reverse ++ earlier :: nearer.reverse := by
    rw [← List.reverse_reverse before, whole]
    simp
  have apart : queue = further.reverse ++ earlier :: (nearer.reverse ++ next :: after) := by simp [split, front]
  obtain ⟨round, roundFound, there⟩ := rounds_fit conflict queue _ earlier _ apart
  rw [List.reverse_reverse, fit, worth, earlierFound] at roundFound
  cases roundFound
  exact ⟨earlier, there, pair_sublist_iff.mpr ⟨_, _, _, apart⟩, clash⟩

theorem first_unused_le_length (used : List Nat) : firstUnused used ≤ used.length := by
  by_contra above
  have taken : Finset.range (used.length + 1) ⊆ used.toFinset := by
    intro number small
    have below : number < firstUnused used := by
      have short := Finset.mem_range.mp small
      omega
    exact List.mem_toFinset.mpr (mem_of_lt_first_unused below)
  have counted := Finset.card_le_card taken
  have listed := used.toFinset_card_le
  rw [Finset.card_range] at counted
  omega

theorem length_worths (value : List Nat → Nat) (before : List α) (next : α) :
    (worths conflict value before next).length = before.countP fun earlier => conflict earlier next := by
  induction before with
  | nil => rfl
  | cons earlier before ih =>
    rw [worths, List.countP_cons]
    split
    · rw [List.length_cons, ih]
    · rw [ih, Nat.add_zero]

/-- There are no more rounds than one for every conflict of a member with those before it, and one more. -/
theorem length_rounds_le (distinct : queue.Nodup) {degree : Nat}
    (few : ∀ before next after, queue = before ++ next :: after →
      (before.countP fun earlier => conflict earlier next) ≤ degree) :
    (rounds conflict queue).length ≤ degree + 1 := by
  by_contra many
  have long : degree + 1 < (rounds conflict queue).length := by omega
  have found := List.getElem?_eq_getElem long
  obtain ⟨next, here⟩ := List.exists_mem_of_ne_nil _ (rounds_nonempty queue _ (List.mem_of_getElem? found))
  have placed := (rounds_perm queue).subset (List.mem_flatten.mpr ⟨_, List.mem_of_getElem? found, here⟩)
  obtain ⟨before, after, split⟩ := List.append_of_mem placed
  obtain ⟨_, fitFound, fitHere⟩ := rounds_fit conflict queue before next after split
  have position := round_unique distinct found here fitFound fitHere
  have counted := first_unused_le_length (worths conflict firstUnused before.reverse next)
  rw [length_worths, List.countP_reverse, ← fit, ← position] at counted
  have bounded := few before next after split
  omega

/-- Members that all conflict with each other take as many rounds. -/
theorem length_le_rounds (symmetric : ∀ left right, conflict left right = conflict right left) {clique : List α}
    (distinct : clique.Nodup) (among : clique ⊆ queue)
    (clashing : clique.Pairwise fun left right => conflict left right = true) :
    clique.length ≤ (rounds conflict queue).length := by
  have dealt (i : Fin clique.length) : ∃ j : Fin (rounds conflict queue).length, clique[i] ∈ (rounds conflict queue)[j] := by
    obtain ⟨group, listed, member⟩ := List.mem_flatten.mp ((rounds_perm queue).symm.subset (among (List.getElem_mem i.2)))
    obtain ⟨j, inside, rfl⟩ := List.getElem_of_mem listed
    exact ⟨⟨j, inside⟩, member⟩
  choose round placed using dealt
  have agreed (answer : Bool) : Std.Symm fun left right => conflict left right = answer :=
    ⟨fun left right same => symmetric right left ▸ same⟩
  have injective : Function.Injective round := by
    intro i j same
    by_contra different
    have other := placed j
    rw [← same] at other
    have apart : clique[i] ≠ clique[j] := fun equal => different (Fin.ext (distinct.getElem_inj_iff.mp equal))
    have clash := clashing.forall (List.getElem_mem i.2) (List.getElem_mem j.2) apart
    have free := (rounds_independent queue _ (List.getElem_mem (round i).2)).forall (placed i) other apart
    exact Bool.false_ne_true (free.symm.trans clash)
  simpa using Fintype.card_le_of_injective round injective

end Width
end Klomang.Greedy
