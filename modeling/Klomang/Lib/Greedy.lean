import Mathlib.Data.List.Basic
import Mathlib.Data.List.Perm.Basic

/-! Greedy grouping under a conflict relation. A round walks the queue and takes every
candidate that conflicts with nothing taken so far; rounds go on until the queue is
empty. -/
namespace Klomang.Greedy
variable {α : Type} (conflict : α → α → Bool)

/-- One round: the group after the queue has been walked, and who is left in the queue. -/
def select : List α → List α → List α × List α
  | group, [] => (group, [])
  | group, candidate :: rest =>
    if group.any fun existing => conflict existing candidate then
      let (chosen, left) := select group rest
      (chosen, candidate :: left)
    else select (group ++ [candidate]) rest

theorem select_length (group queue : List α) :
    (select conflict group queue).1.length + (select conflict group queue).2.length =
      group.length + queue.length := by
  induction queue generalizing group with
  | nil => rfl
  | cons candidate rest ih =>
    rw [select]
    split
    · have counted := ih group
      simp only [List.length_cons]
      omega
    · rw [ih, List.length_append, List.length_singleton, List.length_cons]
      omega

/-- What has been taken stays. -/
theorem select_grows (group queue : List α) : group <+: (select conflict group queue).1 := by
  induction queue generalizing group with
  | nil => exact List.prefix_refl group
  | cons candidate rest ih =>
    rw [select]
    split
    · exact ih group
    · exact (List.prefix_append group [candidate]).trans (ih _)

/-- Nothing conflicts with the first candidate of a round, so no round ends with an empty group. -/
theorem select_first (first : α) (rest : List α) :
    select conflict [] (first :: rest) = select conflict [first] rest := by
  rw [select, List.any_nil, if_neg Bool.false_ne_true]
  rfl

/-- The rounds, until nothing is left. -/
def rounds : List α → List (List α)
  | [] => []
  | first :: rest =>
    let selected := select conflict [] (first :: rest)
    selected.1 :: rounds selected.2
  termination_by queue => queue.length
  decreasing_by
    have counted := select_length conflict [first] rest
    have kept := (select_grows conflict [first] rest).length_le
    rw [select_first]
    simp only [List.length_cons, List.length_nil] at *
    omega

variable {conflict}

theorem rounds_nil : rounds conflict [] = [] := by rw [rounds]

theorem rounds_cons (first : α) (rest : List α) :
    rounds conflict (first :: rest) =
      (select conflict [first] rest).1 :: rounds conflict (select conflict [first] rest).2 := by
  rw [rounds, select_first]

/-- A group without conflicts stays one. -/
theorem select_independent {group : List α} (queue : List α)
    (independent : group.Pairwise fun left right => conflict left right = false) :
    (select conflict group queue).1.Pairwise fun left right => conflict left right = false := by
  induction queue generalizing group with
  | nil => exact independent
  | cons candidate rest ih =>
    rw [select]
    split
    · exact ih independent
    · rename_i free
      refine ih (List.pairwise_append.mpr ⟨independent, List.pairwise_singleton _ _, ?_⟩)
      intro existing member other single
      cases List.mem_singleton.mp single
      by_contra clash
      exact free (List.any_eq_true.mpr ⟨existing, member, by simpa using clash⟩)

/-- Whoever is left conflicts with somebody taken. -/
theorem select_left_conflicts (conflict : α → α → Bool) (group queue : List α) :
    ∀ candidate ∈ (select conflict group queue).2,
      ∃ existing ∈ (select conflict group queue).1, conflict existing candidate = true := by
  induction queue generalizing group with
  | nil => exact fun _ member => nomatch member
  | cons first rest ih =>
    rw [select]
    split
    · rename_i clash
      intro candidate member
      rcases List.mem_cons.mp member with rfl | further
      · obtain ⟨existing, taken, conflicts⟩ := List.any_eq_true.mp clash
        exact ⟨existing, (select_grows conflict group rest).subset taken, conflicts⟩
      · exact ih group candidate further
    · exact ih _

/-- A queue without conflicts is taken whole. -/
theorem select_all (group queue : List α)
    (independent : (group ++ queue).Pairwise fun left right => conflict left right = false) :
    select conflict group queue = (group ++ queue, []) := by
  induction queue generalizing group with
  | nil => rw [select, List.append_nil]
  | cons candidate rest ih =>
    have free : (group.any fun existing => conflict existing candidate) = false := by
      refine List.any_eq_false.mpr fun existing member => ?_
      have apart := (List.pairwise_append.mp independent).2.2 existing member candidate List.mem_cons_self
      simpa using apart
    rw [select, if_neg (by simp [free]), ih _ (by simpa using independent)]
    simp

/-- When nobody is left the group is the whole queue, in its order. -/
theorem select_whole (group queue : List α) (empty : (select conflict group queue).2 = []) :
    (select conflict group queue).1 = group ++ queue := by
  induction queue generalizing group with
  | nil => rw [select, List.append_nil]
  | cons candidate rest ih =>
    rw [select] at empty ⊢
    split at empty <;> rename_i clash
    · cases empty
    · rw [if_neg clash, ih _ empty, List.append_assoc]
      rfl

/-- A round loses nobody. -/
theorem select_perm (group queue : List α) :
    ((select conflict group queue).1 ++ (select conflict group queue).2).Perm (group ++ queue) := by
  induction queue generalizing group with
  | nil => exact List.Perm.refl _
  | cons candidate rest ih =>
    rw [select]
    split
    · exact List.perm_middle.trans (((ih group).cons candidate).trans List.perm_middle.symm)
    · simpa using ih (group ++ [candidate])

/-- The rounds deal out the whole queue. -/
theorem rounds_perm (queue : List α) : (rounds conflict queue).flatten.Perm queue := by
  induction queue using rounds.induct conflict with
  | case1 => rw [rounds_nil]; exact List.Perm.refl _
  | case2 first rest selected ih =>
    rw [rounds, List.flatten_cons]
    exact (ih.append_left _).trans (by simpa using select_perm [] (first :: rest))

/-- Without conflicts there is one round for everybody. -/
theorem rounds_all {first : α} {rest : List α}
    (independent : (first :: rest).Pairwise fun left right => conflict left right = false) :
    rounds conflict (first :: rest) = [first :: rest] := by
  rw [rounds_cons, select_all [first] rest independent, rounds_nil]
  rfl

/-- With a conflict there are at least two groups, and the first two conflict with each other. -/
theorem rounds_conflict {queue : List α}
    (clash : ¬ queue.Pairwise fun left right => conflict left right = false) :
    ∃ group next others, rounds conflict queue = group :: next :: others ∧
      ∃ left ∈ group, ∃ right ∈ next, conflict left right = true := by
  cases queue with
  | nil => exact absurd List.Pairwise.nil clash
  | cons first rest =>
    rw [rounds_cons]
    rcases selected : select conflict [first] rest with ⟨group, left⟩
    have conflicts := select_left_conflicts conflict [first] rest
    rw [selected] at conflicts
    cases left with
    | nil =>
      have whole := select_whole [first] rest (congrArg Prod.snd selected)
      have independent : (select conflict [first] rest).1.Pairwise fun left right => conflict left right = false :=
        select_independent rest (List.pairwise_singleton _ first)
      rw [whole] at independent
      exact absurd independent clash
    | cons candidate others =>
      obtain ⟨existing, taken, here⟩ := conflicts candidate List.mem_cons_self
      refine ⟨group, _, _, by rw [rounds_cons], existing, taken, candidate, ?_, here⟩
      exact (select_grows conflict [candidate] others).subset List.mem_cons_self

/-- What holds of every first selection from a queue holds of every group. -/
theorem rounds_forall {property : List α → Prop}
    (selected : ∀ first rest, property (select conflict [] (first :: rest)).1) (queue : List α) :
    ∀ group ∈ rounds conflict queue, property group := by
  induction queue using rounds.induct conflict with
  | case1 => simp [rounds_nil]
  | case2 first rest further ih =>
    intro group member
    rw [rounds, List.mem_cons] at member
    rcases member with rfl | member
    · exact selected first rest
    · exact ih group member

/-- Nobody conflicts with anybody in its group. -/
theorem rounds_independent (queue : List α) :
    ∀ group ∈ rounds conflict queue, group.Pairwise fun left right => conflict left right = false :=
  rounds_forall (fun first rest => select_independent (first :: rest) List.Pairwise.nil) queue

theorem select_nonempty (conflict : α → α → Bool) (first : α) (rest : List α) : (select conflict [] (first :: rest)).1 ≠ [] := by
  have taken := select_grows conflict [first] rest
  rw [select_first]
  intro empty
  simp [empty] at taken

theorem rounds_nonempty (queue : List α) : ∀ group ∈ rounds conflict queue, group ≠ [] :=
  rounds_forall (select_nonempty conflict) queue

section Scanning
variable (conflict)

/-- One walk over a queue in which nothing moves: what is taken, and the positions it is taken from. -/
def scan (group : List α) (toRemove : List Nat) : Nat → List α → List α × List Nat
  | _, [] => (group, toRemove)
  | i, candidate :: rest =>
    if group.any fun existing => conflict existing candidate then scan group toRemove (i + 1) rest
    else scan (group ++ [candidate]) (toRemove ++ [i]) (i + 1) rest

/-- The queue without some positions, the last one removed first. -/
def removeAll (queue : List α) (toRemove : List Nat) : List α :=
  toRemove.reverse.foldl (fun remaining idx => remaining.eraseIdx idx) queue

theorem scan_group (group : List α) (toRemove : List Nat) (i : Nat) (queue : List α) :
    (scan conflict group toRemove i queue).1 = (select conflict group queue).1 := by
  induction queue generalizing group toRemove i with
  | nil => rfl
  | cons candidate rest ih =>
    rw [scan, select]
    split <;> apply ih

theorem scan_positions (group : List α) (toRemove : List Nat) (i : Nat) (queue : List α) :
    (scan conflict group toRemove i queue).2 = toRemove ++ (scan conflict group [] i queue).2 := by
  induction queue generalizing group toRemove i with
  | nil => simp [scan]
  | cons candidate rest ih =>
    simp only [scan]
    split
    · apply ih
    · rw [ih _ (toRemove ++ [i]), ih _ ([] ++ [i])]
      simp

/-- Removing the recorded positions leaves those that were not taken: the later positions go first, so no
position has shifted when its turn comes. -/
theorem remove_scanned (before group queue : List α) :
    removeAll (before ++ queue) (scan conflict group [] before.length queue).2 =
      before ++ (select conflict group queue).2 := by
  induction queue generalizing before group with
  | nil => simp [scan, select, removeAll]
  | cons candidate rest ih =>
    have further := ih (before ++ [candidate])
    simp only [List.length_append, List.length_singleton, List.append_assoc, List.singleton_append] at further
    simp only [scan, select]
    split
    · exact further group
    · have later := further (group ++ [candidate])
      rw [removeAll] at later ⊢
      rw [scan_positions, List.reverse_append, List.foldl_append, later]
      simp [List.eraseIdx_append_of_length_le]

theorem remove_selected (queue : List α) :
    removeAll queue (scan conflict [] [] 0 queue).2 = (select conflict [] queue).2 :=
  remove_scanned conflict [] [] queue

end Scanning

section Mapping
variable {β : Type} {other : β → β → Bool} {f : α → β}

/-- Grouping reads nothing of the members but who conflicts with whom. -/
theorem select_map (group queue : List α)
    (same : ∀ left ∈ group ++ queue, ∀ right ∈ group ++ queue, other (f left) (f right) = conflict left right) :
    select other (group.map f) (queue.map f) =
      ((select conflict group queue).1.map f, (select conflict group queue).2.map f) := by
  induction queue generalizing group with
  | nil => rfl
  | cons candidate rest ih =>
    have tested : ((group.map f).any fun existing => other existing (f candidate)) =
        group.any fun existing => conflict existing candidate := by
      rw [List.any_map, Bool.eq_iff_iff, List.any_eq_true, List.any_eq_true]
      refine exists_congr fun existing => and_congr_right fun member => ?_
      have agreed := same existing (by simp [member]) candidate (by simp)
      simp [agreed]
    rw [List.map_cons, select, select, tested]
    split
    · rw [ih group fun left leftMember right rightMember => ?_]
      · rfl
      · apply same <;> simp_all [List.mem_append] <;> tauto
    · have grown := ih (group ++ [candidate]) (by simpa using same)
      simpa using grown

theorem rounds_map (queue : List α)
    (same : ∀ left ∈ queue, ∀ right ∈ queue, other (f left) (f right) = conflict left right) :
    rounds other (queue.map f) = (rounds conflict queue).map (List.map f) := by
  induction queue using rounds.induct conflict with
  | case1 => simp [rounds_nil]
  | case2 first rest selected ih =>
    have kept : ∀ member ∈ selected.2, member ∈ first :: rest := by
      intro member left
      have dealt : (selected.1 ++ selected.2).Perm (first :: rest) := select_perm [] (first :: rest)
      exact dealt.subset (List.mem_append_right _ left)
    have round : select other [] ((first :: rest).map f) = (selected.1.map f, selected.2.map f) :=
      select_map [] (first :: rest) (by simpa using same)
    rw [rounds, List.map_cons, rounds, ← List.map_cons, round]
    refine congrArg (selected.1.map f :: ·) (ih ?_)
    intro left leftMember right rightMember
    exact same left (kept left leftMember) right (kept right rightMember)

end Mapping

end Klomang.Greedy
