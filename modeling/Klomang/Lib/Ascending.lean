import Mathlib.Data.List.Sort
import Mathlib.Data.Finset.Card

/-! The ascending listing of a finite set. A hash set is copied into a vector
and sorted wherever a program wants its iteration deterministic; the listing
depends on the set alone. Also the greatest element of a list. -/
namespace Klomang
variable {α : Type} [LinearOrder α]

theorem insertion_sort_perm {left right : List α} (same : left.Perm right) :
    left.insertionSort (· ≤ ·) = right.insertionSort (· ≤ ·) := by
  refine List.Perm.eq_of_pairwise' (r := (· ≤ ·)) ?_ ?_ ?_
  · exact List.pairwise_insertionSort _ left
  · exact List.pairwise_insertionSort _ right
  · exact (List.perm_insertionSort _ left).trans
      (same.trans (List.perm_insertionSort _ right).symm)

/-- The members of a finite set in increasing order. -/
def ascending (set : Finset α) : List α :=
  Quot.liftOn set.val (List.insertionSort (· ≤ ·)) fun _ _ same => insertion_sort_perm same

theorem coe_ascending (set : Finset α) : (ascending set : Multiset α) = set.val := by
  obtain ⟨⟨members⟩, nodup⟩ := set
  exact Quot.sound (List.perm_insertionSort _ members)

@[simp] theorem mem_ascending {set : Finset α} {member : α} : member ∈ ascending set ↔ member ∈ set := by
  rw [← Multiset.mem_coe, coe_ascending, Finset.mem_val]

theorem ascending_nodup (set : Finset α) : (ascending set).Nodup := by
  rw [← Multiset.coe_nodup, coe_ascending]
  exact set.nodup

theorem ascending_pairwise (set : Finset α) : (ascending set).Pairwise (· ≤ ·) := by
  obtain ⟨⟨members⟩, nodup⟩ := set
  exact List.pairwise_insertionSort _ members

@[simp] theorem length_ascending (set : Finset α) : (ascending set).length = set.card := by
  rw [← Multiset.coe_card, coe_ascending]
  rfl

@[simp] theorem toFinset_ascending (set : Finset α) : (ascending set).toFinset = set := by
  ext member
  simp

/-- A sorted list without repetitions is the ascending listing of its members. -/
theorem ascending_toFinset {list : List α} (sorted : list.Pairwise (· ≤ ·)) (distinct : list.Nodup) :
    ascending list.toFinset = list := by
  refine List.Perm.eq_of_pairwise' (r := (· ≤ ·)) (ascending_pairwise _) sorted ?_
  rw [← Multiset.coe_eq_coe, coe_ascending, List.toFinset_val, distinct.dedup]

/-- A sort is stable: what the comparison does not tell apart stays in the order it was in. -/
theorem insertion_sort_stable {β : Type} {compare before : β → β → Prop} [DecidableRel compare] [Std.Total compare]
    [IsTrans β compare] {list : List β} (ordered : list.Pairwise before) :
    (list.insertionSort compare).Pairwise fun left right => compare left right ∧ (compare right left → before left right) := by
  induction list with
  | nil => exact List.Pairwise.nil
  | cons first rest ih =>
    obtain ⟨ahead, others⟩ := List.pairwise_cons.mp ordered
    have sorted := ih others
    have ahead : ∀ other ∈ rest.insertionSort compare, before first other :=
      fun other listed => ahead other ((List.mem_insertionSort compare).mp listed)
    rw [List.insertionSort_cons]
    generalize rest.insertionSort compare = placed at sorted ahead
    induction placed with
    | nil => exact List.pairwise_singleton _ _
    | cons next later ihLater =>
      obtain ⟨least, sortedLater⟩ := List.pairwise_cons.mp sorted
      rw [List.orderedInsert]
      split
      · rename_i below
        refine List.pairwise_cons.mpr ⟨fun other listed => ⟨?_, fun _ => ahead other listed⟩, sorted⟩
        rcases List.mem_cons.mp listed with rfl | further
        · exact below
        · exact IsTrans.trans _ _ _ below (least other further).1
      · rename_i above
        refine List.pairwise_cons.mpr ⟨fun other listed => ?_, ihLater sortedLater fun other listed => ?_⟩
        · rcases (List.mem_orderedInsert compare).mp listed with rfl | further
          · exact ⟨(Std.Total.total other next).resolve_left above, fun back => absurd back above⟩
          · exact least other further
        · exact ahead other (List.mem_cons_of_mem _ listed)

/-- `max_by`: the greatest element, of equal ones the last. -/
def maxBy {β : Type} (greater : β → β → Prop) [DecidableRel greater] : List β → Option β
  | [] => none
  | first :: rest => some (rest.foldl (fun best next => if greater best next then best else next) first)

section Greatest
variable {β : Type} {greater : β → β → Prop} [DecidableRel greater]

theorem max_by_isSome {list : List β} {member : β} (listed : member ∈ list) : ∃ best, maxBy greater list = some best := by
  cases list with
  | nil => exact absurd listed List.not_mem_nil
  | cons first rest => exact ⟨_, rfl⟩

/-- No element of the list is greater than the one picked. -/
theorem max_by_best (asymmetric : ∀ left right, greater left right → ¬ greater right left)
    (transitive : ∀ left middle right, ¬ greater middle left → ¬ greater right middle → ¬ greater right left)
    {list : List β} {best : β} (picked : maxBy greater list = some best) :
    best ∈ list ∧ ∀ member ∈ list, ¬ greater member best := by
  cases list with
  | nil => cases picked
  | cons first rest =>
    obtain rfl := Option.some.inj picked
    clear picked
    induction rest generalizing first with
    | nil => exact ⟨List.mem_singleton_self first, by simpa using fun own => asymmetric first first own own⟩
    | cons next rest ih =>
      rw [List.foldl_cons]
      split
      · rename_i keeps
        obtain ⟨member, highest⟩ := ih first
        refine ⟨?_, fun other listed => ?_⟩
        · rcases List.mem_cons.mp member with own | later
          · rw [own]
            exact List.mem_cons_self
          · exact List.mem_cons_of_mem _ (List.mem_cons_of_mem _ later)
        · rcases List.mem_cons.mp listed with rfl | rest
          · exact highest other List.mem_cons_self
          · rcases List.mem_cons.mp rest with rfl | later
            · exact transitive _ first other (highest first List.mem_cons_self) (asymmetric _ _ keeps)
            · exact highest other (List.mem_cons_of_mem _ later)
      · rename_i moves
        obtain ⟨member, highest⟩ := ih next
        refine ⟨List.mem_cons_of_mem _ member, fun other listed => ?_⟩
        rcases List.mem_cons.mp listed with rfl | later
        · exact transitive _ next other (highest next List.mem_cons_self) moves
        · exact highest other later

end Greatest
end Klomang
