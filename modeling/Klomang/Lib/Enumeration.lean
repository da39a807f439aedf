import Mathlib.Data.Finset.Card
import Mathlib.Data.Finset.Dedup
import Mathlib.Data.Finset.Insert
import Mathlib.Data.Finset.Erase

/-! The order in which a hash set or the keys of a hash map are iterated. No
program may rely on it, so it is an argument wherever a result could depend on it. -/
namespace Klomang

/-- An iteration order: every member once. -/
structure Enumeration (α : Type) where
  list : Finset α → List α
  nodup : ∀ set, (list set).Nodup
  mem : ∀ set member, member ∈ list set ↔ member ∈ set

namespace Enumeration
variable {α : Type}

/-- Any list of the members, each of them once, is a rearrangement. -/
theorem perm_of_members (order : Enumeration α) {set : Finset α} {members : List α} (distinct : members.Nodup)
    (all : ∀ member, member ∈ members ↔ member ∈ set) : (order.list set).Perm members :=
  (List.perm_ext_iff_of_nodup (order.nodup set) distinct).mpr fun member =>
    (order.mem set member).trans (all member).symm

theorem perm (order other : Enumeration α) (set : Finset α) : (order.list set).Perm (other.list set) :=
  order.perm_of_members (other.nodup set) (other.mem set)

theorem length_list (order : Enumeration α) (set : Finset α) : (order.list set).length = set.card := by
  classical
  have members : (order.list set).toFinset = set := Finset.ext fun member => by
    rw [List.mem_toFinset, order.mem]
  rw [← List.toFinset_card_of_nodup (order.nodup set), members]

/-- A set of at most one member is iterated in one order only. -/
theorem list_eq_of_card_le_one {set : Finset α} (few : set.card ≤ 1) (order other : Enumeration α) :
    order.list set = other.list set := by
  have same := order.perm other set
  have bound := order.length_list set
  cases listed : order.list set with
  | nil =>
    rw [listed] at same
    exact same.nil_eq
  | cons first rest =>
    rw [listed] at same bound
    obtain rfl : rest = [] := List.eq_nil_of_length_eq_zero (by simp only [List.length_cons] at bound; omega)
    exact same.singleton_eq

/-- The iteration from the other end. -/
def reversed (order : Enumeration α) : Enumeration α where
  list set := (order.list set).reverse
  nodup set := List.nodup_reverse.mpr (order.nodup set)
  mem set member := List.mem_reverse.trans (order.mem set member)

/-- Two members or more are iterated in more than one order. -/
theorem reversed_ne {set : Finset α} (many : 1 < set.card) (order : Enumeration α) :
    order.reversed.list set ≠ order.list set := by
  intro same
  have count := order.length_list set
  have ends : (order.list set).reverse[0]? = (order.list set)[0]? := congrArg (·[0]?) same
  rw [List.getElem?_reverse (by omega)] at ends
  have position := (List.getElem?_inj (by omega) (order.nodup set)).mp ends
  omega

/-- Some iteration ends with a given member. -/
theorem exists_last [DecidableEq α] (last : α) :
    ∃ order : Enumeration α, ∀ set, last ∈ set → ∃ before, order.list set = before ++ [last] := by
  refine ⟨⟨fun set => (set.erase last).toList ++ if last ∈ set then [last] else [], fun set => ?_, fun set member => ?_⟩,
    fun set there => ⟨_, congrArg _ (if_pos there)⟩⟩
  · refine List.Nodup.append (Finset.nodup_toList _) ?_ ?_
    · split <;> simp
    · split <;> simp
  · by_cases there : last ∈ set
    · by_cases same : member = last
      · simp [same, there]
      · simp [same]
    · simp [there]

end Enumeration
end Klomang
