import Klomang.Lib.FiniteMap

/-! Edits of a map: a key with what it holds from then on. Of a list of edits the last
one on a key decides what the key holds. -/
namespace Klomang

/-- A key and what it holds after the edit, nothing when it is removed. -/
abbrev Edit (K V : Type) := K × Option V

namespace Edit
variable {K V : Type} [DecidableEq K]

/-- One edit. -/
def apply (map : FiniteMap K V) : Edit K V → FiniteMap K V
  | (key, some value) => map.insert key value
  | (key, none) => map.erase key

/-- The edits in order. -/
def replay (map : FiniteMap K V) (edits : List (Edit K V)) : FiniteMap K V := edits.foldl apply map

/-- What the last edit of a key leaves there, when there is one. -/
def last (key : K) : List (Edit K V) → Option (Option V)
  | [] => none
  | edit :: rest => (last key rest).or (if edit.1 = key then some edit.2 else none)

variable {map : FiniteMap K V} {edits rest : List (Edit K V)}

@[simp] theorem replay_nil : replay map [] = map := rfl

@[simp] theorem replay_cons (edit : Edit K V) : replay map (edit :: edits) = replay (apply map edit) edits := rfl

@[simp] theorem replay_append : replay map (edits ++ rest) = replay (replay map edits) rest := by
  simp [replay]

theorem lookup_apply (map : FiniteMap K V) (edit : Edit K V) (key : K) :
    (apply map edit).lookup key = if edit.1 = key then edit.2 else map.lookup key := by
  obtain ⟨other, value⟩ := edit
  cases value with
  | none => simp only [apply, FiniteMap.lookup_erase_ite, eq_comm]
  | some value => simp only [apply, FiniteMap.lookup_insert_ite, eq_comm]

theorem lookup_replay (map : FiniteMap K V) (edits : List (Edit K V)) (key : K) :
    (replay map edits).lookup key = (last key edits).getD (map.lookup key) := by
  induction edits generalizing map with
  | nil => rfl
  | cons edit rest ih =>
    rw [replay_cons, ih, lookup_apply, last]
    cases last key rest with
    | some value => rfl
    | none => split <;> rfl

/-- The last edit of every key writes what the key holds in the map. -/
def Unwinds (map : FiniteMap K V) (edits : List (Edit K V)) : Prop :=
  ∀ key value, last key edits = some value → map.lookup key = value

/-- Edits leave a map as it was exactly when they unwind on it. -/
theorem replay_eq_iff : replay map edits = map ↔ Unwinds map edits := by
  constructor
  · intro same key value found
    have here := lookup_replay map edits key
    rw [same, found] at here
    exact here
  · intro unwinds
    refine Finmap.ext_lookup fun key => ?_
    rw [lookup_replay]
    cases found : last key edits with
    | none => rfl
    | some value => exact (unwinds key value found).symm

section Apart

theorem last_append (key : K) : last key (edits ++ rest) = (last key rest).or (last key edits) := by
  induction edits with
  | nil => simp [last]
  | cons edit others ih => rw [List.cons_append, last, ih, last, Option.or_assoc]

theorem last_none {key : K} (absent : ∀ edit ∈ edits, edit.1 ≠ key) : last key edits = none := by
  induction edits with
  | nil => rfl
  | cons edit others ih =>
    obtain ⟨here, further⟩ := List.forall_mem_cons.mp absent
    rw [last, ih further, if_neg here]
    rfl

theorem last_eq_none_iff {key : K} : last key edits = none ↔ ∀ edit ∈ edits, edit.1 ≠ key := by
  refine ⟨fun none => ?_, last_none⟩
  induction edits with
  | nil => simp
  | cons edit others ih =>
    rw [last, Option.or_eq_none_iff] at none
    simpa using And.intro none.2 (ih none.1)

theorem mem_of_last {key : K} {value : Option V} (found : last key edits = some value) : (key, value) ∈ edits := by
  induction edits with
  | nil => cases found
  | cons edit others ih =>
    rw [last, Option.or_eq_some_iff] at found
    rcases found with later | ⟨_, here⟩
    · exact List.mem_cons_of_mem edit (ih later)
    · split at here
      · rename_i same
        cases same
        cases here
        exact List.mem_cons_self
      · cases here

/-- Edits of different keys can be made in either order. -/
theorem replay_comm (map : FiniteMap K V) (apart : ∀ edit ∈ edits, ∀ other ∈ rest, edit.1 ≠ other.1) :
    replay map (edits ++ rest) = replay map (rest ++ edits) := by
  refine Finmap.ext_lookup fun key => ?_
  rw [lookup_replay, lookup_replay, last_append, last_append]
  by_cases named : ∃ edit ∈ edits, edit.1 = key
  · obtain ⟨edit, member, rfl⟩ := named
    rw [last_none fun other there same => apart edit member other there same.symm]
    simp
  · rw [last_none fun edit member same => named ⟨edit, member, same⟩]
    simp

end Apart

end Edit
end Klomang
