import Mathlib.Data.Finmap
import Mathlib.Algebra.BigOperators.Group.Finset.Basic
import Mathlib.Algebra.GroupWithZero.Nat
import Mathlib.Algebra.Order.BigOperators.Group.Finset

/-! Finite maps as the model's hash maps: one value type for every key, lookups
after an update, and the total of a measure over the stored values. -/
namespace Klomang

/-- A hash map, with the order of its buckets forgotten. -/
abbrev FiniteMap (K V : Type) := Finmap fun _ : K => V

namespace FiniteMap
variable {K V : Type} [DecidableEq K] {map : FiniteMap K V} {key other : K} {value : V}

theorem lookup_insert_ite (map : FiniteMap K V) (key other : K) (value : V) :
    (Finmap.insert key value map).lookup other = if other = key then some value else map.lookup other := by
  by_cases same : other = key
  · subst same
    simp
  · simp [same, Finmap.lookup_insert_of_ne]

theorem lookup_erase_ite (map : FiniteMap K V) (key other : K) :
    (Finmap.erase key map).lookup other = if other = key then none else map.lookup other := by
  by_cases same : other = key
  · subst same
    simp
  · simp [same, Finmap.lookup_erase_ne]

theorem keys_insert (map : FiniteMap K V) (key : K) (value : V) :
    (Finmap.insert key value map).keys = insert key map.keys := by
  ext other
  simp [Finmap.mem_keys, Finmap.mem_insert]

/-- Writing back the value a key already holds changes nothing. -/
theorem insert_lookup (found : map.lookup key = some value) :
    Finmap.insert key value map = map := by
  refine Finmap.ext_lookup fun other => ?_
  rw [lookup_insert_ite]
  split
  · rename_i same
    rw [same, found]
  · rfl

/-- Updating the values of some keys one after the other updates each of them once. -/
theorem lookup_fold_update {step : FiniteMap K V → K → FiniteMap K V} {update : V → V}
    (absent : ∀ map key, map.lookup key = none → step map key = map)
    (present : ∀ map key value, map.lookup key = some value → step map key = map.insert key (update value))
    {keys : List K} (distinct : keys.Nodup) (map : FiniteMap K V) (key : K) :
    (keys.foldl step map).lookup key =
      (map.lookup key).map fun value => if key ∈ keys then update value else value := by
  induction keys generalizing map with
  | nil => simp
  | cons first rest ih =>
    obtain ⟨once, distinctRest⟩ := List.nodup_cons.mp distinct
    rw [List.foldl_cons, ih distinctRest]
    cases found : map.lookup first with
    | none =>
      rw [absent map first found]
      by_cases same : key = first
      · subst same
        simp [found]
      · simp [same]
    | some value =>
      rw [present map first value found, lookup_insert_ite]
      by_cases same : key = first
      · subst same
        simp [once, found]
      · simp [same]

/-- The measure one key contributes: nothing when it is absent. -/
def weight (measure : V → Nat) (map : FiniteMap K V) (key : K) : Nat :=
  (map.lookup key).elim 0 measure

/-- The sum of a measure over every stored value. -/
def total (measure : V → Nat) (map : FiniteMap K V) : Nat :=
  ∑ key ∈ map.keys, weight measure map key

variable {measure bound : V → Nat}

@[simp] theorem total_empty : total measure (∅ : FiniteMap K V) = 0 := by
  simp [total]

theorem weight_absent (absent : map.lookup key = none) : weight measure map key = 0 := by
  simp [weight, absent]

theorem weight_of_lookup (found : map.lookup key = some value) :
    weight measure map key = measure value := by
  simp [weight, found]

/-- Erasing a key removes exactly its contribution. -/
theorem total_erase (measure : V → Nat) (map : FiniteMap K V) (key : K) :
    total measure (Finmap.erase key map) + weight measure map key = total measure map := by
  have rest : ∀ other ∈ map.keys.erase key,
      weight measure (Finmap.erase key map) other = weight measure map other := by
    intro other member
    simp [weight, (Finset.mem_erase.mp member).1]
  rw [total, Finmap.keys_erase, Finset.sum_congr rfl rest]
  by_cases stored : key ∈ map.keys
  · exact Finset.sum_erase_add _ _ stored
  · have absent : map.lookup key = none :=
      Finmap.lookup_eq_none.mpr fun member => stored (Finmap.mem_keys.mpr member)
    rw [Finset.erase_eq_of_notMem stored, weight_absent absent, Nat.add_zero]
    rfl

theorem total_insert_fresh (absent : map.lookup key = none) :
    total measure (Finmap.insert key value map) = total measure map + measure value := by
  have fresh : key ∉ map.keys := fun member =>
    Finmap.lookup_eq_none.mp absent (Finmap.mem_keys.mp member)
  have rest : ∀ other ∈ map.keys,
      weight measure (Finmap.insert key value map) other = weight measure map other := by
    intro other member
    have different : other ≠ key := fun same => fresh (same ▸ member)
    simp [weight, different]
  rw [total, keys_insert, Finset.sum_insert fresh, Finset.sum_congr rfl rest,
    weight_of_lookup (Finmap.lookup_insert map), Nat.add_comm]
  rfl

/-- Writing a key adds the new value's measure and gives up what was there. -/
theorem total_insert (measure : V → Nat) (map : FiniteMap K V) (key : K) (value : V) :
    total measure (Finmap.insert key value map) + weight measure map key =
      total measure map + measure value := by
  have again : Finmap.insert key value (Finmap.erase key map) = Finmap.insert key value map := by
    refine Finmap.ext_lookup fun other => ?_
    simp only [lookup_insert_ite, lookup_erase_ite]
    split <;> rfl
  have fresh : total measure (Finmap.insert key value (Finmap.erase key map)) =
      total measure (Finmap.erase key map) + measure value := total_insert_fresh (Finmap.lookup_erase key map)
  have erased := total_erase measure map key
  rw [again] at fresh
  omega

theorem weight_le_total (measure : V → Nat) (map : FiniteMap K V) (key : K) :
    weight measure map key ≤ total measure map := by
  have erased := total_erase measure map key
  omega

/-- Erasing distinct keys removes exactly what each contributes. -/
theorem total_erase_all (measure : V → Nat) (map : FiniteMap K V) {keys : List K} (distinct : keys.Nodup) :
    total measure (keys.foldl (fun map key => Finmap.erase key map) map) + (keys.map (weight measure map)).sum =
      total measure map := by
  induction keys generalizing map with
  | nil => rfl
  | cons key rest ih =>
    obtain ⟨fresh, others⟩ := List.nodup_cons.mp distinct
    have kept : rest.map (weight measure (Finmap.erase key map)) = rest.map (weight measure map) := by
      refine List.map_congr_left fun other member => ?_
      have different : other ≠ key := fun same => fresh (same ▸ member)
      rw [weight, weight, Finmap.lookup_erase_ne different]
    have further := ih (Finmap.erase key map) others
    have erased := total_erase measure map key
    rw [kept] at further
    rw [List.foldl_cons, List.map_cons, List.sum_cons]
    omega

/-- Distinct keys are worth at most the total. -/
theorem weights_le_total (measure : V → Nat) (map : FiniteMap K V) {keys : List K} (distinct : keys.Nodup) :
    (keys.map (weight measure map)).sum ≤ total measure map := by
  have erased := total_erase_all measure map distinct
  omega

/-- Entries at distinct new keys add their measures. -/
theorem total_insert_all (measure : V → Nat) (map : FiniteMap K V) {entries : List (K × V)}
    (distinct : (entries.map Prod.fst).Nodup) (fresh : ∀ entry ∈ entries, map.lookup entry.1 = none) :
    total measure (entries.foldl (fun map entry => Finmap.insert entry.1 entry.2 map) map) =
      total measure map + (entries.map fun entry => measure entry.2).sum := by
  induction entries generalizing map with
  | nil => rfl
  | cons entry rest ih =>
    rw [List.map_cons] at distinct
    obtain ⟨once, others⟩ := List.nodup_cons.mp distinct
    have still : ∀ other ∈ rest, (Finmap.insert entry.1 entry.2 map).lookup other.1 = none := by
      intro other member
      have different : other.1 ≠ entry.1 := fun same => once (List.mem_map.mpr ⟨other, member, same⟩)
      rw [lookup_insert_ite, if_neg different]
      exact fresh other (List.mem_cons_of_mem _ member)
    rw [List.foldl_cons, ih _ others still, total_insert_fresh (fresh entry List.mem_cons_self), List.map_cons,
      List.sum_cons, Nat.add_assoc]

/-- A pointwise smaller measure has a smaller total. -/
theorem total_mono (map : FiniteMap K V) (below : ∀ value, measure value ≤ bound value) :
    total measure map ≤ total bound map := by
  refine Finset.sum_le_sum fun key _ => ?_
  unfold weight
  cases map.lookup key with
  | none => exact Nat.le_refl 0
  | some value => exact below value

end FiniteMap
end Klomang
