import Klomang.Lib.FiniteMap
import Mathlib.Control.Monad.Basic

/-! Computations that remember answers in a table. A table is sound for a
function when every remembered answer is that function's value; a computation
that starts from a sound table and answers correctly can be composed freely. -/
namespace Klomang

/-- A computation with a table that may fail; the table survives the failure. -/
abbrev Memo (ε K V : Type) [DecidableEq K] := ExceptT ε (StateM (FiniteMap K V))

namespace Memo

variable {ε K V α β : Type} [DecidableEq K]

/-- Run on a table: the outcome and the table afterwards. -/
def on (computation : Memo ε K V α) (table : FiniteMap K V) : Except ε α × FiniteMap K V :=
  computation.run.run table

/-- The remembered answer for a key. -/
def remembered (key : K) : Memo ε K V (Option V) := do
  let table : FiniteMap K V ← get
  return table.lookup key

/-- Remember an answer. -/
def remember (key : K) (value : V) : Memo ε K V Unit :=
  modify fun table : FiniteMap K V => table.insert key value

/-- A step that does not touch the table. -/
def ofExcept (outcome : Except ε α) : Memo ε K V α := ExceptT.mk (pure outcome)

/-- The remembered answer, or else the computed one, which is then remembered. -/
def cached (key : K) (compute : Memo ε K V V) : Memo ε K V V := do
  match ← remembered key with
  | some value => return value
  | none =>
    let value ← compute
    remember key value
    return value

theorem on_pure (value : α) (table : FiniteMap K V) :
    (pure value : Memo ε K V α).on table = (.ok value, table) := rfl

theorem on_ofExcept (outcome : Except ε α) (table : FiniteMap K V) :
    (ofExcept outcome : Memo ε K V α).on table = (outcome, table) := rfl

theorem on_bind (first : Memo ε K V α) (next : α → Memo ε K V β) (table : FiniteMap K V) :
    (first >>= next).on table =
      match first.on table with
      | (.ok value, later) => (next value).on later
      | (.error error, later) => (.error error, later) := by
  simp only [on, ExceptT.run_bind, StateT.run_bind]
  rcases first.run.run table with ⟨outcome, later⟩
  cases outcome <;> rfl

theorem on_remembered (key : K) (table : FiniteMap K V) :
    (remembered key : Memo ε K V (Option V)).on table = (.ok (table.lookup key), table) := rfl

theorem on_remember (key : K) (value : V) (table : FiniteMap K V) :
    (remember key value : Memo ε K V Unit).on table = (.ok (), table.insert key value) := rfl

section Entries
variable {fits : K → V → Prop}

/-- Every remembered answer fits its key. -/
def Keeps (fits : K → V → Prop) (table : FiniteMap K V) : Prop :=
  ∀ key value, table.lookup key = some value → fits key value

theorem keeps_empty (fits : K → V → Prop) : Keeps fits (∅ : FiniteMap K V) := by
  intro key value found
  simp at found

theorem Keeps.insert {table : FiniteMap K V} (keeps : Keeps fits table) {key : K} {value : V} (fit : fits key value) :
    Keeps fits (table.insert key value) := by
  intro other entry found
  rw [FiniteMap.lookup_insert_ite] at found
  split at found
  · rename_i same
    cases found
    exact same ▸ fit
  · exact keeps other entry found

/-- A computation that ends with `outcome` on every table whose entries fit, and keeps them fitting. -/
def Ends (fits : K → V → Prop) (computation : Memo ε K V α) (outcome : Except ε α) : Prop :=
  ∀ table, Keeps fits table → ∃ later, computation.on table = (outcome, later) ∧ Keeps fits later

theorem ends_pure (answer : α) : Ends fits (pure answer : Memo ε K V α) (.ok answer) :=
  fun table keeps => ⟨table, on_pure answer table, keeps⟩

theorem ends_ofExcept (outcome : Except ε α) : Ends fits (ofExcept outcome : Memo ε K V α) outcome :=
  fun table keeps => ⟨table, on_ofExcept _ table, keeps⟩

theorem Ends.bind {first : Memo ε K V α} {next : α → Memo ε K V β} {middle : α} {outcome : Except ε β}
    (begun : Ends fits first (.ok middle)) (continued : Ends fits (next middle) outcome) :
    Ends fits (first >>= next) outcome := by
  intro table keeps
  obtain ⟨halfway, ran, still⟩ := begun table keeps
  obtain ⟨later, finished, kept⟩ := continued halfway still
  refine ⟨later, ?_, kept⟩
  rw [on_bind, ran]
  exact finished

theorem Ends.bind_error {first : Memo ε K V α} {next : α → Memo ε K V β} {error : ε}
    (failed : Ends fits first (.error error)) : Ends fits (first >>= next) (.error error) := by
  intro table keeps
  obtain ⟨later, ran, kept⟩ := failed table keeps
  refine ⟨later, ?_, kept⟩
  rw [on_bind, ran]

/-- Remembering an answer that fits its key. -/
theorem ends_remember {key : K} {value : V} (fit : fits key value) :
    Ends fits (remember key value : Memo ε K V Unit) (.ok ()) :=
  fun table keeps => ⟨table.insert key value, on_remember key value table, keeps.insert fit⟩

/-- Correct answers for all elements give the correct list of answers. -/
theorem ends_mapM {elements : List β} {compute : β → Memo ε K V α} (answer : β → α)
    (correct : ∀ element ∈ elements, Ends fits (compute element) (.ok (answer element))) :
    Ends fits (elements.mapM compute) (.ok (elements.map answer)) := by
  induction elements with
  | nil => exact ends_pure []
  | cons element rest ih =>
    have tail := ih fun other member => correct other (List.mem_cons_of_mem _ member)
    rw [List.mapM_cons, List.map_cons]
    exact (correct element List.mem_cons_self).bind (tail.bind (ends_pure _))

end Entries

/-- Every remembered answer agrees with `truth`. -/
def Sound (truth : K → V) (table : FiniteMap K V) : Prop :=
  ∀ key value, table.lookup key = some value → value = truth key

theorem sound_empty (truth : K → V) : Sound truth (∅ : FiniteMap K V) := keeps_empty _

theorem Sound.insert {truth : K → V} {table : FiniteMap K V} (sound : Sound truth table) (key : K) :
    Sound truth (table.insert key (truth key)) := by
  have keeps : Keeps (fun key value => value = truth key) table := sound
  exact keeps.insert rfl

/-- A computation that succeeds with `answer` on every sound table and leaves a
sound one. -/
def Yields (truth : K → V) (computation : Memo ε K V α) (answer : α) : Prop :=
  ∀ table, Sound truth table →
    ∃ later, computation.on table = (.ok answer, later) ∧ Sound truth later

variable {truth : K → V}

theorem yields_pure (answer : α) : Yields truth (pure answer : Memo ε K V α) answer := ends_pure answer

theorem yields_ok (answer : α) : Yields truth (ofExcept (.ok answer) : Memo ε K V α) answer :=
  ends_ofExcept (.ok answer)

theorem Yields.bind {first : Memo ε K V α} {next : α → Memo ε K V β} {middle : α} {answer : β}
    (begun : Yields truth first middle) (continued : Yields truth (next middle) answer) :
    Yields truth (first >>= next) answer := by
  have ended : Ends (fun key value => value = truth key) first (.ok middle) := begun
  exact ended.bind continued

/-- Looking a key up first changes nothing about a correct computation. -/
theorem yields_cached {key : K} {compute : Memo ε K V V} (correct : Yields truth compute (truth key)) :
    Yields truth (cached key compute) (truth key) := by
  intro table sound
  rw [cached, on_bind, on_remembered]
  cases found : table.lookup key with
  | some value =>
    refine ⟨table, ?_, sound⟩
    rw [sound key value found]
    exact on_pure _ table
  | none =>
    obtain ⟨halfway, ran, still⟩ := correct table sound
    refine ⟨halfway.insert key (truth key), ?_, still.insert key⟩
    simp only [on_bind, ran, on_remember, on_pure]

theorem yields_mapM {elements : List β} {compute : β → Memo ε K V α} (answer : β → α)
    (correct : ∀ element ∈ elements, Yields truth (compute element) (answer element)) :
    Yields truth (elements.mapM compute) (elements.map answer) := by
  have ended : Ends (fun key value => value = truth key) (elements.mapM compute) (.ok (elements.map answer)) :=
    ends_mapM answer correct
  exact ended

end Memo
end Klomang
