import Klomang.Lib.Edits
import Mathlib.Data.List.Induction

/-! Books over keyed entries. Entries are put and taken one at a time; an account
adds the measure of what is put, up to a limit, and subtracts the measure of what
is taken. An entry put over another one loses the other's measure. -/
namespace Klomang

/-- One change of the entries. -/
inductive Move (K V : Type) where
  | take (key : K)
  | put (key : K) (value : V)

/-- The key a move is about. -/
def Move.key {K V : Type} : Move K V → K
  | .take key => key
  | .put key _ => key

/-- What a move does to the entry at its key. -/
def Move.entryEdit {K V : Type} : Move K V → Edit K V
  | .take key => (key, none)
  | .put key value => (key, some value)

/-- Moves about different keys can be written in either order. -/
theorem Move.replay_comm {K V W : Type} [DecidableEq K] (edit : Move K V → Edit K W)
    (keyed : ∀ move, (edit move).1 = move.key) {moves rest : List (Move K V)} (map : FiniteMap K W)
    (apart : ∀ move ∈ moves, ∀ other ∈ rest, move.key ≠ other.key) :
    Edit.replay map ((moves ++ rest).map edit) = Edit.replay map ((rest ++ moves).map edit) := by
  rw [List.map_append, List.map_append]
  refine Edit.replay_comm map fun first here second there => ?_
  obtain ⟨move, member, rfl⟩ := List.mem_map.mp here
  obtain ⟨other, listed, rfl⟩ := List.mem_map.mp there
  rw [keyed, keyed]
  exact apart move member other listed

structure Books (K V : Type) where
  entries : FiniteMap K V
  account : Nat

namespace Books
variable {K V : Type}

section Deposits
variable (measure : V → Nat)

/-- What a move adds to the account. -/
def deposit : Move K V → Nat
  | .take _ => 0
  | .put _ value => measure value

/-- What the moves add to the account. -/
def deposits (moves : List (Move K V)) : Nat := (moves.map (deposit measure)).sum

@[simp] theorem deposits_append (moves rest : List (Move K V)) :
    deposits measure (moves ++ rest) = deposits measure moves + deposits measure rest := by
  simp [deposits]

end Deposits

section Replacing

/-- A key that is taken is put again by a later move. -/
def Replaced (moves : List (Move K V)) (key : K) : Prop :=
  ∀ before rest, moves = before ++ .take key :: rest → ∃ value, .put key value ∈ rest

private theorem replaced_snoc (moves : List (Move K V)) (last : Move K V) (key : K) :
    Replaced (moves ++ [last]) key ↔
      (∃ value, last = .put key value) ∨ (last ≠ .take key ∧ Replaced moves key) := by
  constructor
  · intro replaced
    by_cases put : ∃ value, last = .put key value
    · exact .inl put
    refine .inr ⟨?_, fun before rest here => ?_⟩
    · rintro rfl
      obtain ⟨value, member⟩ := replaced moves [] rfl
      cases member
    · obtain ⟨value, member⟩ := replaced before (rest ++ [last]) (by simp [here])
      rcases List.mem_append.mp member with earlier | now
      · exact ⟨value, earlier⟩
      · exact absurd ⟨value, (List.mem_singleton.mp now).symm⟩ put
  · rintro cases before rest here
    rcases List.eq_nil_or_concat' rest with rfl | ⟨shorter, final, rfl⟩
    · obtain ⟨rfl, same⟩ := List.append_inj' here rfl
      cases same
      rcases cases with ⟨value, absurdity⟩ | ⟨other, _⟩
      · cases absurdity
      · exact absurd rfl other
    · have regrouped : moves ++ [last] = (before ++ .take key :: shorter) ++ [final] := by
        simpa using here
      obtain ⟨rfl, same⟩ := List.append_inj' regrouped rfl
      cases same
      rcases cases with ⟨value, rfl⟩ | ⟨_, replaced⟩
      · exact ⟨value, by simp⟩
      · obtain ⟨value, member⟩ := replaced before shorter rfl
        exact ⟨value, List.mem_append_left _ member⟩

end Replacing

variable [DecidableEq K]

section Play
variable (measure : V → Nat) (limit : Nat)

/-- One move. There is nothing to take at an absent key. -/
def move (books : Books K V) : Move K V → Option (Books K V)
  | .take key => (books.entries.lookup key).map fun value =>
      ⟨books.entries.erase key, books.account - measure value⟩
  | .put key value =>
      some ⟨books.entries.insert key value, min (books.account + measure value) limit⟩

/-- The moves in order, up to the first that cannot be made. -/
def play (books : Books K V) (moves : List (Move K V)) : Option (Books K V) :=
  moves.foldlM (move measure limit) books

/-- The moves that are made, up to the first that cannot be made. -/
def performed : Books K V → List (Move K V) → List (Move K V)
  | _, [] => []
  | books, first :: rest =>
    match move measure limit books first with
    | none => []
    | some books => first :: performed books rest

/-- What the moves put over entries that are still there. -/
def lost : FiniteMap K V → List (Move K V) → Nat
  | _, [] => 0
  | entries, .take key :: rest => lost (entries.erase key) rest
  | entries, .put key value :: rest =>
    FiniteMap.weight measure entries key + lost (entries.insert key value) rest

end Play

variable {measure : V → Nat} {limit : Nat} {books after : Books K V} {moves rest : List (Move K V)}

@[simp] theorem play_nil : play measure limit books [] = some books := rfl

theorem play_cons (first : Move K V) :
    play measure limit books (first :: rest) =
      (move measure limit books first).bind fun books => play measure limit books rest := rfl

theorem play_cons_iff {first : Move K V} : play measure limit books (first :: rest) = some after ↔
    ∃ next, move measure limit books first = some next ∧ play measure limit next rest = some after := by
  rw [play_cons, Option.bind_eq_some_iff]

theorem play_append :
    play measure limit books (moves ++ rest) =
      (play measure limit books moves).bind fun books => play measure limit books rest :=
  List.foldlM_append

/-- Moves that can all be made are all performed. -/
theorem performed_append (rest : List (Move K V)) (played : play measure limit books moves = some after) :
    performed measure limit books (moves ++ rest) = moves ++ performed measure limit after rest := by
  induction moves generalizing books with
  | nil =>
    cases played
    rfl
  | cons first others ih =>
    obtain ⟨next, moved, played⟩ := play_cons_iff.mp played
    rw [List.cons_append, performed, moved, List.cons_append]
    exact congrArg (List.cons first) (ih played)

theorem performed_played (played : play measure limit books moves = some after) :
    performed measure limit books moves = moves := by
  have all := performed_append [] played
  rwa [List.append_nil, performed, List.append_nil] at all

/-- Where not all moves can be made, what follows them does not matter. -/
theorem performed_stuck (rest : List (Move K V)) (stuck : play measure limit books moves = none) :
    performed measure limit books (moves ++ rest) = performed measure limit books moves := by
  induction moves generalizing books with
  | nil => cases stuck
  | cons first others ih =>
    rw [play_cons] at stuck
    rw [List.cons_append, performed, performed]
    cases moved : move measure limit books first with
    | none => rfl
    | some next =>
      rw [moved] at stuck
      exact congrArg (List.cons first) (ih stuck)

section Batches

/-- Keys can be taken in order exactly when none repeats and each is there. -/
theorem takes_played {keys : List K} (played : play measure limit books (keys.map .take) = some after) :
    keys.Nodup ∧ (∀ key ∈ keys, books.entries.lookup key ≠ none) ∧
      after.account = books.account - (keys.map (FiniteMap.weight measure books.entries)).sum := by
  induction keys generalizing books with
  | nil =>
    cases played
    exact ⟨List.nodup_nil, nofun, (Nat.sub_zero _).symm⟩
  | cons key rest ih =>
    obtain ⟨next, taken, played⟩ := play_cons_iff.mp played
    obtain ⟨value, found, rfl⟩ := Option.map_eq_some_iff.mp taken
    obtain ⟨distinct, present, account⟩ := ih played
    have others : ∀ other ∈ rest, other ≠ key := by
      rintro other member rfl
      exact present other member (Finmap.lookup_erase _ _)
    have kept : ∀ other ∈ rest, (books.entries.erase key).lookup other = books.entries.lookup other :=
      fun other member => Finmap.lookup_erase_ne (others other member)
    refine ⟨List.nodup_cons.mpr ⟨fun member => others key member rfl, distinct⟩, ?_, ?_⟩
    · intro other member
      rcases List.mem_cons.mp member with rfl | further
      · simp [found]
      · rw [← kept other further]
        exact present other further
    · have weights : rest.map (FiniteMap.weight measure (books.entries.erase key)) =
          rest.map (FiniteMap.weight measure books.entries) :=
        List.map_congr_left fun other member => congrArg (Option.elim · 0 measure) (kept other member)
      dsimp only at account
      rw [account, weights, List.map_cons, List.sum_cons, FiniteMap.weight_of_lookup found, Nat.sub_sub]

theorem takes_play (measure : V → Nat) (limit : Nat) (books : Books K V) {keys : List K}
    (distinct : keys.Nodup) (present : ∀ key ∈ keys, books.entries.lookup key ≠ none) :
    ∃ after, play measure limit books (keys.map .take) = some after := by
  induction keys generalizing books with
  | nil => exact ⟨books, rfl⟩
  | cons key rest ih =>
    obtain ⟨fresh, others⟩ := List.nodup_cons.mp distinct
    obtain ⟨value, found⟩ := Option.ne_none_iff_exists'.mp (present key List.mem_cons_self)
    rw [List.map_cons, play_cons, move, found]
    refine ih _ others fun other member => ?_
    have different : other ≠ key := fun same => fresh (same ▸ member)
    dsimp only
    rw [Finmap.lookup_erase_ne different]
    exact present other (List.mem_cons_of_mem _ member)

/-- Entries can always be put; the account takes their measure in, up to its limit. -/
theorem puts_play (measure : V → Nat) (limit : Nat) (books : Books K V) (puts : List (K × V)) :
    ∃ after, play measure limit books (puts.map fun (key, value) => .put key value) = some after ∧
      (books.account ≤ limit →
        after.account = min (books.account + (puts.map fun (_, value) => measure value).sum) limit) := by
  induction puts generalizing books with
  | nil => exact ⟨books, rfl, fun within => by simp [within]⟩
  | cons put rest ih =>
    obtain ⟨key, value⟩ := put
    obtain ⟨after, played, account⟩ := ih
      ⟨books.entries.insert key value, min (books.account + measure value) limit⟩
    refine ⟨after, played, fun _ => ?_⟩
    rw [account (Nat.min_le_right _ _), List.map_cons, List.sum_cons]
    dsimp only
    omega

end Batches

section Balance

/-- While the account stays below its limit it exceeds the entries by exactly what
was put over other entries. -/
theorem play_balance (slack : Nat) (played : play measure limit books moves = some after)
    (balanced : FiniteMap.total measure books.entries + slack = books.account)
    (fits : books.account + deposits measure moves ≤ limit) :
    FiniteMap.total measure after.entries + (slack + lost measure books.entries moves) = after.account ∧
      after.account ≤ books.account + deposits measure moves := by
  induction moves generalizing books slack with
  | nil =>
    cases played
    exact ⟨balanced, Nat.le_add_right _ _⟩
  | cons first rest ih =>
    obtain ⟨next, moved, played⟩ := play_cons_iff.mp played
    have split : deposits measure (first :: rest) = deposit measure first + deposits measure rest := by
      simp [deposits]
    rw [split] at fits ⊢
    cases first with
    | take key =>
      obtain ⟨value, found, rfl⟩ := Option.map_eq_some_iff.mp moved
      have erased := FiniteMap.total_erase measure books.entries key
      rw [FiniteMap.weight_of_lookup found] at erased
      simp only [deposit, Nat.zero_add] at fits ⊢
      obtain ⟨exact, grown⟩ := ih slack played (by dsimp only; omega) (by dsimp only; omega)
      exact ⟨exact, grown.trans (by dsimp only; omega)⟩
    | put key value =>
      cases moved
      have inserted := FiniteMap.total_insert measure books.entries key value
      simp only [deposit] at fits ⊢
      have below : min (books.account + measure value) limit = books.account + measure value := by omega
      rw [below] at played
      obtain ⟨exact, grown⟩ := ih (slack + FiniteMap.weight measure books.entries key) played
        (by dsimp only; omega) (by dsimp only; omega)
      refine ⟨?_, grown.trans (by dsimp only; omega)⟩
      rw [lost, ← exact]
      dsimp only
      omega

/-- In balanced books no taken entry exceeds the account. -/
theorem never_overdrawn (slack : Nat) {key : K} {value : V}
    (played : play measure limit books moves = some after)
    (balanced : FiniteMap.total measure books.entries + slack = books.account)
    (fits : books.account + deposits measure moves ≤ limit)
    (found : after.entries.lookup key = some value) : measure value ≤ after.account := by
  have exact := (play_balance slack played balanced fits).1
  have within := FiniteMap.weight_le_total measure after.entries key
  rw [FiniteMap.weight_of_lookup found] at within
  omega

end Balance

section Entries

/-- The entry at a key after a move. -/
def settle (key : K) (entry : Option V) : Move K V → Option V
  | .take other => if other = key then none else entry
  | .put other value => if other = key then some value else entry

/-- The entry at a key in a record that forgets nothing. -/
def record (key : K) (entry : Option V) : Move K V → Option V
  | .take _ => entry
  | .put other value => if other = key then some value else entry

theorem move_lookup {first : Move K V} (moved : move measure limit books first = some after) (key : K) :
    after.entries.lookup key = settle key (books.entries.lookup key) first := by
  cases first with
  | take other =>
    obtain ⟨value, found, rfl⟩ := Option.map_eq_some_iff.mp moved
    rw [FiniteMap.lookup_erase_ite, settle]
    simp only [eq_comm]
  | put other value =>
    cases moved
    rw [FiniteMap.lookup_insert_ite, settle]
    simp only [eq_comm]

/-- The entries after the moves are the entries before with every move written in. -/
theorem play_entries (played : play measure limit books moves = some after) :
    after.entries = Edit.replay books.entries (moves.map Move.entryEdit) := by
  induction moves generalizing books with
  | nil =>
    cases played
    rfl
  | cons first rest ih =>
    obtain ⟨next, moved, played⟩ := play_cons_iff.mp played
    rw [ih played, List.map_cons, Edit.replay_cons]
    cases first with
    | take key =>
      obtain ⟨value, _, rfl⟩ := Option.map_eq_some_iff.mp moved
      rfl
    | put key value =>
      cases moved
      rfl

theorem play_lookup (played : play measure limit books moves = some after) (key : K) :
    after.entries.lookup key = moves.foldl (settle key) (books.entries.lookup key) := by
  induction moves generalizing books with
  | nil =>
    cases played
    rfl
  | cons first rest ih =>
    obtain ⟨next, moved, played⟩ := play_cons_iff.mp played
    rw [ih played, move_lookup moved, List.foldl_cons]

/-- Entries whose key no move names stay as they are. -/
theorem play_untouched (played : play measure limit books moves = some after) {key : K}
    (untaken : .take key ∉ moves) (unput : ∀ value, .put key value ∉ moves) :
    after.entries.lookup key = books.entries.lookup key := by
  induction moves generalizing books with
  | nil =>
    cases played
    rfl
  | cons first rest ih =>
    obtain ⟨next, moved, played⟩ := play_cons_iff.mp played
    rw [List.mem_cons, not_or] at untaken
    simp only [List.mem_cons, not_or] at unput
    rw [ih played untaken.2 fun value => (unput value).2, move_lookup moved]
    cases first with
    | take other =>
      have different : other ≠ key := fun same => untaken.1 (congrArg Move.take same.symm)
      rw [settle, if_neg different]
    | put other value =>
      have different : other ≠ key := fun same => (unput value).1 (congrArg (Move.put · value) same.symm)
      rw [settle, if_neg different]

/-- The entries agree with a record that forgets nothing exactly at the keys that are put
again whenever they are taken. -/
theorem settled_iff_replaced (played : play measure limit books moves = some after) (key : K) :
    moves.foldl (settle key) (books.entries.lookup key) =
        moves.foldl (record key) (books.entries.lookup key) ↔ Replaced moves key := by
  -- an entry that is there is always recorded
  suffices both : (∀ value, moves.foldl (settle key) (books.entries.lookup key) = some value →
      moves.foldl (record key) (books.entries.lookup key) = some value) ∧
      (moves.foldl (settle key) (books.entries.lookup key) =
        moves.foldl (record key) (books.entries.lookup key) ↔ Replaced moves key) from both.2
  induction moves using List.reverseRecOn generalizing after with
  | nil =>
    refine ⟨fun _ same => same, iff_of_true rfl fun before rest here => ?_⟩
    simp at here
  | append_singleton moves last ih =>
    rw [play_append] at played
    obtain ⟨halfway, played, moved⟩ := Option.bind_eq_some_iff.mp played
    obtain ⟨recorded, agree⟩ := ih played
    have here := play_lookup played key
    rw [replaced_snoc, ← agree]
    simp only [List.foldl_append, List.foldl_cons, List.foldl_nil]
    cases last with
    | take other =>
      by_cases same : other = key
      · subst same
        obtain ⟨next, moved, _⟩ := Option.bind_eq_some_iff.mp moved
        obtain ⟨value, found, _⟩ := Option.map_eq_some_iff.mp moved
        rw [here] at found
        simp [settle, record, recorded value found]
      · simpa [settle, record, same] using recorded
    | put other value =>
      by_cases same : other = key
      · subst same
        simp [settle, record]
      · simpa [settle, record, same] using recorded

/-- A key that is absent and never put is never taken. -/
theorem replaced_of_absent (played : play measure limit books moves = some after) {key : K}
    (absent : books.entries.lookup key = none) (unput : ∀ value, .put key value ∉ moves) : Replaced moves key := by
  apply (settled_iff_replaced played key).mp
  rw [absent]
  clear played
  induction moves with
  | nil => rfl
  | cons first rest ih =>
    simp only [List.mem_cons, not_or] at unput
    have further := ih fun value => (unput value).2
    cases first with
    | take other => simpa [settle, record] using further
    | put other value =>
      have different : other ≠ key := fun same => (unput value).1 (congrArg (Move.put · value) same.symm)
      simpa [settle, record, different] using further

end Entries
end Books
end Klomang
