import Klomang.Crypto.VerkleRuns
import Klomang.Crypto.VerkleValues

/-! The tree with opening proofs as a map with tombstones. The value, the tombstone and the recorded
commitments of a key are kept apart, but an insertion puts all three right: whatever the order of the calls,
a key answers after the last event in its history. -/
namespace Klomang.Crypto

open Klomang.VerkleTree (keyForPath key_for_path_injective key_off_path key_size_eq length_key serializeNode
  deserialize_serialize_node storedValue)

namespace VerkleTree

/-- What a successful operation does to a key. -/
inductive Event where
  | inserted (value : List UInt8)
  | pruned
  | cleared
  deriving DecidableEq

/-- The value of a key with such a history. -/
def held (history : List Event) : Option (List UInt8) :=
  match history.getLast? with
  | some (.inserted value) => some value
  | some .pruned | some .cleared | none => none

/-- What a map with tombstones answers for a key with such a history. -/
def answer (history : List Event) : Except CoreError (Option (List UInt8)) :=
  match history.getLast? with
  | some (.inserted value) => .ok (some value)
  | some .pruned => .error (.prunedData "Key has been pruned")
  | some .cleared | none => .ok none

/-- An inserted value has a length that its four length bytes hold. -/
def Operation.Short : Operation → Prop
  | .insert _ value => value.length < 2 ^ 32
  | .pruneKey _ | .getRoot | .generateProof _ | .calculateVerkleRoot _ _ => True

/-- What an insertion adds to the history of a key. -/
def inserts (key written : Bytes32) (value : List UInt8) : List Event :=
  if written = key then [.inserted value] else []

variable [Blake3] [Bandersnatch] {S : Type} [Storage S]

/-- What an operation adds to the history of a key. A failed pruning adds nothing. -/
def recorded (key : Bytes32) (tree : VerkleTree S) : Operation → List Event
  | .insert written value => inserts key written value
  | .pruneKey pruned =>
    match (tree.pruneKey pruned).1 with
    | .ok () => if pruned = key then [.pruned] else []
    | .error _ => []
  | .getRoot | .generateProof _ => []
  | .calculateVerkleRoot order utxoSet =>
    .cleared :: (entries order utxoSet).flatMap fun entry =>
      inserts key (utxoKey entry.1 entry.2) (Bytes.leBytes 8 entry.2.value.toNat)

end VerkleTree

open Klomang.Crypto.VerkleTree (Operation Event held answer inserts recorded entries utxoKey perform fresh new new_ok
  run_follows)

section Steps
variable {standing : Standing} {key : Bytes32} {history : List Event}

/-- What stands for a key is what its history tells. -/
structure Standing.Tracks (standing : Standing) (key : Bytes32) (history : List Event) : Prop where
  marked : key ∈ standing.pruned ↔ history.getLast? = some .pruned
  leaf : standing.stored (keyForPath key.bytes) = (held history).map fun value => serializeNode (some value)
  short : ∀ value, held history = some value → value.length < 2 ^ 32

theorem Standing.Tracks.insert (tracks : standing.Tracks key history) (written : Bytes32) {value : List UInt8}
    (short : value.length < 2 ^ 32) :
    (standing.insert written value).Tracks key (history ++ inserts key written value) := by
  have found := get_written standing.stored written value (keyForPath key.bytes)
  have marks : (standing.insert written value).pruned = standing.pruned.erase written := rfl
  by_cases same : written = key
  · subst same
    have last : (history ++ inserts written written value).getLast? = some (.inserted value) := by simp [inserts]
    have now : held (history ++ inserts written written value) = some value := by simp [held, last]
    refine ⟨?_, ?_, ?_⟩
    · simp [marks, last]
    · rw [Standing.stored_insert, now]
      rw [if_pos rfl] at found
      exact found
    · intro other there
      rw [now] at there
      exact Option.some.inj there ▸ short
  · have unchanged : history ++ inserts key written value = history := by simp [inserts, same]
    rw [unchanged]
    refine ⟨?_, ?_, tracks.short⟩
    · rw [marks, Finset.mem_erase, and_iff_right (Ne.symm same)]
      exact tracks.marked
    · rw [Standing.stored_insert, ← tracks.leaf]
      exact get_written_off standing.stored value (key_off_path (Ne.symm same))

theorem Standing.Tracks.insert_all (tracks : standing.Tracks key history) {α : Type} (items : List α)
    (written : α → Bytes32) (value : α → List UInt8) (short : ∀ item, (value item).length < 2 ^ 32) :
    (items.foldl (fun standing item => standing.insert (written item) (value item)) standing).Tracks key
      (history ++ items.flatMap fun item => inserts key (written item) (value item)) := by
  induction items generalizing standing history with
  | nil => simpa using tracks
  | cons item rest ih =>
    rw [List.foldl_cons, List.flatMap_cons, ← List.append_assoc]
    exact ih (tracks.insert (written item) (short item))

/-- A pruning succeeds for a key that is held. -/
theorem Standing.Tracks.stored (tracks : standing.Tracks key history) :
    (standing.stored (keyForPath key.bytes)).isSome = (held history).isSome := by
  rw [tracks.leaf, Option.isSome_map]

theorem Standing.Tracks.prune (tracks : standing.Tracks key history) (pruned : Bytes32)
    (present : (standing.stored (keyForPath pruned.bytes)).isSome = true) :
    (standing.prune pruned).Tracks key (history ++ if pruned = key then [.pruned] else []) := by
  have left := Standing.stored_prune standing pruned
  have marks : (standing.prune pruned).pruned = Insert.insert pruned standing.pruned := by
    rw [Standing.prune, if_pos present]
  have deleted := Storage.get_delete standing.stored (keyForPath pruned.bytes) (keyForPath key.bytes)
  rw [if_pos present] at left
  by_cases same : pruned = key
  · subst same
    have now : held (history ++ if pruned = pruned then [Event.pruned] else []) = none := by simp [held]
    refine ⟨?_, ?_, ?_⟩
    · simp [marks]
    · rw [left, now]
      rw [if_pos rfl] at deleted
      exact deleted
    · intro other there
      rw [now] at there
      cases there
  · rw [if_neg same, List.append_nil]
    refine ⟨?_, ?_, tracks.short⟩
    · rw [marks, Finset.mem_insert, or_iff_right (Ne.symm same)]
      exact tracks.marked
    · rw [left, ← tracks.leaf]
      rw [if_neg fun equal => same (Bytes32.ext (key_for_path_injective equal)).symm] at deleted
      exact deleted

/-- Nothing stands once a tree is cleared. -/
theorem Standing.tracks_nothing (key : Bytes32) (history : List Event) :
    (⟨fun _ => none, ∅⟩ : Standing).Tracks key (history ++ [.cleared]) := by
  have now : held (history ++ [.cleared]) = none := by simp [held]
  refine ⟨by simp, ?_, ?_⟩
  · rw [now]
    exact ite_self _
  · intro value there
    rw [now] at there
    cases there

theorem Standing.tracks_start {contents : Contents} (unwritten : contents (keyForPath key.bytes) = none) :
    (Standing.start contents).Tracks key [] := by
  have below : keyForPath key.bytes ≠ keyForPath [] := by
    intro same
    have width := congrArg List.length (key_for_path_injective same)
    rw [length_key, key_size_eq] at width
    cases width
  have unpruned : key ∉ (Standing.start contents).pruned := Finset.notMem_empty key
  refine ⟨by simp [unpruned], ?_, fun _ absurdity => absurd absurdity (Option.some_ne_none _).symm⟩
  have found := get_ensured contents [] (keyForPath key.bytes)
  rw [if_neg below] at found
  exact (Standing.stored_unpruned unpruned).trans (found.trans unwritten)

/-- What is held is what is answered. -/
theorem held_iff : (held history).isSome = true ↔ ∃ value, answer history = .ok (some value) := by
  rw [held, answer]
  cases history.getLast? with
  | none => simp
  | some event => cases event <;> simp

variable [Blake3] [Bandersnatch] {S : Type} [Storage S] {tree : VerkleTree S}

theorem Standing.Tracks.step (tracks : standing.Tracks key history) (follows : tree.Follows standing)
    {operation : Operation} (short : operation.Short) :
    (standing.step operation).Tracks key (history ++ recorded key tree operation) := by
  cases operation with
  | insert written value => exact tracks.insert written short
  | pruneKey pruned =>
    have succeeds := (follows.prune_key pruned).1
    rw [Standing.step, recorded]
    cases outcome : (tree.pruneKey pruned).1 with
    | ok done => exact tracks.prune pruned (succeeds.mp outcome)
    | error abort =>
      have missing : ¬ (standing.stored (keyForPath pruned.bytes)).isSome = true := by
        intro present
        rw [succeeds.mpr present] at outcome
        cases outcome
      rw [Standing.prune, if_neg missing, List.append_nil]
      exact tracks
  | getRoot =>
    rw [recorded, List.append_nil]
    exact tracks
  | generateProof asked =>
    rw [recorded, List.append_nil]
    exact tracks
  | calculateVerkleRoot order utxoSet =>
    rw [recorded, List.append_cons]
    refine (Standing.tracks_nothing key history).insert_all _ _ _ fun entry => ?_
    rw [Bytes.length_leBytes]
    decide

theorem Standing.Tracks.get (tracks : standing.Tracks key history) (follows : tree.Follows standing) :
    tree.get key = answer history := by
  have value : storedValue standing.stored key.bytes = held history := by
    refine (stored_value_eq tracks.leaf).trans ?_
    cases now : held history with
    | none => rfl
    | some value => exact congrArg Option.join (deserialize_serialize_node (tracks.short value now))
  rw [VerkleTree.get, follows.node_value, value]
  simp only [follows.marked, tracks.marked]
  rw [held, answer]
  cases history.getLast? with
  | none => rfl
  | some event => cases event <;> rfl

end Steps

section Runs
variable [Blake3] [Bandersnatch] {S : Type} [Storage S] {storage : S} {key : Bytes32} {operations : List Operation}

/-- After every run, what stands for a key is what its history tells. -/
theorem run_tracks (unwritten : Storage.get storage (keyForPath key.bytes) = none)
    (short : ∀ operation ∈ operations, operation.Short) :
    (Standing.after (contentsOf storage) operations).Tracks key
      (Runs.gather perform (recorded key) (fresh storage) operations) := by
  induction operations using List.reverseRecOn with
  | nil => exact Standing.tracks_start unwritten
  | append_singleton operations operation ih =>
    rw [Standing.after_snoc, Runs.gather_snoc]
    have earlier := ih fun other member => short other (List.mem_append_left _ member)
    exact earlier.step (run_follows storage operations).1 (short operation (by simp))

/-- A new tree answers for every key that its storage does not hold like a map with tombstones, and a key can be
pruned exactly when it has a value. -/
theorem map_with_tombstones (storage : S) (key : Bytes32) (unwritten : Storage.get storage (keyForPath key.bytes) = none)
    (short : ∀ operation ∈ operations, operation.Short) :
    ∃ start, new storage = .ok start ∧
      (Runs.run perform start operations).get key = answer (Runs.gather perform (recorded key) start operations) ∧
      (((Runs.run perform start operations).pruneKey key).1 = .ok () ↔
        ∃ value, (Runs.run perform start operations).get key = .ok (some value)) := by
  have tracks := run_tracks unwritten short
  have follows := (run_follows storage operations).1
  refine ⟨fresh storage, new_ok storage, tracks.get follows, ?_⟩
  rw [(follows.prune_key key).1, tracks.stored, held_iff, tracks.get follows]

end Runs

section Again
open scoped Counting

/-- A key that is inserted again after its pruning has its new value. -/
theorem inserted_again_answered :
    ∃ start, new (∅ : MemoryStorage) = .ok start ∧
      (Runs.run perform start [.insert (.replicate 7) [1], .pruneKey (.replicate 7)]).get (.replicate 7) =
        .error (.prunedData "Key has been pruned") ∧
      (Runs.run perform start [.insert (.replicate 7) [1], .pruneKey (.replicate 7), .insert (.replicate 7) [2]]).get
        (.replicate 7) = .ok (some [2]) := by
  have unwritten : Storage.get (∅ : MemoryStorage) (keyForPath (Bytes32.replicate 7).bytes) = none := Finmap.lookup_empty _
  have histories := fun (operations : List Operation) (short : ∀ operation ∈ operations, operation.Short) =>
    map_with_tombstones (∅ : MemoryStorage) (.replicate 7) unwritten short
  obtain ⟨start, made, held, prunes⟩ := histories [.insert (.replicate 7) [1]] (by simp [Operation.Short])
  obtain ⟨_, also, gone, _⟩ := histories [.insert (.replicate 7) [1], .pruneKey (.replicate 7)] (by simp [Operation.Short])
  obtain ⟨_, again, back, _⟩ := histories [.insert (.replicate 7) [1], .pruneKey (.replicate 7), .insert (.replicate 7) [2]]
    (by simp [Operation.Short])
  rw [made] at also again
  cases also
  cases again
  have succeeds : ((start.perform (.insert (.replicate 7) [1])).pruneKey (.replicate 7)).1 = .ok () :=
    prunes.mpr ⟨[1], held.trans (by simp [Runs.gather, recorded, inserts, answer])⟩
  refine ⟨start, made, gone.trans ?_, back.trans ?_⟩
  · simp [Runs.gather, recorded, inserts, answer, succeeds]
  · simp [Runs.gather, recorded, inserts, answer, succeeds]

end Again
end Klomang.Crypto
