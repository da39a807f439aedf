import Klomang.Crypto.VerkleLingering

/-! What pruning does to the root of the tree with opening proofs. -/
namespace Klomang.Crypto

open Klomang.VerkleTree (keySize keyForPath key_size_eq storedNode storedValue pathStored path_stored_iff provenValue
  storageRoot storageProof Collisionless accepted_bound)
open Klomang.Crypto.VerkleTree (Operation perform fresh new_ok run_follows Lingers lingers_iff)

section Omitting
variable [Blake3] [Bandersnatch] {S : Type} [Storage S]

/-- Whether an operation is a pruning. -/
def prunes : Operation → Bool
  | .insert _ _ => false
  | .pruneKey _ => true
  | .getRoot => false
  | .generateProof _ => false
  | .calculateVerkleRoot _ _ => false

/-- The same operations with the prunings left out. -/
def unpruned (operations : List Operation) : List Operation := operations.filter fun operation => !prunes operation

omit [Bandersnatch] in
theorem after_unpruned (contents : Contents) (operations : List Operation) (operation : Operation) :
    Standing.after contents (unpruned (operations ++ [operation])) =
      if prunes operation then Standing.after contents (unpruned operations)
      else (Standing.after contents (unpruned operations)).step operation := by
  rw [unpruned, List.filter_append, ← unpruned]
  cases prune : prunes operation <;> simp [prune, Standing.after_snoc]

/-- What stands with pruning, beside what stands without. -/
structure Thinned (standing whole : Standing) : Prop where
  unpruned : whole.pruned = ∅
  inner : ∀ path : List UInt8, path.length ≠ keySize → standing.contents (keyForPath path) = whole.contents (keyForPath path)
  values : ∀ (key : Bytes32) value, storedValue standing.contents key.bytes = some value →
    storedValue whole.contents key.bytes = some value

variable {standing whole : Standing} {key other : Bytes32} {value : List UInt8}

omit [Blake3] [Bandersnatch] in
theorem Thinned.insert (thinned : Thinned standing whole) (key : Bytes32) (value : List UInt8) :
    Thinned (standing.insert key value) (whole.insert key value) where
  unpruned := by
    rw [Standing.insert, thinned.unpruned]
    rfl
  inner path inner := by
    have left := get_written (standing.dropped key) key value (keyForPath path)
    have right := get_written (whole.dropped key) key value (keyForPath path)
    have same : standing.dropped key (keyForPath path) = whole.dropped key (keyForPath path) := by
      rw [Standing.dropped_inner inner, Standing.dropped_inner inner, thinned.inner path inner]
    refine left.trans (Eq.trans ?_ right.symm)
    change (if _ then _ else if _ then (standing.dropped key (keyForPath path)).or _ else
      standing.dropped key (keyForPath path)) = _
    rw [same]
    rfl
  values other held found := by
    rw [Standing.insert] at found ⊢
    dsimp only at found ⊢
    rw [value_written] at found ⊢
    split at found
    · rename_i same
      rw [if_pos same]
      exact found
    · rename_i apart
      rw [value_dropped] at found
      rw [if_neg apart, Standing.undropped thinned.unpruned]
      split at found
      · cases found
      · exact thinned.values other held found

omit [Blake3] [Bandersnatch] in
theorem Thinned.prune (thinned : Thinned standing whole) (key : Bytes32) : Thinned (standing.prune key) whole := by
  rw [Standing.prune]
  split
  · exact ⟨thinned.unpruned, thinned.inner, thinned.values⟩
  · exact thinned

omit [Bandersnatch] in
theorem thinned_after (contents : Contents) {operations : List Operation}
    (uncleared : ∀ order utxoSet, Operation.calculateVerkleRoot order utxoSet ∉ operations) :
    Thinned (.after contents operations) (.after contents (unpruned operations)) := by
  induction operations using List.reverseRecOn with
  | nil => exact ⟨rfl, fun _ _ => rfl, fun _ _ => id⟩
  | append_singleton operations operation ih =>
    have earlier := ih fun order utxoSet member => uncleared order utxoSet (List.mem_append_left _ member)
    rw [after_unpruned, Standing.after_snoc]
    cases operation with
    | insert key value => exact earlier.insert key value
    | pruneKey key => exact earlier.prune key
    | getRoot => exact earlier
    | generateProof key => exact earlier
    | calculateVerkleRoot order utxoSet => exact absurd (by simp) (uncleared order utxoSet)

/-- Without an insertion beside a value that lingers, no value is lost. -/
theorem values_kept (storage : S) {operations : List Operation}
    (uncleared : ∀ order utxoSet, Operation.calculateVerkleRoot order utxoSet ∉ operations)
    (quiet : ∀ before key value, before ++ [.insert key value] <+: operations →
      ∀ other held, Siblings other key → ¬ Lingers (fresh storage) before other held) (key : Bytes32) :
    storedValue (Standing.after (contentsOf storage) operations).contents key.bytes =
      storedValue (Standing.after (contentsOf storage) (unpruned operations)).contents key.bytes := by
  induction operations using List.reverseRecOn with
  | nil => rfl
  | append_singleton operations operation ih =>
    have shorter : operations <+: operations ++ [operation] := List.prefix_append _ _
    have earlier : ∀ order utxoSet, Operation.calculateVerkleRoot order utxoSet ∉ operations :=
      fun order utxoSet member => uncleared order utxoSet (List.mem_append_left _ member)
    have kept := ih earlier fun before other value partly => quiet before other value (partly.trans shorter)
    have thinned := thinned_after (contentsOf storage) earlier
    rw [after_unpruned, Standing.after_snoc]
    cases operation with
    | insert other value =>
      have silent := quiet operations other value List.prefix_rfl key
      rw [prunes, if_neg Bool.false_ne_true, Standing.step, Standing.step, Standing.insert, Standing.insert]
      dsimp only
      rw [value_written, value_written, Standing.undropped thinned.unpruned, value_dropped]
      split
      · rfl
      · split
        · rename_i both
          refine (Option.eq_none_iff_forall_ne_some.mpr fun held found => ?_).symm
          refine silent held both.2 ((lingers_iff storage operations key held).mpr ⟨both.1, ?_⟩)
          rw [kept, found]
        · exact kept
    | pruneKey other =>
      rw [prunes, if_pos rfl, Standing.step, Standing.prune]
      split
      · exact kept
      · exact kept
    | getRoot => exact kept
    | generateProof other => exact kept
    | calculateVerkleRoot order utxoSet => exact absurd (by simp) (uncleared order utxoSet)

omit [Blake3] [Bandersnatch] in
/-- Without pruning an insertion keeps the values beside it. -/
theorem Thinned.value_beside (thinned : Thinned standing whole) (different : key ≠ other) (written : List UInt8) :
    storedValue (whole.insert other written).contents key.bytes = storedValue whole.contents key.bytes := by
  rw [Standing.insert]
  dsimp only
  rw [value_written, if_neg different, Standing.undropped thinned.unpruned]

/-- A pruned value that is gone from what stands, and would still be proven without pruning. -/
structure Lost (standing whole : Standing) (key : Bytes32) (value : List UInt8) : Prop where
  pruned : key ∈ standing.pruned
  gone : storedValue standing.contents key.bytes = none
  held : storedValue whole.contents key.bytes = some value
  above : pathStored whole.contents (key.bytes.take 31) = true

omit [Blake3] [Bandersnatch] in
/-- An insertion beside a pruned value loses it. -/
theorem Thinned.loses (thinned : Thinned standing whole) (pruned : key ∈ standing.pruned)
    (held : storedValue standing.contents key.bytes = some value) (siblings : Siblings key other)
    (different : key ≠ other) (written : List UInt8) :
    Lost (standing.insert other written) (whole.insert other written) key value where
  pruned := Finset.mem_erase.mpr ⟨different, pruned⟩
  gone := by
    rw [Standing.insert]
    dsimp only
    rw [value_written, if_neg different, value_dropped, if_pos ⟨pruned, siblings⟩]
  held := (thinned.value_beside different written).trans (thinned.values key value held)
  above := by
    rw [siblings]
    exact path_stored_written _ other written (.inl (List.take_prefix _ _))

omit [Blake3] [Bandersnatch] in
/-- What is lost stays lost until it is inserted again. -/
theorem Lost.insert (lost : Lost standing whole key value) (thinned : Thinned standing whole) (different : key ≠ other)
    (written : List UInt8) : Lost (standing.insert other written) (whole.insert other written) key value where
  pruned := Finset.mem_erase.mpr ⟨different, lost.pruned⟩
  gone := by
    rw [Standing.insert]
    dsimp only
    rw [value_written, if_neg different, value_dropped, lost.gone, ite_self]
  held := (thinned.value_beside different written).trans lost.held
  above := by
    rw [Standing.insert, Standing.undropped thinned.unpruned]
    exact path_stored_written _ other written (.inr lost.above)

omit [Blake3] [Bandersnatch] in
theorem Lost.prune (lost : Lost standing whole key value) (other : Bytes32) :
    Lost (standing.prune other) whole key value := by
  rw [Standing.prune]
  split
  · exact ⟨Finset.mem_insert_of_mem lost.pruned, lost.gone, lost.held, lost.above⟩
  · exact lost

/-- With what is lost, the root is lost. -/
theorem Lost.roots_differ (lost : Lost standing whole key value) (rooted : standing.Rooted) (wholeRooted : whole.Rooted)
    (collisionless : Collisionless (storageProof standing.contents key none) (storageProof whole.contents key none)) :
    storageRoot standing.contents ≠ storageRoot whole.contents := by
  intro same
  have bound := accepted_bound (rooted.accepted key) (wholeRooted.accepted key) same rfl collisionless
  change provenValue standing.contents key = provenValue whole.contents key at bound
  rw [proven_value_eq, proven_value_eq, lost.gone, ite_self, if_pos lost.above, lost.held] at bound
  cases bound

/-- In a run that inserts no pruned key again, an insertion beside a value that lingers loses it for good. -/
theorem lost_after (storage : S) (before rest : List Operation) {other : Bytes32} {written : List UInt8}
    (uncleared : ∀ order utxoSet, Operation.calculateVerkleRoot order utxoSet ∉ before ++ .insert other written :: rest)
    (unrevived : ∀ earlier key value, earlier ++ [.insert key value] <+: before ++ .insert other written :: rest →
      key ∉ (Standing.after (contentsOf storage) earlier).pruned)
    (siblings : Siblings key other) (lingers : Lingers (fresh storage) before key value) :
    Lost (.after (contentsOf storage) (before ++ .insert other written :: rest))
      (.after (contentsOf storage) (unpruned (before ++ .insert other written :: rest))) key value := by
  obtain ⟨pruned, held⟩ := (lingers_iff storage before key value).mp lingers
  induction rest using List.reverseRecOn with
  | nil =>
    have earlier : ∀ order utxoSet, Operation.calculateVerkleRoot order utxoSet ∉ before :=
      fun order utxoSet member => uncleared order utxoSet (List.mem_append_left _ member)
    have thinned := thinned_after (contentsOf storage) earlier
    have different : key ≠ other := by
      rintro rfl
      exact unrevived before key written List.prefix_rfl pruned
    rw [after_unpruned, Standing.after_snoc]
    exact thinned.loses pruned held siblings different written
  | append_singleton rest operation ih =>
    have longer : before ++ .insert other written :: (rest ++ [operation]) =
        (before ++ .insert other written :: rest) ++ [operation] := by simp
    rw [longer] at uncleared unrevived ⊢
    have shorter : before ++ .insert other written :: rest <+: (before ++ .insert other written :: rest) ++ [operation] :=
      List.prefix_append _ _
    have earlier : ∀ order utxoSet,
        Operation.calculateVerkleRoot order utxoSet ∉ before ++ .insert other written :: rest :=
      fun order utxoSet member => uncleared order utxoSet (List.mem_append_left _ member)
    have lost := ih earlier fun first key value partly => unrevived first key value (partly.trans shorter)
    have thinned := thinned_after (contentsOf storage) earlier
    rw [after_unpruned, Standing.after_snoc]
    cases operation with
    | insert last value =>
      have different : key ≠ last := by
        rintro rfl
        exact unrevived _ key value List.prefix_rfl lost.pruned
      exact lost.insert thinned different value
    | pruneKey last => exact lost.prune last
    | getRoot => exact lost
    | generateProof last => exact lost
    | calculateVerkleRoot order utxoSet => exact absurd (by simp) (uncleared order utxoSet)

/-- When no pruned key is inserted again, leaving the prunings out gives the same root exactly when no
key is inserted beside a pruned value that lingers. -/
theorem pruned_root_iff (storage : S) {start : VerkleTree S} (made : VerkleTree.new storage = .ok start)
    (operations : List Operation)
    (uncleared : ∀ order utxoSet, Operation.calculateVerkleRoot order utxoSet ∉ operations)
    (unrevived : ∀ before key value, before ++ [.insert key value] <+: operations →
      key.bytes ∉ (Runs.run perform start before).prunedKeys)
    (collisionless : ∀ key ∈ (Standing.after (contentsOf storage) operations).pruned,
      Collisionless (storageProof (Standing.after (contentsOf storage) operations).contents key none)
        (storageProof (Standing.after (contentsOf storage) (unpruned operations)).contents key none)) :
    (Runs.run perform start operations).getRoot.1 = (Runs.run perform start (unpruned operations)).getRoot.1 ↔
      ∀ before key value, before ++ [.insert key value] <+: operations →
        ∀ other held, Siblings other key → ¬ Lingers start before other held := by
  obtain rfl : fresh storage = start := Except.ok.inj ((new_ok storage).symm.trans made)
  obtain ⟨follows, rooted⟩ := run_follows storage operations
  obtain ⟨wholeFollows, wholeRooted⟩ := run_follows storage (unpruned operations)
  have thinned := thinned_after (contentsOf storage) uncleared
  rw [follows.get_root.1, wholeFollows.get_root.1]
  constructor
  · intro same before other written partly key value siblings lingers
    obtain ⟨rest, split⟩ := partly
    have shape : operations = before ++ .insert other written :: rest := by simpa using split.symm
    have unmarked : ∀ earlier key value, earlier ++ [.insert key value] <+: operations →
        key ∉ (Standing.after (contentsOf storage) earlier).pruned := by
      intro earlier key value prefixed pruned
      refine unrevived earlier key value prefixed ?_
      rw [(run_follows storage earlier).1.marks]
      exact Finset.mem_image_of_mem _ pruned
    have lost : Lost (.after (contentsOf storage) operations) (.after (contentsOf storage) (unpruned operations)) key value := by
      rw [shape] at uncleared unmarked ⊢
      exact lost_after storage before rest uncleared unmarked siblings lingers
    exact lost.roots_differ rooted wholeRooted (collisionless key lost.pruned) (Except.ok.inj same)
  · intro quiet
    have values := values_kept storage uncleared quiet
    rw [← rooted.root, ← wholeRooted.root]
    refine congrArg Except.ok (root_of_proven fun key => ?_)
    rw [proven_value_eq, proven_value_eq, path_stored_congr thinned.inner (short_parent key), values]

end Omitting

section Runs
open Weighing
open scoped Weighing

/-- A key is inserted beside one that was pruned. -/
def insertBeside : List Operation := pruneFirst ++ [.insert second [255, 1]]

theorem lists_beside : Lists (Standing.after (contentsOf (∅ : MemoryStorage)) insertBeside).contents
    [(second, [255, 1])] := by
  have siblings : Siblings first second := by decide
  rw [insertBeside, Standing.after_snoc]
  exact (prune_first_dropped siblings).written second (by decide)

theorem lists_unpruned : Lists (Standing.after (contentsOf (∅ : MemoryStorage)) (unpruned insertBeside)).contents
    [(second, [255, 1]), (first, [255])] :=
  Lists.insert lists_first rfl second (by decide)

theorem beside_collisionless :
    ∀ key ∈ (Standing.after (contentsOf (∅ : MemoryStorage)) insertBeside).pruned,
      Collisionless (storageProof (Standing.after (contentsOf (∅ : MemoryStorage)) insertBeside).contents key none)
        (storageProof (Standing.after (contentsOf (∅ : MemoryStorage)) (unpruned insertBeside)).contents key none) := by
  intro key pruned
  have only : key = first := by
    rw [insertBeside, Standing.after_snoc, after_prune_first] at pruned
    exact Finset.mem_singleton.mp (Finset.mem_of_mem_erase pruned)
  subst only
  have one : Holds (Standing.after (contentsOf (∅ : MemoryStorage)) insertBeside).contents [(second, [255, 1])] :=
    holds_lists lists_beside (by simp) (by decide) (by decide +kernel) (by decide)
  have both : Holds (Standing.after (contentsOf (∅ : MemoryStorage)) (unpruned insertBeside)).contents
      [(second, [255, 1]), (first, [255])] :=
    holds_lists lists_unpruned (by decide) (by decide) (by decide +kernel) (by decide)
  refine one.collisionless both first (.inr fun node below on also => ?_)
  exact numbers_apart (by decide +kernel) node below on also

theorem beside_uncleared (order : Enumeration OutPoint) (utxoSet : UtxoSet) :
    Operation.calculateVerkleRoot order utxoSet ∉ insertBeside := by
  simp [insertBeside, pruneFirst]

theorem beside_unrevived (before : List Operation) (key : Bytes32) (value : List UInt8)
    (partly : before ++ [.insert key value] <+: insertBeside) :
    key.bytes ∉ (Runs.run perform (fresh (∅ : MemoryStorage)) before).prunedKeys := by
  have unpruned : key ∉ (Standing.after (contentsOf (∅ : MemoryStorage)) before).pruned := by
    obtain ⟨rest, split⟩ := partly
    rcases before with _ | ⟨one, _ | ⟨two, _ | ⟨three, more⟩⟩⟩
    · exact Finset.notMem_empty key
    · simp [insertBeside, pruneFirst] at split
    · simp only [insertBeside, pruneFirst, List.cons_append, List.nil_append, List.cons.injEq] at split
      obtain ⟨rfl, rfl, last, _⟩ := split
      obtain ⟨rfl, _⟩ := Operation.insert.inj last
      have pruned : (Standing.after (contentsOf (∅ : MemoryStorage)) pruneFirst).pruned = {first} := by
        rw [after_prune_first]
      refine pruned ▸ fun member => ?_
      exact absurd (Finset.mem_singleton.mp member) (by decide)
    · have width := congrArg List.length split
      simp [insertBeside, pruneFirst] at width
  intro member
  rw [(run_follows (∅ : MemoryStorage) before).1.marks] at member
  obtain ⟨other, pruned, same⟩ := Finset.mem_image.mp member
  exact unpruned (Bytes32.ext same ▸ pruned)

/-- Without the pruning the root is another one. -/
theorem beside_roots_differ :
    (∀ order utxoSet, Operation.calculateVerkleRoot order utxoSet ∉ insertBeside) ∧
    (∀ key ∈ (Standing.after (contentsOf (∅ : MemoryStorage)) insertBeside).pruned,
      Collisionless (storageProof (Standing.after (contentsOf (∅ : MemoryStorage)) insertBeside).contents key none)
        (storageProof (Standing.after (contentsOf (∅ : MemoryStorage)) (unpruned insertBeside)).contents key none)) ∧
    ∃ start, VerkleTree.new (∅ : MemoryStorage) = .ok start ∧
      (∀ before key value, before ++ [.insert key value] <+: insertBeside →
        key.bytes ∉ (Runs.run perform start before).prunedKeys) ∧
      (Runs.run perform start insertBeside).getRoot.1 ≠ (Runs.run perform start (unpruned insertBeside)).getRoot.1 := by
  refine ⟨beside_uncleared, beside_collisionless, _, new_ok _, beside_unrevived, ?_⟩
  obtain ⟨follows, rooted⟩ := run_follows (∅ : MemoryStorage) insertBeside
  obtain ⟨wholeFollows, wholeRooted⟩ := run_follows (∅ : MemoryStorage) (unpruned insertBeside)
  have pruned : first ∈ (Standing.after (contentsOf (∅ : MemoryStorage)) insertBeside).pruned := by
    rw [insertBeside, Standing.after_snoc, after_prune_first]
    exact Finset.mem_erase.mpr ⟨by decide, Finset.mem_singleton_self first⟩
  have lost : Lost (.after (contentsOf (∅ : MemoryStorage)) insertBeside)
      (.after (contentsOf (∅ : MemoryStorage)) (unpruned insertBeside)) first [255] := by
    refine ⟨pruned, lists_beside.value first, lists_unpruned.value first, ?_⟩
    have proven := lists_unpruned.proven first
    rw [proven_value_eq] at proven
    by_contra missing
    rw [if_neg missing] at proven
    exact absurd proven (by decide)
  rw [follows.get_root.1, wholeFollows.get_root.1]
  intro same
  exact lost.roots_differ rooted wholeRooted (beside_collisionless first pruned) (Except.ok.inj same)

/-- What decides about it. -/
theorem beside_decided :
    (Runs.run perform (fresh (∅ : MemoryStorage)) insertBeside).getRoot.1 =
        (Runs.run perform (fresh (∅ : MemoryStorage)) (unpruned insertBeside)).getRoot.1 ↔
      ∀ before key value, before ++ [.insert key value] <+: insertBeside →
        ∀ other held, Siblings other key → ¬ Lingers (fresh (∅ : MemoryStorage)) before other held :=
  pruned_root_iff ∅ (new_ok _) insertBeside beside_uncleared beside_unrevived beside_collisionless

end Runs
end Klomang.Crypto
