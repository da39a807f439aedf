import Klomang.Crypto.VerkleStanding

/-! The caches and records of the tree with opening proofs. Whatever they hold, every node has one
true commitment: the recorded one, or else what the standing contents commit to. -/
namespace Klomang.Crypto.VerkleTree

open Bandersnatch (ScalarField)
open Klomang.VerkleTree (keySize verkleRadix childIndices keyForPath key_for_path_injective key_off_path
  key_on_path_iff key_size_eq length_key length_child_indices getElem?_empty_roots storedNode storedValue commitmentRootHash rootScalar leafScalar
  committed emptyRoot emptyRoots commitmentAt commitment_at_leaf commitment_at_inner storageRoot empty_constants_ok
  computeEmptySubtreeConstants)

variable [Blake3] [Bandersnatch] {S : Type} [Storage S] {tree : VerkleTree S} {truth : List UInt8 → Commitment}
  {path : List UInt8}

section Computing

/-- A clean cached commitment is the true one. -/
def Repeats (truth : List UInt8 → Commitment) (nodeKey : List UInt8) (node : CachedNode) : Prop :=
  node.dirty = false → ∀ commitment, node.commitment = some commitment →
    ∀ path, nodeKey = keyForPath path → commitment = truth path

/-- What is recorded is true, and what is not recorded is computed from true children. -/
structure Tells (tree : VerkleTree S) (truth : List UInt8 → Commitment) : Prop where
  generators : tree.pc = .new verkleRadix
  scalars : tree.emptySubtreeScalars = (emptyRoots keySize).map rootScalar
  recorded : ∀ path commitment, tree.prunedCommitments.lookup (keyForPath path) = some commitment →
    commitment = truth path
  leaf : ∀ path, path.length = keySize → tree.prunedCommitments.lookup (keyForPath path) = none →
    truth path = committed [leafScalar (tree.getNodeValue path)]
  inner : ∀ path levels, path.length + (levels + 1) = keySize →
    tree.prunedCommitments.lookup (keyForPath path) = none →
    truth path = committed (childIndices.map fun child =>
      if tree.nodeExists (path ++ [child]) then rootScalar (commitmentRootHash (truth (path ++ [child])))
      else rootScalar (emptyRoot levels))

theorem Tells.empty_scalar (tells : tree.Tells truth) {levels : Nat} (below : levels < keySize) :
    tree.emptySubtreeScalar (keySize - levels) = rootScalar (emptyRoot levels) := by
  rw [emptySubtreeScalar, tells.scalars, List.getD_eq_getElem?_getD, List.getElem?_map,
    getElem?_empty_roots (by omega), Option.map_some, Option.getD_some,
    show keySize - (keySize - levels) = levels by omega]

theorem Tells.expect_commit (tells : tree.Tells truth) {coeffs : List ScalarField}
    (fits : coeffs.length ≤ verkleRadix) : expectCommit tree.pc coeffs = .ok (committed coeffs) := by
  rw [expectCommit, tells.generators, PolynomialCommitment.commit_ok verkleRadix fits]
  rfl

/-- What is known of a node is true. -/
theorem Tells.ends_known (tells : tree.Tells truth) {β : Type} {next : Option Commitment → Caching β}
    {outcome : Except (Abort CoreError) β} (answered : Memo.Ends (Repeats truth) (next (some (truth path))) outcome)
    (unknown : tree.prunedCommitments.lookup (keyForPath path) = none →
      Memo.Ends (Repeats truth) (next none) outcome) :
    Memo.Ends (Repeats truth) (tree.known path >>= next) outcome := by
  intro table keeps
  have looked : (tree.known path).on table = (.ok (some (truth path)), table) ∨
      tree.prunedCommitments.lookup (keyForPath path) = none ∧ (tree.known path).on table = (.ok none, table) := by
    have recorded : (.ok (tree.prunedCommitments.lookup (keyForPath path)), table) =
          ((.ok (some (truth path)), table) : Except (Abort CoreError) (Option Commitment) × _) ∨
        tree.prunedCommitments.lookup (keyForPath path) = none ∧
          (.ok (tree.prunedCommitments.lookup (keyForPath path)), table) =
            ((.ok none, table) : Except (Abort CoreError) (Option Commitment) × _) := by
      cases found : tree.prunedCommitments.lookup (keyForPath path) with
      | none => exact .inr ⟨rfl, rfl⟩
      | some commitment => exact .inl (by rw [tells.recorded path commitment found])
    rw [known, Memo.on_bind, Memo.on_remembered]
    rcases cached : table.lookup (keyForPath path) with _ | ⟨_ | commitment, _ | _⟩
    · exact recorded
    · exact recorded
    · exact recorded
    · exact .inl (congrArg (fun found => (Except.ok (some found), table))
        (keeps _ _ cached rfl commitment rfl path rfl))
    · exact recorded
  rw [Memo.on_bind]
  rcases looked with found | ⟨missing, found⟩
  · rw [found]
    exact answered table keeps
  · rw [found]
    exact unknown missing table keeps

theorem Tells.ends_get_node (tells : tree.Tells truth) {compute : Caching Commitment}
    (computed : tree.prunedCommitments.lookup (keyForPath path) = none →
      Memo.Ends (Repeats truth) compute (.ok (truth path))) :
    Memo.Ends (Repeats truth) (tree.getNode path compute) (.ok (truth path)) := by
  refine tells.ends_known (Memo.ends_pure _) fun unrecorded => ?_
  refine (computed unrecorded).bind ((Memo.ends_remember ?_).bind (Memo.ends_pure _))
  rintro - commitment ⟨⟩ other same
  rw [key_for_path_injective same]

theorem Tells.ends_compute_node (tells : tree.Tells truth) {compute : Caching Commitment}
    (computed : tree.prunedCommitments.lookup (keyForPath path) = none →
      Memo.Ends (Repeats truth) compute (.ok (truth path))) :
    Memo.Ends (Repeats truth) (tree.computeNode path compute) (.ok (truth path)) :=
  tells.ends_known (Memo.ends_pure _) computed

/-- The scalars of the children of a node. -/
def trueScalars (tree : VerkleTree S) (truth : List UInt8 → Commitment) (levels : Nat) (path : List UInt8) :
    List ScalarField :=
  childIndices.map fun child =>
    if tree.nodeExists (path ++ [child]) then rootScalar (commitmentRootHash (truth (path ++ [child])))
    else rootScalar (emptyRoot levels)

theorem Tells.ends_child_scalars (tells : tree.Tells truth) {levels : Nat} (below : levels < keySize)
    {find : List UInt8 → Caching Commitment}
    (found : ∀ child, Memo.Ends (Repeats truth) (find (path ++ [child])) (.ok (truth (path ++ [child])))) :
    Memo.Ends (Repeats truth) (tree.childScalars levels path find) (.ok (tree.trueScalars truth levels path)) := by
  refine Memo.ends_mapM _ fun child _ => ?_
  by_cases there : tree.nodeExists (path ++ [child]) = true
  · simp only [if_pos there]
    exact (found child).bind (Memo.ends_pure _)
  · simp only [if_neg there]
    rw [tells.empty_scalar below]
    exact Memo.ends_pure _

/-- Computing a node gives its true commitment. -/
theorem Tells.ends_compute (tells : tree.Tells truth) (levels : Nat) (path : List UInt8)
    (depth : path.length + levels = keySize) :
    Memo.Ends (Repeats truth) (tree.computeNodeCommitment levels path) (.ok (truth path)) := by
  induction levels generalizing path with
  | zero =>
    refine tells.ends_compute_node fun unrecorded => ?_
    rw [tells.expect_commit (by simp [verkleRadix]), ← tells.leaf path depth unrecorded]
    exact Memo.ends_ofExcept _
  | succ levels ih =>
    refine tells.ends_compute_node fun unrecorded => ?_
    refine (tells.ends_child_scalars (by omega) fun child => ?_).bind ?_
    · exact tells.ends_get_node fun _ => ih _ (by rw [List.length_append, List.length_singleton]; omega)
    · rw [tells.expect_commit (by simp [trueScalars]), trueScalars, ← tells.inner path levels depth unrecorded]
      exact Memo.ends_ofExcept _

theorem Tells.ends_get (tells : tree.Tells truth) {levels : Nat} (depth : path.length + levels = keySize) :
    Memo.Ends (Repeats truth) (tree.getNodeCommitment levels path) (.ok (truth path)) :=
  tells.ends_get_node fun _ => tells.ends_compute levels path depth

theorem Tells.ends_root_hash (tells : tree.Tells truth) {levels : Nat} (depth : path.length + levels = keySize) :
    Memo.Ends (Repeats truth) (tree.computeNodeRootHash levels path) (.ok (commitmentRootHash (truth path))) :=
  (tells.ends_get depth).bind (Memo.ends_pure _)

/-- Recording a true commitment keeps everything true. -/
theorem Tells.record (tells : tree.Tells truth) (commitmentCache : FiniteMap (List UInt8) CachedNode)
    (path : List UInt8) :
    Tells { tree with
      commitmentCache
      prunedCommitments := tree.prunedCommitments.insert (keyForPath path) (truth path) } truth := by
  have less : ∀ other, Finmap.lookup (keyForPath other) (tree.prunedCommitments.insert (keyForPath path) (truth path)) =
      none → tree.prunedCommitments.lookup (keyForPath other) = none := by
    intro other missing
    rw [FiniteMap.lookup_insert_ite] at missing
    split at missing
    · cases missing
    · exact missing
  refine ⟨tells.generators, tells.scalars, fun other commitment found => ?_, fun other depth missing => ?_,
    fun other levels depth missing => ?_⟩
  · dsimp only at found
    rw [FiniteMap.lookup_insert_ite] at found
    split at found
    · rename_i same
      rw [key_for_path_injective same]
      exact (Option.some.inj found).symm
    · exact tells.recorded other commitment found
  · exact tells.leaf other depth (less other missing)
  · exact tells.inner other levels depth (less other missing)

/-- Recording a path changes the cache and the records only: every node on the path gets its true
commitment. -/
theorem Tells.record_path (tells : tree.Tells truth) (paths : List (List UInt8))
    (within : ∀ path ∈ paths, path.length ≤ keySize) (keeps : Memo.Keeps (Repeats truth) tree.commitmentCache) :
    ∃ commitmentCache, Memo.Keeps (Repeats truth) commitmentCache ∧
      tree.recordPath paths = (.ok (), { tree with
        commitmentCache
        prunedCommitments := paths.foldl (fun records path => records.insert (keyForPath path) (truth path))
          tree.prunedCommitments }) := by
  induction paths generalizing tree with
  | nil => exact ⟨tree.commitmentCache, keeps, rfl⟩
  | cons path rest ih =>
    have short := within path List.mem_cons_self
    have depth : path.length + (keySize - path.length) = keySize := by omega
    obtain ⟨table, ran, kept⟩ := tells.ends_get depth tree.commitmentCache keeps
    obtain ⟨commitmentCache, still, finished⟩ := ih (tells.record table path)
      (fun other member => within other (List.mem_cons_of_mem _ member)) kept
    refine ⟨commitmentCache, still, ?_⟩
    rw [recordPath, ran]
    exact finished

end Computing

section Following

/-- What every node commits to: its record, or else the contents at it. -/
def trueCommitment (tree : VerkleTree S) (contents : Contents) (path : List UInt8) : Commitment :=
  (tree.prunedCommitments.lookup (keyForPath path)).getD (commitmentAt contents path)

/-- A tree whose root commits to the standing contents. -/
structure Follows (tree : VerkleTree S) (standing : Standing) : Prop where
  generators : tree.pc = .new verkleRadix
  roots : tree.emptySubtreeRoots = emptyRoots keySize
  scalars : tree.emptySubtreeScalars = (emptyRoots keySize).map rootScalar
  storage : contentsOf tree.storage = standing.stored
  marks : tree.prunedKeys = standing.pruned.image Bytes32.bytes
  /-- Inner nodes are recorded as they stand. -/
  recorded : ∀ path commitment, path.length ≠ keySize →
    tree.prunedCommitments.lookup (keyForPath path) = some commitment →
    commitment = commitmentAt standing.contents path
  /-- Of the leaves only pruned ones are recorded. -/
  pruned : ∀ (key : Bytes32) commitment, tree.prunedCommitments.lookup (keyForPath key.bytes) = some commitment →
    key ∈ standing.pruned
  /-- A pruned leaf that stands is recorded with the node above it. -/
  stands : ∀ key ∈ standing.pruned, standing.contents (keyForPath key.bytes) ≠ none →
    tree.prunedCommitments.lookup (keyForPath key.bytes) = some (commitmentAt standing.contents key.bytes) ∧
      tree.prunedCommitments.lookup (keyForPath (key.bytes.take 31)) ≠ none
  unkeyed : tree.prunedCommitments.lookup [] = none
  cache : Memo.Keeps (Repeats (tree.trueCommitment standing.contents)) tree.commitmentCache
  cachedRoot : ∀ root, tree.rootCache = some root → root = storageRoot standing.contents

variable {standing : Standing} {key : Bytes32}

theorem Follows.truth_inner (follows : tree.Follows standing) (inner : path.length ≠ keySize) :
    tree.trueCommitment standing.contents path = commitmentAt standing.contents path := by
  rw [trueCommitment]
  cases found : tree.prunedCommitments.lookup (keyForPath path) with
  | none => rfl
  | some commitment => exact follows.recorded path commitment inner found

theorem Follows.truth_unpruned (follows : tree.Follows standing) (unpruned : key ∉ standing.pruned) :
    tree.trueCommitment standing.contents key.bytes = commitmentAt standing.contents key.bytes := by
  rw [trueCommitment]
  cases found : tree.prunedCommitments.lookup (keyForPath key.bytes) with
  | none => rfl
  | some commitment => exact absurd (follows.pruned key commitment found) unpruned

theorem Follows.node_exists (follows : tree.Follows standing) (path : List UInt8) :
    tree.nodeExists path = (standing.stored (keyForPath path)).isSome :=
  congrArg (fun contents : Contents => (contents (keyForPath path)).isSome) follows.storage

theorem Follows.node_value (follows : tree.Follows standing) (path : List UInt8) :
    tree.getNodeValue path = storedValue standing.stored path := by
  have value : storedValue tree.storage path = storedValue standing.stored path :=
    congrArg (fun contents : Contents => ((contents (keyForPath path)).bind Klomang.VerkleTree.deserializeNode).join)
      follows.storage
  rw [getNodeValue, value, follows.marks]
  split
  · rename_i pruned
    obtain ⟨key, member, rfl⟩ := Finset.mem_image.mp pruned.2
    exact (stored_value_none (Standing.stored_pruned member)).symm
  · rfl

/-- The marked paths are those of the pruned keys. -/
theorem Follows.marked (follows : tree.Follows standing) (key : Bytes32) :
    key.bytes ∈ tree.prunedKeys ↔ key ∈ standing.pruned := by
  rw [follows.marks, Finset.mem_image]
  constructor
  · rintro ⟨other, member, same⟩
    exact Bytes32.ext same ▸ member
  · exact fun member => ⟨key, member, rfl⟩

/-- Recorded or computed, a node's commitment is the true one. -/
theorem Follows.tells (follows : tree.Follows standing) : tree.Tells (tree.trueCommitment standing.contents) where
  generators := follows.generators
  scalars := follows.scalars
  recorded path commitment found := by rw [trueCommitment, found, Option.getD_some]
  leaf path depth unrecorded := by
    obtain ⟨key, rfl⟩ := Standing.exists_key depth
    rw [trueCommitment, unrecorded, Option.getD_none, commitment_at_leaf _ depth, follows.node_value]
    congr 3
    have same : standing.stored (keyForPath key.bytes) = standing.contents (keyForPath key.bytes) := by
      by_cases pruned : key ∈ standing.pruned
      · rw [Standing.stored_pruned pruned]
        by_contra stands
        rw [(follows.stands key pruned (Ne.symm stands)).1] at unrecorded
        cases unrecorded
      · exact Standing.stored_unpruned pruned
    exact stored_value_congr same.symm
  inner path levels depth unrecorded := by
    have inner : path.length ≠ keySize := by omega
    rw [follows.truth_inner inner, commitment_at_inner _ depth]
    congr 1
    refine List.map_congr_left fun child _ => ?_
    have width : (path ++ [child]).length = path.length + 1 := by simp
    rw [follows.node_exists]
    by_cases leaf : (path ++ [child]).length = keySize
    · obtain ⟨key, same⟩ := Standing.exists_key leaf
      have parent : key.bytes.take 31 = path := by rw [← same, Standing.take_snoc (by omega)]
      by_cases pruned : key ∈ standing.pruned
      · -- a pruned leaf under an unrecorded node does not stand
        have gone : standing.contents (keyForPath key.bytes) = none := by
          by_contra stands
          have above := (follows.stands key pruned stands).2
          rw [parent] at above
          exact above unrecorded
        have absent : storedNode standing.contents key.bytes = false := congrArg Option.isSome gone
        rw [same, Standing.stored_pruned pruned, absent]
        rfl
      · rw [same, Standing.stored_unpruned pruned, follows.truth_unpruned pruned]
        rfl
    · rw [Standing.stored_inner leaf, follows.truth_inner leaf]
      rfl

/-- Nothing but the caches changes. -/
theorem Follows.recached (follows : tree.Follows standing) {commitmentCache : FiniteMap (List UInt8) CachedNode}
    (keeps : Memo.Keeps (Repeats (tree.trueCommitment standing.contents)) commitmentCache) {rootCache : Option Hash}
    (rooted : ∀ root, rootCache = some root → root = storageRoot standing.contents) :
    Follows { tree with commitmentCache, rootCache } standing :=
  { follows with cache := keeps, cachedRoot := rooted }

/-- The root is that of the standing contents. -/
theorem Follows.get_root (follows : tree.Follows standing) :
    tree.getRoot.1 = .ok (storageRoot standing.contents) ∧ tree.getRoot.2.Follows standing := by
  rw [getRoot]
  cases cached : tree.rootCache with
  | some root => exact ⟨congrArg Except.ok (follows.cachedRoot root cached), follows⟩
  | none =>
    have depth : ([] : List UInt8).length + keySize = keySize := Nat.zero_add _
    obtain ⟨later, ran, kept⟩ := follows.tells.ends_root_hash depth tree.commitmentCache follows.cache
    have top : commitmentRootHash (tree.trueCommitment standing.contents []) = storageRoot standing.contents := by
      have inner : ([] : List UInt8).length ≠ keySize := by
        rw [key_size_eq]
        decide
      rw [follows.truth_inner inner, storageRoot]
    rw [top] at ran
    dsimp only
    rw [ran]
    exact ⟨rfl, follows.recached kept fun root same => (Option.some.inj same).symm⟩

end Following

section Steps
variable {standing : Standing} {key : Bytes32}

theorem ensure_node_eq (tree : VerkleTree S) (path : List UInt8) :
    tree.ensureNode path = { tree with storage := ensured tree.storage path } := by
  rw [ensureNode, ensured]
  split <;> rfl

theorem ensure_all_eq (paths : List (List UInt8)) (tree : VerkleTree S) :
    paths.foldl ensureNode tree = { tree with storage := paths.foldl ensured tree.storage } := by
  induction paths generalizing tree with
  | nil => rfl
  | cons path rest ih => rw [List.foldl_cons, ih, ensure_node_eq, List.foldl_cons]

/-- What `insert` changes. -/
theorem insert_eq (tree : VerkleTree S) (key : Bytes32) (value : List UInt8) :
    tree.insert key value = { tree with
      storage := written tree.storage key value
      commitmentCache := key.bytes.inits.foldl soil tree.commitmentCache
      rootCache := none
      prunedKeys := tree.prunedKeys.erase key.bytes
      prunedCommitments := key.bytes.inits.foldl (fun commitments path => commitments.erase (keyForPath path))
        tree.prunedCommitments } := by
  rw [insert, ensure_all_eq]
  rfl

theorem lookup_erase_paths (paths : List (List UInt8)) (records : FiniteMap (List UInt8) Commitment)
    (raw : List UInt8) :
    (paths.foldl (fun commitments path => commitments.erase (keyForPath path)) records).lookup raw =
      if ∃ path ∈ paths, raw = keyForPath path then none else records.lookup raw := by
  induction paths generalizing records with
  | nil => simp
  | cons path rest ih =>
    rw [List.foldl_cons, ih, FiniteMap.lookup_erase_ite]
    by_cases here : raw = keyForPath path <;> simp [here]

theorem lookup_insert_paths (value : List UInt8 → Commitment) (paths : List (List UInt8))
    (records : FiniteMap (List UInt8) Commitment) (path : List UInt8) :
    (paths.foldl (fun records path => records.insert (keyForPath path) (value path)) records).lookup
        (keyForPath path) = if path ∈ paths then some (value path) else records.lookup (keyForPath path) := by
  induction paths generalizing records with
  | nil => simp
  | cons first rest ih =>
    rw [List.foldl_cons, ih, FiniteMap.lookup_insert_ite]
    by_cases here : path = first
    · subst here
      simp
    · have apart : keyForPath path ≠ keyForPath first := fun same => here (key_for_path_injective same)
      simp [here, apart]

theorem lookup_insert_paths_untagged (value : List UInt8 → Commitment) (paths : List (List UInt8))
    (records : FiniteMap (List UInt8) Commitment) :
    (paths.foldl (fun records path => records.insert (keyForPath path) (value path)) records).lookup [] =
      records.lookup [] := by
  induction paths generalizing records with
  | nil => rfl
  | cons path rest ih =>
    have tagged : [] ≠ keyForPath path := (List.cons_ne_nil _ _).symm
    rw [List.foldl_cons, ih, FiniteMap.lookup_insert_ite, if_neg tagged]

/-- An insertion forgets the records on its path. -/
theorem lookup_insert_records (tree : VerkleTree S) (key : Bytes32) (value path : List UInt8) :
    (tree.insert key value).prunedCommitments.lookup (keyForPath path) =
      if path <+: key.bytes then none else tree.prunedCommitments.lookup (keyForPath path) := by
  have on_path : (∃ other ∈ key.bytes.inits, keyForPath path = keyForPath other) ↔ path <+: key.bytes := by
    rw [← List.mem_inits]
    constructor
    · rintro ⟨other, member, same⟩
      rwa [key_for_path_injective same]
    · exact fun member => ⟨path, member, rfl⟩
  rw [insert_eq]
  dsimp only
  rw [lookup_erase_paths]
  exact if_congr on_path rfl rfl

/-- What is recorded after an insertion was recorded before it, off its path. -/
theorem recorded_before_insert {key : Bytes32} {value path : List UInt8} {commitment : Commitment}
    (found : (tree.insert key value).prunedCommitments.lookup (keyForPath path) = some commitment) :
    ¬ path <+: key.bytes ∧ tree.prunedCommitments.lookup (keyForPath path) = some commitment := by
  rw [lookup_insert_records] at found
  split at found
  · cases found
  · rename_i off
    exact ⟨off, found⟩

theorem lookup_soil (cache : FiniteMap (List UInt8) CachedNode) (path raw : List UInt8) :
    (soil cache path).lookup raw =
      if raw = keyForPath path then (cache.lookup raw).map fun cached => { cached with dirty := true }
      else cache.lookup raw := by
  rw [soil]
  cases found : cache.lookup (keyForPath path) with
  | none =>
    dsimp only
    split
    · rename_i same
      rw [same, found]
      rfl
    · rfl
  | some cached =>
    dsimp only
    rw [FiniteMap.lookup_insert_ite]
    split
    · rename_i same
      rw [same, found]
      rfl
    · rfl

/-- What is still clean was clean before, and is on none of the paths. -/
theorem clean_of_soiled {paths : List (List UInt8)} {cache : FiniteMap (List UInt8) CachedNode} {raw : List UInt8}
    {node : CachedNode} (found : (paths.foldl soil cache).lookup raw = some node) (clean : node.dirty = false) :
    cache.lookup raw = some node ∧ ∀ path ∈ paths, raw ≠ keyForPath path := by
  induction paths generalizing cache with
  | nil => exact ⟨found, fun _ member => absurd member List.not_mem_nil⟩
  | cons first rest ih =>
    obtain ⟨before, off⟩ := ih found
    rw [lookup_soil] at before
    split at before
    · obtain ⟨cached, _, rfl⟩ := Option.map_eq_some_iff.mp before
      cases clean
    · rename_i apart
      refine ⟨before, fun path member => ?_⟩
      rcases List.mem_cons.mp member with rfl | later
      · exact apart
      · exact off path later

/-- A soiled cache repeats what has become true, as long as it has changed on the soiled paths only. -/
theorem keeps_soiled {cache : FiniteMap (List UInt8) CachedNode} {truth later : List UInt8 → Commitment}
    (keeps : Memo.Keeps (Repeats truth) cache) {paths : List (List UInt8)}
    (same : ∀ path, path ∉ paths → later path = truth path) :
    Memo.Keeps (Repeats later) (paths.foldl soil cache) := by
  intro raw node found clean commitment cached path spelled
  obtain ⟨before, off⟩ := clean_of_soiled found clean
  have outside : path ∉ paths := fun member => off path member spelled
  rw [same path outside]
  exact keeps raw node before clean commitment cached path spelled

/-- What `new` builds. -/
def fresh (storage : S) : VerkleTree S :=
  { storage := ensured storage [], pc := .new verkleRadix, commitmentCache := ∅
    emptySubtreeRoots := emptyRoots keySize, emptySubtreeScalars := (emptyRoots keySize).map rootScalar
    rootCache := none, prunedKeys := ∅, prunedCommitments := ∅ }

theorem new_ok (storage : S) : new storage = .ok (fresh storage) := by
  rw [new, computeEmptySubtreeConstants, empty_constants_ok]
  dsimp only
  rw [ensure_node_eq]
  rfl

/-- A tree without records and marks. -/
theorem follows_unpruned {contents : Contents} (generators : tree.pc = .new verkleRadix)
    (roots : tree.emptySubtreeRoots = emptyRoots keySize)
    (scalars : tree.emptySubtreeScalars = (emptyRoots keySize).map rootScalar)
    (storage : contentsOf tree.storage = contents) (marks : tree.prunedKeys = ∅)
    (records : tree.prunedCommitments = ∅) (cache : tree.commitmentCache = ∅) (uncached : tree.rootCache = none) :
    tree.Follows ⟨contents, ∅⟩ where
  generators := generators
  roots := roots
  scalars := scalars
  storage := by
    rw [storage]
    funext raw
    exact (if_neg (by simp)).symm
  marks := marks
  recorded path commitment _ found := by
    rw [records, Finmap.lookup_empty] at found
    cases found
  pruned key commitment found := by
    rw [records, Finmap.lookup_empty] at found
    cases found
  stands key pruned := absurd pruned (Finset.notMem_empty key)
  unkeyed := by rw [records, Finmap.lookup_empty]
  cache := by
    rw [cache]
    exact Memo.keeps_empty _
  cachedRoot root cached := by
    rw [uncached] at cached
    cases cached

theorem fresh_follows (storage : S) : (fresh storage).Follows (.start (contentsOf storage)) := by
  refine follows_unpruned rfl rfl rfl ?_ rfl rfl rfl rfl
  funext raw
  have left := get_ensured storage [] raw
  have right := get_ensured (contentsOf storage) [] raw
  exact left.trans right.symm

/-- Clearing forgets everything. -/
theorem Follows.cleared (follows : tree.Follows standing) : tree.cleared.Follows ⟨fun _ => none, ∅⟩ := by
  refine follows_unpruned follows.generators follows.roots follows.scalars ?_ rfl rfl rfl rfl
  funext raw
  exact Storage.get_clear tree.storage raw

theorem lookup_insert_off (tree : VerkleTree S) (key : Bytes32) (value : List UInt8) {path : List UInt8}
    (off : ¬ path <+: key.bytes) : (tree.insert key value).prunedCommitments.lookup (keyForPath path) =
      tree.prunedCommitments.lookup (keyForPath path) := by
  rw [lookup_insert_records, if_neg off]

/-- A pruned leaf that an insert leaves standing is no sibling of the written key, so its record and the one above it
are kept. -/
theorem Follows.stands_after_insert (follows : tree.Follows standing) (key : Bytes32) (value : List UInt8)
    {other : Bytes32} (pruned : other ∈ standing.pruned) (different : other ≠ key)
    (stands : (standing.insert key value).contents (keyForPath other.bytes) ≠ none) :
    (tree.insert key value).prunedCommitments.lookup (keyForPath other.bytes) =
        some (commitmentAt (standing.insert key value).contents other.bytes) ∧
      (tree.insert key value).prunedCommitments.lookup (keyForPath (other.bytes.take 31)) ≠ none := by
  have off : ¬ other.bytes <+: key.bytes := key_off_path different
  have before : standing.dropped key (keyForPath other.bytes) ≠ none := by
    have unwritten := get_written_off (standing.dropped key) value off
    exact fun empty => stands (unwritten.trans empty)
  rw [Standing.dropped_leaf] at before
  split at before
  · exact absurd rfl before
  · rename_i apart
    have far : ¬ Siblings other key := fun siblings => apart ⟨pruned, siblings⟩
    obtain ⟨leaf, above⟩ := follows.stands other pruned before
    have parent : ¬ other.bytes.take 31 <+: key.bytes := by
      intro on
      have width : (other.bytes.take 31).length = 31 := by simp
      have shared := List.prefix_iff_eq_take.mp on
      rw [width] at shared
      exact far shared
    refine ⟨?_, by rw [lookup_insert_off tree key value parent]; exact above⟩
    rw [lookup_insert_off tree key value off, leaf, Standing.commitment_insert_off standing value off]
    intro found _ siblings same
    rw [Bytes32.ext same] at far
    exact absurd siblings far

/-- Off the path of the written key every node commits to what it did. -/
theorem Follows.truth_after_insert (follows : tree.Follows standing) (key : Bytes32) (value : List UInt8)
    {path : List UInt8} (off : ¬ path <+: key.bytes) :
    (tree.insert key value).trueCommitment (standing.insert key value).contents path =
      tree.trueCommitment standing.contents path := by
  rw [trueCommitment, trueCommitment, lookup_insert_off tree key value off]
  cases found : tree.prunedCommitments.lookup (keyForPath path) with
  | some commitment => rfl
  | none =>
    apply Standing.commitment_insert_off standing value off
    intro other pruned _ same
    subst same
    by_contra stands
    rw [(follows.stands other pruned stands).1] at found
    cases found

theorem Follows.insert (follows : tree.Follows standing) (key : Bytes32) (value : List UInt8) :
    (tree.insert key value).Follows (standing.insert key value) where
  generators := by
    rw [insert_eq]
    exact follows.generators
  roots := by
    rw [insert_eq]
    exact follows.roots
  scalars := by
    rw [insert_eq]
    exact follows.scalars
  storage := by
    rw [insert_eq, Standing.stored_insert, ← follows.storage]
    exact contents_of_written tree.storage key value
  marks := by
    rw [insert_eq]
    dsimp only
    rw [follows.marks, Standing.insert, Finset.image_erase fun _ _ same => Bytes32.ext same]
  recorded path commitment inner found := by
    obtain ⟨off, before⟩ := recorded_before_insert found
    rw [follows.recorded path commitment inner before, Standing.commitment_insert_off standing value off]
    rintro other _ _ rfl
    exact absurd (length_key other) inner
  pruned other commitment found := by
    obtain ⟨off, before⟩ := recorded_before_insert found
    refine Finset.mem_erase.mpr ⟨?_, follows.pruned other commitment before⟩
    rintro rfl
    exact off List.prefix_rfl
  stands other member stands := by
    obtain ⟨different, pruned⟩ := Finset.mem_erase.mp member
    exact follows.stands_after_insert key value pruned different stands
  unkeyed := by
    rw [insert_eq]
    dsimp only
    rw [lookup_erase_paths, if_neg, follows.unkeyed]
    rintro ⟨path, _, absurdity⟩
    cases absurdity
  cache := by
    have soiled : (tree.insert key value).commitmentCache = key.bytes.inits.foldl soil tree.commitmentCache := by
      rw [insert_eq]
    rw [soiled]
    refine keeps_soiled follows.cache fun path outside => ?_
    exact follows.truth_after_insert key value fun on => outside ((List.mem_inits path key.bytes).mpr on)
  cachedRoot := by
    rw [insert_eq]
    exact fun root absurdity => absurd absurdity (Option.some_ne_none root).symm

theorem Follows.insert_all {α : Type} (follows : tree.Follows standing) (items : List α) (key : α → Bytes32)
    (value : α → List UInt8) :
    (items.foldl (fun tree item => tree.insert (key item) (value item)) tree).Follows
      (items.foldl (fun standing item => standing.insert (key item) (value item)) standing) := by
  induction items generalizing tree standing with
  | nil => exact follows
  | cons item rest ih => exact ih (follows.insert (key item) (value item))

/-- A stored leaf is taken out of the storage, with the truth of its path on record. -/
theorem Follows.prune_recorded (follows : tree.Follows standing) {key : Bytes32}
    (present : (standing.stored (keyForPath key.bytes)).isSome = true)
    {commitmentCache : FiniteMap (List UInt8) CachedNode} {prunedCommitments : FiniteMap (List UInt8) Commitment}
    (keeps : Memo.Keeps (Repeats (tree.trueCommitment standing.contents)) commitmentCache)
    (records : ∀ path, prunedCommitments.lookup (keyForPath path) =
      if path ∈ key.bytes.inits then some (tree.trueCommitment standing.contents path)
      else tree.prunedCommitments.lookup (keyForPath path))
    (unkeyed : prunedCommitments.lookup [] = none) :
    Follows { tree with
      storage := Storage.delete tree.storage (keyForPath key.bytes)
      commitmentCache := key.bytes.inits.foldl soil commitmentCache
      rootCache := none
      prunedKeys := Insert.insert key.bytes tree.prunedKeys
      prunedCommitments } ⟨standing.contents, Insert.insert key standing.pruned⟩ := by
  have unpruned : key ∉ standing.pruned := by
    intro pruned
    rw [Standing.stored_pruned pruned] at present
    cases present
  have on_path : ∀ other : Bytes32, other.bytes ∈ key.bytes.inits ↔ other = key := by
    intro other
    rw [List.mem_inits, key_on_path_iff]
  have parent : key.bytes.take 31 ∈ key.bytes.inits := (List.mem_inits _ _).mpr (List.take_prefix _ _)
  constructor
  case generators => exact follows.generators
  case roots => exact follows.roots
  case scalars => exact follows.scalars
  case storage =>
    have stored := Standing.stored_prune standing key
    rw [Standing.prune, if_pos present, if_pos present, ← follows.storage] at stored
    rw [stored]
    funext raw
    have left := Storage.get_delete tree.storage (keyForPath key.bytes) raw
    have right := Storage.get_delete (contentsOf tree.storage) (keyForPath key.bytes) raw
    exact left.trans right.symm
  case marks =>
    dsimp only
    rw [follows.marks, Finset.image_insert]
  case recorded =>
    intro path commitment inner found
    dsimp only at found
    rw [records] at found
    split at found
    · cases found
      exact follows.truth_inner inner
    · exact follows.recorded path commitment inner found
  case pruned =>
    intro other commitment found
    dsimp only at found
    rw [records] at found
    split at found
    · rename_i on
      exact Finset.mem_insert.mpr (.inl ((on_path other).mp on))
    · exact Finset.mem_insert_of_mem (follows.pruned other commitment found)
  case stands =>
    intro other member stands
    dsimp only
    rw [records, records]
    by_cases same : other = key
    · subst same
      rw [if_pos ((on_path other).mpr rfl), if_pos parent, follows.truth_unpruned unpruned]
      exact ⟨rfl, Option.some_ne_none _⟩
    · obtain ⟨leaf, above⟩ := follows.stands other ((Finset.mem_insert.mp member).resolve_left same) stands
      rw [if_neg fun on => same ((on_path other).mp on)]
      refine ⟨leaf, ?_⟩
      split
      · exact Option.some_ne_none _
      · exact above
  case unkeyed => exact unkeyed
  case cache =>
    refine keeps_soiled keeps fun path _ => ?_
    rw [trueCommitment, records]
    split
    · rfl
    · rfl
  case cachedRoot => exact fun root absurdity => absurd absurdity (Option.some_ne_none root).symm

/-- Pruning fails when the key is not stored, and changes nothing then; else the contents stand as they
are. -/
theorem Follows.prune_key (follows : tree.Follows standing) (key : Bytes32) :
    ((tree.pruneKey key).1 = .ok () ↔ (standing.stored (keyForPath key.bytes)).isSome = true) ∧
      (tree.pruneKey key).2.Follows (standing.prune key) := by
  rw [pruneKey, follows.node_exists, Standing.prune]
  by_cases present : (standing.stored (keyForPath key.bytes)).isSome = true
  · obtain ⟨commitmentCache, keeps, ran⟩ := follows.tells.record_path key.bytes.inits (fun path member => by
      have short := ((List.mem_inits path key.bytes).mp member).length_le
      rw [length_key] at short
      exact short) follows.cache
    have records := lookup_insert_paths (tree.trueCommitment standing.contents) key.bytes.inits tree.prunedCommitments
    have unkeyed : (key.bytes.inits.foldl (fun records path =>
        records.insert (keyForPath path) (tree.trueCommitment standing.contents path)) tree.prunedCommitments).lookup
          [] = none := by
      rw [lookup_insert_paths_untagged]
      exact follows.unkeyed
    rw [present, ran, if_pos rfl]
    simp only [Bool.not_true, Bool.false_eq_true, if_false, invalidatePathCache]
    rw [unkeyed]
    exact ⟨by simp, follows.prune_recorded present keeps records unkeyed⟩
  · rw [Bool.not_eq_true _ |>.mp present]
    refine ⟨by simp, ?_⟩
    rw [if_neg Bool.false_ne_true]
    exact follows

end Steps
end Klomang.Crypto.VerkleTree
