import Klomang.State.VTrieTransition
import Klomang.State.VTriePruning
import Klomang.StateManager.Indices
import Klomang.StateManager.VerkleSync

/-! Pruning cycles. A cycle removes the marked outpoints one after the other and stops at the first whose leaf is not in
the tree; what it has removed until then stays removed. Rolling back brings such outpoints about: the tree goes back and
the index does not. -/
namespace Klomang.StateManager

section Cycles
variable [Blake3] [Bandersnatch] {S : Type} {manager middle later : StateManager S} {utxo between left : UtxoSet}
  {outpoint : OutPoint} {outpoints first rest pruned : List OutPoint} {key : Bytes32}

/-- An outpoint that a cycle is to prune: it has a key, and a marker of an epoch up to the threshold. -/
structure Due (manager : StateManager S) (epochThreshold : UInt64) (outpoint : OutPoint) : Prop where
  indexed : (manager.outpointToKey.lookup outpoint).isSome
  marked : ∃ marker, manager.pruneMarkers.lookup outpoint = some marker ∧ marker.epoch ≤ epochThreshold

/-- The outpoints that have a key. -/
def indexed (manager : StateManager S) (outpoints : List OutPoint) : List OutPoint :=
  outpoints.filter fun outpoint => (manager.outpointToKey.lookup outpoint).isSome

/-- The keys of the outpoints that have one. -/
def keysOf (manager : StateManager S) (outpoints : List OutPoint) : List Bytes32 :=
  outpoints.filterMap manager.outpointToKey.lookup

variable [Storage S]

/-- Some outpoints left the set of unspent outputs and both indices and their leaves left the tree, and nothing else
changed. -/
structure Removed (manager : StateManager S) (utxo : UtxoSet) (outpoints : List OutPoint) (later : StateManager S)
    (left : UtxoSet) : Prop where
  index : ∀ outpoint, later.outpointToKey.lookup outpoint =
    if outpoint ∈ outpoints then none else manager.outpointToKey.lookup outpoint
  markers : ∀ outpoint, later.pruneMarkers.lookup outpoint =
    if outpoint ∈ outpoints then none else manager.pruneMarkers.lookup outpoint
  outputs : ∀ outpoint, left.utxos.lookup outpoint = if outpoint ∈ outpoints then none else utxo.utxos.lookup outpoint
  leavesGone : ∀ outpoint ∈ outpoints, ∀ key, manager.outpointToKey.lookup outpoint = some key →
    VerkleTree.storedNode manager.tree.storage key.bytes = true ∧
      VerkleTree.storedNode later.tree.storage key.bytes = false
  leavesKept : ∀ key : Bytes32, (∀ outpoint ∈ outpoints, manager.outpointToKey.lookup outpoint ≠ some key) →
    Storage.get later.tree.storage (VerkleTree.keyForPath key.bytes) =
        Storage.get manager.tree.storage (VerkleTree.keyForPath key.bytes) ∧
      (key.bytes ∈ later.tree.prunedKeys ↔ key.bytes ∈ manager.tree.prunedKeys)
  others : later = { manager with
    tree := later.tree
    outpointToKey := later.outpointToKey
    pruneMarkers := later.pruneMarkers }

/-- Nothing changed, but for what the tree remembers of its commitments. -/
structure NothingChanged (manager : StateManager S) (utxo : UtxoSet) (later : StateManager S) (left : UtxoSet) :
    Prop where
  contents : VerkleTree.SameContents manager.tree later.tree
  outputs : left = utxo
  others : later = { manager with tree := later.tree }

/-- Every leaf that a cycle meets is in the tree, and no two outpoints share one. -/
structure Clear (manager : StateManager S) (outpoints : List OutPoint) : Prop where
  distinct : (manager.keysOf outpoints).Nodup
  stored : ∀ key ∈ manager.keysOf outpoints, VerkleTree.storedNode manager.tree.storage key.bytes = true

/-- The first leaf that a cycle meets is not in the tree. -/
def FirstMissing (manager : StateManager S) (outpoints : List OutPoint) : Prop :=
  ∃ key, (manager.keysOf outpoints).head? = some key ∧ VerkleTree.storedNode manager.tree.storage key.bytes = false

/-- The manager after one round of a cycle. -/
def pruneOne (manager : StateManager S) (outpoint : OutPoint) (key : Bytes32) : StateManager S :=
  { manager with
    tree := (manager.tree.pruneKey key).2
    outpointToKey := manager.outpointToKey.erase outpoint
    pruneMarkers := manager.pruneMarkers.erase outpoint }

section Effects

theorem Removed.refl (manager : StateManager S) (utxo : UtxoSet) : Removed manager utxo [] manager utxo where
  index _ := rfl
  markers _ := rfl
  outputs _ := rfl
  leavesGone _ member := absurd member List.not_mem_nil
  leavesKept _ _ := ⟨rfl, Iff.rfl⟩
  others := rfl

/-- What one round of a cycle does. -/
theorem removed_one (utxo : UtxoSet) (found : manager.outpointToKey.lookup outpoint = some key)
    (stored : VerkleTree.storedNode manager.tree.storage key.bytes = true) :
    Removed manager utxo [outpoint] (manager.pruneOne outpoint key) ⟨utxo.utxos.erase outpoint⟩ := by
  obtain ⟨stop, prunes⟩ := VerkleTree.pruned_of_stored stored
  have deep : key.bytes <+: key.bytes ∧ stop ≤ key.bytes.length :=
    ⟨List.prefix_rfl, VerkleTree.length_key key ▸ prunes.within⟩
  have single (other : OutPoint) : other ∈ [outpoint] ↔ other = outpoint := List.mem_singleton
  constructor
  · intro other
    simp only [pruneOne, FiniteMap.lookup_erase_ite, single]
  · intro other
    simp only [pruneOne, FiniteMap.lookup_erase_ite, single]
  · intro other
    simp only [FiniteMap.lookup_erase_ite, single]
  · intro other member named pointed
    rw [(single other).mp member, found] at pointed
    cases pointed
    refine ⟨stored, ?_⟩
    rw [pruneOne, VerkleTree.storedNode, prunes.storage, if_pos deep]
    rfl
  · intro other spared
    have different : other ≠ key := by
      rintro rfl
      exact spared outpoint List.mem_cons_self found
    have off : ¬ (other.bytes <+: key.bytes ∧ stop ≤ other.bytes.length) :=
      fun on => VerkleTree.key_off_path different on.1
    exact ⟨(prunes.storage other.bytes).trans (if_neg off), (prunes.marked other.bytes).trans (or_iff_left off)⟩
  · rfl

omit [Blake3] [Bandersnatch] [Storage S] in
theorem without_append {V : Type} (value : Option V) :
    (if outpoint ∈ rest then none else if outpoint ∈ first then none else value) =
      if outpoint ∈ first ++ rest then none else value := by
  by_cases early : outpoint ∈ first <;> by_cases late : outpoint ∈ rest <;> simp [early, late]

/-- Two parts of a cycle, one after the other. -/
theorem Removed.append (removed : Removed manager utxo first middle between)
    (further : Removed middle between rest later left) : Removed manager utxo (first ++ rest) later left := by
  -- a key that is named after the first part was named before it
  have before {outpoint : OutPoint} {key : Bytes32} (found : middle.outpointToKey.lookup outpoint = some key) :
      manager.outpointToKey.lookup outpoint = some key := by
    rw [removed.index] at found
    split at found
    · cases found
    · exact found
  constructor
  · intro outpoint
    rw [further.index, removed.index, without_append]
  · intro outpoint
    rw [further.markers, removed.markers, without_append]
  · intro outpoint
    rw [further.outputs, removed.outputs, without_append]
  · intro outpoint member key found
    by_cases early : outpoint ∈ first
    · obtain ⟨stored, gone⟩ := removed.leavesGone outpoint early key found
      refine ⟨stored, ?_⟩
      -- the second part does not bring the leaf back
      by_cases again : ∃ other ∈ rest, middle.outpointToKey.lookup other = some key
      · obtain ⟨other, listed, named⟩ := again
        exact (further.leavesGone other listed key named).2
      · have kept := (further.leavesKept key fun other listed named => again ⟨other, listed, named⟩).1
        rwa [VerkleTree.storedNode, kept, ← VerkleTree.storedNode]
    · have listed := (List.mem_append.mp member).resolve_left early
      have named : middle.outpointToKey.lookup outpoint = some key := by rw [removed.index, if_neg early, found]
      obtain ⟨stored, gone⟩ := further.leavesGone outpoint listed key named
      refine ⟨?_, gone⟩
      -- a leaf that the first part removed would not be there for the second
      have spared : ∀ other ∈ first, manager.outpointToKey.lookup other ≠ some key := by
        intro other member same
        rw [(removed.leavesGone other member key same).2] at stored
        cases stored
      rwa [VerkleTree.storedNode, (removed.leavesKept key spared).1, ← VerkleTree.storedNode] at stored
  · intro key spared
    obtain ⟨early, earlyMarked⟩ :=
      removed.leavesKept key fun outpoint member => spared outpoint (List.mem_append_left _ member)
    obtain ⟨late, lateMarked⟩ :=
      further.leavesKept key fun outpoint member named =>
        spared outpoint (List.mem_append_right _ member) (before named)
    exact ⟨late.trans early, lateMarked.trans earlyMarked⟩
  · rw [further.others, removed.others]

end Effects

section Rounds
variable (pruned)

/-- An outpoint without a key is passed over. -/
theorem prune_each_unindexed (absent : manager.outpointToKey.lookup outpoint = none) :
    pruneEach (outpoint :: rest) pruned manager utxo = pruneEach rest pruned manager utxo := by
  rw [pruneEach, absent]

/-- An outpoint whose leaf is in the tree is pruned, and the cycle goes on. -/
theorem prune_each_stored (found : manager.outpointToKey.lookup outpoint = some key)
    (stored : VerkleTree.storedNode manager.tree.storage key.bytes = true) :
    pruneEach (outpoint :: rest) pruned manager utxo =
      pruneEach rest (pruned ++ [outpoint]) (manager.pruneOne outpoint key) ⟨utxo.utxos.erase outpoint⟩ := by
  rw [pruneEach, found, pruneOne]
  dsimp only
  rcases VerkleTree.prune_key_spec manager.tree key with ⟨absent, _⟩ | ⟨succeeded, _⟩
  · rw [stored] at absent
    cases absent
  · rcases ran : manager.tree.pruneKey key with ⟨outcome, tree⟩
    rw [ran] at succeeded
    cases succeeded
    rfl

/-- An outpoint whose leaf is not in the tree ends the cycle, which leaves that round no trace. -/
theorem prune_each_missing (found : manager.outpointToKey.lookup outpoint = some key)
    (missing : VerkleTree.storedNode manager.tree.storage key.bytes = false) :
    ∃ error later, pruneEach (outpoint :: rest) pruned manager utxo = (.error error, later, utxo) ∧
      NothingChanged manager utxo later utxo := by
  rw [pruneEach, found]
  dsimp only
  rcases VerkleTree.prune_key_spec manager.tree key with ⟨_, failed, same⟩ | ⟨_, stop, prunes⟩
  · rcases ran : manager.tree.pruneKey key with ⟨outcome, tree⟩
    rw [ran] at failed same
    cases failed
    exact ⟨_, _, rfl, same, rfl, rfl⟩
  · rw [prunes.leaf] at missing
    cases missing

omit [Storage S] in
theorem keys_of_unindexed (absent : manager.outpointToKey.lookup outpoint = none) :
    manager.keysOf (outpoint :: rest) = manager.keysOf rest :=
  List.filterMap_cons_none absent

omit [Storage S] in
theorem keys_of_indexed (found : manager.outpointToKey.lookup outpoint = some key) :
    manager.keysOf (outpoint :: rest) = key :: manager.keysOf rest :=
  List.filterMap_cons_some found

/-- A round leaves the keys of the other outpoints. -/
theorem lookup_prune_one (once : outpoint ∉ rest) : ∀ other ∈ rest,
    (manager.pruneOne outpoint key).outpointToKey.lookup other = manager.outpointToKey.lookup other := by
  intro other member
  have different : other ≠ outpoint := fun same => once (same ▸ member)
  rw [pruneOne, FiniteMap.lookup_erase_ite, if_neg different]

theorem keys_of_prune_one (once : outpoint ∉ rest) :
    (manager.pruneOne outpoint key).keysOf rest = manager.keysOf rest :=
  List.filterMap_congr (lookup_prune_one once)

theorem indexed_prune_one (once : outpoint ∉ rest) :
    (manager.pruneOne outpoint key).indexed rest = manager.indexed rest :=
  List.filter_congr fun other member => by rw [lookup_prune_one once other member]

/-- A cycle is clear when its first leaf is there and the rest is clear after the first round. -/
theorem clear_cons_iff (once : outpoint ∉ rest) (found : manager.outpointToKey.lookup outpoint = some key)
    (stored : VerkleTree.storedNode manager.tree.storage key.bytes = true) :
    Clear manager (outpoint :: rest) ↔ Clear (manager.pruneOne outpoint key) rest := by
  have removed := removed_one ⟨∅⟩ found stored
  have gone := (removed.leavesGone outpoint List.mem_cons_self key found).2
  have keys : (manager.pruneOne outpoint key).keysOf rest = manager.keysOf rest := keys_of_prune_one once
  have whole : manager.keysOf (outpoint :: rest) = key :: manager.keysOf rest := keys_of_indexed found
  have others {other : Bytes32} (different : other ≠ key) :
      VerkleTree.storedNode (manager.pruneOne outpoint key).tree.storage other.bytes =
        VerkleTree.storedNode manager.tree.storage other.bytes := by
    have spared : ∀ named ∈ [outpoint], manager.outpointToKey.lookup named ≠ some other := by
      intro named member same
      rw [List.mem_singleton.mp member, found] at same
      exact different (Option.some.inj same).symm
    rw [VerkleTree.storedNode, (removed.leavesKept other spared).1, ← VerkleTree.storedNode]
  constructor
  · rintro ⟨distinct, all⟩
    rw [whole] at distinct all
    obtain ⟨unshared, further⟩ := List.nodup_cons.mp distinct
    constructor
    · rwa [keys]
    · intro other member
      rw [keys] at member
      rw [others fun same => unshared (same ▸ member)]
      exact all other (List.mem_cons_of_mem _ member)
  · rintro ⟨distinct, all⟩
    rw [keys] at distinct all
    have unshared : key ∉ manager.keysOf rest := by
      intro member
      have back := all key member
      rw [gone] at back
      cases back
    constructor
    · rw [whole]
      exact List.nodup_cons.mpr ⟨unshared, distinct⟩
    · rw [whole]
      refine List.forall_mem_cons.mpr ⟨stored, fun other member => ?_⟩
      rw [← others fun same => unshared (same ▸ member)]
      exact all other member

/-- What has no key gets none from a cycle. -/
theorem prune_each_absent (outpoints : List OutPoint) (utxo : UtxoSet)
    (absent : manager.outpointToKey.lookup outpoint = none) :
    (pruneEach outpoints pruned manager utxo).2.1.outpointToKey.lookup outpoint = none := by
  induction outpoints generalizing manager utxo pruned with
  | nil => exact absent
  | cons other rest ih =>
    cases found : manager.outpointToKey.lookup other with
    | none =>
      rw [prune_each_unindexed pruned found]
      exact ih pruned utxo absent
    | some key =>
      cases stored : VerkleTree.storedNode manager.tree.storage key.bytes with
      | true =>
        rw [prune_each_stored pruned found stored]
        apply ih
        rw [pruneOne, FiniteMap.lookup_erase_ite, absent, ite_self]
      | false =>
        obtain ⟨error, later, ran, untouched⟩ := prune_each_missing pruned found stored
        rw [ran, untouched.others]
        exact absent

/-- How a cycle ends: with all its outpoints removed, with nothing changed, or with some of them removed and an
error. -/
theorem prune_each_cases (manager : StateManager S) (utxo : UtxoSet) (distinct : outpoints.Nodup) :
    (Clear manager outpoints ∧ ∃ later left,
      pruneEach outpoints pruned manager utxo = (.ok (pruned ++ manager.indexed outpoints), later, left) ∧
      Removed manager utxo (manager.indexed outpoints) later left) ∨
    (¬ Clear manager outpoints ∧ ∃ error later left,
      pruneEach outpoints pruned manager utxo = (.error error, later, left) ∧
      ((FirstMissing manager outpoints ∧ NothingChanged manager utxo later left) ∨
        (¬ FirstMissing manager outpoints ∧ later.outpointToKey ≠ manager.outpointToKey))) := by
  induction outpoints generalizing manager utxo pruned with
  | nil =>
    refine .inl ⟨⟨List.nodup_nil, fun key member => absurd member List.not_mem_nil⟩, manager, utxo, ?_, .refl _ _⟩
    rw [pruneEach, indexed, List.filter_nil, List.append_nil]
  | cons outpoint rest ih =>
    obtain ⟨once, distinctRest⟩ := List.nodup_cons.mp distinct
    cases found : manager.outpointToKey.lookup outpoint with
    | none =>
      have same : manager.keysOf (outpoint :: rest) = manager.keysOf rest := keys_of_unindexed found
      have listed : manager.indexed (outpoint :: rest) = manager.indexed rest :=
        List.filter_cons_of_neg (by simp [found])
      have clear : Clear manager (outpoint :: rest) ↔ Clear manager rest :=
        ⟨fun clear => ⟨same ▸ clear.distinct, same ▸ clear.stored⟩,
          fun clear => ⟨same ▸ clear.distinct, same ▸ clear.stored⟩⟩
      rw [prune_each_unindexed pruned found, listed, clear, FirstMissing, same]
      exact ih pruned manager utxo distinctRest
    | some key =>
      have whole : manager.keysOf (outpoint :: rest) = key :: manager.keysOf rest := keys_of_indexed found
      cases stored : VerkleTree.storedNode manager.tree.storage key.bytes with
      | false =>
        obtain ⟨error, later, ran, untouched⟩ := prune_each_missing pruned found stored
        refine .inr ⟨fun clear => ?_, error, later, utxo, ran, .inl ⟨⟨key, by rw [whole]; rfl, stored⟩, untouched⟩⟩
        have there := clear.stored key (whole ▸ List.mem_cons_self)
        rw [stored] at there
        cases there
      | true =>
        have removed := removed_one utxo found stored
        have started : ¬ FirstMissing manager (outpoint :: rest) := by
          rintro ⟨other, head, missing⟩
          rw [whole] at head
          cases head
          rw [stored] at missing
          cases missing
        have listed : manager.indexed (outpoint :: rest) =
            [outpoint] ++ (manager.pruneOne outpoint key).indexed rest := by
          rw [indexed_prune_one once]
          exact List.filter_cons_of_pos (by simp [found])
        rw [prune_each_stored pruned found stored, clear_cons_iff once found stored, listed]
        rcases ih (pruned ++ [outpoint]) _ _ distinctRest with
          ⟨clear, later, left, ran, further⟩ | ⟨blocked, error, later, left, ran, _⟩
        · refine .inl ⟨clear, later, left, ?_, removed.append further⟩
          rw [ran, List.append_assoc]
        · refine .inr ⟨blocked, error, later, left, ran, .inr ⟨started, fun same => ?_⟩⟩
          -- the outpoint of the first round has lost its key for good
          have lost : (manager.pruneOne outpoint key).outpointToKey.lookup outpoint = none := by
            rw [pruneOne, FiniteMap.lookup_erase_ite, if_pos rfl]
          have gone := prune_each_absent (pruned ++ [outpoint]) rest ⟨utxo.utxos.erase outpoint⟩ lost
          rw [ran, same, found] at gone
          cases gone

end Rounds

section Cycle
variable {order : Enumeration OutPoint} {epochThreshold : UInt64}

/-- A cycle is exact and atomic: it returns and removes the outpoints that are due, each of them once, or it fails and
leaves everything as it was. -/
structure CycleExact (manager : StateManager S) (utxo : UtxoSet) (order : Enumeration OutPoint)
    (epochThreshold : UInt64) : Prop where
  exact : ∀ returned later left, manager.executePruningCycle order epochThreshold utxo = (.ok returned, later, left) →
    (∀ outpoint, outpoint ∈ returned ↔ manager.Due epochThreshold outpoint) ∧ returned.Nodup ∧
      Removed manager utxo returned later left
  atomic : ∀ error later left, manager.executePruningCycle order epochThreshold utxo = (.error error, later, left) →
    NothingChanged manager utxo later left

/-- Every leaf that the cycle meets is in the tree and belongs to one outpoint, or already the first one is missing. -/
def CycleUnbroken (manager : StateManager S) (order : Enumeration OutPoint) (epochThreshold : UInt64) : Prop :=
  Clear manager (manager.keysToPrune order epochThreshold) ∨
    FirstMissing manager (manager.keysToPrune order epochThreshold)

omit [Storage S] in
theorem mem_indexed_iff :
    outpoint ∈ manager.indexed (manager.keysToPrune order epochThreshold) ↔ manager.Due epochThreshold outpoint := by
  rw [indexed, keysToPrune, List.mem_filter, List.mem_filter, order.mem, Finmap.mem_keys]
  constructor
  · rintro ⟨⟨_, marked⟩, named⟩
    refine ⟨named, ?_⟩
    cases found : manager.pruneMarkers.lookup outpoint with
    | none =>
      rw [found] at marked
      cases marked
    | some marker =>
      rw [found] at marked
      exact ⟨marker, rfl, of_decide_eq_true marked⟩
  · rintro ⟨named, marker, found, due⟩
    refine ⟨⟨Finmap.lookup_isSome.mp (by rw [found]; rfl), ?_⟩, named⟩
    rw [found]
    exact decide_eq_true due

/-- A single cycle is exact and atomic when it does not break off. -/
theorem cycle_exact_iff :
    CycleExact manager utxo order epochThreshold ↔ CycleUnbroken manager order epochThreshold := by
  have distinct : (manager.keysToPrune order epochThreshold).Nodup := (order.nodup _).filter _
  rw [CycleUnbroken]
  rcases prune_each_cases [] manager utxo distinct with
    ⟨clear, later, left, ran, removed⟩ | ⟨blocked, error, later, left, ran, ends⟩
  · refine iff_of_true ⟨?_, ?_⟩ (.inl clear)
    · intro returned after rest same
      cases ran.symm.trans same
      exact ⟨fun outpoint => mem_indexed_iff, distinct.filter _, removed⟩
    · intro error after rest same
      cases ran.symm.trans same
  · constructor
    · intro exact
      have untouched := exact.atomic error later left ran
      rcases ends with ⟨first, _⟩ | ⟨_, changed⟩
      · exact .inr first
      · rw [untouched.others] at changed
        exact absurd rfl changed
    · rintro (clear | first)
      · exact absurd clear blocked
      · rcases ends with ⟨_, untouched⟩ | ⟨started, _⟩
        · refine ⟨fun returned after rest same => ?_, fun other after rest same => ?_⟩
          · cases ran.symm.trans same
          · cases ran.symm.trans same
            exact untouched
        · exact absurd first started

end Cycle
end Cycles

section Runs
variable [Blake3] [Bandersnatch] {S : Type} [Storage S]

/-- If a call is a pruning cycle, it is exact and atomic. -/
def PrunesExactly (session : Session S) : Call → Prop
  | .executePruningCycle order epochThreshold => CycleExact session.manager session.utxo order epochThreshold
  | _ => True

/-- If a call is a pruning cycle, it does not break off behind its first outpoint. -/
def NeverBreaksOff (session : Session S) : Call → Prop
  | .executePruningCycle order epochThreshold => CycleUnbroken session.manager order epochThreshold
  | _ => True

theorem prunes_exactly_iff (session : Session S) (call : Call) :
    PrunesExactly session call ↔ NeverBreaksOff session call := by
  cases call with
  | executePruningCycle order epochThreshold => exact cycle_exact_iff
  | _ => exact Iff.rfl

variable [SchnorrScheme] [Channel] [Wasmer]

/-- Whatever calls came before it, every pruning cycle of a run is exact and atomic exactly when none of them breaks off
behind its first outpoint. -/
theorem cycles_exact_iff (session : Session S) (calls : List Call) :
    Runs.Meets Session.step session PrunesExactly calls ↔ Runs.Meets Session.step session NeverBreaksOff calls := by
  rw [show PrunesExactly = NeverBreaksOff from
    funext fun session => funext fun call => propext (prunes_exactly_iff session call)]

end Runs

section Forward
variable [Blake3] [Bandersnatch] {S : Type} [Storage S] {manager later : StateManager S} {utxo left : UtxoSet}
  {block : BlockNode} {outpoints : Set OutPoint}

/-- Every outpoint of the index is one of some outpoints, with its own key, and its leaf is in the tree. -/
def LeavesHeld (outpoints : Set OutPoint) (manager : StateManager S) : Prop :=
  ∀ outpoint key, manager.outpointToKey.lookup outpoint = some key →
    outpoint ∈ outpoints ∧ key = outpoint.key ∧ VerkleTree.storedNode manager.tree.storage key.bytes = true

omit [Bandersnatch] [Storage S] in
theorem mem_writes_iff {moves : List (Move OutPoint TxOutput)} {write : Bytes32 × List UInt8} :
    write ∈ writes moves ↔
      ∃ outpoint output, .put outpoint output ∈ moves ∧ (outpoint.key, output.serialize) = write := by
  rw [writes, List.mem_filterMap]
  constructor
  · rintro ⟨move, member, found⟩
    cases move with
    | take outpoint => cases found
    | put outpoint output => exact ⟨outpoint, output, member, Option.some.inj found⟩
  · rintro ⟨outpoint, output, member, rfl⟩
    exact ⟨_, member, rfl⟩

/-- After a block of plain transactions the leaves of its outputs and the supply leaf are in the tree, with those that
were there before. -/
theorem Applied.stored_leaf (applied : Applied manager utxo block later left)
    (plain : ∀ tx ∈ block.transactions, tx.Plain) (key : Bytes32) :
    VerkleTree.storedNode later.tree.storage key.bytes = true ↔
      VerkleTree.storedNode manager.tree.storage key.bytes = true ∨
        (∃ outpoint output, .put outpoint output ∈ block.moves ∧ key = outpoint.key) ∨
        key = VerkleTree.totalSupplyKey := by
  obtain ⟨tree, storage, _, _, untouched⟩ := applied.written
  have here := untouched plain
  subst here
  have safe := (burn_update_none block.moves).mpr applied.noBurn
  rw [storage]
  rcases VerkleTree.apply_state_transition_cases manager.tree (writes block.moves) later.currentTotalSupply with
    ⟨burned, _⟩ | ⟨_, written, _⟩
  · rw [safe] at burned
    cases burned
  rw [written, VerkleTree.stored_insert_all, VerkleTree.transitionWrites]
  apply or_congr_right
  simp only [VerkleTree.key_on_path_iff, List.mem_append, List.mem_singleton]
  constructor
  · rintro ⟨write, written | rfl, rfl⟩
    · obtain ⟨outpoint, output, put, rfl⟩ := mem_writes_iff.mp written
      exact .inl ⟨outpoint, output, put, rfl⟩
    · exact .inr rfl
  · rintro (⟨outpoint, output, put, rfl⟩ | rfl)
    · exact ⟨_, .inl (mem_writes_iff.mpr ⟨outpoint, output, put, rfl⟩), rfl⟩
    · exact ⟨_, .inr rfl, rfl⟩

variable [Wasmer]

/-- What the index names after a block is what the block put there or what it named before. -/
theorem indexed_after_block (ran : manager.applyBlock block utxo = (.ok (), later, left)) {outpoint : OutPoint}
    {key : Bytes32} (found : later.outpointToKey.lookup outpoint = some key) :
    (∃ output, .put outpoint output ∈ block.moves ∧ key = outpoint.key) ∨
      manager.outpointToKey.lookup outpoint = some key := by
  rw [(apply_block_reindexed ran).index, Edit.lookup_replay] at found
  cases last : Edit.last outpoint (block.moves.map Move.indexEdit) with
  | none =>
    rw [last] at found
    exact .inr found
  | some value =>
    rw [last] at found
    obtain ⟨move, member, edit⟩ := List.mem_map.mp (Edit.mem_of_last last)
    cases move with
    | take other =>
      cases edit
      cases found
    | put other output =>
      cases edit
      cases found
      exact .inl ⟨output, member, rfl⟩

theorem LeavesHeld.apply_block (held : LeavesHeld outpoints manager) (creates : CreatesAt outpoints block)
    (ran : manager.applyBlock block utxo = (.ok (), later, left)) : LeavesHeld outpoints later := by
  intro outpoint key found
  have stored := (apply_block_ok ran).stored_leaf creates.plain key
  rcases indexed_after_block ran found with ⟨output, put, rfl⟩ | before
  · exact ⟨creates.created outpoint output put, rfl, stored.mpr (.inr (.inl ⟨outpoint, output, put, rfl⟩))⟩
  · obtain ⟨inside, own, there⟩ := held outpoint key before
    exact ⟨inside, own, stored.mpr (.inl there)⟩

omit [Wasmer]

/-- While the leaves of the index are held, every cycle goes through. -/
theorem LeavesHeld.clear (held : LeavesHeld outpoints manager) (injective : Set.InjOn OutPoint.key outpoints)
    {due : List OutPoint} (distinct : due.Nodup) : Clear manager due where
  distinct := by
    apply distinct.filterMap
    intro first second key named alsoNamed
    obtain ⟨inside, own, _⟩ := held first key named
    obtain ⟨alsoInside, alsoOwn, _⟩ := held second key alsoNamed
    exact injective inside alsoInside (own.symm.trans alsoOwn)
  stored := by
    intro key member
    obtain ⟨outpoint, _, named⟩ := List.mem_filterMap.mp member
    exact (held outpoint key named).2.2

/-- A cycle that goes through holds on to the leaves of the outpoints that it leaves in the index. -/
theorem LeavesHeld.removed (held : LeavesHeld outpoints manager) (injective : Set.InjOn OutPoint.key outpoints)
    {gone : List OutPoint} (removed : Removed manager utxo gone later left) : LeavesHeld outpoints later := by
  intro outpoint key found
  rw [removed.index] at found
  split at found
  · cases found
  rename_i stays
  obtain ⟨inside, own, stored⟩ := held outpoint key found
  refine ⟨inside, own, ?_⟩
  have spared : ∀ other ∈ gone, manager.outpointToKey.lookup other ≠ some key := by
    intro other member named
    obtain ⟨alsoInside, alsoOwn, _⟩ := held other key named
    rw [injective inside alsoInside (own.symm.trans alsoOwn)] at stays
    exact stays member
  rwa [VerkleTree.storedNode, (removed.leavesKept key spared).1, ← VerkleTree.storedNode]

/-- Blocks of plain transactions that create outputs at some outpoints, marks and pruning cycles: nothing that takes the
tree back. -/
def Forward (outpoints : Set OutPoint) : Call → Prop
  | .applyBlock block => CreatesAt outpoints block
  | .markOutpointForPruning _ _ _ => True
  | .executePruningCycle _ _ => True
  | .passUtxo _ => True
  | _ => False

variable [SchnorrScheme] [Channel] [Wasmer]

theorem step_leaves_held {session : Session S} {call : Call} (forward : Forward outpoints call)
    (injective : Set.InjOn OutPoint.key outpoints) (sound : session.manager.Sound)
    (held : LeavesHeld outpoints session.manager) : LeavesHeld outpoints (session.step call).manager := by
  cases call with
  | applyBlock block =>
    dsimp only [Session.step]
    rcases sound.apply_block_cases block session.utxo with ⟨later, left, ran⟩ | ⟨error, failed⟩
    · rw [ran]
      exact held.apply_block forward ran
    · rw [failed]
      intro outpoint key found
      obtain ⟨inside, own, stored⟩ := held outpoint key found
      exact ⟨inside, own, by rwa [sound.coherent.cloned_storage]⟩
  | markOutpointForPruning outpoint epoch timestamp => exact held
  | executePruningCycle order epochThreshold =>
    have distinct : (session.manager.keysToPrune order epochThreshold).Nodup := (order.nodup _).filter _
    dsimp only [Session.step, executePruningCycle]
    rcases prune_each_cases [] session.manager session.utxo distinct with
      ⟨_, later, left, ran, removed⟩ | ⟨blocked, _⟩
    · rw [ran]
      exact held.removed injective removed
    · exact absurd (held.clear injective distinct) blocked
  | passUtxo utxo => exact held
  | _ => exact forward.elim

/-- As long as nothing takes the tree back and no contract deletes a leaf, every pruning cycle is exact and atomic, on
whatever set of unspent outputs it is called. -/
theorem forward_cycles_exact {tree : VerkleTree S} (built : VerkleTree.Built tree)
    (made : StateManager.new tree = .ok manager) (injective : Set.InjOn OutPoint.key outpoints) (initial : UtxoSet)
    (calls : List Call) (forward : ∀ call ∈ calls, Forward outpoints call) :
    Runs.Meets Session.step ⟨manager, initial⟩ PrunesExactly calls := by
  intro before call partly
  have admitted : ∀ earlier ∈ before, Forward outpoints earlier :=
    fun earlier member => forward earlier (partly.subset (List.mem_append_left _ member))
  obtain ⟨_, held⟩ := Runs.run_invariant (fun session : Session S => session.manager.Sound ∧
    LeavesHeld outpoints session.manager) (Forward outpoints) ⟨run_sound built made initial [], by
      rw [new_ok built.coherent] at made
      cases made
      intro outpoint key found
      cases found⟩ (fun session call allowed kept =>
        ⟨step_sound kept.1 call, step_leaves_held allowed injective kept.1 kept.2⟩) before admitted
  rw [prunes_exactly_iff]
  cases call with
  | executePruningCycle order epochThreshold => exact .inl (held.clear injective ((order.nodup _).filter _))
  | _ => trivial

end Forward

section Rollback
variable [Blake3] [Bandersnatch] [Wasmer] {S : Type} [Storage S]

/-- Rolling back to the start puts the tree and the supply back, but neither the index nor the marks. -/
theorem rolled_back_to_start {tree : VerkleTree S} {later : StateManager S} {block : BlockNode} {utxo left : UtxoSet}
    (coherent : tree.Coherent) (ran : (started tree).applyBlock block utxo = (.ok (), later, left)) :
    ∃ back, later.rollbackState 0 = (.ok (), back) ∧ back.Sound ∧ back.outpointToKey = later.outpointToKey ∧
      back.pruneMarkers = later.pruneMarkers ∧ back.tree.storage = tree.storage ∧ back.currentTotalSupply = 0 := by
  have sound : (started tree).Sound := started_sound coherent
  have applied := apply_block_ok ran
  obtain ⟨root, snapshots, _⟩ := applied.recorded
  have soundLater : later.Sound := (applied.change sound.coherent).1.sound sound (applied.change sound.coherent).2
  have found : later.snapshots[0]? = some ⟨0, VerkleTree.storageRoot tree.storage, 0, []⟩ := by
    rw [snapshots, started, List.singleton_append, List.getElem?_cons_zero]
  have there : later.snapshotStorages[0]? = some tree.storage := by
    rw [applied.stored, started, List.singleton_append, List.getElem?_cons_zero]
  have back := rollback_state_ok soundLater found there ⟨coherent.rooted, rfl⟩
  refine ⟨_, back, ?_, rfl, rfl, ?_, rfl⟩
  · exact (rolled_back_change (Nat.zero_le _)).sound soundLater (VerkleTree.fresh_coherent tree.storage).get_root.2
  · rw [rolledBack, VerkleTree.get_root_storage, VerkleTree.fresh_storage coherent.rooted]

end Rollback

section Stranded
open Klomang.Sample

/-- The outpoint of a coinbase. -/
def minted (value : UInt64) : OutPoint := ((reward value).id, 0)

theorem minted_moves (value : UInt64) :
    (blockOf [reward value]).moves = [.put (minted value) ⟨value, .replicate 9⟩] := rfl

/-- A block of one coinbase names its output, puts the leaf and the supply into the tree, and leaves the marks. -/
theorem coinbase_applied {manager : StateManager MemoryStorage} (sound : manager.Sound) {value : UInt64}
    (noBurn : NoBurn (blockOf [reward value]).moves)
    (capped : min (manager.currentTotalSupply + value.toNat) u128Max ≤ EconomicConstants.maxGlobalSupplyNanoSlug)
    (utxo : UtxoSet) :
    ∃ later left, manager.applyBlock (blockOf [reward value]) utxo = (.ok (), later, left) ∧
      later.outpointToKey = manager.outpointToKey.insert (minted value) (minted value).key ∧
      later.pruneMarkers = manager.pruneMarkers ∧
      ∀ key : Bytes32, VerkleTree.storedNode later.tree.storage key.bytes = true ↔
        VerkleTree.storedNode manager.tree.storage key.bytes = true ∨ key = (minted value).key ∨
          key = VerkleTree.totalSupplyKey := by
  have plain : ∀ tx ∈ (blockOf [reward value]).transactions, tx.Plain := by
    intro tx member
    rw [List.mem_singleton.mp member]
    exact ⟨rfl, rfl⟩
  obtain ⟨later, ran⟩ := apply_block_accepts plain sound.coherent sound.indexed sound.idle rfl noBurn capped
  obtain ⟨index, markers⟩ := apply_block_reindexed ran
  refine ⟨later, _, ran, index, markers, fun key => ?_⟩
  rw [(apply_block_ok ran).stored_leaf plain, minted_moves]
  simp

/-- Two marked outpoints with keys, of which one has lost its leaf, break off the cycle that meets it last. -/
theorem breaks_off {manager : StateManager MemoryStorage} {kept lost : OutPoint} {keptKey lostKey : Bytes32}
    (different : kept ≠ lost)
    (marks : manager.pruneMarkers = Finmap.insert kept ⟨0, 0⟩ (Finmap.insert lost ⟨0, 0⟩ ∅))
    (keptNamed : manager.outpointToKey.lookup kept = some keptKey)
    (lostNamed : manager.outpointToKey.lookup lost = some lostKey)
    (stored : VerkleTree.storedNode manager.tree.storage keptKey.bytes = true)
    (missing : VerkleTree.storedNode manager.tree.storage lostKey.bytes = false) :
    ∃ order, ¬ CycleUnbroken manager order 0 := by
  obtain ⟨order, last⟩ := Enumeration.exists_last lost
  have keys : manager.pruneMarkers.keys = {kept, lost} := by
    rw [marks, FiniteMap.keys_insert, FiniteMap.keys_insert]
    rfl
  have listed : order.list manager.pruneMarkers.keys = [kept, lost] := by
    obtain ⟨before, split⟩ := last manager.pruneMarkers.keys (by simp [keys])
    have perm : (order.list manager.pruneMarkers.keys).Perm ([kept] ++ [lost]) :=
      order.perm_of_members (by simpa using different) fun outpoint => by simp [keys]
    rw [split] at perm ⊢
    rw [List.perm_singleton.mp ((List.perm_append_right_iff _).mp perm)]
    rfl
  have due : manager.keysToPrune order 0 = [kept, lost] := by
    rw [keysToPrune, listed, marks]
    simp [FiniteMap.lookup_insert_ite]
  have met : manager.keysOf (manager.keysToPrune order 0) = [keptKey, lostKey] := by
    rw [due, keys_of_indexed keptNamed, keys_of_indexed lostNamed]
    rfl
  refine ⟨order, ?_⟩
  rintro (clear | ⟨key, head, gone⟩)
  · have there := clear.stored lostKey (by simp [met])
    rw [missing] at there
    cases there
  · rw [met] at head
    cases head
    rw [stored] at gone
    cases gone

/-- A coin is rolled back, another one takes its place, and both are marked. -/
def stranding (value other : UInt64) : List Call :=
  [.applyBlock (blockOf [reward value]), .rollbackState 0, .applyBlock (blockOf [reward other]),
    .markOutpointForPruning (minted value) 0 0, .markOutpointForPruning (minted other) 0 0]

/-- The coin that was rolled back is still in the index, over a tree without its leaf. -/
theorem stranded {tree : VerkleTree MemoryStorage} (coherent : tree.Coherent) (value other : UInt64)
    (noBurn : NoBurn (blockOf [reward value]).moves) (alsoNoBurn : NoBurn (blockOf [reward other]).moves)
    (capped : min value.toNat u128Max ≤ EconomicConstants.maxGlobalSupplyNanoSlug)
    (alsoCapped : min other.toNat u128Max ≤ EconomicConstants.maxGlobalSupplyNanoSlug)
    (different : (minted value).key ≠ (minted other).key) (beside : (minted value).key ≠ VerkleTree.totalSupplyKey)
    (empty : VerkleTree.storedNode tree.storage (minted value).key.bytes = false) (utxo : UtxoSet) :
    ∃ order, ¬ CycleUnbroken (Runs.run Session.step ⟨started tree, utxo⟩ (stranding value other)).manager order 0 := by
  have apart : minted value ≠ minted other := fun same => different (congrArg OutPoint.key same)
  obtain ⟨later, left, ran, index, markers, _⟩ :=
    coinbase_applied (started_sound coherent) noBurn (by rwa [started, Nat.zero_add]) utxo
  obtain ⟨back, rolled, sound, indexBack, markersBack, storage, supply⟩ := rolled_back_to_start coherent ran
  obtain ⟨again, _, ranAgain, indexAgain, markersAgain, leaves⟩ :=
    coinbase_applied sound alsoNoBurn (by rwa [supply, Nat.zero_add]) left
  have reached : (Runs.run Session.step ⟨started tree, utxo⟩ (stranding value other)).manager =
      (again.markOutpointForPruning (minted value) 0 0).markOutpointForPruning (minted other) 0 0 := by
    simp only [stranding, Runs.run, List.foldl_cons, List.foldl_nil, Session.step, ran, rolled, ranAgain]
  have named : again.outpointToKey =
      Finmap.insert (minted other) (minted other).key (Finmap.insert (minted value) (minted value).key ∅) := by
    rw [indexAgain, indexBack, index, started]
  have otherNamed : again.outpointToKey.lookup (minted other) = some (minted other).key := by
    rw [named, FiniteMap.lookup_insert_ite, if_pos rfl]
  have valueNamed : again.outpointToKey.lookup (minted value) = some (minted value).key := by
    rw [named, FiniteMap.lookup_insert_ite, if_neg apart, FiniteMap.lookup_insert_ite, if_pos rfl]
  have unmarked : again.pruneMarkers = ∅ := by rw [markersAgain, markersBack, markers, started]
  have stored : VerkleTree.storedNode again.tree.storage (minted other).key.bytes = true :=
    (leaves (minted other).key).mpr (.inr (.inl rfl))
  have missing : VerkleTree.storedNode again.tree.storage (minted value).key.bytes = false := by
    rw [← Bool.not_eq_true]
    intro there
    rcases (leaves (minted value).key).mp there with before | same | supplyLeaf
    · rw [storage, empty] at before
      cases before
    · exact different same
    · exact beside supplyLeaf
  rw [reached]
  refine breaks_off apart.symm ?_ otherNamed valueNamed stored missing
  rw [markOutpointForPruning, markOutpointForPruning, unmarked]

/-- The coin of five is pruned after the coin of seven, and the cycle breaks off between them. -/
theorem stranded_coin_breaks_off : ∃ order, ¬ Runs.Meets Session.step ⟨manager, .new⟩ PrunesExactly
    (stranding 5 7 ++ [.executePruningCycle order 0]) := by
  obtain ⟨order, broken⟩ := stranded manager_built.coherent 5 7 ((burn_update_none _).mp (by decide +kernel))
    ((burn_update_none _).mp (by decide +kernel)) (by decide) (by decide) (by decide +kernel) (by decide +kernel)
    (by decide +kernel) .new
  exact ⟨order, fun exact => broken (cycle_exact_iff.mp (exact _ _ List.prefix_rfl))⟩

end Stranded
end Klomang.StateManager
