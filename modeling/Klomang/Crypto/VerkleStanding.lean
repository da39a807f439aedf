import Klomang.Crypto.VerkleTree
import Klomang.State.VTrieRuns

/-! What the root of the tree with opening proofs commits to, apart from its caches. A pruned leaf is
deleted from the storage, but the commitments recorded on its path go on standing for it, until a key
with the same first 31 bytes is inserted: then the last inner node is computed anew, from the leaves
that are stored. -/
namespace Klomang.Crypto

open Klomang.VerkleTree (keySize keyForPath key_for_path_injective key_off_path key_size_eq length_key
  serializeNode deserializeNode storedNode storedValue commitmentAt node_commitment_congr)

/-- What a storage answers. -/
abbrev Contents := List UInt8 → Option (List UInt8)

instance : Storage Contents where
  get contents key := contents key
  put contents key value := Function.update contents key (some value)
  delete contents key := Function.update contents key none
  clear _ := fun _ => none
  get_put contents key value other := Function.update_apply contents key (some value) other
  get_delete contents key other := Function.update_apply contents key none other
  get_clear _ _ := rfl

section Writes
variable {S : Type} [Storage S]

/-- A storage as its contents. -/
def contentsOf (storage : S) : Contents := Storage.get storage

/-- A storage with a node at a path. -/
def ensured (storage : S) (path : List UInt8) : S :=
  if (Storage.get storage (keyForPath path)).isNone then
    Storage.put storage (keyForPath path) (serializeNode none)
  else storage

/-- A storage with all nodes down to a leaf, and a value there. -/
def written (storage : S) (key : Bytes32) (value : List UInt8) : S :=
  Storage.put (key.bytes.inits.foldl ensured storage) (keyForPath key.bytes) (serializeNode (some value))

theorem get_ensured (storage : S) (path other : List UInt8) :
    Storage.get (ensured storage path) other =
      if other = keyForPath path then (Storage.get storage other).or (some (serializeNode none))
      else Storage.get storage other := by
  rw [ensured]
  cases found : Storage.get storage (keyForPath path) with
  | none =>
    rw [Option.isNone_none, if_pos rfl, Storage.get_put]
    split
    · rename_i same
      rw [same, found]
      rfl
    · rfl
  | some value =>
    rw [Option.isNone_some, if_neg Bool.false_ne_true]
    split
    · rename_i same
      rw [same, found]
      rfl
    · rfl

theorem get_ensure_all (paths : List (List UInt8)) (storage : S) (other : List UInt8) :
    Storage.get (paths.foldl ensured storage) other =
      if ∃ path ∈ paths, other = keyForPath path then (Storage.get storage other).or (some (serializeNode none))
      else Storage.get storage other := by
  induction paths generalizing storage with
  | nil => simp
  | cons path rest ih =>
    rw [List.foldl_cons, ih, get_ensured]
    by_cases here : other = keyForPath path
    · by_cases there : ∃ path ∈ rest, other = keyForPath path
      · rw [if_pos there, if_pos here, if_pos ⟨path, List.mem_cons_self, here⟩, Option.or_assoc, Option.or_self]
      · rw [if_neg there, if_pos here, if_pos ⟨path, List.mem_cons_self, here⟩]
    · simp [here]

/-- What is stored after a write. -/
theorem get_written (storage : S) (key : Bytes32) (value other : List UInt8) :
    Storage.get (written storage key value) other =
      if other = keyForPath key.bytes then some (serializeNode (some value))
      else if ∃ path ∈ key.bytes.inits, other = keyForPath path then
        (Storage.get storage other).or (some (serializeNode none))
      else Storage.get storage other := by
  rw [written, Storage.get_put, get_ensure_all]

theorem contents_of_written (storage : S) (key : Bytes32) (value : List UInt8) :
    contentsOf (written storage key value) = written (contentsOf storage) key value := by
  funext other
  have left := get_written storage key value other
  have right := get_written (contentsOf storage) key value other
  exact left.trans right.symm

/-- A write leaves alone what is not on its path. -/
theorem get_written_off (storage : S) {key : Bytes32} (value : List UInt8) {node : List UInt8}
    (off : ¬ node <+: key.bytes) :
    Storage.get (written storage key value) (keyForPath node) = Storage.get storage (keyForPath node) := by
  rw [get_written, if_neg, if_neg]
  · rintro ⟨path, on, same⟩
    exact off (key_for_path_injective same ▸ (List.mem_inits path key.bytes).mp on)
  · intro same
    exact off (key_for_path_injective same ▸ List.prefix_rfl)

end Writes

section Values
variable {contents left right : Contents} {path : List UInt8}

/-- The value that a node holds. -/
theorem stored_value_eq {node : Option (List UInt8)} (found : contents (keyForPath path) = node) :
    storedValue contents path = (node.bind deserializeNode).join :=
  congrArg (fun node => (node.bind deserializeNode).join) found

theorem stored_value_congr (same : left (keyForPath path) = right (keyForPath path)) :
    storedValue left path = storedValue right path := stored_value_eq same

theorem stored_value_none (missing : contents (keyForPath path) = none) : storedValue contents path = none :=
  stored_value_eq missing

end Values

/-- Keys with the same first 31 bytes: their leaves are children of one node. -/
def Siblings (left right : Bytes32) : Prop := left.bytes.take 31 = right.bytes.take 31

instance (left right : Bytes32) : Decidable (Siblings left right) := by
  unfold Siblings
  infer_instance

/-- The contents that the root commits to, and the keys that are pruned. -/
structure Standing where
  contents : Contents
  pruned : Finset Bytes32

namespace Standing

/-- What is left in the storage. -/
def stored (standing : Standing) : Contents := fun path =>
  if ∃ key ∈ standing.pruned, path = keyForPath key.bytes then none else standing.contents path

/-- The contents without the pruned siblings of a key. -/
def dropped (standing : Standing) (key : Bytes32) : Contents := fun path =>
  if ∃ other ∈ standing.pruned, Siblings other key ∧ path = keyForPath other.bytes then none
  else standing.contents path

/-- A new tree over a storage. -/
def start (contents : Contents) : Standing := ⟨ensured contents [], ∅⟩

/-- An insertion drops the pruned siblings of its key. -/
def insert (standing : Standing) (key : Bytes32) (value : List UInt8) : Standing :=
  ⟨written (standing.dropped key) key value, standing.pruned.erase key⟩

/-- Pruning a key that is stored leaves the contents as they are. -/
def prune (standing : Standing) (key : Bytes32) : Standing :=
  if (standing.stored (keyForPath key.bytes)).isSome then
    ⟨standing.contents, Insert.insert key standing.pruned⟩
  else standing

/-- The root is stored, or nothing is. -/
def Rooted (standing : Standing) : Prop :=
  storedNode standing.contents [] = true ∨ ∀ path, standing.contents path = none

variable {standing : Standing} {key other : Bytes32} {path : List UInt8}

theorem stored_pruned (pruned : key ∈ standing.pruned) : standing.stored (keyForPath key.bytes) = none :=
  if_pos ⟨key, pruned, rfl⟩

theorem stored_unpruned (unpruned : key ∉ standing.pruned) :
    standing.stored (keyForPath key.bytes) = standing.contents (keyForPath key.bytes) := by
  refine if_neg ?_
  rintro ⟨other, pruned, same⟩
  rw [Bytes32.ext (key_for_path_injective same)] at unpruned
  exact unpruned pruned

/-- Inner nodes are never pruned. -/
theorem stored_inner (inner : path.length ≠ keySize) :
    standing.stored (keyForPath path) = standing.contents (keyForPath path) := by
  refine if_neg ?_
  rintro ⟨other, _, same⟩
  rw [key_for_path_injective same] at inner
  exact inner (length_key other)

theorem dropped_inner (inner : path.length ≠ keySize) :
    standing.dropped key (keyForPath path) = standing.contents (keyForPath path) := by
  refine if_neg ?_
  rintro ⟨other, _, _, same⟩
  rw [key_for_path_injective same] at inner
  exact inner (length_key other)

/-- A path of the length of a key, as a key. -/
theorem exists_key (leaf : path.length = keySize) : ∃ key : Bytes32, path = key.bytes :=
  ⟨⟨path, leaf.trans key_size_eq⟩, rfl⟩

theorem take_snoc (leaf : path.length + 1 = keySize) (child : UInt8) : (path ++ [child]).take 31 = path := by
  refine List.take_left' ?_
  rw [key_size_eq] at leaf
  omega

theorem dropped_leaf (key other : Bytes32) :
    standing.dropped key (keyForPath other.bytes) =
      if other ∈ standing.pruned ∧ Siblings other key then none else standing.contents (keyForPath other.bytes) := by
  rw [dropped]
  refine if_congr ?_ rfl rfl
  constructor
  · rintro ⟨found, pruned, siblings, same⟩
    obtain rfl := Bytes32.ext (key_for_path_injective same)
    exact ⟨pruned, siblings⟩
  · rintro ⟨pruned, siblings⟩
    exact ⟨other, pruned, siblings, rfl⟩

/-- The stored contents after an insertion. -/
theorem stored_insert (standing : Standing) (key : Bytes32) (value : List UInt8) :
    (standing.insert key value).stored = written standing.stored key value := by
  funext raw
  have left := get_written (standing.dropped key) key value raw
  have right := get_written standing.stored key value raw
  change written standing.stored key value raw = _ at right
  change written (standing.dropped key) key value raw = _ at left
  rw [right, stored, insert]
  dsimp only
  rw [left]
  by_cases leaf : raw = keyForPath key.bytes
  · rw [if_pos leaf, if_pos leaf, if_neg]
    rintro ⟨found, pruned, same⟩
    rw [leaf] at same
    exact Finset.ne_of_mem_erase pruned (Bytes32.ext (key_for_path_injective same)).symm
  · rw [if_neg leaf, if_neg leaf]
    by_cases gone : ∃ found ∈ standing.pruned.erase key, raw = keyForPath found.bytes
    · obtain ⟨found, pruned, rfl⟩ := gone
      obtain ⟨different, member⟩ := Finset.mem_erase.mp pruned
      have off : ¬ ∃ path ∈ key.bytes.inits, keyForPath found.bytes = keyForPath path := by
        rintro ⟨path, on, same⟩
        rw [← key_for_path_injective same] at on
        exact key_off_path different ((List.mem_inits _ _).mp on)
      rw [if_pos ⟨found, pruned, rfl⟩, if_neg off]
      exact (stored_pruned member).symm
    · have kept : ¬ ∃ found ∈ standing.pruned, raw = keyForPath found.bytes := by
        rintro ⟨found, pruned, same⟩
        refine gone ⟨found, Finset.mem_erase.mpr ⟨?_, pruned⟩, same⟩
        rintro rfl
        exact leaf same
      have undropped : standing.dropped key raw = standing.contents raw := by
        refine if_neg ?_
        rintro ⟨found, pruned, _, same⟩
        exact kept ⟨found, pruned, same⟩
      have unpruned : standing.stored raw = standing.contents raw := if_neg kept
      rw [if_neg gone]
      change (if _ then (standing.dropped key raw).or _ else standing.dropped key raw) =
        if _ then (standing.stored raw).or _ else standing.stored raw
      rw [undropped, unpruned]

theorem stored_prune (standing : Standing) (key : Bytes32) :
    (standing.prune key).stored =
      if (standing.stored (keyForPath key.bytes)).isSome then
        Storage.delete standing.stored (keyForPath key.bytes)
      else standing.stored := by
  rw [prune]
  split
  · funext raw
    have deleted := Storage.get_delete standing.stored (keyForPath key.bytes) raw
    refine Eq.trans ?_ deleted.symm
    rw [stored]
    dsimp only
    simp only [Finset.mem_insert, exists_eq_or_imp]
    by_cases same : raw = keyForPath key.bytes
    · rw [if_pos (.inl same), if_pos same]
    · rw [if_neg same]
      refine if_congr ?_ rfl rfl
      rw [or_iff_right same]
  · rfl

/-- Nothing is dropped off the path of a key, its pruned siblings excepted. -/
theorem dropped_off (standing : Standing) {below : List UInt8} (off : ¬ path <+: key.bytes)
    (kept : ∀ other ∈ standing.pruned, Siblings other key → path = other.bytes →
      standing.contents (keyForPath path) = none) (above : path <+: below) :
    standing.dropped key (keyForPath below) = standing.contents (keyForPath below) := by
  by_cases gone : ∃ other ∈ standing.pruned, Siblings other key ∧ keyForPath below = keyForPath other.bytes
  · obtain ⟨other, pruned, siblings, same⟩ := gone
    obtain rfl := key_for_path_injective same
    -- a proper prefix of a sibling is on the path of the key
    have whole : path = other.bytes := by
      by_contra proper
      have width := key_size_eq ▸ length_key other
      have short : path.length ≤ 31 := by
        have bound := above.length_le
        by_contra long
        exact proper (above.eq_of_length (by omega))
      have shared := List.prefix_take_iff.mpr ⟨above, short⟩
      rw [siblings] at shared
      exact off (shared.trans (List.take_prefix _ _))
    subst whole
    have empty := kept other pruned siblings rfl
    rw [empty]
    exact if_pos ⟨other, pruned, siblings, rfl⟩
  · exact if_neg gone

variable [Blake3] [Bandersnatch]

/-- The paths off an insertion keep their commitments, the dropped leaves excepted. -/
theorem commitment_insert_off (standing : Standing) (value : List UInt8) (off : ¬ path <+: key.bytes)
    (kept : ∀ other ∈ standing.pruned, Siblings other key → path = other.bytes →
      standing.contents (keyForPath path) = none) :
    commitmentAt (standing.insert key value).contents path = commitmentAt standing.contents path := by
  refine node_commitment_congr _ path fun below above => ?_
  have deeper : ¬ below <+: key.bytes := fun on => off (above.trans on)
  exact (get_written_off (standing.dropped key) value deeper).trans (standing.dropped_off off kept above)

/-- So do the inner nodes off the path of a key when its pruned siblings are dropped. -/
theorem commitment_dropped_off (standing : Standing) (off : ¬ path <+: key.bytes) (inner : path.length ≠ keySize) :
    commitmentAt (standing.dropped key) path = commitmentAt standing.contents path := by
  refine node_commitment_congr _ path fun below above => standing.dropped_off off ?_ above
  rintro other _ _ rfl
  exact absurd (length_key other) inner

end Standing
end Klomang.Crypto
