import Klomang.Crypto.VerkleStanding

/-! The values that contents hold at their leaves. The root is that of the values that are proven, that is
found at the end of a path of stored nodes. -/
namespace Klomang.Crypto

open Klomang.VerkleTree (keySize keyForPath key_for_path_injective key_off_path key_size_eq serializeNode deserializeNode
  deserialize_serialize_node storedNode storedValue pathStored path_stored_iff path_stored_snoc provenValue rootAt
  root_at_root root_at_labelled root_at_leaf vectorRoot committed commitmentRootHash commitment_at_inner storageRoot
  storageProof opening_accepted Accepted)

section Values
variable {standing : Standing} {contents : Contents} {key other : Bytes32} {path : List UInt8}

/-- The value at a leaf after a write. -/
theorem value_written (contents : Contents) (key other : Bytes32) (value : List UInt8) :
    storedValue (written contents key value) other.bytes =
      if other = key then (deserializeNode (serializeNode (some value))).join else storedValue contents other.bytes := by
  have found := get_written contents key value (keyForPath other.bytes)
  split
  · rename_i same
    subst same
    rw [if_pos rfl] at found
    exact stored_value_eq found
  · rename_i apart
    exact stored_value_congr (get_written_off contents value (key_off_path apart))

theorem value_dropped (standing : Standing) (key other : Bytes32) :
    storedValue (standing.dropped key) other.bytes =
      if other ∈ standing.pruned ∧ Siblings other key then none else storedValue standing.contents other.bytes := by
  have leaf := standing.dropped_leaf key other
  split
  · rename_i both
    rw [if_pos both] at leaf
    exact stored_value_none leaf
  · rename_i apart
    rw [if_neg apart] at leaf
    exact stored_value_congr leaf

theorem short_parent (key : Bytes32) : (key.bytes.take 31).length < keySize := by
  rw [List.length_take, key_size_eq]
  omega

/-- A value is proven when the node above it is, and it is there. -/
theorem proven_value_eq (contents : Contents) (key : Bytes32) :
    provenValue contents key =
      if pathStored contents (key.bytes.take 31) then storedValue contents key.bytes else none := by
  have width : key.bytes.length = 32 := key.size
  have long : 31 < key.bytes.length := by omega
  obtain ⟨last, split⟩ : ∃ last, key.bytes = key.bytes.take 31 ++ [last] := by
    refine ⟨key.bytes[31], ?_⟩
    rw [List.take_append_getElem, List.take_of_length_le (by omega)]
  have whole : pathStored contents key.bytes = (pathStored contents (key.bytes.take 31) && storedNode contents key.bytes) := by
    have snoc : pathStored contents (key.bytes.take 31 ++ [last]) =
        (pathStored contents (key.bytes.take 31) && storedNode contents (key.bytes.take 31 ++ [last])) :=
      path_stored_snoc last
    rw [← split] at snoc
    exact snoc
  rw [provenValue, whole]
  by_cases above : pathStored contents (key.bytes.take 31) = true
  · rw [above, Bool.true_and, if_pos rfl]
    by_cases there : storedNode contents key.bytes = true
    · rw [if_pos there]
    · rw [if_neg there]
      refine (stored_value_none ?_).symm
      exact Option.not_isSome_iff_eq_none.mp there
  · rw [if_neg above, if_neg]
    rw [Bool.not_eq_true _ |>.mp above, Bool.false_and]
    exact Bool.false_ne_true

theorem Standing.undropped (unpruned : standing.pruned = ∅) (key : Bytes32) : standing.dropped key = standing.contents := by
  funext raw
  refine if_neg ?_
  rw [unpruned]
  simp

/-- Paths of inner nodes are stored alike in contents with the same inner nodes. -/
theorem path_stored_congr {left right : Contents}
    (inner : ∀ node : List UInt8, node.length ≠ keySize → left (keyForPath node) = right (keyForPath node))
    (short : path.length < keySize) : pathStored left path = pathStored right path := by
  rw [Bool.eq_iff_iff, path_stored_iff, path_stored_iff]
  refine forall₂_congr fun node above => ?_
  have same : storedNode left node = storedNode right node := by
    have bound := above.length_le
    exact congrArg Option.isSome (inner node (by omega))
  rw [same]

/-- A write leaves the nodes on its path, and those that were there. -/
theorem path_stored_written (contents : Contents) (key : Bytes32) (value : List UInt8)
    (there : path <+: key.bytes ∨ pathStored contents path = true) :
    pathStored (written contents key value) path = true := by
  refine path_stored_iff.mpr fun node above => ?_
  have found := get_written contents key value (keyForPath node)
  have stored : node ∈ key.bytes.inits ∨ (contents (keyForPath node)).isSome = true := by
    rcases there with on | already
    · exact .inl ((List.mem_inits _ _).mpr (above.trans on))
    · exact .inr (path_stored_iff.mp already node above)
  refine (congrArg Option.isSome found).trans ?_
  split
  · rfl
  · split
    · exact Option.isSome_or.trans (Bool.or_true _)
    · rename_i off
      exact stored.resolve_left fun member => off ⟨node, member, rfl⟩

/-- Contents with the values of a list, all of them proven. Of two values of a key the first one counts. -/
structure Lists (contents : Contents) (held : List (Bytes32 × List UInt8)) : Prop where
  value : ∀ key : Bytes32, storedValue contents key.bytes = held.lookup key
  proven : ∀ key, provenValue contents key = held.lookup key

theorem lists_nothing (empty : ∀ key : Bytes32, storedValue contents key.bytes = none) : Lists contents [] where
  value := empty
  proven key := by rw [proven_value_eq, empty, ite_self, List.lookup_nil]

theorem Lists.written {held : List (Bytes32 × List UInt8)} (lists : Lists contents held) (key : Bytes32)
    {value : List UInt8} (short : value.length < 2 ^ 32) : Lists (written contents key value) ((key, value) :: held) := by
  have found : ∀ other : Bytes32, storedValue (Crypto.written contents key value) other.bytes =
      ((key, value) :: held).lookup other := by
    intro other
    rw [value_written, deserialize_serialize_node short, List.lookup_cons]
    by_cases same : other = key
    · rw [if_pos same, beq_iff_eq.mpr same]
      rfl
    · rw [if_neg same, beq_eq_false_iff_ne.mpr same]
      exact lists.value other
  refine ⟨found, fun other => ?_⟩
  rw [proven_value_eq, found]
  split
  · rfl
  · rename_i missing
    by_cases same : other = key
    · refine absurd (path_stored_written contents key value (.inl ?_)) missing
      rw [same]
      exact List.take_prefix _ _
    · have before := lists.proven other
      have absent : pathStored contents (other.bytes.take 31) ≠ true :=
        fun there => missing (path_stored_written contents key value (.inr there))
      rw [proven_value_eq, if_neg absent] at before
      rw [List.lookup_cons, beq_eq_false_iff_ne.mpr same]
      exact before

theorem lists_start : Lists (Standing.start (contentsOf (∅ : MemoryStorage))).contents [] := by
  refine lists_nothing fun key => stored_value_none ?_
  have found := get_ensured (contentsOf (∅ : MemoryStorage)) [] (keyForPath key.bytes)
  have apart : keyForPath key.bytes ≠ keyForPath [] := by
    intro same
    have width := congrArg List.length (key_for_path_injective same)
    rw [key.size] at width
    cases width
  rw [if_neg apart] at found
  exact found

theorem Lists.insert {held : List (Bytes32 × List UInt8)} (lists : Lists standing.contents held)
    (unpruned : standing.pruned = ∅) (key : Bytes32) {value : List UInt8} (short : value.length < 2 ^ 32) :
    Lists (standing.insert key value).contents ((key, value) :: held) := by
  rw [Standing.insert, Standing.undropped unpruned]
  exact lists.written key short

/-- A key that has just been inserted is pruned. -/
theorem Standing.prune_inserted (unpruned : standing.pruned = ∅) (key : Bytes32) (value : List UInt8) :
    (standing.insert key value).prune key = ⟨(standing.insert key value).contents, {key}⟩ := by
  have none : (standing.insert key value).pruned = ∅ := by
    rw [Standing.insert, unpruned]
    rfl
  have there : ((standing.insert key value).stored (keyForPath key.bytes)).isSome = true := by
    rw [Standing.stored_unpruned (by rw [none]; exact Finset.notMem_empty key)]
    have found := get_written (standing.dropped key) key value (keyForPath key.bytes)
    rw [if_pos rfl] at found
    exact congrArg Option.isSome found
  rw [Standing.prune, if_pos there, none]
  rfl

end Values

section Roots
variable [Blake3] [Bandersnatch] {standing : Standing} {left right : Contents}

/-- A root depends on the proven values alone. -/
theorem root_of_proven (same : ∀ key, provenValue left key = provenValue right key) :
    rootAt left [] = rootAt right [] := by
  refine (root_at_labelled left).agree (root_at_labelled right) (fun leaf width => ?_) [] (Nat.zero_le _)
  obtain ⟨key, rfl⟩ := Standing.exists_key width
  rw [root_at_leaf, root_at_leaf, same]

theorem Standing.Rooted.root (rooted : standing.Rooted) : rootAt standing.contents [] = storageRoot standing.contents := by
  rcases rooted with stored | empty
  · exact root_at_root stored
  · have absent : ∀ path, storedNode standing.contents path = false := fun path => congrArg Option.isSome (empty _)
    have labelled := root_at_labelled standing.contents [] (by rw [key_size_eq]; decide)
    have levels : ([] : List UInt8).length + (31 + 1) = keySize := key_size_eq.symm
    rw [labelled, storageRoot, commitment_at_inner _ levels, vectorRoot]
    refine congrArg (fun coeffs => commitmentRootHash (committed coeffs)) (List.map_congr_left fun child _ => ?_)
    have below : keySize - (([] : List UInt8) ++ [child]).length = 31 := by
      rw [key_size_eq, List.nil_append, List.length_singleton]
    rw [absent, if_neg Bool.false_ne_true, rootAt, path_stored_snoc, absent, Bool.and_false, if_neg Bool.false_ne_true,
      below]

omit [Blake3] [Bandersnatch] in
theorem Standing.Rooted.dropped (rooted : standing.Rooted) (key : Bytes32) : Rooted ⟨standing.dropped key, ∅⟩ := by
  have inner : ([] : List UInt8).length ≠ keySize := by
    rw [key_size_eq]
    decide
  rcases rooted with stored | empty
  · exact .inl ((congrArg Option.isSome (Standing.dropped_inner inner)).trans stored)
  · refine .inr fun raw => ?_
    dsimp only
    rw [Standing.dropped, empty, ite_self]

/-- Rooted contents prove what they hold. -/
theorem Standing.Rooted.accepted (rooted : standing.Rooted) (key : Bytes32) :
    Accepted (storageProof standing.contents key none) := by
  refine opening_accepted (root_at_labelled standing.contents) key rfl rfl ?_ (root_at_leaf standing.contents key)
    rooted.root rfl
  dsimp only [storageProof]
  split <;> simp_all

end Roots
end Klomang.Crypto
