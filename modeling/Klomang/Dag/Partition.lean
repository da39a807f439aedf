import Klomang.Dag.Changes

/-! Past, future and anticone. Four traversals read the same relation off the links of a graph,
and together with a block itself they divide the graph. -/
namespace Klomang.Dag
variable {dag : Dag} {x y z : Hash}

/-- `is_ancestor` is the past: no block of a linked graph is its own ancestor anyway. -/
theorem Linked.is_ancestor_iff_past (linked : dag.Linked) : dag.isAncestor x y = true ↔ dag.Past x y := by
  rw [is_ancestor_iff, ← mem_get_ancestors, mem_get_ancestors_iff_past]
  refine ⟨fun both => both.2, fun path => ⟨?_, path⟩⟩
  rintro rfl
  exact linked.past_irreflexive x path

theorem Linked.mem_anticone_comm (linked : dag.Linked) (first : x ∈ dag.blocks.keys) (second : y ∈ dag.blocks.keys) :
    x ∈ dag.getAnticone y ↔ y ∈ dag.getAnticone x := by
  rw [linked.mem_anticone, linked.mem_anticone]
  constructor
  · rintro ⟨_, different, before, behind⟩
    exact ⟨second, different.symm, behind, before⟩
  · rintro ⟨_, different, before, behind⟩
    exact ⟨first, different.symm, behind, before⟩

/-- A block, its past, its future and its anticone are the whole graph, each block once. -/
theorem Linked.divides (linked : dag.Linked) (known : y ∈ dag.blocks.keys) :
    (y :: (dag.getAncestors y ++ dag.getDescendants y ++ dag.getAnticone y)).Perm dag.getAllHashes := by
  have past : ∀ node, node ∈ dag.getAncestors y ↔ dag.Past node y := fun _ => mem_get_ancestors_iff_past
  have future : ∀ node, node ∈ dag.getDescendants y ↔ dag.Past y node :=
    fun _ => linked.mem_get_descendants_iff_past
  have apart : ∀ node, dag.Past node y → ¬ dag.Past y node :=
    fun node before behind => linked.past_irreflexive y (behind.trans before)
  have distinct : (y :: (dag.getAncestors y ++ dag.getDescendants y ++ dag.getAnticone y)).Nodup := by
    rw [List.nodup_cons, List.nodup_append', List.nodup_append']
    refine ⟨?_, ⟨ascending_nodup _, (get_descendants_lists dag y).1, ?_⟩, ?_, ?_⟩
    · simp only [List.mem_append, past, future, linked.mem_anticone, ne_eq, not_true_eq_false, false_and,
        and_false, or_false, or_self]
      exact linked.past_irreflexive y
    · intro node before behind
      exact apart node ((past node).mp before) ((future node).mp behind)
    · exact (ascending_nodup dag.blocks.keys).filter _
    · intro node ordered aside
      obtain ⟨_, _, notBefore, notBehind⟩ := linked.mem_anticone.mp aside
      rcases List.mem_append.mp ordered with before | behind
      · exact notBefore ((past node).mp before)
      · exact notBehind ((future node).mp behind)
  refine (List.perm_ext_iff_of_nodup distinct (ascending_nodup _)).mpr fun node => ?_
  simp only [List.mem_cons, List.mem_append, past, future, linked.mem_anticone, mem_ascending]
  constructor
  · rintro (rfl | (before | behind) | ⟨stored, _⟩)
    · exact known
    · exact linked.past_stored before
    · exact past_child_stored behind
    · exact stored
  · intro stored
    by_cases same : node = y
    · exact .inl same
    by_cases before : dag.Past node y
    · exact .inr (.inl (.inl before))
    by_cases behind : dag.Past y node
    · exact .inr (.inl (.inr behind))
    · exact .inr (.inr ⟨stored, same, before, behind⟩)

/-- The traversals over any additions and removals. `is_ancestor`, `get_ancestors` and
`get_descendants` all read the parent paths; being an ancestor is irreflexive and transitive, the
anticone is symmetric, and a block, its past, its future and its anticone divide the graph. -/
theorem traversals_agree (changes : List Change) (first : x ∈ (built changes).blocks.keys)
    (second : y ∈ (built changes).blocks.keys) :
    ((built changes).isAncestor x y = true ↔ x ∈ (built changes).getAncestors y) ∧
    ((built changes).isAncestor x y = true ↔ y ∈ (built changes).getDescendants x) ∧
    ((built changes).isAncestor x y = true ↔ (built changes).Past x y) ∧
    (built changes).isAncestor x x = false ∧
    (∀ z, (built changes).isAncestor x y = true → (built changes).isAncestor y z = true →
      (built changes).isAncestor x z = true) ∧
    (x ∈ (built changes).getAnticone y ↔ y ∈ (built changes).getAnticone x) ∧
    (y :: ((built changes).getAncestors y ++ (built changes).getDescendants y ++
      (built changes).getAnticone y)).Perm (built changes).getAllHashes := by
  have linked := built_linked changes
  refine ⟨?_, ?_, linked.is_ancestor_iff_past, ?_, ?_, linked.mem_anticone_comm first second, linked.divides second⟩
  · rw [linked.is_ancestor_iff_past, mem_get_ancestors_iff_past]
  · rw [linked.is_ancestor_iff_past, linked.mem_get_descendants_iff_past]
  · rw [Bool.eq_false_iff, Ne, linked.is_ancestor_iff_past]
    exact linked.past_irreflexive x
  · intro z before behind
    simp only [linked.is_ancestor_iff_past] at before behind ⊢
    exact before.trans behind

/-- A block with a child on a graph from which another child was removed. -/
theorem parent_before_child : (built [.empty 1 ∅, .empty 2 {.replicate 1}, .empty 3 {.replicate 1},
    .remove (.replicate 2)]).isAncestor (.replicate 1) (.replicate 3) = true :=
  (traversals_agree _ (by decide +kernel) (by decide +kernel)).1.mpr (by decide +kernel)

end Klomang.Dag
