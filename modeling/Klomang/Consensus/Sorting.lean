import Klomang.Consensus.GhostDag
import Klomang.Dag.Changes

/-! `topological_sort` over any list of hashes: repeated hashes count once, and unknown hashes have neither parents nor
children. -/
namespace Klomang.GhostDag

variable {ghostDag : GhostDag} {dag : Dag} {nodes : List Hash} {id node source : Hash}

/-- The parents of a block that are in the list. -/
def listedParents (dag : Dag) (nodes : List Hash) (hash : Hash) : Finset Hash :=
  (dag.parentsOf hash).toFinset ∩ nodes.toFinset

/-- The children of a block that are in the list, in order. -/
def listedChildren (dag : Dag) (nodes : List Hash) (current : Hash) : List Hash :=
  match dag.getBlock current with
  | some block => ascending (block.children ∩ nodes.toFinset)
  | none => []

/-- The counts that the sort starts with. -/
def listedIndegree (dag : Dag) (nodes : List Hash) (hash : Hash) : Nat :=
  match dag.getBlock hash with
  | some block => (block.header.parents ∩ nodes.toFinset).card
  | none => 0

/-- The queue that the sort starts with. -/
def readyNodes (dag : Dag) (nodes : List Hash) : List Hash :=
  (ascending (nodes.toFinset.filter fun hash => listedIndegree dag nodes hash = 0)).reverse

theorem mem_listed_parents : source ∈ listedParents dag nodes node ↔ dag.ParentOf source node ∧ source ∈ nodes := by
  rw [listedParents, Finset.mem_inter, List.mem_toFinset, List.mem_toFinset, Dag.mem_parents_of]

theorem mem_listed_children : node ∈ listedChildren dag nodes source ↔ dag.ChildOf node source ∧ node ∈ nodes := by
  unfold listedChildren Dag.ChildOf
  cases dag.getBlock source with
  | none => simp
  | some block => simp

theorem listed_indegree (node : Hash) : listedIndegree dag nodes node = (listedParents dag nodes node).card := by
  unfold listedIndegree listedParents Dag.parentsOf
  cases dag.getBlock node with
  | none => simp
  | some block => simp

/-- The part of a linked graph within a list is a graph on the hashes of the list. -/
theorem listed_graph (linked : dag.Linked) (nodes : List Hash) :
    TopologicalOrder.Graph nodes.toFinset (listedParents dag nodes) (listedChildren dag nodes) where
  inside _ _ := Finset.inter_subset_right
  edges := by
    intro source member child
    rw [mem_listed_children, mem_listed_parents, linked.children, List.mem_toFinset]
    constructor
    · rintro ⟨parent, listed⟩
      exact ⟨listed, parent, List.mem_toFinset.mp member⟩
    · rintro ⟨listed, parent, _⟩
      exact ⟨parent, listed⟩
  once := by
    intro source _
    unfold listedChildren
    split
    · exact ascending_nodup _
    · exact List.nodup_nil
  ranked := by
    obtain ⟨rank, ranked⟩ := linked.ranked
    exact ⟨rank, fun child _ source edge => ranked source child (mem_listed_parents.mp edge).1⟩

theorem listed_state (dag : Dag) (nodes : List Hash) :
    TopologicalOrder.State nodes.toFinset (listedParents dag nodes) (listedIndegree dag nodes) (readyNodes dag nodes) [] := by
  refine TopologicalOrder.state_initial (fun node _ => listed_indegree node) ?_ fun node => ?_
  · exact List.nodup_reverse.mpr (ascending_nodup _)
  · rw [readyNodes, List.mem_reverse, mem_ascending]
    exact Finset.mem_filter

/-- `topological_sort` lists the hashes of a list once each, and none before one of its parents. -/
theorem topological_sort_listing (ghostDag : GhostDag) (linked : dag.Linked) (nodes : List Hash) :
    TopologicalOrder.Listing nodes.toFinset (listedParents dag nodes) (ghostDag.topologicalSort dag nodes) :=
  TopologicalOrder.loop_listing (listed_graph linked nodes) (listed_state dag nodes) (by simp)

/-- `topological_sort` over any additions and removals and any list of hashes: its loop ends, every hash of the list is
returned exactly once, and a parent in the list comes before its children. -/
theorem topological_sort_sorts (ghostDag : GhostDag) (changes : List Dag.Change) (nodes : List Hash) :
    TopologicalOrder.Ends (listedChildren (Dag.built changes) nodes) (listedIndegree (Dag.built changes) nodes)
      (readyNodes (Dag.built changes) nodes) [] (ghostDag.topologicalSort (Dag.built changes) nodes) ∧
    (ghostDag.topologicalSort (Dag.built changes) nodes).Nodup ∧
    (∀ node, node ∈ ghostDag.topologicalSort (Dag.built changes) nodes ↔ node ∈ nodes) ∧
    ∀ parent child, (Dag.built changes).ParentOf parent child → parent ∈ nodes → child ∈ nodes →
      (ghostDag.topologicalSort (Dag.built changes) nodes).idxOf parent <
        (ghostDag.topologicalSort (Dag.built changes) nodes).idxOf child := by
  have linked := Dag.built_linked changes
  have listing := topological_sort_listing ghostDag linked nodes
  refine ⟨?_, listing.nodup, fun node => ?_, fun parent child edge parentIn childIn => ?_⟩
  · exact TopologicalOrder.loop_ends (listed_graph linked nodes) (listed_state _ nodes) (by simp)
  · rw [listing.complete, List.mem_toFinset]
  · have apart : parent ≠ child := by
      rintro rfl
      exact linked.past_irreflexive parent (.single edge)
    exact listing.idxOf_lt (mem_listed_parents.mpr ⟨edge, parentIn⟩) apart (List.mem_toFinset.mpr parentIn)
      (List.mem_toFinset.mpr childIn)

end Klomang.GhostDag
