import Mathlib.Data.Finset.Card
import Mathlib.Data.List.Nodup
import Mathlib.Logic.Function.Basic
import Mathlib.Order.Basic

/-! Ordering an acyclic graph by counting predecessors. A node enters the queue
when the last of its predecessors has been listed; the listing holds every node
once and no node before one of its predecessors, whichever end the queue is
taken from. -/
namespace Klomang.TopologicalOrder
variable {α : Type} [DecidableEq α]

/-- Lower the count of each child in turn and queue those that reach zero. -/
def release : List α → (α → Nat) → List α → (α → Nat) × List α
  | [], indegree, queue => (indegree, queue)
  | child :: rest, indegree, queue =>
    let lowered := Function.update indegree child (indegree child - 1)
    release rest lowered (if lowered child = 0 then child :: queue else queue)

/-- List the head of the queue and release its children until none is left. -/
def loop (children : α → List α) : Nat → (α → Nat) → List α → List α → List α
  | 0, _, _, sorted => sorted
  | _ + 1, _, [], sorted => sorted
  | fuel + 1, indegree, current :: queue, sorted =>
    let released := release (children current) indegree queue
    loop children fuel released.1 released.2 (sorted ++ [current])

/-- The same loop without fuel: from some counts, a queue and a listing it ends with a listing. -/
inductive Ends (children : α → List α) : (α → Nat) → List α → List α → List α → Prop
  | drained {indegree : α → Nat} {sorted : List α} : Ends children indegree [] sorted sorted
  | next {indegree : α → Nat} {current : α} {queue sorted result : List α}
      (rest : Ends children (release (children current) indegree queue).1
        (release (children current) indegree queue).2 (sorted ++ [current]) result) :
      Ends children indegree (current :: queue) sorted result

/-- A finite graph given both by the predecessors and by the children of its
nodes, with a rank that grows along every edge. -/
structure Graph (nodes : Finset α) (preds : α → Finset α) (children : α → List α) : Prop where
  inside : ∀ node ∈ nodes, preds node ⊆ nodes
  edges : ∀ source ∈ nodes, ∀ node, node ∈ children source ↔ node ∈ nodes ∧ source ∈ preds node
  once : ∀ source ∈ nodes, (children source).Nodup
  ranked : ∃ rank : α → Nat, ∀ node ∈ nodes, ∀ source ∈ preds node, rank source < rank node

variable {nodes : Finset α} {preds : α → Finset α} {children : α → List α}
  {indegree : α → Nat} {queue sorted : List α} {current : α} {fuel : Nat}

/-- Releasing distinct children lowers each count once, and queues exactly the
children whose count was one. -/
theorem release_exact (targets : List α) (distinct : targets.Nodup) :
    release targets indegree queue =
      (fun node => if node ∈ targets then indegree node - 1 else indegree node,
        (targets.filter fun node => indegree node - 1 = 0).reverse ++ queue) := by
  induction targets generalizing indegree queue with
  | nil => simp [release]
  | cons child rest ih =>
    obtain ⟨absent, distinctRest⟩ := List.nodup_cons.mp distinct
    have unchanged : ∀ node ∈ rest,
        Function.update indegree child (indegree child - 1) node = indegree node := by
      intro node member
      have different : node ≠ child := fun same => absent (same ▸ member)
      exact Function.update_of_ne different _ _
    simp only [release, ih distinctRest, Prod.mk.injEq]
    constructor
    · funext node
      by_cases same : node = child
      · subst same
        simp [absent]
      · simp [same]
    · rw [List.filter_congr (q := fun node => indegree node - 1 = 0)
        fun node member => by rw [unchanged node member], Function.update_self]
      by_cases zero : indegree child - 1 = 0
      · simp [zero]
      · simp [zero]

/-- What the run keeps. The count of a node is the number of its predecessors
not listed yet, and a node is listed or queued when that number is zero. -/
structure State (nodes : Finset α) (preds : α → Finset α) (indegree : α → Nat)
    (queue sorted : List α) : Prop where
  counts : ∀ node ∈ nodes, indegree node = (preds node \ sorted.toFinset).card
  ready : ∀ node ∈ nodes, node ∈ sorted ∨ node ∈ queue ↔ preds node ⊆ sorted.toFinset
  nodup : (sorted ++ queue).Nodup
  within : ∀ node ∈ sorted ++ queue, node ∈ nodes
  ordered : sorted.Pairwise fun before after => after ∉ preds before

theorem state_initial (counts : ∀ node ∈ nodes, indegree node = (preds node).card)
    (distinct : queue.Nodup) (starts : ∀ node, node ∈ queue ↔ node ∈ nodes ∧ indegree node = 0) :
    State nodes preds indegree queue [] where
  counts := by simpa using counts
  ready := by
    intro node member
    simp [starts, member, counts node member]
  nodup := by simpa using distinct
  within := by
    intro node member
    exact ((starts node).mp (by simpa using member)).1
  ordered := List.Pairwise.nil

private theorem listed_insert (sorted : List α) (current : α) :
    (sorted ++ [current]).toFinset = insert current sorted.toFinset := by
  ext node
  simp

/-- Listing a node strikes it off what is missing. -/
private theorem missing_insert (node current : α) (listed : Finset α) :
    preds node \ insert current listed = (preds node \ listed).erase current := by
  ext other
  simp only [Finset.mem_sdiff, Finset.mem_insert, Finset.mem_erase]
  tauto

/-- A child's last missing predecessor is the current node when its count is one. -/
private theorem count_one_iff (state : State nodes preds indegree (current :: queue) sorted)
    {node : α} (member : node ∈ nodes) (edge : current ∈ preds node) (unlisted : current ∉ sorted) :
    indegree node - 1 = 0 ↔ preds node ⊆ insert current sorted.toFinset := by
  have missing : current ∈ preds node \ sorted.toFinset :=
    Finset.mem_sdiff.mpr ⟨edge, fun listed => unlisted (List.mem_toFinset.mp listed)⟩
  have removed := Finset.card_erase_of_mem missing
  rw [← Finset.sdiff_eq_empty_iff_subset, ← Finset.card_eq_zero, missing_insert, state.counts node member]
  omega

private theorem current_unlisted (state : State nodes preds indegree (current :: queue) sorted) :
    current ∈ nodes ∧ current ∉ sorted :=
  ⟨state.within current (by simp),
    fun listed => List.disjoint_of_nodup_append state.nodup listed List.mem_cons_self⟩

/-- A child still counts the current node, so it is neither listed nor queued. -/
private theorem child_fresh (graph : Graph nodes preds children)
    (state : State nodes preds indegree (current :: queue) sorted) {node : α} (child : node ∈ children current) :
    node ∉ sorted ∧ node ≠ current ∧ node ∉ queue := by
  obtain ⟨here, unlisted⟩ := current_unlisted state
  obtain ⟨member, edge⟩ := (graph.edges current here node).mp child
  have notReady : ¬ (node ∈ sorted ∨ node ∈ current :: queue) := by
    intro ready
    exact unlisted (List.mem_toFinset.mp ((state.ready node member).mp ready edge))
  simp only [List.mem_cons, not_or] at notReady
  exact ⟨notReady.1, notReady.2.1, notReady.2.2⟩

/-- After a step a node is listed or queued when nothing but the current node was missing. -/
private theorem ready_step (state : State nodes preds indegree (current :: queue) sorted) {node : α}
    (member : node ∈ nodes) :
    (node ∈ sorted ∨ node = current) ∨ (current ∈ preds node ∧ indegree node - 1 = 0) ∨ node ∈ queue ↔
      preds node ⊆ insert current sorted.toFinset := by
  have before := state.ready node member
  rw [List.mem_cons] at before
  by_cases edge : current ∈ preds node
  · have one := count_one_iff state member edge (current_unlisted state).2
    rw [← one]
    constructor
    · rintro ((listed | rfl) | ⟨_, zero⟩ | waiting)
      · exact one.mpr ((before.mp (.inl listed)).trans (Finset.subset_insert _ _))
      · exact one.mpr ((before.mp (.inr (.inl rfl))).trans (Finset.subset_insert _ _))
      · exact zero
      · exact one.mpr ((before.mp (.inr (.inr waiting))).trans (Finset.subset_insert _ _))
    · exact fun zero => .inr (.inl ⟨edge, zero⟩)
  · have same : preds node ⊆ insert current sorted.toFinset ↔ preds node ⊆ sorted.toFinset :=
      Finset.subset_insert_iff_of_notMem edge
    rw [same, ← before]
    simp only [edge, false_and, false_or]
    tauto

theorem state_step (graph : Graph nodes preds children)
    (state : State nodes preds indegree (current :: queue) sorted) :
    State nodes preds (release (children current) indegree queue).1
      (release (children current) indegree queue).2 (sorted ++ [current]) := by
  obtain ⟨here, unlisted⟩ := current_unlisted state
  have childOf := graph.edges current here
  rw [release_exact _ (graph.once current here)]
  constructor
  case counts =>
    intro node member
    simp only [childOf, member, true_and, listed_insert]
    rw [missing_insert, state.counts node member]
    split
    · rename_i edge
      exact (Finset.card_erase_of_mem
        (Finset.mem_sdiff.mpr ⟨edge, fun listed => unlisted (List.mem_toFinset.mp listed)⟩)).symm
    · rename_i noEdge
      rw [Finset.erase_eq_of_notMem fun missing => noEdge (Finset.mem_sdiff.mp missing).1]
  case ready =>
    intro node member
    simp only [List.mem_append, List.mem_cons, List.not_mem_nil, or_false, List.mem_reverse,
      List.mem_filter, decide_eq_true_eq, childOf, member, true_and, listed_insert]
    exact ready_step state member
  case nodup =>
    obtain ⟨sortedNodup, queueNodup, apart⟩ := List.nodup_append.mp state.nodup
    obtain ⟨currentApart, queueNodup⟩ := List.nodup_cons.mp queueNodup
    simp only [List.append_assoc, List.nodup_append, List.singleton_append, List.nodup_cons,
      List.nodup_reverse, List.mem_append, List.mem_reverse, List.mem_filter, List.mem_cons,
      decide_eq_true_eq]
    refine ⟨sortedNodup, ⟨?_, (graph.once current here).filter _, queueNodup, ?_⟩, ?_⟩
    · rintro (⟨child, _⟩ | waiting)
      · exact (child_fresh graph state child).2.1 rfl
      · exact currentApart waiting
    · rintro node ⟨child, _⟩ other waiting rfl
      exact (child_fresh graph state child).2.2 waiting
    · rintro node listed other (rfl | ⟨child, _⟩ | waiting) rfl
      · exact unlisted listed
      · exact (child_fresh graph state child).1 listed
      · exact apart node listed node (List.mem_cons_of_mem _ waiting) rfl
  case within =>
    intro node member
    simp only [List.append_assoc, List.mem_append, List.mem_cons, List.not_mem_nil, or_false,
      List.mem_reverse, List.mem_filter] at member
    rcases member with listed | rfl | ⟨child, _⟩ | waiting
    · exact state.within node (List.mem_append_left _ listed)
    · exact here
    · exact ((childOf node).mp child).1
    · exact state.within node (List.mem_append_right _ (List.mem_cons_of_mem _ waiting))
  case ordered =>
    refine List.pairwise_append.mpr ⟨state.ordered, List.pairwise_singleton _ _, ?_⟩
    intro before listed after last
    obtain rfl := List.mem_singleton.mp last
    intro edge
    have full := (state.ready before (state.within before (List.mem_append_left _ listed))).mp (.inl listed)
    exact unlisted (List.mem_toFinset.mp (full edge))

/-- A listing of the nodes: each once, and none before one of its predecessors. -/
structure Listing (nodes : Finset α) (preds : α → Finset α) (sorted : List α) : Prop where
  nodup : sorted.Nodup
  complete : ∀ node, node ∈ sorted ↔ node ∈ nodes
  ordered : sorted.Pairwise fun before after => after ∉ preds before

/-- In a listing predecessors come first. -/
theorem Listing.idxOf_lt (listing : Listing nodes preds sorted) {source node : α} (edge : source ∈ preds node)
    (apart : source ≠ node) (sourceIn : source ∈ nodes) (nodeIn : node ∈ nodes) : sorted.idxOf source < sorted.idxOf node := by
  have first := List.idxOf_lt_length_iff.mpr ((listing.complete source).mpr sourceIn)
  have second := List.idxOf_lt_length_iff.mpr ((listing.complete node).mpr nodeIn)
  by_contra later
  rcases Nat.lt_or_eq_of_le (Nat.not_lt.mp later) with before | same
  · have free := List.pairwise_iff_getElem.mp listing.ordered _ _ second first before
    rw [List.getElem_idxOf, List.getElem_idxOf] at free
    exact free edge
  · exact apart ((List.idxOf_inj ((listing.complete source).mpr sourceIn)).mp same.symm)

omit [DecidableEq α] in
/-- A listing that is sorted by a score is in order when predecessors score less. -/
theorem listing_of_scores {β : Type} [Preorder β] (score : α → β) (distinct : sorted.Nodup)
    (complete : ∀ node, node ∈ sorted ↔ node ∈ nodes)
    (ascends : sorted.Pairwise fun before after => score before ≤ score after)
    (lower : ∀ node ∈ nodes, ∀ source ∈ preds node, score source < score node) : Listing nodes preds sorted where
  nodup := distinct
  complete := complete
  ordered := by
    refine ascends.imp_of_mem fun {before after} listed _ ordered earlier => ?_
    exact (lower before ((complete before).mp listed) after earlier).not_ge ordered

/-- With an empty queue everything is listed: a node of least rank left out
would have had all its predecessors listed. -/
theorem state_finished (graph : Graph nodes preds children)
    (state : State nodes preds indegree [] sorted) : Listing nodes preds sorted where
  nodup := by simpa using state.nodup
  ordered := state.ordered
  complete := by
    obtain ⟨rank, ranked⟩ := graph.ranked
    have listed : ∀ bound, ∀ node ∈ nodes, rank node < bound → node ∈ sorted := by
      intro bound
      induction bound with
      | zero => exact fun node _ below => absurd below (Nat.not_lt_zero _)
      | succ bound ih =>
        intro node member below
        have full : preds node ⊆ sorted.toFinset := by
          intro source edge
          have earlier := ranked node member source edge
          exact List.mem_toFinset.mpr (ih source (graph.inside node member edge) (by omega))
        simpa using (state.ready node member).mpr full
    exact fun node => ⟨fun member => state.within node (by simpa using member),
      fun member => listed _ node member (Nat.lt_succ_self _)⟩

/-- With as many nodes listed as there are, none is queued. -/
theorem State.drained (state : State nodes preds indegree queue sorted) (full : nodes.card ≤ sorted.length) :
    queue = [] := by
  have count : (sorted ++ queue).toFinset.card ≤ nodes.card :=
    Finset.card_le_card fun node member => state.within node (List.mem_toFinset.mp member)
  rw [List.toFinset_card_of_nodup state.nodup, List.length_append] at count
  exact List.eq_nil_of_length_eq_zero (by omega)

theorem loop_listing (graph : Graph nodes preds children)
    (state : State nodes preds indegree queue sorted) (enough : nodes.card ≤ sorted.length + fuel) :
    Listing nodes preds (loop children fuel indegree queue sorted) := by
  induction fuel generalizing indegree queue sorted with
  | zero =>
    obtain rfl := state.drained (by simpa using enough)
    exact state_finished graph state
  | succ fuel ih =>
    cases queue with
    | nil => exact state_finished graph state
    | cons current queue =>
      refine ih (state_step graph state) ?_
      rw [List.length_append, List.length_singleton]
      omega

/-- With as much fuel as there are nodes the queue drains. -/
theorem loop_ends (graph : Graph nodes preds children)
    (state : State nodes preds indegree queue sorted) (enough : nodes.card ≤ sorted.length + fuel) :
    Ends children indegree queue sorted (loop children fuel indegree queue sorted) := by
  induction fuel generalizing indegree queue sorted with
  | zero =>
    obtain rfl := state.drained (by simpa using enough)
    exact .drained
  | succ fuel ih =>
    cases queue with
    | nil => exact .drained
    | cons current queue =>
      refine .next (ih (state_step graph state) ?_)
      rw [List.length_append, List.length_singleton]
      omega

end Klomang.TopologicalOrder
