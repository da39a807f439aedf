import Klomang.Consensus.Clusters
import Klomang.Consensus.Finality

/-! Blocks over an unreliable network: in any order, any number of times, with some refused because their parents are not
there yet. What a node ends up with depends only on which blocks it has taken in; and a node that hears an order with
parents before children, with anything in between, takes in all of them. -/
namespace Klomang.GhostDag

open Dag (SameShape Linked)

variable {ghostDag other : GhostDag} {dag after : Dag} {block stored : BlockNode} {id : Hash}
  {blocks part deliveries first second : List BlockNode}

section Storing

/-- A linked graph with blocks in it has a genesis block. -/
theorem root_stored (linked : dag.Linked) (filled : dag.blocks.keys ≠ ∅) :
    ∃ id block, dag.getBlock id = some block ∧ block.header.parents = ∅ := by
  obtain ⟨rank, ranked⟩ := linked.ranked
  obtain ⟨id, member, least⟩ := Finset.exists_min_image dag.blocks.keys rank (Finset.nonempty_iff_ne_empty.mpr filled)
  obtain ⟨block, found⟩ := Dag.get_block_isSome.mpr member
  refine ⟨id, block, found, Finset.eq_empty_of_forall_notMem fun parent named => ?_⟩
  have edge : dag.ParentOf parent id := ⟨block, found, named⟩
  exact absurd (ranked parent id edge) (Nat.not_lt.mpr (least parent (linked.stored parent id edge)))

/-- A stored block was stored before with the same header, or it is the one that came in. -/
theorem received_header (consistent : Consistent dag) (leaf : Leaf block)
    (found : (ghostDag.receive dag block).getBlock id = some stored) :
    (∃ before, dag.getBlock id = some before ∧ before.header = stored.header) ∨
      dag.Fits block ∧ stored.header = block.header := by
  rcases receive_cases ghostDag consistent leaf with ⟨fits, processed⟩ | ⟨_, _, _, processed⟩ | ⟨_, same⟩
  · have grown := fits.grown.of_same_shape processed.shape
    by_cases new : id = block.header.id
    · subst new
      exact .inr ⟨fits, (grown.new_header found).symm⟩
    · exact .inl (grown.old_header new found)
  · obtain ⟨before, there, header, _⟩ := processed.shape.symm.find found
    exact .inl ⟨before, there, header⟩
  · rw [same] at found
    exact .inl ⟨stored, found, rfl⟩

/-- Every stored block is one of these. -/
def Drawn (blocks : List BlockNode) (dag : Dag) : Prop :=
  ∀ id stored, dag.getBlock id = some stored → ∃ block ∈ blocks, block.header = stored.header

theorem received_drawn (consistent : Consistent dag) (leaf : Leaf block) (member : block ∈ blocks) (drawn : Drawn blocks dag) :
    Drawn blocks (ghostDag.receive dag block) := by
  intro id stored found
  rcases received_header consistent leaf found with ⟨before, there, header⟩ | ⟨_, header⟩
  · obtain ⟨source, listed, same⟩ := drawn id before there
    exact ⟨source, listed, same.trans header⟩
  · exact ⟨block, member, header.symm⟩

/-- A block of the pool whose parents are there is there once it has come in. -/
theorem received_stored (arrival : Arrival blocks) (member : block ∈ blocks) (consistent : Consistent dag)
    (drawn : Drawn blocks dag) (known : block.header.parents ⊆ dag.blocks.keys) :
    block.header.id ∈ (ghostDag.receive dag block).blocks.keys := by
  obtain ⟨_, _, joins⟩ := arrival.joins_of_mem member
  by_cases absent : block.header.id ∉ dag.blocks.keys
  · have root : block.header.parents = ∅ ↔ dag.blocks.keys = ∅ := by
      refine ⟨fun orphan => by_contra fun filled => ?_, fun empty => Finset.subset_empty.mp (empty ▸ known)⟩
      -- the genesis block that is there is the only one of the pool
      obtain ⟨id, genesis, found, first⟩ := root_stored consistent.formed.linked filled
      obtain ⟨source, listed, header⟩ := drawn id genesis found
      have same := arrival.root_unique member listed orphan (header ▸ first)
      have there : block.header.id = id := by rw [same, header, consistent.formed.ids id genesis found]
      exact absent (there ▸ Dag.get_block_isSome.mp ⟨genesis, found⟩)
    have fits : dag.Fits block := ⟨joins.leaf, absent, known, root⟩
    have found : (dag.addBlock block).2.getBlock block.header.id = some block := by rw [fits.get_block, if_pos rfl]
    rw [receive, (process_step ghostDag (ready_added consistent fits) found).shape.keys, fits.grown.keys]
    exact Finset.mem_insert_self _ _
  · exact receive_keeps consistent joins.leaf (not_not.mp absent)

end Storing

section Converging

/-- Two linked graphs that hold the same ids, with the same headers, have the same shape. -/
theorem same_shape_of_headers (linked : dag.Linked) (otherLinked : after.Linked) (keys : after.blocks.keys = dag.blocks.keys)
    (headers : ∀ id left right, dag.getBlock id = some left → after.getBlock id = some right → left.header = right.header) :
    dag.SameShape after := by
  have edges : ∀ parent child, after.ParentOf parent child ↔ dag.ParentOf parent child := by
    intro parent child
    constructor
    · rintro ⟨right, there, named⟩
      obtain ⟨left, here⟩ := Dag.get_block_isSome.mpr (keys ▸ Dag.get_block_isSome.mp ⟨right, there⟩)
      exact ⟨left, here, headers child left right here there ▸ named⟩
    · rintro ⟨left, here, named⟩
      obtain ⟨right, there⟩ := Dag.get_block_isSome.mpr (keys.symm ▸ Dag.get_block_isSome.mp ⟨left, here⟩)
      exact ⟨right, there, headers child left right here there ▸ named⟩
  intro id
  by_cases known : id ∈ dag.blocks.keys
  · obtain ⟨left, here⟩ := Dag.get_block_isSome.mpr known
    obtain ⟨right, there⟩ := Dag.get_block_isSome.mpr (keys.symm ▸ known)
    have children : right.children = left.children := by
      ext child
      have mirrored : after.ChildOf child id ↔ dag.ChildOf child id := by
        rw [otherLinked.children, linked.children, edges]
      constructor
      · intro listed
        obtain ⟨found, same, member⟩ := mirrored.mp ⟨right, there, listed⟩
        cases here.symm.trans same
        exact member
      · intro listed
        obtain ⟨found, same, member⟩ := mirrored.mpr ⟨left, here, listed⟩
        cases there.symm.trans same
        exact member
    rw [Dag.place, Dag.place, here, there, Option.map_some, Option.map_some, headers id left right here there, children]
  · rw [Dag.place, Dag.place, Dag.get_block_none.mpr known, Dag.get_block_none.mpr (keys.symm ▸ known)]

/-- Deliveries from a pool: every message is one of its blocks. -/
def From (blocks deliveries : List BlockNode) : Prop := ∀ block ∈ deliveries, block ∈ blocks

instance (blocks deliveries : List BlockNode) : Decidable (From blocks deliveries) := by
  unfold From
  infer_instance

theorem From.leaves (pool : From blocks deliveries) (arrival : Arrival blocks) : ∀ block ∈ deliveries, Leaf block := by
  intro block delivered
  obtain ⟨_, _, joins⟩ := arrival.joins_of_mem (pool block delivered)
  exact joins.leaf

theorem From.drawn (pool : From blocks deliveries) (arrival : Arrival blocks) : Drawn blocks (ghostDag.dagOf deliveries) := by
  have start : Drawn blocks Dag.new := fun _ _ found => nomatch found
  have both := Runs.run_invariant (fun dag => Consistent dag ∧ Drawn blocks dag) (fun block => Leaf block ∧ block ∈ blocks)
    ⟨consistent_new, start⟩
    (fun dag block allowed kept =>
      ⟨receive_consistent ghostDag kept.1 allowed.1, received_drawn kept.1 allowed.1 allowed.2 kept.2⟩)
    deliveries fun block delivered => ⟨pool.leaves arrival block delivered, pool block delivered⟩
  exact both.2

/-- What is there stays there. -/
theorem delivered_stays (pool : From blocks (first ++ second)) (arrival : Arrival blocks)
    (there : id ∈ (ghostDag.dagOf first).blocks.keys) : id ∈ (ghostDag.dagOf (first ++ second)).blocks.keys := by
  induction second using List.reverseRecOn with
  | nil => rwa [List.append_nil]
  | append_singleton second block ih =>
    rw [← List.append_assoc] at pool ⊢
    have earlier : From blocks (first ++ second) := fun other listed => pool other (List.mem_append_left _ listed)
    rw [dagOf, Runs.run_snoc]
    exact receive_keeps (dag_of_consistent ghostDag (earlier.leaves arrival)) (pool.leaves arrival block (by simp)) (ih earlier)

/-- A block whose parents are there is taken in by deliveries that contain it. -/
theorem delivered_known (arrival : Arrival blocks) (pool : From blocks (first ++ second)) (listed : block ∈ second)
    (known : block.header.parents ⊆ (ghostDag.dagOf first).blocks.keys) :
    block.header.id ∈ (ghostDag.dagOf (first ++ second)).blocks.keys := by
  obtain ⟨skipped, rest, rfl⟩ := List.append_of_mem listed
  have split : first ++ (skipped ++ block :: rest) = (first ++ skipped ++ [block]) ++ rest := by simp
  rw [split] at pool ⊢
  have poolHere : From blocks (first ++ skipped ++ [block]) := fun other heard => pool other (List.mem_append_left _ heard)
  have poolBefore : From blocks (first ++ skipped) := fun other heard => poolHere other (List.mem_append_left _ heard)
  refine delivered_stays pool arrival ?_
  rw [dagOf, Runs.run_snoc]
  exact received_stored arrival (poolHere block (by simp)) (dag_of_consistent ghostDag (poolBefore.leaves arrival))
    (poolBefore.drawn arrival) fun parent named => delivered_stays poolBefore arrival (known named)

/-- An order with parents before children is taken in, whatever else is delivered in between. -/
theorem delivered_stored (arrival : Arrival blocks) (partly : part <+: blocks) (pool : From blocks deliveries)
    (contained : part.Sublist deliveries) : ids part ⊆ (ghostDag.dagOf deliveries).blocks.keys := by
  induction part using List.reverseRecOn generalizing deliveries with
  | nil => exact fun _ member => absurd member (Finset.notMem_empty _)
  | append_singleton part block ih =>
    obtain ⟨before, after, rfl, earlier, last⟩ := List.append_sublist_iff.mp contained
    have poolBefore : From blocks before := fun other heard => pool other (List.mem_append_left _ heard)
    have stored := ih ((List.prefix_append _ _).trans partly) poolBefore earlier
    have joins := arrival part block partly
    rw [ids_snoc]
    refine Finset.insert_subset ?_ fun id member => delivered_stays pool arrival (stored member)
    exact delivered_known arrival pool (List.singleton_sublist.mp last) (joins.known.trans stored)

theorem From.within (pool : From blocks deliveries) (arrival : Arrival blocks) :
    (ghostDag.dagOf deliveries).blocks.keys ⊆ ids blocks := by
  intro id known
  obtain ⟨stored, found⟩ := Dag.get_block_isSome.mpr known
  obtain ⟨block, listed, header⟩ := pool.drawn arrival id stored found
  have ids := (dag_of_consistent ghostDag (pool.leaves arrival)).formed.ids id stored found
  exact mem_ids.mpr ⟨block, listed, by rw [header, ids]⟩

/-- Whatever was delivered, the graphs that hold the same blocks have the same shape, also on nodes with another `k`. -/
theorem delivered_same_shape (arrival : Arrival blocks) (pool : From blocks first) (otherPool : From blocks second)
    (keys : (other.dagOf second).blocks.keys = (ghostDag.dagOf first).blocks.keys) :
    (ghostDag.dagOf first).SameShape (other.dagOf second) := by
  have consistent := dag_of_consistent ghostDag (pool.leaves arrival)
  have otherConsistent := dag_of_consistent other (otherPool.leaves arrival)
  refine same_shape_of_headers consistent.formed.linked otherConsistent.formed.linked keys ?_
  intro id left right here there
  obtain ⟨block, listed, header⟩ := pool.drawn arrival id left here
  obtain ⟨counterpart, otherListed, otherHeader⟩ := otherPool.drawn arrival id right there
  have same : block.header.id = counterpart.header.id := by
    rw [header, otherHeader, consistent.formed.ids id left here, otherConsistent.formed.ids id right there]
  rw [← header, ← otherHeader, arrival.id_injective listed otherListed same]

theorem delivered_tips (arrival : Arrival blocks) (pool : From blocks first) (otherPool : From blocks second)
    (shape : (ghostDag.dagOf first).SameShape (other.dagOf second)) :
    (other.dagOf second).tips = (ghostDag.dagOf first).tips := by
  rw [dag_of_tips other (otherPool.leaves arrival), dag_of_tips ghostDag (pool.leaves arrival), childless_same_shape shape]

/-- Deliveries from one pool that have both brought all of it lead to the same graph. -/
theorem whole_converge (arrival : Arrival blocks) (pool : From blocks first) (otherPool : From blocks second)
    (whole : ids blocks ⊆ (ghostDag.dagOf first).blocks.keys) (otherWhole : ids blocks ⊆ (other.dagOf second).blocks.keys) :
    (ghostDag.dagOf first).blocks.keys = ids blocks ∧ (ghostDag.dagOf first).SameShape (other.dagOf second) ∧
      (other.dagOf second).tips = (ghostDag.dagOf first).tips := by
  have keys := (pool.within arrival).antisymm whole
  have otherKeys := (otherPool.within arrival).antisymm otherWhole
  have shape := delivered_same_shape arrival pool otherPool (otherKeys.trans keys.symm)
  exact ⟨keys, shape, delivered_tips arrival pool otherPool shape⟩

/-- Nodes that hear the same blocks converge: each takes in every block of an order with parents before children, whatever
is delivered in between, and any two end up with the same blocks, links and tips. -/
theorem deliveries_converge (ghostDag other : GhostDag) (blocks first second : List BlockNode) (arrival : Arrival blocks)
    (pool : From blocks first) (otherPool : From blocks second) (whole : blocks.Sublist first)
    (otherWhole : blocks.Sublist second) :
    (ghostDag.dagOf first).blocks.keys = ids blocks ∧ (ghostDag.dagOf first).SameShape (other.dagOf second) ∧
      (other.dagOf second).tips = (ghostDag.dagOf first).tips :=
  whole_converge arrival pool otherPool (delivered_stored arrival List.prefix_rfl pool whole)
    (delivered_stored arrival List.prefix_rfl otherPool otherWhole)

/-- The refused blocks of a fork heard from behind leave no trace. -/
example : ((GhostDag.new 1).dagOf fork.reverse).blocks.keys = {.replicate 1} := by decide +kernel

/-- Two nodes hear a fork: one hears the merging block too early and all blocks again, the other hears everything twice. -/
theorem fork_converges :
    ((GhostDag.new 1).dagOf (fork.reverse ++ fork)).SameShape ((GhostDag.new 0).dagOf (fork ++ fork)) :=
  (deliveries_converge (GhostDag.new 1) (GhostDag.new 0) fork (fork.reverse ++ fork) (fork ++ fork) (by decide +kernel)
    (by decide +kernel) (by decide +kernel) (List.sublist_append_right _ _) (List.sublist_append_left _ _)).2.1

end Converging

section Rounds

/-- A height of the blocks: children are higher than their parents. -/
def Heights (blocks : List BlockNode) (height : Hash → Nat) : Prop :=
  ∀ block ∈ blocks, ∀ parent ∈ block.header.parents, height parent < height block.header.id

instance (blocks : List BlockNode) (height : Hash → Nat) : Decidable (Heights blocks height) := by
  unfold Heights
  infer_instance

/-- A round is a delivery of every block, in any order. -/
def Round (blocks round : List BlockNode) : Prop := round ⊆ blocks ∧ blocks ⊆ round

instance (blocks round : List BlockNode) : Decidable (Round blocks round) := by
  unfold Round
  infer_instance

theorem rounds_from {rounds : List (List BlockNode)} (each : ∀ round ∈ rounds, Round blocks round) :
    From blocks rounds.flatten := by
  intro block heard
  obtain ⟨round, member, listed⟩ := List.mem_flatten.mp heard
  exact (each round member).1 listed

/-- After as many rounds everything below that height is there. -/
theorem rounds_stored {height : Hash → Nat} {rounds : List (List BlockNode)} (arrival : Arrival blocks)
    (heights : Heights blocks height) (each : ∀ round ∈ rounds, Round blocks round) (member : block ∈ blocks)
    (low : height block.header.id < rounds.length) :
    block.header.id ∈ (ghostDag.dagOf rounds.flatten).blocks.keys := by
  induction rounds using List.reverseRecOn generalizing block with
  | nil => exact absurd low (Nat.not_lt_zero _)
  | append_singleton rounds round ih =>
    have earlier : ∀ round ∈ rounds, Round blocks round := fun other heard => each other (List.mem_append_left _ heard)
    have pool := rounds_from each
    rw [List.flatten_append, List.flatten_singleton] at pool ⊢
    refine delivered_known arrival pool ((each round (by simp)).2 member) fun parent named => ?_
    -- the parents are lower, and the rounds before have brought them
    obtain ⟨_, partly, joins⟩ := arrival.joins_of_mem member
    obtain ⟨source, listed, rfl⟩ := mem_ids.mp (joins.known named)
    have below := heights block member source.header.id named
    rw [List.length_append, List.length_singleton] at low
    exact ih earlier (partly.subset (List.mem_append_left _ listed)) (by omega)

theorem rounds_whole {height : Hash → Nat} {rounds : List (List BlockNode)} (arrival : Arrival blocks)
    (heights : Heights blocks height) (each : ∀ round ∈ rounds, Round blocks round)
    (enough : ∀ block ∈ blocks, height block.header.id < rounds.length) :
    ids blocks ⊆ (ghostDag.dagOf rounds.flatten).blocks.keys := by
  intro id member
  obtain ⟨block, listed, rfl⟩ := mem_ids.mp member
  exact rounds_stored arrival heights each listed (enough block listed)

/-- Flooding converges: as many rounds as the graph is high bring every block to every node, whatever the order within a
round, and all nodes then have the same blocks, links and tips. -/
theorem rounds_converge (ghostDag other : GhostDag) (blocks : List BlockNode) (first second : List (List BlockNode))
    (height : Hash → Nat) (arrival : Arrival blocks) (heights : Heights blocks height)
    (each : ∀ round ∈ first, Round blocks round) (otherEach : ∀ round ∈ second, Round blocks round)
    (enough : ∀ block ∈ blocks, height block.header.id < first.length)
    (otherEnough : ∀ block ∈ blocks, height block.header.id < second.length) :
    (ghostDag.dagOf first.flatten).blocks.keys = ids blocks ∧
      (ghostDag.dagOf first.flatten).SameShape (other.dagOf second.flatten) ∧
      (other.dagOf second.flatten).tips = (ghostDag.dagOf first.flatten).tips :=
  whole_converge arrival (rounds_from each) (rounds_from otherEach) (rounds_whole arrival heights each enough)
    (rounds_whole arrival heights otherEach otherEnough)

/-- A fork of height two, heard from behind three times. -/
theorem fork_rounds :
    ((GhostDag.new 1).dagOf [fork.reverse, fork.reverse, fork.reverse].flatten).blocks.keys = ids fork :=
  (rounds_converge (GhostDag.new 1) (GhostDag.new 1) fork [fork.reverse, fork.reverse, fork.reverse] [fork, fork, fork]
    (fun id => if id = .replicate 1 then 0 else if id = .replicate 4 then 2 else 1) (by decide +kernel) (by decide +kernel)
    (by decide +kernel) (by decide +kernel) (by decide +kernel) (by decide +kernel)).1

end Rounds
end Klomang.GhostDag
