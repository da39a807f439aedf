import Klomang.Consensus.Arrival

/-! Agreement between nodes. `process_block` recomputes the parents of a new block
and everything above them, but a colouring reads the anticone of the selected
parent in the whole graph: the blocks it leaves alone are still right exactly
when their selected parents lie in the past of the new block. -/
namespace Klomang.GhostDag

open Dag (WellFormed SameShape Grown PastOfNew Fits)

variable {ghostDag : GhostDag} {dag after : Dag} {block : BlockNode} {id node : Hash}

section Steps

/-- The past of a new block: its parents and their ancestors. -/
def pastSet (dag : Dag) (parents : Finset Hash) : Finset Hash :=
  parents ∪ parents.biUnion fun parent => (dag.getAncestors parent).toFinset

/-- The condition on the graph before a block: whatever the submission does not revisit has a
selected parent in the past of the new block. -/
def Calm (dag : Dag) (block : BlockNode) : Prop :=
  ∀ id stored, dag.getBlock id = some stored → stored.header.parents ≠ ∅ →
    id ∉ affectedSet dag block.header.parents →
    ∃ selectedParent, stored.selectedParent = some selectedParent ∧
      selectedParent ∈ pastSet dag block.header.parents

instance (dag : Dag) (block : BlockNode) : Decidable (Calm dag block) :=
  decidable_of_iff (∀ id ∈ dag.blocks.keys, ∀ stored ∈ dag.getBlock id, stored.header.parents ≠ ∅ →
      id ∉ affectedSet dag block.header.parents →
      ∃ selectedParent ∈ stored.selectedParent, selectedParent ∈ pastSet dag block.header.parents)
    ⟨fun calm id stored found => calm id (Dag.get_block_isSome.mp ⟨stored, found⟩) stored found,
      fun calm id _ stored found => calm id stored found⟩

theorem mem_past_set : node ∈ pastSet dag block.header.parents ↔ dag.PastOfNew block node := by
  simp only [pastSet, Finset.mem_union, Finset.mem_biUnion, List.mem_toFinset,
    Dag.mem_get_ancestors_iff_past]
  exact named_or_related

/-- The anticone of a block in the past of the new leaf does not change. -/
theorem anticone_grown (formed : dag.WellFormed) (grown : dag.Grown block after)
    (known : id ∈ dag.blocks.keys) (past : dag.PastOfNew block id) :
    after.getAnticone id = dag.getAnticone id := by
  have sorted : ∀ graph : Dag, ascending (graph.getAnticone id).toFinset = graph.getAnticone id := fun graph =>
    ascending_toFinset ((ascending_pairwise graph.blocks.keys).filter _)
      ((ascending_nodup graph.blocks.keys).filter _)
  rw [← sorted after, ← sorted dag]
  congr 1
  ext member
  simp [grown.mem_anticone formed known, past]

/-- The equation of an old block does not change when its selected parent is in the past of
the new leaf. -/
theorem computed_grown (consistent : Consistent dag) (grown : dag.Grown block after) {parents : Finset Hash}
    (agree : ∀ parent ∈ parents, colouringAt after parent = colouringAt dag parent)
    {selectedParent : Hash} (selected : ghostDag.selectParent dag (ascending parents) = some selectedParent)
    (known : selectedParent ∈ dag.blocks.keys) (past : dag.PastOfNew block selectedParent) :
    ghostDag.computed after parents = ghostDag.computed dag parents := by
  have read := agree selectedParent (mem_ascending.mp (select_parent_mem selected))
  have sets : ghostDag.buildBlueSet after selectedParent (ascending parents) =
      ghostDag.buildBlueSet dag selectedParent (ascending parents) := by
    obtain ⟨stored, found⟩ := Dag.get_block_isSome.mpr known
    rw [build_blue_set_run, build_blue_set_run, anticone_grown consistent.formed grown known past, inherited_congr read]
    apply Cluster.run_congr
    · exact fun candidate member => (Dag.mem_get_anticone.mp member).1
    · exact fun candidate here blue old => rivals_grown consistent.formed grown here old
    · rw [inherited_of_found found]
      exact Finset.insert_subset known (consistent.within selectedParent stored found).1
  have select := select_parent_congr ghostDag
    fun parent named => agree parent (mem_ascending.mp named)
  rw [computed, computed, select, selected, Option.map_some, Option.map_some, colouringFrom, colouringFrom,
    sets, stored_score_congr read]

/-- A settled block with parents has selected one of them. -/
theorem settled_selected (settled : ghostDag.Settled dag id) {stored : BlockNode} (found : dag.getBlock id = some stored)
    (inner : stored.header.parents ≠ ∅) :
    ∃ selectedParent, stored.selectedParent = some selectedParent ∧
      ghostDag.selectParent dag (ascending stored.header.parents) = some selectedParent ∧
      dag.ParentOf selectedParent id := by
  obtain ⟨selectedParent, select, equation⟩ := Option.map_eq_some_iff.mp ((settled stored found).2 inner)
  refine ⟨selectedParent, (congrArg Colouring.selectedParent equation).symm, select, stored, found, ?_⟩
  exact mem_ascending.mp (select_parent_mem select)

/-- What is known about an old block that the submission does not revisit. -/
theorem Submitted.old_block (submitted : Submitted ghostDag dag block after) (formed : dag.WellFormed)
    (fits : dag.Fits block) {stored : BlockNode} (found : dag.getBlock id = some stored)
    (free : ¬ Revisited dag block id) :
    ∃ counterpart, after.getBlock id = some counterpart ∧
      counterpart.header.parents = stored.header.parents ∧ counterpart.colouring = stored.colouring ∧
      ∀ parent ∈ stored.header.parents, colouringAt after parent = colouringAt dag parent := by
  have different : id ≠ block.header.id := by
    rintro rfl
    exact fits.absent (Dag.get_block_isSome.mp ⟨stored, found⟩)
  have same := submitted.kept id different free
  have place := submitted.grown.kept id different
  rw [colouringAt, colouringAt, found, Option.map_some] at same
  obtain ⟨counterpart, there, coloured⟩ := Option.map_eq_some_iff.mp same
  rw [Dag.place, Dag.place, there, found] at place
  have header : counterpart.header = stored.header := (Prod.mk.inj (Option.some.inj place)).1
  refine ⟨counterpart, there, by rw [header], coloured, fun parent named => ?_⟩
  have edge : dag.ParentOf parent id := ⟨stored, found, named⟩
  refine submitted.kept parent ?_ ?_
  · rintro rfl
    exact fits.absent (formed.stored _ _ edge)
  · rintro ⟨source, sourceNamed, rfl | path⟩
    · exact free ⟨parent, sourceNamed, .inr (.single edge)⟩
    · exact free ⟨source, sourceNamed, .inr (path.tail edge)⟩

/-- An old block that is still settled does not have the new block in the anticone of its selected parent: the equation
would colour it. -/
theorem Submitted.past_of_settled (submitted : Submitted ghostDag dag block after) (consistent : Consistent dag)
    (fits : dag.Fits block) {stored : BlockNode} (found : dag.getBlock id = some stored)
    (free : ¬ Revisited dag block id) {selectedParent : Hash}
    (select : ghostDag.selectParent dag (ascending stored.header.parents) = some selectedParent)
    (edge : dag.ParentOf selectedParent id) (settled : ghostDag.Settled after id) :
    dag.PastOfNew block selectedParent := by
  by_contra outside
  have formed := consistent.formed
  have known := formed.stored _ _ edge
  obtain ⟨counterpart, there, parents, coloured, agree⟩ := submitted.old_block formed fits found free
  have inner : stored.header.parents ≠ ∅ := by
    intro root
    have named := mem_ascending.mp (select_parent_mem select)
    rw [root] at named
    exact Finset.notMem_empty _ named
  have equation := (settled counterpart there).2 (by rw [parents]; exact inner)
  rw [parents, computed, select_parent_congr ghostDag fun parent named => agree parent (mem_ascending.mp named),
    select, Option.map_some, Option.some.injEq, coloured] at equation
  have seen : block.header.id ∈ after.getAnticone selectedParent :=
    (submitted.grown.mem_anticone formed known).mpr (.inr ⟨rfl, outside⟩)
  obtain ⟨blue, red⟩ := consistent.within id stored found
  rcases anticone_coloured ghostDag seen (ascending stored.header.parents) with isBlue | isRed
  · have same : (ghostDag.buildBlueSet after selectedParent (ascending stored.header.parents)).1 =
        stored.blueSet := congrArg Colouring.blueSet equation
    exact fits.absent (blue (same ▸ isBlue))
  · have same : (ghostDag.buildBlueSet after selectedParent (ascending stored.header.parents)).2 =
        stored.redSet := congrArg Colouring.redSet equation
    exact fits.absent (red (same ▸ isRed))

/-- An old block stays settled when its selected parent is in the past of the new block. -/
theorem Submitted.old_settled (submitted : Submitted ghostDag dag block after) (consistent : Consistent dag)
    (fits : dag.Fits block) (settled : ghostDag.Settled dag id) (calm : Calm dag block)
    (different : id ≠ block.header.id) (free : ¬ Revisited dag block id) : ghostDag.Settled after id := by
  intro counterpart there
  have placed : after.place id = some (counterpart.header, counterpart.children) := by
    rw [Dag.place, there]
    rfl
  rw [submitted.grown.kept id different] at placed
  obtain ⟨_, oldPlace, _⟩ := Option.map_eq_some_iff.mp placed
  obtain ⟨stored, found, _⟩ := Option.map_eq_some_iff.mp oldPlace
  obtain ⟨same, sameThere, parents, coloured, agree⟩ := submitted.old_block consistent.formed fits found free
  obtain rfl := Option.some.inj (there.symm.trans sameThere)
  rw [parents, coloured]
  refine ⟨fun root => (settled stored found).1 root, fun inner => ?_⟩
  obtain ⟨selectedParent, selected, select, edge⟩ := settled_selected settled found inner
  obtain ⟨calmParent, calmSelected, past⟩ :=
    calm id stored found inner fun affected => free ((mem_affected_set consistent.formed).mp affected)
  have sameParent : calmParent = selectedParent := Option.some.inj (calmSelected.symm.trans selected)
  have known := consistent.formed.stored _ _ edge
  rw [computed_grown consistent submitted.grown agree select known (mem_past_set.mp (sameParent ▸ past))]
  exact (settled stored found).2 inner

/-- One submission to a settled graph leaves everything settled exactly when it is calm. -/
theorem settled_step_iff (consistent : Consistent dag) (settled : ∀ id, ghostDag.Settled dag id)
    (fits : dag.Fits block) :
    (∀ id, ghostDag.Settled (ghostDag.submit dag block) id) ↔ Calm dag block := by
  have submitted := submit_step ghostDag consistent fits
  constructor
  · intro settledAfter id stored found inner free
    rw [mem_affected_set consistent.formed] at free
    obtain ⟨selectedParent, selected, select, edge⟩ := settled_selected (settled id) found inner
    refine ⟨selectedParent, selected, mem_past_set.mpr ?_⟩
    exact submitted.past_of_settled consistent fits found free select edge (settledAfter id)
  · intro calm id
    by_cases visited : id = block.header.id ∨ Revisited dag block id
    · exact submitted.settled id visited
    · obtain ⟨different, free⟩ := not_or.mp visited
      exact submitted.old_settled consistent fits (settled id) calm different free

end Steps

section Runs
variable {blocks first second before : List BlockNode}

/-- Every submission of the order is calm in the graph it meets. -/
def CalmRun (ghostDag : GhostDag) (blocks : List BlockNode) : Prop :=
  Runs.Meets (submit ghostDag) Dag.new Calm blocks

/-- Two graphs store the same colouring for every block and have the same ordering. -/
def Agree (ghostDag : GhostDag) (dag other : Dag) : Prop :=
  (∀ id, colouringAt dag id = colouringAt other id) ∧ ghostDag.getOrdering dag = ghostDag.getOrdering other

theorem calm_run_nil : CalmRun ghostDag [] := Runs.meets_nil

theorem calm_run_snoc (blocks : List BlockNode) :
    CalmRun ghostDag (blocks ++ [block]) ↔ CalmRun ghostDag blocks ∧ Calm (graphOf ghostDag blocks) block :=
  Runs.meets_snoc blocks block

/-- After calm submissions everything is settled. -/
theorem Arrival.settled (arrival : Arrival blocks) (calm : CalmRun ghostDag blocks) :
    ∀ id, ghostDag.Settled (graphOf ghostDag blocks) id := by
  induction blocks using List.reverseRecOn with
  | nil => exact fun _ _ found => nomatch found
  | append_singleton earlier last ih =>
    obtain ⟨before, joins⟩ := arrival_snoc.mp arrival
    obtain ⟨calmBefore, calmLast⟩ := (calm_run_snoc _).mp calm
    have represents := before.represents ghostDag
    rw [graph_of_snoc]
    exact (settled_step_iff represents.consistent (ih before calmBefore) (represents.fits joins)).mpr calmLast

/-- Settled orders of the same blocks agree. -/
theorem agree_of_settled (firstArrival : Arrival first) (secondArrival : Arrival second)
    (same : first.Perm second) (firstSettled : ∀ id, ghostDag.Settled (graphOf ghostDag first) id)
    (secondSettled : ∀ id, ghostDag.Settled (graphOf ghostDag second) id) :
    Agree ghostDag (graphOf ghostDag first) (graphOf ghostDag second) := by
  have shape := same_shape_of_perm ghostDag firstArrival secondArrival same
  have formed := (firstArrival.represents ghostDag).consistent.formed
  have colours := settled_unique formed shape firstSettled secondSettled
  exact ⟨fun id => (colours id).symm, (get_ordering_congr shape.keys colours).symm⟩

/-- After a block has arrived, every later block counts it among its candidates. -/
structure Noticed (newcomer : Hash) (late : Finset Hash) (dag : Dag) : Prop where
  stored : newcomer ∈ dag.blocks.keys
  coloured : ∀ id ∈ late, ∀ colouring, colouringAt dag id = some colouring →
    ∀ selectedParent, colouring.selectedParent = some selectedParent →
      selectedParent ∈ dag.blocks.keys ∧
      (newcomer ∈ dag.getAnticone selectedParent →
        newcomer ∈ colouring.blueSet ∨ newcomer ∈ colouring.redSet)

/-- A later submission colours with the newcomer in sight. -/
theorem Noticed.step {newcomer : Hash} {late : Finset Hash} (consistent : Consistent dag)
    (fits : dag.Fits block) (noticed : Noticed newcomer late dag) :
    Noticed newcomer (insert block.header.id late) (ghostDag.submit dag block) := by
  have submitted := submit_step ghostDag consistent fits
  have grown := submitted.grown
  generalize ghostDag.submit dag block = after at submitted grown ⊢
  have formedAfter := submitted.consistent.formed
  refine ⟨by rw [grown.keys]; exact Finset.mem_insert_of_mem noticed.stored, ?_⟩
  intro id member colouring coloured selectedParent selected
  by_cases visited : id = block.header.id ∨ Revisited dag block id
  · obtain ⟨stored, found, same⟩ := Option.map_eq_some_iff.mp coloured
    have settled := submitted.settled id visited stored found
    by_cases root : stored.header.parents = ∅
    · rw [← same, settled.1 root] at selected
      cases selected
    · obtain ⟨parent, select, equation⟩ := Option.map_eq_some_iff.mp (settled.2 root)
      rw [← same, ← equation] at selected ⊢
      obtain rfl : parent = selectedParent := Option.some.inj selected
      refine ⟨formedAfter.stored _ _ ⟨stored, found, mem_ascending.mp (select_parent_mem select)⟩, ?_⟩
      exact fun seen => anticone_coloured ghostDag seen _
  · obtain ⟨different, free⟩ := not_or.mp visited
    rw [submitted.kept id different free] at coloured
    obtain ⟨known, seenBefore⟩ := noticed.coloured id ((Finset.mem_insert.mp member).resolve_left different)
      colouring coloured selectedParent selected
    refine ⟨by rw [grown.keys]; exact Finset.mem_insert_of_mem known, fun seen => seenBefore ?_⟩
    rcases (grown.mem_anticone consistent.formed known).mp seen with before | ⟨same, _⟩
    · exact before
    · exact absurd (same ▸ noticed.stored) fits.absent

theorem Arrival.noticed (ghostDag : GhostDag) {newcomer : BlockNode} {late : List BlockNode}
    (arrival : Arrival (before ++ [newcomer] ++ late)) :
    Noticed newcomer.header.id (ids late) (graphOf ghostDag (before ++ [newcomer] ++ late)) := by
  induction late using List.reverseRecOn with
  | nil =>
    have represents := arrival.represents ghostDag
    refine ⟨?_, fun id member => absurd member (Finset.notMem_empty _)⟩
    rw [represents.keys, List.append_nil, ids_snoc]
    exact Finset.mem_insert_self _ _
  | append_singleton earlier last ih =>
    rw [← List.append_assoc] at arrival ⊢
    obtain ⟨sofar, joins⟩ := arrival_snoc.mp arrival
    have represents := sofar.represents ghostDag
    rw [graph_of_snoc, ids_snoc]
    exact (ih sofar).step represents.consistent (represents.fits joins)

/-- Whether a stored block is in the past of a new one. -/
def inPast (ghostDag : GhostDag) (before : List BlockNode) (block other : BlockNode) : Bool :=
  decide (other.header.id ∈ pastSet (graphOf ghostDag before) block.header.parents)

theorem in_past_iff (other : BlockNode) :
    inPast ghostDag before block other = true ↔ (graphOf ghostDag before).PastOfNew block other.header.id :=
  decide_eq_true_iff.trans mem_past_set

/-- With a block its parents are in the past of the new one. -/
theorem Represents.past_closed (represents : Represents ghostDag before) (block : BlockNode) :
    ∀ child ∈ before, inPast ghostDag before block child = true → ∀ parent ∈ before,
      parent.header.id ∈ child.header.parents → inPast ghostDag before block parent = true := by
  intro child member kept parent _ named
  have step : (graphOf ghostDag before).ParentOf parent.header.id child.header.id :=
    Dag.parent_of_iff_place.mpr ⟨_, _, represents.places child member, named⟩
  rw [in_past_iff] at kept ⊢
  obtain ⟨source, sourceNamed, same | path⟩ := kept
  · exact ⟨source, sourceNamed, .inr (same ▸ .single step)⟩
  · exact ⟨source, sourceNamed, .inr (.head step path)⟩

/-- A block whose parent is outside the past of the new one is outside, too. -/
theorem Represents.mem_late (represents : Represents ghostDag before) {selectedParent : Hash}
    (edge : (graphOf ghostDag before).ParentOf selectedParent id)
    (outside : ¬ (graphOf ghostDag before).PastOfNew block selectedParent) :
    id ∈ ids (before.filter fun other => !inPast ghostDag before block other) := by
  have member : id ∈ ids before := by
    obtain ⟨stored, found, _⟩ := edge
    rw [← represents.keys]
    exact Dag.get_block_isSome.mp ⟨stored, found⟩
  obtain ⟨other, otherMem, same⟩ := mem_ids.mp member
  refine mem_ids.mpr ⟨other, List.mem_filter.mpr ⟨otherMem, ?_⟩, same⟩
  rw [Bool.not_eq_true', ← Bool.not_eq_true, in_past_iff, same]
  rintro ⟨source, sourceNamed, rfl | path⟩
  · exact outside ⟨id, sourceNamed, .inr (.single edge)⟩
  · exact outside ⟨source, sourceNamed, .inr (.head edge path)⟩

/-- If all orders of a set of blocks agree, every submission of every order is calm: a block
that is not calm can be put before the blocks it disturbs. -/
theorem calm_of_agreement
    (agreement : ∀ first second, Arrival first → Arrival second → first.Perm second → first.Subperm blocks →
      Agree ghostDag (graphOf ghostDag first) (graphOf ghostDag second))
    {order : List BlockNode} (arrival : Arrival order) (within : order.Subperm blocks) :
    CalmRun ghostDag order := by
  induction order using List.reverseRecOn with
  | nil => exact calm_run_nil
  | append_singleton before block ih =>
    obtain ⟨beforeArrival, joins⟩ := arrival_snoc.mp arrival
    have withinBefore : before.Subperm blocks := (List.sublist_append_left before [block]).subperm.trans within
    have calmBefore := ih beforeArrival withinBefore
    refine (calm_run_snoc _).mpr ⟨calmBefore, ?_⟩
    have represents := beforeArrival.represents ghostDag
    have fits := represents.fits joins
    have formed := represents.consistent.formed
    have submitted := submit_step ghostDag represents.consistent fits
    rw [← graph_of_snoc] at submitted
    intro id stored found inner free
    rw [mem_affected_set formed] at free
    obtain ⟨selectedParent, selected, select, edge⟩ :=
      settled_selected (beforeArrival.settled calmBefore id) found inner
    refine ⟨selectedParent, selected, mem_past_set.mpr ?_⟩
    by_contra outside
    have newInner : block.header.parents ≠ ∅ := by
      intro root
      rw [joins.root.mp root] at found
      exact nomatch found
    -- put the past of the new block first, then the block, then the rest
    have reordered := arrival.postpone newInner (represents.past_closed block) fun parent _ named =>
      (in_past_iff parent).mpr ⟨_, named, .inl rfl⟩
    have perm := postpone_perm before block (inPast ghostDag before block)
    have agree := (agreement _ _ arrival reordered perm within).1 id
    have shape := same_shape_of_perm ghostDag arrival reordered perm
    have notNew : id ≠ block.header.id := by
      rintro rfl
      exact fits.absent (Dag.get_block_isSome.mp ⟨stored, found⟩)
    have coloured : colouringAt (graphOf ghostDag (before.filter (inPast ghostDag before block) ++ [block] ++
        before.filter fun other => !inPast ghostDag before block other)) id = some stored.colouring := by
      rw [← agree, submitted.kept id notNew free, colouringAt, found]
      rfl
    have seen := ((reordered.noticed ghostDag).coloured id (represents.mem_late edge outside) _ coloured selectedParent
      selected).2 ?_
    · obtain ⟨blue, red⟩ := represents.consistent.within id stored found
      exact fits.absent (seen.elim (fun isBlue => blue isBlue) fun isRed => red isRed)
    · rw [shape.get_anticone]
      exact (submitted.grown.mem_anticone formed (formed.stored _ _ edge)).mpr (.inr ⟨rfl, outside⟩)

/-- Arrival orders and the colouring. Two orders of the same blocks whose submissions are all
calm give every block the same colouring and the same ordering; and all orders of the
parts of a set of blocks agree exactly when every submission of every such order is calm. -/
theorem process_block_agrees_iff_calm (ghostDag : GhostDag) :
    (∀ first second, Arrival first → Arrival second → first.Perm second →
      CalmRun ghostDag first → CalmRun ghostDag second →
      Agree ghostDag (graphOf ghostDag first) (graphOf ghostDag second)) ∧
    (∀ blocks,
      (∀ first second, Arrival first → Arrival second → first.Perm second → first.Subperm blocks →
        Agree ghostDag (graphOf ghostDag first) (graphOf ghostDag second)) ↔
      ∀ order, Arrival order → order.Subperm blocks → CalmRun ghostDag order) := by
  have agrees : ∀ first second, Arrival first → Arrival second → first.Perm second →
      CalmRun ghostDag first → CalmRun ghostDag second →
      Agree ghostDag (graphOf ghostDag first) (graphOf ghostDag second) :=
    fun first second firstArrival secondArrival same firstCalm secondCalm =>
      agree_of_settled firstArrival secondArrival same (firstArrival.settled firstCalm)
        (secondArrival.settled secondCalm)
  refine ⟨agrees, fun blocks => ⟨fun agreement order => calm_of_agreement agreement, ?_⟩⟩
  intro calm first second firstArrival secondArrival same within
  exact agrees first second firstArrival secondArrival same (calm first firstArrival within)
    (calm second secondArrival (same.symm.subperm.trans within))

/-- A block without transactions whose id repeats one byte. -/
def emptyBlock (id : UInt8) (parents : Finset Hash) : BlockNode where
  header := ⟨.replicate id, parents, 0, 1, 0, .replicate 0, none, none⟩
  children := ∅
  selectedParent := none
  blueSet := ∅
  redSet := ∅
  blueScore := 0
  transactions := []

/-- Two children of the genesis block agree in either order. -/
theorem siblings_agree :
    Agree (GhostDag.new 1)
      (graphOf (GhostDag.new 1)
        [emptyBlock 1 ∅, emptyBlock 2 {.replicate 1}, emptyBlock 3 {.replicate 1}])
      (graphOf (GhostDag.new 1)
        [emptyBlock 1 ∅, emptyBlock 3 {.replicate 1}, emptyBlock 2 {.replicate 1}]) := by
  refine (process_block_agrees_iff_calm (GhostDag.new 1)).1 _ _ (by decide +kernel) (by decide +kernel)
    (by decide +kernel) ?_ ?_
  · exact (calm_run_snoc [_, _]).mpr ⟨(calm_run_snoc [_]).mpr
      ⟨(calm_run_snoc []).mpr ⟨calm_run_nil, by decide +kernel⟩, by decide +kernel⟩,
      by decide +kernel⟩
  · exact (calm_run_snoc [_, _]).mpr ⟨(calm_run_snoc [_]).mpr
      ⟨(calm_run_snoc []).mpr ⟨calm_run_nil, by decide +kernel⟩, by decide +kernel⟩,
      by decide +kernel⟩

/-- Two branches of two blocks each: whether the second block of one branch is recomputed when
the other branch grows depends on which grew last. -/
theorem branches_disagree :
    let genesis := emptyBlock 1 ∅
    let left := emptyBlock 2 {.replicate 1}
    let right := emptyBlock 3 {.replicate 1}
    let leftTip := emptyBlock 4 {.replicate 2}
    let rightTip := emptyBlock 5 {.replicate 3}
    Arrival [genesis, left, right, leftTip, rightTip] ∧ Arrival [genesis, left, right, rightTip, leftTip] ∧
      [genesis, left, right, leftTip, rightTip].Perm [genesis, left, right, rightTip, leftTip] ∧
      ¬ Agree (GhostDag.new 1) (graphOf (GhostDag.new 1) [genesis, left, right, leftTip, rightTip])
        (graphOf (GhostDag.new 1) [genesis, left, right, rightTip, leftTip]) := by
  refine ⟨by decide +kernel, by decide +kernel, by decide +kernel, fun agree => ?_⟩
  have scores := congrArg (Option.map Colouring.blueScore) (agree.1 (.replicate 4))
  revert scores
  decide +kernel

end Runs
end Klomang.GhostDag
