import Klomang.Consensus.GhostDag
import Klomang.Dag.Shape
import Klomang.Lib.Cluster

/-! The colouring as an equation. A block is settled when what is stored for it
is what `recompute_block` would write; a graph whose blocks are all settled is
determined by its shape, and `process_block` settles the blocks it visits. -/
namespace Klomang.GhostDag

open Dag (WellFormed SameShape Grown PastOfNew)

variable {ghostDag : GhostDag} {dag after other : Dag} {block : BlockNode} {id node : Hash}

section Greedy

/-- The rivals of a block: its anticone. -/
def rivals (dag : Dag) (id : Hash) : Finset Hash := (dag.getAnticone id).toFinset

/-- What a block inherits from its selected parent: the parent and its blue set. -/
def inherited (dag : Dag) (selectedParent : Hash) : Finset Hash :=
  match dag.getBlock selectedParent with
  | some parentBlock => insert selectedParent parentBlock.blueSet
  | none => ∅

/-- `build_blue_set` is the greedy colouring of the anticone of the selected parent. -/
theorem build_blue_set_run (ghostDag : GhostDag) (dag : Dag) (selectedParent : Hash) (parents : List Hash) :
    ghostDag.buildBlueSet dag selectedParent parents =
      Runs.run (Cluster.colour (rivals dag) ghostDag.k) (inherited dag selectedParent, ∅)
        (dag.getAnticone selectedParent) := rfl

theorem mem_rivals : node ∈ rivals dag id ↔ node ∈ dag.getAnticone id := List.mem_toFinset

theorem not_own_rival (dag : Dag) (id : Hash) : id ∉ rivals dag id := by
  rw [mem_rivals, Dag.mem_get_anticone]
  exact fun both => both.2.1 rfl

theorem anticone_nodup (dag : Dag) (id : Hash) : (dag.getAnticone id).Nodup :=
  (ascending_nodup dag.blocks.keys).filter _

theorem rivals_same_shape (same : dag.SameShape other) : rivals other = rivals dag := by
  funext id
  rw [rivals, rivals, same.get_anticone]

/-- A new leaf changes no rivalry between old blocks. -/
theorem rivals_grown (formed : dag.WellFormed) (grown : dag.Grown block after) (known : id ∈ dag.blocks.keys)
    {members : Finset Hash} (old : members ⊆ dag.blocks.keys) :
    rivals after id ∩ members = rivals dag id ∩ members := by
  ext member
  rw [Finset.mem_inter, Finset.mem_inter, mem_rivals, mem_rivals, grown.mem_anticone formed known]
  apply and_congr_left
  intro listed
  apply or_iff_left
  rintro ⟨rfl, _⟩
  exact grown.fits.absent (old listed)

theorem inherited_of_found (found : dag.getBlock id = some block) : inherited dag id = insert id block.blueSet := by
  rw [inherited, found]

end Greedy

section Equation

/-- The colouring that a selected parent gives. -/
def colouringFrom (ghostDag : GhostDag) (dag : Dag) (parents : List Hash) (selectedParent : Hash) : Colouring where
  selectedParent := some selectedParent
  blueSet := (ghostDag.buildBlueSet dag selectedParent parents).1
  redSet := (ghostDag.buildBlueSet dag selectedParent parents).2
  blueScore := storedScore dag selectedParent +
    UInt64.ofNat (ghostDag.buildBlueSet dag selectedParent parents).1.card

/-- What `recompute_block` writes for a block with the given parents. -/
def computed (ghostDag : GhostDag) (dag : Dag) (parents : Finset Hash) : Option Colouring :=
  (ghostDag.selectParent dag (ascending parents)).map (ghostDag.colouringFrom dag (ascending parents))

/-- The colouring of the first block. -/
def rootColouring : Colouring := ⟨none, ∅, ∅, 1⟩

/-- The stored colouring of a block satisfies its equation. -/
def Settled (ghostDag : GhostDag) (dag : Dag) (id : Hash) : Prop :=
  ∀ block, dag.getBlock id = some block →
    (block.header.parents = ∅ → block.colouring = rootColouring) ∧
    (block.header.parents ≠ ∅ → ghostDag.computed dag block.header.parents = some block.colouring)

/-- The stored colouring of a block. -/
def colouringAt (dag : Dag) (id : Hash) : Option Colouring := (dag.getBlock id).map (·.colouring)

theorem stored_score_of_colouring : storedScore dag id = ((colouringAt dag id).map (·.blueScore)).getD 0 := by
  rw [storedScore, colouringAt, Option.map_map]
  rfl

private theorem score_pairs {dag : Dag} (parents : List Hash) :
    parents.filterMap (fun hash => (dag.getBlock hash).map fun block => (hash, block.blueScore)) =
      parents.filterMap fun hash => (colouringAt dag hash).map fun colouring => (hash, colouring.blueScore) := by
  congr 1
  funext hash
  rw [colouringAt, Option.map_map]
  rfl

theorem stored_score_of_found (found : dag.getBlock id = some block) : storedScore dag id = block.blueScore := by
  rw [storedScore, found]
  rfl

/-- The hashes of a list that are stored, each with its score. -/
theorem mem_scored {hashes : List Hash} {item : Hash × UInt64} :
    item ∈ hashes.filterMap (fun hash => (dag.getBlock hash).map fun block => (hash, block.blueScore)) ↔
      item.1 ∈ hashes ∧ item.1 ∈ dag.blocks.keys ∧ item.2 = storedScore dag item.1 := by
  obtain ⟨hash, score⟩ := item
  simp only [List.mem_filterMap, Option.map_eq_some_iff, Prod.mk.injEq]
  constructor
  · rintro ⟨_, listed, stored, found, rfl, rfl⟩
    exact ⟨listed, Dag.get_block_isSome.mp ⟨stored, found⟩, (stored_score_of_found found).symm⟩
  · rintro ⟨listed, known, rfl⟩
    obtain ⟨stored, found⟩ := Dag.get_block_isSome.mpr known
    exact ⟨hash, listed, stored, found, rfl, (stored_score_of_found found).symm⟩

/-- The selected parent is one of the parents, and stored. -/
theorem select_parent_found {parents : List Hash} (selected : ghostDag.selectParent dag parents = some id) :
    id ∈ parents ∧ id ∈ dag.blocks.keys := by
  obtain ⟨pair, first, rfl⟩ := Option.map_eq_some_iff.mp selected
  obtain ⟨named, known, _⟩ := mem_scored.mp ((List.mem_insertionSort _).mp (List.mem_of_mem_head? first))
  exact ⟨named, known⟩

theorem select_parent_mem {parents : List Hash} (selected : ghostDag.selectParent dag parents = some id) :
    id ∈ parents := (select_parent_found selected).1

/-- A stored parent is enough for one to be selected. -/
theorem select_parent_isSome (ghostDag : GhostDag) {parents : List Hash} (named : id ∈ parents)
    (found : dag.getBlock id = some block) :
    ∃ selected, ghostDag.selectParent dag parents = some selected := by
  have known := Dag.get_block_isSome.mp ⟨block, found⟩
  have listed : (id, storedScore dag id) ∈ _ := mem_scored.mpr ⟨named, known, rfl⟩
  have member := (List.mem_insertionSort Preferred).mpr listed
  unfold selectParent
  cases sorted : (parents.filterMap fun hash =>
      (dag.getBlock hash).map fun block => (hash, block.blueScore)).insertionSort Preferred with
  | nil => rw [sorted] at member; exact absurd member List.not_mem_nil
  | cons first rest =>
    refine ⟨first.1, ?_⟩
    dsimp only
    rw [sorted]
    rfl

/-- The selected parent depends on the parents' scores. -/
theorem select_parent_congr (ghostDag : GhostDag) {parents : List Hash}
    (agree : ∀ parent ∈ parents, colouringAt other parent = colouringAt dag parent) :
    ghostDag.selectParent other parents = ghostDag.selectParent dag parents := by
  have pairs := List.filterMap_congr (l := parents)
    (f := fun hash => (colouringAt other hash).map fun colouring => (hash, colouring.blueScore))
    (g := fun hash => (colouringAt dag hash).map fun colouring => (hash, colouring.blueScore))
    fun hash named => by rw [agree hash named]
  rw [selectParent, selectParent, score_pairs, score_pairs, pairs]

/-- What is inherited depends on the parent's blue set. -/
theorem inherited_congr (agree : colouringAt other id = colouringAt dag id) : inherited other id = inherited dag id := by
  unfold colouringAt at agree
  unfold inherited
  cases there : other.getBlock id with
  | none =>
    cases here : dag.getBlock id with
    | none => rfl
    | some block => rw [there, here] at agree; cases agree
  | some counterpart =>
    cases here : dag.getBlock id with
    | none => rw [there, here] at agree; cases agree
    | some block =>
      rw [there, here] at agree
      have blue : counterpart.blueSet = block.blueSet := congrArg Colouring.blueSet (Option.some.inj agree)
      simp only [blue]

/-- The sets depend on the selected parent's blue set and the shape of the graph. -/
theorem build_blue_set_congr (same : dag.SameShape other) {parent : Hash}
    (agree : colouringAt other parent = colouringAt dag parent) (parents : List Hash) :
    ghostDag.buildBlueSet other parent parents = ghostDag.buildBlueSet dag parent parents := by
  rw [build_blue_set_run, build_blue_set_run, rivals_same_shape same, inherited_congr agree, same.get_anticone]

theorem stored_score_congr (agree : colouringAt other id = colouringAt dag id) :
    storedScore other id = storedScore dag id := by
  rw [stored_score_of_colouring, stored_score_of_colouring, agree]

theorem colouring_from_congr (same : dag.SameShape other) {parent : Hash}
    (agree : colouringAt other parent = colouringAt dag parent) (parents : List Hash) :
    ghostDag.colouringFrom other parents parent = ghostDag.colouringFrom dag parents parent := by
  rw [colouringFrom, colouringFrom, build_blue_set_congr same agree, stored_score_congr agree]

/-- The equation reads the parents' colourings and the shape of the graph. -/
theorem computed_congr (same : dag.SameShape other) {parents : Finset Hash}
    (agree : ∀ parent ∈ parents, colouringAt other parent = colouringAt dag parent) :
    ghostDag.computed other parents = ghostDag.computed dag parents := by
  rw [computed, computed, select_parent_congr ghostDag fun parent named => agree parent (mem_ascending.mp named)]
  cases selected : ghostDag.selectParent dag (ascending parents) with
  | none => rw [Option.map_none, Option.map_none]
  | some parent =>
    have read := agree parent (mem_ascending.mp (select_parent_mem selected))
    rw [Option.map_some, Option.map_some, colouring_from_congr same read]

/-- Two settled graphs of one shape store the same colourings: by induction on the rank. -/
theorem settled_unique (formed : dag.WellFormed) (same : dag.SameShape other)
    (settled : ∀ id, ghostDag.Settled dag id) (otherSettled : ∀ id, ghostDag.Settled other id) (id : Hash) :
    colouringAt other id = colouringAt dag id := by
  obtain ⟨rank, ranked⟩ := formed.ranked
  induction hypothesis : rank id using Nat.strong_induction_on generalizing id with
  | _ bound ih =>
    cases found : dag.getBlock id with
    | none => rw [colouringAt, colouringAt, found, Dag.get_block_none.mpr (same.keys ▸ Dag.get_block_none.mp found)]
    | some block =>
      obtain ⟨counterpart, stored, header, _⟩ := same.find found
      rw [colouringAt, colouringAt, found, stored]
      simp only [Option.map_some, Option.some.injEq]
      by_cases root : block.header.parents = ∅
      · rw [(settled id block found).1 root, (otherSettled id counterpart stored).1 (header ▸ root)]
      · have left := (settled id block found).2 root
        have right := (otherSettled id counterpart stored).2 (by rw [header]; exact root)
        rw [header, computed_congr same, left] at right
        · exact (Option.some.inj right).symm
        · intro parent named
          have lower := ranked parent id ⟨block, found, named⟩
          exact ih (rank parent) (hypothesis ▸ lower) parent rfl

/-- Settled graphs of one shape have the same ordering. -/
theorem get_ordering_congr (keys : other.blocks.keys = dag.blocks.keys)
    (agree : ∀ id, colouringAt other id = colouringAt dag id) :
    ghostDag.getOrdering other = ghostDag.getOrdering dag := by
  have scores : storedScore other = storedScore dag := funext fun id => stored_score_congr (agree id)
  have order : ScoreOrder other = ScoreOrder dag := by
    funext left right
    unfold ScoreOrder
    rw [scores]
  unfold getOrdering Dag.getAllHashes
  rw [keys]
  congr!

end Equation

section Recomputing

theorem get_block_set (id node : Hash) (block : BlockNode) :
    (dag.setBlock id block).getBlock node = if node = id then some block else dag.getBlock node :=
  FiniteMap.lookup_insert_ite dag.blocks id node block

theorem same_shape_set {stored : BlockNode} (found : dag.getBlock id = some stored)
    (header : block.header = stored.header) (children : block.children = stored.children) :
    dag.SameShape (dag.setBlock id block) := by
  intro node
  rw [Dag.place, Dag.place, get_block_set]
  split
  · rename_i same
    rw [same, found, Option.map_some, Option.map_some, header, children]
  · rfl

theorem set_block_self (found : dag.getBlock id = some block) : dag.setBlock id block = dag := by
  rw [Dag.setBlock, FiniteMap.insert_lookup found]

/-- `recompute_block` on an unknown hash does nothing. -/
theorem recompute_missing (absent : dag.getBlock id = none) : (ghostDag.recomputeBlock dag id).2 = dag := by
  unfold recomputeBlock
  rw [absent]

/-- `recompute_block` leaves the first block alone. -/
theorem recompute_root (found : dag.getBlock id = some block) (root : block.header.parents = ∅) :
    (ghostDag.recomputeBlock dag id).2 = dag := by
  unfold recomputeBlock
  rw [found]
  simp only [root, ↓reduceIte]

/-- The parents of a stored block are there. -/
theorem parents_exist (formed : dag.WellFormed) (found : dag.getBlock id = some block) :
    ∀ parent ∈ block.header.parents, dag.blockExists parent = true := by
  intro parent named
  obtain ⟨stored, there⟩ := Dag.get_block_isSome.mpr (formed.stored parent id ⟨block, found, named⟩)
  rw [Dag.blockExists, there]
  rfl

/-- `recompute_block` writes what the equation says. -/
theorem recompute_eq (ghostDag : GhostDag) (formed : dag.WellFormed) (found : dag.getBlock id = some block)
    (inner : block.header.parents ≠ ∅) :
    ∃ colouring, ghostDag.computed dag block.header.parents = some colouring ∧
      (ghostDag.recomputeBlock dag id).2 = dag.setBlock id (block.recolour colouring) := by
  have known := parents_exist formed found
  obtain ⟨parent, named⟩ := Finset.nonempty_iff_ne_empty.mpr inner
  obtain ⟨stored, there⟩ := Dag.get_block_isSome.mpr (formed.stored parent id ⟨block, found, named⟩)
  obtain ⟨selected, select⟩ := select_parent_isSome ghostDag (mem_ascending.mpr named) there
  refine ⟨ghostDag.colouringFrom dag (ascending block.header.parents) selected, by rw [computed, select]; rfl, ?_⟩
  unfold recomputeBlock
  rw [found]
  dsimp only
  rw [if_neg inner, if_neg (not_not_intro known), select]
  dsimp only
  split
  · rename_i unchanged
    obtain ⟨parentSame, blueSame, redSame, scoreSame⟩ := unchanged
    rw [BlockNode.recolour, colouringFrom, ← scoreSame, ← parentSame, ← blueSame, ← redSame]
    exact (set_block_self found).symm
  · rfl

theorem recompute_same_shape (ghostDag : GhostDag) (formed : dag.WellFormed) (id : Hash) :
    dag.SameShape (ghostDag.recomputeBlock dag id).2 := by
  cases found : dag.getBlock id with
  | none =>
    rw [recompute_missing found]
    exact SameShape.refl dag
  | some block =>
    by_cases root : block.header.parents = ∅
    · rw [recompute_root found root]
      exact SameShape.refl dag
    · obtain ⟨colouring, _, written⟩ := recompute_eq ghostDag formed found root
      rw [written]
      exact same_shape_set found rfl rfl

/-- `recompute_block` writes to its own block only. -/
theorem recompute_frame (formed : dag.WellFormed) {id node : Hash} (different : node ≠ id) :
    (ghostDag.recomputeBlock dag id).2.getBlock node = dag.getBlock node := by
  cases found : dag.getBlock id with
  | none => rw [recompute_missing found]
  | some block =>
    by_cases root : block.header.parents = ∅
    · rw [recompute_root found root]
    · obtain ⟨colouring, _, written⟩ := recompute_eq ghostDag formed found root
      rw [written, get_block_set, if_neg different]

/-- A block stays settled while its own colouring and its parents' stay. -/
theorem Settled.congr (same : dag.SameShape after) (settled : ghostDag.Settled dag id)
    (own : after.getBlock id = dag.getBlock id)
    (parents : ∀ parent, dag.ParentOf parent id → colouringAt after parent = colouringAt dag parent) :
    ghostDag.Settled after id := by
  intro block found
  rw [own] at found
  obtain ⟨first, second⟩ := settled block found
  refine ⟨first, fun inner => ?_⟩
  rw [computed_congr same fun parent named => parents parent ⟨block, found, named⟩]
  exact second inner

/-- `recompute_block` settles its block; the first block has to be settled before. -/
theorem recompute_settles (ghostDag : GhostDag) (formed : dag.WellFormed) (id : Hash)
    (root : ∀ block, dag.getBlock id = some block → block.header.parents = ∅ → block.colouring = rootColouring) :
    ghostDag.Settled (ghostDag.recomputeBlock dag id).2 id := by
  have shape := recompute_same_shape ghostDag formed id
  intro block found
  obtain ⟨before, there, header, _⟩ := shape.symm.find found
  by_cases first : before.header.parents = ∅
  · rw [recompute_root there first] at found
    have same : before = block := Option.some.inj (there.symm.trans found)
    subst same
    exact ⟨fun _ => root before there first, fun inner => absurd first inner⟩
  · obtain ⟨colouring, equation, written⟩ := recompute_eq ghostDag formed there first
    rw [← header]
    refine ⟨fun empty => absurd empty first, fun _ => ?_⟩
    have stored := found
    rw [written, get_block_set, if_pos rfl, Option.some.injEq] at stored
    rw [computed_congr shape, equation, ← stored]
    · rfl
    · intro parent named
      have different : parent ≠ id := by
        rintro rfl
        obtain ⟨rank, ranked⟩ := formed.ranked
        exact Nat.lt_irrefl _ (ranked _ _ ⟨before, there, named⟩)
      rw [colouringAt, recompute_frame formed different, colouringAt]

/-- Recompute the blocks of a list in turn. -/
def recomputeAll (ghostDag : GhostDag) (dag : Dag) (order : List Hash) : Dag :=
  order.foldl (fun dag descendant => (ghostDag.recomputeBlock dag descendant).2) dag

theorem recompute_all_same_shape (ghostDag : GhostDag) (formed : dag.WellFormed) (order : List Hash) :
    dag.SameShape (ghostDag.recomputeAll dag order) := by
  induction order generalizing dag with
  | nil => exact SameShape.refl dag
  | cons id rest ih =>
    have step := recompute_same_shape ghostDag formed id
    exact step.trans (ih (formed.of_same_shape step))

theorem recompute_all_frame (formed : dag.WellFormed) {order : List Hash} (outside : node ∉ order) :
    (ghostDag.recomputeAll dag order).getBlock node = dag.getBlock node := by
  induction order generalizing dag with
  | nil => rfl
  | cons id rest ih =>
    obtain ⟨different, outsideRest⟩ := not_or.mp (List.mem_cons.not.mp outside)
    have step := recompute_same_shape ghostDag formed id
    rw [recomputeAll, List.foldl_cons]
    exact (ih (formed.of_same_shape step) outsideRest).trans (recompute_frame formed different)

/-- Recomputing in a parents-first order settles every block of the order. -/
theorem recompute_all_settles (ghostDag : GhostDag) (formed : dag.WellFormed) {order : List Hash} (distinct : order.Nodup)
    (ordered : order.Pairwise fun before after => ¬ dag.ParentOf after before)
    (root : ∀ id ∈ order, ∀ block, dag.getBlock id = some block → block.header.parents = ∅ →
      block.colouring = rootColouring) :
    ∀ id ∈ order, ghostDag.Settled (ghostDag.recomputeAll dag order) id := by
  induction order generalizing dag with
  | nil => exact fun id member => absurd member List.not_mem_nil
  | cons first rest ih =>
    obtain ⟨once, distinctRest⟩ := List.nodup_cons.mp distinct
    obtain ⟨noParent, orderedRest⟩ := List.pairwise_cons.mp ordered
    have step := recompute_same_shape ghostDag formed first
    have formedStep := formed.of_same_shape step
    have settledFirst := recompute_settles ghostDag formed first (root first List.mem_cons_self)
    intro id member
    rcases List.mem_cons.mp member with rfl | later
    · -- nothing recomputed later is the block itself or one of its parents
      refine settledFirst.congr (recompute_all_same_shape ghostDag formedStep rest) (recompute_all_frame formedStep once) ?_
      intro parent edge
      have outside : parent ∉ rest := fun listed => noParent parent listed (step.parent_of.mp edge)
      rw [colouringAt, colouringAt]
      exact congrArg (Option.map _) (recompute_all_frame formedStep outside)
    · refine ih formedStep distinctRest ?_ ?_ id later
      · exact orderedRest.imp fun free edge => free (step.parent_of.mp edge)
      · intro other listed block found
        have different : other ≠ first := by
          rintro rfl
          exact once listed
        rw [recompute_frame formed different] at found
        exact root other (List.mem_cons_of_mem _ listed) block found

end Recomputing
end Klomang.GhostDag
