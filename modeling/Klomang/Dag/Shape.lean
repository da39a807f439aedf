import Klomang.Dag.Basic
import Mathlib.Tactic.Tauto

/-! The shape of a block graph: which blocks are stored, with which parents and
children. Past, future and anticone are functions of the shape, and adding a
block extends the shape by one leaf. -/
namespace Klomang

/-- What consensus writes into a block. -/
structure Colouring where
  selectedParent : Option Hash
  blueSet : Finset Hash
  redSet : Finset Hash
  blueScore : UInt64

namespace BlockNode

def colouring (block : BlockNode) : Colouring :=
  ⟨block.selectedParent, block.blueSet, block.redSet, block.blueScore⟩

def recolour (block : BlockNode) (colouring : Colouring) : BlockNode :=
  { block with
    selectedParent := colouring.selectedParent
    blueSet := colouring.blueSet
    redSet := colouring.redSet
    blueScore := colouring.blueScore }

@[simp] theorem recolour_header (block : BlockNode) (colouring : Colouring) :
    (block.recolour colouring).header = block.header := rfl

@[simp] theorem recolour_children (block : BlockNode) (colouring : Colouring) :
    (block.recolour colouring).children = block.children := rfl

@[simp] theorem recolour_colouring (block : BlockNode) (colouring : Colouring) :
    (block.recolour colouring).colouring = colouring := rfl

end BlockNode

namespace Dag

/-- A block's place in the graph. -/
def place (dag : Dag) (id : Hash) : Option (BlockHeader × Finset Hash) :=
  (dag.getBlock id).map fun block => (block.header, block.children)

/-- Two graphs with the same blocks in the same places. -/
def SameShape (dag other : Dag) : Prop := ∀ id, other.place id = dag.place id

section SameShape
variable {dag other third : Dag}

theorem SameShape.refl (dag : Dag) : dag.SameShape dag := fun _ => rfl

theorem SameShape.symm (same : dag.SameShape other) : other.SameShape dag := fun id => (same id).symm

theorem SameShape.trans (first : dag.SameShape other) (second : other.SameShape third) :
    dag.SameShape third := fun id => (second id).trans (first id)

/-- The block stored in the other graph at the same place. -/
theorem SameShape.find (same : dag.SameShape other) {id : Hash} {block : BlockNode}
    (found : dag.getBlock id = some block) :
    ∃ counterpart, other.getBlock id = some counterpart ∧ counterpart.header = block.header ∧
      counterpart.children = block.children := by
  have there := same id
  rw [place, place, found, Option.map_some, Option.map_eq_some_iff] at there
  obtain ⟨counterpart, stored, agree⟩ := there
  exact ⟨counterpart, stored, (Prod.mk.inj agree).1, (Prod.mk.inj agree).2⟩

theorem SameShape.keys (same : dag.SameShape other) : other.blocks.keys = dag.blocks.keys := by
  ext id
  rw [← get_block_isSome, ← get_block_isSome]
  constructor
  · rintro ⟨block, found⟩
    obtain ⟨counterpart, stored, _⟩ := same.symm.find found
    exact ⟨counterpart, stored⟩
  · rintro ⟨block, found⟩
    obtain ⟨counterpart, stored, _⟩ := same.find found
    exact ⟨counterpart, stored⟩

theorem SameShape.parents_of (same : dag.SameShape other) : other.parentsOf = dag.parentsOf := by
  funext id
  unfold parentsOf
  cases found : dag.getBlock id with
  | some block =>
    obtain ⟨counterpart, stored, header, _⟩ := same.find found
    rw [stored]
    simp only [header]
  | none => rw [get_block_none.mpr (same.keys ▸ get_block_none.mp found)]

theorem SameShape.children_of (same : dag.SameShape other) : other.childrenOf = dag.childrenOf := by
  funext id
  unfold childrenOf
  cases found : dag.getBlock id with
  | some block =>
    obtain ⟨counterpart, stored, _, children⟩ := same.find found
    rw [stored]
    simp only [children]
  | none => rw [get_block_none.mpr (same.keys ▸ get_block_none.mp found)]

theorem SameShape.get_anticone (same : dag.SameShape other) (id : Hash) :
    other.getAnticone id = dag.getAnticone id := by
  rw [getAnticone, getAnticone, getAncestors, getAncestors, getDescendants, getDescendants,
    getAllHashes, getAllHashes, same.keys, same.parents_of, same.children_of]

theorem SameShape.get_descendants (same : dag.SameShape other) (id : Hash) :
    other.getDescendants id = dag.getDescendants id := by
  rw [getDescendants, getDescendants, same.keys, same.children_of]

theorem SameShape.parent_of (same : dag.SameShape other) {parent child : Hash} :
    other.ParentOf parent child ↔ dag.ParentOf parent child := by
  rw [← mem_parents_of, ← mem_parents_of, same.parents_of]

theorem SameShape.child_of (same : dag.SameShape other) {parent child : Hash} :
    other.ChildOf child parent ↔ dag.ChildOf child parent := by
  rw [← mem_children_of, ← mem_children_of, same.children_of]

end SameShape

/-- Parents are stored, the two sets of links mirror each other, and there are no cycles. -/
structure Linked (dag : Dag) : Prop where
  stored : ∀ parent child, dag.ParentOf parent child → parent ∈ dag.blocks.keys
  children : ∀ parent child, dag.ChildOf child parent ↔ dag.ParentOf parent child
  ranked : ∃ rank : Hash → Nat, ∀ parent child, dag.ParentOf parent child → rank parent < rank child

/-- A block graph as `add_block` builds it. -/
structure WellFormed (dag : Dag) : Prop where
  ids : ∀ id block, dag.getBlock id = some block → block.header.id = id
  stored : ∀ parent child, dag.ParentOf parent child → parent ∈ dag.blocks.keys
  children : ∀ parent child, dag.ChildOf child parent ↔ dag.ParentOf parent child
  ranked : ∃ rank : Hash → Nat, ∀ parent child, dag.ParentOf parent child → rank parent < rank child
  rooted : ∀ id block, dag.getBlock id = some block → block.header.parents = ∅ →
    ∀ other node, dag.getBlock other = some node → node.header.parents = ∅ → other = id

theorem WellFormed.linked {dag : Dag} (formed : dag.WellFormed) : dag.Linked :=
  ⟨formed.stored, formed.children, formed.ranked⟩

/-- A block lies in another's past: parent links lead to it. -/
def Past (dag : Dag) : Hash → Hash → Prop := Relation.TransGen dag.ParentOf

section Past
variable {dag other : Dag} {id node child : Hash}

theorem wellFormed_new : Dag.new.WellFormed where
  ids _ _ found := nomatch found
  stored := by
    rintro parent child ⟨block, found, _⟩
    exact nomatch found
  children := by
    intro parent child
    constructor
    · rintro ⟨block, found, _⟩
      exact nomatch found
    · rintro ⟨block, found, _⟩
      exact nomatch found
  ranked := by
    refine ⟨fun _ => 0, ?_⟩
    rintro parent child ⟨block, found, _⟩
    exact nomatch found
  rooted _ _ found := nomatch found

theorem WellFormed.of_same_shape (formed : dag.WellFormed) (same : dag.SameShape other) :
    other.WellFormed where
  ids := by
    intro id block found
    obtain ⟨counterpart, stored, header, _⟩ := same.symm.find found
    rw [← header]
    exact formed.ids id counterpart stored
  stored := by
    intro parent child edge
    rw [same.keys]
    exact formed.stored parent child (same.parent_of.mp edge)
  children := by
    intro parent child
    rw [same.parent_of, same.child_of]
    exact formed.children parent child
  ranked := by
    obtain ⟨rank, ranked⟩ := formed.ranked
    exact ⟨rank, fun parent child edge => ranked parent child (same.parent_of.mp edge)⟩
  rooted := by
    intro id block found root third node stored otherRoot
    obtain ⟨first, firstFound, firstHeader, _⟩ := same.symm.find found
    obtain ⟨second, secondFound, secondHeader, _⟩ := same.symm.find stored
    exact formed.rooted id first firstFound (by rw [firstHeader, root]) third second secondFound
      (by rw [secondHeader, otherRoot])

theorem Linked.past_ranked (linked : dag.Linked) :
    ∃ rank : Hash → Nat, ∀ node id, dag.Past node id → rank node < rank id := by
  obtain ⟨rank, ranked⟩ := linked.ranked
  refine ⟨rank, fun node id path => ?_⟩
  induction path with
  | single edge => exact ranked _ _ edge
  | tail _ edge ih => exact ih.trans (ranked _ _ edge)

theorem Linked.past_irreflexive (linked : dag.Linked) (id : Hash) : ¬ dag.Past id id := by
  obtain ⟨rank, ranked⟩ := linked.past_ranked
  exact fun path => Nat.lt_irrefl _ (ranked id id path)

theorem WellFormed.past_irreflexive (formed : dag.WellFormed) (id : Hash) : ¬ dag.Past id id :=
  formed.linked.past_irreflexive id

theorem Linked.past_stored (linked : dag.Linked) (path : dag.Past node id) :
    node ∈ dag.blocks.keys := by
  induction path using Relation.TransGen.head_induction_on with
  | single edge => exact linked.stored _ _ edge
  | head edge _ _ => exact linked.stored _ _ edge

theorem WellFormed.past_stored (formed : dag.WellFormed) (path : dag.Past node id) :
    node ∈ dag.blocks.keys := formed.linked.past_stored path

theorem parent_of_stored (edge : dag.ParentOf node id) : id ∈ dag.blocks.keys := by
  obtain ⟨block, found, _⟩ := edge
  exact get_block_isSome.mp ⟨block, found⟩

theorem past_child_stored (path : dag.Past node id) : id ∈ dag.blocks.keys := by
  obtain ⟨_, _, edge⟩ := Relation.TransGen.tail'_iff.mp path
  exact parent_of_stored edge

theorem mem_get_ancestors_iff_past : node ∈ dag.getAncestors id ↔ dag.Past node id := by
  rw [mem_get_ancestors]
  exact Relation.transGen_swap

theorem Linked.mem_get_descendants_iff_past (linked : dag.Linked) :
    node ∈ dag.getDescendants id ↔ dag.Past id node := by
  have edges : (fun parent child => dag.ChildOf child parent) = dag.ParentOf := by
    funext parent child
    exact propext (linked.children parent child)
  rw [mem_get_descendants, edges, Relation.reflTransGen_iff_eq_or_transGen]
  constructor
  · rintro ⟨different, same | path⟩
    · exact absurd same different
    · exact path
  · intro path
    refine ⟨?_, .inr path⟩
    rintro rfl
    exact linked.past_irreflexive _ path

theorem WellFormed.mem_get_descendants_iff_past (formed : dag.WellFormed) :
    node ∈ dag.getDescendants id ↔ dag.Past id node := formed.linked.mem_get_descendants_iff_past

/-- The anticone of a block in a linked graph. -/
theorem Linked.mem_anticone (linked : dag.Linked) :
    node ∈ dag.getAnticone id ↔
      node ∈ dag.blocks.keys ∧ node ≠ id ∧ ¬ dag.Past node id ∧ ¬ dag.Past id node := by
  rw [mem_get_anticone, mem_get_ancestors_iff_past, linked.mem_get_descendants_iff_past]

theorem WellFormed.mem_anticone (formed : dag.WellFormed) :
    node ∈ dag.getAnticone id ↔
      node ∈ dag.blocks.keys ∧ node ≠ id ∧ ¬ dag.Past node id ∧ ¬ dag.Past id node :=
  formed.linked.mem_anticone

theorem SameShape.past (same : dag.SameShape other) : other.Past node id ↔ dag.Past node id := by
  have edges : other.ParentOf = dag.ParentOf := by
    funext parent child
    exact propext same.parent_of
  rw [Past, Past, edges]

end Past

section Adding
variable {dag : Dag} {block : BlockNode}

/-- A block that `add_block` accepts and that names no children. -/
structure Fits (dag : Dag) (block : BlockNode) : Prop where
  leaf : block.children = ∅
  absent : block.header.id ∉ dag.blocks.keys
  known : block.header.parents ⊆ dag.blocks.keys
  root : block.header.parents = ∅ ↔ dag.blocks.keys = ∅

theorem Fits.not_own_parent (fits : dag.Fits block) : block.header.id ∉ block.header.parents :=
  fun own => fits.absent (fits.known own)

theorem Fits.accepted (fits : dag.Fits block) : (dag.addBlock block).1 = .ok () := by
  have notSecond : ¬ (block.header.parents = ∅ ∧ dag.blocks.keys ≠ ∅) := fun both => both.2 (fits.root.mp both.1)
  rw [addBlock]
  simp only [fits.absent, fits.not_own_parent, notSecond, fits.known, not_true_eq_false, ↓reduceIte]

/-- `add_block` takes a block without children that fits, and leaves the graph alone otherwise. -/
theorem fits_or_refused (leaf : block.children = ∅) : dag.Fits block ∨ (dag.addBlock block).2 = dag := by
  unfold addBlock
  dsimp only
  split
  · exact .inr rfl
  rename_i absent
  split
  · exact .inr rfl
  split
  · exact .inr rfl
  rename_i first
  split
  · exact .inr rfl
  rename_i known
  rw [not_not] at known
  refine .inl ⟨leaf, absent, known, fun root => ?_, fun empty => ?_⟩
  · by_contra stored
    exact first ⟨root, stored⟩
  · rw [empty] at known
    exact Finset.subset_empty.mp known

private theorem lookup_add_children (id : Hash) (parents : List Hash) (distinct : parents.Nodup)
    (blocks : FiniteMap Hash BlockNode) (node : Hash) :
    (parents.foldl (addChild id) blocks).lookup node =
      (blocks.lookup node).map fun stored =>
        if node ∈ parents then { stored with children := insert id stored.children } else stored :=
  FiniteMap.lookup_fold_update (fun map key absent => by rw [addChild, absent])
    (fun map key value found => by rw [addChild, found]) distinct blocks node

/-- What `add_block` stores: the new block, and itself as a child of its parents. -/
theorem Fits.get_block (fits : dag.Fits block) (id : Hash) :
    (dag.addBlock block).2.getBlock id =
      if id = block.header.id then some block
      else (dag.getBlock id).map fun stored =>
        if id ∈ block.header.parents then
          { stored with children := insert block.header.id stored.children } else stored := by
  have notSecond : ¬ (block.header.parents = ∅ ∧ dag.blocks.keys ≠ ∅) := fun both => both.2 (fits.root.mp both.1)
  rw [addBlock]
  simp only [fits.absent, fits.not_own_parent, notSecond, fits.known, not_true_eq_false, ↓reduceIte,
    getBlock]
  rw [lookup_add_children _ _ (ascending_nodup _), FiniteMap.lookup_insert_ite]
  simp only [mem_ascending]
  by_cases same : id = block.header.id
  · subst same
    simp [fits.not_own_parent]
  · simp [same]

end Adding

/-- One graph extends another by one leaf. -/
structure Grown (dag : Dag) (block : BlockNode) (after : Dag) : Prop where
  fits : dag.Fits block
  keys : after.blocks.keys = insert block.header.id dag.blocks.keys
  placed : after.place block.header.id = some (block.header, ∅)
  kept : ∀ id ≠ block.header.id, after.place id = (dag.place id).map fun (header, children) =>
    (header, if id ∈ block.header.parents then insert block.header.id children else children)

section Growth
variable {dag after later : Dag} {block : BlockNode} {node id : Hash}

theorem Fits.grown (fits : dag.Fits block) : dag.Grown block (dag.addBlock block).2 where
  fits := fits
  keys := by
    ext id
    rw [← get_block_isSome, fits.get_block, Finset.mem_insert, ← get_block_isSome]
    by_cases same : id = block.header.id
    · simp [same]
    · simp [same]
  placed := by
    rw [Dag.place, fits.get_block, if_pos rfl, Option.map_some, fits.leaf]
  kept := by
    intro id different
    rw [Dag.place, fits.get_block, if_neg different, Dag.place, Option.map_map, Option.map_map]
    congr 1
    funext stored
    by_cases parent : id ∈ block.header.parents <;> simp [parent]

theorem Grown.of_same_shape (grown : dag.Grown block after) (same : after.SameShape later) :
    dag.Grown block later where
  fits := grown.fits
  keys := same.keys.trans grown.keys
  placed := (same _).trans grown.placed
  kept id different := (same id).trans (grown.kept id different)

theorem place_eq_some_iff {header : BlockHeader} {children : Finset Hash} :
    dag.place id = some (header, children) ↔
      ∃ found, dag.getBlock id = some found ∧ found.header = header ∧ found.children = children := by
  simp only [place, Option.map_eq_some_iff, Prod.mk.injEq]

theorem parent_of_iff_place {parent child : Hash} :
    dag.ParentOf parent child ↔ ∃ header children, dag.place child = some (header, children) ∧
      parent ∈ header.parents := by
  simp only [place_eq_some_iff]
  constructor
  · rintro ⟨found, stored, edge⟩
    exact ⟨_, _, ⟨found, stored, rfl, rfl⟩, edge⟩
  · rintro ⟨_, _, ⟨found, stored, rfl, rfl⟩, edge⟩
    exact ⟨found, stored, edge⟩

theorem child_of_iff_place {parent child : Hash} :
    dag.ChildOf child parent ↔ ∃ header children, dag.place parent = some (header, children) ∧
      child ∈ children := by
  simp only [place_eq_some_iff]
  constructor
  · rintro ⟨found, stored, edge⟩
    exact ⟨_, _, ⟨found, stored, rfl, rfl⟩, edge⟩
  · rintro ⟨_, _, ⟨found, stored, rfl, rfl⟩, edge⟩
    exact ⟨found, stored, edge⟩

theorem Grown.parent_of (grown : dag.Grown block after) {parent child : Hash} :
    after.ParentOf parent child ↔
      dag.ParentOf parent child ∨ child = block.header.id ∧ parent ∈ block.header.parents := by
  rw [parent_of_iff_place, parent_of_iff_place]
  by_cases same : child = block.header.id
  · subst same
    have absent : dag.place block.header.id = none := by
      rw [place, get_block_none.mpr grown.fits.absent]
      rfl
    simp [grown.placed, absent]
  · rw [grown.kept child same]
    simp only [Option.map_eq_some_iff, same, false_and, or_false]
    constructor
    · rintro ⟨header, children, ⟨old, found, rewritten⟩, edge⟩
      exact ⟨old.1, old.2, found, (Prod.mk.inj rewritten).1 ▸ edge⟩
    · rintro ⟨header, children, found, edge⟩
      exact ⟨header, _, ⟨(header, children), found, rfl⟩, edge⟩

theorem Grown.child_of (grown : dag.Grown block after) {parent child : Hash} :
    after.ChildOf child parent ↔
      dag.ChildOf child parent ∨ child = block.header.id ∧ parent ∈ block.header.parents := by
  rw [child_of_iff_place, child_of_iff_place]
  have absent : dag.place block.header.id = none := by
    rw [place, get_block_none.mpr grown.fits.absent]
    rfl
  by_cases same : parent = block.header.id
  · subst same
    simp [grown.placed, absent, grown.fits.not_own_parent]
  · rw [grown.kept parent same]
    cases found : dag.place parent with
    | none =>
      have unknown : parent ∉ block.header.parents := by
        intro named
        obtain ⟨stored, there⟩ := get_block_isSome.mpr (grown.fits.known named)
        rw [place, there] at found
        cases found
      simp [unknown]
    | some old =>
      obtain ⟨header, children⟩ := old
      by_cases named : parent ∈ block.header.parents
      · simp [named, or_comm]
      · simp [named]

/-- Extending a linked graph by a leaf keeps it linked. -/
theorem Linked.grow (linked : dag.Linked) (grown : dag.Grown block after) : after.Linked where
  stored := by
    intro parent child edge
    rw [grown.keys, Finset.mem_insert]
    rcases grown.parent_of.mp edge with old | ⟨_, named⟩
    · exact .inr (linked.stored parent child old)
    · exact .inr (grown.fits.known named)
  children := by
    intro parent child
    rw [grown.parent_of, grown.child_of, linked.children]
  ranked := by
    obtain ⟨rank, ranked⟩ := linked.ranked
    refine ⟨fun id => if id = block.header.id then dag.blocks.keys.sup rank + 1 else rank id, ?_⟩
    intro parent child edge
    rcases grown.parent_of.mp edge with old | ⟨rfl, named⟩
    · have parentOld : parent ≠ block.header.id := by
        rintro rfl
        exact grown.fits.absent (linked.stored _ _ old)
      have childOld : child ≠ block.header.id := by
        rintro rfl
        exact grown.fits.absent (parent_of_stored old)
      simp only [parentOld, childOld, ↓reduceIte]
      exact ranked parent child old
    · have parentOld : parent ≠ block.header.id := by
        rintro rfl
        exact grown.fits.not_own_parent named
      simp only [parentOld, ↓reduceIte]
      exact Nat.lt_succ_of_le (Finset.le_sup (f := rank) (grown.fits.known named))

/-- The new block stands under its id with its own header. -/
theorem Grown.new_header (grown : dag.Grown block after) {found : BlockNode}
    (stored : after.getBlock block.header.id = some found) : block.header = found.header := by
  obtain ⟨newest, there, same, _⟩ := place_eq_some_iff.mp grown.placed
  rw [← same, Option.some.inj (stored.symm.trans there)]

/-- Any other block was there before with the same header. -/
theorem Grown.old_header (grown : dag.Grown block after) (different : id ≠ block.header.id) {found : BlockNode}
    (stored : after.getBlock id = some found) :
    ∃ before, dag.getBlock id = some before ∧ before.header = found.header := by
  have here : after.place id = some (found.header, found.children) := place_eq_some_iff.mpr ⟨found, stored, rfl, rfl⟩
  rw [grown.kept id different] at here
  obtain ⟨⟨header, children⟩, placed, rewritten⟩ := Option.map_eq_some_iff.mp here
  obtain ⟨before, there, same, _⟩ := place_eq_some_iff.mp placed
  exact ⟨before, there, same.trans (Prod.mk.inj rewritten).1⟩

/-- Extending a well-formed graph by a leaf keeps it well formed. -/
theorem WellFormed.grow (formed : dag.WellFormed) (grown : dag.Grown block after) : after.WellFormed where
  ids := by
    intro id found stored
    by_cases same : id = block.header.id
    · rw [← grown.new_header (same ▸ stored), same]
    · obtain ⟨before, there, header⟩ := grown.old_header same stored
      rw [← header]
      exact formed.ids id before there
  stored := (formed.linked.grow grown).stored
  children := (formed.linked.grow grown).children
  ranked := (formed.linked.grow grown).ranked
  rooted := by
    intro id found stored root other node otherStored otherRoot
    -- a root is the new block only when nothing was stored before
    have old : ∀ id found, after.getBlock id = some found → found.header.parents = ∅ →
        id ≠ block.header.id →
        ∃ before, dag.getBlock id = some before ∧ before.header.parents = ∅ := by
      intro id found stored root different
      obtain ⟨before, there, header⟩ := grown.old_header different stored
      exact ⟨before, there, by rw [header, root]⟩
    have newest : ∀ found, after.getBlock block.header.id = some found → found.header.parents = ∅ →
        dag.blocks.keys = ∅ := by
      intro found stored root
      rw [← grown.new_header stored] at root
      exact grown.fits.root.mp root
    by_cases same : id = block.header.id <;> by_cases otherSame : other = block.header.id
    · rw [same, otherSame]
    · obtain ⟨before, there, _⟩ := old other node otherStored otherRoot otherSame
      have empty := newest found (same ▸ stored) root
      have member := get_block_isSome.mp ⟨before, there⟩
      rw [empty] at member
      exact absurd member (Finset.notMem_empty _)
    · obtain ⟨before, there, _⟩ := old id found stored root same
      have empty := newest node (otherSame ▸ otherStored) otherRoot
      have member := get_block_isSome.mp ⟨before, there⟩
      rw [empty] at member
      exact absurd member (Finset.notMem_empty _)
    · obtain ⟨first, firstFound, firstRoot⟩ := old id found stored root same
      obtain ⟨second, secondFound, secondRoot⟩ := old other node otherStored otherRoot otherSame
      exact formed.rooted id first firstFound firstRoot other second secondFound secondRoot

/-- The past of the new block: its parents and their pasts. -/
def PastOfNew (dag : Dag) (block : BlockNode) (node : Hash) : Prop :=
  ∃ parent ∈ block.header.parents, node = parent ∨ dag.Past node parent

/-- Old pasts are unchanged, and the new block's past is that of its parents. -/
theorem Grown.past (formed : dag.WellFormed) (grown : dag.Grown block after) :
    after.Past node id ↔ dag.Past node id ∨ id = block.header.id ∧ dag.PastOfNew block node := by
  have oldEdge : ∀ {parent child}, dag.ParentOf parent child → after.ParentOf parent child :=
    fun edge => grown.parent_of.mpr (.inl edge)
  constructor
  · intro path
    induction path with
    | single edge =>
      rcases grown.parent_of.mp edge with old | ⟨rfl, named⟩
      · exact .inl (.single old)
      · exact .inr ⟨rfl, _, named, .inl rfl⟩
    | tail _ edge ih =>
      rcases ih with before | ⟨rfl, _⟩
      · rcases grown.parent_of.mp edge with old | ⟨rfl, named⟩
        · exact .inl (before.tail old)
        · exact .inr ⟨rfl, _, named, .inr before⟩
      · -- the new block is nobody's parent
        rcases grown.parent_of.mp edge with old | ⟨_, named⟩
        · exact absurd (formed.stored _ _ old) grown.fits.absent
        · exact absurd named grown.fits.not_own_parent
  · rintro (path | ⟨rfl, parent, named, rfl | path⟩)
    · exact Relation.TransGen.mono (fun _ _ => oldEdge) _ _ path
    · exact .single (grown.parent_of.mpr (.inr ⟨rfl, named⟩))
    · have lifted : after.Past node parent := Relation.TransGen.mono (fun _ _ => oldEdge) _ _ path
      exact lifted.tail (grown.parent_of.mpr (.inr ⟨rfl, named⟩))

theorem Grown.past_old (formed : dag.WellFormed) (grown : dag.Grown block after)
    (different : id ≠ block.header.id) : after.Past node id ↔ dag.Past node id := by
  rw [grown.past formed]
  simp [different]

theorem Grown.past_new (formed : dag.WellFormed) (grown : dag.Grown block after) :
    after.Past node block.header.id ↔ dag.PastOfNew block node := by
  rw [grown.past formed]
  constructor
  · rintro (path | ⟨_, named⟩)
    · exact absurd (past_child_stored path) grown.fits.absent
    · exact named
  · exact fun named => .inr ⟨rfl, named⟩

theorem Grown.new_in_no_past (formed : dag.WellFormed) (grown : dag.Grown block after) :
    ¬ after.Past block.header.id id := by
  intro path
  rcases (grown.past formed).mp path with old | ⟨_, parent, named, same | old⟩
  · exact grown.fits.absent (formed.past_stored old)
  · exact grown.fits.absent (same ▸ grown.fits.known named)
  · exact grown.fits.absent (formed.past_stored old)

/-- A new leaf joins the anticone of exactly the old blocks outside its past. -/
theorem Grown.mem_anticone (formed : dag.WellFormed) (grown : dag.Grown block after)
    (known : id ∈ dag.blocks.keys) :
    node ∈ after.getAnticone id ↔
      node ∈ dag.getAnticone id ∨ node = block.header.id ∧ ¬ dag.PastOfNew block id := by
  have different : id ≠ block.header.id := by
    rintro rfl
    exact grown.fits.absent known
  rw [(formed.grow grown).mem_anticone, formed.mem_anticone, grown.keys, Finset.mem_insert,
    grown.past_old formed different]
  by_cases same : node = block.header.id
  · subst same
    have notPast : ¬ dag.Past block.header.id id := fun path => grown.fits.absent (formed.past_stored path)
    simp [grown.past_new formed, different.symm, notPast, grown.fits.absent]
  · rw [grown.past_old formed same]
    simp [same]

end Growth
end Dag
end Klomang
