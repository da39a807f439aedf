import Klomang.Consensus.Submission
import Klomang.Lib.Runs

/-! Arrival orders: lists of blocks in which every block comes after its parents.
The graph an order leads to has a shape that depends on the blocks alone. -/
namespace Klomang.GhostDag

open Dag (SameShape Grown PastOfNew Fits)

/-- The ids of a list of blocks. -/
def ids (blocks : List BlockNode) : Finset Hash := (blocks.map (·.header.id)).toFinset

/-- A block that may arrive after the earlier ones: a new id, no children yet, known parents,
and no parents exactly when it is the first. -/
structure Joins (earlier : List BlockNode) (block : BlockNode) : Prop where
  leaf : block.children = ∅
  absent : block.header.id ∉ ids earlier
  known : block.header.parents ⊆ ids earlier
  root : block.header.parents = ∅ ↔ earlier = []

/-- An order that puts parents before children and starts with the one genesis block. -/
def Arrival (blocks : List BlockNode) : Prop :=
  ∀ before block, before ++ [block] <+: blocks → Joins before block

/-- The graph after submitting the blocks in order. -/
def graphOf (ghostDag : GhostDag) (blocks : List BlockNode) : Dag :=
  Runs.run (submit ghostDag) Dag.new blocks

variable {ghostDag : GhostDag} {blocks first second before : List BlockNode} {block : BlockNode} {id : Hash}

section Orders

theorem mem_ids : id ∈ ids blocks ↔ ∃ block ∈ blocks, block.header.id = id := by
  simp [ids]

theorem ids_append (first second : List BlockNode) : ids (first ++ second) = ids first ∪ ids second := by
  simp [ids]

theorem ids_snoc (blocks : List BlockNode) (block : BlockNode) :
    ids (blocks ++ [block]) = insert block.header.id (ids blocks) := by
  ext id
  simp [ids]

theorem arrival_nil : Arrival [] := by
  intro before block partly
  simp at partly

theorem arrival_snoc : Arrival (blocks ++ [block]) ↔ Arrival blocks ∧ Joins blocks block := by
  constructor
  · intro arrival
    refine ⟨fun before other partly => arrival before other (partly.trans (List.prefix_append _ _)), ?_⟩
    exact arrival blocks block (List.prefix_refl _)
  · rintro ⟨arrival, joins⟩ before other partly
    rcases List.prefix_concat_iff.mp partly with whole | shorter
    · obtain ⟨rfl, last⟩ := List.append_inj' whole rfl
      obtain rfl := List.singleton_inj.mp last
      exact joins
    · exact arrival before other shorter

theorem Arrival.prefix (arrival : Arrival blocks) (partly : before <+: blocks) : Arrival before :=
  fun earlier other shorter => arrival earlier other (shorter.trans partly)

theorem Arrival.joins_of_mem (arrival : Arrival blocks) (member : block ∈ blocks) :
    ∃ before, before ++ [block] <+: blocks ∧ Joins before block := by
  obtain ⟨before, later, rfl⟩ := List.append_of_mem member
  have partly : before ++ [block] <+: before ++ block :: later := ⟨later, by simp⟩
  exact ⟨before, partly, arrival before block partly⟩

instance (earlier : List BlockNode) (block : BlockNode) : Decidable (Joins earlier block) :=
  decidable_of_iff (block.children = ∅ ∧ block.header.id ∉ ids earlier ∧
      block.header.parents ⊆ ids earlier ∧ (block.header.parents = ∅ ↔ earlier = []))
    ⟨fun ⟨leaf, absent, known, root⟩ => ⟨leaf, absent, known, root⟩,
      fun ⟨leaf, absent, known, root⟩ => ⟨leaf, absent, known, root⟩⟩

instance (blocks : List BlockNode) : Decidable (Arrival blocks) :=
  decidable_of_iff (∀ index : Fin blocks.length, Joins (blocks.take index) blocks[index]) <| by
    constructor
    · intro joins before block partly
      obtain ⟨later, rfl⟩ := partly
      have here := joins ⟨before.length, by simp⟩
      simpa using here
    · intro arrival index
      refine arrival _ _ ⟨blocks.drop (index + 1), ?_⟩
      rw [List.append_assoc, List.singleton_append]
      exact (congrArg _ (List.drop_eq_getElem_cons index.2).symm).trans (List.take_append_drop index blocks)

/-- Ids are not repeated. -/
theorem Arrival.id_injective (arrival : Arrival blocks) {left right : BlockNode} (leftMem : left ∈ blocks)
    (rightMem : right ∈ blocks) (same : left.header.id = right.header.id) : left = right := by
  induction blocks using List.reverseRecOn with
  | nil => exact absurd leftMem List.not_mem_nil
  | append_singleton earlier last ih =>
    obtain ⟨before, joins⟩ := arrival_snoc.mp arrival
    rw [List.mem_append, List.mem_singleton] at leftMem rightMem
    rcases leftMem with leftOld | rfl <;> rcases rightMem with rightOld | rfl
    · exact ih before leftOld rightOld
    · exact absurd (mem_ids.mpr ⟨left, leftOld, same⟩) joins.absent
    · exact absurd (mem_ids.mpr ⟨right, rightOld, same.symm⟩) joins.absent
    · rfl

/-- There is one genesis block: it is where the order starts. -/
theorem Arrival.root_unique (arrival : Arrival blocks) {left right : BlockNode} (leftMem : left ∈ blocks)
    (rightMem : right ∈ blocks) (leftRoot : left.header.parents = ∅) (rightRoot : right.header.parents = ∅) :
    left = right := by
  obtain ⟨_, leftPart, leftJoins⟩ := arrival.joins_of_mem leftMem
  obtain ⟨_, rightPart, rightJoins⟩ := arrival.joins_of_mem rightMem
  rw [leftJoins.root.mp leftRoot] at leftPart
  rw [rightJoins.root.mp rightRoot] at rightPart
  have same := List.prefix_of_prefix_length_le leftPart rightPart le_rfl
  exact List.singleton_inj.mp (same.eq_of_length rfl)

/-- A block may arrive after a part of the earlier ones that keeps its parents. -/
theorem Joins.filter (joins : Joins before block) {keep : BlockNode → Bool}
    (parents : ∀ parent ∈ before, parent.header.id ∈ block.header.parents → keep parent = true) :
    Joins (before.filter keep) block := by
  have known : block.header.parents ⊆ ids (before.filter keep) := by
    intro parent named
    obtain ⟨stored, member, same⟩ := mem_ids.mp (joins.known named)
    exact mem_ids.mpr
      ⟨stored, List.mem_filter.mpr ⟨member, parents stored member (same ▸ named)⟩, same⟩
  refine ⟨joins.leaf, ?_, known, ?_⟩
  · intro there
    obtain ⟨stored, member, same⟩ := mem_ids.mp there
    exact joins.absent (mem_ids.mpr ⟨stored, (List.mem_filter.mp member).1, same⟩)
  · constructor
    · intro root
      rw [joins.root.mp root, List.filter_nil]
    · intro empty
      rw [empty] at known
      exact Finset.subset_empty.mp known

/-- A kept part that is closed under parents arrives in the same order. -/
theorem Arrival.filter (arrival : Arrival blocks) {keep : BlockNode → Bool}
    (closed : ∀ child ∈ blocks, keep child = true → ∀ parent ∈ blocks,
      parent.header.id ∈ child.header.parents → keep parent = true) : Arrival (blocks.filter keep) := by
  induction blocks using List.reverseRecOn with
  | nil => exact arrival_nil
  | append_singleton earlier last ih =>
    obtain ⟨before, joins⟩ := arrival_snoc.mp arrival
    have closedBefore : ∀ child ∈ earlier, keep child = true → ∀ parent ∈ earlier,
        parent.header.id ∈ child.header.parents → keep parent = true :=
      fun child childMem kept parent parentMem => closed child (List.mem_append_left _ childMem) kept
        parent (List.mem_append_left _ parentMem)
    have keptBefore := ih before closedBefore
    rw [List.filter_append]
    cases kept : keep last with
    | false => simpa [kept] using keptBefore
    | true =>
      have single : [last].filter keep = [last] := by simp [kept]
      rw [single]
      refine arrival_snoc.mpr ⟨keptBefore, joins.filter fun parent member named => ?_⟩
      exact closed last (by simp) kept parent (List.mem_append_left _ member) named

theorem postpone_perm (before : List BlockNode) (block : BlockNode) (keep : BlockNode → Bool) :
    (before ++ [block]).Perm (before.filter keep ++ [block] ++ before.filter fun other => !keep other) := by
  refine List.perm_append_comm.trans ?_
  refine ((List.filter_append_perm keep before).symm.cons block).trans ?_
  have regrouped : (before.filter keep ++ block :: before.filter fun other => !keep other).Perm
      (block :: (before.filter keep ++ before.filter fun other => !keep other)) := List.perm_middle
  simpa using regrouped.symm

/-- A closed part containing the parents of the next block may go before it, and the rest of
the order after it. -/
theorem Arrival.postpone (arrival : Arrival (before ++ [block])) (inner : block.header.parents ≠ ∅)
    {keep : BlockNode → Bool}
    (closed : ∀ child ∈ before, keep child = true → ∀ parent ∈ before,
      parent.header.id ∈ child.header.parents → keep parent = true)
    (parents : ∀ parent ∈ before, parent.header.id ∈ block.header.parents → keep parent = true) :
    Arrival (before.filter keep ++ [block] ++ before.filter fun other => !keep other) := by
  obtain ⟨beforeArrival, joins⟩ := arrival_snoc.mp arrival
  have keptArrival := beforeArrival.filter closed
  have joinsKept := joins.filter parents
  have start : Arrival (before.filter keep ++ [block]) := arrival_snoc.mpr ⟨keptArrival, joinsKept⟩
  -- the genesis block is kept, as the kept part is not empty
  have rootKept : ∀ other ∈ before, other.header.parents = ∅ → keep other = true := by
    intro other member root
    obtain ⟨parent, named⟩ := Finset.nonempty_iff_ne_empty.mpr inner
    obtain ⟨stored, storedMem, _⟩ := mem_ids.mp (joinsKept.known named)
    cases head : before.filter keep with
    | nil => rw [head] at storedMem; exact absurd storedMem List.not_mem_nil
    | cons genesis rest =>
      have genesisMem : genesis ∈ before.filter keep := by rw [head]; exact List.mem_cons_self
      have genesisJoins := keptArrival [] genesis (by rw [head]; exact ⟨rest, rfl⟩)
      have same := beforeArrival.root_unique member (List.mem_filter.mp genesisMem).1 root
        (genesisJoins.root.mpr rfl)
      rw [same]
      exact (List.mem_filter.mp genesisMem).2
  have late : ∀ part, part <+: before →
      Arrival (before.filter keep ++ [block] ++ part.filter fun other => !keep other) := by
    intro part partly
    induction part using List.reverseRecOn with
    | nil => simpa using start
    | append_singleton earlier last ih =>
      have sofar := ih ((List.prefix_append _ _).trans partly)
      have joinsLast := beforeArrival earlier last partly
      have lastMem : last ∈ before := partly.subset (by simp)
      rw [List.filter_append]
      cases kept : keep last with
      | true => simpa [kept] using sofar
      | false =>
        have single : [last].filter (fun other => !keep other) = [last] := by simp [kept]
        rw [single, ← List.append_assoc]
        refine arrival_snoc.mpr ⟨sofar, joinsLast.leaf, ?_, ?_, ?_⟩
        · intro there
          obtain ⟨stored, member, same⟩ := mem_ids.mp there
          rw [List.mem_append, List.mem_append, List.mem_singleton] at member
          rcases member with (old | rfl) | old
          · obtain ⟨storedMem, storedKept⟩ := List.mem_filter.mp old
            rw [beforeArrival.id_injective storedMem lastMem same, kept] at storedKept
            exact Bool.false_ne_true storedKept
          · exact joins.absent (mem_ids.mpr ⟨last, lastMem, same.symm⟩)
          · exact joinsLast.absent (mem_ids.mpr ⟨stored, (List.mem_filter.mp old).1, same⟩)
        · intro parent named
          obtain ⟨stored, member, same⟩ := mem_ids.mp (joinsLast.known named)
          have storedMem : stored ∈ before := ((List.prefix_append _ _).trans partly).subset member
          rw [ids_append, ids_append, Finset.mem_union, Finset.mem_union]
          cases storedKept : keep stored with
          | true => exact .inl (.inl (mem_ids.mpr ⟨stored, List.mem_filter.mpr ⟨storedMem, storedKept⟩, same⟩))
          | false => exact .inr (mem_ids.mpr ⟨stored, List.mem_filter.mpr ⟨member, by simp [storedKept]⟩, same⟩)
        · constructor
          · intro root
            rw [rootKept last lastMem root] at kept
            cases kept
          · intro empty
            simp at empty
  exact late before (List.prefix_refl _)

end Orders

section Graphs

/-- The blocks of a list that name an id among their parents. -/
def childrenAmong (blocks : List BlockNode) (id : Hash) : Finset Hash :=
  ids (blocks.filter fun block => id ∈ block.header.parents)

theorem graph_of_snoc (blocks : List BlockNode) (block : BlockNode) :
    graphOf ghostDag (blocks ++ [block]) = ghostDag.submit (graphOf ghostDag blocks) block :=
  Runs.run_snoc block

/-- The graph holds the blocks of the order, each in its place. -/
structure Represents (ghostDag : GhostDag) (blocks : List BlockNode) : Prop where
  consistent : Consistent (graphOf ghostDag blocks)
  keys : (graphOf ghostDag blocks).blocks.keys = ids blocks
  places : ∀ block ∈ blocks, (graphOf ghostDag blocks).place block.header.id =
    some (block.header, childrenAmong blocks block.header.id)

theorem Represents.fits (represents : Represents ghostDag blocks) (joins : Joins blocks block) :
    (graphOf ghostDag blocks).Fits block where
  leaf := joins.leaf
  absent := by rw [represents.keys]; exact joins.absent
  known := by rw [represents.keys]; exact joins.known
  root := by
    rw [represents.keys, joins.root]
    simp [ids]

theorem Arrival.represents (ghostDag : GhostDag) (arrival : Arrival blocks) : Represents ghostDag blocks := by
  induction blocks using List.reverseRecOn with
  | nil => exact ⟨consistent_new, rfl, fun _ member => absurd member List.not_mem_nil⟩
  | append_singleton earlier last ih =>
    obtain ⟨before, joins⟩ := arrival_snoc.mp arrival
    have represents := ih before
    have submitted := submit_step ghostDag represents.consistent (represents.fits joins)
    rw [← graph_of_snoc] at submitted
    refine ⟨submitted.consistent, ?_, ?_⟩
    · rw [submitted.grown.keys, represents.keys, ids_snoc]
    · intro block member
      have split : childrenAmong (earlier ++ [last]) block.header.id =
          if block.header.id ∈ last.header.parents then
            insert last.header.id (childrenAmong earlier block.header.id)
          else childrenAmong earlier block.header.id := by
        unfold childrenAmong
        rw [List.filter_append]
        by_cases named : block.header.id ∈ last.header.parents
        · simp [named, ids_snoc]
        · simp [named]
      rcases List.mem_append.mp member with old | new
      · have different : block.header.id ≠ last.header.id := fun same =>
          joins.absent (mem_ids.mpr ⟨block, old, same⟩)
        rw [submitted.grown.kept _ different, represents.places block old, split]
        rfl
      · rw [List.mem_singleton.mp new] at split ⊢
        have childless : childrenAmong earlier last.header.id = ∅ := by
          refine Finset.eq_empty_of_forall_notMem fun child listed => ?_
          obtain ⟨stored, storedMem, _⟩ := mem_ids.mp listed
          obtain ⟨storedOld, named⟩ := List.mem_filter.mp storedMem
          obtain ⟨_, partly, storedJoins⟩ := before.joins_of_mem storedOld
          obtain ⟨parent, parentMem, same⟩ := mem_ids.mp (storedJoins.known (of_decide_eq_true named))
          have parentOld := partly.subset (List.mem_append_left _ parentMem)
          exact joins.absent (mem_ids.mpr ⟨parent, parentOld, same⟩)
        rw [submitted.grown.placed, split, if_neg fun own => joins.absent (joins.known own), childless]

/-- Two orders of the same blocks lead to graphs of the same shape. -/
theorem same_shape_of_perm (ghostDag : GhostDag) (firstArrival : Arrival first) (secondArrival : Arrival second)
    (same : first.Perm second) : (graphOf ghostDag first).SameShape (graphOf ghostDag second) := by
  have left := firstArrival.represents ghostDag
  have right := secondArrival.represents ghostDag
  have idsSame : ids second = ids first := by
    ext id
    simp only [mem_ids, same.mem_iff]
  intro id
  by_cases known : id ∈ ids first
  · obtain ⟨block, member, rfl⟩ := mem_ids.mp known
    have children : childrenAmong second block.header.id = childrenAmong first block.header.id := by
      ext child
      simp only [childrenAmong, mem_ids, List.mem_filter, same.mem_iff]
    rw [left.places block member, right.places block (same.mem_iff.mp member), children]
  · have absent : (graphOf ghostDag first).getBlock id = none :=
      Dag.get_block_none.mpr (by rw [left.keys]; exact known)
    have otherAbsent : (graphOf ghostDag second).getBlock id = none :=
      Dag.get_block_none.mpr (by rw [right.keys, idsSame]; exact known)
    rw [Dag.place, Dag.place, absent, otherAbsent]

end Graphs
end Klomang.GhostDag
