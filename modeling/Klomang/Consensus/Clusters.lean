import Klomang.Consensus.Tracking
import Klomang.Consensus.Agreement

/-! What the greedy colouring keeps. `build_blue_set` looks at the candidate alone: it does not
look at the blue blocks the candidate crowds, at whether the candidate is blue already, or at
whether the block being coloured references it. -/
namespace Klomang.GhostDag

open Dag (WellFormed SameShape Grown)

variable {ghostDag : GhostDag} {dag after other : Dag} {block : BlockNode} {id node : Hash}
  {blocks : List BlockNode}

section Samples

/-- Two siblings and a block that merges them. -/
def diamond : List BlockNode :=
  [emptyBlock 1 ∅, emptyBlock 2 {.replicate 1}, emptyBlock 3 {.replicate 1},
    emptyBlock 4 {.replicate 2, .replicate 3}]

/-- Two branches of two blocks each and a block that merges them. -/
def branches : List BlockNode :=
  [emptyBlock 1 ∅, emptyBlock 2 {.replicate 1}, emptyBlock 3 {.replicate 2}, emptyBlock 4 {.replicate 1},
    emptyBlock 5 {.replicate 4}, emptyBlock 6 {.replicate 3, .replicate 5}]

/-- Two siblings, and a block on one of them. -/
def fork : List BlockNode :=
  [emptyBlock 1 ∅, emptyBlock 2 {.replicate 1}, emptyBlock 3 {.replicate 1}, emptyBlock 4 {.replicate 2}]

/-- Two siblings, and a branch of two blocks on one of them. -/
def longFork : List BlockNode := fork ++ [emptyBlock 5 {.replicate 4}]

end Samples

section Clusters

/-- No blue block has more than `k` blue blocks in its anticone. -/
def BlueCluster (ghostDag : GhostDag) : ColouringProperty := fun dag _ colouring =>
  Cluster.IsCluster (rivals dag) ghostDag.k colouring.blueSet

/-- There is room for the selected parent in its own blue set, and `build_blue_set` takes no
candidate that crowds a blue block. -/
def LeavesRoom (ghostDag : GhostDag) (dag : Dag) (_id selectedParent : Hash) : Prop :=
  Cluster.Room (rivals dag) ghostDag.k (ghostDag.getBlueSet dag selectedParent) selectedParent ∧
    Runs.Meets (ghostDag.colour dag) (inherited dag selectedParent, ∅) (Cluster.Spares (rivals dag) ghostDag.k)
      (dag.getAnticone selectedParent)

instance (dag : Dag) (id selectedParent : Hash) : Decidable (LeavesRoom ghostDag dag id selectedParent) := by
  unfold LeavesRoom
  infer_instance

instance (dag : Dag) (id : Hash) (colouring : Colouring) : Decidable (BlueCluster ghostDag dag id colouring) := by
  unfold BlueCluster
  infer_instance

theorem tracks_clusters (ghostDag : GhostDag) : Tracks ghostDag (BlueCluster ghostDag) (LeavesRoom ghostDag) where
  shape same cluster := by
    rw [BlueCluster, rivals_same_shape same]
    exact cluster
  grown formed grown _ old cluster := by
    intro member listed
    rw [rivals_grown formed grown (old listed) old]
    exact cluster member listed
  root := Cluster.is_cluster_empty
  passes := by
    intro dag id parent stored parents formed found edge cluster
    have blue : ghostDag.getBlueSet dag parent = stored.blueSet := by
      rw [getBlueSet, found]
      rfl
    have foreign := not_own_rival dag
    have room := cluster.insert_iff (foreign parent)
    rw [LeavesRoom, blue, inherited_of_found found]
    constructor
    · intro final
      have start : Cluster.IsCluster (rivals dag) ghostDag.k (insert parent stored.blueSet) := by
        apply final.subset
        rw [← inherited_of_found found]
        exact (Cluster.run_grows (rivals dag) ghostDag.k (inherited dag parent, ∅) (dag.getAnticone parent)).1
      refine ⟨room.mp start, (Cluster.run_cluster_iff foreign start _).mp ?_⟩
      rw [← inherited_of_found found]
      exact final
    · rintro ⟨free, spares⟩
      have final := (Cluster.run_cluster_iff foreign (room.mpr free) _).mpr spares
      rw [← inherited_of_found found] at final
      exact final

/-- Blue sets over a run. All of them are clusters in every graph reached exactly when every
call of `recompute_block` in the loops leaves room. -/
theorem blue_sets_cluster_iff (ghostDag : GhostDag) (leaves : ∀ block ∈ blocks, Leaf block) :
    Runs.Always ghostDag.receive Dag.new (HoldsThroughout (BlueCluster ghostDag)) blocks ↔
      RunMeets ghostDag (LeavesRoom ghostDag) blocks :=
  (tracks_clusters ghostDag).always_iff leaves

/-- A block that merges two siblings keeps clusters. -/
theorem diamond_clusters : Runs.Always (GhostDag.new 1).receive Dag.new
    (HoldsThroughout (BlueCluster (GhostDag.new 1))) diamond :=
  (blue_sets_cluster_iff (GhostDag.new 1) (by decide +kernel)).mpr (by decide +kernel)

/-- A block that merges a branch of two blocks into another one takes both, and the first block
of each branch then has two blue blocks in its anticone. -/
theorem branches_crowded : (∀ block ∈ branches, Leaf block) ∧
    ¬ HoldsThroughout (BlueCluster (GhostDag.new 1)) ((GhostDag.new 1).dagOf branches) := by
  refine ⟨by decide +kernel, fun throughout => ?_⟩
  have merged := throughout (.replicate 6)
  revert merged
  decide +kernel

end Clusters

section Pasts

/-- Every coloured block is an ancestor. -/
def ColoursPast : ColouringProperty := fun dag id colouring =>
  ∀ node ∈ colouring.blueSet ∪ colouring.redSet, node ∈ dag.getAncestors id

/-- The anticone of the selected parent lies in the past of the block. -/
def MergesAnticone (dag : Dag) (id selectedParent : Hash) : Prop :=
  ∀ node ∈ dag.getAnticone selectedParent, node ∈ dag.getAncestors id

instance (dag : Dag) (id selectedParent : Hash) : Decidable (MergesAnticone dag id selectedParent) := by
  unfold MergesAnticone
  infer_instance

instance (dag : Dag) (id : Hash) (colouring : Colouring) : Decidable (ColoursPast dag id colouring) := by
  unfold ColoursPast
  infer_instance

theorem tracks_pasts (ghostDag : GhostDag) : Tracks ghostDag ColoursPast MergesAnticone where
  shape same coloured := by
    intro node member
    rw [Dag.mem_get_ancestors_iff_past, same.past, ← Dag.mem_get_ancestors_iff_past]
    exact coloured node member
  grown := by
    intro dag block after id colouring formed grown known _ coloured node member
    have different : id ≠ block.header.id := fun same => grown.fits.absent (same ▸ known)
    rw [Dag.mem_get_ancestors_iff_past, grown.past_old formed different, ← Dag.mem_get_ancestors_iff_past]
    exact coloured node member
  root := by
    intro dag id node member
    exact absurd member (by simp [rootColouring])
  passes := by
    intro dag id parent stored parents formed found edge coloured
    rw [ColoursPast, colouringFrom]
    dsimp only
    rw [build_blue_set_union, inherited_of_found found]
    constructor
    · intro all node member
      exact all node (Finset.mem_union_right _ (List.mem_toFinset.mpr member))
    · intro merges node member
      rcases Finset.mem_union.mp member with inherits | rival
      · rw [Dag.mem_get_ancestors_iff_past]
        rcases Finset.mem_insert.mp inherits with rfl | blue
        · exact .single edge
        · have older := coloured node (Finset.mem_union_left _ blue)
          exact (Dag.mem_get_ancestors_iff_past.mp older).tail edge
      · exact merges node (List.mem_toFinset.mp rival)

/-- Colourings over a run. All of them stay in the past of their block in every graph reached
exactly when, at every call of `recompute_block` in the loops, the anticone of the selected
parent lies in the past of the block. -/
theorem colourings_in_past_iff (ghostDag : GhostDag) (leaves : ∀ block ∈ blocks, Leaf block) :
    Runs.Always ghostDag.receive Dag.new (HoldsThroughout ColoursPast) blocks ↔
      RunMeets ghostDag MergesAnticone blocks :=
  (tracks_pasts ghostDag).always_iff leaves

theorem diamond_in_past : Runs.Always (GhostDag.new 1).receive Dag.new (HoldsThroughout ColoursPast) diamond :=
  (colourings_in_past_iff (GhostDag.new 1) (by decide +kernel)).mpr (by decide +kernel)

/-- The block on one of two siblings counts the other one as blue without referencing it. -/
theorem fork_outside_past : (∀ block ∈ fork, Leaf block) ∧
    ¬ HoldsThroughout ColoursPast ((GhostDag.new 1).dagOf fork) := by
  refine ⟨by decide +kernel, fun throughout => ?_⟩
  have last := throughout (.replicate 4)
  revert last
  decide +kernel

end Pasts

section Colours

/-- No block is both blue and red. -/
def BlueRedApart : ColouringProperty := fun _ _ colouring => Disjoint colouring.blueSet colouring.redSet

/-- `build_blue_set` refuses no candidate that is blue already. -/
def AcceptsBlue (ghostDag : GhostDag) (dag : Dag) (selectedParent : Hash) : Prop :=
  Runs.Meets (ghostDag.colour dag) (inherited dag selectedParent, ∅) (Cluster.Accepts (rivals dag) ghostDag.k)
    (dag.getAnticone selectedParent)

instance (dag : Dag) (selectedParent : Hash) : Decidable (AcceptsBlue ghostDag dag selectedParent) := by
  unfold AcceptsBlue
  infer_instance

instance (dag : Dag) (id : Hash) (colouring : Colouring) : Decidable (BlueRedApart dag id colouring) := by
  unfold BlueRedApart
  infer_instance

theorem build_blue_set_apart_iff (ghostDag : GhostDag) (dag : Dag) (selectedParent : Hash) (parents : List Hash) :
    Disjoint (ghostDag.buildBlueSet dag selectedParent parents).1 (ghostDag.buildBlueSet dag selectedParent parents).2 ↔
      AcceptsBlue ghostDag dag selectedParent :=
  Cluster.run_disjoint_iff (Finset.disjoint_empty_right _) (anticone_nodup dag selectedParent)
    fun candidate _ => Finset.notMem_empty candidate

theorem tracks_colours (ghostDag : GhostDag) :
    Tracks ghostDag BlueRedApart fun dag _ selectedParent => AcceptsBlue ghostDag dag selectedParent where
  shape _ apart := apart
  grown _ _ _ _ apart := apart
  root := by
    intro dag id
    exact Finset.disjoint_empty_right (rootColouring.blueSet)
  passes parents _ _ _ _ := build_blue_set_apart_iff ghostDag _ _ parents

/-- The parent that `select_parent` picks among the tips is coloured without refusing blue
candidates. -/
def TipsAcceptBlue (ghostDag : GhostDag) (dag : Dag) : Prop :=
  ∀ selectedParent, ghostDag.selectParent dag dag.getTips = some selectedParent →
    AcceptsBlue ghostDag dag selectedParent

instance (dag : Dag) : Decidable (TipsAcceptBlue ghostDag dag) :=
  decidable_of_iff (∀ selectedParent ∈ ghostDag.selectParent dag dag.getTips, AcceptsBlue ghostDag dag selectedParent)
    Iff.rfl

/-- With two blocks or more, the virtual block is coloured like a block on the tips. -/
theorem virtual_sets (ghostDag : GhostDag) {first second : Hash} {others : List Hash}
    (listed : dag.getAllHashes = first :: second :: others)
    (sets : Finset Hash × Finset Hash)
    (coloured : sets = (ghostDag.selectParent dag dag.getTips).elim (∅, ∅) fun selectedParent =>
      ghostDag.buildBlueSet dag selectedParent dag.getTips) :
    (ghostDag.buildVirtualBlock dag).blueSet = sets.1 ∧ (ghostDag.buildVirtualBlock dag).redSet = sets.2 := by
  rw [coloured, buildVirtualBlock, listed]
  dsimp only
  cases ghostDag.selectParent dag dag.getTips with
  | none => exact ⟨rfl, rfl⟩
  | some selectedParent => exact ⟨rfl, rfl⟩

/-- The virtual block has a block that is both blue and red exactly when its selected parent is
coloured so that a blue candidate is refused. -/
theorem virtual_apart_iff (apart : HoldsThroughout BlueRedApart dag) :
    Disjoint (ghostDag.buildVirtualBlock dag).blueSet (ghostDag.buildVirtualBlock dag).redSet ↔
      TipsAcceptBlue ghostDag dag := by
  cases listed : dag.getAllHashes with
  | nil =>
    have empty : dag.blocks.keys = ∅ := by
      apply Finset.eq_empty_of_forall_notMem
      intro id known
      have member := Dag.mem_get_all_hashes.mpr known
      rw [listed] at member
      cases member
    have virtual : ghostDag.buildVirtualBlock dag = ⟨∅, none, ∅, ∅, 0⟩ := by rw [buildVirtualBlock, listed]
    rw [virtual]
    refine ⟨fun _ selectedParent selected => ?_, fun _ => Finset.disjoint_empty_right _⟩
    have known := (select_parent_found selected).2
    rw [empty] at known
    exact absurd known (Finset.notMem_empty _)
  | cons hash rest =>
    have first : hash ∈ dag.blocks.keys := Dag.mem_get_all_hashes.mp (by rw [listed]; exact List.mem_cons_self)
    obtain ⟨only, found⟩ := Dag.get_block_isSome.mpr first
    cases rest with
    | nil =>
      -- the one block is copied, and it has no rivals
      have virtual : ghostDag.buildVirtualBlock dag =
          ⟨dag.getTips.toFinset, only.selectedParent, only.blueSet, only.redSet, only.blueScore⟩ := by
        rw [buildVirtualBlock, listed]
        dsimp only
        rw [found]
      rw [virtual]
      refine ⟨fun _ selectedParent selected => ?_, fun _ => apart hash only found⟩
      have alone : dag.getAnticone selectedParent = [] := by
        apply List.eq_nil_iff_forall_not_mem.mpr
        intro node member
        obtain ⟨known, different, _⟩ := Dag.mem_get_anticone.mp member
        have same : ∀ id ∈ dag.blocks.keys, id = hash := by
          intro id there
          have member := Dag.mem_get_all_hashes.mpr there
          rw [listed] at member
          exact List.mem_singleton.mp member
        exact different ((same node known).trans (same selectedParent (select_parent_found selected).2).symm)
      rw [AcceptsBlue, alone]
      exact Runs.meets_nil
    | cons second others =>
      obtain ⟨blue, red⟩ := virtual_sets ghostDag listed _ rfl
      rw [blue, red, TipsAcceptBlue]
      cases ghostDag.selectParent dag dag.getTips with
      | none => exact ⟨fun _ _ none => (nomatch none), fun _ => Finset.disjoint_empty_right _⟩
      | some selectedParent =>
        refine (build_blue_set_apart_iff ghostDag dag selectedParent dag.getTips).trans ⟨?_, ?_⟩
        · intro accepts other same
          cases same
          exact accepts
        · exact fun all => all selectedParent rfl

/-- Blue and red over a run. No block of any graph reached, nor its virtual block, is both blue
and red exactly when no call of `build_blue_set`, in the loops or for the virtual blocks,
refuses a candidate that is blue already. -/
theorem blue_red_apart_iff (ghostDag : GhostDag) (leaves : ∀ block ∈ blocks, Leaf block) :
    Runs.Always ghostDag.receive Dag.new (fun dag => HoldsThroughout BlueRedApart dag ∧
        Disjoint (ghostDag.buildVirtualBlock dag).blueSet (ghostDag.buildVirtualBlock dag).redSet) blocks ↔
      RunMeets ghostDag (fun dag _ selectedParent => AcceptsBlue ghostDag dag selectedParent) blocks ∧
        Runs.Always ghostDag.receive Dag.new (TipsAcceptBlue ghostDag) blocks := by
  rw [← (tracks_colours ghostDag).always_iff leaves]
  constructor
  · intro always
    exact ⟨fun before partly => (always before partly).1,
      fun before partly => (virtual_apart_iff (always before partly).1).mp (always before partly).2⟩
  · rintro ⟨apart, accepts⟩ before partly
    exact ⟨apart before partly, (virtual_apart_iff (apart before partly)).mpr (accepts before partly)⟩

theorem diamond_apart : Runs.Always (GhostDag.new 1).receive Dag.new (fun dag => HoldsThroughout BlueRedApart dag ∧
    Disjoint ((GhostDag.new 1).buildVirtualBlock dag).blueSet ((GhostDag.new 1).buildVirtualBlock dag).redSet) diamond := by
  exact (blue_red_apart_iff (GhostDag.new 1) (by decide +kernel)).mpr ⟨by decide +kernel, by decide +kernel⟩

/-- A sibling that the first block of a branch took as blue is refused by the second one, which
inherits it all the same. -/
theorem fork_both_colours : (∀ block ∈ longFork, Leaf block) ∧
    ¬ HoldsThroughout BlueRedApart ((GhostDag.new 1).dagOf longFork) := by
  refine ⟨by decide +kernel, fun throughout => ?_⟩
  have last := throughout (.replicate 5)
  revert last
  decide +kernel

end Colours
end Klomang.GhostDag
