import Klomang.Dag.Basic
import Klomang.Lib.Pointers
import Klomang.Lib.TopologicalOrder

/-! `core/consensus/ghostdag.rs` and `ordering.rs`: the GHOSTDAG colouring of the
block graph, the virtual block and the orderings read off the scores. -/
namespace Klomang

/-- `FINALITY_DEPTH`. -/
def finalityDepth : Nat := 100

structure VirtualBlock where
  parents : Finset Hash
  selectedParent : Option Hash
  blueSet : Finset Hash
  redSet : Finset Hash
  blueScore : UInt64

structure GhostDag where
  k : Nat

namespace GhostDag

/-- `GhostDag::new`: the parameter is clamped to 1..64. -/
def new (k : Nat) : GhostDag := ⟨max 1 (min k 64)⟩

/-- The score of a stored block, zero for an unknown hash. -/
def storedScore (dag : Dag) (hash : Hash) : UInt64 := ((dag.getBlock hash).map (·.blueScore)).getD 0

section Colouring

/-- Higher score first, then lower hash. -/
def Preferred (left right : Hash × UInt64) : Prop :=
  right.2.toNat < left.2.toNat ∨ right.2 = left.2 ∧ left.1 ≤ right.1

instance (left right : Hash × UInt64) : Decidable (Preferred left right) := by
  unfold Preferred
  infer_instance

/-- `select_parent`. -/
def selectParent (_ : GhostDag) (dag : Dag) (parents : List Hash) : Option Hash :=
  let parentScores := parents.filterMap fun hash => (dag.getBlock hash).map fun block => (hash, block.blueScore)
  (parentScores.insertionSort Preferred).head?.map Prod.fst

/-- `anticone`. -/
def anticone (_ : GhostDag) (dag : Dag) (block : Hash) : List Hash := dag.getAnticone block

/-- Colour one candidate against the blue set so far. -/
def colour (ghostDag : GhostDag) (dag : Dag) (sets : Finset Hash × Finset Hash) (candidate : Hash) :
    Finset Hash × Finset Hash :=
  let candidateAnticone := (ghostDag.anticone dag candidate).toFinset
  let conflicts := (candidateAnticone ∩ sets.1).card
  if conflicts ≤ ghostDag.k then (insert candidate sets.1, sets.2) else (sets.1, insert candidate sets.2)

/-- `build_blue_set`. -/
def buildBlueSet (ghostDag : GhostDag) (dag : Dag) (selectedParent : Hash) (_parents : List Hash) :
    Finset Hash × Finset Hash :=
  let blueSet := match dag.getBlock selectedParent with
    | some parentBlock => insert selectedParent parentBlock.blueSet
    | none => ∅
  (ghostDag.anticone dag selectedParent).foldl (ghostDag.colour dag) (blueSet, ∅)

/-- `recompute_block`: whether the stored colouring changed, and the graph afterwards. -/
def recomputeBlock (ghostDag : GhostDag) (dag : Dag) (hash : Hash) : Bool × Dag :=
  match dag.getBlock hash with
  | none => (false, dag)
  | some block =>
    if block.header.parents = ∅ then (false, dag)
    else if ¬ ∀ parent ∈ block.header.parents, dag.blockExists parent then (false, dag)
    else
      let parentsVec := ascending block.header.parents
      match ghostDag.selectParent dag parentsVec with
      | none => (false, dag)
      | some selectedParent =>
        let (blueSet, redSet) := ghostDag.buildBlueSet dag selectedParent parentsVec
        let blueScore := storedScore dag selectedParent + UInt64.ofNat blueSet.card
        if block.selectedParent = some selectedParent ∧ block.blueSet = blueSet ∧
            block.redSet = redSet ∧ block.blueScore = blueScore then (false, dag)
        else (true, dag.setBlock hash
          { block with selectedParent := some selectedParent, blueSet, redSet, blueScore })

/-- `topological_sort`. The queue is a stack whose top is the head of the list. -/
def topologicalSort (_ : GhostDag) (dag : Dag) (nodes : List Hash) : List Hash :=
  let nodeSet := nodes.toFinset
  let indegree : Hash → Nat := fun hash => match dag.getBlock hash with
    | some block => (block.header.parents ∩ nodeSet).card
    | none => 0
  let queue := (ascending (nodeSet.filter fun hash => indegree hash = 0)).reverse
  let children : Hash → List Hash := fun current => match dag.getBlock current with
    | some block => ascending (block.children ∩ nodeSet)
    | none => []
  TopologicalOrder.loop children nodeSet.card indegree queue []

/-- The blocks that `process_block` recomputes: the parents and all their descendants. -/
def affectedSet (dag : Dag) (parents : Finset Hash) : Finset Hash :=
  parents ∪ parents.biUnion fun parent => (dag.getDescendants parent).toFinset

/-- `process_block`. -/
def processBlock (ghostDag : GhostDag) (dag : Dag) (blockHash : Hash) : Dag :=
  match dag.getBlock blockHash with
  | none => dag
  | some block =>
    let dag :=
      if block.header.parents = ∅ then
        dag.setBlock blockHash
          { block with selectedParent := none, blueSet := ∅, redSet := ∅, blueScore := 1 }
      else (ghostDag.recomputeBlock dag blockHash).2
    let affected := ascending (affectedSet dag block.header.parents)
    (ghostDag.topologicalSort dag affected).foldl
      (fun dag descendant => (ghostDag.recomputeBlock dag descendant).2) dag

end Colouring

section Reading

/-- Lower score first, then lower hash. -/
def ScoreOrder (dag : Dag) (left right : Hash) : Prop :=
  (storedScore dag left).toNat < (storedScore dag right).toNat ∨
    storedScore dag left = storedScore dag right ∧ left ≤ right

instance (dag : Dag) (left right : Hash) : Decidable (ScoreOrder dag left right) := by
  unfold ScoreOrder
  infer_instance

/-- `get_ordering`. -/
def getOrdering (_ : GhostDag) (dag : Dag) : List Hash := dag.getAllHashes.insertionSort (ScoreOrder dag)

/-- `get_virtual_ordering`. -/
def getVirtualOrdering (_ : GhostDag) (dag : Dag) : List Hash := dag.getAllHashes.insertionSort (ScoreOrder dag)

/-- `get_blue_set`. -/
def getBlueSet (_ : GhostDag) (dag : Dag) (hash : Hash) : Finset Hash := ((dag.getBlock hash).map (·.blueSet)).getD ∅

/-- `build_virtual_block`. -/
def buildVirtualBlock (ghostDag : GhostDag) (dag : Dag) : VirtualBlock :=
  let tips := dag.getTips
  match dag.getAllHashes with
  | [] => ⟨∅, none, ∅, ∅, 0⟩
  | hash :: rest =>
    match rest, dag.getBlock hash with
    | [], some only => ⟨tips.toFinset, only.selectedParent, only.blueSet, only.redSet, only.blueScore⟩
    | _, _ =>
      match ghostDag.selectParent dag tips with
      | some selectedParent =>
        let (blueSet, redSet) := ghostDag.buildBlueSet dag selectedParent tips
        ⟨tips.toFinset, some selectedParent, blueSet, redSet,
          storedScore dag selectedParent + UInt64.ofNat blueSet.card⟩
      | none => ⟨tips.toFinset, none, ∅, ∅, 0⟩

/-- `get_virtual_selected_chain`. The fuel is one more than there are blocks. -/
def getVirtualSelectedChain (ghostDag : GhostDag) (dag : Dag) : List Hash :=
  let selectedParent : Hash → Option Hash := fun parentHash => (dag.getBlock parentHash).bind (·.selectedParent)
  (Pointers.follow selectedParent (dag.blocks.keys.card + 1) (ghostDag.buildVirtualBlock dag).selectedParent).reverse

/-- Greater in the comparison of `get_virtual_block`: higher score, then lower hash. -/
def Exceeds (left right : Hash × UInt64) : Prop :=
  right.2.toNat < left.2.toNat ∨ left.2 = right.2 ∧ left.1 < right.1

instance : DecidableRel Exceeds := fun left right => by
  unfold Exceeds
  infer_instance

/-- `get_virtual_block`. -/
def getVirtualBlock [Blake3] (_ : GhostDag) (dag : Dag) : Option Hash :=
  match dag.getAllHashes with
  | [] => some (Hash.new "genesis".toUTF8.toList)
  | hash :: rest =>
    let scored := (hash :: rest).filterMap fun hash => (dag.getBlock hash).map fun block => (hash, block.blueScore)
    (maxBy Exceeds scored).map Prod.fst

/-- `check_finality`. The subtraction saturates. -/
def checkFinality (ghostDag : GhostDag) (dag : Dag) (blockHash : Hash) (finalityThreshold : UInt64) : Bool :=
  let virtualBlock := ghostDag.buildVirtualBlock dag
  let blockBlueScore := storedScore dag blockHash
  decide (max finalityThreshold.toNat finalityDepth ≤ virtualBlock.blueScore.toNat - blockBlueScore.toNat)

/-- The walk of `can_reorganize` along selected parents; the fuel is one more than the
deepest chain it accepts. -/
def commonAncestorDepth (dag : Dag) (virtualParents : Finset Hash) :
    Nat → Option Hash → Nat → Except CoreError Nat
  | _, none, depth => .ok depth
  | 0, some _, _ => .error (.consensusError "Chain too deep while finding common ancestor")
  | fuel + 1, some hash, depth =>
    if hash ∈ virtualParents then .ok depth
    else if depth + 1 > 10000 then
      .error (.consensusError "Chain too deep while finding common ancestor")
    else commonAncestorDepth dag virtualParents fuel
      ((dag.getBlock hash).bind (·.selectedParent)) (depth + 1)

/-- `can_reorganize`. -/
def canReorganize (ghostDag : GhostDag) (dag : Dag) (targetBlock : Hash) : Except CoreError Bool :=
  let virtualBlock := ghostDag.buildVirtualBlock dag
  match dag.getBlock targetBlock with
  | none => .error (.consensusError ("Block " ++ toString targetBlock ++ " not found"))
  | some _ => do
    let depth ← commonAncestorDepth dag virtualBlock.parents 10001 (some targetBlock) 0
    return decide (depth ≤ finalityDepth)

end Reading
end GhostDag
end Klomang
