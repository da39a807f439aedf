import Klomang.Consensus.Validation
import Klomang.Sample

/-! What the transaction root of a block binds. Ids are the leaves themselves, and leaves and inner nodes are told
apart by nothing, so a list of ids has the root of every level that is made of it; it shares it with no other list. -/
namespace Klomang.GhostDag

section Levels
variable [Blake3]

/-- What is hashed on one level. -/
def pairBytes : List Hash → List (List UInt8)
  | [] => []
  | [last] => [last.bytes]
  | left :: right :: rest => (left.bytes ++ right.bytes) :: pairBytes rest

theorem hash_pairs_eq (hashes : List Hash) : hashPairs hashes = (pairBytes hashes).map Hash.new := by
  induction hashes using pairBytes.induct with
  | case1 => rfl
  | case2 => rfl
  | case3 left right rest ih => simp [hashPairs, pairBytes, ih]

theorem length_hash_pairs (hashes : List Hash) : (hashPairs hashes).length = (hashes.length + 1) / 2 := by
  induction hashes using hashPairs.induct with
  | case1 => rfl
  | case2 => simp [hashPairs]
  | case3 left right rest ih => simp only [hashPairs, List.length_cons, ih]; omega

omit [Blake3] in
/-- The lengths tell how many hashes a node stands for. -/
theorem pair_bytes_injective : Function.Injective pairBytes := by
  intro hashes
  induction hashes using pairBytes.induct with
  | case1 =>
    intro other same
    rcases other with _ | ⟨first, _ | ⟨second, tail⟩⟩
    · rfl
    · cases same
    · cases same
  | case2 last =>
    intro other same
    rcases other with _ | ⟨first, _ | ⟨second, tail⟩⟩
    · cases same
    · rw [Bytes32.ext (List.cons.inj same).1]
    · have width := congrArg List.length (List.cons.inj same).1
      simp at width
  | case3 left right rest ih =>
    intro other same
    rcases other with _ | ⟨first, _ | ⟨second, tail⟩⟩
    · cases same
    · have width := congrArg List.length (List.cons.inj same).1
      simp at width
    · obtain ⟨here, further⟩ := List.cons.inj same
      obtain ⟨one, two⟩ := List.append_inj here (by simp)
      rw [Bytes32.ext one, Bytes32.ext two, ih further]

/-- The levels that the loop makes of a list of ids. -/
inductive LevelOf (ids : List Hash) : List Hash → Prop
  | leaves : LevelOf ids ids
  | up {level : List Hash} (below : LevelOf ids level) (several : 1 < level.length) : LevelOf ids (hashPairs level)

/-- What is hashed on the way to a root; the empty text is the root of no ids. -/
def Hashed (ids : List Hash) (bytes : List UInt8) : Prop :=
  bytes = [] ∨ ∃ level, LevelOf ids level ∧ 1 < level.length ∧ bytes ∈ pairBytes level

variable {ids other level : List Hash}

theorem LevelOf.trans (below : LevelOf ids level) (above : LevelOf level other) : LevelOf ids other := by
  induction above with
  | leaves => exact below
  | up _ several ih => exact .up ih several

theorem LevelOf.length_le (made : LevelOf ids level) : level.length ≤ ids.length := by
  induction made with
  | leaves => exact le_rfl
  | up _ _ ih => rw [length_hash_pairs]; omega

/-- The first step of a way that goes up. -/
theorem LevelOf.first (made : LevelOf ids level) : level = ids ∨ 1 < ids.length ∧ LevelOf (hashPairs ids) level := by
  induction made with
  | leaves => exact .inl rfl
  | up below several ih =>
    rcases ih with rfl | ⟨many, above⟩
    · exact .inr ⟨several, .leaves⟩
    · exact .inr ⟨many, above.up several⟩

/-- There is one way up. -/
theorem LevelOf.linear (one : LevelOf ids level) (two : LevelOf ids other) : LevelOf level other ∨ LevelOf other level := by
  induction one with
  | leaves => exact .inl two
  | up below several ih =>
    rcases ih with above | above
    · rcases above.first with rfl | ⟨_, further⟩
      · exact .inr (LevelOf.leaves.up several)
      · exact .inl further
    · exact .inr (above.up several)

theorem LevelOf.eq_of_length_eq (made : LevelOf ids level) (same : level.length = ids.length) : level = ids := by
  rcases made.first with here | ⟨several, above⟩
  · exact here
  · have shorter := above.length_le
    rw [length_hash_pairs] at shorter
    omega

theorem LevelOf.nil (made : LevelOf [] level) : level = [] :=
  List.eq_nil_of_length_eq_zero (Nat.le_zero.mp made.length_le)

/-- Texts are known by their hashes where no two of them share one. -/
theorem texts_eq {texts others : List (List UInt8)} {known : Set (List UInt8)}
    (injective : Set.InjOn Hash.new known) (here : ∀ text ∈ texts, text ∈ known) (there : ∀ text ∈ others, text ∈ known)
    (same : texts.map Hash.new = others.map Hash.new) : texts = others := by
  induction texts generalizing others with
  | nil => simpa using same.symm
  | cons text rest ih =>
    cases others with
    | nil => simp at same
    | cons other tail =>
      simp only [List.map_cons, List.cons.injEq, List.forall_mem_cons] at same here there
      rw [injective here.1 there.1 same.1, ih here.2 there.2 same.2]

/-- Levels above two lists that meet show one of the lists among the levels of the other. -/
theorem levels_meet (injective : Set.InjOn Hash.new {bytes | Hashed ids bytes ∨ Hashed other bytes})
    (left : LevelOf ids level) (right : LevelOf other level) : LevelOf ids other ∨ LevelOf other ids := by
  induction left with
  | leaves => exact .inr right
  | @up lower below several ih =>
    generalize whole : hashPairs lower = upper at right
    cases right with
    | leaves => exact .inl (whole ▸ .up below several)
    | @up also beside many =>
      have same : lower = also := by
        rw [hash_pairs_eq, hash_pairs_eq] at whole
        apply pair_bytes_injective
        exact texts_eq injective (fun text member => .inl (.inr ⟨lower, below, several, member⟩))
          (fun text member => .inr (.inr ⟨also, beside, many, member⟩)) whole
      exact ih (same ▸ beside)

/-- The loop ends in the last level. -/
theorem merkle_levels_root {fuel : Nat} (some : level ≠ []) (enough : level.length ≤ fuel) :
    LevelOf level [merkleLevels fuel level] := by
  induction fuel generalizing level with
  | zero => exact absurd (List.eq_nil_of_length_eq_zero (Nat.le_zero.mp enough)) some
  | succ fuel ih =>
    rcases level with _ | ⟨first, _ | ⟨second, rest⟩⟩
    · exact absurd rfl some
    · exact .leaves
    · have shorter : (hashPairs (first :: second :: rest)).length ≤ fuel := by
        rw [length_hash_pairs]
        simp only [List.length_cons] at enough ⊢
        omega
      have some : hashPairs (first :: second :: rest) ≠ [] := by simp [hashPairs]
      have above := ih some shorter
      exact (LevelOf.leaves.up (by simp)).trans above

omit [Blake3] in
/-- Nothing is hashed into the root of no ids. -/
theorem nil_not_mem_pair_bytes (hashes : List Hash) : [] ∉ pairBytes hashes := by
  induction hashes using pairBytes.induct with
  | case1 => simp [pairBytes]
  | case2 last =>
    have width := last.length_bytes
    simp only [pairBytes, List.mem_singleton]
    exact fun empty => by simp [← empty] at width
  | case3 left right rest ih =>
    have width := left.length_bytes
    simp only [pairBytes, List.mem_cons, not_or]
    exact ⟨fun empty => by simp [(List.append_eq_nil_iff.mp empty.symm).1] at width, ih⟩

/-- A root that is the hash of no text is the only leaf. -/
theorem LevelOf.eq_of_root_nil (injective : Set.InjOn Hash.new {bytes | Hashed ids bytes})
    (made : LevelOf ids [Hash.new []]) : ids = [Hash.new []] := by
  generalize root : [Hash.new []] = top at made
  cases made with
  | leaves => rfl
  | @up level below several =>
    rw [hash_pairs_eq] at root
    have member : Hash.new [] ∈ (pairBytes level).map Hash.new := by simp [← root]
    obtain ⟨text, here, same⟩ := List.mem_map.mp member
    have empty : text = [] := injective (.inr ⟨level, below, several, here⟩) (.inl rfl) same
    exact absurd (empty ▸ here) (nil_not_mem_pair_bytes level)

end Levels

section Roots
variable [Blake3]

/-- The root of some ids. -/
def rootOf (ids : List Hash) : Hash :=
  if ids.isEmpty then Hash.new [] else merkleLevels ids.length ids

theorem compute_transaction_merkle_root_eq (ghostDag : GhostDag) (transactions : List Transaction) :
    ghostDag.computeTransactionMerkleRoot transactions = rootOf (transactions.map Transaction.id) := by
  simp [computeTransactionMerkleRoot, rootOf]

variable {ids other : List Hash}

@[simp] theorem root_of_nil : rootOf [] = Hash.new [] := rfl

theorem level_of_root (some : ids ≠ []) : LevelOf ids [rootOf ids] := by
  have root := merkle_levels_root some (le_refl ids.length)
  simpa [rootOf, some] using root

theorem root_unique {left right : Hash} (one : LevelOf ids [left]) (two : LevelOf ids [right]) : left = right := by
  rcases one.linear two with above | above
  · simpa using (above.eq_of_length_eq rfl).symm
  · simpa using above.eq_of_length_eq rfl

/-- A level has the root of what it is made of. -/
theorem root_of_level (made : LevelOf ids other) : rootOf ids = rootOf other := by
  rcases eq_or_ne ids [] with rfl | some
  · rw [made.nil]
  · have filled : other ≠ [] := by
      rintro rfl
      generalize empty : [] = top at made
      cases made with
      | leaves => exact some empty.symm
      | @up level _ several =>
        have length := congrArg List.length empty
        rw [length_hash_pairs, List.length_nil] at length
        omega
    exact root_unique (level_of_root some) (made.trans (level_of_root filled))

/-- What two lists of ids with one root have to do with each other. -/
theorem root_of_eq_iff (injective : Set.InjOn Hash.new {bytes | Hashed ids bytes ∨ Hashed other bytes}) :
    rootOf ids = rootOf other ↔
      LevelOf ids other ∨ LevelOf other ids ∨
        (ids = [] ∧ other = [Hash.new []]) ∨ (other = [] ∧ ids = [Hash.new []]) := by
  constructor
  · intro same
    rcases eq_or_ne ids [] with rfl | left <;> rcases eq_or_ne other [] with rfl | right
    · exact .inl .leaves
    · have root := level_of_root right
      rw [← same, root_of_nil] at root
      exact .inr (.inr (.inl ⟨rfl, root.eq_of_root_nil (injective.mono fun _ => .inr)⟩))
    · have root := level_of_root left
      rw [same, root_of_nil] at root
      exact .inr (.inr (.inr ⟨rfl, root.eq_of_root_nil (injective.mono fun _ => .inl)⟩))
    · have root := level_of_root right
      rw [← same] at root
      exact (levels_meet injective (level_of_root left) root).imp_right .inl
  · rintro (made | made | ⟨rfl, rfl⟩ | ⟨rfl, rfl⟩)
    · exact root_of_level made
    · exact (root_of_level made).symm
    · rfl
    · rfl

/-- Two lists of transactions have one root exactly when the ids of the one are a level of the tree over the
other, or no transactions meet one whose id is the hash of nothing; lists of one length then have the same ids. -/
theorem transaction_roots_agree_iff (ghostDag : GhostDag) (left right : List Transaction)
    (injective : Set.InjOn Hash.new
      {bytes | Hashed (left.map Transaction.id) bytes ∨ Hashed (right.map Transaction.id) bytes}) :
    (ghostDag.computeTransactionMerkleRoot left = ghostDag.computeTransactionMerkleRoot right ↔
      LevelOf (left.map Transaction.id) (right.map Transaction.id) ∨
        LevelOf (right.map Transaction.id) (left.map Transaction.id) ∨
        (left = [] ∧ right.map Transaction.id = [Hash.new []]) ∨
        (right = [] ∧ left.map Transaction.id = [Hash.new []])) ∧
    (left.length = right.length →
      ghostDag.computeTransactionMerkleRoot left = ghostDag.computeTransactionMerkleRoot right →
        left.map Transaction.id = right.map Transaction.id) := by
  simp only [compute_transaction_merkle_root_eq, root_of_eq_iff injective, List.map_eq_nil_iff]
  refine ⟨trivial, fun length => ?_⟩
  rintro (made | made | ⟨rfl, only⟩ | ⟨rfl, only⟩)
  · exact (made.eq_of_length_eq (by simp [length])).symm
  · exact made.eq_of_length_eq (by simp [length])
  · have one := congrArg List.length only
    simp [← length] at one
  · have one := congrArg List.length only
    simp [length] at one

end Roots

section Witness
open Klomang.Sample

def firstLeaf : Hash := Bytes32.ofNat 1
def secondLeaf : Hash := Bytes32.ofNat 2

/-- Two transactions. -/
def paired : List Transaction :=
  [{ id := firstLeaf, inputs := [], outputs := [] }, { id := secondLeaf, inputs := [], outputs := [] }]

/-- One transaction, whose id is the node over the two. -/
def folded : List Transaction :=
  [{ id := Hash.new (firstLeaf.bytes ++ secondLeaf.bytes), inputs := [], outputs := [] }]

/-- The one node over the two is all that is hashed. -/
theorem paired_injective : Set.InjOn Hash.new
    {bytes | Hashed (paired.map Transaction.id) bytes ∨ Hashed (folded.map Transaction.id) bytes} := by
  have few : ∀ bytes, Hashed (paired.map Transaction.id) bytes ∨ Hashed (folded.map Transaction.id) bytes →
      bytes = [] ∨ bytes = firstLeaf.bytes ++ secondLeaf.bytes := by
    rintro bytes ((rfl | ⟨level, made, several, member⟩) | (rfl | ⟨level, made, several, member⟩))
    · exact .inl rfl
    · rcases made.first with rfl | ⟨_, above⟩
      · exact .inr (by simpa [paired, pairBytes] using member)
      · have length := above.length_le
        simp [paired, hashPairs] at length
        omega
    · exact .inl rfl
    · have length := made.length_le
      simp [folded] at length
      omega
  have apart : Hash.new [] ≠ Hash.new (firstLeaf.bytes ++ secondLeaf.bytes) := by decide +kernel
  intro left here right there same
  rcases few left here with rfl | rfl <;> rcases few right there with rfl | rfl
  · rfl
  · exact absurd same apart
  · exact absurd same.symm apart
  · rfl

/-- The level over the two leaves is the list of the one. -/
theorem paired_level : LevelOf (paired.map Transaction.id) (folded.map Transaction.id) :=
  LevelOf.leaves.up (by decide)

theorem folded_agrees :
    (GhostDag.new 18).computeTransactionMerkleRoot paired = (GhostDag.new 18).computeTransactionMerkleRoot folded :=
  (transaction_roots_agree_iff _ paired folded paired_injective).1.mpr (.inl paired_level)

/-- Two transactions and a single one whose id is the node over their ids have one root. -/
theorem root_of_two_is_root_of_one :
    Set.InjOn Hash.new
        {bytes | Hashed (paired.map Transaction.id) bytes ∨ Hashed (folded.map Transaction.id) bytes} ∧
      (GhostDag.new 18).computeTransactionMerkleRoot paired =
        (GhostDag.new 18).computeTransactionMerkleRoot folded ∧
      paired.map Transaction.id ≠ folded.map Transaction.id := by
  refine ⟨paired_injective, ?_, by simp [paired, folded]⟩
  simp [computeTransactionMerkleRoot, paired, folded, merkleLevels, hashPairs]

end Witness
end Klomang.GhostDag
