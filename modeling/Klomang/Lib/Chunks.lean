import Mathlib.Data.List.Basic

/-! Cutting a list into chunks of a fixed size, the last one possibly shorter. -/
namespace Klomang
variable {α : Type}

/-- The chunks of the list, as many as the fuel allows. -/
def chunksUpTo (size : Nat) : Nat → List α → List (List α)
  | 0, _ => []
  | _ + 1, [] => []
  | fuel + 1, head :: rest =>
    (head :: rest).take size :: chunksUpTo size fuel ((head :: rest).drop size)

/-- `slice::chunks`. -/
def chunks (size : Nat) (list : List α) : List (List α) := chunksUpTo size list.length list

theorem flatten_chunks {size : Nat} (positive : 0 < size) (list : List α) : (chunks size list).flatten = list := by
  have enough : ∀ fuel list, list.length ≤ fuel → (chunksUpTo size fuel list : List (List α)).flatten = list := by
    intro fuel
    induction fuel with
    | zero =>
      intro list short
      rw [List.eq_nil_of_length_eq_zero (Nat.le_zero.mp short)]
      rfl
    | succ fuel ih =>
      intro list short
      cases list with
      | nil => rfl
      | cons head rest =>
        have shorter : ((head :: rest).drop size).length ≤ fuel := by
          rw [List.length_drop]
          rw [List.length_cons] at short ⊢
          omega
        rw [chunksUpTo, List.flatten_cons, ih _ shorter, List.take_append_drop]
  exact enough list.length list (Nat.le_refl _)

/-- In a list of blocks of one size, the block and the offset give the place. -/
theorem getElem?_flatten_uniform {size : Nat} {blocks : List (List α)}
    (uniform : ∀ block ∈ blocks, block.length = size) (index : Nat) {offset : Nat} (within : offset < size) :
    blocks.flatten[index * size + offset]? = blocks[index]?.bind (·[offset]?) := by
  induction blocks generalizing index with
  | nil => rfl
  | cons block rest ih =>
    have width := uniform block List.mem_cons_self
    rw [List.flatten_cons]
    cases index with
    | zero =>
      rw [Nat.zero_mul, Nat.zero_add, List.getElem?_append_left (by omega)]
      rfl
    | succ index =>
      have past : (index + 1) * size + offset - size = index * size + offset := by
        rw [Nat.succ_mul]
        omega
      rw [List.getElem?_append_right (by rw [width, Nat.succ_mul]; omega), width, past,
        ih fun other member => uniform other (List.mem_cons_of_mem _ member)]
      rfl

section Encodings
variable {β : Type} {size : Nat} {encode : β → List α}

theorem length_flatMap_uniform (width : ∀ value, (encode value).length = size) (values : List β) :
    (values.flatMap encode).length = size * values.length := by
  rw [List.length_flatMap, List.map_congr_left fun value _ => width value, List.map_const',
    List.sum_replicate_nat, Nat.mul_comm]

/-- As many values that are encoded in blocks of one size are told by the concatenation of the blocks. -/
theorem flatMap_uniform_injective (width : ∀ value, (encode value).length = size)
    (injective : Function.Injective encode) {left right : List β} (count : left.length = right.length)
    (same : left.flatMap encode = right.flatMap encode) : left = right := by
  have widths : ∀ values : List β, (values.map encode).map List.length = List.replicate values.length size := by
    intro values
    rw [List.map_map, ← List.map_const']
    exact List.map_congr_left fun value _ => width value
  rw [List.flatMap_def, List.flatMap_def] at same
  apply List.map_injective_iff.mpr injective
  apply List.eq_iff_flatten_eq.mpr ⟨same, ?_⟩
  rw [widths, widths, count]

end Encodings
end Klomang
