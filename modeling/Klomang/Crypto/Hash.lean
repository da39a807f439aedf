import Klomang.Lib.Bytes
import Mathlib.Order.Lattice
import Mathlib.Order.Hom.Basic

/-! `core/crypto/hash.rs`: 32-byte hashes. The `blake3` crate is a parameter;
the order is the derived one, which compares bytes from the left. -/
namespace Klomang

/-- `[u8; 32]`, also the newtype `Hash` over it. -/
structure Bytes32 where
  bytes : List UInt8
  size : bytes.length = 32

namespace Bytes32

@[ext] theorem ext {left right : Bytes32} (same : left.bytes = right.bytes) : left = right := by
  cases left
  cases right
  cases same
  rfl

@[simp] theorem length_bytes (value : Bytes32) : value.bytes.length = 32 := value.size

/-- The bytes read as one big-endian number. -/
def toNat (value : Bytes32) : Nat := Bytes.ofBE value.bytes

theorem toNat_injective : Function.Injective toNat := by
  intro left right same
  exact ext (Bytes.ofBE_injective (by rw [left.size, right.size]) same)

instance : LinearOrder Bytes32 := LinearOrder.lift' toNat toNat_injective

/-- 32 copies of one byte, as in `[byte; 32]`. -/
def replicate (byte : UInt8) : Bytes32 := ⟨List.replicate 32 byte, by simp⟩

/-- The 32 low bytes of a number, most significant first. -/
def ofNat (value : Nat) : Bytes32 := ⟨Bytes.beBytes 32 value, by simp⟩

end Bytes32

private theorem ofBE_cons (byte : UInt8) (rest : List UInt8) :
    Bytes.ofBE (byte :: rest) = byte.toNat * 256 ^ rest.length + Bytes.ofBE rest := by
  have tail : ∀ low : List UInt8, Bytes.ofLE (low ++ [byte]) =
      Bytes.ofLE low + byte.toNat * 256 ^ low.length := by
    intro low
    induction low with
    | nil => simp [Bytes.ofLE]
    | cons head low ih =>
      rw [List.cons_append, Bytes.ofLE, Bytes.ofLE, ih, List.length_cons, pow_succ', Nat.mul_add]
      rw [← Nat.mul_assoc, ← Nat.mul_assoc, Nat.mul_comm 256 byte.toNat, Nat.add_assoc]
  rw [Bytes.ofBE, List.reverse_cons, tail, List.length_reverse, Nat.add_comm]
  rfl

/-- The order on hashes is the derived one: the first differing byte decides. -/
theorem hash_order_is_byte_order (left right : Bytes32) :
    left < right ↔ List.Lex (· < ·) left.bytes right.bytes := by
  have compared : ∀ first second : List UInt8, first.length = second.length →
      (Bytes.ofBE first < Bytes.ofBE second ↔ List.Lex (· < ·) first second) := by
    intro first
    induction first with
    | nil =>
      intro second width
      have empty : second = [] := List.eq_nil_of_length_eq_zero width.symm
      subst empty
      simp
    | cons byte rest ih =>
      intro second width
      cases second with
      | nil => simp at width
      | cons other tail =>
        have widths : rest.length = tail.length := by simpa using width
        have restBound := Bytes.ofBE_lt rest
        have tailBound := Bytes.ofBE_lt tail
        rw [ofBE_cons, ofBE_cons, List.cons_lex_cons_iff, ← ih tail widths, widths]
        rw [widths] at restBound
        rw [UInt8.lt_iff_toNat_lt, ← UInt8.toNat_inj]
        generalize 256 ^ tail.length = scale at *
        constructor
        · intro below
          rcases Nat.lt_trichotomy byte.toNat other.toNat with less | same | more
          · exact .inl less
          · rw [same] at below
            exact .inr ⟨same, by omega⟩
          · have step : (other.toNat + 1) * scale ≤ byte.toNat * scale := Nat.mul_le_mul_right _ more
            rw [Nat.succ_mul] at step
            omega
        · rintro (less | ⟨same, below⟩)
          · have step : (byte.toNat + 1) * scale ≤ other.toNat * scale := Nat.mul_le_mul_right _ less
            rw [Nat.succ_mul] at step
            omega
          · rw [same]
            omega
  exact compared left.bytes right.bytes (by rw [left.size, right.size])

/-- `Hash([u8; 32])`; `as_bytes` and `from_bytes` are the identity. -/
abbrev Hash := Bytes32

/-- The `blake3` crate. Feeding a hasher in pieces hashes their concatenation. -/
class Blake3 where
  hash : List UInt8 → Bytes32

/-- `Hash::new`. -/
def Hash.new [Blake3] (data : List UInt8) : Hash := Blake3.hash data

private def hexDigit (value : Nat) : Char :=
  if value < 10 then Char.ofNat (48 + value) else Char.ofNat (87 + value)

/-- `Hash::to_hex`. -/
def Hash.toHex (hash : Hash) : String :=
  String.ofList (hash.bytes.flatMap fun byte => [hexDigit (byte.toNat / 16), hexDigit (byte.toNat % 16)])

private theorem hex_digit_injective :
    ∀ value < 16, ∀ other < 16, hexDigit value = hexDigit other → value = other := by
  decide

/-- The text spells the bytes. -/
theorem Hash.to_hex_injective : Function.Injective Hash.toHex := by
  intro left right same
  have spelled := String.ofList_injective same
  refine Bytes32.ext ?_
  generalize left.bytes = leftBytes at spelled ⊢
  generalize right.bytes = rightBytes at spelled ⊢
  induction leftBytes generalizing rightBytes with
  | nil =>
    cases rightBytes with
    | nil => rfl
    | cons other rest => cases spelled
  | cons byte rest ih =>
    cases rightBytes with
    | nil => cases spelled
    | cons other tail =>
      rw [List.flatMap_cons, List.flatMap_cons, List.cons_append, List.cons_append, List.cons_append,
        List.cons_append] at spelled
      obtain ⟨highDigit, spelled⟩ := List.cons.inj spelled
      obtain ⟨lowDigit, spelled⟩ := List.cons.inj spelled
      have byteBound := byte.toNat_lt
      have otherBound := other.toNat_lt
      have high := hex_digit_injective _ (by omega) _ (by omega) highDigit
      have low := hex_digit_injective _ (by omega) _ (by omega) lowDigit
      have same : byte = other := UInt8.toNat_inj.mp (by omega)
      rw [same, ih tail spelled]

theorem Hash.length_to_hex (hash : Hash) : hash.toHex.toList.length = 64 := by
  rw [Hash.toHex, String.toList_ofList, List.length_flatMap]
  simp

instance : ToString Hash := ⟨Hash.toHex⟩

/-- The derived `Debug` text of a hash. -/
def Hash.debug (hash : Hash) : String :=
  "Hash(" ++ toString (hash.bytes.map UInt8.toNat) ++ ")"

end Klomang
