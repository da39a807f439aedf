import Mathlib.Algebra.Order.Ring.Nat
import Mathlib.Data.List.Basic

/-! Fixed-width byte strings of natural numbers. `beBytes width` and
`leBytes width` are what `to_be_bytes` and `to_le_bytes` return for an integer
of that many bytes, and the readings `ofBE` and `ofLE` invert them. -/
namespace Klomang.Bytes

/-- The low `width` bytes of a number, least significant first. -/
def leBytes : Nat → Nat → List UInt8
  | 0, _ => []
  | width + 1, value => UInt8.ofNat (value % 256) :: leBytes width (value / 256)

/-- The low `width` bytes of a number, most significant first. -/
def beBytes (width value : Nat) : List UInt8 := (leBytes width value).reverse

/-- The number a little-endian byte string spells. -/
def ofLE : List UInt8 → Nat
  | [] => 0
  | byte :: rest => byte.toNat + 256 * ofLE rest

/-- The number a big-endian byte string spells. -/
def ofBE (bytes : List UInt8) : Nat := ofLE bytes.reverse

@[simp] theorem length_leBytes (width value : Nat) : (leBytes width value).length = width := by
  induction width generalizing value with
  | zero => rfl
  | succ width ih => simp [leBytes, ih]

@[simp] theorem length_beBytes (width value : Nat) : (beBytes width value).length = width := by
  simp [beBytes]

theorem ofLE_leBytes (width value : Nat) : ofLE (leBytes width value) = value % 256 ^ width := by
  induction width generalizing value with
  | zero => simp [leBytes, ofLE, Nat.mod_one]
  | succ width ih =>
    have low : value % 256 % 2 ^ 8 = value % 256 := by omega
    simp only [leBytes, ofLE, ih, UInt8.toNat_ofNat', low]
    rw [pow_succ', Nat.mod_mul]

theorem ofBE_beBytes (width value : Nat) : ofBE (beBytes width value) = value % 256 ^ width := by
  simp [ofBE, beBytes, ofLE_leBytes]

theorem leBytes_ofLE (bytes : List UInt8) : leBytes bytes.length (ofLE bytes) = bytes := by
  induction bytes with
  | nil => rfl
  | cons byte rest ih =>
    have bound := byte.toNat_lt
    have low : (byte.toNat + 256 * ofLE rest) % 256 = byte.toNat := by omega
    have high : (byte.toNat + 256 * ofLE rest) / 256 = ofLE rest := by omega
    simp only [List.length_cons, leBytes, ofLE, low, high, ih, List.cons.injEq, and_true]
    exact UInt8.ofNat_toNat

theorem beBytes_ofBE (bytes : List UInt8) : beBytes bytes.length (ofBE bytes) = bytes := by
  have spelled := leBytes_ofLE bytes.reverse
  rw [List.length_reverse] at spelled
  simp [beBytes, ofBE, spelled]

theorem ofLE_lt (bytes : List UInt8) : ofLE bytes < 256 ^ bytes.length := by
  induction bytes with
  | nil => simp [ofLE]
  | cons byte rest ih =>
    have bound := byte.toNat_lt
    simp only [ofLE, List.length_cons, pow_succ]
    omega

theorem ofBE_lt (bytes : List UInt8) : ofBE bytes < 256 ^ bytes.length := by
  simpa [ofBE] using ofLE_lt bytes.reverse

/-- Two numbers that fit the width and have the same bytes are the same. -/
theorem beBytes_injective {width left right : Nat} (leftFits : left < 256 ^ width)
    (rightFits : right < 256 ^ width) (same : beBytes width left = beBytes width right) :
    left = right := by
  have spelled := congrArg ofBE same
  rwa [ofBE_beBytes, ofBE_beBytes, Nat.mod_eq_of_lt leftFits, Nat.mod_eq_of_lt rightFits] at spelled

theorem leBytes_injective {width left right : Nat} (leftFits : left < 256 ^ width)
    (rightFits : right < 256 ^ width) (same : leBytes width left = leBytes width right) : left = right := by
  have spelled := congrArg ofLE same
  rwa [ofLE_leBytes, ofLE_leBytes, Nat.mod_eq_of_lt leftFits, Nat.mod_eq_of_lt rightFits] at spelled

/-- Two byte strings of one length spell the same number only when equal. -/
theorem ofBE_injective {left right : List UInt8} (width : left.length = right.length)
    (same : ofBE left = ofBE right) : left = right := by
  rw [← beBytes_ofBE left, ← beBytes_ofBE right, same, width]

theorem beBytes_u32_injective {left right : UInt32}
    (same : beBytes 4 left.toNat = beBytes 4 right.toNat) : left = right :=
  UInt32.toNat_inj.mp (beBytes_injective left.toNat_lt right.toNat_lt same)

theorem beBytes_u64_injective {left right : UInt64}
    (same : beBytes 8 left.toNat = beBytes 8 right.toNat) : left = right :=
  UInt64.toNat_inj.mp (beBytes_injective left.toNat_lt right.toNat_lt same)

theorem leBytes_u64_injective {left right : UInt64}
    (same : leBytes 8 left.toNat = leBytes 8 right.toNat) : left = right :=
  UInt64.toNat_inj.mp (leBytes_injective left.toNat_lt right.toNat_lt same)

private theorem collect_bytes (bytes : ByteArray) (index : Nat) (collected : List UInt8) :
    ByteArray.toList.loop bytes index collected = collected.reverse ++ bytes.data.toList.drop index := by
  induction index, collected using ByteArray.toList.loop.induct bytes with
  | case1 index collected within ih =>
    have inside : index < bytes.data.toList.length := within
    have next : bytes.get! index = bytes.data.toList[index] := getElem!_pos bytes.data index within
    rw [ByteArray.toList.loop, if_pos within, ih, List.drop_eq_getElem_cons inside, List.reverse_cons, List.append_assoc,
      next]
    rfl
  | case2 index collected past =>
    have short : bytes.data.toList.length ≤ index := Nat.le_of_not_lt past
    rw [ByteArray.toList.loop, if_neg past, List.drop_eq_nil_of_le short, List.append_nil]

/-- A text is told by its bytes. -/
theorem utf8_injective {left right : String} (same : left.toUTF8.toList = right.toUTF8.toList) : left = right := by
  rw [ByteArray.toList, ByteArray.toList, collect_bytes, collect_bytes] at same
  exact String.toByteArray_inj.mp (ByteArray.ext (Array.toList_inj.mp same))

end Klomang.Bytes
