import Klomang.Crypto.PolynomialCommitment
import Klomang.Crypto.Schnorr
import Klomang.Lib.Ascending
import Klomang.Lib.Enumeration
import Klomang.Vm.Executor
import Mathlib.Algebra.Field.Rat
import Mathlib.Algebra.Order.Ring.Rat
import Mathlib.Data.Nat.Cast.Order.Ring

/-! One concrete choice of everything that comes from other crates. The instances
are scoped: only the concrete runs open them. -/
namespace Klomang.Sample

/-- A number that depends on every byte and on the length. -/
def mix (data : List UInt8) : Nat := data.foldl (fun sum byte => (sum * 257 + byte.toNat + 1) % 256 ^ 32) 0

scoped instance blake3 : Blake3 := ⟨fun data => .ofNat (mix data)⟩

/-- Keys have 32 bytes, and a signature is the key followed by the message. -/
scoped instance schnorr : SchnorrScheme where
  VerifyingKey := List UInt8
  Signature := List UInt8
  verifyingKeyFromBytes bytes := if bytes.length = 32 then .ok bytes else .error "signature error"
  signatureTryFrom bytes := if bytes.length = 64 then .ok bytes else .error "signature error"
  verify key message signature := signature == key ++ message

/-- The workers answer in the order in which they were started. -/
scoped instance channel : Channel := ⟨id, fun _ => .refl _⟩

/-- Scalars and points are rational numbers; no hash gives the scalar zero. -/
scoped instance bandersnatch : Bandersnatch where
  ScalarField := ℚ
  EdwardsPoint := ℚ
  generator := 1
  fromLeBytesModOrder bytes := Bytes.ofLE bytes + 1
  toBytesLe scalar := Bytes.leBytes 32 scalar.num.natAbs
  serializeUncompressed point := Bytes.leBytes 64 point.num.natAbs
  scalar_found _ := ⟨0, (Nat.cast_add_one_pos _).ne'⟩

/-- An engine that refuses what is not a module, and nothing here is one. -/
scoped instance wasmer : Wasmer where
  Module := Empty
  compile _ := .error "unexpected end-of-file"
  instantiate module := module.elim
  run module := module.elim
  runtimeError msg := "RuntimeError: " ++ msg

/-- Members in increasing order. -/
def sorted {α : Type} [LinearOrder α] : Enumeration α := ⟨ascending, ascending_nodup, fun _ _ => mem_ascending⟩

end Klomang.Sample
