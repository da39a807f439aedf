import Klomang.Pow.Hash

/-! `core/pow/miner.rs`: the difficulty as a divisor of the largest `u64`. -/
namespace Klomang

structure Pow where
  difficulty : UInt64

namespace Pow

/-- `Pow::new`. -/
def new (difficulty : UInt64) : Pow := ⟨max difficulty 1⟩

def target (pow : Pow) : UInt64 := UInt64.ofNat (2 ^ 64 - 1) / max pow.difficulty 1

def validatePow (pow : Pow) (hash : Hash) : Bool := isValidPow hash pow.target

theorem validate_pow_iff (pow : Pow) (hash : Hash) :
    pow.validatePow hash = true ↔ hashVal hash < pow.target.toNat := is_valid_pow_iff hash pow.target

theorem to_nat_max (left right : UInt64) : (max left right).toNat = max left.toNat right.toNat := by
  rw [UInt64.max_def]
  split
  next less =>
    rw [UInt64.le_iff_toNat_le] at less
    exact (max_eq_right less).symm
  next more =>
    rw [UInt64.le_iff_toNat_le] at more
    exact (max_eq_left (Nat.le_of_not_le more)).symm

theorem to_nat_target (pow : Pow) : pow.target.toNat = (2 ^ 64 - 1) / max pow.difficulty.toNat 1 := by
  simp [target, UInt64.toNat_div, to_nat_max]

/-- The target falls as the difficulty rises: what is accepted at a difficulty is accepted at every lower one. -/
theorem validate_pow_mono {low high : Pow} (lower : low.difficulty ≤ high.difficulty) {hash : Hash}
    (accepted : high.validatePow hash = true) : low.validatePow hash = true := by
  rw [validate_pow_iff, to_nat_target] at accepted ⊢
  rw [UInt64.le_iff_toNat_le] at lower
  exact accepted.trans_le (Nat.div_le_div_left (max_le_max_right 1 lower) (by omega))

end Pow
end Klomang
