import Klomang.Crypto.VerkleAttestation

/-! How `verify_proof` checks the openings of a proof: it looks whether `verify` fails on them, not at what
`verify` answers. So an opening that shows other commitments than its scalars give does no harm to a proof. -/
namespace Klomang.Crypto

open Klomang.PolynomialCommitment (Mismatched Oversized recommitted verify_false_iff verify_error_iff commit_recommitted
  from_coefficients_empty_iff reconstructPolynomialFromQuotient)
open Klomang.VerkleTree (Accepted)
open Klomang.Crypto.VerkleTree (new_ok run_follows fresh fresh_follows plain)

section Enforcing
variable [Blake3] [Bandersnatch] {S : Type} [Storage S] {tree : VerkleTree S} {proof : VerkleProof}

omit [Storage S] in
/-- An opening is failed on exactly when it is too long. -/
theorem opening_fails_iff (opening : OpeningProof) :
    tree.openingFails opening = true ↔ Oversized tree.pc opening := by
  have fails : (∃ error, tree.pc.verify opening.quotientCommitment opening = .error error) ↔ _ := verify_error_iff
  rw [← fails, VerkleTree.openingFails]
  cases tree.pc.verify opening.quotientCommitment opening <;> simp

/-- A proof is accepted when it gives the root and none of its openings is too long. -/
theorem Reached.verify_proof (reached : Reached tree) (proof : VerkleProof) :
    tree.verifyProof proof = true ↔
      Accepted (plain proof) ∧ ¬ ∃ opening ∈ proof.openingProofs, Oversized tree.pc opening := by
  obtain ⟨standing, follows⟩ := reached.follows
  rw [follows.verify_proof]
  refine and_congr_right fun _ => ?_
  simp only [not_exists, not_and, ← opening_fails_iff, Bool.not_eq_true]

/-- The openings of an accepted proof are enforced exactly when none of them shows other commitments than
its scalars give, unless one is too long or the proof does not give the root. -/
theorem openings_enforced_iff (reached : Reached tree) (proof : VerkleProof) :
    (tree.verifyProof proof = true → ∀ opening ∈ proof.openingProofs,
        tree.pc.verify opening.quotientCommitment opening = .ok true) ↔
      ((∃ opening ∈ proof.openingProofs, Mismatched tree.pc opening.quotientCommitment opening) →
        (∃ opening ∈ proof.openingProofs, Oversized tree.pc opening) ∨ ¬ Accepted (plain proof)) := by
  rw [reached.verify_proof]
  constructor
  · rintro enforced ⟨opening, member, mismatched⟩
    by_contra fine
    rw [not_or, not_not] at fine
    have answered := enforced fine.symm opening member
    rw [verify_false_iff.mpr mismatched] at answered
    cases answered
  · rintro condition ⟨accepted, sized⟩ opening member
    cases answered : tree.pc.verify opening.quotientCommitment opening with
    | error error => exact absurd ⟨opening, member, verify_error_iff.mp ⟨error, answered⟩⟩ sized
    | ok answer =>
      cases answer with
      | true => rfl
      | false =>
        rcases condition ⟨opening, member, verify_false_iff.mp answered⟩ with oversized | refused
        · exact absurd oversized sized
        · exact absurd accepted refused

/-- The opening of the zero polynomial at zero. -/
def zeroOpening (pc : PolynomialCommitment) : OpeningProof where
  quotientCommitment := pc.blindedSum []
  ipaProof := ⟨pc.blindedSum [], []⟩
  point := 0
  value := 0

theorem zero_recommitted (pc : PolynomialCommitment) : (recommitted (zeroOpening pc)).coeffs = [] := by
  refine from_coefficients_empty_iff.mpr ?_
  simp [zeroOpening, reconstructPolynomialFromQuotient]

theorem zero_opening_fits (pc : PolynomialCommitment) (room : 0 < pc.generators.length) :
    ¬ Mismatched pc (zeroOpening pc).quotientCommitment (zeroOpening pc) ∧ ¬ Oversized pc (zeroOpening pc) := by
  have committed : pc.commit (recommitted (zeroOpening pc)) = _ := commit_recommitted room
  rw [zero_recommitted] at committed
  constructor
  · rintro ⟨_, different | different | ⟨expected, same, different⟩⟩
    · exact different rfl
    · exact different rfl
    · rw [committed] at same
      cases same
      exact different rfl
  · rintro (long | ⟨_, _, long⟩)
    · exact absurd long (Nat.not_lt_zero _)
    · rw [zero_recommitted] at long
      exact absurd long (Nat.not_lt_zero _)

end Enforcing

section Tampering
open Weighing
open scoped Weighing

/-- An opening whose commitments are not those of its scalars. -/
def tamperedOpening (pc : PolynomialCommitment) : OpeningProof where
  quotientCommitment := ⟨(pc.blindedSum []).point + Bandersnatch.generator⟩
  ipaProof := ⟨⟨(pc.blindedSum []).point + Bandersnatch.generator⟩, []⟩
  point := 0
  value := 0

theorem tampered_answer (pc : PolynomialCommitment) :
    pc.verify (tamperedOpening pc).quotientCommitment (tamperedOpening pc) = .ok false := by
  refine verify_false_iff.mpr ⟨Nat.zero_le _, .inl fun same => ?_⟩
  exact one_ne_zero (left_eq_add.mp same : (1 : ℚ) = 0)

/-- The proof that a new tree gives for a key, with openings. -/
def openedProof (openingProofs : List OpeningProof) : VerkleProof :=
  { shownProof (Standing.after (contentsOf (∅ : MemoryStorage)) []).contents first with openingProofs }

theorem opened_accepted (openingProofs : List OpeningProof) : Accepted (plain (openedProof openingProofs)) :=
  (run_follows (∅ : MemoryStorage) []).2.accepted first

theorem fresh_reached : Reached (fresh (∅ : MemoryStorage)) := ⟨∅, _, [], new_ok _, rfl⟩

/-- A proof with a tampered opening is accepted. -/
theorem tampered_opening_accepted :
    ∃ start, VerkleTree.new (∅ : MemoryStorage) = .ok start ∧ ∃ proof : VerkleProof, start.verifyProof proof = true ∧
      ∃ opening ∈ proof.openingProofs, start.pc.verify opening.quotientCommitment opening = .ok false := by
  have answer := tampered_answer (fresh (∅ : MemoryStorage)).pc
  refine ⟨_, new_ok _, openedProof [tamperedOpening (fresh (∅ : MemoryStorage)).pc], ?_, _, List.mem_singleton_self _,
    answer⟩
  refine (fresh_reached.verify_proof _).mpr ⟨opened_accepted _, ?_⟩
  rintro ⟨opening, member, oversized⟩
  obtain rfl := List.mem_singleton.mp member
  obtain ⟨error, failed⟩ := verify_error_iff.mpr oversized
  rw [answer] at failed
  cases failed

/-- An opening of the zero polynomial is accepted, and is right. -/
theorem zero_opening_enforced :
    ∃ start, VerkleTree.new (∅ : MemoryStorage) = .ok start ∧ ∃ proof : VerkleProof, start.verifyProof proof = true ∧
      proof.openingProofs ≠ [] ∧
      ∀ opening ∈ proof.openingProofs, start.pc.verify opening.quotientCommitment opening = .ok true := by
  obtain ⟨matched, sized⟩ := zero_opening_fits (fresh (∅ : MemoryStorage)).pc (by
    rw [(fresh_follows (∅ : MemoryStorage)).generators, PolynomialCommitment.length_generators]
    decide)
  have accepted : (fresh (∅ : MemoryStorage)).verifyProof (openedProof [zeroOpening (fresh (∅ : MemoryStorage)).pc]) = true := by
    refine (fresh_reached.verify_proof _).mpr ⟨opened_accepted _, ?_⟩
    rintro ⟨opening, member, oversized⟩
    obtain rfl := List.mem_singleton.mp member
    exact sized oversized
  refine ⟨_, new_ok _, _, accepted, List.cons_ne_nil _ _, ?_⟩
  refine (openings_enforced_iff fresh_reached _).mpr ?_ accepted
  rintro ⟨opening, member, mismatched⟩
  obtain rfl := List.mem_singleton.mp member
  exact absurd mismatched matched

end Tampering
end Klomang.Crypto
