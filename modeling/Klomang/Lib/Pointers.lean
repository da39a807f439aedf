import Mathlib.Data.Finset.Card
import Mathlib.Data.List.Chain

/-! Following a partial function from node to node until it is undefined. -/
namespace Klomang.Pointers
variable {α : Type}

/-- The nodes met from a start on, as far as the fuel reaches. -/
def follow (next : α → Option α) : Nat → Option α → List α
  | 0, _ => []
  | _ + 1, none => []
  | fuel + 1, some node => node :: follow next fuel (next node)

/-- Without fuel: the nodes met from a start on are these, and then there is no further one. -/
inductive Ends (next : α → Option α) : Option α → List α → Prop
  | stop : Ends next none []
  | step {node : α} {rest : List α} (further : Ends next (next node) rest) : Ends next (some node) (node :: rest)

variable {next : α → Option α} {node : α} {start : Option α} {met : List α} {nodes : Finset α}

/-- With a rank that falls along the pointers, as much fuel as there are nodes of no higher rank reaches the end. -/
theorem follow_ends (rank : α → Nat) (inside : ∀ node ∈ nodes, ∀ further, next node = some further → further ∈ nodes)
    (falls : ∀ node ∈ nodes, ∀ further, next node = some further → rank further < rank node)
    {fuel : Nat} (member : node ∈ nodes) (enough : (nodes.filter (rank · ≤ rank node)).card ≤ fuel) :
    Ends next (some node) (follow next (fuel + 1) (some node)) := by
  induction fuel generalizing node with
  | zero =>
    have here : node ∈ nodes.filter (rank · ≤ rank node) := Finset.mem_filter.mpr ⟨member, le_rfl⟩
    exact absurd (Finset.card_pos.mpr ⟨node, here⟩) (by omega)
  | succ fuel ih =>
    refine .step ?_
    cases further : next node with
    | none => exact .stop
    | some below =>
      have lower := falls node member below further
      refine ih (inside node member below further) (Nat.le_of_lt_succ (lt_of_lt_of_le (Finset.card_lt_card ?_) enough))
      refine Finset.ssubset_iff_of_subset ?_ |>.mpr ⟨node, Finset.mem_filter.mpr ⟨member, le_rfl⟩, ?_⟩
      · intro other listed
        obtain ⟨stored, low⟩ := Finset.mem_filter.mp listed
        exact Finset.mem_filter.mpr ⟨stored, low.trans lower.le⟩
      · exact fun listed => absurd (Finset.mem_filter.mp listed).2 (Nat.not_le.mpr lower)

theorem Ends.head (ends : Ends next start met) : met.head? = start := by
  cases ends with
  | stop => rfl
  | step _ => rfl

/-- Each node met points to the one after it. -/
theorem Ends.linked (ends : Ends next start met) : met.IsChain fun node further => next node = some further := by
  induction ends with
  | stop => exact .nil
  | @step node rest further ih =>
    refine List.isChain_cons.mpr ⟨fun below first => ?_, ih⟩
    exact further.head.symm.trans first

/-- With a rank that falls along the pointers no node is met twice. -/
theorem Ends.nodup (ends : Ends next start met) (rank : α → Nat)
    (falls : ∀ node further, next node = some further → rank further < rank node) : met.Nodup := by
  have falling : (met.map rank).IsChain (· > ·) := (List.isChain_map rank).mpr (ends.linked.imp falls)
  have apart : (met.map rank).Nodup := falling.pairwise.imp fun greater => greater.ne'
  exact apart.of_map rank

/-- The last node met points nowhere. -/
theorem Ends.last (ends : Ends next start met) {node : α} (last : met.getLast? = some node) : next node = none := by
  induction ends with
  | stop => cases last
  | @step first rest further ih =>
    cases rest with
    | nil =>
      cases last
      exact further.head.symm
    | cons second rest =>
      rw [List.getLast?_cons_cons] at last
      exact ih last

/-- What holds of the start and passes along the pointers holds of every node met. -/
theorem Ends.all (ends : Ends next start met) (property : α → Prop) (first : ∀ node, start = some node → property node)
    (passes : ∀ node further, property node → next node = some further → property further) :
    ∀ node ∈ met, property node := by
  induction ends with
  | stop => exact fun node member => absurd member List.not_mem_nil
  | @step node rest further ih =>
    intro other member
    rcases List.mem_cons.mp member with rfl | later
    · exact first other rfl
    · exact ih (fun below pointed => passes node below (first node rfl) pointed) other later

end Klomang.Pointers
