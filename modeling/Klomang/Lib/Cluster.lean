import Klomang.Lib.Runs
import Mathlib.Data.Finset.Card
import Mathlib.Data.List.Nodup

/-! Clusters: finite sets in which no member has more than `k` rivals. The greedy colouring
takes a candidate when its own rivals are few and does not look at the members it crowds;
it stays a cluster exactly when every candidate it takes leaves room for them. -/
namespace Klomang.Cluster
variable {α : Type} [DecidableEq α] {rivals : α → Finset α} {k : Nat} {members smaller : Finset α}
  {candidate : α} {candidates : List α} {sets : Finset α × Finset α}

/-- No member has more than `k` rivals among the members. -/
def IsCluster (rivals : α → Finset α) (k : Nat) (members : Finset α) : Prop :=
  ∀ member ∈ members, (rivals member ∩ members).card ≤ k

/-- There is room for a candidate: it is a member already, or it has at most `k` rivals among the
members and each member whose rival it is had fewer than `k`. -/
def Room (rivals : α → Finset α) (k : Nat) (members : Finset α) (candidate : α) : Prop :=
  candidate ∈ members ∨ (rivals candidate ∩ members).card ≤ k ∧
    ∀ member ∈ members, candidate ∈ rivals member → (rivals member ∩ members).card < k

instance (members : Finset α) : Decidable (IsCluster rivals k members) := by
  unfold IsCluster
  infer_instance

instance (members : Finset α) (candidate : α) : Decidable (Room rivals k members candidate) := by
  unfold Room
  infer_instance

theorem is_cluster_empty : IsCluster rivals k ∅ := fun _ member => absurd member (Finset.notMem_empty _)

theorem IsCluster.subset (cluster : IsCluster rivals k members) (within : smaller ⊆ members) :
    IsCluster rivals k smaller := by
  intro member listed
  have fewer : rivals member ∩ smaller ⊆ rivals member ∩ members := Finset.inter_subset_inter_left within
  exact (Finset.card_le_card fewer).trans (cluster member (within listed))

/-- A candidate can be added to a cluster exactly when there is room for it. -/
theorem IsCluster.insert_iff (cluster : IsCluster rivals k members) (foreign : candidate ∉ rivals candidate) :
    IsCluster rivals k (insert candidate members) ↔ Room rivals k members candidate := by
  by_cases already : candidate ∈ members
  · rw [Finset.insert_eq_of_mem already]
    exact ⟨fun _ => .inl already, fun _ => cluster⟩
  have own : rivals candidate ∩ insert candidate members = rivals candidate ∩ members :=
    Finset.inter_insert_of_notMem foreign
  have crowded : ∀ member, candidate ∈ rivals member →
      (rivals member ∩ insert candidate members).card = (rivals member ∩ members).card + 1 := by
    intro member rival
    rw [Finset.inter_insert_of_mem rival]
    apply Finset.card_insert_of_notMem
    exact fun both => already (Finset.mem_inter.mp both).2
  constructor
  · intro larger
    refine .inr ⟨?_, fun member listed rival => ?_⟩
    · have here := larger candidate (Finset.mem_insert_self candidate members)
      rwa [own] at here
    · have there := larger member (Finset.mem_insert_of_mem listed)
      rw [crowded member rival] at there
      exact there
  · rintro (member | ⟨few, room⟩)
    · exact absurd member already
    intro member listed
    rcases Finset.mem_insert.mp listed with rfl | old
    · rw [own]
      exact few
    · by_cases rival : candidate ∈ rivals member
      · rw [crowded member rival]
        exact room member old rival
      · rw [Finset.inter_insert_of_notMem rival]
        exact cluster member old

section Greedy

/-- Colour one candidate: blue when it has at most `k` rivals among the blue ones, red otherwise. -/
def colour (rivals : α → Finset α) (k : Nat) (sets : Finset α × Finset α) (candidate : α) :
    Finset α × Finset α :=
  if (rivals candidate ∩ sets.1).card ≤ k then (insert candidate sets.1, sets.2)
  else (sets.1, insert candidate sets.2)

theorem colour_blue (few : (rivals candidate ∩ sets.1).card ≤ k) :
    colour rivals k sets candidate = (insert candidate sets.1, sets.2) := if_pos few

theorem colour_red (many : ¬ (rivals candidate ∩ sets.1).card ≤ k) :
    colour rivals k sets candidate = (sets.1, insert candidate sets.2) := if_neg many

/-- One step colours its candidate and nothing else. -/
theorem colour_union (rivals : α → Finset α) (k : Nat) (sets : Finset α × Finset α) (candidate : α) :
    (colour rivals k sets candidate).1 ∪ (colour rivals k sets candidate).2 =
      insert candidate (sets.1 ∪ sets.2) := by
  unfold colour
  split
  · exact Finset.insert_union candidate sets.1 sets.2
  · exact Finset.union_insert candidate sets.1 sets.2

theorem colour_grows (rivals : α → Finset α) (k : Nat) (sets : Finset α × Finset α) (candidate : α) :
    sets.1 ⊆ (colour rivals k sets candidate).1 ∧ sets.2 ⊆ (colour rivals k sets candidate).2 := by
  unfold colour
  split
  · exact ⟨Finset.subset_insert _ _, subset_rfl⟩
  · exact ⟨subset_rfl, Finset.subset_insert _ _⟩

/-- The run colours exactly its candidates. -/
theorem run_union (rivals : α → Finset α) (k : Nat) (sets : Finset α × Finset α) (candidates : List α) :
    (Runs.run (colour rivals k) sets candidates).1 ∪ (Runs.run (colour rivals k) sets candidates).2 =
      sets.1 ∪ sets.2 ∪ candidates.toFinset := by
  induction candidates using List.reverseRecOn with
  | nil => simp
  | append_singleton earlier last ih =>
    rw [Runs.run_snoc, colour_union, ih, List.toFinset_append, ← Finset.union_assoc]
    exact (Finset.union_comm _ {last}).symm

theorem run_grows (rivals : α → Finset α) (k : Nat) (sets : Finset α × Finset α) (candidates : List α) :
    sets.1 ⊆ (Runs.run (colour rivals k) sets candidates).1 ∧
      sets.2 ⊆ (Runs.run (colour rivals k) sets candidates).2 := by
  induction candidates using List.reverseRecOn with
  | nil => exact ⟨subset_rfl, subset_rfl⟩
  | append_singleton earlier last ih =>
    have step := colour_grows rivals k (Runs.run (colour rivals k) sets earlier) last
    rw [Runs.run_snoc]
    exact ⟨ih.1.trans step.1, ih.2.trans step.2⟩

/-- What the run refuses was among its candidates. -/
theorem run_red_subset (rivals : α → Finset α) (k : Nat) (sets : Finset α × Finset α) (candidates : List α) :
    (Runs.run (colour rivals k) sets candidates).2 ⊆ sets.2 ∪ candidates.toFinset := by
  induction candidates using List.reverseRecOn with
  | nil => exact Finset.subset_union_left
  | append_singleton earlier last ih =>
    have wider : sets.2 ∪ earlier.toFinset ⊆ sets.2 ∪ (earlier ++ [last]).toFinset := by
      rw [List.toFinset_append]
      exact Finset.union_subset_union_right Finset.subset_union_left
    rw [Runs.run_snoc]
    unfold colour
    split
    · exact ih.trans wider
    · refine Finset.insert_subset ?_ (ih.trans wider)
      simp

/-- Runs of known candidates agree when the rivals do among what is known. -/
theorem run_congr {others : α → Finset α} {known : Finset α} {candidates : List α}
    (listed : ∀ candidate ∈ candidates, candidate ∈ known)
    (agree : ∀ candidate ∈ known, ∀ blue ⊆ known, others candidate ∩ blue = rivals candidate ∩ blue)
    {sets : Finset α × Finset α} (start : sets.1 ⊆ known) :
    Runs.run (colour others k) sets candidates = Runs.run (colour rivals k) sets candidates := by
  induction candidates generalizing sets with
  | nil => rfl
  | cons candidate rest ih =>
    have here := listed candidate List.mem_cons_self
    have step : colour others k sets candidate = colour rivals k sets candidate := by
      unfold colour
      rw [agree candidate here sets.1 start]
    rw [Runs.run, Runs.run, List.foldl_cons, List.foldl_cons, step]
    apply ih fun other member => listed other (List.mem_cons_of_mem candidate member)
    unfold colour
    split
    · exact Finset.insert_subset here start
    · exact start

/-- A step takes no candidate that crowds a blue member. -/
def Spares (rivals : α → Finset α) (k : Nat) (sets : Finset α × Finset α) (candidate : α) : Prop :=
  (rivals candidate ∩ sets.1).card ≤ k → Room rivals k sets.1 candidate

/-- A step does not refuse a candidate that is blue already. -/
def Accepts (rivals : α → Finset α) (k : Nat) (sets : Finset α × Finset α) (candidate : α) : Prop :=
  candidate ∈ sets.1 → (rivals candidate ∩ sets.1).card ≤ k

instance (sets : Finset α × Finset α) (candidate : α) : Decidable (Spares rivals k sets candidate) := by
  unfold Spares
  infer_instance

instance (sets : Finset α × Finset α) (candidate : α) : Decidable (Accepts rivals k sets candidate) := by
  unfold Accepts
  infer_instance

/-- From a cluster, the run ends in a cluster exactly when every step spares the members. -/
theorem run_cluster_iff (foreign : ∀ candidate, candidate ∉ rivals candidate)
    (start : IsCluster rivals k sets.1) (candidates : List α) :
    IsCluster rivals k (Runs.run (colour rivals k) sets candidates).1 ↔
      Runs.Meets (colour rivals k) sets (Spares rivals k) candidates := by
  induction candidates using List.reverseRecOn with
  | nil => exact ⟨fun _ => Runs.meets_nil, fun _ => start⟩
  | append_singleton earlier last ih =>
    have grows := (colour_grows rivals k (Runs.run (colour rivals k) sets earlier) last).1
    rw [Runs.run_snoc, Runs.meets_snoc, ← ih]
    -- a larger set is a cluster only when the smaller one was
    have before : ∀ after : IsCluster rivals k (colour rivals k (Runs.run (colour rivals k) sets earlier) last).1,
        IsCluster rivals k (Runs.run (colour rivals k) sets earlier).1 := fun after => after.subset grows
    refine ⟨fun after => ⟨before after, ?_⟩, fun ⟨cluster, spares⟩ => ?_⟩
    · intro few
      rw [colour_blue few] at after
      exact (IsCluster.insert_iff (before (by rw [colour_blue few]; exact after)) (foreign last)).mp after
    · by_cases few : (rivals last ∩ (Runs.run (colour rivals k) sets earlier).1).card ≤ k
      · rw [colour_blue few]
        exact (cluster.insert_iff (foreign last)).mpr (spares few)
      · rw [colour_red few]
        exact cluster

/-- From disjoint sets, distinct new candidates leave disjoint sets exactly when no step refuses
a candidate that is blue already. -/
theorem run_disjoint_iff (start : Disjoint sets.1 sets.2) (distinct : candidates.Nodup)
    (fresh : ∀ candidate ∈ candidates, candidate ∉ sets.2) :
    Disjoint (Runs.run (colour rivals k) sets candidates).1 (Runs.run (colour rivals k) sets candidates).2 ↔
      Runs.Meets (colour rivals k) sets (Accepts rivals k) candidates := by
  induction candidates using List.reverseRecOn with
  | nil => exact ⟨fun _ => Runs.meets_nil, fun _ => start⟩
  | append_singleton earlier last ih =>
    obtain ⟨distinctEarlier, _, apart⟩ := List.nodup_append.mp distinct
    have once : last ∉ earlier := fun member => apart last member last (List.mem_singleton_self last) rfl
    have ih := ih distinctEarlier fun candidate member => fresh candidate (List.mem_append_left _ member)
    have grows := colour_grows rivals k (Runs.run (colour rivals k) sets earlier) last
    rw [Runs.run_snoc, Runs.meets_snoc, ← ih]
    by_cases few : (rivals last ∩ (Runs.run (colour rivals k) sets earlier).1).card ≤ k
    · rw [colour_blue few, Finset.disjoint_insert_left]
      refine ⟨fun ⟨_, apart⟩ => ⟨apart, fun _ => few⟩, fun ⟨apart, _⟩ => ⟨fun red => ?_, apart⟩⟩
      -- what is red was so at the start or has come before
      rcases Finset.mem_union.mp (run_red_subset rivals k sets earlier red) with old | listed
      · exact fresh last (by simp) old
      · exact once (List.mem_toFinset.mp listed)
    · rw [colour_red few, Finset.disjoint_insert_right]
      exact ⟨fun ⟨free, apart⟩ => ⟨apart, fun blue => absurd blue free⟩,
        fun ⟨apart, accepts⟩ => ⟨fun blue => few (accepts blue), apart⟩⟩

end Greedy
end Klomang.Cluster
