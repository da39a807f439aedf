import Mathlib.Data.List.Induction

/-! Runs of a step function over a list of inputs: what every step keeps holds
in every state reached, and a property that each step keeps exactly under a
condition holds throughout exactly when every step met the condition. -/
namespace Klomang.Runs
variable {State Input : Type} {step : State → Input → State} {start : State} {inputs : List Input}

/-- The state reached by taking the inputs in order. -/
def run (step : State → Input → State) (start : State) (inputs : List Input) : State :=
  inputs.foldl step start

@[simp] theorem run_nil : run step start [] = start := rfl

@[simp] theorem run_snoc (input : Input) :
    run step start (inputs ++ [input]) = step (run step start inputs) input := by
  simp [run]

theorem run_append (first second : List Input) :
    run step start (first ++ second) = run step (run step start first) second := by
  simp [run]

/-- What the steps of a run emit, in order. -/
def gather {Emitted : Type} (step : State → Input → State) (emit : State → Input → List Emitted) :
    State → List Input → List Emitted
  | _, [] => []
  | state, input :: rest => emit state input ++ gather step emit (step state input) rest

theorem gather_snoc {Emitted : Type} (emit : State → Input → List Emitted) (inputs : List Input) (input : Input) :
    gather step emit start (inputs ++ [input]) =
      gather step emit start inputs ++ emit (run step start inputs) input := by
  induction inputs generalizing start with
  | nil => exact List.append_nil _
  | cons first rest ih =>
    rw [List.cons_append, gather, gather, ih, List.append_assoc]
    rfl

variable {Kept Holds : State → Prop} {allowed : Input → Prop} {condition : State → Input → Prop}

/-- An invariant of the allowed inputs holds after every run of them. -/
theorem run_invariant (Kept : State → Prop) (allowed : Input → Prop) (initial : Kept start)
    (keeps : ∀ state input, allowed input → Kept state → Kept (step state input))
    (inputs : List Input) (admitted : ∀ input ∈ inputs, allowed input) :
    Kept (run step start inputs) := by
  induction inputs using List.reverseRecOn with
  | nil => exact initial
  | append_singleton inputs input ih =>
    rw [run_snoc]
    refine keeps _ input (admitted input (by simp)) (ih fun other member => ?_)
    exact admitted other (List.mem_append_left _ member)

/-- What every step keeps holds after every run. -/
theorem run_keeps (Kept : State → Prop) (initial : Kept start)
    (keeps : ∀ state input, Kept state → Kept (step state input)) (inputs : List Input) :
    Kept (run step start inputs) :=
  run_invariant Kept (fun _ => True) initial (fun state input _ => keeps state input) inputs
    fun _ _ => trivial

/-- Every step of the run meets the condition in the state it starts from. -/
def Meets (step : State → Input → State) (start : State) (condition : State → Input → Prop)
    (inputs : List Input) : Prop :=
  ∀ before input, before ++ [input] <+: inputs → condition (run step start before) input

/-- The property holds in every state the run reaches. -/
def Always (step : State → Input → State) (start : State) (Holds : State → Prop)
    (inputs : List Input) : Prop :=
  ∀ before, before <+: inputs → Holds (run step start before)

theorem meets_nil : Meets step start condition [] := by
  intro before input partly
  simp at partly

/-- A run meets the condition when it did up to its last step, and the last step does. -/
theorem meets_snoc (inputs : List Input) (input : Input) :
    Meets step start condition (inputs ++ [input]) ↔
      Meets step start condition inputs ∧ condition (run step start inputs) input := by
  constructor
  · intro meets
    refine ⟨fun before earlier partly => ?_, meets inputs input (List.prefix_refl _)⟩
    exact meets before earlier (partly.trans (List.prefix_append inputs [input]))
  · rintro ⟨meets, last⟩ before other partly
    rcases List.prefix_concat_iff.mp partly with same | earlier
    · obtain ⟨rfl, single⟩ := List.append_inj' same rfl
      cases single
      exact last
    · exact meets before other earlier

/-- A run meets the condition when its first step does, and the rest from where that leads. -/
theorem meets_cons (input : Input) (rest : List Input) :
    Meets step start condition (input :: rest) ↔
      condition start input ∧ Meets step (step start input) condition rest := by
  constructor
  · intro meets
    refine ⟨meets [] input ⟨rest, rfl⟩, fun before later partly => ?_⟩
    exact meets (input :: before) later ((List.prefix_cons_inj input).mpr partly)
  · rintro ⟨first, later⟩ before last partly
    cases before with
    | nil =>
      obtain ⟨same, _⟩ := List.cons_prefix_cons.mp partly
      exact same ▸ first
    | cons other earlier =>
      obtain ⟨rfl, further⟩ := List.cons_prefix_cons.mp partly
      exact later earlier last further

instance decidableMeets [∀ state input, Decidable (condition state input)] :
    (start : State) → (inputs : List Input) → Decidable (Meets step start condition inputs)
  | _, [] => isTrue meets_nil
  | start, input :: rest =>
    have := decidableMeets (step start input) rest
    decidable_of_iff _ (meets_cons input rest).symm

theorem always_nil : Always step start Holds [] ↔ Holds start := by
  constructor
  · exact fun always => always [] (List.prefix_refl [])
  · intro holds before partly
    rw [List.prefix_nil.mp partly]
    exact holds

/-- A property holds along a run when it holds at its start and along the rest. -/
theorem always_cons (input : Input) (rest : List Input) :
    Always step start Holds (input :: rest) ↔ Holds start ∧ Always step (step start input) Holds rest := by
  constructor
  · intro always
    refine ⟨always [] List.nil_prefix, fun before partly => ?_⟩
    exact always (input :: before) ((List.prefix_cons_inj input).mpr partly)
  · rintro ⟨first, later⟩ before partly
    cases before with
    | nil => exact first
    | cons other earlier =>
      obtain ⟨rfl, further⟩ := List.cons_prefix_cons.mp partly
      exact later earlier further

instance decidableAlways [∀ state, Decidable (Holds state)] :
    (start : State) → (inputs : List Input) → Decidable (Always step start Holds inputs)
  | _, [] => decidable_of_iff _ always_nil.symm
  | start, input :: rest =>
    have := decidableAlways (step start input) rest
    decidable_of_iff _ (always_cons input rest).symm

theorem prefix_admitted {before : List Input} (partly : before <+: inputs)
    (admitted : ∀ input ∈ inputs, allowed input) : ∀ input ∈ before, allowed input :=
  fun input member => admitted input (partly.subset member)

/-- When one step keeps the property under the condition, the property holds in every state of
a run whose steps all meet the condition. -/
theorem always_of_meets (Kept Holds : State → Prop) (keptInitially : Kept start) (initial : Holds start)
    (keeps : ∀ state input, allowed input → Kept state → Kept (step state input))
    (holds : ∀ state input, allowed input → Kept state → Holds state → condition state input →
      Holds (step state input))
    (inputs : List Input) (admitted : ∀ input ∈ inputs, allowed input)
    (meets : Meets step start condition inputs) : Always step start Holds inputs := by
  intro before partly
  induction before using List.reverseRecOn with
  | nil => exact initial
  | append_singleton before input ih =>
    have earlier : before <+: inputs := (List.prefix_append before [input]).trans partly
    have kept := run_invariant Kept allowed keptInitially keeps before (prefix_admitted earlier admitted)
    rw [run_snoc]
    apply holds _ input (prefix_admitted partly admitted input (by simp)) kept (ih earlier)
    exact meets before input partly

/-- When one step keeps the property exactly under the condition, the property
holds in every state reached exactly when every step meets the condition. -/
theorem always_iff_meets (Kept Holds : State → Prop) (keptInitially : Kept start) (initial : Holds start)
    (keeps : ∀ state input, allowed input → Kept state → Kept (step state input))
    (exact : ∀ state input, allowed input → Kept state → Holds state →
      (Holds (step state input) ↔ condition state input))
    (inputs : List Input) (admitted : ∀ input ∈ inputs, allowed input) :
    Always step start Holds inputs ↔ Meets step start condition inputs := by
  constructor
  · intro always before input partly
    have earlier : before <+: inputs := (List.prefix_append before [input]).trans partly
    have permitted := prefix_admitted partly admitted input (by simp)
    have kept := run_invariant Kept allowed keptInitially keeps before (prefix_admitted earlier admitted)
    apply (exact _ input permitted kept (always before earlier)).mp
    simpa only [run_snoc] using always (before ++ [input]) partly
  · intro meets
    apply always_of_meets Kept Holds keptInitially initial keeps ?_ inputs admitted meets
    intro state input permitted kept holds condition
    exact (exact state input permitted kept holds).mpr condition

/-- When an invariant gives the property, the condition keeps the invariant, and the property
after a step needs the condition, the property holds in every state reached exactly when every
step meets the condition. -/
theorem always_iff_meets_of_needed (Kept Holds : State → Prop) (keptInitially : Kept start)
    (gives : ∀ state, Kept state → Holds state)
    (keeps : ∀ state input, allowed input → Kept state → condition state input → Kept (step state input))
    (needs : ∀ state input, allowed input → Kept state → Holds (step state input) → condition state input)
    (inputs : List Input) (admitted : ∀ input ∈ inputs, allowed input) :
    Always step start Holds inputs ↔ Meets step start condition inputs := by
  have kept : ∀ before, Meets step start condition before → (∀ input ∈ before, allowed input) →
      Kept (run step start before) := by
    intro before
    induction before using List.reverseRecOn with
    | nil => exact fun _ _ => keptInitially
    | append_singleton before input ih =>
      intro meets permitted
      obtain ⟨earlier, last⟩ := (meets_snoc before input).mp meets
      rw [run_snoc]
      apply keeps _ input (permitted input (by simp)) ?_ last
      exact ih earlier fun other member => permitted other (List.mem_append_left _ member)
  constructor
  · intro always
    induction inputs using List.reverseRecOn with
    | nil => exact meets_nil
    | append_singleton before input ih =>
      have earlier := prefix_admitted (List.prefix_append before [input]) admitted
      have met := ih earlier fun other partly => always other (partly.trans (List.prefix_append before [input]))
      refine (meets_snoc before input).mpr ⟨met, needs _ input (admitted input (by simp)) (kept before met earlier) ?_⟩
      simpa only [run_snoc] using always (before ++ [input]) List.prefix_rfl
  · intro meets before partly
    apply gives _ (kept before ?_ (prefix_admitted partly admitted))
    exact fun other input further => meets other input (further.trans partly)

end Klomang.Runs
