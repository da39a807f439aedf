import Mathlib.Data.Set.Function

/-! Openings of a tree of commitments. An inner node commits to what is read off its children's
roots; an opening goes down one path and shows the roots beside it. The root that it gives for
its bottom is rebuilt from the bottom up: the tree's own openings give the tree's root, and two
openings along one path that give one root have one bottom. -/
namespace Klomang.Openings
variable {Index Scalar Root : Type} {commit : (Index → Scalar) → Root} {read : Root → Scalar}

/-- One level of an opening: the index on the path, and a root for every child. -/
abbrev Level (Index Root : Type) := Index × (Index → Root)

section Trees

/-- Roots for all nodes down to a height, each one committing to its children. -/
def Labelled (commit : (Index → Scalar) → Root) (read : Root → Scalar) (height : Nat)
    (label : List Index → Root) : Prop :=
  ∀ node, node.length < height → label node = commit fun child => read (label (node ++ [child]))

/-- Labels that agree on the leaves agree on every node. -/
theorem Labelled.agree {height : Nat} {label other : List Index → Root}
    (left : Labelled commit read height label) (right : Labelled commit read height other)
    (leaves : ∀ leaf, leaf.length = height → label leaf = other leaf) (node : List Index)
    (within : node.length ≤ height) : label node = other node := by
  generalize remaining : height - node.length = levels
  induction levels generalizing node with
  | zero => exact leaves node (by omega)
  | succ levels ih =>
    rw [left node (by omega), right node (by omega)]
    refine congrArg commit (funext fun child => ?_)
    have width : (node ++ [child]).length = node.length + 1 := by simp
    rw [ih (node ++ [child]) (by omega) (by omega)]

/-- The levels that a tree shows from a node down a path. -/
def opening (label : List Index → Root) : List Index → List Index → List (Level Index Root)
  | _, [] => []
  | node, index :: rest =>
    (index, fun child => label (node ++ [child])) :: opening label (node ++ [index]) rest

@[simp] theorem opening_path (label : List Index → Root) (node path : List Index) :
    (opening label node path).map Prod.fst = path := by
  induction path generalizing node with
  | nil => rfl
  | cons index rest ih => rw [opening, List.map_cons, ih]

theorem length_opening (label : List Index → Root) (node path : List Index) :
    (opening label node path).length = path.length := by
  rw [← List.length_map Prod.fst, opening_path]

end Trees

variable [DecidableEq Index]

/-- What a level commits to when the child on the path has the given root. -/
def vector (read : Root → Scalar) (level : Level Index Root) (below : Root) : Index → Scalar :=
  Function.update (read ∘ level.2) level.1 (read below)

/-- The root that an opening gives for its bottom, the levels from the root down. -/
def rebuild (commit : (Index → Scalar) → Root) (read : Root → Scalar) : List (Level Index Root) → Root → Root
  | [], bottom => bottom
  | level :: deeper, bottom => commit (vector read level (rebuild commit read deeper bottom))

/-- The vectors that are committed to on the way. -/
def vectors (commit : (Index → Scalar) → Root) (read : Root → Scalar) :
    List (Level Index Root) → Root → List (Index → Scalar)
  | [], _ => []
  | level :: deeper, bottom =>
    vector read level (rebuild commit read deeper bottom) :: vectors commit read deeper bottom

theorem rebuild_append (upper lower : List (Level Index Root)) (bottom : Root) :
    rebuild commit read (upper ++ lower) bottom =
      rebuild commit read upper (rebuild commit read lower bottom) := by
  induction upper with
  | nil => rfl
  | cons level upper ih => rw [List.cons_append, rebuild, ih, rebuild]

/-- A tree's own level already holds the child's scalar at the index on the path. -/
theorem vector_opening (label : List Index → Root) (node : List Index) (index : Index) :
    vector read (index, fun child => label (node ++ [child])) (label (node ++ [index])) =
      fun child => read (label (node ++ [child])) :=
  Function.update_eq_self index fun child => read (label (node ++ [child]))

/-- A tree's own opening gives the root of the node that it starts from. -/
theorem rebuild_opening {height : Nat} {label : List Index → Root} (labelled : Labelled commit read height label)
    (node path : List Index) (within : node.length + path.length ≤ height) :
    rebuild commit read (opening label node path) (label (node ++ path)) = label node := by
  induction path generalizing node with
  | nil => rw [opening, rebuild, List.append_nil]
  | cons index rest ih =>
    simp only [List.length_cons] at within
    have below := ih (node ++ [index]) (by rw [List.length_append, List.length_singleton]; omega)
    simp only [List.append_assoc, List.singleton_append] at below
    rw [opening, rebuild, below, vector_opening, labelled node (by omega)]

/-- What a level shows at the index on the path does not matter. -/
theorem vector_congr {index : Index} {first second : Index → Root} {below : Root}
    (beside : ∀ child, child ≠ index → first child = second child) :
    vector read (index, first) below = vector read (index, second) below := by
  funext child
  rw [vector, vector, Function.update_apply, Function.update_apply]
  split
  · rfl
  · rename_i off
    exact congrArg read (beside child off)

/-- Openings that show the same beside the path give the same root. -/
theorem rebuild_opening_congr {label other : List Index → Root} (node path : List Index)
    (beside : ∀ before index after child, path = before ++ index :: after → child ≠ index →
      label (node ++ before ++ [child]) = other (node ++ before ++ [child])) (bottom : Root) :
    rebuild commit read (opening label node path) bottom = rebuild commit read (opening other node path) bottom := by
  induction path generalizing node with
  | nil => rfl
  | cons index rest ih =>
    have below := ih (node ++ [index]) fun before next after child split off => by
      have shown := beside (index :: before) next after child (by rw [split, List.cons_append]) off
      simpa using shown
    rw [opening, opening, rebuild, rebuild, below]
    refine congrArg commit (vector_congr fun child off => ?_)
    simpa using beside [] index rest child rfl off

/-- The vectors of a tree's own opening are those of the nodes on the path. -/
theorem vectors_opening {height : Nat} {label : List Index → Root} (labelled : Labelled commit read height label)
    (node path : List Index) (within : node.length + path.length ≤ height) :
    ∀ vector ∈ vectors commit read (opening label node path) (label (node ++ path)),
      ∃ inner, inner <+: node ++ path ∧ inner.length < height ∧
        vector = fun child => read (label (inner ++ [child])) := by
  induction path generalizing node with
  | nil => exact fun _ member => nomatch member
  | cons index rest ih =>
    simp only [List.length_cons] at within
    have shorter : (node ++ [index]).length + rest.length ≤ height := by
      rw [List.length_append, List.length_singleton]
      omega
    have below := rebuild_opening labelled (node ++ [index]) rest shorter
    have deeper := ih (node ++ [index]) shorter
    simp only [List.append_assoc, List.singleton_append] at below deeper
    intro vector member
    simp only [opening, vectors, below, vector_opening, List.mem_cons] at member
    rcases member with rfl | member
    · exact ⟨node, List.prefix_append _ _, by omega, rfl⟩
    · exact deeper vector member

/-- Two openings along one path that give roots of one scalar have bottoms of one scalar, when no
two of the vectors they commit to collide. -/
theorem bottom_bound {first second : List (Level Index Root)} {left right : Root}
    (path : first.map Prod.fst = second.map Prod.fst)
    (free : Set.InjOn (read ∘ commit)
      {vector | vector ∈ vectors commit read first left ∨ vector ∈ vectors commit read second right})
    (same : read (rebuild commit read first left) = read (rebuild commit read second right)) :
    read left = read right := by
  induction first generalizing second with
  | nil =>
    have empty : second = [] := List.map_eq_nil_iff.mp path.symm
    subst empty
    exact same
  | cons level deeper ih =>
    cases second with
    | nil => cases path
    | cons other below =>
      obtain ⟨index, rest⟩ := List.cons.inj path
      have agree : vector read level (rebuild commit read deeper left) =
          vector read other (rebuild commit read below right) :=
        free (.inl List.mem_cons_self) (.inr List.mem_cons_self) same
      refine ih rest (free.mono fun vector member => ?_) ?_
      · exact member.imp (List.mem_cons_of_mem _) (List.mem_cons_of_mem _)
      · -- both vectors hold the lower root's scalar at the index on the path
        have entry := congrFun agree level.1
        simp only [vector, vector, Function.update_self, index, Function.update_self] at entry
        exact entry

end Klomang.Openings
