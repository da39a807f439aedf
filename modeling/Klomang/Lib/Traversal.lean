import Mathlib.Logic.Relation
import Mathlib.Data.Finset.Card
import Mathlib.Algebra.BigOperators.Group.Finset.Basic
import Mathlib.Algebra.Order.BigOperators.Group.Finset

/-! Worklist traversals of a finite graph. One marks a node when it is popped
and collects every successor it sees; the other marks a node when it is pushed
and collects it then. Both are bounded by a fuel that the number of edges
covers, and both collect exactly what the edges reach. -/
namespace Klomang.Traversal
variable {α : Type} [DecidableEq α]

/-- One step of the graph a successor function draws. -/
def Edge (next : α → List α) (source target : α) : Prop := target ∈ next source

/-- Nodes are marked when popped, so the stack may hold a node many times. -/
def markOnPop (next : α → List α) : Nat → List α → Finset α → Finset α → Finset α
  | 0, _, _, found => found
  | _ + 1, [], _, found => found
  | fuel + 1, current :: stack, visited, found =>
    if current ∈ visited then markOnPop next fuel stack visited found
    else markOnPop next fuel ((next current).reverse ++ stack) (insert current visited)
      (found ∪ (next current).toFinset)

/-- Nodes are marked when popped, and the run stops at the first successor that is looked for. -/
def searchOnPop (next : α → List α) (target : α) : Nat → List α → Finset α → Bool
  | 0, _, _ => false
  | _ + 1, [], _ => false
  | fuel + 1, current :: stack, visited =>
    if current ∈ visited then searchOnPop next target fuel stack visited
    else if target ∈ next current then true
    else searchOnPop next target fuel ((next current).reverse ++ stack) (insert current visited)

/-- The successors not yet marked, each once and in order. -/
def fresh : Finset α → List α → List α
  | _, [] => []
  | visited, node :: rest =>
    if node ∈ visited then fresh visited rest else node :: fresh (insert node visited) rest

/-- Nodes are marked when pushed, so each enters the stack at most once. -/
def markOnPush (next : α → List α) : Nat → List α → Finset α → List α → List α
  | 0, _, _, found => found
  | _ + 1, [], _, found => found
  | fuel + 1, current :: stack, visited, found =>
    let pushed := fresh visited (next current)
    markOnPush next fuel (pushed.reverse ++ stack) (visited ∪ pushed.toFinset) (found ++ pushed)

variable {next : α → List α} {start node : α} {stack : List α} {visited collected : Finset α}
  {found : List α} {fuel : Nat}

/-! ## Marking on pop -/

/-- What a run that marks on pop keeps: the collected set is the successors of
the marked nodes, and every successor is marked or waiting. -/
structure PopState (next : α → List α) (start : α) (stack : List α) (visited collected : Finset α) :
    Prop where
  collects : ∀ node, node ∈ collected ↔ ∃ source ∈ visited, node ∈ next source
  reached : ∀ node, node ∈ visited ∨ node ∈ stack → Relation.ReflTransGen (Edge next) start node
  closed : ∀ source ∈ visited, ∀ node ∈ next source, node ∈ visited ∨ node ∈ stack
  begun : start ∈ visited ∨ start ∈ stack

omit [DecidableEq α] in
theorem pop_state_initial : PopState next start [start] ∅ ∅ where
  collects := by simp
  reached := by
    intro node member
    have same : node = start := by simpa using member
    exact same ▸ .refl
  closed := by simp
  begun := by simp

omit [DecidableEq α] in
theorem pop_state_skip (state : PopState next start (node :: stack) visited collected)
    (marked : node ∈ visited) : PopState next start stack visited collected where
  collects := state.collects
  reached := fun other member => state.reached other (member.imp_right (List.mem_cons_of_mem _))
  closed := by
    intro source sourceMarked other edge
    rcases state.closed source sourceMarked other edge with done | waiting
    · exact .inl done
    · rcases List.mem_cons.mp waiting with rfl | waiting
      · exact .inl marked
      · exact .inr waiting
  begun := by
    rcases state.begun with done | waiting
    · exact .inl done
    · rcases List.mem_cons.mp waiting with rfl | waiting
      · exact .inl marked
      · exact .inr waiting

theorem pop_state_expand (state : PopState next start (node :: stack) visited collected) :
    PopState next start ((next node).reverse ++ stack) (insert node visited)
      (collected ∪ (next node).toFinset) where
  collects := by
    intro other
    simp only [Finset.mem_union, List.mem_toFinset, state.collects, Finset.mem_insert]
    constructor
    · rintro (⟨source, marked, edge⟩ | edge)
      · exact ⟨source, .inr marked, edge⟩
      · exact ⟨node, .inl rfl, edge⟩
    · rintro ⟨source, rfl | marked, edge⟩
      · exact .inr edge
      · exact .inl ⟨source, marked, edge⟩
  reached := by
    have here := state.reached node (.inr List.mem_cons_self)
    intro other member
    simp only [Finset.mem_insert, List.mem_append, List.mem_reverse] at member
    rcases member with (rfl | marked) | edge | waiting
    · exact here
    · exact state.reached other (.inl marked)
    · exact here.tail edge
    · exact state.reached other (.inr (List.mem_cons_of_mem _ waiting))
  closed := by
    intro source marked other edge
    simp only [Finset.mem_insert, List.mem_append, List.mem_reverse] at marked ⊢
    rcases marked with rfl | marked
    · exact .inr (.inl edge)
    · rcases state.closed source marked other edge with done | waiting
      · exact .inl (.inr done)
      · rcases List.mem_cons.mp waiting with rfl | waiting
        · exact .inl (.inl rfl)
        · exact .inr (.inr waiting)
  begun := by
    simp only [Finset.mem_insert, List.mem_append]
    rcases state.begun with done | waiting
    · exact .inl (.inr done)
    · rcases List.mem_cons.mp waiting with rfl | waiting
      · exact .inl (.inl rfl)
      · exact .inr (.inr waiting)

omit [DecidableEq α] in
/-- With nothing waiting, the collected nodes are those one or more edges away. -/
theorem pop_state_finished (state : PopState next start [] visited collected) :
    node ∈ collected ↔ Relation.TransGen (Edge next) start node := by
  have marked : ∀ other, Relation.ReflTransGen (Edge next) start other → other ∈ visited := by
    intro other path
    induction path with
    | refl => simpa using state.begun
    | tail _ edge ih => simpa using state.closed _ ih _ edge
  rw [state.collects]
  constructor
  · rintro ⟨source, done, edge⟩
    exact Relation.TransGen.tail' (state.reached source (.inl done)) edge
  · intro path
    obtain ⟨source, path, edge⟩ := Relation.TransGen.tail'_iff.mp path
    exact ⟨source, marked source path, edge⟩

/-- The edges still to be read and the nodes still waiting bound the pops left. -/
theorem mem_mark_on_pop_of_state {domain : Finset α} (outside : ∀ node ∉ domain, next node = [])
    (state : PopState next start stack visited collected)
    (enough : stack.length + ∑ node ∈ domain \ visited, (next node).length ≤ fuel) :
    node ∈ markOnPop next fuel stack visited collected ↔ Relation.TransGen (Edge next) start node := by
  induction fuel generalizing stack visited collected with
  | zero =>
    have empty : stack = [] := List.eq_nil_of_length_eq_zero (by omega)
    subst empty
    exact pop_state_finished state
  | succ fuel ih =>
    cases stack with
    | nil => exact pop_state_finished state
    | cons current stack =>
      rw [List.length_cons] at enough
      simp only [markOnPop]
      split
      · rename_i marked
        exact ih (pop_state_skip state marked) (by omega)
      · rename_i unmarked
        refine ih (pop_state_expand state) ?_
        have split : domain \ insert current visited = (domain \ visited).erase current := by
          ext other
          simp only [Finset.mem_sdiff, Finset.mem_insert, Finset.mem_erase]
          tauto
        rw [List.length_append, List.length_reverse, split]
        by_cases inside : current ∈ domain
        · have removed := Finset.sum_erase_add (domain \ visited) (fun node => (next node).length)
            (Finset.mem_sdiff.mpr ⟨inside, unmarked⟩)
          omega
        · have silent : (next current).length = 0 := by simp [outside current inside]
          rw [Finset.erase_eq_of_notMem fun member => inside (Finset.mem_sdiff.mp member).1]
          omega

/-- A traversal that marks on pop collects what one or more edges reach. -/
theorem mem_mark_on_pop {domain : Finset α} (outside : ∀ node ∉ domain, next node = [])
    (enough : 1 + ∑ node ∈ domain, (next node).length ≤ fuel) :
    node ∈ markOnPop next fuel [start] ∅ ∅ ↔ Relation.TransGen (Edge next) start node :=
  mem_mark_on_pop_of_state outside pop_state_initial (by simpa using enough)

theorem mark_on_pop_grows (next : α → List α) (fuel : Nat) (stack : List α) (visited : Finset α) :
    collected ⊆ markOnPop next fuel stack visited collected := by
  induction fuel generalizing stack visited collected with
  | zero => exact subset_rfl
  | succ fuel ih =>
    cases stack with
    | nil => exact subset_rfl
    | cons current stack =>
      simp only [markOnPop]
      split
      · exact ih stack visited
      · exact Finset.subset_union_left.trans (ih _ _)

/-- A search collects nothing, but finds its target where a traversal would collect it. -/
theorem search_on_pop_iff {target : α} (absent : target ∉ collected) (fuel : Nat) (stack : List α)
    (visited : Finset α) :
    searchOnPop next target fuel stack visited = true ↔ target ∈ markOnPop next fuel stack visited collected := by
  induction fuel generalizing stack visited collected with
  | zero => simp [searchOnPop, markOnPop, absent]
  | succ fuel ih =>
    cases stack with
    | nil => simp [searchOnPop, markOnPop, absent]
    | cons current stack =>
      simp only [searchOnPop, markOnPop]
      split
      · exact ih absent stack visited
      · split
        · rename_i found
          have here : target ∈ collected ∪ (next current).toFinset :=
            Finset.mem_union_right _ (List.mem_toFinset.mpr found)
          simp only [true_iff]
          exact mark_on_pop_grows _ _ _ _ here
        · rename_i missed
          apply ih
          rw [Finset.mem_union, List.mem_toFinset, not_or]
          exact ⟨absent, missed⟩

/-- A search finds what one or more edges reach. -/
theorem search_on_pop {target : α} {domain : Finset α} (outside : ∀ node ∉ domain, next node = [])
    (enough : 1 + ∑ node ∈ domain, (next node).length ≤ fuel) :
    searchOnPop next target fuel [start] ∅ = true ↔ Relation.TransGen (Edge next) start target := by
  rw [search_on_pop_iff (Finset.notMem_empty target), mem_mark_on_pop outside enough]

/-! ## Marking on push -/

theorem mem_fresh {nodes : List α} : node ∈ fresh visited nodes ↔ node ∈ nodes ∧ node ∉ visited := by
  induction nodes generalizing visited with
  | nil => simp [fresh]
  | cons head rest ih =>
    by_cases marked : head ∈ visited
    · simp only [fresh, marked, ↓reduceIte, ih, List.mem_cons]
      constructor
      · exact fun ⟨member, unmarked⟩ => ⟨.inr member, unmarked⟩
      · rintro ⟨rfl | member, unmarked⟩
        · exact absurd marked unmarked
        · exact ⟨member, unmarked⟩
    · simp only [fresh, marked, ↓reduceIte, List.mem_cons, ih, Finset.mem_insert, not_or]
      by_cases same : node = head
      · simp [same, marked]
      · simp [same]

theorem fresh_nodup (visited : Finset α) (nodes : List α) : (fresh visited nodes).Nodup := by
  induction nodes generalizing visited with
  | nil => simp [fresh]
  | cons head rest ih =>
    by_cases marked : head ∈ visited
    · simpa only [fresh, marked, ↓reduceIte] using ih visited
    · simp only [fresh, marked, ↓reduceIte, List.nodup_cons]
      exact ⟨fun member => (mem_fresh.mp member).2 (Finset.mem_insert_self _ _), ih _⟩

/-- What a run that marks on push keeps: the marked nodes are the start and the
collected ones, and every marked node is waiting or has its successors marked. -/
structure PushState (next : α → List α) (start : α) (stack : List α) (visited : Finset α)
    (found : List α) : Prop where
  marks : ∀ node, node ∈ visited ↔ node = start ∨ node ∈ found
  nodup : (start :: found).Nodup
  reached : ∀ node ∈ visited, Relation.ReflTransGen (Edge next) start node
  waiting : ∀ node ∈ stack, node ∈ visited
  closed : ∀ source ∈ visited, source ∈ stack ∨ ∀ node ∈ next source, node ∈ visited

omit [DecidableEq α] in
theorem push_state_initial : PushState next start [start] {start} [] where
  marks := by simp
  nodup := by simp
  reached := by
    intro node member
    exact Finset.mem_singleton.mp member ▸ .refl
  waiting := by simp
  closed := by simp

theorem push_state_step (state : PushState next start (node :: stack) visited found) :
    PushState next start ((fresh visited (next node)).reverse ++ stack)
      (visited ∪ (fresh visited (next node)).toFinset) (found ++ fresh visited (next node)) where
  marks := by
    intro other
    simp only [Finset.mem_union, List.mem_toFinset, List.mem_append, state.marks, or_assoc]
  nodup := by
    rw [← List.cons_append, List.nodup_append]
    refine ⟨state.nodup, fresh_nodup _ _, ?_⟩
    intro old oldMember new newMember same
    have marked : old ∈ visited := (state.marks old).mpr (by simpa using oldMember)
    exact (mem_fresh.mp newMember).2 (same ▸ marked)
  reached := by
    intro other member
    rcases Finset.mem_union.mp member with marked | pushed
    · exact state.reached other marked
    · have edge := (mem_fresh.mp (List.mem_toFinset.mp pushed)).1
      exact (state.reached node (state.waiting node List.mem_cons_self)).tail edge
  waiting := by
    intro other member
    rcases List.mem_append.mp member with pushed | old
    · exact Finset.mem_union_right _ (List.mem_toFinset.mpr (List.mem_reverse.mp pushed))
    · exact Finset.mem_union_left _ (state.waiting other (List.mem_cons_of_mem _ old))
  closed := by
    have expanded : ∀ other ∈ next node, other ∈ visited ∪ (fresh visited (next node)).toFinset := by
      intro other edge
      by_cases marked : other ∈ visited
      · exact Finset.mem_union_left _ marked
      · exact Finset.mem_union_right _ (List.mem_toFinset.mpr (mem_fresh.mpr ⟨edge, marked⟩))
    intro source member
    rcases Finset.mem_union.mp member with marked | pushed
    · rcases state.closed source marked with waits | done
      · rcases List.mem_cons.mp waits with rfl | waits
        · exact .inr expanded
        · exact .inl (List.mem_append_right _ waits)
      · exact .inr fun other edge => Finset.mem_union_left _ (done other edge)
    · exact .inl (List.mem_append_left _ (List.mem_reverse.mpr (List.mem_toFinset.mp pushed)))

omit [DecidableEq α] in
/-- With nothing waiting, the collected nodes are the other nodes reached. -/
theorem push_state_finished (state : PushState next start [] visited found) :
    found.Nodup ∧ ∀ node, node ∈ found ↔ node ≠ start ∧ Relation.ReflTransGen (Edge next) start node := by
  have marked : ∀ other, Relation.ReflTransGen (Edge next) start other → other ∈ visited := by
    intro other path
    induction path with
    | refl => exact (state.marks start).mpr (.inl rfl)
    | tail _ edge ih => exact (state.closed _ ih).resolve_left (by simp) _ edge
  obtain ⟨absent, nodup⟩ := List.nodup_cons.mp state.nodup
  refine ⟨nodup, fun node => ⟨fun member => ⟨?_, ?_⟩, fun ⟨different, path⟩ => ?_⟩⟩
  · exact fun same => absent (same ▸ member)
  · exact state.reached node ((state.marks node).mpr (.inr member))
  · exact ((state.marks node).mp (marked node path)).resolve_left different

theorem mark_on_push_of_state {targets : Finset α} (within : ∀ source, ∀ node ∈ next source, node ∈ targets)
    (state : PushState next start stack visited found)
    (enough : stack.length + (targets \ visited).card ≤ fuel) :
    (markOnPush next fuel stack visited found).Nodup ∧ ∀ node,
      node ∈ markOnPush next fuel stack visited found ↔
        node ≠ start ∧ Relation.ReflTransGen (Edge next) start node := by
  induction fuel generalizing stack visited found with
  | zero =>
    have empty : stack = [] := List.eq_nil_of_length_eq_zero (by omega)
    subst empty
    exact push_state_finished state
  | succ fuel ih =>
    cases stack with
    | nil => exact push_state_finished state
    | cons current stack =>
      rw [List.length_cons] at enough
      refine ih (push_state_step state) ?_
      -- every node pushed here leaves the unmarked targets for good
      have moved : (fresh visited (next current)).toFinset ⊆ targets \ visited := by
        intro other pushed
        obtain ⟨edge, unmarked⟩ := mem_fresh.mp (List.mem_toFinset.mp pushed)
        exact Finset.mem_sdiff.mpr ⟨within current other edge, unmarked⟩
      have count := Finset.card_sdiff_add_card_eq_card moved
      rw [List.toFinset_card_of_nodup (fresh_nodup _ _)] at count
      have left : targets \ (visited ∪ (fresh visited (next current)).toFinset) =
          (targets \ visited) \ (fresh visited (next current)).toFinset := by
        ext other
        simp only [Finset.mem_sdiff, Finset.mem_union]
        tauto
      rw [List.length_append, List.length_reverse, left]
      omega

/-- A traversal that marks on push collects, once each, the other nodes the
edges reach. -/
theorem mem_mark_on_push {targets : Finset α} (within : ∀ source, ∀ node ∈ next source, node ∈ targets)
    (enough : 1 + targets.card ≤ fuel) :
    (markOnPush next fuel [start] {start} []).Nodup ∧ ∀ node,
      node ∈ markOnPush next fuel [start] {start} [] ↔
        node ≠ start ∧ Relation.ReflTransGen (Edge next) start node := by
  have fewer := Finset.card_le_card (Finset.sdiff_subset (s := targets) (t := {start}))
  exact mark_on_push_of_state within push_state_initial (by
    rw [List.length_singleton]
    omega)

end Klomang.Traversal
