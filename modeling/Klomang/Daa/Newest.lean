import Klomang.Consensus.Delivery
import Klomang.Daa.Difficulty

/-! What the next difficulty reads of a graph: the newest blocks, as many as the window holds, and of these the timestamps
and the difficulty of the last. A chain of blocks that follow the adjustment stays within bounds, and with a target of one
second it never gets harder. -/
namespace Klomang.Daa
open Rounding GhostDag
variable {daa : Daa} {dag other : Dag} {observed : Observed} {timestamp now later : UInt64}

section Timelines

/-- Older: of an earlier timestamp, or of the same one and with the lower hash. -/
def Older (left right : Observed) : Prop := left.2.1 ≤ right.2.1 ∧ (right.2.1 ≤ left.2.1 → left.1 < right.1)

theorem older_asymm {left right : Observed} (older : Older left right) : ¬ Older right left :=
  fun back => lt_asymm (older.2 back.1) (back.2 older.1)

theorem observe_hash {hash : Hash} (found : observe dag hash = some observed) : observed.1 = hash := by
  obtain ⟨block, _, rfl⟩ := Option.map_eq_some_iff.mp found
  rfl

theorem mem_timeline : observed ∈ timeline dag ↔ observe dag observed.1 = some observed := by
  rw [timeline, List.mem_insertionSort, List.mem_filterMap]
  constructor
  · rintro ⟨hash, _, found⟩
    rwa [observe_hash found]
  · intro found
    obtain ⟨block, stored, _⟩ := Option.map_eq_some_iff.mp found
    exact ⟨observed.1, Dag.mem_get_all_hashes.mpr (Dag.get_block_isSome.mp ⟨block, stored⟩), found⟩

/-- The stable sort orders the blocks by timestamp and then by hash. -/
theorem timeline_sorted (dag : Dag) : (timeline dag).Pairwise Older := by
  have hashes : dag.getAllHashes.Pairwise (· < ·) :=
    ((ascending_pairwise _).and (ascending_nodup _)).imp fun both => lt_of_le_of_ne both.1 both.2
  have listed : (dag.getAllHashes.filterMap (observe dag)).Pairwise fun left right => left.1 < right.1 := by
    refine hashes.filterMap _ fun left right below first found second there => ?_
    rwa [observe_hash found, observe_hash there]
  have total : Std.Total fun left right : Observed => left.2.1 ≤ right.2.1 := ⟨fun left right => UInt64.le_total left.2.1 right.2.1⟩
  have trans : IsTrans Observed fun left right => left.2.1 ≤ right.2.1 := ⟨fun _ _ _ => UInt64.le_trans⟩
  exact insertion_sort_stable listed

/-- The blocks that are newer than a timestamp, from the oldest to the newest. -/
def newer (dag : Dag) (timestamp : UInt64) : List Observed := (timeline dag).filter fun block => timestamp < block.2.1

/-- Two graphs hold the same blocks after a timestamp, as far as the adjustment reads them. -/
def SameNewer (dag other : Dag) (timestamp : UInt64) : Prop :=
  ∀ observed : Observed, timestamp < observed.2.1 →
    (observe dag observed.1 = some observed ↔ observe other observed.1 = some observed)

theorem mem_newer : observed ∈ newer dag timestamp ↔ observe dag observed.1 = some observed ∧ timestamp < observed.2.1 := by
  rw [newer, List.mem_filter, mem_timeline, decide_eq_true_eq]

theorem same_newer_iff : SameNewer dag other timestamp ↔ newer dag timestamp = newer other timestamp := by
  refine ⟨fun same => ?_, fun equal observed late => ?_⟩
  · have sorted : ∀ graph, (newer graph timestamp).Pairwise Older := fun graph => (timeline_sorted graph).filter _
    have distinct : ∀ graph, (newer graph timestamp).Nodup := by
      intro graph
      refine (sorted graph).imp ?_
      rintro left _ older rfl
      exact older_asymm older older
    refine List.Perm.eq_of_pairwise (fun _ _ _ _ older back => absurd back (older_asymm older)) (sorted dag) (sorted other) ?_
    refine (List.perm_ext_iff_of_nodup (distinct dag) (distinct other)).mpr fun observed => ?_
    rw [mem_newer, mem_newer]
    exact and_congr_left fun late => same observed late
  · have member : observed ∈ newer dag timestamp ↔ observed ∈ newer other timestamp := by rw [equal]
    rw [mem_newer, mem_newer] at member
    exact ⟨fun here => (member.mp ⟨here, late⟩).1, fun there => (member.mpr ⟨there, late⟩).1⟩

/-- The newer blocks come last. -/
theorem timeline_split (dag : Dag) (timestamp : UInt64) :
    timeline dag = (timeline dag).filter (fun block => block.2.1 ≤ timestamp) ++ newer dag timestamp := by
  have sorted := timeline_sorted dag
  rw [newer]
  generalize timeline dag = blocks at sorted
  induction blocks with
  | nil => rfl
  | cons first rest ih =>
    obtain ⟨least, others⟩ := List.pairwise_cons.mp sorted
    by_cases late : timestamp < first.2.1
    · have early : rest.filter (fun block => block.2.1 ≤ timestamp) = [] :=
        List.filter_eq_nil_iff.mpr fun block listed before =>
          UInt64.not_lt.mpr (of_decide_eq_true before) (UInt64.lt_of_lt_of_le late (least block listed).1)
      have all : rest.filter (fun block => timestamp < block.2.1) = rest :=
        List.filter_eq_self.mpr fun block listed =>
          decide_eq_true (UInt64.lt_of_lt_of_le late (least block listed).1)
      rw [List.filter_cons_of_neg (by simpa using late), early, List.filter_cons_of_pos (by simpa using late), all,
        List.nil_append]
    · rw [List.filter_cons_of_pos (by simpa using late), List.filter_cons_of_neg (by simpa using late), List.cons_append,
        ← ih others]

/-- A window that the newer blocks fill is a window of them. -/
theorem window_of_newer (filled : daa.windowSize ≤ (newer dag timestamp).length) :
    daa.window (timeline dag) = daa.window (newer dag timestamp) := by
  conv_lhs => rw [timeline_split dag timestamp]
  rw [window, window, List.length_append, List.drop_append, Nat.add_sub_assoc filled, List.drop_eq_nil_of_le (by omega),
    Nat.add_sub_cancel_left, List.nil_append]

/-- With a window of one block at least the answer is a function of the window. -/
theorem calculate_of_window (some : 1 ≤ daa.windowSize) (same : daa.window (timeline dag) = daa.window (timeline other)) :
    daa.calculateNextDifficulty dag now = daa.calculateNextDifficulty other later := by
  have answers : ∀ graph time, daa.calculateNextDifficulty graph time =
      if (daa.window (timeline graph)).length < 2 then newestDifficulty (daa.window (timeline graph))
      else adjusted daa.targetTime (newestDifficulty (daa.window (timeline graph)))
        (totalInterval (daa.window (timeline graph))) ((daa.window (timeline graph)).length - 1) := by
    intro graph time
    have within : (daa.window (timeline graph)).length ≤ (timeline graph).length := by
      rw [window, List.length_drop]
      omega
    rw [calculate_eq]
    split
    · rename_i few
      rw [if_pos (within.trans_lt few), newest_of_window some]
    · rfl
  rw [answers, answers, same]

/-- Only the newest blocks count: what two graphs hold beyond the newest `window_size` blocks changes nothing. -/
theorem next_difficulty_of_newer (daa : Daa) (dag other : Dag) (timestamp now later : UInt64) (some : 1 ≤ daa.windowSize)
    (filled : daa.windowSize ≤ (newer dag timestamp).length) (same : SameNewer dag other timestamp) :
    daa.calculateNextDifficulty dag now = daa.calculateNextDifficulty other later := by
  have equal := same_newer_iff.mp same
  apply calculate_of_window some
  rw [window_of_newer filled, window_of_newer (equal ▸ filled), equal]

/-- With a window of two blocks the first of three may be any. -/
theorem paced_newer :
    (⟨1, 2⟩ : Daa).calculateNextDifficulty (paced 5) 0 =
      (⟨1, 2⟩ : Daa).calculateNextDifficulty ((paced 5).addBlock (stamped 4 {.replicate 1} 1 7)).2 0 := by
  apply next_difficulty_of_newer ⟨1, 2⟩ (paced 5) _ 1 0 0 (by decide) (by decide +kernel)
  exact same_newer_iff.mpr (by decide +kernel)

/-- Three blocks with ten seconds between them, where one was wanted. -/
def slowing : List BlockNode :=
  [stamped 1 ∅ 0 1000, stamped 2 {.replicate 1} 10 1000, stamped 3 {.replicate 2} 20 500]

/-- Nodes that hold the same blocks ask for the same difficulty, whatever the colours of the blocks. -/
theorem next_difficulty_same_shape (daa : Daa) (shape : dag.SameShape other) (now later : UInt64) :
    daa.calculateNextDifficulty dag now = daa.calculateNextDifficulty other later := by
  have observes : observe other = observe dag := by
    funext hash
    have place := congrArg (Option.map fun entry => (hash, entry.1.timestamp, entry.1.difficulty)) (shape hash)
    rw [Dag.place, Dag.place, Option.map_map, Option.map_map] at place
    exact place
  have times : timeline other = timeline dag := by
    rw [timeline, timeline, Dag.getAllHashes, Dag.getAllHashes, shape.keys, observes]
  rw [calculate_eq, calculate_eq, times]

/-- Nodes that have taken in the same blocks ask for the same difficulty: it does not matter in which order they heard of
them, how often, which were refused on the way, what `k` a node colours with, or what the clock says. -/
theorem difficulty_agrees (daa : Daa) (ghostDag otherGhostDag : GhostDag) (blocks first second : List BlockNode)
    (arrival : Arrival blocks) (pool : From blocks first) (otherPool : From blocks second)
    (keys : (otherGhostDag.dagOf second).blocks.keys = (ghostDag.dagOf first).blocks.keys) (now later : UInt64) :
    daa.calculateNextDifficulty (ghostDag.dagOf first) now = daa.calculateNextDifficulty (otherGhostDag.dagOf second) later :=
  next_difficulty_same_shape daa (delivered_same_shape arrival pool otherPool keys) now later

theorem slowing_agrees :
    (⟨1, 10⟩ : Daa).calculateNextDifficulty ((GhostDag.new 1).dagOf (slowing.reverse ++ slowing)) 0 =
      (⟨1, 10⟩ : Daa).calculateNextDifficulty ((GhostDag.new 0).dagOf slowing) 30 :=
  difficulty_agrees ⟨1, 10⟩ (GhostDag.new 1) (GhostDag.new 0) slowing (slowing.reverse ++ slowing) slowing (by decide +kernel)
    (by decide +kernel) (by decide +kernel) (by decide +kernel) 0 30

end Timelines

section Chains
variable {ghostDag : GhostDag} {block stored : BlockNode} {id : Hash} {blocks : List BlockNode}

/-- Every stored difficulty lies between one and the bound. -/
def Bounded (bound : Nat) (dag : Dag) : Prop :=
  ∀ id block, dag.getBlock id = some block → 1 ≤ block.header.difficulty.toNat ∧ block.header.difficulty.toNat ≤ bound

/-- A block that is accepted carries the difficulty that the adjustment asks for. -/
def Follows (daa : Daa) (dag : Dag) (block : BlockNode) : Prop :=
  dag.Fits block → block.header.difficulty = daa.calculateNextDifficulty dag block.header.timestamp

theorem newest_bounded {bound : Nat} (bounded : Bounded bound dag) (initial : 1000 ≤ bound) (part : List Observed)
    (listed : ∀ observed ∈ part, observed ∈ timeline dag) :
    1 ≤ (newestDifficulty part).toNat ∧ (newestDifficulty part).toNat ≤ bound := by
  rw [newestDifficulty]
  cases newest : part.getLast? with
  | none => exact ⟨by decide, initial⟩
  | some observed =>
    obtain ⟨block, found, same⟩ := Option.map_eq_some_iff.mp (mem_timeline.mp (listed _ (List.mem_of_getLast? newest)))
    rw [← same]
    exact bounded _ block found

/-- What every adjustment keeps within a bound the answer keeps within it. -/
theorem next_bounded {bound : Nat} (bounded : Bounded bound dag) (initial : 1000 ≤ bound)
    (adjusts : ∀ current total intervals, 1 ≤ current.toNat → current.toNat ≤ bound → 0 < intervals → intervals ≤ total →
      1 ≤ (adjusted daa.targetTime current total intervals).toNat ∧
        (adjusted daa.targetTime current total intervals).toNat ≤ bound) :
    1 ≤ (daa.calculateNextDifficulty dag now).toNat ∧ (daa.calculateNextDifficulty dag now).toNat ≤ bound := by
  have newest := newest_bounded bounded initial (timeline dag) fun _ => id
  have inWindow := newest_bounded bounded initial (daa.window (timeline dag)) fun _ => List.mem_of_mem_drop
  rw [calculate_eq]
  split
  · exact newest
  split
  · exact inWindow
  rename_i several
  exact adjusts _ _ _ inWindow.1 inWindow.2 (by omega) (intervals_le_total _)

theorem received_bounded {bound : Nat} (bounded : Bounded bound dag) (consistent : Consistent dag) (leaf : Leaf block)
    (asked : dag.Fits block → 1 ≤ block.header.difficulty.toNat ∧ block.header.difficulty.toNat ≤ bound) :
    Bounded bound (ghostDag.receive dag block) := by
  intro id stored found
  rcases received_header consistent leaf found with ⟨before, there, header⟩ | ⟨fits, header⟩
  · rw [← header]
    exact bounded id before there
  · rw [header]
    exact asked fits

/-- Along a run whose blocks follow the adjustment a bound that every adjustment keeps holds throughout. -/
theorem follows_bounded {bound : Nat} (initial : 1000 ≤ bound)
    (adjusts : ∀ current total intervals, 1 ≤ current.toNat → current.toNat ≤ bound → 0 < intervals → intervals ≤ total →
      1 ≤ (adjusted daa.targetTime current total intervals).toNat ∧
        (adjusted daa.targetTime current total intervals).toNat ≤ bound)
    (leaves : ∀ block ∈ blocks, Leaf block)
    (follows : Runs.Meets ghostDag.receive Dag.new daa.Follows blocks) :
    Runs.Always ghostDag.receive Dag.new (Bounded bound) blocks := by
  have start : Bounded bound Dag.new := fun _ _ found => nomatch found
  have keeps : ∀ dag block, Leaf block → Consistent dag → Consistent (ghostDag.receive dag block) :=
    fun _ _ leaf consistent => receive_consistent ghostDag consistent leaf
  have step : ∀ dag block, Leaf block → Consistent dag → Bounded bound dag → daa.Follows dag block →
      Bounded bound (ghostDag.receive dag block) := by
    intro dag block leaf consistent bounded asked
    refine received_bounded bounded consistent leaf fun fits => ?_
    rw [asked fits]
    exact next_bounded bounded initial adjusts
  exact Runs.always_of_meets Consistent (Bounded bound) consistent_new start keeps step blocks leaves follows

/-- A chain of blocks that follow the adjustment keeps every difficulty between 1 and 2^63 - 1; and with a target of one
second at most no block is ever harder than the first difficulty. -/
theorem difficulty_never_rises (daa : Daa) (ghostDag : GhostDag) (blocks : List BlockNode)
    (leaves : ∀ block ∈ blocks, Leaf block) (follows : Runs.Meets ghostDag.receive Dag.new daa.Follows blocks) :
    Runs.Always ghostDag.receive Dag.new (Bounded (2 ^ 63 - 1)) blocks ∧
      (daa.targetTime.toNat ≤ 1 → Runs.Always ghostDag.receive Dag.new (Bounded 1000) blocks) := by
  constructor
  · apply follows_bounded (by norm_num) _ leaves follows
    intro current total intervals _ _ _ _
    rw [to_nat_adjusted]
    unfold clamped
    omega
  · intro short
    apply follows_bounded le_rfl _ leaves follows
    intro current total intervals least most some counted
    have low := (adjusted_bounds (show current.toNat < 2 ^ 53 by omega) daa.targetTime total intervals).1
    have high := adjusted_le_current (show current.toNat < 2 ^ 53 by omega) short some counted
    omega

theorem slowing_never_rises :
    Runs.Always (GhostDag.new 1).receive Dag.new (Bounded 1000) slowing := by
  refine (difficulty_never_rises ⟨1, 10⟩ (GhostDag.new 1) slowing (by decide) ?_).2 (by decide)
  have asked : ∀ dag block, block.header.difficulty = (⟨1, 10⟩ : Daa).calculateNextDifficulty dag block.header.timestamp →
      (⟨1, 10⟩ : Daa).Follows dag block := fun _ _ same _ => same
  refine (Runs.meets_cons _ _).mpr ⟨asked _ _ (by decide +kernel), (Runs.meets_cons _ _).mpr ⟨asked _ _ ?_,
    (Runs.meets_cons _ _).mpr ⟨asked _ _ ?_, Runs.meets_nil⟩⟩⟩
  · decide +kernel
  · decide +kernel

end Chains
end Klomang.Daa
