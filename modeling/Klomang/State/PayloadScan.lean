import Klomang.Sample
import Klomang.State.AccessSet

/-! Which slots the scan of an execution payload finds. The loop over the positions ends before the last one that has 32
bytes, so the window at the very end of a payload is not read where it is aligned. -/
namespace Klomang.Transaction

section Windows
variable {payload : List UInt8} {slot : Bytes32} {i : Nat}

/-- A complete window at a multiple of 8 that looks like a slot: neither all 0x00 nor all 0xFF. -/
structure SlotOf (payload : List UInt8) (i : Nat) (slot : Bytes32) : Prop where
  aligned : i % 8 = 0
  within : i + 32 ≤ payload.length
  bytes : slot.bytes = (payload.drop i).take 32
  notZero : slot ≠ .replicate 0
  notFull : slot ≠ .replicate 255

/-- Every slot of a payload is in both sets. -/
def CoversSlots (payload : List UInt8) (access : AccessSet) : Prop :=
  ∀ i slot, SlotOf payload i slot → slot ∈ access.readSet ∧ slot ∈ access.writeSet

/-- The last window of a payload is not aligned, is no slot, or is one that occurs further to the left. -/
def LastWindowSeen (payload : List UInt8) : Prop :=
  payload.length < 32 ∨ payload.length % 8 ≠ 0 ∨
    payload.drop (payload.length - 32) = List.replicate 32 0 ∨
    payload.drop (payload.length - 32) = List.replicate 32 255 ∨
    ∃ i, i % 8 = 0 ∧ i + 32 < payload.length ∧ (payload.drop i).take 32 = payload.drop (payload.length - 32)

theorem slot_at_some_iff :
    slotAt payload i = some slot ↔ i + 32 ≤ payload.length ∧ slot.bytes = (payload.drop i).take 32 := by
  have complete : ((payload.drop i).take 32).length = 32 ↔ i + 32 ≤ payload.length := by
    rw [List.length_take, List.length_drop]
    omega
  rw [slotAt]
  split
  next width =>
    rw [Option.some.injEq, and_iff_right (complete.mp width)]
    exact ⟨fun same => same ▸ rfl, fun same => Bytes32.ext same.symm⟩
  next short =>
    simp only [reduceCtorEq, false_iff, not_and]
    exact fun within => absurd (complete.mpr within) short

/-- The window at the end of an aligned payload, when it is a slot. -/
theorem last_slot (long : 32 ≤ payload.length) (aligned : payload.length % 8 = 0)
    (notZero : payload.drop (payload.length - 32) ≠ List.replicate 32 0)
    (notFull : payload.drop (payload.length - 32) ≠ List.replicate 32 255) :
    ∃ slot, SlotOf payload (payload.length - 32) slot ∧ slot.bytes = payload.drop (payload.length - 32) := by
  have width : (payload.drop (payload.length - 32)).length = 32 := by
    rw [List.length_drop]
    omega
  refine ⟨⟨_, width⟩, ⟨by omega, by omega, (List.take_of_length_le width.le).symm, ?_, ?_⟩, rfl⟩
  · exact fun same => notZero (congrArg Bytes32.bytes same)
  · exact fun same => notFull (congrArg Bytes32.bytes same)

end Windows

section Scan
variable [Blake3] {payload : List UInt8} {slot : Bytes32}

/-- The windows that the loop of `analyze_execution_payload` collects. -/
def scannedSlots (payload : List UInt8) : List Bytes32 :=
  let positions := if payload.length ≥ 8 then List.range' 0 ((payload.length - 32 + 7) / 8) 8 else []
  (positions.filterMap (slotAt payload)).filter fun slot => slot ≠ .replicate 0 && slot ≠ .replicate 255

/-- What was collected is read and written, also when nothing was and the pseudo-slot stands in. -/
theorem scan_access (payload : List UInt8) :
    (analyzeExecutionPayload payload).readSet = (scannedSlots payload).toFinset ∧
      (scannedSlots payload).toFinset ⊆ (analyzeExecutionPayload payload).writeSet := by
  have shape : analyzeExecutionPayload payload =
      if (scannedSlots payload).toFinset = ∅ ∧ (scannedSlots payload).toFinset = ∅ then
        ⟨(scannedSlots payload).toFinset, insert (Hash.new payload) (scannedSlots payload).toFinset⟩
      else ⟨(scannedSlots payload).toFinset, (scannedSlots payload).toFinset⟩ := rfl
  rw [shape]
  split
  · exact ⟨rfl, Finset.subset_insert _ _⟩
  · exact ⟨rfl, Finset.Subset.refl _⟩

/-- The slots that the scan finds: the window has to end before the payload does. -/
theorem mem_scanned_iff (payload : List UInt8) (slot : Bytes32) :
    slot ∈ (analyzeExecutionPayload payload).readSet ↔ ∃ i, SlotOf payload i slot ∧ i + 32 < payload.length := by
  rw [(scan_access payload).1, List.mem_toFinset, scannedSlots]
  simp only [List.mem_filter, List.mem_filterMap, Bool.and_eq_true, decide_eq_true_eq]
  constructor
  · rintro ⟨⟨i, position, window⟩, notZero, notFull⟩
    obtain ⟨within, bytes⟩ := slot_at_some_iff.mp window
    rw [if_pos (by omega)] at position
    obtain ⟨step, below, rfl⟩ := List.mem_range'.mp position
    exact ⟨_, ⟨by omega, within, bytes, notZero, notFull⟩, by omega⟩
  · rintro ⟨i, seen, before⟩
    refine ⟨⟨i, ?_, slot_at_some_iff.mpr ⟨seen.within, seen.bytes⟩⟩, seen.notZero, seen.notFull⟩
    have aligned := seen.aligned
    rw [if_pos (by omega)]
    exact List.mem_range'.mpr ⟨i / 8, by omega, by omega⟩

/-- What the scan reads it also writes. -/
theorem scanned_written (payload : List UInt8) :
    (analyzeExecutionPayload payload).readSet ⊆ (analyzeExecutionPayload payload).writeSet := by
  obtain ⟨reads, written⟩ := scan_access payload
  rw [reads]
  exact written

/-- When all slots are among those that are read, the last window was seen. -/
theorem last_window_seen (reads : ∀ i slot, SlotOf payload i slot → slot ∈ (analyzeExecutionPayload payload).readSet) :
    LastWindowSeen payload := by
  by_contra unseen
  simp only [LastWindowSeen, not_or, not_lt, ne_eq, not_not] at unseen
  obtain ⟨long, aligned, notZero, notFull, fresh⟩ := unseen
  obtain ⟨slot, last, bytes⟩ := last_slot long aligned notZero notFull
  obtain ⟨i, earlier, before⟩ := (mem_scanned_iff payload slot).mp (reads _ slot last)
  exact fresh ⟨i, earlier.aligned, before, earlier.bytes.symm.trans bytes⟩

theorem scan_covers (seen : LastWindowSeen payload) : CoversSlots payload (analyzeExecutionPayload payload) := by
  suffices reads : ∀ i slot, SlotOf payload i slot → slot ∈ (analyzeExecutionPayload payload).readSet from
    fun i slot window => ⟨reads i slot window, scanned_written payload (reads i slot window)⟩
  intro i slot window
  apply (mem_scanned_iff payload slot).mpr
  rcases window.within.lt_or_eq with before | last
  · exact ⟨i, window, before⟩
  have position : i = payload.length - 32 := by omega
  have bytes : slot.bytes = payload.drop (payload.length - 32) := by
    rw [window.bytes, position, List.take_of_length_le]
    rw [List.length_drop]
    omega
  have aligned := window.aligned
  rcases seen with short | odd | zero | full | ⟨j, aligned, before, same⟩
  · omega
  · omega
  · exact absurd (Bytes32.ext (bytes.trans zero)) window.notZero
  · exact absurd (Bytes32.ext (bytes.trans full)) window.notFull
  · exact ⟨j, ⟨aligned, before.le, bytes.trans same.symm, window.notZero, window.notFull⟩, before⟩

/-- A call reads what its payload reads, besides the keys of its inputs, and writes what its payload writes. -/
theorem call_access {tx : Transaction} (call : tx.contractAddress ≠ none) :
    tx.generateAccessSet.readSet =
        ((List.range tx.inputs.length).map fun i => tx.hashWithIndex (UInt32.ofNat i)).toFinset ∪
          (analyzeExecutionPayload tx.executionPayload).readSet ∧
      (analyzeExecutionPayload tx.executionPayload).writeSet ⊆ tx.generateAccessSet.writeSet := by
  obtain ⟨address, named⟩ := Option.ne_none_iff_exists'.mp call
  rw [generateAccessSet, named]
  exact ⟨rfl, Finset.subset_union_right⟩

/-- The scan of a payload covers its aligned slots exactly when the last window was seen, and so do the access sets of
the calls with this payload. -/
theorem payload_scan_covers_iff (payload : List UInt8) :
    (CoversSlots payload (analyzeExecutionPayload payload) ↔ LastWindowSeen payload) ∧
    ((∀ tx : Transaction, tx.executionPayload = payload → tx.contractAddress ≠ none →
        CoversSlots payload tx.generateAccessSet) ↔ LastWindowSeen payload) := by
  refine ⟨⟨fun covers => last_window_seen fun i slot window => (covers i slot window).1, scan_covers⟩, ?_, ?_⟩
  · intro covers
    apply last_window_seen
    intro i slot window
    -- a call without inputs reads nothing but what its payload reads
    let call : Transaction :=
      { Transaction.new [] [] with executionPayload := payload, contractAddress := some (.replicate 0) }
    have reads := (covers call rfl (Option.some_ne_none _) i slot window).1
    have named : call.contractAddress ≠ none := Option.some_ne_none _
    rw [(call_access named).1] at reads
    rcases Finset.mem_union.mp reads with input | scanned
    · cases input
    · exact scanned
  · rintro seen tx rfl call i slot window
    obtain ⟨reads, writes⟩ := call_access call
    obtain ⟨scanned, written⟩ := scan_covers seen i slot window
    rw [reads]
    exact ⟨Finset.mem_union_right _ scanned, writes written⟩

end Scan

section Calls
open scoped Klomang.Sample

/-- A payload that is one slot is not covered, neither by the scan nor by the access set of a call. -/
theorem single_slot_missed :
    let slot : Bytes32 := .replicate 1
    let call : Transaction :=
      { Transaction.new [] [] with executionPayload := slot.bytes, contractAddress := some (.replicate 4) }
    SlotOf slot.bytes 0 slot ∧ slot ∉ (analyzeExecutionPayload slot.bytes).readSet ∧
      slot ∉ (analyzeExecutionPayload slot.bytes).writeSet ∧ slot ∉ call.generateAccessSet.readSet ∧
      slot ∉ call.generateAccessSet.writeSet := by
  refine ⟨⟨rfl, le_rfl, rfl, ?_, ?_⟩, ?_, ?_, ?_, ?_⟩ <;> decide +kernel

end Calls
end Klomang.Transaction
