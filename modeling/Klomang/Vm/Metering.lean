import Klomang.StateManager.Sample
import Klomang.Vm.GasBooks

/-! Executions as a whole. One that fails leaves the nodes and the tombstones of the tree as they were, whatever the
host was called for before. One that succeeds has been charged for every operator and every host call of `run`; what the
start function executes is metered too, but the points it leaves are overwritten. -/
namespace Klomang.VMExecutor

section Failures
variable [Blake3] [Bandersnatch] [Wasmer] {S : Type} [Storage S] {manager : StateManager S} {gasLimit : UInt64}
  {error : Abort VMError} {later : StateManager S}

/-- An execution that fails leaves no trace: the stored nodes and the pruned keys are those from before the call. Every
tree stores its root node, which `new` puts there and nothing takes away. -/
theorem failed_execution_leaves_no_trace (rooted : VerkleTree.storedNode manager.tree.storage [] = true)
    (wasmBytes : List UInt8) (gasLimit : UInt64) (failed : execute wasmBytes manager gasLimit = (.error error, later)) :
    later.tree.storage = manager.tree.storage ∧ later.tree.prunedKeys = manager.tree.prunedKeys := by
  rcases execute_ends wasmBytes manager gasLimit with ⟨_, _, ran, same⟩ | ⟨_, _, ran, _⟩
  · cases ran.symm.trans failed
    rcases same with same | same <;> rw [same]
    · exact ⟨rfl, rfl⟩
    · exact ⟨VerkleTree.fresh_storage rooted, VerkleTree.cloned_pruned manager.tree⟩
  · cases ran.symm.trans failed

/-- An execution that succeeds uses at most its limit. -/
theorem execute_bounded {wasmBytes : List UInt8} {gasUsed : Nat}
    (ran : execute wasmBytes manager gasLimit = (.ok gasUsed, later)) : gasUsed ≤ gasLimit.toNat := by
  rcases execute_ends wasmBytes manager gasLimit with ⟨_, _, failed, _⟩ | ⟨_, _, succeeded, within⟩
  · cases failed.symm.trans ran
  · cases succeeded.symm.trans ran
    exact within

end Failures

section Metering

/-- What a module executes before it is metered: operators and host calls, until it stops or traps. -/
inductive Code where
  | stop
  | trap (msg : String)
  | operator (instruction : Operator) (next : Code)
  | stateRead (key : Except String (List UInt8)) (outLen : Nat) (next : Option (List UInt8) → Code)
  | stateWrite (key data : Except String (List UInt8)) (next : Code)
  | selfDestruct (key : Except String (List UInt8)) (next : Code)

/-- The same code metered: every operator takes its `opcode_cost` from the points, and one that they do not cover traps
with the text of an exhausted meter. -/
def meter (exhausted : String) : Code → Nat → Guest
  | .stop, points => .returned (some points)
  | .trap msg, _ => .trapped msg
  | .operator instruction next, points =>
    if points < GasMeter.opcodeCost instruction then .trapped exhausted
    else meter exhausted next (points - GasMeter.opcodeCost instruction)
  | .stateRead key outLen next, points =>
    .stateRead (some points) key outLen fun points value => meter exhausted (next value) points
  | .stateWrite key data next, points => .stateWrite (some points) key data (meter exhausted next)
  | .selfDestruct key next, points => .selfDestruct key (meter exhausted next points)

/-- The engine meters the start function of a module, which it runs while it links it, and its `run` function. -/
structure Metered [Wasmer] (module : Wasmer.Module) (start run : Code) (exhausted : String) : Prop where
  start : Wasmer.instantiate module = .ok (meter exhausted start)
  run : Wasmer.run module = .ok (meter exhausted run)

/-- What is executed at a cost: an operator, or a host call that succeeds. -/
inductive Work where
  | operator (instruction : Operator)
  | stateRead
  | stateWrite (isNew : Bool)
  | selfDestruct

/-- What some work costs. -/
def Work.cost : Work → Nat
  | .operator instruction => GasMeter.opcodeCost instruction
  | .stateRead => GasMeter.stateReadCost
  | .stateWrite isNew => GasMeter.stateWriteCost isNew
  | .selfDestruct => 0

/-- What the work of a list costs. -/
def workCost (work : List Work) : Nat := (work.map Work.cost).sum

theorem work_cost_cons (piece : Work) (rest : List Work) : workCost (piece :: rest) = piece.cost + workCost rest := by
  rw [workCost, List.map_cons, List.sum_cons, workCost]

/-- The operators that a start function executes before it stops, traps or calls the host. -/
def started : Code → List Operator
  | .operator instruction next => instruction :: started next
  | _ => []

variable [Blake3] [Bandersnatch] {S : Type} [Storage S]

/-- The work of a `run` function over a manager, up to the first host call that fails. -/
def work : Code → StateManager S → List Work
  | .stop, _ => []
  | .trap _, _ => []
  | .operator instruction next, manager => .operator instruction :: work next manager
  | .stateRead key outLen next, manager =>
    match key with
    | .error _ => []
    | .ok key =>
      match manager.stateRead (keyBytes key) with
      | .error _ => []
      | .ok none => .stateRead :: work (next none) manager
      | .ok (some value) =>
        if value.length > outLen then [] else .stateRead :: work (next (some value)) manager
  | .stateWrite key data next, manager =>
    match key, data with
    | .ok key, .ok data =>
      match manager.stateRead (keyBytes key) with
      | .error _ => []
      | .ok existing => .stateWrite existing.isNone :: work next (manager.stateWrite (keyBytes key) data)
    | _, _ => []
  | .selfDestruct key next, manager =>
    match key with
    | .error _ => []
    | .ok key =>
      let tree := (manager.tree.pruneKey (keyBytes key)).2
      .selfDestruct :: work next { manager with tree }

/-- Everything that an execution of a module costs: the charges before it, the work of `run`, and the operators of the
start function. -/
def allWork (wasmBytes : List UInt8) (start run : Code) (manager : StateManager S) : Nat :=
  GasMeter.intrinsicGas + GasMeter.byteCosts wasmBytes + workCost (work run manager) +
    ((started start).map GasMeter.opcodeCost).sum

variable [Wasmer]

/-- How an execution ends: `run` returns with some points left of those that the charges before it left, the limit has
lost the total, and a refund is taken off. -/
def Settled (run : Code) (exhausted : String) (wasmBytes : List UInt8) (manager later : StateManager S)
    (gasLimit : UInt64) (totalUsed refund : Nat) : Prop :=
  ∃ gas after remainingPoints,
    (∃ charged, (GasMeter.new gasLimit).chargeIntrinsic = (.ok (), charged) ∧
      charged.chargePayload wasmBytes = (.ok (), gas)) ∧
    callRun (meter exhausted run (gasLimit.toNat - gas.consumedHost)) manager gas =
      (.ok (some remainingPoints), later, after) ∧
    totalUsed = gasLimit.toNat - remainingPoints ∧ refund = (after.finalize totalUsed).2

variable {manager later : StateManager S} {start run : Code} {exhausted : String}

omit [Blake3] [Bandersnatch] [Wasmer] in
/-- A charge from the points that goes through takes its cost. -/
theorem charge_metering_ok {points cost left : Nat} (charged : chargeMeteringFromHost (some points) cost = .ok left) :
    left + cost = points := by
  rw [chargeMeteringFromHost] at charged
  split at charged
  · cases charged
  · cases charged
    omega

/-- Behind a read: the key was there to be read, the value fits, and the points covered the cost. -/
theorem call_state_read_ok {gas after : GasMeter} {points outcome : Option Nat} {key : Except String (List UInt8)}
    {outLen : Nat} {next : Nat → Option (List UInt8) → Guest}
    (ran : callRun (.stateRead points key outLen next) manager gas = (.ok outcome, later, after)) :
    ∃ left named value charged, chargeMeteringFromHost points GasMeter.stateReadCost = .ok left ∧ key = .ok named ∧
      manager.stateRead (keyBytes named) = .ok value ∧ (∀ found, value = some found → found.length ≤ outLen) ∧
      callRun (next left value) manager charged = (.ok outcome, later, after) := by
  rw [callRun] at ran
  split at ran
  · cases ran
  split at ran
  · cases ran
  rename_i left paid
  cases key with
  | error msg => cases ran
  | ok named =>
    dsimp only at ran
    cases read : manager.stateRead (keyBytes named) with
    | error error =>
      rw [read] at ran
      cases ran
    | ok value =>
      rw [read] at ran
      cases value with
      | none =>
        refine ⟨left, named, none, _, paid, rfl, read, ?_, ran⟩
        intro found absurdity
        cases absurdity
      | some value =>
        dsimp only at ran
        split at ran
        · cases ran
        · rename_i room
          refine ⟨left, named, some value, _, paid, rfl, read, ?_, ran⟩
          intro found same
          cases same
          exact Nat.not_lt.mp room

/-- Behind a write: what is at the key was read before it, and the points covered the cost. -/
theorem call_state_write_ok {gas after : GasMeter} {points outcome : Option Nat}
    {key data : Except String (List UInt8)} {next : Nat → Guest}
    (ran : callRun (.stateWrite points key data next) manager gas = (.ok outcome, later, after)) :
    ∃ left named value existing charged, key = .ok named ∧ data = .ok value ∧
      manager.stateRead (keyBytes named) = .ok existing ∧
      chargeMeteringFromHost points (GasMeter.stateWriteCost existing.isNone) = .ok left ∧
      callRun (next left) (manager.stateWrite (keyBytes named) value) charged = (.ok outcome, later, after) := by
  rw [callRun.eq_def] at ran
  cases key with
  | error msg => cases ran
  | ok named =>
    cases data with
    | error msg => cases ran
    | ok value =>
      dsimp only at ran
      cases read : manager.stateRead (keyBytes named) with
      | error error =>
        rw [read] at ran
        cases ran
      | ok existing =>
        rw [read] at ran
        dsimp only at ran
        split at ran
        · cases ran
        split at ran
        · cases ran
        rename_i left paid
        exact ⟨left, named, value, existing, _, rfl, rfl, read, paid, ran⟩

/-- A `run` function that returns has been charged for all its work. -/
theorem call_run_charged {gas after : GasMeter} {points remaining : Nat}
    (ran : callRun (meter exhausted run points) manager gas = (.ok (some remaining), later, after)) :
    remaining + workCost (work run manager) = points := by
  induction run generalizing manager gas points with
  | stop =>
    cases ran
    rfl
  | trap msg => cases ran
  | operator instruction next ih =>
    rw [meter] at ran
    split at ran
    · cases ran
    · rename_i covers
      have spent := ih ran
      rw [work, work_cost_cons, Work.cost]
      omega
  | stateRead key outLen next ih =>
    obtain ⟨left, named, value, charged, paid, rfl, read, room, rest⟩ := call_state_read_ok ran
    have taken := charge_metering_ok paid
    -- the value that the module is given decides how it goes on
    have spent := ih value rest
    have made : work (.stateRead (.ok named) outLen next) manager = .stateRead :: work (next value) manager := by
      rw [work, read]
      cases value with
      | none => rfl
      | some value => exact if_neg (Nat.not_lt.mpr (room value rfl))
    rw [made, work_cost_cons, Work.cost]
    omega
  | stateWrite key data next ih =>
    obtain ⟨left, named, value, existing, charged, rfl, rfl, read, paid, rest⟩ := call_state_write_ok ran
    have taken := charge_metering_ok paid
    have spent := ih rest
    rw [work, read, work_cost_cons, Work.cost]
    omega
  | selfDestruct key next ih =>
    rw [meter, callRun.eq_def] at ran
    cases key with
    | error msg => cases ran
    | ok key =>
      have spent := ih ran
      rw [work, work_cost_cons, Work.cost, Nat.zero_add]
      exact spent

/-- An execution that succeeds has made the charges before the module runs, and its `run` function has returned. -/
theorem execute_settled {wasmBytes : List UInt8} {gasLimit : UInt64} {gasUsed : Nat} {module : Wasmer.Module}
    (engine : Metered module start run exhausted) (compiled : Wasmer.compile wasmBytes = .ok module)
    (ran : execute wasmBytes manager gasLimit = (.ok gasUsed, later)) :
    ∃ totalUsed refund, Settled run exhausted wasmBytes manager later gasLimit totalUsed refund ∧
      gasUsed = totalUsed - refund := by
  unfold execute at ran
  rw [VerkleTree.clone_ok] at ran
  dsimp only at ran
  split at ran
  · cases ran
  rename_i charged intrinsic
  split at ran
  · cases ran
  rename_i gas payload
  rw [compiled] at ran
  dsimp only at ran
  rw [executeModule, engine.start] at ran
  dsimp only at ran
  split at ran
  · cases ran
  rename_i points kept linked
  -- the start function has called no host function, so that the books are those from before it
  obtain ⟨_, rfl⟩ := call_start_ok linked
  rw [engine.run] at ran
  dsimp only at ran
  split at ran
  · rename_i remainingPoints last after called
    cases ran
    exact ⟨_, _, ⟨gas, after, remainingPoints, ⟨charged, intrinsic, payload⟩, called, rfl, rfl⟩, rfl⟩
  · cases ran
  · cases ran

omit [Blake3] [Bandersnatch] [Wasmer] in
/-- Every operator costs something. -/
theorem started_cost_eq_zero_iff : ((started start).map GasMeter.opcodeCost).sum = 0 ↔ started start = [] := by
  have priced (instruction : Operator) : GasMeter.opcodeCost instruction ≠ 0 := by cases instruction <;> decide
  cases started start with
  | nil => simp
  | cons instruction rest => simp [priced instruction]

/-- The charges before a module runs and the work of `run` are all that `total_used` counts. -/
theorem Settled.total {wasmBytes : List UInt8} {gasLimit : UInt64} {totalUsed refund : Nat}
    (settled : Settled run exhausted wasmBytes manager later gasLimit totalUsed refund) :
    totalUsed = GasMeter.intrinsicGas + GasMeter.byteCosts wasmBytes + workCost (work run manager) ∧
      totalUsed ≤ gasLimit.toNat := by
  obtain ⟨gas, after, remainingPoints, precharged, called, rfl, -⟩ := settled
  obtain ⟨fits, rfl⟩ := (GasMeter.precharge_ok_iff gasLimit wasmBytes).mp precharged
  have spent := call_run_charged called
  dsimp only at spent
  omega

/-- At most a fifth of the total is paid back. -/
theorem Settled.refund_le {wasmBytes : List UInt8} {gasLimit : UInt64} {totalUsed refund : Nat}
    (settled : Settled run exhausted wasmBytes manager later gasLimit totalUsed refund) : 5 * refund ≤ totalUsed := by
  obtain ⟨_, after, _, _, _, _, rfl⟩ := settled
  rw [GasMeter.finalize]
  dsimp only
  omega

/-- An execution that succeeds pays for all its work exactly when the start function of the module executes nothing. -/
theorem all_work_paid_iff {wasmBytes : List UInt8} {gasLimit : UInt64} {gasUsed : Nat} {module : Wasmer.Module}
    (engine : Metered module start run exhausted) (compiled : Wasmer.compile wasmBytes = .ok module)
    (ran : execute wasmBytes manager gasLimit = (.ok gasUsed, later)) :
    ∃ totalUsed refund, Settled run exhausted wasmBytes manager later gasLimit totalUsed refund ∧
      gasUsed + refund = totalUsed ∧ 5 * refund ≤ totalUsed ∧
      ((allWork wasmBytes start run manager ≤ gasLimit.toNat ∧ allWork wasmBytes start run manager = totalUsed) ↔
        started start = []) := by
  obtain ⟨totalUsed, refund, settled, rfl⟩ := execute_settled engine compiled ran
  obtain ⟨total, within⟩ := settled.total
  have fifth := settled.refund_le
  refine ⟨totalUsed, refund, settled, by omega, fifth, ?_⟩
  rw [← started_cost_eq_zero_iff, allWork, ← total]
  omega

end Metering
end Klomang.VMExecutor

namespace Klomang.Priced
open Klomang.Sample VMExecutor

/-- Deletes the zero key and adds once. -/
def body : Code := .selfDestruct (.ok (List.replicate 32 0)) (.operator .i32Add .stop)

/-- A start function of one operator, or none. -/
def opening (plain : Bool) : Code := if plain then .stop else .operator .other .stop

/-- An engine that meters what it executes. Every module runs the same body; one with bytes has a start function. -/
scoped instance engine : Wasmer where
  Module := Bool
  compile wasmBytes := .ok wasmBytes.isEmpty
  instantiate plain := .ok (meter "unreachable" (opening plain))
  run _ := .ok (meter "unreachable" body)
  runtimeError msg := "RuntimeError: " ++ msg

theorem engine_meters (plain : Bool) : Metered plain (opening plain) body "unreachable" := ⟨rfl, rfl⟩

/-- The body ends in the addition, which the points cover or not. -/
theorem call_body (points : Nat) (gas : GasMeter) :
    ∃ later, callRun (meter "unreachable" body points) manager gas =
      (if points < 3 then .error "unreachable" else .ok (some (points - 3)), later, gas.refundSelfDestruct) := by
  rw [body, meter, callRun.eq_def]
  dsimp only
  rw [meter, show GasMeter.opcodeCost .i32Add = 3 from rfl]
  split
  · exact ⟨_, rfl⟩
  · exact ⟨_, rfl⟩

/-- The start function returns as long as there is any gas. -/
theorem call_opening (plain : Bool) {points : Nat} (some_gas : 0 < points) (gas : GasMeter) :
    ∃ left, callStart (meter "unreachable" (opening plain) points) gas = (.ok left, gas) := by
  cases plain with
  | true => exact ⟨_, rfl⟩
  | false =>
    rw [opening, if_neg Bool.false_ne_true, meter, if_neg (show ¬ points < GasMeter.opcodeCost .other by
      rw [show GasMeter.opcodeCost .other = 1 from rfl]
      omega)]
    exact ⟨_, rfl⟩

/-- Once the charges before it are covered, an execution fails exactly when the points do not cover the addition. -/
theorem execute_covered (wasmBytes : List UInt8) (gasLimit : UInt64)
    (covers : GasMeter.intrinsicGas + GasMeter.byteCosts wasmBytes ≤ gasLimit.toNat) :
    ∃ outcome later, execute wasmBytes manager gasLimit = (outcome, later) ∧
      ((∃ error, outcome = .error error) ↔
        gasLimit.toNat < GasMeter.intrinsicGas + GasMeter.byteCosts wasmBytes + 3) := by
  obtain ⟨gas, intrinsic, payload⟩ := (GasMeter.precharge_ok_iff gasLimit wasmBytes).mpr ⟨covers, rfl⟩
  have some_gas : 0 < gasLimit.toNat := Nat.lt_of_lt_of_le (Nat.add_pos_left (by decide) _) covers
  rw [execute, VerkleTree.clone_ok]
  dsimp only
  rw [intrinsic]
  dsimp only
  rw [payload]
  dsimp only
  rw [show Wasmer.compile wasmBytes = .ok wasmBytes.isEmpty from rfl]
  dsimp only
  rw [executeModule, (engine_meters _).start]
  dsimp only
  obtain ⟨_, linked⟩ := call_opening wasmBytes.isEmpty some_gas _
  rw [linked, (engine_meters _).run]
  dsimp only
  obtain ⟨_, called⟩ := call_body (gasLimit.toNat - (GasMeter.intrinsicGas + GasMeter.byteCosts wasmBytes)) _
  rw [called]
  by_cases short : gasLimit.toNat - (GasMeter.intrinsicGas + GasMeter.byteCosts wasmBytes) < 3
  · rw [if_pos short]
    exact ⟨_, _, rfl, iff_of_true ⟨_, rfl⟩ (by omega)⟩
  · rw [if_neg short]
    refine ⟨_, _, rfl, iff_of_false ?_ (by omega)⟩
    rintro ⟨error, same⟩
    cases same

/-- The body runs short of one unit after the deletion, and the execution leaves no trace. -/
theorem starved_leaves_no_trace :
    ∃ error later, execute [] manager 21_002 = (.error error, later) ∧ later.tree.storage = manager.tree.storage ∧
      later.tree.prunedKeys = manager.tree.prunedKeys := by
  have rooted : VerkleTree.storedNode manager.tree.storage [] = true :=
    (StateManager.started_sound manager_built.coherent).coherent.rooted
  obtain ⟨_, later, ran, fails⟩ := execute_covered [] 21_002 (by decide)
  obtain ⟨error, rfl⟩ := fails.mpr (by decide)
  exact ⟨error, later, ran, failed_execution_leaves_no_trace rooted [] 21_002 ran⟩

/-- With enough gas an execution goes through. -/
theorem execute_ran (wasmBytes : List UInt8)
    (covers : GasMeter.intrinsicGas + GasMeter.byteCosts wasmBytes + 3 ≤ 100_000) :
    ∃ gasUsed later, execute wasmBytes manager 100_000 = (.ok gasUsed, later) := by
  have limit : (100_000 : UInt64).toNat = 100_000 := rfl
  obtain ⟨outcome, later, ran, fails⟩ := execute_covered wasmBytes 100_000 (by omega)
  cases outcome with
  | error error =>
    have short := fails.mp ⟨error, rfl⟩
    omega
  | ok gasUsed => exact ⟨gasUsed, later, ran⟩

/-- The empty module pays for the deletion and the addition. -/
theorem empty_module_paid :
    ∃ gasUsed later totalUsed refund, execute [] manager 100_000 = (.ok gasUsed, later) ∧
      Settled body "unreachable" [] manager later 100_000 totalUsed refund ∧
      allWork [] .stop body manager = totalUsed := by
  obtain ⟨gasUsed, later, ran⟩ := execute_ran [] (by decide)
  obtain ⟨totalUsed, refund, settled, _, _, paid⟩ := all_work_paid_iff (engine_meters true) rfl ran
  exact ⟨gasUsed, later, totalUsed, refund, ran, settled, (paid.mpr rfl).2⟩

/-- A start function of one operator costs one unit, and the total misses it. -/
theorem start_unpaid :
    ∃ gasUsed later totalUsed refund, execute [1] manager 100_000 = (.ok gasUsed, later) ∧
      Metered false (opening false) body "unreachable" ∧
      Settled body "unreachable" [1] manager later 100_000 totalUsed refund ∧
      allWork [1] (opening false) body manager = totalUsed + 1 := by
  obtain ⟨gasUsed, later, ran⟩ := execute_ran [1] (by decide)
  obtain ⟨totalUsed, refund, settled, _⟩ := execute_settled (engine_meters false) rfl ran
  refine ⟨gasUsed, later, totalUsed, refund, ran, engine_meters false, settled, ?_⟩
  rw [allWork, ← settled.total.1]
  rfl

end Klomang.Priced
