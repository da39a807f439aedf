import Klomang.StateManager.Basic
import Klomang.Vm.GasMeter

/-! `core/vm/executor.rs`: contract execution against the state manager. The
`wasmer` engine is a parameter: what a module does is a finite tree of host
calls, each continued by the answer and the metering points that are left. -/
namespace Klomang

/-- What a running module does next. The points are those left when it stops or
calls, none when they are used up; a key or a value is what the host reads from the
module's memory, or the text of the failure. -/
inductive Guest where
  | returned (points : Option Nat)
  | trapped (msg : String)
  | stateRead (points : Option Nat) (key : Except String (List UInt8)) (outLen : Nat)
      (next : Nat → Option (List UInt8) → Guest)
  | stateWrite (points : Option Nat) (key data : Except String (List UInt8)) (next : Nat → Guest)
  | selfDestruct (key : Except String (List UInt8)) (next : Guest)

/-- The `wasmer` engine: compiling a module, linking it, which gives its start function for the
points it is metered by, its exported `run` function, and the text of a host error. -/
class Wasmer where
  Module : Type
  compile : List UInt8 → Except String Module
  instantiate : Module → Except String (Nat → Guest)
  run : Module → Except String (Nat → Guest)
  runtimeError : String → String

namespace VMExecutor
variable [Blake3] [Bandersnatch] [Wasmer] {S : Type} [Storage S]

/-- `charge_metering_from_host`: the points left after a charge. -/
def chargeMeteringFromHost (points : Option Nat) (cost : Nat) : Except VMError Nat :=
  match points with
  | none => .error .outOfGas
  | some remaining => if remaining < cost then .error .outOfGas else .ok (remaining - cost)

/-- The state key for the bytes a module names. -/
def keyBytes (key : List UInt8) : Bytes32 := if width : key.length = 32 then ⟨key, width⟩ else Blake3.hash key

/-- The start function and the host functions it calls. The host has no instance yet, so that each of
them is refused, at the latest when it asks for the instance, and the module traps. -/
def callStart : Guest → GasMeter → Except String (Option Nat) × GasMeter
  | .returned points, gas => (.ok points, gas)
  | .trapped msg, gas => (.error msg, gas)
  | .stateRead _ _ _ _, gas =>
    match gas.chargeStateRead with
    | (.error _, gas) => (.error (Wasmer.runtimeError "OutOfGas"), gas)
    | (.ok (), gas) => (.error (Wasmer.runtimeError "Instance not initialized"), gas)
  | .stateWrite _ _ _ _, gas => (.error (Wasmer.runtimeError "Instance not initialized"), gas)
  | .selfDestruct _ _, gas => (.error (Wasmer.runtimeError "Instance not initialized"), gas)

/-- The call of `run` and the host functions it calls, until it returns with some
points left or traps with a text. -/
def callRun : Guest → StateManager S → GasMeter → Except String (Option Nat) × StateManager S × GasMeter
  | .returned points, manager, gas => (.ok points, manager, gas)
  | .trapped msg, manager, gas => (.error msg, manager, gas)
  | .stateRead points key outLen next, manager, gas =>
    match gas.chargeStateRead with
    | (.error _, gas) => (.error (Wasmer.runtimeError "OutOfGas"), manager, gas)
    | (.ok (), gas) =>
      match chargeMeteringFromHost points GasMeter.stateReadCost with
      | .error _ => (.error (Wasmer.runtimeError "OutOfGas"), manager, gas)
      | .ok points =>
        match key with
        | .error msg => (.error (Wasmer.runtimeError msg), manager, gas)
        | .ok key =>
          match manager.stateRead (keyBytes key) with
          | .error error => (.error (Wasmer.runtimeError ("State read error: " ++ error)), manager, gas)
          | .ok none => callRun (next points none) manager gas
          | .ok (some value) =>
            if value.length > outLen then
              (.error (Wasmer.runtimeError "Output buffer too small"), manager, gas)
            else callRun (next points (some value)) manager gas
  | .stateWrite points key data next, manager, gas =>
    match key with
    | .error msg => (.error (Wasmer.runtimeError msg), manager, gas)
    | .ok key =>
      match data with
      | .error msg => (.error (Wasmer.runtimeError msg), manager, gas)
      | .ok data =>
        match manager.stateRead (keyBytes key) with
        | .error error =>
          (.error (Wasmer.runtimeError ("State read for write failed: " ++ error)), manager, gas)
        | .ok existing =>
          match gas.chargeStateWrite existing.isNone with
          | (.error _, gas) => (.error (Wasmer.runtimeError "OutOfGas"), manager, gas)
          | (.ok (), gas) =>
            match chargeMeteringFromHost points (GasMeter.stateWriteCost existing.isNone) with
            | .error _ => (.error (Wasmer.runtimeError "OutOfGas"), manager, gas)
            | .ok points => callRun (next points) (manager.stateWrite (keyBytes key) data) gas
  | .selfDestruct key next, manager, gas =>
    match key with
    | .error msg => (.error (Wasmer.runtimeError msg), manager, gas)
    | .ok key =>
      -- a failed pruning is ignored
      let tree := (manager.tree.pruneKey (keyBytes key)).2
      callRun next { manager with tree } gas.refundSelfDestruct

omit [Blake3] [Bandersnatch] in
/-- A start function that returns has called no host function. -/
theorem call_start_ok {guest : Guest} {gas later : GasMeter} {points : Option Nat}
    (ran : callStart guest gas = (.ok points, later)) : guest = .returned points ∧ gas = later := by
  cases guest with
  | returned left =>
    cases ran
    exact ⟨rfl, rfl⟩
  | stateRead points key outLen next =>
    rw [callStart] at ran
    split at ran <;> cases ran
  | trapped msg => cases ran
  | stateWrite points key data next => cases ran
  | selfDestruct key next => cases ran

/-- A text mentions running out of gas. -/
def mentionsGas (msg : String) : Bool :=
  decide ("OutOfGas".toList <:+: msg.toList) || decide ("out of gas".toList <:+: msg.toList)

/-- The part of `execute` from the compiled module on, with the tree to go back to. -/
def executeModule (module : Wasmer.Module) (manager : StateManager S) (gas : GasMeter) (gasLimit : UInt64)
    (treeSnapshot : VerkleTree S) : Except (Abort VMError) Nat × StateManager S :=
  -- a clone of the snapshot is the snapshot itself
  match Wasmer.instantiate module with
  | .error msg => (.error (.err (.runtimeError msg)), { manager with tree := treeSnapshot })
  | .ok start =>
    match callStart (start gasLimit.toNat) gas with
    | (.error msg, _) => (.error (.err (.runtimeError msg)), { manager with tree := treeSnapshot })
    | (.ok _, gas) =>
      -- the points that the start function left are overwritten
      let precharge := gas.consumedHost
      match Wasmer.run module with
      | .error msg => (.error (.err (.runtimeError msg)), { manager with tree := treeSnapshot })
      | .ok guest =>
        match callRun (guest (gasLimit.toNat - precharge)) manager gas with
        | (.ok (some remainingPoints), manager, gas) =>
          (.ok (gas.finalize (gasLimit.toNat - remainingPoints)).1, manager)
        | (.ok none, manager, _) => (.error (.err .outOfGas), { manager with tree := treeSnapshot })
        | (.error msg, manager, _) =>
          (.error (.err (if mentionsGas msg then .outOfGas else .runtimeError msg)),
            { manager with tree := treeSnapshot })

/-- `VMExecutor::execute`: the gas used. The sender is not read. -/
def execute (wasmBytes : List UInt8) (manager : StateManager S) (gasLimit : UInt64) :
    Except (Abort VMError) Nat × StateManager S :=
  match manager.tree.clone with
  | .error _ => (.error .panic, manager)
  | .ok treeSnapshot =>
    match (GasMeter.new gasLimit).chargeIntrinsic with
    | (.error error, _) => (.error (.err error), manager)
    | (.ok (), gas) =>
      match gas.chargePayload wasmBytes with
      | (.error error, _) => (.error (.err error), manager)
      | (.ok (), gas) =>
        match Wasmer.compile wasmBytes with
        | .error msg => (.error (.err (.wasmError msg)), manager)
        | .ok module => executeModule module manager gas gasLimit treeSnapshot

end VMExecutor
end Klomang
