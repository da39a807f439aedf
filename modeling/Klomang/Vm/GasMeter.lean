import Mathlib.Algebra.Group.Int.Defs
import Mathlib.Algebra.GroupWithZero.Nat

/-! `core/vm/gas_meter.rs`: the books of one contract execution. The `u64`
counters saturate; the balance is an `i128` that costs of 64 bits cannot overflow. -/
namespace Klomang

inductive VMError where
  | outOfGas
  | runtimeError (msg : String)
  | stateError (msg : String)
  | wasmError (msg : String)
  deriving DecidableEq

/-- The `Display` text of an error. -/
def VMError.text : VMError → String
  | .outOfGas => "Out of gas"
  | .runtimeError msg => "Runtime error: " ++ msg
  | .stateError msg => "State access error: " ++ msg
  | .wasmError msg => "WASM error: " ++ msg

/-- `u64::saturating_add`. -/
def saturatingAdd (left right : Nat) : Nat := min (left + right) (2 ^ 64 - 1)

structure GasMeter where
  initial : Int
  remaining : Int
  consumedWasm : Nat
  consumedHost : Nat
  refund : Nat

namespace GasMeter

/-- `INTRINSIC_GAS`. -/
def intrinsicGas : Nat := 21_000

/-- `STATE_READ_COST`. -/
def stateReadCost : Nat := 2_100

/-- `STATE_WRITE_NEW_COST`. -/
def stateWriteNewCost : Nat := 20_000

/-- `STATE_WRITE_UPDATE_COST`. -/
def stateWriteUpdateCost : Nat := 5_000

/-- `SELF_DESTRUCT_REFUND`. -/
def selfDestructRefund : Nat := 24_000

/-- `GasMeter::new`. -/
def new (gasLimit : UInt64) : GasMeter := ⟨gasLimit.toNat, gasLimit.toNat, 0, 0, 0⟩

/-- `consume_host`. The cost is booked even when the budget is exceeded. -/
def consumeHost (gas : GasMeter) (cost : Nat) : Except VMError Unit × GasMeter :=
  let gas := { gas with
    remaining := gas.remaining - cost
    consumedHost := saturatingAdd gas.consumedHost cost }
  (if gas.remaining < 0 then .error .outOfGas else .ok (), gas)

/-- `charge_intrinsic`. -/
def chargeIntrinsic (gas : GasMeter) : Except VMError Unit × GasMeter := gas.consumeHost intrinsicGas

/-- `charge_payload`. -/
def chargePayload (gas : GasMeter) (payload : List UInt8) : Except VMError Unit × GasMeter :=
  gas.consumeHost (payload.foldl (fun total byte => saturatingAdd total (if byte = 0 then 4 else 16)) 0)

/-- `charge_state_read`. -/
def chargeStateRead (gas : GasMeter) : Except VMError Unit × GasMeter := gas.consumeHost stateReadCost

/-- The cost of a write to a new or to an existing key. -/
def stateWriteCost (isNew : Bool) : Nat := if isNew then stateWriteNewCost else stateWriteUpdateCost

/-- `charge_state_write`. -/
def chargeStateWrite (gas : GasMeter) (isNew : Bool) : Except VMError Unit × GasMeter :=
  gas.consumeHost (stateWriteCost isNew)

/-- `charge_wasm`, by way of `consume_host`. -/
def chargeWasm (gas : GasMeter) (cost : Nat) : Except VMError Unit × GasMeter :=
  match gas.consumeHost cost with
  | (.error error, gas) => (.error error, gas)
  | (.ok (), gas) => (.ok (), { gas with consumedWasm := saturatingAdd gas.consumedWasm cost })

/-- `consume_opcode`. -/
def consumeOpcode (gas : GasMeter) (opcodeCost : Nat) : Except VMError Unit × GasMeter :=
  let gas := { gas with
    remaining := gas.remaining - opcodeCost
    consumedWasm := saturatingAdd gas.consumedWasm opcodeCost }
  (if gas.remaining < 0 then .error .outOfGas else .ok (), gas)

/-- `get_used`; the difference is cut to 64 bits. -/
def getUsed (gas : GasMeter) : Nat := ((gas.initial - gas.remaining) % 2 ^ 64).toNat

/-- `refund_self_destruct`. -/
def refundSelfDestruct (gas : GasMeter) : GasMeter :=
  { gas with refund := saturatingAdd gas.refund selfDestructRefund }

/-- `finalize`: the net gas used and the refund that is paid. -/
def finalize (gas : GasMeter) (totalUsed : Nat) : Nat × Nat :=
  let actualRefund := min gas.refund (totalUsed / 5)
  (totalUsed - actualRefund, actualRefund)

end GasMeter

/-- The operators that `opcode_cost` tells apart. -/
inductive Operator where
  | i32Add | i32Sub | i32Mul | i64Add | i64Sub | i64Mul
  | i32DivS | i32DivU | i64DivS | i64DivU | f32Sqrt | f64Sqrt
  | i32Load | i64Load | f32Load | f64Load | i32Store | i64Store | f32Store | f64Store
  | call | callIndirect | memoryCopy | memoryFill
  | other
  deriving DecidableEq

/-- `opcode_cost`. -/
def GasMeter.opcodeCost : Operator → Nat
  | .i32Add | .i32Sub | .i32Mul | .i64Add | .i64Sub | .i64Mul => 3
  | .i32DivS | .i32DivU | .i64DivS | .i64DivU | .f32Sqrt | .f64Sqrt => 10
  | .i32Load | .i64Load | .f32Load | .f64Load | .i32Store | .i64Store | .f32Store | .f64Store => 3
  | .call => 20
  | .callIndirect => 40
  | .memoryCopy | .memoryFill => 50
  | .other => 1

end Klomang
