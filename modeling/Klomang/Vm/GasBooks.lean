import Klomang.Lib.Runs
import Klomang.Vm.GasMeter

/-! The books of the gas meter over any calls. Every call takes its cost from the balance once and books it once, but
for `charge_wasm`, which books a cost that is paid as a host cost and as an opcode cost. -/
namespace Klomang

/-- The calls that charge the meter or refund it. Costs are 64 bits wide. -/
inductive GasCall where
  | chargeIntrinsic
  | chargePayload (payload : List UInt8)
  | chargeStateRead
  | chargeStateWrite (isNew : Bool)
  | chargeWasm (cost : UInt64)
  | consumeHost (cost : UInt64)
  | consumeOpcode (opcodeCost : UInt64)
  | refundSelfDestruct

namespace GasMeter

/-- What `charge_payload` charges. -/
def payloadCost (payload : List UInt8) : Nat :=
  payload.foldl (fun total byte => saturatingAdd total (if byte = 0 then 4 else 16)) 0

/-- What a call charges. -/
def cost : GasCall → Nat
  | .chargeIntrinsic => intrinsicGas
  | .chargePayload payload => payloadCost payload
  | .chargeStateRead => stateReadCost
  | .chargeStateWrite isNew => stateWriteCost isNew
  | .chargeWasm cost => cost.toNat
  | .consumeHost cost => cost.toNat
  | .consumeOpcode opcodeCost => opcodeCost.toNat
  | .refundSelfDestruct => 0

/-- What a call returns, when it returns anything, and the meter after it. -/
def perform (gas : GasMeter) : GasCall → Option (Except VMError Unit) × GasMeter
  | .chargeIntrinsic => gas.chargeIntrinsic.map some id
  | .chargePayload payload => (gas.chargePayload payload).map some id
  | .chargeStateRead => gas.chargeStateRead.map some id
  | .chargeStateWrite isNew => (gas.chargeStateWrite isNew).map some id
  | .chargeWasm cost => (gas.chargeWasm cost.toNat).map some id
  | .consumeHost cost => (gas.consumeHost cost.toNat).map some id
  | .consumeOpcode opcodeCost => (gas.consumeOpcode opcodeCost.toNat).map some id
  | .refundSelfDestruct => (none, gas.refundSelfDestruct)

/-- The meter after a call. -/
def step (gas : GasMeter) (call : GasCall) : GasMeter := (gas.perform call).2

/-- What some calls charge together. -/
def charged (calls : List GasCall) : Nat := (calls.map cost).sum

/-- The books balance: what was taken from the balance is what was booked, and what `get_used` tells. -/
def Balanced (gas : GasMeter) : Prop :=
  gas.initial - gas.remaining = gas.consumedHost + gas.consumedWasm ∧ gas.consumedHost + gas.consumedWasm = gas.getUsed

/-- Every call that returns anything returns an error exactly when the charges so far exceed the limit. -/
def ErrsExactly (gasLimit : UInt64) (calls : List GasCall) : Prop :=
  ∀ before call, before ++ [call] <+: calls → ∀ result,
    ((Runs.run step (.new gasLimit) before).perform call).1 = some result →
      ((∃ error, result = .error error) ↔ gasLimit.toNat < charged (before ++ [call]))

/-- A call does not charge an opcode cost that is paid, at what was charged before it. -/
def BookedOnce (gasLimit : UInt64) (before : Nat) (call : GasCall) : Prop :=
  ∀ cost, call = .chargeWasm cost → cost = 0 ∨ gasLimit.toNat < before + cost.toNat

/-- How much more than it takes from the balance a call books, at what was charged before it. -/
def doubled (gasLimit : UInt64) (before : Nat) : GasCall → Nat
  | .chargeWasm cost => if gasLimit.toNat < before + cost.toNat then 0 else cost.toNat
  | _ => 0

/-- How much more than they take from the balance some calls book. -/
def doubledAll (gasLimit : UInt64) : Nat → List GasCall → Nat
  | _, [] => 0
  | before, call :: rest => doubled gasLimit before call + doubledAll gasLimit (before + cost call) rest

/-- The meter after calls that charged a total and booked some of it twice. -/
structure Booked (gas : GasMeter) (gasLimit : UInt64) (total twice : Nat) : Prop where
  initial : gas.initial = gasLimit.toNat
  remaining : gas.remaining = gasLimit.toNat - total
  host : gas.consumedHost ≤ total
  wasm : gas.consumedWasm ≤ total
  booked : gas.consumedHost + gas.consumedWasm = total + twice

section Steps
variable {gas : GasMeter} {gasLimit : UInt64} {total twice : Nat}

theorem saturating_add_fits {left right : Nat} (fits : left + right < 2 ^ 64) :
    saturatingAdd left right = left + right := by
  rw [saturatingAdd]
  omega

theorem booked_new (gasLimit : UInt64) : Booked (.new gasLimit) gasLimit 0 0 := by
  constructor <;> simp [GasMeter.new]

/-- A charge that is booked once, under whichever of the two counters, goes through unless the total exceeds the
limit. -/
theorem Booked.charge (booked : Booked gas gasLimit total twice) {cost host wasm : Nat} (hostLe : host ≤ total + cost)
    (wasmLe : wasm ≤ total + cost) (once : host + wasm = gas.consumedHost + gas.consumedWasm + cost) :
    (if gas.remaining - cost < 0 then .error .outOfGas else .ok () : Except VMError Unit) =
        (if gasLimit.toNat < total + cost then .error .outOfGas else .ok ()) ∧
      Booked { gas with remaining := gas.remaining - cost, consumedHost := host, consumedWasm := wasm } gasLimit
        (total + cost) twice := by
  have sum := booked.booked
  have left : gas.remaining - cost = gasLimit.toNat - (total + cost : Nat) := by
    rw [booked.remaining]
    omega
  rw [left]
  refine ⟨if_congr (by omega) rfl rfl, booked.initial, rfl, hostLe, wasmLe, ?_⟩
  dsimp only
  omega

theorem Booked.consume_host (booked : Booked gas gasLimit total twice) {cost : Nat} (fits : total + cost < 2 ^ 64) :
    (gas.consumeHost cost).1 = (if gasLimit.toNat < total + cost then .error .outOfGas else .ok ()) ∧
      Booked (gas.consumeHost cost).2 gasLimit (total + cost) twice := by
  have host := booked.host
  have wasm := booked.wasm
  rw [consumeHost, saturating_add_fits (show gas.consumedHost + cost < 2 ^ 64 by omega)]
  exact booked.charge (by omega) (by omega) (by omega)

theorem Booked.consume_opcode (booked : Booked gas gasLimit total twice) {cost : Nat} (fits : total + cost < 2 ^ 64) :
    (gas.consumeOpcode cost).1 = (if gasLimit.toNat < total + cost then .error .outOfGas else .ok ()) ∧
      Booked (gas.consumeOpcode cost).2 gasLimit (total + cost) twice := by
  have host := booked.host
  have wasm := booked.wasm
  rw [consumeOpcode, saturating_add_fits (show gas.consumedWasm + cost < 2 ^ 64 by omega)]
  exact booked.charge (by omega) (by omega) (by omega)

theorem consume_host_wasm {cost : Nat} {outcome : Except VMError Unit} {later : GasMeter}
    (ran : gas.consumeHost cost = (outcome, later)) : later.consumedWasm = gas.consumedWasm := by
  rw [consumeHost] at ran
  cases ran
  rfl

/-- An opcode cost that is paid is booked a second time. -/
theorem Booked.charge_wasm (booked : Booked gas gasLimit total twice) {cost : UInt64}
    (fits : total + cost.toNat < 2 ^ 64) :
    (gas.chargeWasm cost.toNat).1 = (if gasLimit.toNat < total + cost.toNat then .error .outOfGas else .ok ()) ∧
      Booked (gas.chargeWasm cost.toNat).2 gasLimit (total + cost.toNat)
        (twice + doubled gasLimit total (.chargeWasm cost)) := by
  have wasm := booked.wasm
  obtain ⟨result, charged⟩ := booked.consume_host fits
  rcases ran : gas.consumeHost cost.toNat with ⟨outcome, later⟩
  have kept := consume_host_wasm ran
  rw [ran] at result charged
  dsimp only at result charged
  rw [chargeWasm, ran, doubled]
  by_cases exceeds : gasLimit.toNat < total + cost.toNat
  · rw [if_pos exceeds] at result ⊢
    subst result
    rw [if_pos exceeds]
    exact ⟨rfl, charged⟩
  · rw [if_neg exceeds] at result ⊢
    subst result
    rw [if_neg exceeds]
    have sum := charged.booked
    dsimp only
    refine ⟨rfl, charged.initial, charged.remaining, charged.host, ?_, ?_⟩ <;> dsimp only <;>
      rw [kept, saturating_add_fits (show gas.consumedWasm + cost.toNat < 2 ^ 64 by omega)] <;> omega

theorem Booked.refund (booked : Booked gas gasLimit total twice) :
    Booked gas.refundSelfDestruct gasLimit total twice := by
  rw [refundSelfDestruct]
  exact ⟨booked.initial, booked.remaining, booked.host, booked.wasm, booked.booked⟩

/-- What any call does to the books, and what it returns. -/
theorem Booked.perform (booked : Booked gas gasLimit total twice) (call : GasCall) (fits : total + cost call < 2 ^ 64) :
    (∀ result, (gas.perform call).1 = some result →
      ((∃ error, result = .error error) ↔ gasLimit.toNat < total + cost call)) ∧
      Booked (step gas call) gasLimit (total + cost call) (twice + doubled gasLimit total call) := by
  have told : ∀ {outcome : Except VMError Unit} {charge : Nat},
      outcome = (if gasLimit.toNat < total + charge then .error .outOfGas else .ok ()) → ∀ result,
        some outcome = some result → ((∃ error, result = .error error) ↔ gasLimit.toNat < total + charge) := by
    rintro outcome charge same result found
    cases found
    subst same
    split <;> simp_all
  cases call with
  | refundSelfDestruct => exact ⟨fun result found => (by cases found), booked.refund⟩
  | consumeOpcode opcodeCost => exact ⟨told (booked.consume_opcode fits).1, (booked.consume_opcode fits).2⟩
  | chargeWasm cost => exact ⟨told (booked.charge_wasm fits).1, (booked.charge_wasm fits).2⟩
  | _ => exact ⟨told (booked.consume_host fits).1, (booked.consume_host fits).2⟩

end Steps

section Runs
variable {gas : GasMeter} {gasLimit : UInt64} {total twice : Nat}

theorem charged_append (first second : List GasCall) : charged (first ++ second) = charged first + charged second := by
  simp [charged]

theorem Booked.run (booked : Booked gas gasLimit total twice) (calls : List GasCall)
    (fits : total + charged calls < 2 ^ 64) :
    Booked (Runs.run step gas calls) gasLimit (total + charged calls) (twice + doubledAll gasLimit total calls) := by
  induction calls generalizing gas total twice with
  | nil => exact booked
  | cons call rest ih =>
    have sum : charged (call :: rest) = cost call + charged rest := by simp [charged]
    rw [sum] at fits ⊢
    rw [doubledAll, ← Nat.add_assoc, ← Nat.add_assoc]
    exact ih (booked.perform call (by omega)).2 (by omega)

/-- The books balance as long as nothing was booked twice. -/
theorem Booked.balanced_iff (booked : Booked gas gasLimit total twice) (fits : total < 2 ^ 64) :
    gas.Balanced ↔ twice = 0 := by
  have sum := booked.booked
  have taken : gas.initial - gas.remaining = total := by
    rw [booked.initial, booked.remaining]
    omega
  have used : gas.getUsed = total := by
    rw [getUsed, taken]
    omega
  rw [Balanced, taken, used]
  omega

theorem doubled_eq_zero_iff {before : Nat} {call : GasCall} :
    doubled gasLimit before call = 0 ↔ BookedOnce gasLimit before call := by
  cases call with
  | chargeWasm cost =>
    rw [doubled, BookedOnce]
    constructor
    · rintro free other same
      cases same
      split at free
      · rename_i exceeds
        exact .inr exceeds
      · exact .inl (UInt64.toNat_inj.mp free)
    · intro once
      rcases once cost rfl with rfl | exceeds
      · simp
      · rw [if_pos exceeds]
  | _ => exact iff_of_true rfl fun cost same => by cases same

theorem doubled_all_eq_zero_iff {before : Nat} {calls : List GasCall} :
    doubledAll gasLimit before calls = 0 ↔
      Runs.Meets (fun total call => total + cost call) before (BookedOnce gasLimit) calls := by
  induction calls generalizing before with
  | nil => exact iff_of_true rfl Runs.meets_nil
  | cons call rest ih => rw [doubledAll, Nat.add_eq_zero_iff, ih, doubled_eq_zero_iff, Runs.meets_cons]

/-- Over calls that charge less than 2^64, errors tell exactly what exceeds the limit, and the books balance exactly
when no `charge_wasm` pays for anything. -/
theorem books_balance_iff (gasLimit : UInt64) (calls : List GasCall) (fits : charged calls < 2 ^ 64) :
    ErrsExactly gasLimit calls ∧
      ((Runs.run step (.new gasLimit) calls).Balanced ↔
        Runs.Meets (fun total call => total + cost call) 0 (BookedOnce gasLimit) calls) := by
  have start := booked_new gasLimit
  constructor
  · intro before call partly result returned
    obtain ⟨rest, rfl⟩ := partly
    rw [charged_append, charged_append] at fits
    have single : charged [call] = cost call := by simp [charged]
    rw [single] at fits
    have reached := start.run before (by omega)
    rw [charged_append, single]
    simpa using (reached.perform call (by omega)).1 result returned
  · have reached := start.run calls (by omega)
    rw [reached.balanced_iff (by omega), ← doubled_all_eq_zero_iff, Nat.zero_add]

/-- A paid opcode cost of three is taken once and booked twice. -/
theorem wasm_cost_doubled :
    charged [.chargeWasm 3] < 2 ^ 64 ∧ ¬ (Runs.run step (.new 10) [.chargeWasm 3]).Balanced := by
  refine ⟨by decide, fun balanced => ?_⟩
  obtain ⟨taken, _⟩ := balanced
  revert taken
  decide

/-- A host cost, an opcode cost, and a `charge_wasm` beyond the limit leave the books balanced. -/
theorem refused_wasm_balanced :
    (Runs.run step (.new 10) [.consumeHost 2, .consumeOpcode 3, .refundSelfDestruct, .chargeWasm 9]).Balanced := by
  obtain ⟨_, exact⟩ := books_balance_iff 10 [.consumeHost 2, .consumeOpcode 3, .refundSelfDestruct, .chargeWasm 9]
    (by decide)
  rw [exact]
  simp only [Runs.meets_cons, Runs.meets_nil, BookedOnce]
  refine ⟨?_, ?_, ?_, ?_, trivial⟩ <;> rintro cost same <;> cases same
  exact .inr (by decide)

end Runs

section Precharge
variable {payload : List UInt8}

/-- The cost of one byte of a payload. -/
def byteCost (byte : UInt8) : Nat := if byte = 0 then 4 else 16

/-- The costs of the bytes of a payload, added up without a bound. -/
def byteCosts (payload : List UInt8) : Nat := (payload.map byteCost).sum

theorem byte_costs_cons (byte : UInt8) (rest : List UInt8) :
    byteCosts (byte :: rest) = byteCost byte + byteCosts rest := by
  rw [byteCosts, List.map_cons, List.sum_cons]
  rfl

theorem byte_costs_le (payload : List UInt8) : byteCosts payload ≤ 16 * payload.length := by
  induction payload with
  | nil => simp [byteCosts]
  | cons byte rest ih =>
    have one : byteCost byte ≤ 16 := by
      rw [byteCost]
      split <;> decide
    rw [byte_costs_cons, List.length_cons]
    omega

/-- A fold that saturates in every round saturates once. -/
theorem fold_saturating (payload : List UInt8) {start : Nat} (low : start ≤ 2 ^ 64 - 1) :
    payload.foldl (fun total byte => saturatingAdd total (byteCost byte)) start =
      min (start + byteCosts payload) (2 ^ 64 - 1) := by
  induction payload generalizing start with
  | nil =>
    rw [List.foldl_nil, byteCosts, List.map_nil, List.sum_nil]
    omega
  | cons byte rest ih =>
    rw [List.foldl_cons, saturatingAdd, ih (Nat.min_le_right _ _), byte_costs_cons]
    omega

/-- A fold that wraps in every round wraps once. -/
theorem fold_wrapping (payload : List UInt8) {start : Nat} (low : start < 2 ^ 64) :
    payload.foldl (fun total byte => (total + byteCost byte) % 2 ^ 64) start =
      (start + byteCosts payload) % 2 ^ 64 := by
  induction payload generalizing start with
  | nil =>
    rw [List.foldl_nil, byteCosts, List.map_nil, List.sum_nil, Nat.add_zero, Nat.mod_eq_of_lt low]
  | cons byte rest ih =>
    rw [List.foldl_cons, ih (Nat.mod_lt _ (by decide)), Nat.mod_add_mod, byte_costs_cons, Nat.add_assoc]

theorem payload_cost_eq (payload : List UInt8) : payloadCost payload = min (byteCosts payload) (2 ^ 64 - 1) := by
  have summed := fold_saturating payload (Nat.zero_le _)
  rw [Nat.zero_add] at summed
  exact summed

theorem consume_host_ok_iff {gas later : GasMeter} {cost : Nat} :
    gas.consumeHost cost = (.ok (), later) ↔ (cost : Int) ≤ gas.remaining ∧
      later = { gas with remaining := gas.remaining - cost, consumedHost := saturatingAdd gas.consumedHost cost } := by
  rw [consumeHost]
  dsimp only
  rw [Prod.mk.injEq]
  constructor
  · rintro ⟨paid, rfl⟩
    split at paid
    · cases paid
    · exact ⟨by omega, rfl⟩
  · rintro ⟨covers, rfl⟩
    exact ⟨if_neg (by omega), rfl⟩

/-- The charges before a module runs go through exactly when the limit covers them, and are then what the host has
consumed. -/
theorem precharge_ok_iff (gasLimit : UInt64) (payload : List UInt8) {later : GasMeter} :
    (∃ gas, (GasMeter.new gasLimit).chargeIntrinsic = (.ok (), gas) ∧ gas.chargePayload payload = (.ok (), later)) ↔
      intrinsicGas + byteCosts payload ≤ gasLimit.toNat ∧
      later = ⟨gasLimit.toNat, gasLimit.toNat - (intrinsicGas + byteCosts payload : Nat), 0,
        intrinsicGas + byteCosts payload, 0⟩ := by
  have bound := gasLimit.toNat_lt
  have intrinsic : intrinsicGas = 21_000 := rfl
  have charge (gas : GasMeter) : gas.chargePayload payload = gas.consumeHost (payloadCost payload) := rfl
  simp only [chargeIntrinsic, charge, consume_host_ok_iff, payload_cost_eq, GasMeter.new]
  constructor
  · rintro ⟨_, ⟨first, rfl⟩, second, rfl⟩
    dsimp only at second ⊢
    have fits : intrinsicGas + byteCosts payload ≤ gasLimit.toNat := by omega
    have whole : min (byteCosts payload) (2 ^ 64 - 1) = byteCosts payload := by omega
    refine ⟨fits, ?_⟩
    rw [whole, saturating_add_fits (show 0 + intrinsicGas < 2 ^ 64 by decide), saturating_add_fits (by omega),
      Nat.zero_add, Int.sub_sub, Int.natCast_add]
  · rintro ⟨fits, rfl⟩
    have whole : min (byteCosts payload) (2 ^ 64 - 1) = byteCosts payload := by omega
    refine ⟨_, ⟨by omega, rfl⟩, ?_, ?_⟩
    · dsimp only
      omega
    · dsimp only
      rw [whole, saturating_add_fits (show 0 + intrinsicGas < 2 ^ 64 by decide), saturating_add_fits (by omega),
        Nat.zero_add, Int.sub_sub, Int.natCast_add]

end Precharge
end GasMeter
end Klomang
