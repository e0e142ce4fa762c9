import Tollgate.Core.Basic
import Tollgate.Library.Transducer

/-!
# Budgeted delivery

`delivery.rs`: a grant authorises a price-blind agent to deliver up to three caps. The guard keeps
the grant and the last cumulative reading, and the engine turns what the host observes into stops,
settlements and refunds. Settlement is `settleFromTotals`: it burns the attested cost, clamped to
the deposit and to the money cap, and refunds the rest.
-/

set_option autoImplicit false
set_option relaxedAutoImplicit false

namespace Tollgate

/-! ### Grants, readings and reports -/

/-- The three caps of a budget; `none` is unbounded. -/
structure Caps where
  maxUnits : Option UInt64
  maxSeconds : Option UInt64
  maxCostMillis : Option UInt64
  deriving DecidableEq, Repr

/-- Whether any bound is set at all. -/
def Caps.bounded (caps : Caps) : Bool :=
  caps.maxUnits.isSome || caps.maxSeconds.isSome || caps.maxCostMillis.isSome

/-- Expiry-if-not-exercised terms. -/
structure Lease where
  expiresAt : Millis
  deriving DecidableEq, Repr

/-- The scoped authorisation issued by the trust-holder. -/
structure Grant where
  nonce : UInt64
  depositMillis : UInt64
  caps : Caps
  lease : Lease
  deriving DecidableEq, Repr

/-- A cumulative, timestamped observation. -/
structure Progress where
  unitsTotal : UInt64
  secondsTotal : UInt64
  costMillisTotal : UInt64
  observedAt : Millis
  deriving DecidableEq, Repr

/-- Why delivery ended. -/
inductive TerminalKind
  | completed | capUnits | capSeconds | capCost | failed | revoked | leaseExpired
  deriving DecidableEq, Repr

/-- The discriminant of a kind, in the order of their declaration. -/
def TerminalKind.asU64 : TerminalKind → UInt64
  | completed => 0
  | capUnits => 1
  | capSeconds => 2
  | capCost => 3
  | failed => 4
  | revoked => 5
  | leaseExpired => 6

/-- The final outcome, with the evidence for it. -/
structure TerminalReport where
  kind : TerminalKind
  unitsTotal : UInt64
  secondsTotal : UInt64
  costMillisTotal : UInt64
  observedAt : Millis
  receipt : Option Bytes
  deriving DecidableEq

/-- What the host observed. -/
inductive DeliveryEvent
  | grantIssued (grant : Grant)
  | progressObserved (progress : Progress)
  | terminalObserved (report : TerminalReport)
  | revokeRequested (now : Millis)
  | tick (now : Millis)
  deriving DecidableEq

/-- Why the engine raised an alarm. -/
inductive AlarmReason
  | nonMonotonicProgress | unmatchedTerminal
  deriving DecidableEq, Repr

/-- What the engine asks the host to do. -/
inductive DeliveryAction
  | stopDelivery (nonce : UInt64)
  | settleDelivery (nonce amountMillis : UInt64)
  | refundChange (nonce amountMillis : UInt64)
  | alarm (nonce : UInt64) (reason : AlarmReason)
  deriving DecidableEq, Repr

inductive DeliveryPhase
  | idle | granted | delivering | done
  deriving DecidableEq, Repr

/-! ### The budget guard -/

/-- A grant and the last reading under it. -/
structure BudgetGuard where
  grant : Grant
  last : Progress
  deriving DecidableEq

namespace BudgetGuard

def new (grant : Grant) : BudgetGuard where
  grant := grant
  last := ⟨0, 0, 0, 0⟩

/-- The reading the guard would settle on if the grant lapsed now. -/
def journalled (guard : BudgetGuard) : Progress :=
  guard.last

/-- Which cap is exhausted at the current reading. -/
def exhausted (guard : BudgetGuard) : Option TerminalKind :=
  if guard.grant.caps.maxUnits.any fun max ↦ max ≤ guard.last.unitsTotal then some .capUnits
  else if guard.grant.caps.maxSeconds.any fun max ↦ max ≤ guard.last.secondsTotal then
    some .capSeconds
  else if guard.grant.caps.maxCostMillis.any fun max ↦ max ≤ guard.last.costMillisTotal then
    some .capCost
  else none

/-- A reading below the last one in any of its totals. -/
def nonMonotonic (guard : BudgetGuard) (progress : Progress) : Bool :=
  decide (progress.unitsTotal < guard.last.unitsTotal) ||
    decide (progress.secondsTotal < guard.last.secondsTotal) ||
    decide (progress.costMillisTotal < guard.last.costMillisTotal)

/-- Take a new reading. One that went backwards is refused and the last one stands; otherwise the
result is the cap that is now exhausted. -/
def apply (guard : BudgetGuard) (progress : Progress) :
    BudgetGuard × Except AlarmReason (Option TerminalKind) :=
  if guard.nonMonotonic progress then (guard, .error .nonMonotonicProgress)
  else
    let advanced := { guard with last := progress }
    (advanced, .ok advanced.exhausted)

@[simp] theorem apply_grant (guard : BudgetGuard) (progress : Progress) :
    (guard.apply progress).1.grant = guard.grant := by
  unfold apply
  split_ifs <;> rfl

end BudgetGuard

/-! ### The engine -/

/-- One delivery, under at most one grant. -/
structure DeliveryEngine where
  phase : DeliveryPhase
  guard : Option BudgetGuard
  deriving DecidableEq

namespace DeliveryEngine

def new : DeliveryEngine := ⟨.idle, none⟩

/-- Crash recovery from the journal. -/
def resume (grant : Grant) (last : Progress) : DeliveryEngine :=
  let guard := ((BudgetGuard.new grant).apply last).1
  ⟨if guard.exhausted.isSome then .granted else .delivering, some guard⟩

def nonce (engine : DeliveryEngine) : UInt64 :=
  match engine.guard with
  | some guard => guard.grant.nonce
  | none => 0

/-- What a final cost burns of the deposit. -/
def settlement (grant : Grant) (finalCostMillis : UInt64) : UInt64 :=
  min (min finalCostMillis grant.depositMillis)
    (grant.caps.maxCostMillis.getD UInt64.maxWord)

/-- Burn what the final cost says, refund the rest, and close the engine. -/
def settleFromTotals (engine : DeliveryEngine) (finalCostMillis : UInt64) :
    DeliveryEngine × List DeliveryAction :=
  match engine.guard with
  | some guard =>
    let settle := settlement guard.grant finalCostMillis
    ({ engine with phase := .done },
      [.settleDelivery guard.grant.nonce settle,
        .refundChange guard.grant.nonce (guard.grant.depositMillis - settle)])
  | none => (engine, [])

/-- Advance the engine. The source asserts, in debug builds only, that a grant has a cap. -/
def handle (engine : DeliveryEngine) : DeliveryEvent → DeliveryEngine × List DeliveryAction
  | .grantIssued grant =>
    match engine.phase with
    | .idle => (⟨.granted, some (BudgetGuard.new grant)⟩, [])
    | .granted | .delivering | .done => (engine, [])
  | .progressObserved progress =>
    -- The guard decides here, not the phase.
    match engine.guard with
    | some guard =>
      match guard.apply progress with
      | (refused, .error _) =>
        ({ engine with guard := some refused }, [.alarm engine.nonce .nonMonotonicProgress])
      | (advanced, .ok (some _)) =>
        (⟨.delivering, some advanced⟩, [.stopDelivery engine.nonce])
      | (advanced, .ok none) => (⟨.delivering, some advanced⟩, [])
    | none => (engine, [])
  | .terminalObserved report =>
    match engine.phase with
    | .idle => (engine, [.alarm report.kind.asU64 .unmatchedTerminal])
    | .granted | .delivering => engine.settleFromTotals report.costMillisTotal
    | .done => (engine, [])
  | .revokeRequested _ =>
    match engine.phase with
    | .granted | .delivering => (engine, [.stopDelivery engine.nonce])
    | .idle | .done => (engine, [])
  | .tick now =>
    match engine.guard, engine.phase with
    | some guard, .granted | some guard, .delivering =>
      if guard.grant.lease.expiresAt ≤ now then
        engine.settleFromTotals guard.journalled.costMillisTotal
      else (engine, [])
    | _, _ => (engine, [])

/-- The engine as a machine over what the host observes. -/
def machine : Transducer DeliveryEngine DeliveryEvent DeliveryAction where
  step := handle

@[simp] theorem machine_step (engine : DeliveryEngine) (event : DeliveryEvent) :
    machine.step engine event = engine.handle event := rfl

end DeliveryEngine

end Tollgate
