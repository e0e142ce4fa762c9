import Tollgate.Core.Delivery

/-!
# The charger driver

`driver.rs` of the charger host: the device contract on top of the delivery engine. The driver
synthesises readings from the time since the grant was acknowledged, journals the last one, and
remembers a stop that the wire does not acknowledge until the next tick settles it.
-/

set_option autoImplicit false
set_option relaxedAutoImplicit false

namespace Tollgate

/-- The price from which cost is synthesised. -/
structure PriceVector where
  perSecondMillis : UInt64
  deriving DecidableEq, Repr

/-- A decoded message from the charger. -/
inductive Inbound
  | grantAck (receivedAt : Millis)
  | done (receivedAt : Millis) (raw : Bytes)
  | aborted (receivedAt : Millis) (raw : Bytes)
  deriving DecidableEq

/-- A command for the host shell. -/
inductive Outbound
  | publishStart (device : String) (endEpochSec : UInt64)
  | publishStop (device : String)
  | settle (nonce amountMillis : UInt64)
  | refund (nonce amountMillis : UInt64)
  deriving DecidableEq

/-- Why the driver stopped the device before it reported. -/
inductive PendingStop
  | capSeconds | capCost | revoked
  deriving DecidableEq, Repr

def PendingStop.kind : PendingStop → TerminalKind
  | capSeconds => .capSeconds
  | capCost => .capCost
  | revoked => .revoked

/-- The driver of one device session. -/
structure ChargerDriver where
  device : String
  engine : DeliveryEngine
  price : PriceVector
  grant : Grant
  ackedAt : Option Millis
  last : Progress
  pendingStop : Option PendingStop
  deriving DecidableEq

/-- Whole seconds until the lease runs out. -/
def leaseSecondsRemaining (grant : Grant) (now : Millis) : UInt64 :=
  grant.lease.expiresAt.saturatingSub now / 1000

namespace ChargerDriver

/-- Arm a session. -/
def «open» (device : String) (grant : Grant) (price : PriceVector) (now : Millis) :
    ChargerDriver × List Outbound :=
  ({ device := device
     engine := (DeliveryEngine.new.handle (.grantIssued grant)).1
     price := price
     grant := grant
     ackedAt := none
     last := ⟨0, 0, 0, now⟩
     pendingStop := none },
    [.publishStart device (now / 1000 + leaseSecondsRemaining grant now)])

/-- Crash recovery from the journal. The product of the elapsed seconds wraps where the source's
does in a release build. -/
def resume (device : String) (grant : Grant) (price : PriceVector) (last : Progress) :
    ChargerDriver where
  device := device
  engine := DeliveryEngine.resume grant last
  price := price
  grant := grant
  ackedAt := some (last.observedAt.saturatingSub (last.secondsTotal * 1000))
  last := last
  pendingStop := none

variable (driver : ChargerDriver)

/-- The journal the host must persist for crash recovery. -/
def journal : Grant × Progress :=
  (driver.grant, driver.last)

/-- The reading at `now`: the whole seconds since the acknowledgement, at the price. -/
def synthesize (now : Millis) : Progress :=
  match driver.ackedAt with
  | some acked =>
    let seconds := Millis.since now acked / 1000
    ⟨0, seconds, seconds.saturatingMul driver.price.perSecondMillis, now⟩
  | none => ⟨0, 0, 0, now⟩

/-- A final report at the journalled totals. -/
def terminal (kind : TerminalKind) (reportedAt : Millis) (receipt : Option Bytes) :
    TerminalReport where
  kind := kind
  unitsTotal := driver.last.unitsTotal
  secondsTotal := driver.last.secondsTotal
  costMillisTotal := driver.last.costMillisTotal
  observedAt := reportedAt
  receipt := receipt

/-- Why a stop of the engine's own stops the device. -/
def stopReason : PendingStop :=
  if driver.grant.caps.maxCostMillis.any fun max ↦ max ≤ driver.last.costMillisTotal then .capCost
  else .capSeconds

/-- Translate the engine's actions. A stop is remembered unless one is pending already, and an
alarm is dropped. -/
def translate (driver : ChargerDriver) : List DeliveryAction → ChargerDriver × List Outbound
  | [] => (driver, [])
  | .stopDelivery _ :: rest =>
    let stopping :=
      if driver.pendingStop.isNone then { driver with pendingStop := some driver.stopReason }
      else driver
    ((stopping.translate rest).1, .publishStop driver.device :: (stopping.translate rest).2)
  | .settleDelivery nonce amountMillis :: rest =>
    ((driver.translate rest).1, .settle nonce amountMillis :: (driver.translate rest).2)
  | .refundChange nonce amountMillis :: rest =>
    ((driver.translate rest).1, .refund nonce amountMillis :: (driver.translate rest).2)
  | .alarm _ _ :: rest => driver.translate rest

/-- The actions that stop the device. -/
def stops : DeliveryAction → Bool
  | .stopDelivery _ => true
  | .settleDelivery _ _ | .refundChange _ _ | .alarm _ _ => false

/-- Translation changes nothing but the pending stop: one that is there already stays. -/
theorem translate_frame (driver : ChargerDriver) (actions : List DeliveryAction) :
    (driver.translate actions).1 =
      { driver with
        pendingStop := driver.pendingStop.or
          (if actions.any stops then some driver.stopReason else none) } := by
  induction actions generalizing driver with
  | nil => simp [translate]
  | cons action rest ih =>
    cases action with
    | stopDelivery nonce =>
      simp only [translate, ih]
      cases hpending : driver.pendingStop with
      | none => simp [stops, stopReason]
      | some reason => simp [hpending, stops]
    | settleDelivery nonce amountMillis => simp [translate, ih, stops]
    | refundChange nonce amountMillis => simp [translate, ih, stops]
    | alarm nonce reason => simp [translate, ih, stops]

/-- Run one event through the engine. -/
def dispatch (event : DeliveryEvent) : ChargerDriver × List Outbound :=
  let handled := driver.engine.handle event
  { driver with engine := handled.1 }.translate handled.2

/-- Dispatching changes the engine and the pending stop only. -/
theorem dispatch_frame (driver : ChargerDriver) (event : DeliveryEvent) :
    (driver.dispatch event).1 =
      { driver with
        engine := (driver.engine.handle event).1
        pendingStop := driver.pendingStop.or
          (if (driver.engine.handle event).2.any stops then some driver.stopReason else none) } :=
  translate_frame { driver with engine := (driver.engine.handle event).1 } _

/-- Journal the reading at `now`, unless a stop has frozen the journal. -/
def journalUnlessStopped (now : Millis) : ChargerDriver :=
  if driver.pendingStop.isNone then { driver with last := driver.synthesize now } else driver

def handleMessage : Inbound → ChargerDriver × List Outbound
  | .grantAck receivedAt => ({ driver with ackedAt := some receivedAt }, [])
  | .done receivedAt raw =>
    let journalled := driver.journalUnlessStopped receivedAt
    journalled.dispatch (.terminalObserved (journalled.terminal .capSeconds receivedAt (some raw)))
  | .aborted receivedAt raw =>
    let journalled := driver.journalUnlessStopped receivedAt
    journalled.dispatch (.terminalObserved (journalled.terminal .completed receivedAt (some raw)))

/-- A timer tick: settle a pending stop at the frozen journal, or take a reading and enforce the
caps and the lease. -/
def tick (now : Millis) : ChargerDriver × List Outbound :=
  if driver.engine.phase = .done then (driver, [])
  else
    match driver.pendingStop with
    | some reason =>
      { driver with pendingStop := none }.dispatch
        (.terminalObserved (driver.terminal reason.kind driver.last.observedAt none))
    | none =>
      let progress := driver.synthesize now
      let observed := { driver with last := progress }.dispatch (.progressObserved progress)
      let ticked := observed.1.dispatch (.tick now)
      (ticked.1, observed.2 ++ ticked.2)

theorem tick_of_done {driver : ChargerDriver} (hdone : driver.engine.phase = .done)
    (now : Millis) : driver.tick now = (driver, []) := by
  rw [tick, if_pos hdone]

/-- A tick settles a pending stop at the journal. -/
theorem tick_of_pending {driver : ChargerDriver} {reason : PendingStop}
    (hopen : driver.engine.phase ≠ .done) (hpending : driver.pendingStop = some reason)
    (now : Millis) :
    driver.tick now = { driver with pendingStop := none }.dispatch
      (.terminalObserved (driver.terminal reason.kind driver.last.observedAt none)) := by
  rw [tick, if_neg hopen, hpending]

/-- A tick with no stop pending journals a reading and hands it to the engine, and then the time. -/
theorem tick_of_reading {driver : ChargerDriver} (hopen : driver.engine.phase ≠ .done)
    (hpending : driver.pendingStop = none) (now : Millis) :
    driver.tick now =
      (({ driver with last := driver.synthesize now }.dispatch
          (.progressObserved (driver.synthesize now))).1.dispatch (.tick now) |>.1,
        ({ driver with last := driver.synthesize now }.dispatch
            (.progressObserved (driver.synthesize now))).2 ++
          (({ driver with last := driver.synthesize now }.dispatch
            (.progressObserved (driver.synthesize now))).1.dispatch (.tick now)).2) := by
  rw [tick, if_neg hopen, hpending]

/-- The trust-holder asked to revoke the grant. -/
def revoke (now : Millis) : ChargerDriver × List Outbound :=
  { driver with pendingStop := some .revoked }.dispatch (.revokeRequested now)

/-- A call of the driver. -/
inductive Call
  | handleMessage (inbound : Inbound)
  | tick (now : Millis)
  | revoke (now : Millis)
  deriving DecidableEq

/-- The driver as a machine over its calls. -/
def machine : Transducer ChargerDriver Call Outbound where
  step driver
    | .handleMessage inbound => driver.handleMessage inbound
    | .tick now => driver.tick now
    | .revoke now => driver.revoke now

/-- The acknowledgement that a call brings. -/
def Call.acked : Call → Option Millis
  | .handleMessage (.grantAck receivedAt) => some receivedAt
  | .handleMessage (.done _ _) | .handleMessage (.aborted _ _) | .tick _ | .revoke _ => none

/-- A call leaves the device, the price and the grant as they are. -/
theorem step_frame (driver : ChargerDriver) (call : Call) :
    (machine.step driver call).1.device = driver.device ∧
      (machine.step driver call).1.price = driver.price ∧
      (machine.step driver call).1.grant = driver.grant := by
  have hjournal (now : Millis) (event : DeliveryEvent) :
      ((driver.journalUnlessStopped now).dispatch event).1.device = driver.device ∧
        ((driver.journalUnlessStopped now).dispatch event).1.price = driver.price ∧
        ((driver.journalUnlessStopped now).dispatch event).1.grant = driver.grant := by
    rw [dispatch_frame, journalUnlessStopped]
    split_ifs <;> exact ⟨rfl, rfl, rfl⟩
  cases call with
  | handleMessage inbound =>
    cases inbound with
    | grantAck receivedAt => exact ⟨rfl, rfl, rfl⟩
    | done receivedAt raw => exact hjournal receivedAt _
    | aborted receivedAt raw => exact hjournal receivedAt _
  | tick now =>
    show (driver.tick now).1.device = _ ∧ (driver.tick now).1.price = _ ∧
      (driver.tick now).1.grant = _
    by_cases hopen : driver.engine.phase = .done
    · rw [tick_of_done hopen]
      exact ⟨rfl, rfl, rfl⟩
    · cases hpending : driver.pendingStop with
      | some reason =>
        rw [tick_of_pending hopen hpending, dispatch_frame]
        exact ⟨rfl, rfl, rfl⟩
      | none =>
        rw [tick_of_reading hopen hpending, dispatch_frame, dispatch_frame]
        exact ⟨rfl, rfl, rfl⟩
  | revoke now =>
    show (driver.revoke now).1.device = _ ∧ (driver.revoke now).1.price = _ ∧
      (driver.revoke now).1.grant = _
    rw [revoke, dispatch_frame]
    exact ⟨rfl, rfl, rfl⟩

/-- Only an acknowledgement moves the baseline. -/
theorem ackedAt_step (driver : ChargerDriver) (call : Call) :
    (machine.step driver call).1.ackedAt = call.acked.or driver.ackedAt := by
  have hreport (now : Millis) (event : DeliveryEvent) :
      ((driver.journalUnlessStopped now).dispatch event).1.ackedAt = driver.ackedAt := by
    rw [dispatch_frame, journalUnlessStopped]
    split_ifs <;> rfl
  cases call with
  | handleMessage inbound =>
    cases inbound with
    | grantAck receivedAt => rfl
    | done receivedAt raw => exact hreport receivedAt _
    | aborted receivedAt raw => exact hreport receivedAt _
  | tick now =>
    show (driver.tick now).1.ackedAt = driver.ackedAt
    by_cases hopen : driver.engine.phase = .done
    · rw [tick_of_done hopen]
    · cases hpending : driver.pendingStop with
      | some reason => rw [tick_of_pending hopen hpending, dispatch_frame]
      | none => rw [tick_of_reading hopen hpending, dispatch_frame, dispatch_frame]
  | revoke now =>
    show (driver.revoke now).1.ackedAt = driver.ackedAt
    rw [revoke, dispatch_frame]

end ChargerDriver

end Tollgate
