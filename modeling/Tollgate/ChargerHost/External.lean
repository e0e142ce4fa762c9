import Tollgate.Core.Delivery

/-!
# The external driver

`external.rs` of the charger host: the delivery contract on top of a provider that can only be
called. The port is a parameter: a provider state and four calls on it. The driver opens a session
with a quote as its deposit, polls it for readings, and settles from the receipt of its stop.
-/

set_option autoImplicit false
set_option relaxedAutoImplicit false

namespace Tollgate

/-- The provider failed before any delivery. -/
inductive ProviderError
  | refused
  deriving DecidableEq, Repr

/-- The provider's own account of what happened. -/
structure Receipt where
  costMillisTotal : UInt64
  secondsTotal : UInt64
  deriving DecidableEq, Repr

/-- What an adapter of a third-party meter provides: each call may change the provider. -/
structure ExternalProviderPort (Provider : Type) where
  quote : Provider → UInt64 → UInt64 × Provider
  start : Provider → UInt64 → UInt64 → Except ProviderError UInt64 × Provider
  poll : Provider → UInt64 → Millis → Progress × Provider
  stop : Provider → UInt64 → Receipt × Provider

/-- What the driver asks of its host. -/
inductive ExternalAction
  | settle (nonce amountMillis : UInt64)
  | refund (nonce amountMillis : UInt64)
  deriving DecidableEq, Repr

/-- One grant and at most one provider session. -/
structure ExternalDriver where
  engine : DeliveryEngine
  grant : Grant
  session : Option UInt64
  last : Progress
  deriving DecidableEq

namespace ExternalDriver

/-- The settlements and refunds among the engine's actions. -/
def translate (actions : List DeliveryAction) : List ExternalAction :=
  actions.filterMap fun
    | .settleDelivery nonce amountMillis => some (.settle nonce amountMillis)
    | .refundChange nonce amountMillis => some (.refund nonce amountMillis)
    | .stopDelivery _ | .alarm _ _ => none

/-- Crash recovery from the journal and the live session. -/
def resume (grant : Grant) (last : Progress) (session : UInt64) : ExternalDriver where
  engine := DeliveryEngine.resume grant last
  grant := grant
  session := some session
  last := last

variable {Provider : Type} (port : ExternalProviderPort Provider)

/-- Quote the window, lock the deposit and start the session. The deadline wraps where the source's
does in a release build. -/
def «open» (provider : Provider) (nonce maxSeconds : UInt64) (now : Millis) (leaseMs : UInt64) :
    Except ProviderError (ExternalDriver × List ExternalAction) × Provider :=
  let quoted := port.quote provider maxSeconds
  let started := port.start quoted.2 nonce maxSeconds
  let result := started.1.map fun session ↦
    let grant : Grant :=
      { nonce := nonce
        depositMillis := quoted.1
        caps := ⟨none, some maxSeconds, none⟩
        lease := ⟨now + leaseMs⟩ }
    ({ engine := (DeliveryEngine.new.handle (.grantIssued grant)).1
       grant := grant
       session := some session
       last := ⟨0, 0, 0, now⟩ }, [])
  (result, started.2)

variable (driver : ExternalDriver) (provider : Provider)

def journal : Grant × Progress :=
  (driver.grant, driver.last)

/-- The reading at `now`: the provider's if there is a session, the last one otherwise. -/
def polled (now : Millis) : Progress × Provider :=
  match driver.session with
  | some session => port.poll provider session now
  | none => (driver.last, provider)

/-- Poll the provider and feed the engine. -/
def tick (now : Millis) : (ExternalDriver × Provider) × List ExternalAction :=
  if driver.engine.phase = .done then ((driver, provider), [])
  else
    let reading := driver.polled port provider now
    let observed := driver.engine.handle (.progressObserved reading.1)
    let ticked := observed.1.handle (.tick now)
    (({ driver with last := reading.1, engine := ticked.1 }, reading.2),
      translate observed.2 ++ translate ticked.2)

/-- The final cost and time: the receipt's if there is a session to stop, the last reading's
otherwise. -/
def receipt : (UInt64 × UInt64) × Provider :=
  match driver.session with
  | some session =>
    let stopped := port.stop provider session
    ((stopped.1.costMillisTotal, stopped.1.secondsTotal), stopped.2)
  | none => ((driver.last.costMillisTotal, driver.last.secondsTotal), provider)

/-- Stop delivery at the provider and settle from the receipt. -/
def stop (now : Millis) : (ExternalDriver × Provider) × List ExternalAction :=
  if driver.engine.phase = .done then ((driver, provider), [])
  else
    let stopped := driver.receipt port provider
    let report : TerminalReport :=
      { kind := .completed
        unitsTotal := 0
        secondsTotal := stopped.1.2
        costMillisTotal := stopped.1.1
        observedAt := now
        receipt := none }
    let settled := driver.engine.handle (.terminalObserved report)
    (({ driver with session := none, engine := settled.1 }, stopped.2), translate settled.2)

/-- A call of the driver. -/
inductive Call
  | tick (now : Millis)
  | stop (now : Millis)
  deriving DecidableEq, Repr

/-- The driver and its provider as a machine over the driver's calls. -/
def machine : Transducer (ExternalDriver × Provider) Call ExternalAction where
  step state
    | .tick now => state.1.tick port state.2 now
    | .stop now => state.1.stop port state.2 now

end ExternalDriver

end Tollgate
