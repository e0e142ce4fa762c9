import Tollgate.ChargerHost.Calls

/-!
# The device in the loop

`sim.rs` is the charger of the wire contract as a pure model in virtual time, and `Harness` of the
conformance suite closes the loop: what the driver commands is done to the device, and what the
device reports is handed back. In every order of ticks, device reports, button presses and
revocations the device draws power exactly while the session is under way (`powered_iff`), so
nothing is delivered after a settlement or a stop.
-/

set_option autoImplicit false
set_option relaxedAutoImplicit false

namespace Tollgate

/-! ### The device -/

/-- The pure model of one charger: the acknowledged window, from its start to its end. -/
structure MockCharger where
  window : Option (Millis × Millis)
  deriving DecidableEq

namespace MockCharger

def new : MockCharger := ⟨none⟩

/-- `start` is refused while a session is running. The end wraps where the source's product does in
a release build. -/
def start (sim : MockCharger) (now : Millis) (endEpochSec : UInt64) : MockCharger × Option String :=
  match sim.window with
  | some _ => (sim, none)
  | none => (⟨some (now, endEpochSec * 1000)⟩, some "start-acked")

/-- `stop` kills the countdown and says nothing. -/
def stop (_ : MockCharger) : MockCharger := ⟨none⟩

/-- Pump virtual time: the window ends, with a report. -/
def pump (sim : MockCharger) (now : Millis) : MockCharger × Option String :=
  match sim.window with
  | some (_, endsAt) => if endsAt ≤ now then (⟨none⟩, some "countdown-finished") else (sim, none)
  | none => (sim, none)

/-- Pumping does nothing, or the window has ended and the device is idle. -/
theorem pump_cases (sim : MockCharger) (now : Millis) :
    sim.pump now = (sim, none) ∨ ∃ startedAt endsAt, sim.window = some (startedAt, endsAt) ∧
      endsAt ≤ now ∧ sim.pump now = (new, some "countdown-finished") := by
  unfold pump
  cases hwindow : sim.window with
  | none => exact Or.inl rfl
  | some window =>
    by_cases hended : window.2 ≤ now
    · exact Or.inr ⟨window.1, window.2, rfl, hended, if_pos hended⟩
    · exact Or.inl (if_neg hended)

end MockCharger

/-! ### The harness -/

/-- A grant with a time cap and a money cap. -/
def timeMoneyGrant (nonce depositMillis maxSeconds maxCostMillis expiresAtMs : UInt64) : Grant where
  nonce := nonce
  depositMillis := depositMillis
  caps := ⟨none, some maxSeconds, some maxCostMillis⟩
  lease := ⟨expiresAtMs⟩

/-- The driver, its device and virtual time, with the commands executed so far. -/
structure Harness where
  driver : ChargerDriver
  sim : MockCharger
  now : Millis
  log : List Outbound

namespace Harness

/-- Execute one command. `none` is a failed assertion: the device must acknowledge a grant, and the
driver has nothing to say to that. -/
def executeOne (harness : Harness) (command : Outbound) : Option Harness :=
  match command with
  | .publishStart _ endEpochSec =>
    let started := harness.sim.start harness.now endEpochSec
    let acked := harness.driver.handleMessage (.grantAck harness.now)
    if started.2 = some "start-acked" ∧ acked.2 = [] then
      some { harness with
        driver := acked.1, sim := started.1, log := harness.log ++ [command] }
    else none
  | .publishStop _ => some { harness with sim := harness.sim.stop, log := harness.log ++ [command] }
  | .settle _ _ | .refund _ _ => some { harness with log := harness.log ++ [command] }

def execute (harness : Harness) (out : List Outbound) : Option Harness :=
  out.foldlM executeOne harness

/-- A harness with a session armed at `now`. The suite's own are armed at one million. -/
def start (device : String) (grant : Grant) (price : PriceVector) (now : Millis) : Option Harness :=
  let opened := ChargerDriver.open device grant price now
  execute ⟨opened.1, MockCharger.new, now, []⟩ opened.2

/-- Call the driver and execute what it says. -/
def call (harness : Harness) (request : ChargerDriver.Call) : Option Harness :=
  let called := ChargerDriver.machine.step harness.driver request
  execute { harness with driver := called.1 } called.2

/-- Let time pass. The clock wraps where the source's sum does in a release build. -/
def elapse (harness : Harness) (stepMs : UInt64) : Harness :=
  { harness with now := harness.now + stepMs }

/-- Pump the device and hand a report on. -/
def pump (harness : Harness) : Option Harness :=
  let pumped := harness.sim.pump harness.now
  match pumped.2 with
  | some payload =>
    call { harness with sim := pumped.1 }
      (.handleMessage (.done harness.now payload.toUTF8.data.toList))
  | none => some { harness with sim := pumped.1 }

def tick (harness : Harness) : Option Harness :=
  harness.call (.tick harness.now)

/-- The button of the device: only the driver hears of it. -/
def abort (harness : Harness) : Option Harness :=
  harness.call (.handleMessage (.aborted harness.now "button".toUTF8.data.toList))

def revoke (harness : Harness) : Option Harness :=
  harness.call (.revoke harness.now)

end Harness

/-! ### Executing what the driver says -/

namespace Outbound

/-- The command that starts a session. -/
def starts : Outbound → Bool
  | .publishStart _ _ => true
  | .publishStop _ | .settle _ _ | .refund _ _ => false

/-- The command that stops the device. -/
def stops : Outbound → Bool
  | .publishStop _ => true
  | .publishStart _ _ | .settle _ _ | .refund _ _ => false

end Outbound

namespace ChargerDriver

variable {driver : ChargerDriver} {grant : Grant} {last : Progress}

theorem starts_translate (driver : ChargerDriver) (actions : List DeliveryAction) :
    ∀ command ∈ (driver.translate actions).2, command.starts = false := by
  induction actions generalizing driver with
  | nil => simp [translate]
  | cons action rest ih =>
    cases action with
    | alarm nonce reason => exact ih driver
    | _ =>
      rw [translate]
      exact List.forall_mem_cons.mpr ⟨rfl, ih _⟩

theorem starts_dispatch (driver : ChargerDriver) (event : DeliveryEvent) :
    ∀ command ∈ (driver.dispatch event).2, command.starts = false :=
  starts_translate _ _

/-- No call starts the device again. -/
theorem starts_step (driver : ChargerDriver) (call : Call) :
    ∀ command ∈ (machine.step driver call).2, command.starts = false := by
  cases call with
  | handleMessage inbound =>
    cases inbound with
    | grantAck receivedAt => simp [machine, handleMessage]
    | done receivedAt raw => exact starts_dispatch _ _
    | aborted receivedAt raw => exact starts_dispatch _ _
  | revoke now => exact starts_dispatch _ _
  | tick now =>
    show ∀ command ∈ (driver.tick now).2, command.starts = false
    by_cases hopen : driver.engine.phase = .done
    · simp [tick_of_done hopen]
    · cases hpending : driver.pendingStop with
      | some reason =>
        rw [tick_of_pending hopen hpending]
        exact starts_dispatch _ _
      | none =>
        rw [tick_of_reading hopen hpending]
        exact fun command hmem ↦ (List.mem_append.mp hmem).elim (starts_dispatch _ _ command)
          (starts_dispatch _ _ command)

/-- The session is under way: it has not settled and no stop is pending. -/
def UnderWay (driver : ChargerDriver) : Prop :=
  ¬ driver.engine.Done ∧ driver.pendingStop = none

/-- The commands of a reading that was kept: a stop if it exhausts a cap. -/
def stopIfExhausted (driver : ChargerDriver) (reading : Progress) : List Outbound :=
  if (⟨driver.grant, reading⟩ : BudgetGuard).exhausted.isSome then [.publishStop driver.device]
  else []

/-- A tick whose reading the engine keeps, with the commands in full. -/
theorem tick_reading (hlive : driver.Live grant)
    (hguard : driver.engine.guard = some ⟨driver.grant, last⟩)
    (hpending : driver.pendingStop = none) {now : Millis}
    (hkept : (⟨driver.grant, last⟩ : BudgetGuard).nonMonotonic (driver.synthesize now) = false) :
    driver.tick now =
      let observed := driver.observed (driver.synthesize now)
      let stop := driver.stopIfExhausted (driver.synthesize now)
      if driver.grant.lease.expiresAt ≤ now then
        ((observed.settled (driver.synthesize now).costMillisTotal).1,
          stop ++ (observed.settled (driver.synthesize now).costMillisTotal).2)
      else (observed, stop) := by
  have hlast : (driver.observed (driver.synthesize now)).Live grant :=
    ⟨⟨Or.inr rfl, _, rfl, hlive.2⟩, hlive.2⟩
  have hdispatch : { driver with last := driver.synthesize now }.dispatch
      (.progressObserved (driver.synthesize now)) =
        (driver.observed (driver.synthesize now),
          driver.stopIfExhausted (driver.synthesize now)) := by
    rw [@dispatch_progress_kept { driver with last := driver.synthesize now } last hguard _ hkept]
    by_cases hexhausted : (⟨driver.grant, driver.synthesize now⟩ : BudgetGuard).exhausted.isSome
    · simp only [observed, stopIfExhausted, if_pos hexhausted, hpending, Option.none_or]
    · simp only [observed, stopIfExhausted, if_neg hexhausted, hpending]
  rw [tick_of_reading hlive.1.phase_ne.2 hpending, hdispatch, dispatch_tick hlast rfl]
  by_cases hexpired : driver.grant.lease.expiresAt ≤ now
  · simp only [if_pos hexpired,
      if_pos (show (driver.observed _).grant.lease.expiresAt ≤ now from hexpired)]
  · simp only [if_neg hexpired,
      if_neg (show ¬ (driver.observed _).grant.lease.expiresAt ≤ now from hexpired),
      List.append_nil]

/-- A session that is over stays over. -/
theorem not_underWay_step (hrunning : driver.Live grant ∨ driver.engine.Done)
    (hover : ¬ driver.UnderWay) (call : Call) : ¬ (machine.step driver call).1.UnderWay := by
  rcases hrunning with hlive | hdone
  · obtain ⟨last, hguard⟩ := hlive.exists_guard
    have hpending : driver.pendingStop.isSome = true := by
      rw [Option.isSome_iff_ne_none]
      exact fun hnone ↦ hover ⟨hlive.1.phase_ne.2, hnone⟩
    have hstopped (hasks : call.asksAt.isSome = true) :
        ¬ (machine.step driver call).1.UnderWay :=
      fun hnext ↦ hnext.1 (step_of_stopped hlive hguard hasks hpending).1
    cases call with
    | handleMessage inbound =>
      cases inbound with
      | grantAck receivedAt => exact fun hnext ↦ hover ⟨hnext.1, hnext.2⟩
      | done receivedAt raw => exact hstopped rfl
      | aborted receivedAt raw => exact hstopped rfl
    | tick now => exact hstopped rfl
    | revoke now =>
      intro hnext
      have hsome := hnext.2
      rw [show machine.step driver (.revoke now) = driver.revoke now from rfl,
        revoke_eq hlive hguard] at hsome
      exact absurd hsome (by simp)
  · exact fun hnext ↦ hnext.1 (step_of_done hdone call).1

/-- A call that reports the end of the delivery, or finds that the lease has expired. -/
def Ends (driver : ChargerDriver) : Call → Prop
  | .handleMessage (.done _ _) | .handleMessage (.aborted _ _) => True
  | .tick now => driver.grant.lease.expiresAt ≤ now
  | .handleMessage (.grantAck _) | .revoke _ => False

/-- A report of the device ends the session. -/
theorem not_underWay_report (hrunning : driver.Live grant ∨ driver.engine.Done) {inbound : Inbound}
    (hasks : (Call.handleMessage inbound).asksAt.isSome = true) :
    ¬ (machine.step driver (.handleMessage inbound)).1.UnderWay := by
  intro hnext
  by_cases hunder : driver.UnderWay
  · have hlive := hrunning.resolve_right hunder.1
    obtain ⟨last, hguard⟩ := hlive.exists_guard
    obtain ⟨now, hnow⟩ := Option.isSome_iff_exists.mp hasks
    rw [step_report hlive hguard hunder.2 hnow] at hnext
    exact hnext.1 rfl
  · exact not_underWay_step hrunning hunder _ hnext

/-- What a call does to a session under way: nothing is said and it stays under way, or something is
and it is over, with a stop of the device unless the delivery has ended anyway. -/
theorem step_of_underWay (hlive : driver.Live grant) (hunder : driver.UnderWay) (call : Call) :
    ((machine.step driver call).1.UnderWay ∧ (machine.step driver call).2 = []) ∨
      (¬ (machine.step driver call).1.UnderWay ∧ (machine.step driver call).2 ≠ [] ∧
        ((machine.step driver call).2.any Outbound.stops = true ∨ driver.Ends call)) := by
  obtain ⟨last, hguard⟩ := hlive.exists_guard
  cases call with
  | handleMessage inbound =>
    have hreport (hasks : (Call.handleMessage inbound).asksAt.isSome = true) :
        ¬ (machine.step driver (.handleMessage inbound)).1.UnderWay ∧
          (machine.step driver (.handleMessage inbound)).2 ≠ [] := by
      refine ⟨not_underWay_report (Or.inl hlive) hasks, ?_⟩
      obtain ⟨now, hnow⟩ := Option.isSome_iff_exists.mp hasks
      rw [step_report hlive hguard hunder.2 hnow]
      simp [settled]
    cases inbound with
    | grantAck receivedAt => exact Or.inl ⟨hunder, rfl⟩
    | done receivedAt raw =>
      obtain ⟨hover, hsaid⟩ := hreport rfl
      exact Or.inr ⟨hover, hsaid, Or.inr trivial⟩
    | aborted receivedAt raw =>
      obtain ⟨hover, hsaid⟩ := hreport rfl
      exact Or.inr ⟨hover, hsaid, Or.inr trivial⟩
  | revoke now =>
    right
    rw [show machine.step driver (.revoke now) = driver.revoke now from rfl, revoke_eq hlive hguard]
    exact ⟨fun hnext ↦ absurd hnext.2 (by simp), by simp, Or.inl rfl⟩
  | tick now =>
    rw [show machine.step driver (.tick now) = driver.tick now from rfl]
    cases hkept : (⟨driver.grant, last⟩ : BudgetGuard).nonMonotonic (driver.synthesize now) with
    | true =>
      rw [tick_refused hlive hguard hunder.2 hkept]
      by_cases hexpired : driver.grant.lease.expiresAt ≤ now
      · rw [if_pos hexpired]
        exact Or.inr ⟨fun hnext ↦ hnext.1 rfl, by simp [settled], Or.inr hexpired⟩
      · rw [if_neg hexpired]
        exact Or.inl ⟨⟨hunder.1, hunder.2⟩, rfl⟩
    | false =>
      rw [tick_reading hlive hguard hunder.2 hkept]
      by_cases hexpired : driver.grant.lease.expiresAt ≤ now
      · simp only [if_pos hexpired]
        exact Or.inr ⟨fun hnext ↦ hnext.1 rfl, by simp [settled], Or.inr hexpired⟩
      · simp only [if_neg hexpired]
        by_cases hexhausted : (⟨driver.grant, driver.synthesize now⟩ : BudgetGuard).exhausted.isSome
        · rw [stopIfExhausted, if_pos hexhausted]
          refine Or.inr ⟨fun hnext ↦ ?_, by simp, Or.inl rfl⟩
          exact absurd hnext.2 (by simp [observed, hexhausted])
        · rw [stopIfExhausted, if_neg hexhausted]
          exact Or.inl ⟨⟨by simp [observed, DeliveryEngine.Done], by simp [observed, hexhausted]⟩,
            rfl⟩

/-- A session stays under way as long as its driver says nothing. -/
theorem underWay_step_iff (hrunning : driver.Live grant ∨ driver.engine.Done) (call : Call) :
    (machine.step driver call).1.UnderWay ↔
      driver.UnderWay ∧ (machine.step driver call).2 = [] := by
  by_cases hunder : driver.UnderWay
  · rcases step_of_underWay (hrunning.resolve_right hunder.1) hunder call with
      ⟨hnext, hquiet⟩ | ⟨hover, hloud, -⟩
    · exact iff_of_true hnext ⟨hunder, hquiet⟩
    · exact iff_of_false hover fun hboth ↦ hloud hboth.2
  · exact iff_of_false (not_underWay_step hrunning hunder call) fun hboth ↦ hunder hboth.1

theorem stops_or_ends (hlive : driver.Live grant) (hunder : driver.UnderWay) {call : Call}
    (hover : ¬ (machine.step driver call).1.UnderWay) :
    (machine.step driver call).2.any Outbound.stops = true ∨ driver.Ends call := by
  rcases step_of_underWay hlive hunder call with ⟨hnext, -⟩ | ⟨-, -, hended⟩
  · exact absurd hnext hover
  · exact hended

end ChargerDriver

namespace Harness

/-- Commands that start nothing are executed without fail: a stop among them ends the window. -/
theorem execute_eq {out : List Outbound} (hstarts : ∀ command ∈ out, command.starts = false)
    (harness : Harness) :
    harness.execute out =
      some { harness with
        sim := if out.any Outbound.stops then harness.sim.stop else harness.sim
        log := harness.log ++ out } := by
  induction out generalizing harness with
  | nil => simp [execute]
  | cons command rest ih =>
    obtain ⟨hfirst, hrest⟩ := List.forall_mem_cons.mp hstarts
    rw [execute, List.foldlM_cons]
    cases command with
    | publishStart device endEpochSec => exact absurd hfirst (by simp [Outbound.starts])
    | publishStop device =>
      refine (ih hrest _).trans ?_
      simp [MockCharger.stop, Outbound.stops]
    | settle nonce amountMillis =>
      refine (ih hrest _).trans ?_
      simp [Outbound.stops]
    | refund nonce amountMillis =>
      refine (ih hrest _).trans ?_
      simp [Outbound.stops]

/-- A call of the driver is executed without fail. -/
theorem call_eq (harness : Harness) (request : ChargerDriver.Call) :
    harness.call request =
      let called := ChargerDriver.machine.step harness.driver request
      some { harness with
        driver := called.1
        sim := if called.2.any Outbound.stops then harness.sim.stop else harness.sim
        log := harness.log ++ called.2 } :=
  execute_eq (harness.driver.starts_step request) _

/-! ### Power -/

/-- The end that `start` announces to the device, in seconds. -/
def endEpochSec (grant : Grant) (openedAt : Millis) : UInt64 :=
  openedAt / 1000 + leaseSecondsRemaining grant openedAt

/-- When the window of a session ends. -/
def windowEnd (grant : Grant) (openedAt : Millis) : Millis :=
  endEpochSec grant openedAt * 1000

theorem toNat_windowEnd (grant : Grant) (openedAt : Millis) :
    (windowEnd grant openedAt).toNat =
      (openedAt.toNat / 1000 + (grant.lease.expiresAt.toNat - openedAt.toNat) / 1000) * 1000 := by
  have hopened := openedAt.toNat_lt
  have hexpires := grant.lease.expiresAt.toNat_lt
  have hthousand : (1000 : UInt64).toNat = 1000 := rfl
  rw [windowEnd, endEpochSec, leaseSecondsRemaining, UInt64.toNat_mul, UInt64.toNat_add,
    UInt64.toNat_div, UInt64.toNat_div, UInt64.toNat_saturatingSub, hthousand]
  omega

/-- From the opening on, the window is over by the time the lease expires. -/
theorem windowEnd_le {grant : Grant} {openedAt now : Millis} (hopened : openedAt ≤ now)
    (hexpired : grant.lease.expiresAt ≤ now) : windowEnd grant openedAt ≤ now := by
  rw [UInt64.le_iff_toNat_le] at hopened hexpired ⊢
  rw [toNat_windowEnd]
  omega

/-- The device draws power: its window has not ended. -/
def Powered (harness : Harness) : Prop :=
  ∃ startedAt endsAt, harness.sim.window = some (startedAt, endsAt) ∧ harness.now < endsAt

/-- Something that happens to the harness. -/
inductive Op
  | elapse (stepMs : UInt64)
  | pump | tick | abort | revoke
  deriving DecidableEq, Repr

def apply (harness : Harness) : Op → Option Harness
  | .elapse stepMs => some (harness.elapse stepMs)
  | .pump => harness.pump
  | .tick => harness.tick
  | .abort => harness.abort
  | .revoke => harness.revoke

def run (harness : Harness) (ops : List Op) : Option Harness :=
  ops.foldlM apply harness

/-- The time that passes. -/
def elapsed (ops : List Op) : ℕ :=
  (ops.map fun | .elapse stepMs => stepMs.toNat | _ => 0).sum

/-- A harness with a session that was armed at `openedAt`. `aborted` says whether the button was
pressed. -/
structure Sound (device : String) (grant : Grant) (openedAt : Millis) (aborted : Bool)
    (harness : Harness) : Prop where
  running : harness.driver.Live grant ∨ harness.driver.engine.Done
  opened : openedAt ≤ harness.now
  window_of_some : ∀ window, harness.sim.window = some window →
    window = (openedAt, windowEnd grant openedAt)
  powered_of_underWay : harness.driver.UnderWay →
    harness.sim.window = some (openedAt, windowEnd grant openedAt)
  off_of_over : ¬ harness.driver.UnderWay → harness.sim.window = none ∨
    windowEnd grant openedAt ≤ harness.now ∨ aborted = true
  started : ∃ said, harness.log = .publishStart device (endEpochSec grant openedAt) :: said ∧
    (harness.driver.UnderWay ↔ said = [])

section Sound

variable {device : String} {grant : Grant} {openedAt : Millis} {aborted : Bool} {harness : Harness}

theorem sound_start (device : String) (grant : Grant) (price : PriceVector) (openedAt : Millis) :
    ∃ harness, start device grant price openedAt = some harness ∧
      harness.Sound device grant openedAt false ∧ harness.now = openedAt := by
  refine ⟨_, rfl, ⟨Or.inl ⟨DeliveryEngine.live_grantIssued grant, rfl⟩, UInt64.le_refl _, ?_,
    ?_, ?_, [], rfl, ?_⟩, rfl⟩
  · exact fun window hwindow ↦ (Option.some.inj hwindow).symm
  · exact fun _ ↦ rfl
  · exact fun hover ↦ absurd ⟨(DeliveryEngine.live_grantIssued grant).phase_ne.2, rfl⟩ hover
  · exact iff_of_true ⟨(DeliveryEngine.live_grantIssued grant).phase_ne.2, rfl⟩ rfl

/-- Assumes: a device that is that of the harness, or idle when the call is a report, and a call
which ends the delivery only when the window has ended or with the button. It does not fail, and
leaves the harness sound. -/
theorem Sound.call (hsound : harness.Sound device grant openedAt aborted) {sim : MockCharger}
    {request : ChargerDriver.Call}
    (hsim : sim = harness.sim ∨ sim = MockCharger.new ∧ ∃ inbound,
      request = .handleMessage inbound ∧ request.asksAt.isSome = true)
    (hends : harness.driver.grant = grant → harness.driver.Ends request →
      windowEnd grant openedAt ≤ harness.now ∨ aborted = true) :
    ∃ next, { harness with sim := sim }.call request = some next ∧
      next.Sound device grant openedAt aborted ∧ next.now = harness.now := by
  obtain ⟨said, hlog, hsaid⟩ := hsound.started
  have hrunning := hsound.running
  have hnext := ChargerDriver.underWay_step_iff hrunning request
  have hoff : ¬ (ChargerDriver.machine.step harness.driver request).1.UnderWay →
      harness.sim.window = none ∨
        (ChargerDriver.machine.step harness.driver request).2.any Outbound.stops = true ∨
          windowEnd grant openedAt ≤ harness.now ∨ aborted = true := by
    intro hover
    by_cases hunder : harness.driver.UnderWay
    · have hlive := hrunning.resolve_right hunder.1
      exact Or.inr ((ChargerDriver.stops_or_ends hlive hunder hover).imp_right (hends hlive.2))
    · exact (hsound.off_of_over hunder).imp_right Or.inr
  refine ⟨_, call_eq _ request, ⟨?_, hsound.opened, ?_, ?_, ?_,
    said ++ (ChargerDriver.machine.step harness.driver request).2, ?_, ?_⟩, rfl⟩
  · rcases hrunning with hlive | hdone
    · exact (ChargerDriver.step_of_live hlive request).imp And.left And.left
    · exact Or.inr (ChargerDriver.step_of_done hdone request).1
  · intro window hwindow
    simp only at hwindow
    split_ifs at hwindow
    · exact absurd hwindow (by simp [MockCharger.stop])
    · rcases hsim with rfl | ⟨rfl, -⟩
      · exact hsound.window_of_some window hwindow
      · exact absurd hwindow (by simp [MockCharger.new])
  · intro hunder
    obtain ⟨hbefore, hquiet⟩ := hnext.mp hunder
    rcases hsim with rfl | ⟨-, inbound, rfl, hasks⟩
    · simpa [hquiet] using hsound.powered_of_underWay hbefore
    · exact absurd hunder (ChargerDriver.not_underWay_report hrunning hasks)
  · intro hover
    simp only
    split_ifs with hstops
    · exact Or.inl rfl
    · rcases hoff hover with hnone | hstop | hlater
      · left
        rcases hsim with rfl | ⟨rfl, -⟩
        · exact hnone
        · rfl
      · exact absurd hstop hstops
      · exact Or.inr hlater
  · simp [hlog]
  · rw [hnext, hsaid, List.append_eq_nil_iff]

/-- Assumes: the clock does not wrap. -/
theorem Sound.elapse (hsound : harness.Sound device grant openedAt aborted) {stepMs : UInt64}
    (hclock : harness.now.toNat + stepMs.toNat < 2 ^ 64) :
    (harness.elapse stepMs).Sound device grant openedAt aborted := by
  have hlater : harness.now ≤ harness.now + stepMs := by
    rw [UInt64.le_iff_toNat_le, UInt64.toNat_add]
    omega
  refine ⟨hsound.running, UInt64.le_trans hsound.opened hlater, hsound.window_of_some,
    hsound.powered_of_underWay, fun hover ↦ ?_, hsound.started⟩
  exact (hsound.off_of_over hover).imp_right
    (Or.imp_left fun hended ↦ UInt64.le_trans hended hlater)

/-- The window ends with a report, and the driver is told. -/
theorem Sound.pump (hsound : harness.Sound device grant openedAt aborted) :
    ∃ next, harness.pump = some next ∧ next.Sound device grant openedAt aborted ∧
      next.now = harness.now := by
  rcases harness.sim.pump_cases harness.now with
    hquiet | ⟨startedAt, endsAt, hwindow, hended, hloud⟩
  · refine ⟨harness, ?_, hsound, rfl⟩
    simp only [Harness.pump, hquiet]
  · obtain ⟨rfl, rfl⟩ := Prod.mk.inj (hsound.window_of_some _ hwindow)
    simp only [Harness.pump, hloud]
    exact hsound.call (Or.inr ⟨rfl, _, rfl, rfl⟩) fun _ _ ↦ Or.inl hended

/-- Assumes: the clock does not wrap. An operation does not fail, and leaves the harness sound. -/
theorem Sound.apply (hsound : harness.Sound device grant openedAt aborted) (op : Op)
    (hclock : harness.now.toNat + elapsed [op] < 2 ^ 64) :
    ∃ next, harness.apply op = some next ∧
      next.Sound device grant openedAt (aborted || decide (op = .abort)) ∧
      next.now.toNat = harness.now.toNat + elapsed [op] := by
  cases op with
  | elapse stepMs =>
    have hadd : elapsed [.elapse stepMs] = stepMs.toNat := by simp [elapsed]
    rw [hadd] at hclock ⊢
    refine ⟨_, rfl, by simpa using hsound.elapse hclock, ?_⟩
    rw [Harness.elapse, UInt64.toNat_add, Nat.mod_eq_of_lt hclock]
  | pump =>
    obtain ⟨next, hnext, hsame, hnow⟩ := hsound.pump
    exact ⟨next, hnext, by simpa using hsame, by simp [hnow, elapsed]⟩
  | tick =>
    obtain ⟨next, hnext, hsame, hnow⟩ := @Sound.call _ _ _ _ _ hsound _ (.tick harness.now)
      (Or.inl rfl) fun hgrant hexpired ↦ Or.inl (windowEnd_le hsound.opened (hgrant ▸ hexpired))
    exact ⟨next, hnext, by simpa using hsame, by simp [hnow, elapsed]⟩
  | abort =>
    have hpressed : harness.Sound device grant openedAt true :=
      ⟨hsound.running, hsound.opened, hsound.window_of_some, hsound.powered_of_underWay,
        fun _ ↦ Or.inr (Or.inr rfl), hsound.started⟩
    obtain ⟨next, hnext, hsame, hnow⟩ := @Sound.call _ _ _ _ _ hpressed _
      (.handleMessage (.aborted harness.now "button".toUTF8.data.toList)) (Or.inl rfl)
      fun _ _ ↦ Or.inr rfl
    exact ⟨next, hnext, by simpa using hsame, by simp [hnow, elapsed]⟩
  | revoke =>
    obtain ⟨next, hnext, hsame, hnow⟩ := @Sound.call _ _ _ _ _ hsound _ (.revoke harness.now)
      (Or.inl rfl) fun _ hends ↦ absurd hends id
    exact ⟨next, hnext, by simpa using hsame, by simp [hnow, elapsed]⟩

/-- Assumes: the clock does not wrap. A run does not fail, and leaves the harness sound. -/
theorem Sound.run (hsound : harness.Sound device grant openedAt aborted) (ops : List Op)
    (hclock : harness.now.toNat + elapsed ops < 2 ^ 64) :
    ∃ final, harness.run ops = some final ∧
      final.Sound device grant openedAt (aborted || decide (.abort ∈ ops)) := by
  induction ops generalizing harness aborted with
  | nil => exact ⟨harness, rfl, by simpa using hsound⟩
  | cons op rest ih =>
    have hsum : elapsed (op :: rest) = elapsed [op] + elapsed rest := by simp [elapsed]
    obtain ⟨next, hnext, hsame, hnow⟩ := hsound.apply op (by omega)
    obtain ⟨final, hfinal, hend⟩ := ih hsame (by omega)
    refine ⟨final, ?_, ?_⟩
    · rw [Harness.run, List.foldlM_cons, hnext]
      exact hfinal
    · simpa [Bool.or_assoc, eq_comm] using hend

end Sound

/-- For every grant, price and opening, and every order of passing time, device reports, ticks,
presses of the button and revocations: no assertion of the harness fails. As long as the session's
start is all that was commanded, the device draws power exactly until its window ends; and whenever
it draws power the lease has not expired, and nothing else was commanded or the button was pressed.
Assumes: the clock does not wrap. -/
theorem powered_iff (device : String) (grant : Grant) (price : PriceVector) (openedAt : Millis)
    (ops : List Op) (hclock : openedAt.toNat + elapsed ops < 2 ^ 64) :
    ∃ final, ((start device grant price openedAt).bind fun harness ↦ harness.run ops) = some final ∧
      (final.log = [.publishStart device (endEpochSec grant openedAt)] →
        (final.Powered ↔ final.now < windowEnd grant openedAt)) ∧
      (final.Powered → final.now < grant.lease.expiresAt ∧
        (final.log = [.publishStart device (endEpochSec grant openedAt)] ∨ .abort ∈ ops)) := by
  obtain ⟨opened, hopened, hsound, hnow⟩ := sound_start device grant price openedAt
  obtain ⟨final, hfinal, hend⟩ := hsound.run ops (by rw [hnow]; exact hclock)
  obtain ⟨said, hlog, hsaid⟩ := hend.started
  refine ⟨final, by rw [hopened]; exact hfinal, fun hquiet ↦ ?_, ?_⟩
  · have hunder : final.driver.UnderWay := by
      rw [hsaid]
      simpa [hlog] using hquiet
    rw [Powered, hend.powered_of_underWay hunder]
    simp
  · rintro ⟨startedAt, endsAt, hwindow, hbefore⟩
    obtain ⟨rfl, rfl⟩ := Prod.mk.inj (hend.window_of_some _ hwindow)
    refine ⟨?_, ?_⟩
    · by_contra hexpired
      exact absurd hbefore
        (UInt64.not_lt.mpr (windowEnd_le hend.opened (UInt64.not_lt.mp hexpired)))
    · by_cases hunder : final.driver.UnderWay
      · left
        rw [hlog, hsaid.mp hunder]
      · right
        rcases hend.off_of_over hunder with hnone | hended | hpressed
        · exact absurd (hwindow.symm.trans hnone) (by simp)
        · exact absurd hbefore (UInt64.not_lt.mpr hended)
        · simpa using hpressed

/-- A session that is revoked after a second. -/
theorem powered_until_revoked :
    ∃ final, ((start "plug" DeliveryEngine.sampleGrant ⟨1⟩ 0).bind fun harness ↦
        harness.run [.elapse 1000, .pump, .tick, .revoke, .elapse 500, .tick]) = some final ∧
      (final.log = [.publishStart "plug" (endEpochSec DeliveryEngine.sampleGrant 0)] →
        (final.Powered ↔ final.now < windowEnd DeliveryEngine.sampleGrant 0)) ∧
      (final.Powered → final.now < DeliveryEngine.sampleGrant.lease.expiresAt ∧
        (final.log = [.publishStart "plug" (endEpochSec DeliveryEngine.sampleGrant 0)] ∨
          .abort ∈ ([.elapse 1000, .pump, .tick, .revoke, .elapse 500, .tick] : List Op))) :=
  powered_iff "plug" DeliveryEngine.sampleGrant ⟨1⟩ 0
    [.elapse 1000, .pump, .tick, .revoke, .elapse 500, .tick] (by decide)

end Harness

end Tollgate
