import Tollgate.Core.Settlement
import Tollgate.ChargerHost.Driver
import Tollgate.ChargerHost.External

/-!
# Both drivers settle once

The engine by itself can be reopened by a late reading. Neither driver lets one through: each looks
at the phase before it takes a reading. `SettlesGrant` is what a driver promises about a run under a
grant; `settlesGrant_of_steps` derives it from what one call can do, and the two drivers are held to
it from `open` and from `resume`.
-/

set_option autoImplicit false
set_option relaxedAutoImplicit false

namespace Tollgate

/-! ### The promise of a driver -/

section Promise

variable {State Input Output : Type*} (machine : Transducer State Input Output)
  (payout : Output → Option Payout)

/-- What a driver promises about its calls: they pay once, under the grant; after the paying call
every call returns nothing at all; and until then every call that must settle does. -/
structure SettlesGrant (mustSettle : State → Input → Prop) (grant : Grant) (state : State)
    (calls : List Input) : Prop where
  paysOnce : PaysOnce machine payout (some grant) state calls
  silent : ∀ before after, before ++ after <+: calls →
    (machine.outputs state before).filterMap payout ≠ [] →
      machine.outputs (machine.final state before) after = []
  prompt : ∀ before call, before ++ [call] <+: calls →
    (machine.outputs state before).filterMap payout = [] →
      mustSettle (machine.final state before) call →
        ClosesGrant grant ((machine.step (machine.final state before) call).2.filterMap payout)

variable {machine payout} {mustSettle : State → Input → Prop} {grant : Grant}

theorem ClosesGrant.ne_nil {payouts : List Payout} (hcloses : ClosesGrant grant payouts) :
    payouts ≠ [] := by
  obtain ⟨burned, change, hpayouts, -⟩ := hcloses.exists_amounts
  rw [hpayouts]
  exact List.cons_ne_nil _ _

/-- Assumes: a closed driver stays closed and returns nothing, and a call on a live one either pays
nothing and need not, or closes the driver and the grant. Every run of calls on a live driver
settles the grant as promised. -/
theorem settlesGrant_of_steps (live closed : State → Prop)
    (hclosed : ∀ state call, closed state →
      closed (machine.step state call).1 ∧ (machine.step state call).2 = [])
    (hlive : ∀ state call, live state →
      (live (machine.step state call).1 ∧ (machine.step state call).2.filterMap payout = [] ∧
          ¬ mustSettle state call) ∨
        (closed (machine.step state call).1 ∧
          ClosesGrant grant ((machine.step state call).2.filterMap payout)))
    {state : State} (hstate : live state) (hopen : ∀ state, live state → ¬ closed state)
    (calls : List Input) :
    SettlesGrant machine payout mustSettle grant state calls := by
  have hclosing : machine.Closing live closed (fun _ _ ↦ True)
      (fun state call ↦ (machine.step state call).2.filterMap payout) :=
    { stays := by
        intro reached call hdone _
        obtain ⟨hnext, hnothing⟩ := hclosed reached call hdone
        exact ⟨hnext, by rw [hnothing, List.filterMap_nil]⟩
      closes := by
        intro reached call hreached _
        rcases hlive reached call hreached with ⟨hnext, hnothing, -⟩ | ⟨hdone, -⟩
        · exact Or.inl ⟨hnext, hnothing⟩
        · exact Or.inr hdone }
  have htrue (reached : State) (inputs : List Input) :
      machine.Along (fun _ _ ↦ True) reached inputs := by
    rw [Transducer.along_iff_forall_cut]
    exact fun _ _ _ _ ↦ trivial
  have hquiet (reached : State) (hdone : closed reached) (inputs : List Input) :
      machine.outputs reached inputs = [] := by
    induction inputs generalizing reached with
    | nil => rfl
    | cons call rest ih =>
      obtain ⟨hnext, hnothing⟩ := hclosed reached call hdone
      rw [Transducer.outputs_cons, hnothing, ih _ hnext, List.append_nil]
  -- The call that closes is a call on a live driver, so it closes the grant.
  have hpays (reached : State) (call : Input) (hreached : live reached)
      (hdone : closed (machine.step reached call).1) :
      ClosesGrant grant ((machine.step reached call).2.filterMap payout) := by
    rcases hlive reached call hreached with ⟨hnext, -⟩ | ⟨-, hcloses⟩
    · exact absurd hdone (hopen _ hnext)
    · exact hcloses
  constructor
  · rcases hclosing.run hstate (htrue state calls) with ⟨-, hnothing⟩ | ⟨before, call, after, hrun⟩
    · exact Or.inl ((filterMap_outputs machine payout state calls).trans hnothing)
    · obtain ⟨hcut, hbefore, -, hdone, hshown⟩ := hrun
      exact Or.inr ⟨grant, before, call, after, rfl, hcut,
        (filterMap_outputs machine payout state calls).trans hshown,
        hpays _ call hbefore hdone⟩
  · intro before after _ hpaid
    rw [filterMap_outputs] at hpaid
    rcases hclosing.run hstate (htrue state before) with ⟨-, hnothing⟩ | ⟨first, call, rest, hrun⟩
    · exact absurd hnothing hpaid
    · obtain ⟨hcut, -, -, hdone, -⟩ := hrun
      refine hquiet _ ?_ after
      rw [hcut, Transducer.final_append, Transducer.final_cons]
      exact (hclosing.silent hdone (htrue _ rest)).1
  · intro before call _ hunpaid hmust
    rw [filterMap_outputs] at hunpaid
    rcases hclosing.run hstate (htrue state before) with ⟨hreached, -⟩ | ⟨first, last, rest, hrun⟩
    · rcases hlive _ call hreached with ⟨-, -, hneed⟩ | ⟨-, hcloses⟩
      · exact absurd hmust hneed
      · exact hcloses
    · obtain ⟨-, hfirst, -, hdone, hshown⟩ := hrun
      rw [hunpaid] at hshown
      exact absurd hshown.symm (hpays _ last hfirst hdone).ne_nil

end Promise

/-! ### The charger driver -/

namespace ChargerDriver

/-- The payouts among the driver's commands. -/
def payout : Outbound → Option Payout
  | .settle nonce amountMillis => some (.settle nonce amountMillis)
  | .refund nonce amountMillis => some (.refund nonce amountMillis)
  | .publishStart _ _ | .publishStop _ => none

/-- A call that settles a driver that has not settled: a device terminal, a tick from the expiry of
the lease on, and any tick while a stop is pending. -/
def MustSettle (driver : ChargerDriver) : Call → Prop
  | .handleMessage (.grantAck _) => False
  | .handleMessage (.done _ _) => True
  | .handleMessage (.aborted _ _) => True
  | .tick now => driver.grant.lease.expiresAt ≤ now ∨ driver.pendingStop.isSome = true
  | .revoke _ => False

instance (driver : ChargerDriver) : DecidablePred driver.MustSettle
  | .handleMessage (.grantAck _) => instDecidableFalse
  | .handleMessage (.done _ _) => instDecidableTrue
  | .handleMessage (.aborted _ _) => instDecidableTrue
  | .tick now =>
    inferInstanceAs
      (Decidable (driver.grant.lease.expiresAt ≤ now ∨ driver.pendingStop.isSome = true))
  | .revoke _ => instDecidableFalse

/-- The driver's engine holds the driver's grant and has not settled it. -/
def Live (grant : Grant) (driver : ChargerDriver) : Prop :=
  driver.engine.Live grant ∧ driver.grant = grant

variable {grant : Grant} {driver : ChargerDriver}

/-- Translation keeps the engine and the grant, and passes every payout on. -/
theorem translate_spec (driver : ChargerDriver) (actions : List DeliveryAction) :
    (driver.translate actions).1.engine = driver.engine ∧
      (driver.translate actions).1.grant = driver.grant ∧
      (driver.translate actions).2.filterMap payout =
        actions.filterMap DeliveryEngine.payout := by
  induction actions generalizing driver with
  | nil => exact ⟨rfl, rfl, rfl⟩
  | cons action rest ih =>
    cases action with
    | stopDelivery nonce =>
      simp only [translate]
      by_cases hpending : driver.pendingStop.isNone = true
      · rw [if_pos hpending]
        obtain ⟨hengine, hgrant, hpayouts⟩ :=
          ih { driver with pendingStop := some driver.stopReason }
        exact ⟨hengine, hgrant, hpayouts⟩
      · rw [if_neg hpending]
        exact ih driver
    | settleDelivery nonce amountMillis =>
      obtain ⟨hengine, hgrant, hpayouts⟩ := ih driver
      exact ⟨hengine, hgrant, congrArg (Payout.settle nonce amountMillis :: ·) hpayouts⟩
    | refundChange nonce amountMillis =>
      obtain ⟨hengine, hgrant, hpayouts⟩ := ih driver
      exact ⟨hengine, hgrant, congrArg (Payout.refund nonce amountMillis :: ·) hpayouts⟩
    | alarm nonce reason => exact ih driver

/-- Dispatching an event is handling it in the engine, as far as the engine, the grant and the
payouts go. -/
theorem dispatch_spec (driver : ChargerDriver) (event : DeliveryEvent) :
    (driver.dispatch event).1.engine = (driver.engine.handle event).1 ∧
      (driver.dispatch event).1.grant = driver.grant ∧
      (driver.dispatch event).2.filterMap payout =
        (driver.engine.handle event).2.filterMap DeliveryEngine.payout :=
  translate_spec { driver with engine := (driver.engine.handle event).1 } _

/-- A terminal report closes a live driver and its grant. -/
theorem dispatch_terminal (hlive : driver.Live grant) (report : TerminalReport) :
    (driver.dispatch (.terminalObserved report)).1.engine.Done ∧
      ClosesGrant grant
        ((driver.dispatch (.terminalObserved report)).2.filterMap payout) := by
  obtain ⟨hengine, -, hpayouts⟩ := driver.dispatch_spec (.terminalObserved report)
  rw [hengine, hpayouts]
  exact hlive.1.terminal report

/-- A settled engine has nothing for its driver to say to anything but a reading. -/
theorem dispatch_of_done (hdone : driver.engine.Done) {event : DeliveryEvent}
    (hreading : ∀ progress, event ≠ .progressObserved progress) :
    (driver.dispatch event).1.engine.Done ∧ (driver.dispatch event).2 = [] := by
  have hphase : driver.engine.phase = .done := hdone
  have hhandle : driver.engine.handle event = (driver.engine, []) := by
    cases event with
    | progressObserved progress => exact absurd rfl (hreading progress)
    | tick now =>
      cases hguard : driver.engine.guard <;>
        simp only [DeliveryEngine.handle, hguard, hphase]
    | _ => simp only [DeliveryEngine.handle, hphase]
  simp only [dispatch, hhandle, translate]
  exact ⟨hdone, trivial⟩

theorem journalUnlessStopped_spec (driver : ChargerDriver) (now : Millis) :
    (driver.journalUnlessStopped now).engine = driver.engine ∧
      (driver.journalUnlessStopped now).grant = driver.grant := by
  unfold journalUnlessStopped
  split_ifs <;> exact ⟨rfl, rfl⟩

/-- A driver that has settled returns nothing and stays settled. -/
theorem step_of_done (hdone : driver.engine.Done) (call : Call) :
    (machine.step driver call).1.engine.Done ∧ (machine.step driver call).2 = [] := by
  cases call with
  | handleMessage inbound =>
    cases inbound with
    | grantAck receivedAt => exact ⟨hdone, rfl⟩
    | done receivedAt raw =>
      refine dispatch_of_done ?_ (by simp)
      rw [(driver.journalUnlessStopped_spec receivedAt).1]
      exact hdone
    | aborted receivedAt raw =>
      refine dispatch_of_done ?_ (by simp)
      rw [(driver.journalUnlessStopped_spec receivedAt).1]
      exact hdone
  | tick now =>
    have hphase : driver.engine.phase = .done := hdone
    simp only [machine, tick, hphase, if_true]
    exact ⟨hdone, trivial⟩
  | revoke now =>
    exact @dispatch_of_done { driver with pendingStop := some .revoked } hdone _ (by simp)

/-- What a call does to a live driver: it stays live, pays nothing and need not; or it closes. -/
theorem step_of_live (hlive : driver.Live grant) (call : Call) :
    ((machine.step driver call).1.Live grant ∧
        (machine.step driver call).2.filterMap payout = [] ∧ ¬ driver.MustSettle call) ∨
      ((machine.step driver call).1.engine.Done ∧
        ClosesGrant grant ((machine.step driver call).2.filterMap payout)) := by
  cases call with
  | handleMessage inbound =>
    cases inbound with
    | grantAck receivedAt => exact Or.inl ⟨hlive, rfl, id⟩
    | done receivedAt raw =>
      right
      obtain ⟨hengine, hgrant⟩ := driver.journalUnlessStopped_spec receivedAt
      exact dispatch_terminal ⟨by rw [hengine]; exact hlive.1, hgrant.trans hlive.2⟩ _
    | aborted receivedAt raw =>
      right
      obtain ⟨hengine, hgrant⟩ := driver.journalUnlessStopped_spec receivedAt
      exact dispatch_terminal ⟨by rw [hengine]; exact hlive.1, hgrant.trans hlive.2⟩ _
  | tick now =>
    simp only [machine, tick, hlive.1.phase_ne.2, if_false]
    split
    case h_1 reason hpending =>
      right
      exact @dispatch_terminal grant { driver with pendingStop := none } hlive _
    case h_2 hpending =>
      -- A reading keeps the engine live; the tick after it decides by the lease.
      set reading := { driver with last := driver.synthesize now }.dispatch
        (.progressObserved (driver.synthesize now)) with hreading
      obtain ⟨hengine, hgrant, hpayouts⟩ :=
        { driver with last := driver.synthesize now }.dispatch_spec
          (.progressObserved (driver.synthesize now))
      rw [← hreading] at hengine hgrant hpayouts
      obtain ⟨hstill, hsilent⟩ := hlive.1.progress (driver.synthesize now)
      have hread : reading.1.engine.Live grant := by
        rw [hengine]
        exact hstill
      obtain ⟨hnext, hkept, htick⟩ := reading.1.dispatch_spec (.tick now)
      simp only [List.filterMap_append, hpayouts, hsilent, htick, List.nil_append]
      rcases hread.tick now with ⟨hsame, hearly⟩ | ⟨hdone, -, hcloses⟩
      · left
        rw [hsame] at hnext
        refine ⟨⟨by rw [hnext]; exact hread, ?_⟩, by rw [hsame]; rfl, ?_⟩
        · rw [hkept, hgrant]
          exact hlive.2
        · rintro (hexpired | hstop)
          · rw [hlive.2] at hexpired
            exact hearly hexpired
          · rw [hpending] at hstop
            exact absurd hstop (by simp)
      · right
        rw [hnext]
        exact ⟨hdone, hcloses⟩
  | revoke now =>
    left
    obtain ⟨hengine, hgrant, hpayouts⟩ :=
      { driver with pendingStop := some .revoked }.dispatch_spec (.revokeRequested now)
    have hstop := hlive.1.revoke now
    refine ⟨⟨?_, hgrant.trans hlive.2⟩, ?_, id⟩
    · refine Eq.subst hengine.symm ?_
      rw [hstop]
      exact hlive.1
    · refine hpayouts.trans ?_
      rw [hstop]
      rfl

/-- Every run of calls on a live charger driver settles its grant as promised. -/
theorem settlesGrant_of_live (hlive : driver.Live grant) (calls : List Call) :
    SettlesGrant machine payout MustSettle grant driver calls :=
  settlesGrant_of_steps (Live grant) (fun driver ↦ driver.engine.Done)
    (fun _ call hdone ↦ step_of_done hdone call) (fun _ call hlive ↦ step_of_live hlive call) hlive
    (fun _ hlive ↦ hlive.1.phase_ne.2) calls

end ChargerDriver

/-! ### The external driver -/

namespace ExternalDriver

/-- The driver's actions are payouts, all of them. -/
def payout : ExternalAction → Option Payout
  | .settle nonce amountMillis => some (.settle nonce amountMillis)
  | .refund nonce amountMillis => some (.refund nonce amountMillis)

variable {Provider : Type} {port : ExternalProviderPort Provider} {grant : Grant}
  {state : ExternalDriver × Provider}

/-- A call that settles a driver that has not settled: a stop, and a tick from the expiry of the
lease on. -/
def MustSettle (state : ExternalDriver × Provider) : Call → Prop
  | .tick now => state.1.grant.lease.expiresAt ≤ now
  | .stop _ => True

/-- The driver's engine holds the driver's grant and has not settled it. -/
def Live (grant : Grant) (state : ExternalDriver × Provider) : Prop :=
  state.1.engine.Live grant ∧ state.1.grant = grant

/-- Translation passes every payout on. -/
theorem filterMap_translate (actions : List DeliveryAction) :
    (translate actions).filterMap payout = actions.filterMap DeliveryEngine.payout := by
  rw [translate, List.filterMap_filterMap]
  refine List.filterMap_congr fun action _ ↦ ?_
  cases action <;> rfl

/-- A driver that has settled returns nothing and stays settled. -/
theorem step_of_done (hdone : state.1.engine.Done) (call : Call) :
    ((machine port).step state call).1.1.engine.Done ∧ ((machine port).step state call).2 = [] := by
  have hphase : state.1.engine.phase = .done := hdone
  cases call with
  | tick now =>
    simp only [machine, tick, hphase, if_true]
    exact ⟨hdone, trivial⟩
  | stop now =>
    simp only [machine, stop, hphase, if_true]
    exact ⟨hdone, trivial⟩

/-- What a call does to a live driver: it stays live, pays nothing and need not; or it closes. -/
theorem step_of_live (hlive : Live grant state) (call : Call) :
    (Live grant ((machine port).step state call).1 ∧
        ((machine port).step state call).2.filterMap payout = [] ∧ ¬ MustSettle state call) ∨
      (((machine port).step state call).1.1.engine.Done ∧
        ClosesGrant grant (((machine port).step state call).2.filterMap payout)) := by
  cases call with
  | tick now =>
    simp only [machine, tick, hlive.1.phase_ne.2, if_false, List.filterMap_append,
      filterMap_translate]
    obtain ⟨hread, hsilent⟩ := hlive.1.progress (state.1.polled port state.2 now).1
    rw [hsilent, List.nil_append]
    rcases hread.tick now with ⟨hsame, hearly⟩ | ⟨hdone, -, hcloses⟩
    · left
      rw [hsame]
      refine ⟨⟨hread, hlive.2⟩, rfl, fun hexpired ↦ hearly ?_⟩
      rw [← hlive.2]
      exact hexpired
    · exact Or.inr ⟨hdone, hcloses⟩
  | stop now =>
    right
    simp only [machine, stop, hlive.1.phase_ne.2, if_false, filterMap_translate]
    exact hlive.1.terminal _

/-- Every run of calls on a live external driver settles its grant as promised, whatever its
provider does. -/
theorem settlesGrant_of_live (hlive : Live grant state) (calls : List Call) :
    SettlesGrant (machine port) payout MustSettle grant state calls :=
  settlesGrant_of_steps (Live grant) (fun state ↦ state.1.engine.Done)
    (fun _ call hdone ↦ step_of_done hdone call) (fun _ call hlive ↦ step_of_live hlive call) hlive
    (fun _ hlive ↦ hlive.1.phase_ne.2) calls

end ExternalDriver

/-! ### The two drivers -/

/-- For every grant with a cap and every price, from `open` at any time and from `resume` at any
journal: every run of calls on the charger driver settles the grant once, conserves its deposit and
is silent afterwards, and no call that must settle fails to. The same holds of the external driver,
whatever its provider answers, from every `open` that succeeds and from every `resume`. -/
theorem drivers_settle_once :
    (∀ device grant price, grant.caps.bounded = true →
      (∀ now calls,
        (ChargerDriver.open device grant price now).2.filterMap ChargerDriver.payout = [] ∧
        SettlesGrant ChargerDriver.machine ChargerDriver.payout ChargerDriver.MustSettle grant
          (ChargerDriver.open device grant price now).1 calls) ∧
      ∀ last calls, last.secondsTotal.toNat * 1000 < 2 ^ 64 →
        SettlesGrant ChargerDriver.machine ChargerDriver.payout ChargerDriver.MustSettle grant
          (ChargerDriver.resume device grant price last) calls) ∧
    ∀ (Provider : Type) (port : ExternalProviderPort Provider) (provider : Provider) calls,
      (∀ nonce maxSeconds now leaseMs driver actions started, now.toNat + leaseMs.toNat < 2 ^ 64 →
        ExternalDriver.open port provider nonce maxSeconds now leaseMs =
          (.ok (driver, actions), started) →
        driver.grant.nonce = nonce ∧
        driver.grant.depositMillis = (port.quote provider maxSeconds).1 ∧
        actions = [] ∧
        SettlesGrant (ExternalDriver.machine port) ExternalDriver.payout ExternalDriver.MustSettle
          driver.grant (driver, started) calls) ∧
      ∀ grant last session, grant.caps.bounded = true →
        SettlesGrant (ExternalDriver.machine port) ExternalDriver.payout ExternalDriver.MustSettle
          grant (ExternalDriver.resume grant last session, provider) calls := by
  refine ⟨fun device grant price _ ↦ ⟨fun now calls ↦ ⟨rfl, ?_⟩, fun last calls _ ↦ ?_⟩,
    fun Provider port provider calls ↦ ⟨?_, fun grant last session _ ↦ ?_⟩⟩
  · have hlive : (ChargerDriver.open device grant price now).1.Live grant :=
      ⟨DeliveryEngine.live_grantIssued grant, rfl⟩
    exact ChargerDriver.settlesGrant_of_live hlive calls
  · have hlive : (ChargerDriver.resume device grant price last).Live grant :=
      ⟨DeliveryEngine.live_resume grant last, rfl⟩
    exact ChargerDriver.settlesGrant_of_live hlive calls
  · intro nonce maxSeconds now leaseMs driver actions started _ hopened
    obtain ⟨hresult, hprovider⟩ := Prod.mk.inj hopened
    cases hstart : (port.start (port.quote provider maxSeconds).2 nonce maxSeconds).1 with
    | error reason =>
      rw [hstart] at hresult
      exact absurd hresult (by simp [Except.map])
    | ok session =>
      rw [hstart] at hresult
      obtain ⟨hdriver, rfl⟩ := Prod.mk.inj (Except.ok.inj hresult)
      have hlive : ExternalDriver.Live driver.grant (driver, started) := by
        rw [← hdriver]
        exact ⟨DeliveryEngine.live_grantIssued _, rfl⟩
      refine ⟨by rw [← hdriver], by rw [← hdriver], rfl, ?_⟩
      exact ExternalDriver.settlesGrant_of_live hlive calls
  · have hlive : ExternalDriver.Live grant (ExternalDriver.resume grant last session, provider) :=
      ⟨DeliveryEngine.live_resume grant last, rfl⟩
    exact ExternalDriver.settlesGrant_of_live hlive calls

/-- A provider that charges two for every second since the session began at zero. -/
def samplePort : ExternalProviderPort Unit where
  quote _ maxSeconds := (maxSeconds * 2, ())
  start _ nonce _ := (.ok nonce, ())
  poll _ _ now := (⟨0, now / 1000, now / 1000 * 2, now⟩, ())
  stop _ _ := (⟨60, 30⟩, ())

/-- A charger session that runs into its time cap and an external one that is stopped early. -/
theorem drivers_settle_once_on_stops :
    SettlesGrant ChargerDriver.machine ChargerDriver.payout ChargerDriver.MustSettle
        DeliveryEngine.sampleGrant
        (ChargerDriver.open "plug" DeliveryEngine.sampleGrant ⟨1⟩ 0).1
        [.handleMessage (.grantAck 0), .tick 600000, .tick 601000] ∧
      SettlesGrant (ExternalDriver.machine samplePort) ExternalDriver.payout
        ExternalDriver.MustSettle
        { nonce := 7, depositMillis := 240, caps := ⟨none, some 120, none⟩, lease := ⟨500000⟩ }
        ({ engine := (DeliveryEngine.new.handle (.grantIssued
              { nonce := 7, depositMillis := 240, caps := ⟨none, some 120, none⟩,
                lease := ⟨500000⟩ })).1
           grant := { nonce := 7, depositMillis := 240, caps := ⟨none, some 120, none⟩,
                      lease := ⟨500000⟩ }
           session := some 7
           last := ⟨0, 0, 0, 0⟩ }, ())
        [.tick 10000, .stop 30000] :=
  ⟨((drivers_settle_once.1 "plug" DeliveryEngine.sampleGrant ⟨1⟩ (by decide)).1 0 _).2,
    ((drivers_settle_once.2 Unit samplePort () [.tick 10000, .stop 30000]).1 7 120 0 500000 _ [] ()
      (by decide) rfl).2.2.2⟩

end Tollgate
