import Tollgate.ChargerHost.ExternalJournal

/-!
# Stopping the provider

An external session is stopped by a call of the driver on the provider. `recorded` is a port that
writes down the calls it receives and passes them on, so that what a run has asked of the provider
can be read off its state. Over any port the driver starts a session at most once, and stops it at
most once and under its own name. Two more things are expected of it.

A settlement comes after the stop: `StopsBeforeSettling`. The stop call does so, but the lease is
left to the engine, and a tick from its expiry on settles and refunds without a word to the
provider.

A stop that the engine decides on reaches the provider or the host: `HeedsStops`. The driver drops
it, and there is no action that would carry it, so the promise holds of a run exactly as long as no
poll exhausts a cap.
-/

set_option autoImplicit false
set_option relaxedAutoImplicit false

namespace Tollgate

/-! ### Recording the calls on the provider -/

/-- A call on the provider. -/
inductive PortCall
  | quote (maxSeconds : UInt64)
  | start (nonce maxSeconds : UInt64)
  | poll (session : UInt64) (now : Millis)
  | stop (session : UInt64)
  deriving DecidableEq, Repr

/-- A port that records its calls in front of another. -/
def ExternalProviderPort.recorded {Provider : Type} (port : ExternalProviderPort Provider) :
    ExternalProviderPort (Provider × List PortCall) where
  quote provider maxSeconds :=
    let answered := port.quote provider.1 maxSeconds
    (answered.1, answered.2, provider.2 ++ [.quote maxSeconds])
  start provider nonce maxSeconds :=
    let answered := port.start provider.1 nonce maxSeconds
    (answered.1, answered.2, provider.2 ++ [.start nonce maxSeconds])
  poll provider session now :=
    let answered := port.poll provider.1 session now
    (answered.1, answered.2, provider.2 ++ [.poll session now])
  stop provider session :=
    let answered := port.stop provider.1 session
    (answered.1, answered.2, provider.2 ++ [.stop session])

/-- The nonces of the sessions that were started. -/
def startedNonces (calls : List PortCall) : List UInt64 :=
  calls.filterMap fun
    | .start nonce _ => some nonce
    | .quote _ | .poll _ _ | .stop _ => none

/-- The sessions that were stopped. -/
def stoppedSessions (calls : List PortCall) : List UInt64 :=
  calls.filterMap fun
    | .stop session => some session
    | .quote _ | .start _ _ | .poll _ _ => none

@[simp] theorem startedNonces_poll (calls : List PortCall) (session : UInt64) (now : Millis) :
    startedNonces (calls ++ [PortCall.poll session now]) = startedNonces calls := by
  rw [startedNonces, List.filterMap_append]
  exact List.append_nil _

@[simp] theorem startedNonces_stop (calls : List PortCall) (session : UInt64) :
    startedNonces (calls ++ [PortCall.stop session]) = startedNonces calls := by
  rw [startedNonces, List.filterMap_append]
  exact List.append_nil _

@[simp] theorem stoppedSessions_poll (calls : List PortCall) (session : UInt64) (now : Millis) :
    stoppedSessions (calls ++ [PortCall.poll session now]) = stoppedSessions calls := by
  rw [stoppedSessions, List.filterMap_append]
  exact List.append_nil _

@[simp] theorem stoppedSessions_stop (calls : List PortCall) (session : UInt64) :
    stoppedSessions (calls ++ [PortCall.stop session]) = stoppedSessions calls ++ [session] := by
  rw [stoppedSessions, List.filterMap_append]
  rfl

namespace ExternalDriver

variable {Provider : Type}

/-- The calls that the provider has received. -/
def received (state : ExternalDriver × Provider × List PortCall) : List PortCall :=
  state.2.2

/-! ### The invariant of the calls -/

/-- A driver of a session, as far as its provider can tell: one start at most, and no stop before
the driver has settled, one of this session at most after. -/
structure Serves (session : UInt64) (state : ExternalDriver × Provider × List PortCall) : Prop where
  starts_le_one : (startedNonces (received state)).length ≤ 1
  live_or_done : (Live state.1.grant state ∧ state.1.session = some session ∧
      stoppedSessions (received state) = []) ∨
    (state.1.engine.Done ∧
      (stoppedSessions (received state) = [] ∨ stoppedSessions (received state) = [session]))

variable {port : ExternalProviderPort Provider} {session : UInt64}
  {state : ExternalDriver × Provider × List PortCall}

/-- The sessions that are stopped by a call on a driver that serves one. -/
def Call.stops (session : UInt64) : Call → List UInt64
  | .tick _ => []
  | .stop _ => [session]

/-- What a call does to a driver that serves a session: it settles where it must, unless the driver
has settled, and a stop and nothing else stops the session. -/
theorem Serves.step (hserves : Serves session state) (call : Call) :
    Serves session ((machine port.recorded).step state call).1 ∧
      ((∃ nonce amountMillis,
          .settle nonce amountMillis ∈ ((machine port.recorded).step state call).2) ↔
        ¬ state.1.engine.Done ∧ MustSettle state call) ∧
      (¬ state.1.engine.Done →
        stoppedSessions (received ((machine port.recorded).step state call).1) =
          call.stops session) := by
  rcases hserves.live_or_done with ⟨hlive, hsession, hunstopped⟩ | ⟨hdone, hstopped⟩
  · have hopen : ¬ state.1.engine.Done := hlive.1.phase_ne.2
    obtain ⟨last, hguard⟩ := hlive.exists_guard
    cases call with
    | tick now =>
      obtain ⟨phase, hphase, htick⟩ := @tick_eq _ port.recorded _ _ _ _ hlive hguard now
      have hpolled : (state.1.polled port.recorded state.2 now).2.2 =
          received state ++ [PortCall.poll session now] := by
        rw [polled, hsession]
        rfl
      have hreceived : received ((machine port.recorded).step state (.tick now)).1 =
          received state ++ [PortCall.poll session now] := by
        simp only [machine, htick]
        exact hpolled
      refine ⟨⟨?_, ?_⟩, ?_, fun _ ↦ ?_⟩
      · rw [hreceived, startedNonces_poll]
        exact hserves.starts_le_one
      · rw [hreceived, stoppedSessions_poll]
        simp only [machine, htick]
        by_cases hexpired : state.1.grant.lease.expiresAt ≤ now
        · right
          exact ⟨if_pos hexpired, Or.inl hunstopped⟩
        · left
          simp only [if_neg hexpired]
          exact ⟨⟨⟨hphase, _, rfl, rfl⟩, rfl⟩, hsession, hunstopped⟩
      · simp only [machine, htick]
        by_cases hexpired : state.1.grant.lease.expiresAt ≤ now
        · rw [if_pos hexpired]
          exact iff_of_true ⟨_, _, List.mem_cons_self⟩ ⟨hopen, hexpired⟩
        · rw [if_neg hexpired]
          exact iff_of_false (by simp) fun hboth ↦ hexpired hboth.2
      · rw [hreceived, stoppedSessions_poll, hunstopped]
        rfl
    | stop now =>
      have hstop := @stop_eq _ port.recorded _ _ _ _ hlive hguard now
      have hreceipt : (state.1.receipt port.recorded state.2).2.2 =
          received state ++ [PortCall.stop session] := by
        rw [receipt, hsession]
        rfl
      have hreceived : received ((machine port.recorded).step state (.stop now)).1 =
          received state ++ [PortCall.stop session] := by
        simp only [machine, hstop]
        exact hreceipt
      have hone : stoppedSessions (received ((machine port.recorded).step state (.stop now)).1) =
          [session] := by
        rw [hreceived, stoppedSessions_stop, hunstopped, List.nil_append]
      refine ⟨⟨?_, Or.inr ⟨?_, Or.inr hone⟩⟩, ?_, fun _ ↦ ?_⟩
      · rw [hreceived, startedNonces_stop]
        exact hserves.starts_le_one
      · simp only [machine, hstop]
        rfl
      · simp only [machine, hstop]
        exact iff_of_true ⟨_, _, List.mem_cons_self⟩ ⟨hopen, trivial⟩
      · exact hone
  · have hstep : (machine port.recorded).step state call = (state, []) := by
      cases call with
      | tick now => exact tick_of_done hdone now
      | stop now => exact stop_of_done hdone now
    rw [hstep]
    refine ⟨hserves, iff_of_false (by simp) (fun hopen ↦ hopen.1 hdone), fun hopen ↦ ?_⟩
    exact absurd hdone hopen

/-- Opening a session under a recording port. -/
theorem serves_open {provider : Provider} {started : Provider × List PortCall}
    {nonce maxSeconds : UInt64} {now : Millis} {leaseMs : UInt64} {driver : ExternalDriver}
    {actions : List ExternalAction}
    (hopened : ExternalDriver.open port.recorded (provider, []) nonce maxSeconds now leaseMs =
      (.ok (driver, actions), started)) :
    ∃ session, driver.session = some session ∧ Serves session (driver, started) := by
  obtain ⟨hresult, hstarted⟩ := Prod.mk.inj hopened
  cases hstart : (port.recorded.start (port.recorded.quote (provider, []) maxSeconds).2 nonce
      maxSeconds).1 with
  | error reason =>
    rw [hstart] at hresult
    exact absurd hresult (by simp [Except.map])
  | ok session =>
    rw [hstart] at hresult
    obtain ⟨hdriver, -⟩ := Prod.mk.inj (Except.ok.inj hresult)
    have hreceived : received (driver, started) = [.quote maxSeconds, .start nonce maxSeconds] := by
      rw [received, ← hstarted]
      rfl
    refine ⟨session, by rw [← hdriver], ?_, Or.inl ⟨?_, by rw [← hdriver], ?_⟩⟩
    · rw [hreceived]
      exact Nat.le_refl 1
    · rw [← hdriver]
      exact ⟨DeliveryEngine.live_grantIssued _, rfl⟩
    · rw [hreceived]
      rfl

theorem serves_resume (grant : Grant) (last : Progress) (session : UInt64) (provider : Provider) :
    Serves session (resume grant last session, provider, ([] : List PortCall)) :=
  ⟨Nat.zero_le 1, Or.inl ⟨⟨DeliveryEngine.live_resume grant last, rfl⟩, rfl, rfl⟩⟩

theorem Serves.final (hserves : Serves session state) (calls : List Call) :
    Serves session ((machine port.recorded).final state calls) :=
  (machine port.recorded).final_invariant (Serves session)
    (fun _ call hreached ↦ (hreached.step call).1) hserves calls

/-! ### Settling after the stop -/

/-- What is expected of a session: it is started once at most, stopped once at most and under its
own name, and a call that settles leaves it stopped. -/
structure StopsBeforeSettling (port : ExternalProviderPort Provider) (session : UInt64)
    (state : ExternalDriver × Provider × List PortCall) (calls : List Call) : Prop where
  starts_once : ∀ before, before <+: calls →
    (startedNonces (received ((machine port.recorded).final state before))).length ≤ 1
  stops_once : ∀ before, before <+: calls →
    stoppedSessions (received ((machine port.recorded).final state before)) = [] ∨
      stoppedSessions (received ((machine port.recorded).final state before)) = [session]
  stopped_first : ∀ before call, before ++ [call] <+: calls →
    (∃ nonce amountMillis, .settle nonce amountMillis ∈
      ((machine port.recorded).step ((machine port.recorded).final state before) call).2) →
    session ∈
      stoppedSessions (received ((machine port.recorded).final state (before ++ [call])))

/-- A tick that finds the lease of a session under way expired. -/
def LeaseEnds (state : ExternalDriver × Provider) : Call → Prop
  | .tick now => ¬ state.1.engine.Done ∧ state.1.grant.lease.expiresAt ≤ now
  | .stop _ => False

instance (state : ExternalDriver × Provider) : DecidablePred (LeaseEnds state)
  | .tick now =>
    inferInstanceAs (Decidable (¬ state.1.engine.Done ∧ state.1.grant.lease.expiresAt ≤ now))
  | .stop _ => instDecidableFalse

/-- A driver that serves a session stops it before it settles exactly when no tick ends the
lease. -/
theorem Serves.stopsFirst_iff (hserves : Serves session state) (calls : List Call) :
    StopsBeforeSettling port session state calls ↔
      (machine port.recorded).Along (fun state call ↦ ¬ LeaseEnds state call) state calls := by
  rw [Transducer.along_iff_forall_cut]
  constructor
  · intro hstops before call after hcut hends
    have hpart : before ++ [call] <+: calls := ⟨after, by rw [hcut]; simp⟩
    have hreached : Serves session ((machine port.recorded).final state before) :=
      hserves.final before
    obtain ⟨-, hsettles, hstopped⟩ := @Serves.step _ port _ _ hreached call
    cases call with
    | stop now => exact hends
    | tick now =>
      have hafter := hstops.stopped_first before (.tick now) hpart (hsettles.mpr hends)
      rw [Transducer.final_append] at hafter
      rw [Transducer.final_cons, Transducer.final_nil, hstopped hends.1] at hafter
      exact absurd hafter List.not_mem_nil
  · intro hlease
    refine ⟨fun before _ ↦ (hserves.final before).starts_le_one, fun before _ ↦ ?_, ?_⟩
    · rcases (@Serves.final _ port _ _ hserves before).live_or_done with ⟨-, -, hnone⟩ | ⟨-, hone⟩
      · exact Or.inl hnone
      · exact hone
    · rintro before call ⟨after, hcut⟩ hpaid
      have hreached : Serves session ((machine port.recorded).final state before) :=
        hserves.final before
      obtain ⟨-, hsettles, hstopped⟩ := @Serves.step _ port _ _ hreached call
      obtain ⟨hopen, hmust⟩ := hsettles.mp hpaid
      rw [Transducer.final_append, Transducer.final_cons, Transducer.final_nil, hstopped hopen]
      cases call with
      | stop now => exact List.mem_singleton_self session
      | tick now =>
        exact absurd ⟨hopen, hmust⟩ (hlease before (.tick now) after (by rw [← hcut]; simp))

/-- Against any provider, from every `open` that succeeds and from every `resume`, and for every run
of ticks and stops: the session is started once at most, stopped once at most and under its own
name, and stopped by the end of the call that settles it, exactly when no tick of a session under
way comes at or after the expiry of its lease. -/
theorem stopsBeforeSettling_iff (port : ExternalProviderPort Provider) (provider : Provider)
    (calls : List Call) :
    (∀ nonce maxSeconds now leaseMs driver actions started,
      ExternalDriver.open port.recorded (provider, []) nonce maxSeconds now leaseMs =
        (.ok (driver, actions), started) →
      ∃ session, driver.session = some session ∧
        (StopsBeforeSettling port session (driver, started) calls ↔
          (machine port.recorded).Along (fun state call ↦ ¬ LeaseEnds state call) (driver, started)
            calls)) ∧
    ∀ grant last session,
      StopsBeforeSettling port session (resume grant last session, provider, []) calls ↔
        (machine port.recorded).Along (fun state call ↦ ¬ LeaseEnds state call)
          (resume grant last session, provider, []) calls := by
  constructor
  · intro nonce maxSeconds now leaseMs driver actions started hopened
    obtain ⟨session, hsession, hserves⟩ := serves_open hopened
    exact ⟨session, hsession, hserves.stopsFirst_iff calls⟩
  · intro grant last session
    exact (serves_resume grant last session provider).stopsFirst_iff calls

/-- A session that is stopped before its lease expires. -/
theorem stopsBeforeSettling_by_stop :
    StopsBeforeSettling samplePort 7
      (resume DeliveryEngine.sampleGrant ⟨0, 0, 0, 0⟩ 7, (), []) [.tick 10000, .stop 30000] ∧
      StopsBeforeSettling samplePort 7
        ({ engine := (DeliveryEngine.new.handle (.grantIssued
              { nonce := 7, depositMillis := 240, caps := ⟨none, some 120, none⟩,
                lease := ⟨500000⟩ })).1
           grant := { nonce := 7, depositMillis := 240, caps := ⟨none, some 120, none⟩,
                      lease := ⟨500000⟩ }
           session := some 7
           last := ⟨0, 0, 0, 0⟩ }, (), [.quote 120, .start 7 120])
        [.tick 10000, .stop 30000] := by
  constructor
  · exact ((stopsBeforeSettling_iff samplePort () [.tick 10000, .stop 30000]).2 _ _ _).mpr
      (by decide +kernel)
  · obtain ⟨session, hsession, hiff⟩ :=
      (stopsBeforeSettling_iff samplePort () [.tick 10000, .stop 30000]).1 7 120 0 500000
        { engine := (DeliveryEngine.new.handle (.grantIssued
              { nonce := 7, depositMillis := 240, caps := ⟨none, some 120, none⟩,
                lease := ⟨500000⟩ })).1
          grant := { nonce := 7, depositMillis := 240, caps := ⟨none, some 120, none⟩,
                     lease := ⟨500000⟩ }
          session := some 7
          last := ⟨0, 0, 0, 0⟩ } [] ((), [.quote 120, .start 7 120]) rfl
    obtain rfl : 7 = session := Option.some.inj hsession
    exact hiff.mpr (by decide +kernel)

/-- A session that is polled once more when its lease has expired: it is settled, and the provider's
meter runs on. -/
theorem stopsBeforeSettling_fails :
    ¬ StopsBeforeSettling samplePort 7
      (resume DeliveryEngine.sampleGrant ⟨0, 0, 0, 0⟩ 7, (), [])
      [.tick 50000, .tick 100000] := by
  intro hstops
  have hsettles : ∃ nonce amountMillis, .settle nonce amountMillis ∈
      ((machine samplePort.recorded).step ((machine samplePort.recorded).final
        (resume DeliveryEngine.sampleGrant ⟨0, 0, 0, 0⟩ 7, (), []) [.tick 50000])
        (.tick 100000)).2 :=
    ⟨7, 200, by decide +kernel⟩
  exact absurd (hstops.stopped_first [.tick 50000] (.tick 100000) (List.prefix_refl _) hsettles)
    (by decide +kernel)

/-! ### Heeding a stop of the engine -/

/-- An action that tells the host to stop the delivery. There is none. -/
def asksToStop : ExternalAction → Bool
  | .settle _ _ => false
  | .refund _ _ => false

/-- The engine decides in a call that delivery must stop. -/
def StopDecided (port : ExternalProviderPort Provider) (state : ExternalDriver × Provider)
    (call : Call) : Prop :=
  ∃ nonce, .stopDelivery nonce ∈
    DeliveryEngine.machine.outputs state.1.engine (events port state call)

/-- A tick of a delivery under way polls a reading that the guard accepts and that reaches the time
cap. -/
def ReachesTimeCap (port : ExternalProviderPort Provider) (state : ExternalDriver × Provider) :
    Call → Prop
  | .tick now =>
    ¬ state.1.engine.Done ∧ ∃ guard ∈ state.1.engine.guard,
      guard.nonMonotonic (state.1.polled port state.2 now).1 = false ∧
        (guard.grant.caps.maxSeconds.any fun max ↦
          max ≤ (state.1.polled port state.2 now).1.secondsTotal) = true
  | .stop _ => False

/-- A tick of a delivery under way polls a reading that the guard accepts and that exhausts a
cap. -/
def ExhaustsCap (port : ExternalProviderPort Provider) (state : ExternalDriver × Provider) :
    Call → Prop
  | .tick now =>
    ¬ state.1.engine.Done ∧ ∃ guard ∈ state.1.engine.guard,
      guard.nonMonotonic (state.1.polled port state.2 now).1 = false ∧
        ({ guard with last := (state.1.polled port state.2 now).1 } :
          BudgetGuard).exhausted.isSome =
          true
  | .stop _ => False

instance (port : ExternalProviderPort Provider) (state : ExternalDriver × Provider) :
    DecidablePred (ExhaustsCap port state)
  | .tick _ =>
    inferInstanceAs (Decidable (¬ state.1.engine.Done ∧ ∃ guard ∈ state.1.engine.guard, _))
  | .stop _ => instDecidableFalse

/-- By the end of a call the provider has been told to stop, or the host has. -/
def Heeded (port : ExternalProviderPort Provider)
    (state : ExternalDriver × Provider × List PortCall) (call : Call) : Prop :=
  stoppedSessions (received ((machine port.recorded).step state call).1) ≠ [] ∨
    ∃ action ∈ ((machine port.recorded).step state call).2, asksToStop action = true

/-- What is expected of a driver: a poll that reaches the time cap is heeded, and so is every stop
that the engine decides on. -/
structure HeedsStops (port : ExternalProviderPort Provider)
    (state : ExternalDriver × Provider × List PortCall) (calls : List Call) : Prop where
  time_cap : ∀ before call, before ++ [call] <+: calls →
    ReachesTimeCap port.recorded ((machine port.recorded).final state before) call →
      Heeded port ((machine port.recorded).final state before) call
  decided : ∀ before call, before ++ [call] <+: calls →
    StopDecided port.recorded ((machine port.recorded).final state before) call →
      Heeded port ((machine port.recorded).final state before) call

/-- A reading that reaches the time cap exhausts a cap. -/
theorem exhaustsCap_of_reachesTimeCap {port : ExternalProviderPort Provider}
    {state : ExternalDriver × Provider} {call : Call} (hreaches : ReachesTimeCap port state call) :
    ExhaustsCap port state call := by
  cases call with
  | stop now => exact hreaches
  | tick now =>
    obtain ⟨hopen, guard, hguard, hkept, hcap⟩ := hreaches
    refine ⟨hopen, guard, hguard, hkept, ?_⟩
    simp only [BudgetGuard.exhausted, if_pos hcap]
    split_ifs
    · rfl
    · rfl

/-- The engine decides to stop exactly when a poll exhausts a cap. -/
theorem stopDecided_iff {port : ExternalProviderPort Provider} {state : ExternalDriver × Provider}
    (hrunning : Live state.1.grant state ∨ state.1.engine.Done) (call : Call) :
    StopDecided port state call ↔ ExhaustsCap port state call := by
  rcases hrunning with hlive | hdone
  · have hopen : ¬ state.1.engine.Done := hlive.1.phase_ne.2
    obtain ⟨last, hguard⟩ := @Live.exists_guard _ state.1 state.2 _ hlive
    cases call with
    | stop now =>
      refine iff_of_false ?_ id
      simp only [StopDecided, events, if_neg hopen]
      rintro ⟨nonce, hmem⟩
      simp [DeliveryEngine.handle_terminalObserved hlive.1.phase_ne.1, hopen,
        DeliveryEngine.settleFromTotals_of_guard hguard] at hmem
    | tick now =>
      have hevents : events port state (.tick now) =
          [.progressObserved (state.1.polled port state.2 now).1, .tick now] := if_neg hopen
      rw [StopDecided, hevents, DeliveryEngine.stops_iff hlive.1.phase_ne.1 hguard]
      simp only [ExhaustsCap, hopen, not_false_eq_true, true_and, Option.mem_def, hguard,
        Option.some.injEq, exists_eq_left']
  · refine iff_of_false ?_ ?_
    · have hnone : events port state call = [] := by
        cases call <;> exact if_pos hdone
      simp [StopDecided, hnone]
    · intro hexhausts
      cases call with
      | stop now => exact hexhausts
      | tick now => exact hexhausts.1 hdone

/-- A call in which the engine decides to stop is never heeded. -/
theorem Serves.not_heeded (hserves : Serves session state) {call : Call}
    (hexhausts : ExhaustsCap port.recorded state call) : ¬ Heeded port state call := by
  obtain ⟨-, -, hstopped⟩ := @Serves.step _ port _ _ hserves call
  cases call with
  | stop now => exact absurd hexhausts id
  | tick now =>
    rintro (hstop | ⟨action, -, hasks⟩)
    · exact hstop (hstopped hexhausts.1)
    · cases action <;> exact absurd hasks (by simp [asksToStop])

/-- A driver that serves a session heeds its engine exactly when no poll exhausts a cap. -/
theorem Serves.stopsHeard_iff (hserves : Serves session state) (calls : List Call) :
    HeedsStops port state calls ↔
      (machine port.recorded).Along (fun state call ↦ ¬ ExhaustsCap port.recorded state call) state
        calls := by
  have hdecided (before : List Call) (call : Call) :
      StopDecided port.recorded ((machine port.recorded).final state before) call ↔
        ExhaustsCap port.recorded ((machine port.recorded).final state before) call :=
    stopDecided_iff ((@Serves.final _ port _ _ hserves before).live_or_done.imp And.left And.left)
      call
  rw [Transducer.along_iff_forall_cut]
  constructor
  · intro hheeds before call after hcut hexhausts
    have hpart : before ++ [call] <+: calls := ⟨after, by rw [hcut]; simp⟩
    exact (hserves.final before).not_heeded hexhausts
      (hheeds.decided before call hpart ((hdecided before call).mpr hexhausts))
  · intro hnever
    refine ⟨?_, ?_⟩
    · rintro before call ⟨after, hcut⟩ hreaches
      exact absurd (exhaustsCap_of_reachesTimeCap hreaches)
        (hnever before call after (by rw [← hcut]; simp))
    · rintro before call ⟨after, hcut⟩ hstop
      exact absurd ((hdecided before call).mp hstop)
        (hnever before call after (by rw [← hcut]; simp))

/-- Against any provider, from every `open` that succeeds and from every `resume`, and for every run
of ticks and stops: a poll that reaches the time cap, and every stop that the engine decides on,
reaches the provider or the host by the end of the call, exactly when no tick of a delivery under
way polls a reading that the guard accepts and that exhausts a cap. -/
theorem heedsStops_iff (port : ExternalProviderPort Provider) (provider : Provider)
    (calls : List Call) :
    (∀ nonce maxSeconds now leaseMs driver actions started,
      ExternalDriver.open port.recorded (provider, []) nonce maxSeconds now leaseMs =
        (.ok (driver, actions), started) →
      (HeedsStops port (driver, started) calls ↔
        (machine port.recorded).Along (fun state call ↦ ¬ ExhaustsCap port.recorded state call)
          (driver, started) calls)) ∧
    ∀ grant last session,
      HeedsStops port (resume grant last session, provider, []) calls ↔
        (machine port.recorded).Along (fun state call ↦ ¬ ExhaustsCap port.recorded state call)
          (resume grant last session, provider, []) calls := by
  constructor
  · intro nonce maxSeconds now leaseMs driver actions started hopened
    obtain ⟨session, -, hserves⟩ := serves_open hopened
    exact hserves.stopsHeard_iff calls
  · intro grant last session
    exact (serves_resume grant last session provider).stopsHeard_iff calls

/-- A session that is stopped before its time cap. -/
theorem heedsStops_before_cap :
    HeedsStops samplePort
        ({ engine := (DeliveryEngine.new.handle (.grantIssued
              { nonce := 7, depositMillis := 240, caps := ⟨none, some 120, none⟩,
                lease := ⟨500000⟩ })).1
           grant := { nonce := 7, depositMillis := 240, caps := ⟨none, some 120, none⟩,
                      lease := ⟨500000⟩ }
           session := some 7
           last := ⟨0, 0, 0, 0⟩ }, (), [.quote 120, .start 7 120])
        [.tick 10000, .stop 30000] := by
  have hiff :=
    (heedsStops_iff samplePort () [.tick 10000, .stop 30000]).1 7 120 0 500000
      { engine := (DeliveryEngine.new.handle (.grantIssued
            { nonce := 7, depositMillis := 240, caps := ⟨none, some 120, none⟩,
              lease := ⟨500000⟩ })).1
        grant := { nonce := 7, depositMillis := 240, caps := ⟨none, some 120, none⟩,
                   lease := ⟨500000⟩ }
        session := some 7
        last := ⟨0, 0, 0, 0⟩ } [] ((), [.quote 120, .start 7 120]) rfl
  exact hiff.mpr (by decide +kernel)

/-- A session with a time cap of ten minutes whose poll reads ten minutes: nobody is told. -/
theorem heedsStops_fails :
    ¬ HeedsStops samplePort
      (resume { DeliveryEngine.sampleGrant with lease := ⟨900000⟩ } ⟨0, 0, 0, 0⟩ 7, (), [])
      [.tick 600000] := by
  intro hheeds
  have hreaches : ReachesTimeCap samplePort.recorded
      (resume { DeliveryEngine.sampleGrant with lease := ⟨900000⟩ } ⟨0, 0, 0, 0⟩ 7, (), [])
      (.tick 600000) := by
    exact ⟨by decide +kernel, ⟨_, ⟨0, 0, 0, 0⟩⟩, DeliveryEngine.guard_resume _ _, by decide +kernel,
      by decide +kernel⟩
  rcases hheeds.time_cap [] (.tick 600000) (List.prefix_refl _) hreaches with hstop | hasks
  · exact absurd hstop (by decide +kernel)
  · exact absurd hasks (by decide +kernel)

end ExternalDriver

end Tollgate
