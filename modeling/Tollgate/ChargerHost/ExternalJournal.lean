import Tollgate.ChargerHost.Watch

/-!
# The external driver's journal

The external driver journals every poll, whatever its engine makes of it, and its stop settles from
the provider's receipt and leaves the journal alone. What it promises about the journal holds of a
run exactly when the provider's polls, from the journal that the run starts with on, never go
backwards. `drivers_keep_journal_iff` puts the two drivers together.
-/

set_option autoImplicit false
set_option relaxedAutoImplicit false

namespace Tollgate

namespace ExternalDriver

/-- A call, or a crash after which the driver is rebuilt from its journal and a session that the
host kept. -/
inductive Turn
  | call (call : Call)
  | crash (session : UInt64)
  deriving DecidableEq, Repr

variable {Provider : Type} (port : ExternalProviderPort Provider)

/-- The driver as a machine that may crash. -/
def recoverable : Transducer (ExternalDriver × Provider) Turn ExternalAction where
  step state
    | .call call => (machine port).step state call
    | .crash session => ((resume state.1.journal.1 state.1.journal.2 session, state.2), [])

/-- The events that a call hands to the engine. -/
def events (state : ExternalDriver × Provider) : Call → List DeliveryEvent
  | .tick now =>
    if state.1.engine.Done then []
    else [.progressObserved (state.1.polled port state.2 now).1, .tick now]
  | .stop now =>
    if state.1.engine.Done then []
    else
      [.terminalObserved
        { kind := .completed
          unitsTotal := 0
          secondsTotal := (state.1.receipt port state.2).1.2
          costMillisTotal := (state.1.receipt port state.2).1.1
          observedAt := now
          receipt := none }]

/-- A call runs the engine on its events. -/
theorem engine_step (state : ExternalDriver × Provider) (call : Call) :
    ((machine port).step state call).1.1.engine =
      DeliveryEngine.machine.final state.1.engine (events port state call) := by
  by_cases hdone : state.1.engine.Done
  · cases call with
    | tick now =>
      simp only [machine, tick_of_done hdone, events, if_pos hdone, Transducer.final_nil]
    | stop now =>
      simp only [machine, stop_of_done hdone, events, if_pos hdone, Transducer.final_nil]
  · have hopen : ¬ state.1.engine.phase = .done := hdone
    cases call with
    | tick now =>
      simp only [machine, tick, if_neg hopen, events, if_neg hdone]
      rfl
    | stop now =>
      simp only [machine, stop, if_neg hopen, events, if_neg hdone]
      rfl

/-- The amount that an action settles. -/
def settledAmount : ExternalAction → Option UInt64
  | .settle _ amountMillis => some amountMillis
  | .refund _ _ => none

/-- What the promise looks at in an external driver. A stop with a session is settled by the
provider's receipt, and is not on the driver's account. -/
def journalView : JournalView (ExternalDriver × Provider) Turn where
  journal state := state.1.journal.2
  accepts state
    | .call call =>
      DeliveryEngine.machine.observe DeliveryEngine.acceptedReading state.1.engine
        (events port state call)
    | .crash _ => []
  refuses state
    | .call call => state.1.engine.Refuses (events port state call)
    | .crash _ => False
  settles state
    | .call (.tick now) => ((machine port).step state (.tick now)).2.filterMap settledAmount
    | .call (.stop now) =>
      if state.1.session.isSome then []
      else ((machine port).step state (.stop now)).2.filterMap settledAmount
    | .crash _ => []

/-- A poll of a delivery under way goes forward. -/
def GoesForward (state : ExternalDriver × Provider) : Turn → Prop
  | .call (.tick now) =>
    ¬ state.1.engine.Done → state.1.last.NoDecrease (state.1.polled port state.2 now).1
  | .call (.stop _) => True
  | .crash _ => True

/-- What the provider answers when it is polled, which is while delivery is under way. -/
def polls (state : ExternalDriver × Provider) : Turn → List Progress
  | .call (.tick now) =>
    if state.1.engine.Done then []
    else (state.1.session.map fun session ↦ (port.poll state.2 session now).1).toList
  | .call (.stop _) | .crash _ => []

/-- The engine stands where the journal does, unless it has settled. -/
structure Consistent (grant : Grant) (state : ExternalDriver × Provider) : Prop where
  grant_eq : state.1.grant = grant
  agrees : state.1.engine.Done ∨ Live grant state ∧
    ∃ last, state.1.engine.guard = some ⟨state.1.grant, last⟩ ∧ last.totals = state.1.last.totals

theorem consistent_resume (grant : Grant) (last : Progress) (session : UInt64)
    (provider : Provider) : Consistent grant (resume grant last session, provider) :=
  ⟨rfl, Or.inr ⟨⟨DeliveryEngine.live_resume grant last, rfl⟩, last,
    DeliveryEngine.guard_resume grant last, rfl⟩⟩

theorem consistent_of_grantIssued (grant : Grant) (session : UInt64) (now : Millis)
    (provider : Provider) :
    Consistent grant
      ({ engine := (DeliveryEngine.new.handle (.grantIssued grant)).1
         grant := grant
         session := some session
         last := ⟨0, 0, 0, now⟩ }, provider) :=
  ⟨rfl, Or.inr ⟨⟨DeliveryEngine.live_grantIssued grant, rfl⟩, _, rfl, rfl⟩⟩

variable {port} {state : ExternalDriver × Provider} {grant : Grant}

/-- A step that leaves the journal as it is and has no reading accepted or refused, and settles
nothing or the journal. -/
theorem forward_of_kept {turn : Turn}
    (hjournal : (journalView port).journal ((recoverable port).step state turn).1 =
      (journalView port).journal state)
    (haccepts : (journalView port).accepts state turn = [])
    (hrefuses : ¬ (journalView port).refuses state turn)
    (hsettles : ∀ amountMillis ∈ (journalView port).settles state turn,
      amountMillis =
        DeliveryEngine.settlement grant ((journalView port).journal state).costMillisTotal) :
    ForwardStep (recoverable port) (journalView port) grant state turn := by
  constructor
  · rw [hjournal]
    exact .of_totals_eq rfl
  · rw [hjournal, haccepts]
    rfl
  · rw [haccepts]
    exact fun reading hreading ↦ absurd hreading List.not_mem_nil
  · exact hrefuses
  · intro amountMillis hsettled
    rw [hjournal, hsettles amountMillis hsettled]
    exact UInt64.le_refl _

/-- A tick on a live driver whose poll goes forward. -/
theorem forward_of_tick (hlive : Live grant state) {last : Progress}
    (hguard : state.1.engine.guard = some ⟨state.1.grant, last⟩)
    (htotals : last.totals = state.1.last.totals) {now : Millis}
    (hback : state.1.last.NoDecrease (state.1.polled port state.2 now).1) :
    Consistent grant (state.1.tick port state.2 now).1 ∧
      ForwardStep (recoverable port) (journalView port) grant state (.call (.tick now)) := by
  have hopen : ¬ state.1.engine.Done := hlive.1.phase_ne.2
  have hgrant : state.1.grant = grant := hlive.2
  have hkept : (⟨state.1.grant, last⟩ : BudgetGuard).nonMonotonic
      (state.1.polled port state.2 now).1 = false :=
    BudgetGuard.nonMonotonic_eq_false_iff.mpr
      ((Progress.NoDecrease.of_totals_eq htotals).trans hback)
  obtain ⟨phase, hphase, htick⟩ := @tick_eq _ port _ _ _ _ hlive hguard now
  simp only [hkept, Bool.false_eq_true, if_false] at htick
  have hevents : events port state (.tick now) =
      [.progressObserved (state.1.polled port state.2 now).1, .tick now] := if_neg hopen
  obtain ⟨haccepts, -, hrefuses⟩ := DeliveryEngine.kept_then_tick hguard hkept now
  rw [← hevents] at haccepts hrefuses
  have hnext : (journalView port).journal ((recoverable port).step state (.call (.tick now))).1 =
      (state.1.polled port state.2 now).1 := by
    simp only [recoverable, machine, htick]
    rfl
  constructor
  · rw [htick]
    refine ⟨hgrant, ?_⟩
    by_cases hexpired : state.1.grant.lease.expiresAt ≤ now
    · left
      exact if_pos hexpired
    · right
      refine ⟨⟨⟨?_, _, rfl, hgrant⟩, hgrant⟩, _, rfl, rfl⟩
      show (if state.1.grant.lease.expiresAt ≤ now then _ else phase) = _ ∨
        (if state.1.grant.lease.expiresAt ≤ now then _ else phase) = _
      rw [if_neg hexpired]
      exact hphase
  · constructor
    · rw [hnext]
      exact hback
    · rw [hnext]
      exact congrArg (fun accepted : List Progress ↦
        (accepted.getLast?.getD ((journalView port).journal state)).totals) haccepts.symm
    · intro reading hreading
      have hsame : reading = (state.1.polled port state.2 now).1 :=
        List.mem_singleton.mp (haccepts ▸ hreading)
      rw [hnext, hsame]
      exact .of_totals_eq rfl
    · exact hrefuses
    · intro amountMillis hsettled
      rw [hnext]
      simp only [journalView, machine, htick] at hsettled
      split_ifs at hsettled
      · have hamount : amountMillis = DeliveryEngine.settlement state.1.grant
            (state.1.polled port state.2 now).1.costMillisTotal := List.mem_singleton.mp hsettled
        rw [hamount, hgrant]
        exact UInt64.le_refl _
      · exact absurd hsettled List.not_mem_nil

/-- A turn that goes forward keeps driver and journal consistent. -/
theorem Consistent.forward (hconsistent : Consistent grant state) {turn : Turn}
    (hforward : GoesForward port state turn) :
    Consistent grant ((recoverable port).step state turn).1 ∧
      ForwardStep (recoverable port) (journalView port) grant state turn := by
  cases turn with
  | crash session =>
    refine ⟨⟨hconsistent.grant_eq, ?_⟩, forward_of_kept rfl rfl id ?_⟩
    · obtain ⟨-, hagrees⟩ := consistent_resume state.1.grant state.1.last session state.2
      rw [← hconsistent.grant_eq]
      exact hagrees
    · exact fun amountMillis hsettled ↦ absurd hsettled List.not_mem_nil
  | call call =>
    rcases hconsistent.agrees with hdone | ⟨hlive, last, hguard, htotals⟩
    · have hstep : (machine port).step state call = (state, []) := by
        cases call with
        | tick now => exact tick_of_done hdone now
        | stop now => exact stop_of_done hdone now
      have hevents : events port state call = [] := by
        cases call <;> exact if_pos hdone
      refine ⟨?_, forward_of_kept ?_ ?_ ?_ ?_⟩
      · simp only [recoverable, hstep]
        exact hconsistent
      · simp only [recoverable, hstep]
      · simp only [journalView, hevents, Transducer.observe_nil]
      · simp [journalView, hevents, DeliveryEngine.Refuses]
      · intro amountMillis hsettled
        cases call <;> simp [journalView, hstep] at hsettled
    · cases call with
      | tick now =>
        exact forward_of_tick hlive hguard htotals (hforward hlive.1.phase_ne.2)
      | stop now =>
        have hstep : (machine port).step state (.stop now) = _ := stop_eq hlive hguard now
        have hopen : ¬ state.1.engine.Done := hlive.1.phase_ne.2
        refine ⟨?_, forward_of_kept ?_ ?_ ?_ ?_⟩
        · simp only [recoverable, hstep]
          exact ⟨hconsistent.grant_eq, Or.inl rfl⟩
        · simp only [recoverable, hstep]
          rfl
        · simp only [journalView, events, if_neg hopen]
          rfl
        · simp only [journalView, events, if_neg hopen]
          exact (DeliveryEngine.settles_report hlive.1 _).2
        · intro amountMillis hsettled
          simp only [journalView, hstep] at hsettled
          split_ifs at hsettled with hsession
          · exact absurd hsettled List.not_mem_nil
          · have hnone : state.1.session = none := by simpa using hsession
            have hamount : amountMillis = DeliveryEngine.settlement state.1.grant
                (state.1.receipt port state.2).1.1 := List.mem_singleton.mp hsettled
            rw [hamount, show state.1.grant = grant from hlive.2, receipt, hnone]
            rfl

/-- Conversely, a turn that takes the journal forward goes forward. -/
theorem goesForward_of_journal (hconsistent : Consistent grant state) {turn : Turn}
    (hback : ((journalView port).journal state).NoDecrease
      ((journalView port).journal ((recoverable port).step state turn).1)) :
    GoesForward port state turn := by
  cases turn with
  | crash session => trivial
  | call call =>
    cases call with
    | stop now => trivial
    | tick now =>
      intro hopen
      obtain ⟨hlive, last, hguard, -⟩ := hconsistent.agrees.resolve_left hopen
      obtain ⟨phase, -, htick⟩ := @tick_eq _ port _ _ _ _ hlive hguard now
      simp only [recoverable, machine, htick] at hback
      exact hback

/-- From a consistent driver, a run keeps its journal exactly when its turns go forward. -/
theorem keepsJournal_iff_goesForward (hconsistent : Consistent grant state) (turns : List Turn) :
    KeepsJournal (recoverable port) payout (journalView port) grant state turns ↔
      (recoverable port).Along (GoesForward port) state turns :=
  keepsJournal_iff_along
    (fun _ _ hinvariant hforward ↦ Consistent.forward hinvariant hforward)
    (fun _ _ hinvariant hback _ ↦ goesForward_of_journal hinvariant hback) hconsistent

/-- The journal after a turn: the poll, if there is one. -/
theorem last_step (state : ExternalDriver × Provider) (turn : Turn) :
    ((recoverable port).step state turn).1.1.last =
      ((polls port state turn).getLast?).getD state.1.last := by
  cases turn with
  | crash session => rfl
  | call call =>
    cases call with
    | stop now =>
      show (state.1.stop port state.2 now).1.1.last = state.1.last
      unfold ExternalDriver.stop
      split_ifs <;> rfl
    | tick now =>
      show (state.1.tick port state.2 now).1.1.last = _
      by_cases hdone : state.1.engine.Done
      · rw [tick_of_done hdone, polls, if_pos hdone]
        rfl
      · have hopen : ¬ state.1.engine.phase = .done := hdone
        simp only [tick, if_neg hopen, polls, if_neg hdone, polled]
        cases state.1.session <;> rfl

/-- A poll goes forward exactly when the provider's answer does. -/
theorem goesForward_iff (state : ExternalDriver × Provider) (turn : Turn) :
    GoesForward port state turn ↔
      ∀ reading ∈ polls port state turn, state.1.last.NoDecrease reading := by
  cases turn with
  | crash session => simp [GoesForward, polls]
  | call call =>
    cases call with
    | stop now => simp [GoesForward, polls]
    | tick now =>
      simp only [GoesForward, polls, polled]
      by_cases hdone : state.1.engine.Done
      · simp [hdone]
      · cases state.1.session with
        | none => simp [hdone, Progress.NoDecrease.of_totals_eq rfl]
        | some session => simp [hdone]

/-- The polls of a run go forward exactly when the provider's answers, from the journal on, form a
chain. -/
theorem along_goesForward_iff (state : ExternalDriver × Provider) (turns : List Turn) :
    (recoverable port).Along (GoesForward port) state turns ↔
      (state.1.last :: (recoverable port).observe (polls port) state turns).IsChain
        Progress.NoDecrease := by
  induction turns generalizing state with
  | nil => exact iff_of_true trivial (.singleton _)
  | cons turn rest ih =>
    rw [Transducer.along_cons, Transducer.observe_cons, ih, goesForward_iff, last_step]
    have hone : (polls port state turn).length ≤ 1 := by
      cases turn with
      | crash session => simp [polls]
      | call call =>
        cases call with
        | stop now => simp [polls]
        | tick now =>
          simp only [polls]
          split_ifs
          · simp
          · cases state.1.session <;> simp
    match polls port state turn, hone with
    | [], _ => simp
    | [reading], _ => simp

/-- The driver of a session that was opened: with a fresh grant, and nothing delivered yet. -/
theorem eq_of_open {provider started : Provider} {nonce maxSeconds : UInt64} {now : Millis}
    {leaseMs : UInt64} {driver : ExternalDriver} {actions : List ExternalAction}
    (hopened : ExternalDriver.open port provider nonce maxSeconds now leaseMs =
      (.ok (driver, actions), started)) :
    ∃ granted session, driver =
      { engine := (DeliveryEngine.new.handle (.grantIssued granted)).1
        grant := granted
        session := some session
        last := ⟨0, 0, 0, now⟩ } := by
  obtain ⟨hresult, -⟩ := Prod.mk.inj hopened
  cases hstart : (port.start (port.quote provider maxSeconds).2 nonce maxSeconds).1 with
  | error reason =>
    rw [hstart] at hresult
    exact absurd hresult (by simp [Except.map])
  | ok session =>
    rw [hstart] at hresult
    obtain ⟨hdriver, -⟩ := Prod.mk.inj (Except.ok.inj hresult)
    exact ⟨_, session, hdriver.symm⟩

end ExternalDriver

/-! ### The two drivers -/

/-- For every grant and price, from `open` at any time and from `resume` at any journal of the
driver, and for every run of calls and crashes: the charger driver keeps its journal exactly when no
reading counts fewer whole seconds, from the acknowledgement in force to its time, than the last one
before it, and as many once the driver has settled. The external driver, against any provider, from
every `open` that succeeds and from every `resume`, keeps its journal exactly when the provider's
polls, from the journal that the run starts with on, never go back. -/
theorem drivers_keep_journal_iff (device : String) (grant : Grant) (price : PriceVector)
    (last : Progress) (turns : List ChargerDriver.Turn) {Provider : Type}
    (port : ExternalProviderPort Provider) (provider : Provider)
    (polls : List ExternalDriver.Turn) :
    (∀ openedAt,
      let driver := (ChargerDriver.open device grant price openedAt).1
      KeepsJournal ChargerDriver.recoverable ChargerDriver.payout ChargerDriver.journalView grant
          driver turns ↔
        Watch.machine.Along Watch.Forward (Watch.opened openedAt)
          (ChargerDriver.recoverable.observe ChargerDriver.stamps driver turns)) ∧
    (last.unitsTotal = 0 →
      last.costMillisTotal = last.secondsTotal.saturatingMul price.perSecondMillis →
        let driver := ChargerDriver.resume device grant price last
        (KeepsJournal ChargerDriver.recoverable ChargerDriver.payout ChargerDriver.journalView grant
            driver turns ↔
          Watch.machine.Along Watch.Forward (Watch.resumed last)
            (ChargerDriver.recoverable.observe ChargerDriver.stamps driver turns))) ∧
    (∀ nonce maxSeconds now leaseMs driver actions started,
      ExternalDriver.open port provider nonce maxSeconds now leaseMs =
        (.ok (driver, actions), started) →
      (KeepsJournal (ExternalDriver.recoverable port) ExternalDriver.payout
          (ExternalDriver.journalView port) driver.grant (driver, started) polls ↔
        (⟨0, 0, 0, now⟩ :: (ExternalDriver.recoverable port).observe (ExternalDriver.polls port)
          (driver, started) polls).IsChain Progress.NoDecrease)) ∧
    ∀ session,
      KeepsJournal (ExternalDriver.recoverable port) ExternalDriver.payout
          (ExternalDriver.journalView port) grant
          (ExternalDriver.resume grant last session, provider) polls ↔
        (last :: (ExternalDriver.recoverable port).observe (ExternalDriver.polls port)
          (ExternalDriver.resume grant last session, provider) polls).IsChain
          Progress.NoDecrease := by
  refine ⟨fun openedAt ↦ ?_, fun hunits hcost ↦ ?_, ?_, fun session ↦ ?_⟩
  · exact (ChargerDriver.keepsJournal_iff_goesForward
      (ChargerDriver.consistent_open device grant price openedAt) turns).trans
      ((ChargerDriver.watched_open device grant price openedAt).along_iff turns)
  · exact (ChargerDriver.keepsJournal_iff_goesForward
      (ChargerDriver.consistent_resume device grant price last) turns).trans
      ((ChargerDriver.watched_resume device grant price hunits hcost).along_iff turns)
  · intro nonce maxSeconds now leaseMs driver actions started hopened
    obtain ⟨granted, session, rfl⟩ := ExternalDriver.eq_of_open hopened
    rw [ExternalDriver.keepsJournal_iff_goesForward
      (ExternalDriver.consistent_of_grantIssued granted session now started) polls,
      ExternalDriver.along_goesForward_iff]
  · rw [ExternalDriver.keepsJournal_iff_goesForward
      (ExternalDriver.consistent_resume grant last session provider) polls,
      ExternalDriver.along_goesForward_iff]
    rfl

/-- A charger session with a crash in it, one that goes on from a journal, and an external one, all
with readings that go forward. -/
theorem drivers_keep_journal_forward :
    KeepsJournal ChargerDriver.recoverable ChargerDriver.payout ChargerDriver.journalView
        DeliveryEngine.sampleGrant
        (ChargerDriver.open "plug" DeliveryEngine.sampleGrant ⟨1⟩ 0).1
        [.call (.handleMessage (.grantAck 0)), .call (.tick 5000), .crash, .call (.tick 9500),
          .call (.handleMessage (.done 12000 []))] ∧
      KeepsJournal ChargerDriver.recoverable ChargerDriver.payout ChargerDriver.journalView
        DeliveryEngine.sampleGrant
        (ChargerDriver.resume "plug" DeliveryEngine.sampleGrant ⟨1⟩ ⟨0, 5, 5, 5000⟩)
        [.call (.handleMessage (.grantAck 0)), .call (.tick 5000), .crash, .call (.tick 9500),
          .call (.handleMessage (.done 12000 []))] ∧
      KeepsJournal (ExternalDriver.recoverable samplePort) ExternalDriver.payout
        (ExternalDriver.journalView samplePort)
        { nonce := 7, depositMillis := 240, caps := ⟨none, some 120, none⟩, lease := ⟨500000⟩ }
        ({ engine := (DeliveryEngine.new.handle (.grantIssued
              { nonce := 7, depositMillis := 240, caps := ⟨none, some 120, none⟩,
                lease := ⟨500000⟩ })).1
           grant := { nonce := 7, depositMillis := 240, caps := ⟨none, some 120, none⟩,
                      lease := ⟨500000⟩ }
           session := some 7
           last := ⟨0, 0, 0, 0⟩ }, ())
        [.call (.tick 10000), .crash 7, .call (.tick 20000), .call (.stop 30000)] := by
  have hkeeps := drivers_keep_journal_iff "plug" DeliveryEngine.sampleGrant ⟨1⟩ ⟨0, 5, 5, 5000⟩
    [.call (.handleMessage (.grantAck 0)), .call (.tick 5000), .crash, .call (.tick 9500),
      .call (.handleMessage (.done 12000 []))]
    samplePort () [.call (.tick 10000), .crash 7, .call (.tick 20000), .call (.stop 30000)]
  refine ⟨(hkeeps.1 0).mpr ?_, (hkeeps.2.1 rfl (by decide)).mpr ?_,
    (hkeeps.2.2.1 7 120 0 500000 _ [] () rfl).mpr ?_⟩
  · decide +kernel
  · decide +kernel
  · decide +kernel

/-- A provider whose meter was reset: its second poll is below the first. -/
def resetPort : ExternalProviderPort ℕ where
  quote polls maxSeconds := (maxSeconds * 2, polls)
  start polls nonce _ := (.ok nonce, polls)
  poll polls _ now := (if polls = 0 then ⟨0, 30, 60, now⟩ else ⟨0, 10, 20, now⟩, polls + 1)
  stop polls _ := (⟨20, 10⟩, polls)

/-- A device that acknowledges again after ten seconds, and a meter that is reset: in both sessions
the journal goes back to the refused reading. -/
theorem drivers_keep_journal_fails :
    ¬ KeepsJournal ChargerDriver.recoverable ChargerDriver.payout ChargerDriver.journalView
        DeliveryEngine.sampleGrant
        (ChargerDriver.open "plug" DeliveryEngine.sampleGrant ⟨1⟩ 0).1
        [.call (.handleMessage (.grantAck 0)), .call (.tick 10000),
          .call (.handleMessage (.grantAck 10000)), .call (.tick 12000)] ∧
      ¬ KeepsJournal (ExternalDriver.recoverable resetPort) ExternalDriver.payout
        (ExternalDriver.journalView resetPort) DeliveryEngine.sampleGrant
        (ExternalDriver.resume DeliveryEngine.sampleGrant ⟨0, 0, 0, 0⟩ 7, 0)
        [.call (.tick 30000), .call (.tick 31000)] := by
  constructor
  · intro hkeeps
    exact absurd (hkeeps.never_back
      [.call (.handleMessage (.grantAck 0)), .call (.tick 10000),
        .call (.handleMessage (.grantAck 10000))] (.call (.tick 12000)) (List.prefix_refl _))
      (by decide +kernel)
  · intro hkeeps
    exact absurd
      (hkeeps.never_back [.call (.tick 30000)] (.call (.tick 31000)) (List.prefix_refl _))
      (by decide +kernel)

end Tollgate
