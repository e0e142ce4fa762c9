import Tollgate.ChargerHost.Calls
import Tollgate.Core.Budget

/-!
# The journal

Each driver keeps a journal beside the reading its engine holds, and writes into it before the
engine has looked. `KeepsJournal` is what a driver promises about it over a run: the journalled
totals never decrease, they are the last totals that the engine accepted, a refused reading leaves
everything as it was, and no settlement falls below an accepted cost. It holds of a run exactly when
the readings it journals go forward (`keepsJournal_iff_along`): a reading that goes backwards is
refused by the engine and stands in the journal all the same.

For the charger driver the accepted readings are those its guard keeps and the one a final report
settles on; a report that follows the settlement is journalled too. For the external driver they are
those its guard keeps, since the provider's receipt is not the driver's reading. In both, a crash is
a step of the run: the driver is rebuilt from its journal.
-/

set_option autoImplicit false
set_option relaxedAutoImplicit false

namespace Tollgate

/-! ### Readings that go forward -/

namespace Progress.NoDecrease

theorem of_totals_eq {earlier later : Progress} (htotals : earlier.totals = later.totals) :
    earlier.NoDecrease later := by
  obtain ⟨hunits, hseconds, hcost⟩ := totals_eq_iff.mp htotals
  constructor
  · rw [hunits]
    exact UInt64.le_refl _
  · rw [hseconds]
    exact UInt64.le_refl _
  · rw [hcost]
    exact UInt64.le_refl _

end Progress.NoDecrease

/-- A higher cost is never settled for less. -/
theorem DeliveryEngine.settlement_mono (grant : Grant) {lower higher : UInt64}
    (hle : lower ≤ higher) : settlement grant lower ≤ settlement grant higher := by
  rw [UInt64.le_iff_toNat_le] at hle ⊢
  rw [toNat_settlement, toNat_settlement]
  omega

/-! ### What a driver promises about its journal -/

/-- What the promise looks at: the journal, the readings that a step has the engine accept, whether
it has one refused, and the amounts it settles on the driver's own account. -/
structure JournalView (State Input : Type*) where
  journal : State → Progress
  accepts : State → Input → List Progress
  refuses : State → Input → Prop
  settles : State → Input → List UInt64

section Promise

variable {State Input Output : Type*}

/-- The promise over a run under a grant. -/
structure KeepsJournal (machine : Transducer State Input Output) (payout : Output → Option Payout)
    (view : JournalView State Input) (grant : Grant) (state : State) (inputs : List Input) :
    Prop where
  never_back : ∀ before input, before ++ [input] <+: inputs →
    (view.journal (machine.final state before)).NoDecrease
      (view.journal (machine.final state (before ++ [input])))
  accepted : ∀ before, before <+: inputs →
    (view.journal (machine.final state before)).totals =
      ((machine.observe view.accepts state before).getLast?.getD (view.journal state)).totals
  refused : ∀ before input, before ++ [input] <+: inputs →
    view.refuses (machine.final state before) input →
      view.journal (machine.final state (before ++ [input])) =
          view.journal (machine.final state before) ∧
        ∀ later,
          (machine.outputs (machine.final state (before ++ [input])) later).filterMap payout =
          (machine.outputs (machine.final state before) later).filterMap payout
  covered : ∀ before input, before ++ [input] <+: inputs →
    ∀ amountMillis ∈ view.settles (machine.final state before) input,
      ∀ reading ∈ view.journal state :: machine.observe view.accepts state (before ++ [input]),
        DeliveryEngine.settlement grant reading.costMillisTotal ≤ amountMillis

/-- What a step that goes forward does: the journal moves forward to what the engine accepted,
nothing is refused, and nothing is settled below the journal. -/
structure ForwardStep (machine : Transducer State Input Output) (view : JournalView State Input)
    (grant : Grant) (state : State) (input : Input) : Prop where
  noDecrease : (view.journal state).NoDecrease (view.journal (machine.step state input).1)
  totals_eq : (view.journal (machine.step state input).1).totals =
    ((view.accepts state input).getLast?.getD (view.journal state)).totals
  accepts_le : ∀ reading ∈ view.accepts state input,
    reading.NoDecrease (view.journal (machine.step state input).1)
  not_refuses : ¬ view.refuses state input
  settles_ge : ∀ amountMillis ∈ view.settles state input,
    DeliveryEngine.settlement grant (view.journal (machine.step state input).1).costMillisTotal ≤
      amountMillis

variable {machine : Transducer State Input Output} {payout : Output → Option Payout}
  {view : JournalView State Input} {grant : Grant} {state : State} {inputs : List Input}

theorem KeepsJournal.shorter {before : List Input}
    (hkeeps : KeepsJournal machine payout view grant state inputs) (hbefore : before <+: inputs) :
    KeepsJournal machine payout view grant state before where
  never_back earlier input hpart := hkeeps.never_back earlier input (hpart.trans hbefore)
  accepted earlier hpart := hkeeps.accepted earlier (hpart.trans hbefore)
  refused earlier input hpart := hkeeps.refused earlier input (hpart.trans hbefore)
  covered earlier input hpart := hkeeps.covered earlier input (hpart.trans hbefore)

/-- Along steps that go forward the journal holds the last accepted reading, and covers every
accepted one. -/
theorem journal_of_forward
    (halong : machine.Along (ForwardStep machine view grant) state inputs) :
    (view.journal (machine.final state inputs)).totals =
        ((machine.observe view.accepts state inputs).getLast?.getD (view.journal state)).totals ∧
      ∀ reading ∈ view.journal state :: machine.observe view.accepts state inputs,
        reading.NoDecrease (view.journal (machine.final state inputs)) := by
  induction inputs using List.reverseRecOn with
  | nil =>
    refine ⟨rfl, fun reading hreading ↦ ?_⟩
    rw [List.mem_singleton.mp hreading]
    exact Progress.NoDecrease.of_totals_eq rfl
  | append_singleton before input ih =>
    rw [Transducer.along_append] at halong
    obtain ⟨hlast, hcovered⟩ := ih halong.1
    have hstep := halong.2.1
    have hfinal : machine.final state (before ++ [input]) =
        (machine.step (machine.final state before) input).1 := by
      rw [Transducer.final_append]
      rfl
    have hobserve : machine.observe view.accepts state (before ++ [input]) =
        machine.observe view.accepts state before ++
          view.accepts (machine.final state before) input := by
      rw [Transducer.observe_append, Transducer.observe_cons, Transducer.observe_nil,
        List.append_nil]
    rw [hfinal, hobserve]
    constructor
    · rw [hstep.totals_eq, List.getLast?_append, Option.getD_or]
      cases (view.accepts (machine.final state before) input).getLast? with
      | none => exact hlast
      | some reading => rfl
    · intro reading hreading
      rcases List.mem_cons.mp hreading with rfl | hreading
      · exact (hcovered _ List.mem_cons_self).trans hstep.noDecrease
      · rcases List.mem_append.mp hreading with hearlier | hhere
        · exact (hcovered _ (List.mem_cons_of_mem _ hearlier)).trans hstep.noDecrease
        · exact hstep.accepts_le reading hhere

/-- A run whose steps all go forward keeps its journal. -/
theorem keepsJournal_of_forward
    (halong : machine.Along (ForwardStep machine view grant) state inputs) :
    KeepsJournal machine payout view grant state inputs := by
  have hcut (before : List Input) (input : Input) (hpart : before ++ [input] <+: inputs) :
      machine.Along (ForwardStep machine view grant) state (before ++ [input]) ∧
        ForwardStep machine view grant (machine.final state before) input := by
    obtain ⟨after, rfl⟩ := hpart
    rw [Transducer.along_append] at halong
    refine ⟨halong.1, ?_⟩
    rw [Transducer.along_append] at halong
    exact halong.1.2.1
  constructor
  · intro before input hpart
    rw [Transducer.final_append]
    exact (hcut before input hpart).2.noDecrease
  · intro before hpart
    obtain ⟨after, rfl⟩ := hpart
    rw [Transducer.along_append] at halong
    exact (journal_of_forward halong.1).1
  · intro before input hpart hrefuses
    exact absurd hrefuses (hcut before input hpart).2.not_refuses
  · intro before input hpart amountMillis hsettles reading hreading
    obtain ⟨halong, hstep⟩ := hcut before input hpart
    have hcovered := (journal_of_forward halong).2 reading hreading
    rw [Transducer.final_append] at hcovered
    exact UInt64.le_trans (DeliveryEngine.settlement_mono grant hcovered.cost_le)
      (hstep.settles_ge amountMillis hsettles)

/-- Assumes: an invariant under which a condition is enough for a step to go forward and to keep the
invariant, and is met by every step that takes the journal forward, and nowhere unless the engine
accepts something. From a state with the invariant, a run keeps its journal exactly when its steps
meet the condition. -/
theorem keepsJournal_iff_along {invariant : State → Prop} {condition : State → Input → Prop}
    (hforward : ∀ state input, invariant state → condition state input →
      invariant (machine.step state input).1 ∧ ForwardStep machine view grant state input)
    (hneeded : ∀ state input, invariant state →
      (view.journal state).NoDecrease (view.journal (machine.step state input).1) →
        (view.accepts state input = [] →
          (view.journal (machine.step state input).1).totals = (view.journal state).totals) →
        condition state input)
    (hstate : invariant state) :
    KeepsJournal machine payout view grant state inputs ↔
      machine.Along condition state inputs := by
  constructor
  · intro hkeeps
    induction inputs using List.reverseRecOn with
    | nil => trivial
    | append_singleton before input ih =>
      have hbefore : before <+: before ++ [input] := List.prefix_append _ _
      have halong := ih (hkeeps.shorter hbefore)
      rw [Transducer.along_append]
      refine ⟨halong, ?_, trivial⟩
      have hreached := halong.final_invariant invariant
        (fun state input hinvariant hcondition ↦ (hforward state input hinvariant hcondition).1)
        hstate
      have hback := hkeeps.never_back before input (List.prefix_refl _)
      have hlast := hkeeps.accepted (before ++ [input]) (List.prefix_refl _)
      rw [Transducer.final_append] at hback hlast
      refine hneeded _ input hreached hback fun hnothing ↦ hlast.trans ?_
      rw [Transducer.observe_append, Transducer.observe_cons, hnothing]
      simp only [Transducer.observe_nil, List.append_nil]
      exact (hkeeps.accepted before hbefore).symm
  · intro halong
    have hinvariant := halong.with_invariant invariant
      (fun state input hinvariant hcondition ↦ (hforward state input hinvariant hcondition).1)
      hstate
    exact keepsJournal_of_forward (hinvariant.mono fun state input hboth ↦
      (hforward state input hboth.1 hboth.2).2)

end Promise

/-! ### What the engine accepts of the events it is handed -/

namespace DeliveryEngine

/-- The reading in a final report. -/
def reportedReading (report : TerminalReport) : Progress :=
  ⟨report.unitsTotal, report.secondsTotal, report.costMillisTotal, report.observedAt⟩

/-- The readings that the engine accepts: those its guard keeps, and that of the report it settles
on. -/
def acceptedOrSettled (engine : DeliveryEngine) : DeliveryEvent → List Progress
  | .terminalObserved report =>
    match engine.phase with
    | .granted | .delivering => [reportedReading report]
    | .idle | .done => []
  | event => engine.acceptedReading event

/-- The engine refuses a reading of a list of events. -/
def Refuses (engine : DeliveryEngine) (events : List DeliveryEvent) : Prop :=
  ∃ nonce, .alarm nonce .nonMonotonicProgress ∈ machine.outputs engine events

variable {engine : DeliveryEngine} {guard : BudgetGuard} {grant : Grant}

/-- A tick of the lease pays or is silent. -/
theorem not_alarm_tick (hidle : engine.phase ≠ .idle) (hguard : engine.guard = some guard)
    (now : Millis) (nonce : UInt64) (reason : AlarmReason) :
    .alarm nonce reason ∉ (engine.handle (.tick now)).2 := by
  rw [handle_tick hidle hguard]
  split_ifs
  · simp [settleFromTotals_of_guard hguard]
  · simp

/-- A reading and then the time, where the guard keeps the reading. -/
theorem kept_then_tick (hguard : engine.guard = some guard) {progress : Progress}
    (hkept : guard.nonMonotonic progress = false) (now : Millis) :
    machine.observe acceptedReading engine [.progressObserved progress, .tick now] = [progress] ∧
      machine.observe acceptedOrSettled engine [.progressObserved progress, .tick now] =
        [progress] ∧
      ¬ engine.Refuses [.progressObserved progress, .tick now] := by
  refine ⟨by simp [acceptedReading, hguard, hkept],
    by simp [acceptedOrSettled, acceptedReading, hguard, hkept], ?_⟩
  rintro ⟨nonce, hmem⟩
  have hnext := handle_progressObserved hguard progress
  simp only [hkept, Bool.false_eq_true, if_false] at hnext
  simp only [Transducer.outputs_cons, Transducer.outputs_nil, machine_step, List.append_nil,
    hnext, List.mem_append] at hmem
  rcases hmem with hmem | hmem
  · split_ifs at hmem
    · exact absurd hmem (by simp)
    · exact absurd hmem List.not_mem_nil
  · exact not_alarm_tick (by simp) rfl now nonce _ hmem

/-- A reading and then the time stop delivery exactly when the reading is kept and exhausts a
cap. -/
theorem stops_iff (hidle : engine.phase ≠ .idle) (hguard : engine.guard = some guard)
    {progress : Progress} {now : Millis} :
    (∃ nonce, .stopDelivery nonce ∈
        machine.outputs engine [.progressObserved progress, .tick now]) ↔
      guard.nonMonotonic progress = false ∧
        ({ guard with last := progress } : BudgetGuard).exhausted.isSome = true := by
  have htick (next : DeliveryEngine) (hnext : next.phase ≠ .idle) (kept : BudgetGuard)
      (hkept : next.guard = some kept) (nonce : UInt64) :
      .stopDelivery nonce ∉ (next.handle (.tick now)).2 := by
    rw [handle_tick hnext hkept]
    split_ifs
    · simp [settleFromTotals_of_guard hkept]
    · simp
  simp only [Transducer.outputs_cons, Transducer.outputs_nil, machine_step, List.append_nil,
    List.mem_append, handle_progressObserved hguard]
  by_cases hrefused : guard.nonMonotonic progress = true
  · have hnone := htick engine hidle guard hguard
    simp [hrefused, hnone]
  · simp only [if_neg hrefused, htick ⟨.delivering, some { guard with last := progress }⟩ (by simp)
      { guard with last := progress } rfl, or_false]
    by_cases hexhausted : ({ guard with last := progress } : BudgetGuard).exhausted.isSome = true
    · simp [hrefused, hexhausted]
    · simp [hrefused, hexhausted]

/-- A final report to a live engine. -/
theorem settles_report (hlive : engine.Live grant) (report : TerminalReport) :
    machine.observe acceptedOrSettled engine [.terminalObserved report] =
        [reportedReading report] ∧
      ¬ engine.Refuses [.terminalObserved report] := by
  obtain ⟨hphase, guard, hguard, -⟩ := id hlive
  constructor
  · rcases hphase with hphase | hphase <;> simp [acceptedOrSettled, hphase]
  · have hnot : ¬ engine.Done := hlive.phase_ne.2
    rintro ⟨nonce, hmem⟩
    simp [handle_terminalObserved hlive.phase_ne.1, hnot,
      settleFromTotals_of_guard hguard] at hmem

/-- A revocation. -/
theorem accepts_nothing_revoke (hidle : engine.phase ≠ .idle) (hguard : engine.guard = some guard)
    (now : Millis) :
    machine.observe acceptedOrSettled engine [.revokeRequested now] = [] ∧
      ¬ engine.Refuses [.revokeRequested now] := by
  refine ⟨rfl, ?_⟩
  rintro ⟨nonce, hmem⟩
  simp only [Transducer.outputs_cons, machine_step, handle_revokeRequested hidle hguard] at hmem
  split_ifs at hmem <;> simp at hmem

/-- Anything but a reading, to an engine that has settled. -/
theorem accepts_nothing_of_done (hdone : engine.Done) {event : DeliveryEvent}
    (hreading : ∀ progress, event ≠ .progressObserved progress) :
    machine.observe acceptedOrSettled engine [event] = [] ∧ ¬ engine.Refuses [event] := by
  have hphase : engine.phase = .done := hdone
  cases event with
  | progressObserved progress => exact absurd rfl (hreading progress)
  | tick now =>
    refine ⟨rfl, ?_⟩
    rintro ⟨nonce, hmem⟩
    cases hguard : engine.guard <;> simp [handle, hguard, hphase] at hmem
  | grantIssued other =>
    refine ⟨rfl, ?_⟩
    rintro ⟨nonce, hmem⟩
    simp [handle, hphase] at hmem
  | terminalObserved report =>
    refine ⟨by simp [acceptedOrSettled, hphase], ?_⟩
    rintro ⟨nonce, hmem⟩
    simp [handle, hphase] at hmem
  | revokeRequested now =>
    refine ⟨rfl, ?_⟩
    rintro ⟨nonce, hmem⟩
    simp [handle, hphase] at hmem

end DeliveryEngine

/-! ### The charger driver's journal -/

namespace ChargerDriver

/-- A call, or a crash after which the driver is rebuilt from its journal. -/
inductive Turn
  | call (call : Call)
  | crash
  deriving DecidableEq

/-- The driver as a machine that may crash. -/
def recoverable : Transducer ChargerDriver Turn Outbound where
  step driver
    | .call call => machine.step driver call
    | .crash => (resume driver.device driver.journal.1 driver.price driver.journal.2, [])

/-- The events that a call hands to the engine. -/
def events (driver : ChargerDriver) : Call → List DeliveryEvent
  | .handleMessage (.grantAck _) => []
  | .handleMessage (.done receivedAt raw) =>
    [.terminalObserved
      ((driver.journalUnlessStopped receivedAt).terminal .capSeconds receivedAt (some raw))]
  | .handleMessage (.aborted receivedAt raw) =>
    [.terminalObserved
      ((driver.journalUnlessStopped receivedAt).terminal .completed receivedAt (some raw))]
  | .tick now =>
    if driver.engine.Done then []
    else
      match driver.pendingStop with
      | some reason =>
        [.terminalObserved (driver.terminal reason.kind driver.last.observedAt none)]
      | none => [.progressObserved (driver.synthesize now), .tick now]
  | .revoke now => [.revokeRequested now]

/-- A call runs the engine on its events. -/
theorem engine_step (driver : ChargerDriver) (call : Call) :
    (machine.step driver call).1.engine =
      DeliveryEngine.machine.final driver.engine (driver.events call) := by
  have hreport (now : Millis) (event : DeliveryEvent) :
      ((driver.journalUnlessStopped now).dispatch event).1.engine =
        (driver.engine.handle event).1 := by
    rw [dispatch_frame, (driver.journalUnlessStopped_spec now).1]
  cases call with
  | handleMessage inbound =>
    cases inbound with
    | grantAck receivedAt => rfl
    | done receivedAt raw => exact hreport receivedAt _
    | aborted receivedAt raw => exact hreport receivedAt _
  | tick now =>
    show (driver.tick now).1.engine = _
    by_cases hdone : driver.engine.Done
    · rw [tick_of_done hdone, events, if_pos hdone]
      rfl
    · rw [events, if_neg hdone]
      cases hpending : driver.pendingStop with
      | some reason =>
        rw [tick_of_pending hdone hpending, dispatch_frame]
        rfl
      | none =>
        rw [tick_of_reading hdone hpending, dispatch_frame, dispatch_frame]
        rfl
  | revoke now =>
    show (driver.revoke now).1.engine = _
    rw [revoke, dispatch_frame]
    rfl

/-- The reading that a call writes into the journal. A report writes one even after the
settlement; a pending stop keeps the journal as it is. -/
def journals (driver : ChargerDriver) : Call → Option Progress
  | .handleMessage (.done receivedAt _) =>
    if driver.pendingStop.isSome then none else some (driver.synthesize receivedAt)
  | .handleMessage (.aborted receivedAt _) =>
    if driver.pendingStop.isSome then none else some (driver.synthesize receivedAt)
  | .tick now =>
    if driver.engine.Done ∨ driver.pendingStop.isSome = true then none
    else some (driver.synthesize now)
  | .handleMessage (.grantAck _) | .revoke _ => none

theorem last_step (driver : ChargerDriver) (call : Call) :
    (machine.step driver call).1.last = (driver.journals call).getD driver.last := by
  have hreport (now : Millis) (event : DeliveryEvent) :
      ((driver.journalUnlessStopped now).dispatch event).1.last =
        (if driver.pendingStop.isSome then none else some (driver.synthesize now)).getD
          driver.last := by
    rw [dispatch_frame, journalUnlessStopped]
    cases driver.pendingStop <;> rfl
  cases call with
  | handleMessage inbound =>
    cases inbound with
    | grantAck receivedAt => rfl
    | done receivedAt raw => exact hreport receivedAt _
    | aborted receivedAt raw => exact hreport receivedAt _
  | tick now =>
    show (driver.tick now).1.last = _
    by_cases hdone : driver.engine.Done
    · rw [tick_of_done hdone, journals, if_pos (Or.inl hdone)]
      rfl
    · cases hpending : driver.pendingStop with
      | some reason =>
        rw [tick_of_pending hdone hpending, dispatch_frame, journals,
          if_pos (Or.inr (by rw [hpending]; rfl))]
        rfl
      | none =>
        have hreads : driver.journals (.tick now) = some (driver.synthesize now) := by
          rw [journals, if_neg (by simp [hdone, hpending])]
        rw [tick_of_reading hdone hpending, dispatch_frame, dispatch_frame, hreads]
        rfl
  | revoke now =>
    show (driver.revoke now).1.last = _
    rw [revoke, dispatch_frame]
    rfl

/-- What the promise looks at in a charger driver. -/
def journalView : JournalView ChargerDriver Turn where
  journal driver := driver.journal.2
  accepts driver
    | .call call =>
      DeliveryEngine.machine.observe DeliveryEngine.acceptedOrSettled driver.engine
        (driver.events call)
    | .crash => []
  refuses driver
    | .call call => driver.engine.Refuses (driver.events call)
    | .crash => False
  settles driver turn := (recoverable.step driver turn).2.filterMap fun
    | .settle _ amountMillis => some amountMillis
    | .publishStart _ _ | .publishStop _ | .refund _ _ => none

/-- The reading that a call journals goes forward, and is no news after the settlement. -/
def GoesForward (driver : ChargerDriver) : Turn → Prop
  | .call call => ∀ reading ∈ driver.journals call,
    driver.last.NoDecrease reading ∧ (driver.engine.Done → reading.totals = driver.last.totals)
  | .crash => True

/-- The engine stands where the journal does, unless it has settled. -/
structure Consistent (grant : Grant) (driver : ChargerDriver) : Prop where
  grant_eq : driver.grant = grant
  agrees : driver.engine.Done ∨ driver.Live grant ∧
    ∃ last, driver.engine.guard = some ⟨driver.grant, last⟩ ∧ last.totals = driver.last.totals

theorem consistent_open (device : String) (grant : Grant) (price : PriceVector)
    (openedAt : Millis) : (ChargerDriver.open device grant price openedAt).1.Consistent grant :=
  ⟨rfl, Or.inr ⟨⟨DeliveryEngine.live_grantIssued grant, rfl⟩, _, rfl, rfl⟩⟩

theorem consistent_resume (device : String) (grant : Grant) (price : PriceVector)
    (last : Progress) : (resume device grant price last).Consistent grant :=
  ⟨rfl, Or.inr ⟨⟨DeliveryEngine.live_resume grant last, rfl⟩, last,
    DeliveryEngine.guard_resume grant last, rfl⟩⟩

section Forward

variable {driver : ChargerDriver} {grant : Grant}

/-- The amounts settled for a final cost. -/
theorem settles_settled (driver : ChargerDriver) (finalCostMillis : UInt64) :
    (driver.settled finalCostMillis).2.filterMap (fun
      | .settle _ amountMillis => some amountMillis
      | .publishStart _ _ | .publishStop _ | .refund _ _ => none) =
      [DeliveryEngine.settlement driver.grant finalCostMillis] := rfl

/-- A settled driver accepts, refuses and settles nothing. -/
theorem quiet_of_done (hdone : driver.engine.Done) (call : Call) :
    journalView.accepts driver (.call call) = [] ∧ ¬ journalView.refuses driver (.call call) ∧
      journalView.settles driver (.call call) = [] := by
  have hevents : driver.events call = [] ∨ ∃ event, driver.events call = [event] ∧
      ∀ progress, event ≠ .progressObserved progress := by
    cases call with
    | handleMessage inbound =>
      cases inbound with
      | grantAck receivedAt => exact Or.inl rfl
      | done receivedAt raw => exact Or.inr ⟨_, rfl, by simp⟩
      | aborted receivedAt raw => exact Or.inr ⟨_, rfl, by simp⟩
    | tick now => exact Or.inl (if_pos hdone)
    | revoke now => exact Or.inr ⟨_, rfl, by simp⟩
  have hsettles : journalView.settles driver (.call call) = [] := by
    simp only [journalView, recoverable, (step_of_done hdone call).2, List.filterMap_nil]
  refine ⟨?_, ?_, hsettles⟩
  · rcases hevents with hnone | ⟨event, hevent, hreading⟩
    · simp only [journalView, hnone, Transducer.observe_nil]
    · simp only [journalView, hevent]
      exact (DeliveryEngine.accepts_nothing_of_done hdone hreading).1
  · rcases hevents with hnone | ⟨event, hevent, hreading⟩
    · simp [journalView, hnone, DeliveryEngine.Refuses]
    · simp only [journalView, hevent]
      exact (DeliveryEngine.accepts_nothing_of_done hdone hreading).2

/-- The journal after a call. -/
theorem journal_step (driver : ChargerDriver) (call : Call) :
    journalView.journal (recoverable.step driver (.call call)).1 =
      (driver.journals call).getD (journalView.journal driver) :=
  driver.last_step call

/-- A step that neither accepts nor settles anything, and journals no news. -/
theorem forward_of_quiet {call : Call}
    (hjournal : ((driver.journals call).getD driver.last).totals = driver.last.totals)
    (haccepts : journalView.accepts driver (.call call) = [])
    (hrefuses : ¬ journalView.refuses driver (.call call))
    (hsettles : journalView.settles driver (.call call) = []) :
    ForwardStep recoverable journalView grant driver (.call call) := by
  constructor
  · rw [journal_step]
    exact .of_totals_eq hjournal.symm
  · rw [journal_step, haccepts]
    exact hjournal
  · rw [haccepts]
    exact fun reading hreading ↦ absurd hreading List.not_mem_nil
  · exact hrefuses
  · rw [hsettles]
    exact fun amountMillis hsettled ↦ absurd hsettled List.not_mem_nil

/-- A step that journals what the engine accepts, and settles it or nothing. -/
theorem forward_of_accepts {call : Call} {reading : Progress}
    (hjournal : ((driver.journals call).getD driver.last).totals = reading.totals)
    (hback : driver.last.NoDecrease reading)
    (haccepts : journalView.accepts driver (.call call) = [reading])
    (hrefuses : ¬ journalView.refuses driver (.call call))
    (hsettles : ∀ amountMillis ∈ journalView.settles driver (.call call),
      amountMillis = DeliveryEngine.settlement grant reading.costMillisTotal) :
    ForwardStep recoverable journalView grant driver (.call call) := by
  have hnext : (journalView.journal (recoverable.step driver (.call call)).1).totals =
      reading.totals := by
    rw [journal_step]
    exact hjournal
  constructor
  · exact hback.trans (.of_totals_eq hnext.symm)
  · rw [haccepts]
    exact hnext
  · intro accepted haccepted
    rw [haccepts] at haccepted
    rw [List.mem_singleton.mp haccepted]
    exact .of_totals_eq hnext.symm
  · exact hrefuses
  · intro amountMillis hsettled
    rw [hsettles amountMillis hsettled, (Progress.totals_eq_iff.mp hnext).2.2]
    exact UInt64.le_refl _

/-- A call that reports to the engine: a message of the device that is no acknowledgement, and a
tick with a stop pending. What it reports is what the journal holds afterwards. -/
theorem exists_report (hopen : ¬ driver.engine.Done) {call : Call}
    (hasks : call.asksAt.isSome = true)
    (hreports : (∃ inbound, call = .handleMessage inbound) ∨ driver.pendingStop.isSome = true) :
    ∃ report, driver.events call = [.terminalObserved report] ∧
      (DeliveryEngine.reportedReading report).totals =
        ((driver.journals call).getD driver.last).totals := by
  have hjournal (receivedAt : Millis) : (driver.journalUnlessStopped receivedAt).last.totals =
      ((if driver.pendingStop.isSome then none else some (driver.synthesize receivedAt)).getD
        driver.last).totals := by
    rw [journalUnlessStopped]
    cases driver.pendingStop <;> rfl
  cases call with
  | handleMessage inbound =>
    cases inbound with
    | grantAck receivedAt => exact absurd hasks (by simp [Call.asksAt])
    | done receivedAt raw => exact ⟨_, rfl, hjournal receivedAt⟩
    | aborted receivedAt raw => exact ⟨_, rfl, hjournal receivedAt⟩
  | tick now =>
    have hpending : driver.pendingStop.isSome = true := by
      rcases hreports with ⟨inbound, hmessage⟩ | hpending
      · exact absurd hmessage (by simp)
      · exact hpending
    obtain ⟨reason, hreason⟩ := Option.isSome_iff_exists.mp hpending
    refine ⟨driver.terminal reason.kind driver.last.observedAt none, ?_, ?_⟩
    · simp only [events, if_neg hopen, hreason]
    · rw [journals, if_pos (Or.inr hpending)]
      rfl
  | revoke now => exact absurd hasks (by simp [Call.asksAt])

/-- Such a call settles what it reports. -/
theorem settles_report (hlive : driver.Live grant) {call : Call} (hasks : call.asksAt.isSome = true)
    (hreports : (∃ inbound, call = .handleMessage inbound) ∨ driver.pendingStop.isSome = true) :
    (machine.step driver call).1.engine.Done ∧
      journalView.settles driver (.call call) =
        [DeliveryEngine.settlement grant
          ((driver.journals call).getD driver.last).costMillisTotal] := by
  obtain ⟨last, hguard⟩ := hlive.exists_guard
  have hgrant := hlive.2
  by_cases hpending : driver.pendingStop.isSome = true
  · obtain ⟨hdone, hlast, houtputs⟩ := step_of_stopped hlive hguard hasks hpending
    rw [driver.last_step call] at hlast
    refine ⟨hdone, ?_⟩
    simp only [journalView, recoverable, houtputs, hlast]
    rw [settles_settled, hgrant]
  · obtain ⟨inbound, rfl⟩ := hreports.resolve_right hpending
    obtain ⟨now, hnow⟩ := Option.isSome_iff_exists.mp hasks
    have hnone : driver.pendingStop = none := by simpa using hpending
    have hstep := step_report hlive hguard hnone hnow
    have hlast := driver.last_step (.handleMessage inbound)
    rw [hstep] at hlast
    constructor
    · rw [hstep]
      rfl
    · simp only [journalView, recoverable, hstep, ← hlast]
      rw [settles_settled]
      exact congrArg (fun granted ↦ [DeliveryEngine.settlement granted _]) hgrant

/-- A tick with no stop pending whose reading goes forward. -/
theorem forward_of_tick (hlive : driver.Live grant) {last : Progress}
    (hguard : driver.engine.guard = some ⟨driver.grant, last⟩)
    (htotals : last.totals = driver.last.totals) (hpending : driver.pendingStop = none)
    {now : Millis}
    (hback : driver.last.NoDecrease (driver.synthesize now)) :
    (driver.tick now).1.Consistent grant ∧
      ForwardStep recoverable journalView grant driver (.call (.tick now)) := by
  have hopen : ¬ driver.engine.Done := hlive.1.phase_ne.2
  have hkept : (⟨driver.grant, last⟩ : BudgetGuard).nonMonotonic (driver.synthesize now) = false :=
    BudgetGuard.nonMonotonic_eq_false_iff.mpr
      ((Progress.NoDecrease.of_totals_eq htotals).trans hback)
  obtain ⟨stop, hstop, htick⟩ := tick_kept hlive hguard hpending hkept
  have hevents : driver.events (.tick now) =
      [.progressObserved (driver.synthesize now), .tick now] := by
    simp only [events, if_neg hopen, hpending]
  obtain ⟨-, haccepts, hrefuses⟩ := DeliveryEngine.kept_then_tick hguard hkept now
  rw [← hevents] at haccepts hrefuses
  have hjournals : driver.journals (.tick now) = some (driver.synthesize now) := by
    rw [journals, if_neg (by simp [hopen, hpending])]
  have hquiet : stop.filterMap (fun
      | .settle _ amountMillis => some amountMillis
      | .publishStart _ _ | .publishStop _ | .refund _ _ => none) = ([] : List UInt64) := by
    rw [List.filterMap_eq_nil_iff]
    intro command hcommand
    rw [hstop command hcommand]
  constructor
  · rw [htick]
    split_ifs
    · exact ⟨hlive.2, Or.inl rfl⟩
    · exact ⟨hlive.2, Or.inr ⟨⟨⟨Or.inr rfl, _, rfl, hlive.2⟩, hlive.2⟩, _, rfl, rfl⟩⟩
  · refine @forward_of_accepts driver grant _ (driver.synthesize now) ?_ hback haccepts hrefuses ?_
    · rw [hjournals]
      rfl
    · intro amountMillis hsettled
      simp only [journalView, recoverable,
        show machine.step driver (.tick now) = driver.tick now from rfl, htick] at hsettled
      split_ifs at hsettled
      · rw [List.filterMap_append, hquiet, settles_settled, List.nil_append,
          List.mem_singleton] at hsettled
        rw [hsettled]
        exact congrArg (fun granted ↦ DeliveryEngine.settlement granted _) hlive.2
      · rw [hquiet] at hsettled
        exact absurd hsettled List.not_mem_nil

/-- A turn that goes forward keeps driver and journal consistent. -/
theorem Consistent.forward (hconsistent : driver.Consistent grant) {turn : Turn}
    (hforward : driver.GoesForward turn) :
    (recoverable.step driver turn).1.Consistent grant ∧
      ForwardStep recoverable journalView grant driver turn := by
  cases turn with
  | crash =>
    refine ⟨⟨hconsistent.grant_eq, ?_⟩, ?_⟩
    · obtain ⟨-, hagrees⟩ := consistent_resume driver.device driver.grant driver.price driver.last
      rw [← hconsistent.grant_eq]
      exact hagrees
    · exact ⟨.of_totals_eq rfl, rfl, fun reading hreading ↦ absurd hreading List.not_mem_nil, id,
        fun amountMillis hsettled ↦ absurd hsettled List.not_mem_nil⟩
  | call call =>
    have hgrant : (machine.step driver call).1.grant = grant :=
      (driver.step_frame call).2.2.trans hconsistent.grant_eq
    rcases hconsistent.agrees with hdone | ⟨hlive, last, hguard, htotals⟩
    · obtain ⟨haccepts, hrefuses, hsettles⟩ := quiet_of_done hdone call
      refine ⟨⟨hgrant, Or.inl (step_of_done hdone call).1⟩,
        forward_of_quiet ?_ haccepts hrefuses hsettles⟩
      cases hjournals : driver.journals call with
      | none => rfl
      | some reading => exact (hforward reading hjournals).2 hdone
    · by_cases hasks : call.asksAt.isSome = true
      · by_cases hreports :
            (∃ inbound, call = .handleMessage inbound) ∨ driver.pendingStop.isSome = true
        · obtain ⟨hdone, hsettles⟩ := settles_report hlive hasks hreports
          obtain ⟨report, hevents, hreported⟩ :=
            exists_report hlive.1.phase_ne.2 hasks hreports
          obtain ⟨haccepts, hrefuses⟩ := DeliveryEngine.settles_report hlive.1 report
          rw [← hevents] at haccepts hrefuses
          refine ⟨⟨hgrant, Or.inl hdone⟩,
            forward_of_accepts hreported.symm ?_ haccepts hrefuses ?_⟩
          · refine Progress.NoDecrease.trans ?_ (.of_totals_eq hreported.symm)
            cases hjournals : driver.journals call with
            | none => exact .of_totals_eq rfl
            | some reading => exact (hforward reading hjournals).1
          · intro amountMillis hsettled
            rw [hsettles, List.mem_singleton] at hsettled
            rw [hsettled, (Progress.totals_eq_iff.mp hreported).2.2]
        · cases call with
          | handleMessage inbound => exact absurd (Or.inl ⟨inbound, rfl⟩) hreports
          | revoke now => exact absurd hasks (by simp [Call.asksAt])
          | tick now =>
            have hpending : driver.pendingStop = none := by
              simpa using fun hsome ↦ hreports (Or.inr hsome)
            have hopen : ¬ driver.engine.Done := hlive.1.phase_ne.2
            have hjournals : driver.synthesize now ∈ driver.journals (.tick now) := by
              rw [journals, if_neg (by simp [hopen, hpending])]
              rfl
            exact forward_of_tick hlive hguard htotals hpending (hforward _ hjournals).1
      · cases call with
        | handleMessage inbound =>
          cases inbound with
          | grantAck receivedAt =>
            exact ⟨⟨hconsistent.grant_eq, Or.inr ⟨hlive, last, hguard, htotals⟩⟩,
              forward_of_quiet rfl rfl (by simp [journalView, events, DeliveryEngine.Refuses]) rfl⟩
          | done receivedAt raw => exact absurd rfl hasks
          | aborted receivedAt raw => exact absurd rfl hasks
        | tick now => exact absurd rfl hasks
        | revoke now =>
          have hstep : machine.step driver (.revoke now) = _ := revoke_eq hlive hguard now
          obtain ⟨haccepts, hrefuses⟩ :=
            DeliveryEngine.accepts_nothing_revoke hlive.1.phase_ne.1 hguard now
          refine ⟨?_, forward_of_quiet rfl haccepts hrefuses ?_⟩
          · simp only [recoverable, hstep]
            exact ⟨hconsistent.grant_eq, Or.inr ⟨hlive, last, hguard, htotals⟩⟩
          · simp only [journalView, recoverable, hstep]
            rfl

/-- Conversely, a turn that takes the journal forward, and nowhere unless the engine accepts
something, goes forward. -/
theorem goesForward_of_journal {turn : Turn}
    (hback : (journalView.journal driver).NoDecrease
      (journalView.journal (recoverable.step driver turn).1))
    (hnews : journalView.accepts driver turn = [] →
      (journalView.journal (recoverable.step driver turn).1).totals =
        (journalView.journal driver).totals) :
    driver.GoesForward turn := by
  cases turn with
  | crash => trivial
  | call call =>
    intro reading hreading
    have hjournal : journalView.journal (recoverable.step driver (.call call)).1 = reading := by
      rw [journal_step, Option.mem_def.mp hreading]
      rfl
    rw [hjournal] at hback hnews
    exact ⟨hback, fun hdone ↦ hnews (quiet_of_done hdone call).1⟩

/-- From a consistent driver, a run keeps its journal exactly when its turns go forward. -/
theorem keepsJournal_iff_goesForward (hconsistent : driver.Consistent grant) (turns : List Turn) :
    KeepsJournal recoverable payout journalView grant driver turns ↔
      recoverable.Along GoesForward driver turns :=
  keepsJournal_iff_along
    (fun _ _ hinvariant hforward ↦ Consistent.forward hinvariant hforward)
    (fun _ _ _ hback hnews ↦ goesForward_of_journal hback hnews) hconsistent

end Forward

end ChargerDriver

end Tollgate
