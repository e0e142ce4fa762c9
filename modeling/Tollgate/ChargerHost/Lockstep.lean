import Tollgate.ChargerHost.Calls
import Tollgate.Library.Coupling

/-!
# Charger drivers in step

All that a charger driver knows of time is the acknowledgement it counts from. Two drivers that
differ in this baseline only, in the labels of their engines and in the times of their last readings
are `InStep`, and every call keeps them so and is answered alike as long as its reading, if it takes
one, counts the same whole seconds on both sides. Once both have settled nothing can tell them
apart.

Two promises are about such pairs. `SurvivesCrash`: a driver rebuilt from the journal pays as the
one it replaces would have. The baseline is rebuilt from the journal too, as the time of the last
reading less its whole seconds, and this loses the part of a second that had passed by then; a
driver that had not been acknowledged is rebuilt with a baseline as well; and a pending stop is not
in the journal at all. `IgnoresRepeats`: acknowledgements after the first one change nothing. But
each of them moves the baseline.
-/

set_option autoImplicit false
set_option relaxedAutoImplicit false

namespace Tollgate

namespace ChargerDriver

/-! ### Drivers in step -/

/-- The reading that a call takes, if it takes one, counts the same whole seconds for both
drivers. -/
def ReadsAlike (first second : ChargerDriver) (call : Call) : Prop :=
  ∀ now ∈ first.readingTime call,
    (first.synthesize now).secondsTotal = (second.synthesize now).secondsTotal

instance (first second : ChargerDriver) (call : Call) : Decidable (ReadsAlike first second call) :=
  decidable_of_iff
    ((first.readingTime call).all fun now ↦
      (first.synthesize now).secondsTotal == (second.synthesize now).secondsTotal)
    (by simp [ReadsAlike, Option.all_eq_true])

/-- Two drivers that differ at most in their baselines, in the labels of their engines and in the
times of their last readings. -/
structure InStep (first second : ChargerDriver) : Prop where
  device_eq : first.device = second.device
  price_eq : first.price = second.price
  grant_eq : first.grant = second.grant
  engines : first.engine.Interchangeable second.engine
  totals_eq : first.last.totals = second.last.totals
  pendingStop_eq : first.pendingStop = second.pendingStop

namespace InStep

variable {first second : ChargerDriver}

theorem cost_eq (hstep : first.InStep second) :
    first.last.costMillisTotal = second.last.costMillisTotal :=
  (Progress.totals_eq_iff.mp hstep.totals_eq).2.2

theorem synthesize (hstep : first.InStep second) {now : Millis}
    (hseconds : (first.synthesize now).secondsTotal = (second.synthesize now).secondsTotal) :
    first.synthesize now = second.synthesize now := by
  rw [first.synthesize_eq, second.synthesize_eq, hseconds, hstep.price_eq]

theorem translate (hstep : first.InStep second) (actions : List DeliveryAction) :
    (first.translate actions).2 = (second.translate actions).2 ∧
      (first.translate actions).1.InStep (second.translate actions).1 := by
  induction actions generalizing first second with
  | nil => exact ⟨rfl, hstep⟩
  | cons action rest ih =>
    cases action with
    | stopDelivery nonce =>
      -- A stop is remembered on both sides or on neither.
      have hstopping :
          (if first.pendingStop.isNone then { first with pendingStop := some first.stopReason }
            else first).InStep
          (if second.pendingStop.isNone then { second with pendingStop := some second.stopReason }
            else second) := by
        have hreason : first.stopReason = second.stopReason := by
          simp only [stopReason, hstep.grant_eq, hstep.cost_eq]
        by_cases hpending : second.pendingStop.isNone = true
        · rw [if_pos hpending, if_pos (by rw [hstep.pendingStop_eq]; exact hpending)]
          exact { hstep with pendingStop_eq := congrArg some hreason }
        · rw [if_neg hpending, if_neg (by rw [hstep.pendingStop_eq]; exact hpending)]
          exact hstep
      obtain ⟨houtputs, hrest⟩ := ih hstopping
      refine ⟨?_, hrest⟩
      simp only [ChargerDriver.translate]
      rw [houtputs, hstep.device_eq]
    | settleDelivery nonce amountMillis =>
      obtain ⟨houtputs, hrest⟩ := ih hstep
      exact ⟨congrArg (Outbound.settle nonce amountMillis :: ·) houtputs, hrest⟩
    | refundChange nonce amountMillis =>
      obtain ⟨houtputs, hrest⟩ := ih hstep
      exact ⟨congrArg (Outbound.refund nonce amountMillis :: ·) houtputs, hrest⟩
    | alarm nonce reason => exact ih hstep

/-- Dispatching events that the engines answer alike. -/
theorem dispatch (hstep : first.InStep second) {event other : DeliveryEvent}
    (hhandle : (first.engine.handle event).2 = (second.engine.handle other).2 ∧
      (first.engine.handle event).1.Interchangeable (second.engine.handle other).1) :
    (first.dispatch event).2 = (second.dispatch other).2 ∧
      (first.dispatch event).1.InStep (second.dispatch other).1 := by
  simp only [ChargerDriver.dispatch, hhandle.1]
  exact @translate { first with engine := (first.engine.handle event).1 }
    { second with engine := (second.engine.handle other).1 } { hstep with engines := hhandle.2 } _

/-- Reporting the journal to the engine. -/
theorem dispatch_terminal (hstep : first.InStep second) (kind : TerminalKind)
    (reportedAt otherAt : Millis) (receipt : Option Bytes) :
    (first.dispatch (.terminalObserved (first.terminal kind reportedAt receipt))).2 =
        (second.dispatch (.terminalObserved (second.terminal kind otherAt receipt))).2 ∧
      (first.dispatch (.terminalObserved (first.terminal kind reportedAt receipt))).1.InStep
        (second.dispatch (.terminalObserved (second.terminal kind otherAt receipt))).1 :=
  hstep.dispatch (hstep.engines.terminalObserved hstep.cost_eq)

theorem journalUnlessStopped (hstep : first.InStep second) {now : Millis}
    (hseconds : first.pendingStop = none →
      (first.synthesize now).secondsTotal = (second.synthesize now).secondsTotal) :
    (first.journalUnlessStopped now).InStep (second.journalUnlessStopped now) := by
  unfold ChargerDriver.journalUnlessStopped
  by_cases hpending : first.pendingStop.isNone = true
  · rw [if_pos hpending, if_pos (by rw [← hstep.pendingStop_eq]; exact hpending)]
    have hreading := hstep.synthesize (hseconds (Option.isNone_iff_eq_none.mp hpending))
    exact { hstep with totals_eq := congrArg Progress.totals hreading }
  · rw [if_neg hpending, if_neg (by rw [← hstep.pendingStop_eq]; exact hpending)]
    exact hstep

/-- A call on two drivers in step that have not settled. -/
theorem step (hstep : first.InStep second) (hopen : ¬ first.engine.Done) {call : Call}
    (hreads : first.ReadsAlike second call) :
    (machine.step first call).2 = (machine.step second call).2 ∧
      (machine.step first call).1.InStep (machine.step second call).1 := by
  have hother : ¬ second.engine.Done := fun hdone ↦ hopen (hstep.engines.done_iff.mpr hdone)
  have htaken (hpending : first.pendingStop = none) (now : Millis) (hnow : call.asksAt = some now) :
      (first.synthesize now).secondsTotal = (second.synthesize now).secondsTotal := by
    refine hreads now ?_
    rw [readingTime, if_neg (by simp [hopen, hpending])]
    exact hnow
  cases call with
  | handleMessage inbound =>
    cases inbound with
    | grantAck receivedAt => exact ⟨rfl, { hstep with }⟩
    | done receivedAt raw =>
      exact (hstep.journalUnlessStopped fun hpending ↦ htaken hpending _ rfl).dispatch_terminal
        _ _ _ _
    | aborted receivedAt raw =>
      exact (hstep.journalUnlessStopped fun hpending ↦ htaken hpending _ rfl).dispatch_terminal
        _ _ _ _
  | tick now =>
    show (first.tick now).2 = (second.tick now).2 ∧ (first.tick now).1.InStep (second.tick now).1
    cases hpending : first.pendingStop with
    | some reason =>
      rw [tick_of_pending hopen hpending, tick_of_pending hother (hstep.pendingStop_eq ▸ hpending)]
      exact @dispatch_terminal { first with pendingStop := none }
        { second with pendingStop := none }
        { hstep with pendingStop_eq := rfl } _ _ _ _
    | none =>
      -- The reading is the same, so the engine's answers to it and to the tick are.
      rw [tick_of_reading hopen hpending, tick_of_reading hother (hstep.pendingStop_eq ▸ hpending)]
      have hreading := hstep.synthesize (htaken hpending now rfl)
      simp only [hreading]
      obtain ⟨hobserved, hthere⟩ :=
        @dispatch { first with last := second.synthesize now }
          { second with last := second.synthesize now } { hstep with totals_eq := rfl } _ _
          (hstep.engines.progressObserved (second.synthesize now))
      obtain ⟨hticked, hend⟩ := hthere.dispatch (hthere.engines.handle (.tick now))
      exact ⟨by rw [hobserved, hticked], hend⟩
  | revoke now =>
    exact @dispatch { first with pendingStop := some .revoked }
      { second with pendingStop := some .revoked } { hstep with pendingStop_eq := rfl } _ _
      (hstep.engines.handle (.revokeRequested now))

end InStep

/-! ### The coupling -/

/-- Two drivers that no call can tell apart while their readings agree: both have settled, or they
are in step. -/
def Alike (first second : ChargerDriver) : Prop :=
  (first.engine.Done ∧ second.engine.Done) ∨ first.InStep second

/-- An acknowledgement of the grant. -/
def IsAck (call : Call) : Prop :=
  ∃ receivedAt, call = .handleMessage (.grantAck receivedAt)

/-- Drivers that are alike stay so under every call whose reading counts the same for both, and
under an acknowledgement that only one of them receives. -/
theorem coupling : machine.Coupling Alike ReadsAlike IsAck where
  both first second call halike hreads := by
    rcases halike with ⟨hfirst, hsecond⟩ | hstep
    · obtain ⟨hfirstNext, hfirstOut⟩ := step_of_done hfirst call
      obtain ⟨hsecondNext, hsecondOut⟩ := step_of_done hsecond call
      exact ⟨hfirstOut.trans hsecondOut.symm, Or.inl ⟨hfirstNext, hsecondNext⟩⟩
    · by_cases hdone : first.engine.Done
      · have hsecond := hstep.engines.done_iff.mp hdone
        obtain ⟨hfirstNext, hfirstOut⟩ := step_of_done hdone call
        obtain ⟨hsecondNext, hsecondOut⟩ := step_of_done hsecond call
        exact ⟨hfirstOut.trans hsecondOut.symm, Or.inl ⟨hfirstNext, hsecondNext⟩⟩
      · obtain ⟨houtputs, hnext⟩ := hstep.step hdone hreads
        exact ⟨houtputs, Or.inr hnext⟩
  second first second call halike hack := by
    obtain ⟨receivedAt, rfl⟩ := hack
    rcases halike with ⟨hfirst, hsecond⟩ | hstep
    · exact ⟨rfl, Or.inl ⟨hfirst, hsecond⟩⟩
    · exact ⟨rfl, Or.inr { hstep with }⟩

/-- A driver is alike to itself, whatever it counts from. -/
theorem Running.alike {device : String} {grant : Grant} {price : PriceVector}
    {driver : ChargerDriver} (hrunning : driver.Running device grant price) :
    driver.Alike driver := by
  rcases hrunning.live_or_done with hlive | hdone
  · obtain ⟨guard, hguard, -⟩ := hlive.1.2
    exact Or.inr ⟨rfl, rfl, rfl, ⟨hlive.1.phase_ne.1, hlive.1.phase_ne.1, Iff.rfl, guard, guard,
      hguard, hguard, rfl, rfl⟩, rfl, rfl⟩
  · exact Or.inl ⟨hdone, hdone⟩

/-! ### Crash recovery -/

/-- A driver is opened, takes the calls `before`, crashes, and is rebuilt from its journal for the
calls `after`: the two drivers pay what one would have paid. -/
def SurvivesCrash (device : String) (grant : Grant) (price : PriceVector) (openedAt : Millis)
    (before after : List Call) : Prop :=
  let opened := (ChargerDriver.open device grant price openedAt).1
  let journal := (machine.final opened before).journal
  (machine.outputs opened (before ++ after)).filterMap payout =
    (machine.outputs opened before ++
      machine.outputs (resume device journal.1 price journal.2) after).filterMap payout

instance (device : String) (grant : Grant) (price : PriceVector) (openedAt : Millis)
    (before after : List Call) :
    Decidable (SurvivesCrash device grant price openedAt before after) :=
  inferInstanceAs (Decidable (_ = _))

/-- All that the driver will settle on is in its journal: no stop is pending, and the journalled
totals are those of the engine. -/
def JournalComplete (driver : ChargerDriver) : Prop :=
  driver.pendingStop = none ∧
    ∀ guard ∈ driver.engine.guard, guard.last.totals = driver.last.totals

instance (driver : ChargerDriver) : Decidable driver.JournalComplete :=
  inferInstanceAs (Decidable (_ ∧ ∀ guard ∈ driver.engine.guard, _))

/-- A driver with a complete journal is in step with the one rebuilt from it. -/
theorem Running.inStep_resume {device : String} {grant : Grant} {price : PriceVector}
    {driver : ChargerDriver} (hrunning : driver.Running device grant price)
    (hopen : ¬ driver.engine.Done) (hcomplete : driver.JournalComplete) :
    driver.InStep (resume device driver.journal.1 price driver.journal.2) := by
  obtain ⟨hengine, hgrant⟩ := hrunning.live_or_done.resolve_right hopen
  obtain ⟨guard, hguard, hguardGrant⟩ := hengine.2
  have halike := DeliveryEngine.interchangeable_resume hengine.phase_ne.1 hguard hopen
    (hcomplete.2 guard hguard)
  rw [hguardGrant, ← hgrant] at halike
  exact ⟨hrunning.device_eq, hrunning.price_eq, rfl, halike, rfl, hcomplete.1⟩

/-- From one baseline every reading is the same. -/
theorem readsAlike_of_ackedAt {first second : ChargerDriver}
    (hacked : first.ackedAt = second.ackedAt) (call : Call) : ReadsAlike first second call := by
  intro now _
  unfold ChargerDriver.synthesize
  rw [hacked]
  cases second.ackedAt <;> rfl

theorem alongPair_of_ackedAt {first second : ChargerDriver}
    (hacked : first.ackedAt = second.ackedAt) (calls : List Call) :
    machine.AlongPair ReadsAlike first second (calls.map .both) := by
  induction calls generalizing first second with
  | nil => trivial
  | cons call rest ih =>
    refine ⟨readsAlike_of_ackedAt hacked call, ih ?_⟩
    rw [first.ackedAt_step, second.ackedAt_step, hacked]

/-- Assumes: a last journal entry that was written as many whole seconds after the acknowledgement
as it counts. The driver rebuilt from it reads as the one it replaces. -/
theorem readsAlike_of_wholeSeconds {driver : ChargerDriver} {acked : Millis}
    (hacked : driver.ackedAt = some acked)
    (hwhole :
      driver.last.observedAt.toNat = acked.toNat + 1000 * driver.last.secondsTotal.toNat)
    (device : String) (price : PriceVector) (calls : List Call) :
    machine.AlongPair ReadsAlike driver
      (resume device driver.journal.1 price driver.journal.2) (calls.map .both) := by
  refine alongPair_of_ackedAt ?_ calls
  have hrebuilt : driver.last.observedAt.saturatingSub (driver.last.secondsTotal * 1000) =
      acked := by
    have hrange := driver.last.observedAt.toNat_lt
    have hthousand : (1000 : UInt64).toNat = 1000 := rfl
    rw [← UInt64.toNat_inj, UInt64.toNat_saturatingSub, UInt64.toNat_mul, hthousand]
    omega
  rw [hacked]
  exact congrArg some hrebuilt.symm

/-- Assumes: a crash before the settlement, with a complete journal, after which every reading
counts the same whole seconds from the rebuilt baseline as from the acknowledgement. The crash
changes no payout. -/
theorem survivesCrash_of_readsAlike (device : String) (grant : Grant) (price : PriceVector)
    (openedAt : Millis) (before after : List Call)
    (hopen :
      ¬ (machine.final (ChargerDriver.open device grant price openedAt).1 before).engine.Done)
    (hcomplete :
      (machine.final (ChargerDriver.open device grant price openedAt).1 before).JournalComplete)
    (hreads : machine.AlongPair ReadsAlike
      (machine.final (ChargerDriver.open device grant price openedAt).1 before)
      (resume device
        (machine.final (ChargerDriver.open device grant price openedAt).1 before).journal.1 price
        (machine.final (ChargerDriver.open device grant price openedAt).1 before).journal.2)
      (after.map .both)) :
    SurvivesCrash device grant price openedAt before after := by
  have hrunning := running_final device grant price openedAt before
  have hstep := hrunning.inStep_resume hopen hcomplete
  have hsilent : ∀ call, Paired.second call ∈ after.map Paired.both → IsAck call := by
    intro call hmem
    obtain ⟨shared, -, hshared⟩ := List.mem_map.mp hmem
    exact absurd hshared (by simp)
  obtain ⟨houtputs, -⟩ := coupling.run (Or.inr hstep) hreads hsilent
  have hfirst : (after.map Paired.both).filterMap Paired.original = after := by
    rw [List.filterMap_map]
    exact List.filterMap_some
  have hsecond : (after.map Paired.both).map Paired.merged = after := by
    rw [List.map_map]
    exact List.map_id after
  rw [hfirst, hsecond] at houtputs
  simp only [SurvivesCrash, Transducer.outputs_append, houtputs]

/-- A session that crashes on a whole second, is rebuilt and reports. -/
theorem survivesCrash_on_whole_second :
    SurvivesCrash "plug" DeliveryEngine.sampleGrant ⟨1⟩ 0
      [.handleMessage (.grantAck 0), .tick 15000]
      [.tick 20400, .handleMessage (.aborted 40700 [])] := by
  have hopen : ¬ (machine.final (ChargerDriver.open "plug" DeliveryEngine.sampleGrant ⟨1⟩ 0).1
      [.handleMessage (.grantAck 0), .tick 15000]).engine.Done := by
    decide +kernel
  have hcomplete : (machine.final (ChargerDriver.open "plug" DeliveryEngine.sampleGrant ⟨1⟩ 0).1
      [.handleMessage (.grantAck 0), .tick 15000]).JournalComplete := by
    decide +kernel
  have hacked : (machine.final (ChargerDriver.open "plug" DeliveryEngine.sampleGrant ⟨1⟩ 0).1
      [.handleMessage (.grantAck 0), .tick 15000]).ackedAt = some 0 := by
    decide +kernel
  exact survivesCrash_of_readsAlike "plug" DeliveryEngine.sampleGrant ⟨1⟩ 0 _ _ hopen hcomplete
    (readsAlike_of_wholeSeconds hacked (by decide +kernel) _ _ _)

/-- Four sessions whose calls are in order and that settle for another amount after a crash: one
that crashes half a second past a whole one, one before its acknowledgement, one with its stop for
the time cap on the way, and one that was revoked. -/
theorem survivesCrash_fails :
    (InOrder 0 [.handleMessage (.grantAck 0), .tick 1500, .handleMessage (.done 3400 [])] ∧
      ¬ SurvivesCrash "plug" DeliveryEngine.sampleGrant ⟨1⟩ 0
        [.handleMessage (.grantAck 0), .tick 1500] [.handleMessage (.done 3400 [])]) ∧
    (InOrder 0 [.tick 2000, .handleMessage (.done 9000 [])] ∧
      ¬ SurvivesCrash "plug" DeliveryEngine.sampleGrant ⟨1⟩ 0
        [.tick 2000] [.handleMessage (.done 9000 [])]) ∧
    (InOrder 0 [.handleMessage (.grantAck 0), .tick 600000, .handleMessage (.done 605000 [])] ∧
      ¬ SurvivesCrash "plug" { DeliveryEngine.sampleGrant with lease := ⟨700000⟩ } ⟨1⟩ 0
        [.handleMessage (.grantAck 0), .tick 600000] [.handleMessage (.done 605000 [])]) ∧
    InOrder 0 [.handleMessage (.grantAck 0), .tick 5000, .revoke 6000, .tick 9000,
        .handleMessage (.done 9000 [])] ∧
      ¬ SurvivesCrash "plug" DeliveryEngine.sampleGrant ⟨1⟩ 0
        [.handleMessage (.grantAck 0), .tick 5000, .revoke 6000]
        [.tick 9000, .handleMessage (.done 9000 [])] := by
  decide +kernel

/-! ### Repeated acknowledgements -/

/-- A driver is opened, takes the calls `before` and an acknowledgement, and then two runs part: one
takes the shared calls of `inputs`, the other all of them. They pay the same, and every shared call
asks the device to stop in both or in neither. -/
def IgnoresRepeats (device : String) (grant : Grant) (price : PriceVector) (openedAt : Millis)
    (before : List Call) (ackedAt : Millis) (inputs : List (Paired Call)) : Prop :=
  let opened := (ChargerDriver.open device grant price openedAt).1
  let start := before ++ [.handleMessage (.grantAck ackedAt)]
  (machine.outputs opened (start ++ inputs.filterMap Paired.original)).filterMap payout =
      (machine.outputs opened (start ++ inputs.map Paired.merged)).filterMap payout ∧
    ∀ earlier call later, inputs = earlier ++ .both call :: later →
      (.publishStop device ∈
          (machine.step (machine.final opened (start ++ earlier.filterMap Paired.original))
            call).2 ↔
        .publishStop device ∈
          (machine.step (machine.final opened (start ++ earlier.map Paired.merged)) call).2)

/-- Assumes: the calls that only the second run takes are acknowledgements, and every reading counts
the same whole seconds in both runs. The repeated acknowledgements change nothing. -/
theorem ignoresRepeats_of_readsAlike (device : String) (grant : Grant) (price : PriceVector)
    (openedAt : Millis) (before : List Call) (ackedAt : Millis) (inputs : List (Paired Call))
    (hacks : ∀ call, .second call ∈ inputs → IsAck call)
    (hreads : machine.AlongPair ReadsAlike
      (machine.final (ChargerDriver.open device grant price openedAt).1
        (before ++ [.handleMessage (.grantAck ackedAt)]))
      (machine.final (ChargerDriver.open device grant price openedAt).1
        (before ++ [.handleMessage (.grantAck ackedAt)])) inputs) :
    IgnoresRepeats device grant price openedAt before ackedAt inputs := by
  have halike := (running_final device grant price openedAt
    (before ++ [Call.handleMessage (.grantAck ackedAt)])).alike
  unfold IgnoresRepeats
  generalize before ++ [Call.handleMessage (Inbound.grantAck ackedAt)] = start at hreads halike ⊢
  constructor
  · obtain ⟨houtputs, -⟩ := coupling.run halike hreads hacks
    rw [Transducer.outputs_append, Transducer.outputs_append, houtputs]
  · intro earlier call later hcut
    rw [Transducer.final_append, Transducer.final_append,
      coupling.outputs_at halike (hcut ▸ hreads)]
    intro silent hmem
    exact hacks silent (hcut ▸ List.mem_append_left _ hmem)

/-- A device that acknowledges twice within its first second. -/
theorem ignoresRepeats_within_second :
    IgnoresRepeats "plug" DeliveryEngine.sampleGrant ⟨1⟩ 0 [] 0
      [.second (.handleMessage (.grantAck 200)), .both (.tick 5700),
        .both (.handleMessage (.done 20900 []))] := by
  refine ignoresRepeats_of_readsAlike "plug" DeliveryEngine.sampleGrant ⟨1⟩ 0 [] 0 _ ?_ ?_
  · intro call hmem
    simp only [List.mem_cons, reduceCtorEq, Paired.second.injEq, List.not_mem_nil, or_false] at hmem
    exact ⟨200, hmem⟩
  · decide +kernel

/-- A device that acknowledges a second time after five seconds is paid for five seconds less, and
its stop for the time cap comes later. -/
theorem ignoresRepeats_fails :
    (InOrder 0 [.handleMessage (.grantAck 0), .handleMessage (.grantAck 5000),
        .handleMessage (.done 20000 [])] ∧
      ¬ IgnoresRepeats "plug" DeliveryEngine.sampleGrant ⟨1⟩ 0 [] 0
        [.second (.handleMessage (.grantAck 5000)), .both (.handleMessage (.done 20000 []))]) ∧
    InOrder 0 [.handleMessage (.grantAck 0), .handleMessage (.grantAck 5000), .tick 600000] ∧
      ¬ IgnoresRepeats "plug" { DeliveryEngine.sampleGrant with lease := ⟨700000⟩ } ⟨1⟩ 0 [] 0
        [.second (.handleMessage (.grantAck 5000)), .both (.tick 600000)] := by
  refine ⟨⟨by decide +kernel, fun hignores ↦ ?_⟩, by decide +kernel, fun hignores ↦ ?_⟩
  · exact absurd hignores.1 (by decide +kernel)
  · have hstop := hignores.2 [.second (.handleMessage (.grantAck 5000))] (.tick 600000) [] rfl
    exact absurd hstop (by decide +kernel)

end ChargerDriver

end Tollgate
