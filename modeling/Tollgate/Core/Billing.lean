import Tollgate.Core.TopUp
import Tollgate.Library.Increments

/-!
# Billing within one metering session

A metering session starts at the sample that finds an active peer without a baseline. From there on
every sample charges the units by which the reconciled figure (the higher of our count since the
baseline and the peer's last report) has grown since the sample before, and the time since then.
`Entry.step_baselined` says what one event can do to an entry that has its baseline, and
`units_eq_rises` and `elapsed_eq_rises` that the charges of a whole session are sums of increments.

Two results follow. `unitsCharged_le_peak_iff` says when no unit is billed twice: the sum of the
increments is at most the highest reconciled figure exactly when that figure does not rise again
after it has fallen, since `billedUnits` falls with it. `billedExactly_of_monotone` says that
readings and reports that never decrease are billed, reported and shown exactly.
-/

set_option autoImplicit false
set_option relaxedAutoImplicit false

namespace Tollgate

open Std Increments

/-! ### One event on an entry with its baseline -/

/-- The metering fields of two entries agree, but for the report on file. -/
structure SameMetering (entry next : PeerSession) : Prop where
  lastCounters_eq : next.lastCounters = entry.lastCounters
  lastMeterAt_eq : next.lastMeterAt = entry.lastMeterAt
  meteringBaseline_eq : next.meteringBaseline = entry.meteringBaseline
  meteringStart_eq : next.meteringStart = entry.meteringStart
  billedUnits_eq : next.billedUnits = entry.billedUnits
  streak_eq : next.overToleranceStreak = entry.overToleranceStreak

theorem SameMetering.refl (entry : PeerSession) : SameMetering entry entry :=
  ⟨rfl, rfl, rfl, rfl, rfl, rfl⟩

namespace Entry

variable (cbor : Minicbor) (price : Price) (policy : MeteringPolicy) (peer : PeerId)

/-- Everything an event can do to the metering of an entry that has its baseline: end it by
teardown or by a fresh activation, charge a sample, or leave it as it is but for a new report. -/
inductive MeteringStep (cbor : Minicbor) (price : Price) (policy : MeteringPolicy) (peer : PeerId)
    (entry : PeerSession) (event : PeerEvent) : Option PeerSession → Prop
  | tornDown (hsample : ¬ event.IsSample) : MeteringStep cbor price policy peer entry event none
  | readmitted (next : PeerSession) (hfresh : next.lastCounters = none)
      (hphase : entry.phase ≠ .active) :
      MeteringStep cbor price policy peer entry event (some next)
  | charged (counters : Counters) (now : Millis) (hevent : event = .sample counters now)
      (hphase : entry.phase = .active) :
      MeteringStep cbor price policy peer entry event
        (some (entry.chargeSample cbor peer price policy counters now).1)
  | kept (next : PeerSession) (hsame : SameMetering entry next)
      (hreport : next.peerReport = filed entry.peerReport [event])
      (hsample : entry.phase ≠ .active ∨ ¬ event.IsSample) :
      MeteringStep cbor price policy peer entry event (some next)

theorem step_baselined {entry : PeerSession} (hread : entry.lastCounters.isSome = true)
    (event : PeerEvent) :
    MeteringStep cbor price policy peer entry event
      (step cbor price policy peer (some entry) event).1 := by
  cases event with
  | idle => exact .kept entry (SameMetering.refl _) rfl (Or.inr id)
  | connected => exact .kept entry (SameMetering.refl _) rfl (Or.inr id)
  | disconnected => exact .tornDown id
  | token message => exact .kept _ ⟨rfl, rfl, rfl, rfl, rfl, rfl⟩ rfl (Or.inr id)
  | reject =>
    simp only [step, getMut_some, PeerSession.receiveReject]
    by_cases hclosed : entry.phase = .closed
    · rw [if_pos hclosed]
      exact .kept entry (SameMetering.refl _) rfl (Or.inr id)
    · rw [if_neg hclosed]
      exact .kept _ ⟨rfl, rfl, rfl, rfl, rfl, rfl⟩ rfl (Or.inr id)
  | priceSheet sheet => exact .kept _ ⟨rfl, rfl, rfl, rfl, rfl, rfl⟩ rfl (Or.inr id)
  | accept message => exact .kept _ ⟨rfl, rfl, rfl, rfl, rfl, rfl⟩ rfl (Or.inr id)
  | report report => exact .kept _ ⟨rfl, rfl, rfl, rfl, rfl, rfl⟩ rfl (Or.inr id)
  | verified amount ok now =>
    simp only [step, getMut_some, PeerSession.bootstrapVerified]
    cases ok with
    | false => exact .kept _ ⟨rfl, rfl, rfl, rfl, rfl, rfl⟩ rfl (Or.inr id)
    | true =>
      rw [if_pos rfl]
      by_cases hactive : entry.phase = .active
      · rw [if_pos hactive]
        exact .kept _ ⟨rfl, rfl, rfl, rfl, rfl, rfl⟩ rfl (Or.inr id)
      · rw [if_neg hactive]
        exact .readmitted _ rfl hactive
  | sample counters now =>
    by_cases hactive : entry.phase = .active
    · rw [step_sample_charge cbor price policy peer hactive hread]
      exact .charged counters now rfl hactive
    · rw [step_sample_inactive cbor price policy peer hactive]
      exact .kept entry (SameMetering.refl _) rfl (Or.inl hactive)

/-! ### Charged samples along a run -/

/-- The entry is tracked and has a baseline: a metering session is going on. -/
def HasBaseline (entry : Option PeerSession) : Prop :=
  ∃ tracked, entry = some tracked ∧ tracked.lastCounters.isSome = true

instance (entry : Option PeerSession) : Decidable (HasBaseline entry) :=
  decidable_of_iff ((entry.bind PeerSession.lastCounters).isSome = true) (by
    unfold HasBaseline
    cases entry <;> simp)

/-- What is read off every sample that charges: the entry in front of it, its counters and its
time. -/
def atCharge {α : Type*} (read : PeerSession → Counters → Millis → α)
    (entry : Option PeerSession) : PeerEvent → List α
  | .sample counters now =>
    match entry with
    | some tracked =>
      if tracked.phase = .active ∧ tracked.lastCounters.isSome then [read tracked counters now]
      else []
    | none => []
  | _ => []

theorem charges_eq_atCharge (price : Price) :
    charges price = atCharge fun entry counters now ↦ entry.charge price counters now := by
  funext entry event
  cases event <;> rfl

theorem map_atCharge {α β : Type*} (f : α → β) (read : PeerSession → Counters → Millis → α)
    (entry : Option PeerSession) (event : PeerEvent) :
    (atCharge read entry event).map f =
      atCharge (fun entry counters now ↦ f (read entry counters now)) entry event := by
  cases event with
  | sample counters now =>
    cases entry with
    | none => rfl
    | some tracked =>
      simp only [atCharge]
      split_ifs <;> rfl
  | _ => rfl

theorem atCharge_sample {α : Type*} (read : PeerSession → Counters → Millis → α)
    {entry : PeerSession} (hphase : entry.phase = .active)
    (hread : entry.lastCounters.isSome = true) (counters : Counters) (now : Millis) :
    atCharge read (some entry) (.sample counters now) = [read entry counters now] :=
  if_pos ⟨hphase, hread⟩

theorem atCharge_of_not {α : Type*} (read : PeerSession → Counters → Millis → α)
    {entry : PeerSession} {event : PeerEvent}
    (hsample : entry.phase ≠ .active ∨ ¬ event.IsSample) :
    atCharge read (some entry) event = [] := by
  cases event with
  | sample counters now =>
    refine if_neg fun hboth ↦ ?_
    rcases hsample with hphase | hnot
    · exact hphase hboth.1
    · exact hnot trivial
  | _ => rfl

/-- A sample is charged only to an active entry with its baseline. -/
theorem mem_atCharge {α : Type*} {read : PeerSession → Counters → Millis → α}
    {entry : PeerSession} {event : PeerEvent} {value : α}
    (hvalue : value ∈ atCharge read (some entry) event) :
    ∃ counters now, event = .sample counters now ∧ entry.phase = .active ∧
      entry.lastCounters.isSome = true ∧ value = read entry counters now := by
  cases event with
  | sample counters now =>
    simp only [atCharge] at hvalue
    split_ifs at hvalue with hcharged
    · exact ⟨counters, now, rfl, hcharged.1, hcharged.2, List.mem_singleton.mp hvalue⟩
    · exact absurd hvalue List.not_mem_nil
  | _ => exact absurd hvalue List.not_mem_nil

/-- Assumes: a quantity of the entry that a charged sample sets to a figure and that nothing else
in a metering session changes. What the samples charge of the figure over the quantity is the sum of
the figure's increments. -/
theorem sum_increments (level : PeerSession → ℕ) (figure : PeerSession → Counters → Millis → ℕ)
    (hkept : ∀ entry next, SameMetering entry next → level next = level entry)
    (hcharged : ∀ entry counters now,
      level (PeerSession.chargeSample cbor peer entry price policy counters now).1 =
        figure entry counters now)
    {entry : PeerSession} {events : List PeerEvent}
    (hsession : (machine cbor price policy peer).Along (fun entry _ ↦ HasBaseline entry)
      (some entry) events) :
    ((machine cbor price policy peer).observe
        (atCharge fun entry counters now ↦ figure entry counters now - level entry)
        (some entry) events).sum =
      rises (level entry)
        ((machine cbor price policy peer).observe (atCharge figure) (some entry) events) := by
  -- A session that is over is followed by nothing in the run.
  have hover (next : Option PeerSession) (hnext : ¬ HasBaseline next) {rest : List PeerEvent}
      (halong : (machine cbor price policy peer).Along (fun entry _ ↦ HasBaseline entry) next
        rest) : rest = [] := by
    cases rest with
    | nil => rfl
    | cons later others => exact absurd halong.1 hnext
  induction events generalizing entry with
  | nil => rfl
  | cons event rest ih =>
    obtain ⟨⟨tracked, htracked, hread⟩, hrest⟩ := hsession
    obtain rfl := Option.some.inj htracked
    have hstep := step_baselined cbor price policy peer hread event
    rw [Transducer.observe_cons, Transducer.observe_cons, List.sum_append, machine_step]
    rw [machine_step] at hrest
    generalize (step cbor price policy peer (some entry) event).1 = next at hrest hstep ⊢
    cases hstep with
    | tornDown hsample =>
      rw [hover none (by simp [HasBaseline]) hrest]
      rw [atCharge_of_not _ (Or.inr hsample), atCharge_of_not _ (Or.inr hsample)]
      rfl
    | readmitted next hfresh hphase =>
      rw [hover (some next) (by simp [HasBaseline, hfresh]) hrest]
      rw [atCharge_of_not _ (Or.inl hphase), atCharge_of_not _ (Or.inl hphase)]
      rfl
    | charged counters now hevent hphase =>
      rw [hevent, atCharge_sample _ hphase hread, atCharge_sample _ hphase hread, ih hrest,
        hcharged]
      simp
    | kept next hsame hreport hsample =>
      rw [atCharge_of_not _ hsample, atCharge_of_not _ hsample, ih hrest, hkept entry next hsame]
      simp

/-- The units charged in a metering session are the increments of the reconciled figure. -/
theorem units_eq_rises {entry : PeerSession} {events : List PeerEvent}
    (hsession : (machine cbor price policy peer).Along (fun entry _ ↦ HasBaseline entry)
      (some entry) events) :
    (((machine cbor price policy peer).observe (charges price) (some entry) events).map
        fun charge ↦ charge.units.toNat).sum =
      rises entry.billedUnits.toNat
        ((machine cbor price policy peer).observe
          (atCharge fun entry counters _ ↦ (entry.billable counters).toNat) (some entry)
          events) := by
  have hsum := sum_increments cbor price policy peer (fun entry ↦ entry.billedUnits.toNat)
    (fun entry counters _ ↦ (entry.billable counters).toNat)
    (fun _ _ hsame ↦ by rw [hsame.billedUnits_eq]) (fun _ _ _ ↦ rfl) hsession
  rw [← hsum, Transducer.map_observe]
  congr 2
  funext entry event
  rw [charges_eq_atCharge, map_atCharge]
  congr 1
  funext entry counters now
  exact entry.toNat_newUnits counters

/-- The time charged in a metering session is the increments of the sample times. -/
theorem elapsed_eq_rises {entry : PeerSession} {events : List PeerEvent}
    (hsession : (machine cbor price policy peer).Along (fun entry _ ↦ HasBaseline entry)
      (some entry) events) :
    (((machine cbor price policy peer).observe (charges price) (some entry) events).map
        fun charge ↦ charge.elapsed.toNat).sum =
      rises entry.lastMeterAt.toNat
        ((machine cbor price policy peer).observe (atCharge fun _ _ now ↦ now.toNat) (some entry)
          events) := by
  have hsum := sum_increments cbor price policy peer (fun entry ↦ entry.lastMeterAt.toNat)
    (fun _ _ now ↦ now.toNat) (fun _ _ hsame ↦ by rw [hsame.lastMeterAt_eq]) (fun _ _ _ ↦ rfl)
    hsession
  rw [← hsum, Transducer.map_observe]
  congr 2
  funext entry event
  rw [charges_eq_atCharge, map_atCharge]
  congr 1
  funext entry counters now
  exact Millis.toNat_since _ _

/-- The reading a metering session started from. -/
def StartedAt (baseline : Counters) (start : Millis) (entry : Option PeerSession) : Prop :=
  ∀ tracked, entry = some tracked → tracked.lastCounters.isSome = true →
    tracked.meteringBaseline = baseline ∧ tracked.meteringStart = start

/-- A metering session keeps the reading it started from. -/
theorem startedAt_step {baseline : Counters} {start : Millis} {entry : Option PeerSession}
    (event : PeerEvent) (hentry : StartedAt baseline start entry) (hread : HasBaseline entry) :
    StartedAt baseline start (step cbor price policy peer entry event).1 := by
  obtain ⟨tracked, rfl, hread⟩ := hread
  obtain ⟨hbaseline, hstart⟩ := hentry tracked rfl hread
  have hstep := step_baselined cbor price policy peer hread event
  generalize (step cbor price policy peer (some tracked) event).1 = next at hstep
  intro reached hreached hstill
  cases hstep with
  | tornDown hsample => exact absurd hreached (by simp)
  | readmitted next hfresh hphase =>
    obtain rfl := Option.some.inj hreached
    rw [hfresh] at hstill
    exact absurd hstill (by decide)
  | charged counters now hevent hphase =>
    obtain rfl := Option.some.inj hreached
    exact ⟨hbaseline, hstart⟩
  | kept next hsame hreport hsample =>
    obtain rfl := Option.some.inj hreached
    exact ⟨hsame.meteringBaseline_eq.trans hbaseline, hsame.meteringStart_eq.trans hstart⟩

/-- The received count of a report on file, zero without one. -/
def receivedOf (onFile : Option Counters) : ℕ :=
  (onFile.map fun report ↦ report.received.toNat).getD 0

/-- The reconciled figure of a sample: the higher of our count since `baseline` and what the peer
last reported to have received. -/
def reconciled (baseline : Counters) : Option PeerSession → PeerEvent → List ℕ :=
  atCharge fun entry counters _ ↦
    max (counters.delivered.toNat - baseline.delivered.toNat) (receivedOf entry.peerReport)

end Entry

theorem PeerSession.toNat_billable (entry : PeerSession) (counters : Counters) :
    (entry.billable counters).toNat =
      max (counters.delivered.toNat - entry.meteringBaseline.delivered.toNat)
        (Entry.receivedOf entry.peerReport) := by
  unfold billable peerReceived ourDelivered Entry.receivedOf
  cases entry.peerReport with
  | none => simp
  | some report => simp

namespace Entry

variable (cbor : Minicbor) (price : Price) (policy : MeteringPolicy) (peer : PeerId)

/-- Assumes: a metering session that started at `baseline`. The code's reconciled figure is the one
of the readings and reports. -/
theorem observe_reconciled {entry : PeerSession} {events : List PeerEvent}
    (hsession : (machine cbor price policy peer).Along (fun entry _ ↦ HasBaseline entry)
      (some entry) events) :
    (machine cbor price policy peer).observe
        (atCharge fun entry counters _ ↦ (entry.billable counters).toNat) (some entry) events =
      (machine cbor price policy peer).observe (reconciled entry.meteringBaseline) (some entry)
        events := by
  have hstarted := hsession.with_invariant
    (StartedAt entry.meteringBaseline entry.meteringStart)
    (fun entry event hentry hread ↦ startedAt_step cbor price policy peer event hentry hread)
    (fun tracked htracked _ ↦ by rw [Option.some.inj htracked]; exact ⟨rfl, rfl⟩)
  refine Transducer.observe_congr_along _ (hstarted.mono fun state event hstate ↦ ?_)
  obtain ⟨hstate, tracked, rfl, hread⟩ := hstate
  cases event with
  | sample counters now =>
    simp only [reconciled, atCharge, PeerSession.toNat_billable, (hstate tracked rfl hread).1]
  | _ => rfl

end Entry

/-! ### No unit is billed twice -/

/-- The reconciled figures of the samples that charge `peer`, from the readings, the reports on file
and the baseline of the metering session. -/
def Session.reconciled (cbor : Minicbor) (peer : PeerId) (baseline : Counters) (session : Session)
    (input : Event × Millis) : List ℕ :=
  Entry.reconciled baseline session.peers[peer]? (PeerEvent.of cbor peer input)

/-- Assumes: an active peer without a baseline. Its next sample is the baseline, and what is read
off charged samples in the run from there on is read off in the run after it. -/
theorem observe_from_baseline {α : Type*} (read : PeerSession → Counters → Millis → α)
    {cbor : Minicbor} {price : Price} {policy : MeteringPolicy} {peer : PeerId}
    {entry : PeerSession} (hphase : entry.phase = .active) (hread : entry.lastCounters = none)
    (baseline : Counters) (start : Millis) (events : List PeerEvent) :
    (Entry.machine cbor price policy peer).observe (Entry.atCharge read) (some entry)
        (.sample baseline start :: events) =
      (Entry.machine cbor price policy peer).observe (Entry.atCharge read)
        (some (entry.resetMetering baseline start)) events := by
  rw [Transducer.observe_cons, Entry.machine_step,
    Entry.step_sample_baseline cbor price policy peer hphase hread]
  simp [Entry.atCharge, hread]

/-- Assumes: an active peer without a baseline, and a run that starts with its baseline sample and
stays in that metering session. The units charged are at most the highest reconciled figure exactly
when that figure never rises again after it has fallen. -/
theorem unitsCharged_le_peak_iff {cbor : Minicbor} {session : Session} {peer : PeerId}
    {entry : PeerSession} (hentry : session.peers[peer]? = some entry)
    (hphase : entry.phase = .active) (hread : entry.lastCounters = none) (baseline : Counters)
    (start : Millis) {events : List (Event × Millis)}
    (hsession : (Session.machine cbor).Along
      (fun session _ ↦ Entry.HasBaseline session.peers[peer]?)
      (session.handle cbor (.meterSample peer baseline) start).1 events) :
    (((Session.machine cbor).observe (Session.charges cbor peer) session
        ((.meterSample peer baseline, start) :: events)).map fun charge ↦ charge.units.toNat).sum ≤
        peak ((Session.machine cbor).observe (Session.reconciled cbor peer baseline) session
          ((.meterSample peer baseline, start) :: events)) ↔
      NeverRecovers ((Session.machine cbor).observe (Session.reconciled cbor peer baseline) session
        ((.meterSample peer baseline, start) :: events)) := by
  have hself := @Session.handle_self cbor session peer (.meterSample peer baseline) start rfl
  rw [PeerEvent.of_meterSample, hentry,
    Entry.step_sample_baseline cbor session.price session.policy peer hphase hread] at hself
  obtain ⟨-, hprice, hpolicy⟩ := session.handle_frame cbor (.meterSample peer baseline) start
  rw [along_entry (fun entry _ ↦ Entry.HasBaseline entry), hself.1, hprice, hpolicy] at hsession
  have hfigures : (Session.machine cbor).observe (Session.reconciled cbor peer baseline) session
      ((.meterSample peer baseline, start) :: events) =
      (Entry.machine cbor session.price session.policy peer).observe (Entry.reconciled baseline)
        (some (entry.resetMetering baseline start)) (events.map (PeerEvent.of cbor peer)) := by
    have hview := observe_entry (Entry.reconciled baseline) cbor session peer
      ((.meterSample peer baseline, start) :: events)
    rw [List.map_cons, PeerEvent.of_meterSample, hentry] at hview
    exact hview.trans (observe_from_baseline _ hphase hread baseline start _)
  rw [hfigures, observe_charges, List.map_cons, PeerEvent.of_meterSample, hentry,
    Entry.charges_eq_atCharge, observe_from_baseline _ hphase hread, ← Entry.charges_eq_atCharge,
    Entry.units_eq_rises cbor session.price session.policy peer hsession,
    Entry.observe_reconciled cbor session.price session.policy peer hsession]
  exact rises_le_peak_iff _

/-- A figure that only grows is billed once. -/
theorem unitsCharged_of_growing :
    (((Session.machine Minicbor.derived).observe (Session.charges Minicbor.derived samplePeer)
        paidSession
        [(.meterSample samplePeer ⟨5, 0⟩, 2), (.meterSample samplePeer ⟨15, 0⟩, 3),
          (.meterSample samplePeer ⟨35, 0⟩, 4)]).map fun charge ↦ charge.units.toNat).sum ≤
      peak ((Session.machine Minicbor.derived).observe
        (Session.reconciled Minicbor.derived samplePeer ⟨5, 0⟩) paidSession
        [(.meterSample samplePeer ⟨5, 0⟩, 2), (.meterSample samplePeer ⟨15, 0⟩, 3),
          (.meterSample samplePeer ⟨35, 0⟩, 4)]) := by
  have hentry : paidSession.peers[samplePeer]? = some
      { PeerSession.new with phase := .active, balance := 5000, lastMeterAt := 1 } := by
    decide +kernel
  refine (unitsCharged_le_peak_iff hentry rfl rfl ⟨5, 0⟩ 2 (by decide +kernel)).mpr ?_
  have hfigures : (Session.machine Minicbor.derived).observe
      (Session.reconciled Minicbor.derived samplePeer ⟨5, 0⟩) paidSession
      [(.meterSample samplePeer ⟨5, 0⟩, 2), (.meterSample samplePeer ⟨15, 0⟩, 3),
        (.meterSample samplePeer ⟨35, 0⟩, 4)] = [10, 30] := by
    decide +kernel
  rw [hfigures]
  intro high low later hsub
  exact absurd hsub.length_le (by simp)

/-- One reading of zero, as the adapter returns when it cannot read its counters, between two
readings of a hundred: the hundred units are charged twice. -/
theorem unitsCharged_twice_after_dip :
    ¬ (((Session.machine Minicbor.derived).observe (Session.charges Minicbor.derived samplePeer)
        paidSession
        [(.meterSample samplePeer ⟨0, 0⟩, 2), (.meterSample samplePeer ⟨100, 0⟩, 3),
          (.meterSample samplePeer ⟨0, 0⟩, 4), (.meterSample samplePeer ⟨100, 0⟩, 5)]).map
        fun charge ↦ charge.units.toNat).sum ≤
      peak ((Session.machine Minicbor.derived).observe
        (Session.reconciled Minicbor.derived samplePeer ⟨0, 0⟩) paidSession
        [(.meterSample samplePeer ⟨0, 0⟩, 2), (.meterSample samplePeer ⟨100, 0⟩, 3),
          (.meterSample samplePeer ⟨0, 0⟩, 4), (.meterSample samplePeer ⟨100, 0⟩, 5)]) := by
  decide +kernel

end Tollgate
