import Tollgate.Core.ElapsedTime
import Tollgate.Library.Streak

/-!
# Suspension for drift

At every charged sample the peer's last report is held against our own count. `Entry.drift` states
the comparison over the integers, from the readings and the report on file alone. `Entry.streak_run`
says that the streak of an entry is the number of samples in a row, up to the last one, at which the
two were too far apart, as far as a byte can count; without a report on file there have been none,
because a report that is on file stays there until the next baseline.
-/

set_option autoImplicit false
set_option relaxedAutoImplicit false

namespace Tollgate

open Std

/-- The counts are further apart than the tolerance: our own is positive, and the difference is more
than its share of it. -/
def driftsFrom (ours theirs : ℕ) (toleranceBps : ℕ) : Bool :=
  decide (0 < ours) && decide ((ours : ℤ) * toleranceBps < |(ours : ℤ) - theirs| * 10000)

/-- Whether the sample finds a report on file that is too far from our count since the baseline. -/
def Entry.drift (baseline : Counters) (policy : MeteringPolicy) :
    Option PeerSession → PeerEvent → List Bool :=
  Entry.atCharge fun entry counters _ ↦
    entry.peerReport.any fun report ↦
      driftsFrom (counters.delivered.toNat - baseline.delivered.toNat) report.received.toNat
        policy.toleranceBps.toNat

/-- Whether each charged sample of `peer` finds its report too far from our count. -/
def Session.drift (cbor : Minicbor) (peer : PeerId) (baseline : Counters) (session : Session)
    (input : Event × Millis) : List Bool :=
  Entry.drift baseline session.policy session.peers[peer]? (PeerEvent.of cbor peer input)

namespace PeerSession

variable {entry : PeerSession} {counters : Counters} {policy : MeteringPolicy}

/-- The code's comparison in unsigned arithmetic is the one over the integers. -/
theorem overTolerance_eq :
    entry.overTolerance counters policy = entry.peerReport.any fun report ↦
      driftsFrom (counters.delivered.toNat - entry.meteringBaseline.delivered.toNat)
        report.received.toNat policy.toleranceBps.toNat := by
  unfold overTolerance peerReceived ourDelivered
  cases entry.peerReport with
  | none => rfl
  | some report =>
    simp only [Option.map_some, Option.any_some, driftsFrom, UInt64.toNat_absDiff,
      UInt64.lt_iff_toNat_lt, UInt64.toNat_saturatingSub, UInt64.toNat_zero]
    congr 2
    rw [eq_iff_iff]
    generalize counters.delivered.toNat - entry.meteringBaseline.delivered.toNat = ours
    have hdistance : |(ours : ℤ) - report.received.toNat| =
        ((ours - report.received.toNat + (report.received.toNat - ours) : ℕ) : ℤ) := by
      rw [Int.abs_eq_natAbs]
      omega
    rw [hdistance]
    norm_cast

/-- The streak after a sample, by whether the sample drifts. -/
theorem toNat_streakAfter {hits : ℕ}
    (hstreak : entry.overToleranceStreak.toNat = min 255 hits)
    (hnone : entry.peerReport = none → hits = 0) :
    (entry.streakAfter counters policy).toNat =
      min 255 (Streak.next hits (entry.overTolerance counters policy)) := by
  unfold streakAfter
  cases hreport : entry.peerReport with
  | none =>
    have hover : entry.overTolerance counters policy = false := by
      rw [overTolerance_eq, hreport]
      rfl
    have hreceived : entry.peerReceived = none := by rw [peerReceived, hreport]; rfl
    rw [hreceived, hover, hstreak, hnone hreport]
    rfl
  | some report =>
    have hreceived : entry.peerReceived = some report.received := by
      rw [peerReceived, hreport]
      rfl
    rw [hreceived]
    cases entry.overTolerance counters policy with
    | false => rfl
    | true =>
      simp only [if_true, Streak.next, UInt8.toNat_saturatingAdd, hstreak]
      show min (min 255 hits + 1) 255 = min 255 (hits + 1)
      omega

end PeerSession

namespace Entry

variable (cbor : Minicbor) (price : Price) (policy : MeteringPolicy) (peer : PeerId)

/-- The streak of an entry in a metering session, as counted from its samples. -/
def StreakOf (baseline : Counters) (hits : List Bool) (entry : Option PeerSession) : Prop :=
  ∀ tracked, entry = some tracked → tracked.lastCounters.isSome = true →
    tracked.meteringBaseline = baseline ∧
      tracked.overToleranceStreak.toNat = min 255 (Streak.after 0 hits) ∧
      (tracked.peerReport = none → Streak.after 0 hits = 0)

/-- One event of a metering session. -/
theorem streak_step {baseline : Counters} {hits : List Bool} {entry : Option PeerSession}
    (hread : HasBaseline entry) (hstreak : StreakOf baseline hits entry) (event : PeerEvent) :
    StreakOf baseline (hits ++ drift baseline policy entry event)
      (step cbor price policy peer entry event).1 := by
  obtain ⟨tracked, rfl, hread⟩ := hread
  obtain ⟨hbaseline, hcount, hnone⟩ := hstreak tracked rfl hread
  have hstep := step_baselined cbor price policy peer hread event
  generalize (step cbor price policy peer (some tracked) event).1 = next at hstep
  intro reached hreached hstill
  cases hstep with
  | tornDown hsample => exact absurd hreached (by simp)
  | readmitted next hfresh hphase =>
    obtain rfl := Option.some.inj hreached
    rw [hfresh] at hstill
    exact absurd hstill (by decide)
  | charged counters now hevent hphase =>
    obtain rfl := Option.some.inj hreached
    have hdrift : drift baseline policy (some tracked) event =
        [tracked.overTolerance counters policy] := by
      rw [hevent, drift, atCharge_sample _ hphase hread, PeerSession.overTolerance_eq, hbaseline]
    rw [hdrift, Streak.after_append]
    refine ⟨hbaseline, PeerSession.toNat_streakAfter hcount hnone, fun hreport ↦ ?_⟩
    have hover : tracked.overTolerance counters policy = false := by
      rw [PeerSession.overTolerance_eq, show tracked.peerReport = none from hreport]
      rfl
    rw [hover]
    rfl
  | kept next hsame hreport hsample =>
    obtain rfl := Option.some.inj hreached
    rw [drift, atCharge_of_not _ hsample, List.append_nil]
    refine ⟨hsame.meteringBaseline_eq.trans hbaseline, ?_, fun hfile ↦ hnone ?_⟩
    · rw [hsame.streak_eq]
      exact hcount
    · rw [hreport] at hfile
      cases event with
      | report report => exact absurd hfile (by simp [filed])
      | _ => exact hfile

/-- Assumes: a run that stays in the metering session. The streak at its end. -/
theorem streak_run {baseline : Counters} {hits : List Bool} {entry : Option PeerSession}
    (hstreak : StreakOf baseline hits entry) {events : List PeerEvent}
    (hsession : (machine cbor price policy peer).Along (fun entry _ ↦ HasBaseline entry) entry
      events) :
    StreakOf baseline
      (hits ++ (machine cbor price policy peer).observe (drift baseline policy) entry events)
      ((machine cbor price policy peer).final entry events) := by
  induction events generalizing entry hits with
  | nil => simpa using hstreak
  | cons event rest ih =>
    rw [Transducer.observe_cons, ← List.append_assoc]
    exact ih (streak_step cbor price policy peer hsession.1 hstreak event) hsession.2

end Entry

/-! ### What a charged sample does about drift -/

section ChargeSample

variable {cbor : Minicbor} {peer : PeerId} {entry : PeerSession} {price : Price}
  {policy : MeteringPolicy} {counters : Counters} {now : Millis}

/-- Assumes: a lawful codec. A charged sample sends the transit-loss rejection exactly when the
report is outside the tolerance. -/
theorem PeerSession.chargeSample_rejects_iff (hlawful : cbor.Lawful) :
    .send peer (cbor.encodeReject (Reject.new .meteringReport .transitLossToleranceExceeded)) ∈
        (entry.chargeSample cbor peer price policy counters now).2 ↔
      entry.overTolerance counters policy = true := by
  have hreport : cbor.encodeReject (Reject.new .meteringReport .transitLossToleranceExceeded) ≠
      cbor.encodeMeteringReport (entry.usageReport counters now) := by
    intro hsame
    have htype := hlawful.peekType_reject .meteringReport .transitLossToleranceExceeded
    rw [hsame, PeerSession.usageReport, hlawful.peekType_meteringReport] at htype
    exact absurd htype (by simp)
  have hreason : cbor.encodeReject (Reject.new .meteringReport .transitLossToleranceExceeded) ≠
      cbor.encodeReject (Reject.new .meteringReport .balanceVerificationFailed) := by
    intro hsame
    have hdecoded := hlawful.decode_reject .meteringReport .transitLossToleranceExceeded
    rw [hsame, hlawful.decode_reject] at hdecoded
    exact absurd hdecoded (by decide)
  simp only [chargeSample, List.mem_append, List.mem_singleton, Action.send.injEq, hreport,
    and_false, or_false]
  constructor
  · rintro (hwarning | hsuspension)
    · split_ifs at hwarning with hover
      · exact hover
      · exact absurd hwarning List.not_mem_nil
    · split_ifs at hsuspension with hcut hexhausted
      · simp [hreason] at hsuspension
      · simp at hsuspension
      · exact absurd hsuspension List.not_mem_nil
  · intro hover
    rw [if_pos hover]
    exact Or.inl (List.mem_singleton_self _)

/-- A charged sample cuts the peer off exactly when it suspends it. -/
theorem PeerSession.chargeSample_suspends_iff :
    .setAccess peer .suspended ∈ (entry.chargeSample cbor peer price policy counters now).2 ↔
      entry.cut counters price policy now = true := by
  simp only [chargeSample, List.mem_append, List.mem_singleton, reduceCtorEq, or_false]
  constructor
  · rintro (hwarning | hsuspension)
    · split_ifs at hwarning <;> simp at hwarning
    · split_ifs at hsuspension with hcut
      · exact hcut
      · exact hcut
      · exact absurd hsuspension List.not_mem_nil
  · intro hcut
    rw [if_pos hcut]
    simp

/-- Assumes: an active peer. It is suspended by a charged sample that cuts it. -/
theorem PeerSession.chargeSample_phase_iff (hactive : entry.phase = .active) :
    (entry.chargeSample cbor peer price policy counters now).1.phase = .suspended ↔
      entry.cut counters price policy now = true := by
  simp only [chargeSample]
  split_ifs with hcut
  · exact iff_of_true rfl hcut
  · rw [hactive]
    exact iff_of_false (by simp) hcut

end ChargeSample

/-! ### Whole sessions -/

/-- What a sample does about drift, given whether each sample of the metering session up to this one
has drifted: the streak is the number of the last ones in a row that have, a transit-loss rejection
is sent if this one has, and the peer is suspended for a streak at the limit or a spent balance. -/
structure DriftHandled (cbor : Minicbor) (peer : PeerId) (session : Session) (counters : Counters)
    (now : Millis) (drifts : List Bool) : Prop where
  streak : ∀ next, (session.handle cbor (.meterSample peer counters) now).1.peers[peer]? =
      some next → next.overToleranceStreak.toNat = min 255 (drifts.reverse.takeWhile id).length
  rejects : .send peer
        (cbor.encodeReject (Reject.new .meteringReport .transitLossToleranceExceeded)) ∈
      (session.handle cbor (.meterSample peer counters) now).2 ↔
    drifts.getLast? = some true
  suspended : ∀ next, (session.handle cbor (.meterSample peer counters) now).1.peers[peer]? =
      some next →
    (next.phase = .suspended ↔
      session.policy.maxStreak.toNat ≤ next.overToleranceStreak.toNat ∨
        ∃ charge ∈ Session.charges cbor peer session (.meterSample peer counters, now),
          0 < charge.cost ∧ next.balance = 0)
  access : .setAccess peer .suspended ∈ (session.handle cbor (.meterSample peer counters) now).2 ↔
    (session.handle cbor (.meterSample peer counters) now).1.peerPhase peer = some .suspended
  present : ((session.handle cbor (.meterSample peer counters) now).1.peers[peer]?).isSome = true

/-- The drifts of a run are those of the one-peer machine. -/
theorem observe_drift (cbor : Minicbor) (session : Session) (peer : PeerId) (baseline : Counters)
    (events : List (Event × Millis)) :
    (Session.machine cbor).observe (Session.drift cbor peer baseline) session events =
      (Entry.machine cbor session.price session.policy peer).observe
        (Entry.drift baseline session.policy) session.peers[peer]?
        (events.map (PeerEvent.of cbor peer)) :=
  (entrySimulation cbor session.price session.policy peer).observe _ _
    (fun _ _ _ hentry ↦ by rw [Session.drift, hentry.2.2, hentry.2.1]) ⟨rfl, rfl, rfl⟩ events

/-- Assumes: an active peer without a baseline, and a run that starts with its baseline sample and
stays in that metering session. The streak of the entry it leads to. -/
theorem streak_in_session {cbor : Minicbor} {session : Session} {peer : PeerId}
    {entry : PeerSession} (hentry : session.peers[peer]? = some entry)
    (hphase : entry.phase = .active) (hread : entry.lastCounters = none) (baseline : Counters)
    (start : Millis) {events : List (Event × Millis)}
    (hsession : (Session.machine cbor).Along
      (fun session _ ↦ Entry.HasBaseline session.peers[peer]?)
      (session.handle cbor (.meterSample peer baseline) start).1 events) :
    Entry.StreakOf baseline
      ((Session.machine cbor).observe (Session.drift cbor peer baseline) session
        ((.meterSample peer baseline, start) :: events))
      ((Session.machine cbor).final session
        ((.meterSample peer baseline, start) :: events)).peers[peer]? := by
  have hstart : Entry.StreakOf baseline [] (some (entry.resetMetering baseline start)) := by
    intro tracked htracked _
    obtain rfl := Option.some.inj htracked
    exact ⟨rfl, rfl, fun _ ↦ rfl⟩
  have hrun := Entry.streak_run cbor session.price session.policy peer hstart
    ((along_from_baseline hentry hphase hread baseline start
      (fun entry _ ↦ Entry.HasBaseline entry) events).mp hsession)
  rw [final_from_baseline hentry hphase hread, observe_drift, hentry, List.map_cons,
    PeerEvent.of_meterSample, Entry.drift, observe_from_baseline _ hphase hread]
  exact hrun

/-- Assumes: a lawful codec, an active peer without a baseline, and a run that starts with its
baseline sample, stays in that metering session and leads to another sample of the peer, still
active. Drift is handled at that sample by the history of the session. -/
theorem drift_handled_by_history {cbor : Minicbor} (hlawful : cbor.Lawful) {session : Session}
    {peer : PeerId} {entry : PeerSession} (hentry : session.peers[peer]? = some entry)
    (hphase : entry.phase = .active) (hread : entry.lastCounters = none) (baseline : Counters)
    (start : Millis) (events : List (Event × Millis)) (counters : Counters) (now : Millis)
    (hsession : (Session.machine cbor).Along
      (fun session _ ↦ Entry.HasBaseline session.peers[peer]?)
      (session.handle cbor (.meterSample peer baseline) start).1
      (events ++ [(.meterSample peer counters, now)]))
    (hactive : ((Session.machine cbor).final session
      ((.meterSample peer baseline, start) :: events)).peerPhase peer = some .active) :
    DriftHandled cbor peer
      ((Session.machine cbor).final session ((.meterSample peer baseline, start) :: events))
      counters now
      ((Session.machine cbor).observe (Session.drift cbor peer baseline) session
        ((.meterSample peer baseline, start) ::
          (events ++ [(.meterSample peer counters, now)]))) := by
  obtain ⟨reached, hreached, hlast, hbaseline, -⟩ := reached_in_session hentry hphase hread hsession
  have hserved : reached.phase = .active := by
    rw [Session.peerPhase, hreached] at hactive
    exact Option.some.inj hactive
  have hbefore := ((Transducer.along_append _ _ _ _ _).mp hsession).1
  obtain ⟨-, hcount, hnone⟩ :=
    streak_in_session hentry hphase hread baseline start hbefore reached hreached hlast
  -- The last drift of the history is the code's own comparison at this sample.
  have hdrifts : (Session.machine cbor).observe (Session.drift cbor peer baseline) session
      ((.meterSample peer baseline, start) ::
        (events ++ [(Event.meterSample peer counters, now)])) =
      (Session.machine cbor).observe (Session.drift cbor peer baseline) session
        ((.meterSample peer baseline, start) :: events) ++
        [reached.overTolerance counters ((Session.machine cbor).final session
          ((.meterSample peer baseline, start) :: events)).policy] := by
    rw [← List.cons_append, Transducer.observe_append]
    refine congrArg _ ?_
    rw [Transducer.observe_cons, Transducer.observe_nil, List.append_nil, Session.drift, hreached,
      PeerEvent.of_meterSample, Entry.drift, Entry.atCharge_sample _ hserved hlast,
      PeerSession.overTolerance_eq, hbaseline]
  generalize (Session.machine cbor).observe (Session.drift cbor peer baseline) session
    ((.meterSample peer baseline, start) :: events) = past at hdrifts hcount hnone
  generalize (Session.machine cbor).final session
    ((.meterSample peer baseline, start) :: events) = state at hreached hdrifts ⊢
  obtain ⟨hnext, hactions⟩ := @handle_sample_charge cbor _ _ _ hreached hserved hlast counters now
  have hcharges : Session.charges cbor peer state (.meterSample peer counters, now) =
      [reached.charge state.price counters now] := by
    rw [Session.charges, hreached, PeerEvent.of_meterSample, Entry.charges_eq_atCharge,
      Entry.atCharge_sample _ hserved hlast]
  rw [hdrifts]
  refine ⟨fun next hat ↦ ?_, ?_, fun next hat ↦ ?_, ?_, ?_⟩
  · obtain rfl := Option.some.inj (hnext.symm.trans hat)
    rw [← Streak.after_eq_length_takeWhile, Streak.after_append]
    exact PeerSession.toNat_streakAfter hcount hnone
  · rw [hactions, PeerSession.chargeSample_rejects_iff hlawful, List.getLast?_concat,
      Option.some.injEq]
  · obtain rfl := Option.some.inj (hnext.symm.trans hat)
    rw [PeerSession.chargeSample_phase_iff hserved, hcharges, PeerSession.cut, Bool.or_eq_true,
      PeerSession.exhausted, Bool.and_eq_true, decide_eq_true_iff, decide_eq_true_iff,
      decide_eq_true_iff, UInt8.le_iff_toNat_le, or_comm]
    simp only [List.mem_singleton, exists_eq_left]
    rfl
  · rw [hactions, PeerSession.chargeSample_suspends_iff, Session.peerPhase, hnext, Option.map_some,
      Option.some.injEq, PeerSession.chargeSample_phase_iff hserved]
  · rw [hnext]
    rfl

/-- Three samples in a row against a report of seven units: the third finds the peer active and
suspends it. -/
theorem drift_handled_at_third_sample :
    DriftHandled Minicbor.derived samplePeer
      ((Session.machine Minicbor.derived).final paidSession
        [(.meterSample samplePeer ⟨0, 0⟩, 2), (.messageReceived samplePeer sampleReport, 3),
          (.meterSample samplePeer ⟨10, 0⟩, 4), (.meterSample samplePeer ⟨20, 0⟩, 5)])
      ⟨30, 0⟩ 6 [true, true, true] ∧
    (((Session.machine Minicbor.derived).final paidSession
        [(.meterSample samplePeer ⟨0, 0⟩, 2), (.messageReceived samplePeer sampleReport, 3),
          (.meterSample samplePeer ⟨10, 0⟩, 4), (.meterSample samplePeer ⟨20, 0⟩, 5)]).handle
      Minicbor.derived (.meterSample samplePeer ⟨30, 0⟩) 6).1.peerPhase samplePeer =
        some .suspended := by
  have hentry : paidSession.peers[samplePeer]? = some
      { PeerSession.new with phase := .active, balance := 5000, lastMeterAt := 1 } := by
    decide +kernel
  have hdrifts : (Session.machine Minicbor.derived).observe
      (Session.drift Minicbor.derived samplePeer ⟨0, 0⟩) paidSession
      [(.meterSample samplePeer ⟨0, 0⟩, 2), (.messageReceived samplePeer sampleReport, 3),
        (.meterSample samplePeer ⟨10, 0⟩, 4), (.meterSample samplePeer ⟨20, 0⟩, 5),
        (.meterSample samplePeer ⟨30, 0⟩, 6)] = [true, true, true] := by
    decide +kernel
  refine ⟨?_, by decide +kernel⟩
  rw [← hdrifts]
  exact drift_handled_by_history Minicbor.derived_lawful hentry rfl rfl ⟨0, 0⟩ 2
    [(.messageReceived samplePeer sampleReport, 3), (.meterSample samplePeer ⟨10, 0⟩, 4),
      (.meterSample samplePeer ⟨20, 0⟩, 5)] ⟨30, 0⟩ 6 (by decide +kernel) (by decide +kernel)

end Tollgate
