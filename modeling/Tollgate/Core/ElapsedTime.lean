import Tollgate.Core.ExactBilling
import Tollgate.Protocol.RoundTrip

/-!
# Time on a clock that goes back

A charged sample bills the time since the sample before it, and nothing when its own time is
earlier; in either case it becomes the one that the next sample counts from. The time billed in a
metering session is so the sum of the rises of the sample times, which is more than the climb to the
highest of them as soon as the clock goes back and forward again. The time in a report is counted
from the baseline and never exceeds that climb.

`reached_in_session` describes the entry that a metering session has come to in front of one of its
events.
-/

set_option autoImplicit false
set_option relaxedAutoImplicit false

namespace Tollgate

open Std Increments

section Reached

variable {cbor : Minicbor} {session : Session} {peer : PeerId} {entry : PeerSession}

/-- Assumes: an active peer without a baseline. The run from its baseline sample, as its entry sees
it. -/
theorem along_from_baseline (hentry : session.peers[peer]? = some entry)
    (hphase : entry.phase = .active) (hread : entry.lastCounters = none) (baseline : Counters)
    (start : Millis) (condition : Option PeerSession → PeerEvent → Prop)
    (events : List (Event × Millis)) :
    (Session.machine cbor).Along
        (fun session input ↦ condition session.peers[peer]? (PeerEvent.of cbor peer input))
        (session.handle cbor (.meterSample peer baseline) start).1 events ↔
      (Entry.machine cbor session.price session.policy peer).Along condition
        (some (entry.resetMetering baseline start)) (events.map (PeerEvent.of cbor peer)) := by
  have hself := @Session.handle_self cbor session peer (.meterSample peer baseline) start rfl
  rw [PeerEvent.of_meterSample, hentry,
    Entry.step_sample_baseline cbor session.price session.policy peer hphase hread] at hself
  obtain ⟨-, hprice, hpolicy⟩ := session.handle_frame cbor (.meterSample peer baseline) start
  rw [along_entry condition, hself.1, hprice, hpolicy]

/-- Assumes: the same. The entry that a run from its baseline sample leads to. -/
theorem final_from_baseline (hentry : session.peers[peer]? = some entry)
    (hphase : entry.phase = .active) (hread : entry.lastCounters = none) (baseline : Counters)
    (start : Millis) (events : List (Event × Millis)) :
    ((Session.machine cbor).final session
      ((.meterSample peer baseline, start) :: events)).peers[peer]? =
      (Entry.machine cbor session.price session.policy peer).final
        (some (entry.resetMetering baseline start)) (events.map (PeerEvent.of cbor peer)) := by
  rw [getElem?_final, hentry, List.map_cons, PeerEvent.of_meterSample, Transducer.final_cons,
    Entry.machine_step,
    Entry.step_sample_baseline cbor session.price session.policy peer hphase hread]

/-- Assumes: an active peer without a baseline, and a run that starts with its baseline sample and
stays in that metering session. The entry in front of an event of the run: it has the baseline of
the session. -/
theorem reached_in_session (hentry : session.peers[peer]? = some entry)
    (hphase : entry.phase = .active) (hread : entry.lastCounters = none) {baseline : Counters}
    {start : Millis} {before after : List (Event × Millis)} {input : Event × Millis}
    (hsession : (Session.machine cbor).Along
      (fun session _ ↦ Entry.HasBaseline session.peers[peer]?)
      (session.handle cbor (.meterSample peer baseline) start).1 (before ++ input :: after)) :
    ∃ reached, ((Session.machine cbor).final session
        ((.meterSample peer baseline, start) :: before)).peers[peer]? = some reached ∧
      reached.lastCounters.isSome = true ∧ reached.meteringBaseline = baseline ∧
      reached.meteringStart = start := by
  rw [along_from_baseline hentry hphase hread baseline start
    (fun entry _ ↦ Entry.HasBaseline entry)] at hsession
  have hstarted := hsession.with_invariant (Entry.StartedAt baseline start)
    (fun entry event hentry hread ↦
      Entry.startedAt_step cbor session.price session.policy peer event hentry hread)
    (fun tracked htracked _ ↦ by rw [← Option.some.inj htracked]; exact ⟨rfl, rfl⟩)
  rw [List.map_append, List.map_cons] at hstarted
  have hcut := (Transducer.along_iff_forall_cut _ _ _ _).mp hstarted _ _ _ rfl
  obtain ⟨hat, reached, hreached, hlast⟩ := hcut
  rw [final_from_baseline hentry hphase hread]
  exact ⟨reached, hreached, hlast, hat reached hreached hlast⟩

end Reached

/-- What a sample does to a peer that is in a metering session and active: the charge. -/
theorem handle_sample_charge {cbor : Minicbor} {session : Session} {peer : PeerId}
    {entry : PeerSession} (hentry : session.peers[peer]? = some entry)
    (hphase : entry.phase = .active) (hread : entry.lastCounters.isSome = true)
    (counters : Counters) (now : Millis) :
    (session.handle cbor (.meterSample peer counters) now).1.peers[peer]? =
        some (entry.chargeSample cbor peer session.price session.policy counters now).1 ∧
      (session.handle cbor (.meterSample peer counters) now).2 =
        (entry.chargeSample cbor peer session.price session.policy counters now).2 := by
  have hself := @Session.handle_self cbor session peer (.meterSample peer counters) now rfl
  rwa [PeerEvent.of_meterSample, hentry,
    Entry.step_sample_charge cbor session.price session.policy peer hphase hread] at hself

/-- A peer that is not active is not metered. -/
theorem handle_sample_inactive {cbor : Minicbor} {session : Session} {peer : PeerId}
    {entry : PeerSession} (hentry : session.peers[peer]? = some entry)
    (hphase : entry.phase ≠ .active) (counters : Counters) (now : Millis) :
    (session.handle cbor (.meterSample peer counters) now).2 = [] := by
  have hself := @Session.handle_self cbor session peer (.meterSample peer counters) now rfl
  rw [PeerEvent.of_meterSample, hentry,
    Entry.step_sample_inactive cbor session.price session.policy peer hphase] at hself
  exact hself.2

/-- Assumes: a lawful codec. The only report that a charged sample sends is its own. -/
theorem PeerSession.chargeSample_report {cbor : Minicbor} (hlawful : cbor.Lawful) {peer : PeerId}
    {entry : PeerSession} {price : Price} {policy : MeteringPolicy} {counters : Counters}
    {now : Millis} {elapsedMs delivered received : UInt64}
    (hsent : .send peer (cbor.encodeMeteringReport
        (MeteringReport.new elapsedMs delivered received)) ∈
      (entry.chargeSample cbor peer price policy counters now).2) :
    elapsedMs = Millis.since now entry.meteringStart := by
  obtain ⟨warning, suspension, hactions, hrejects⟩ :=
    entry.chargeSample_sends cbor peer price policy counters now
  have hreport : cbor.encodeMeteringReport (MeteringReport.new elapsedMs delivered received) =
      cbor.encodeMeteringReport (entry.usageReport counters now) := by
    by_contra hother
    have hreject : .send peer (cbor.encodeMeteringReport
        (MeteringReport.new elapsedMs delivered received)) ∈ warning ++ suspension := by
      rw [hactions] at hsent
      simp only [List.mem_append, List.mem_singleton, Action.send.injEq, hother, and_false,
        or_false] at hsent ⊢
      exact hsent
    obtain ⟨reason, hreason⟩ := hrejects _ hreject
    have htype := hlawful.peekType_meteringReport elapsedMs delivered received
    rw [hreason, hlawful.peekType_reject] at htype
    exact absurd htype (by simp)
  have hdecoded := hlawful.decode_meteringReport elapsedMs delivered received
  rw [hreport, PeerSession.usageReport, hlawful.decode_meteringReport] at hdecoded
  exact (congrArg MeteringReport.elapsedMs (Option.some.inj hdecoded)).symm

/-! ### Time billed and time reported -/

/-- The times of the samples that charge `peer`. -/
def Session.sampleTimes (cbor : Minicbor) (peer : PeerId) (session : Session)
    (input : Event × Millis) : List ℕ :=
  Entry.atCharge (fun _ _ now ↦ now.toNat) session.peers[peer]? (PeerEvent.of cbor peer input)

/-- The sample times of a run that starts with the baseline sample, the baseline's own first. -/
def meteredTimes (cbor : Minicbor) (peer : PeerId) (session : Session) (baseline : Counters)
    (start : Millis) (events : List (Event × Millis)) : List ℕ :=
  start.toNat :: (Session.machine cbor).observe (Session.sampleTimes cbor peer) session
    ((.meterSample peer baseline, start) :: events)

/-- Neither the time billed since the baseline nor the time in a report exceeds what lies between
the baseline and the latest sample time. -/
structure TimeBilledOnce (cbor : Minicbor) (peer : PeerId) (session : Session)
    (baseline : Counters) (start : Millis) (events : List (Event × Millis)) : Prop where
  billed : (((Session.machine cbor).observe (Session.charges cbor peer) session
      ((.meterSample peer baseline, start) :: events)).map fun charge ↦ charge.elapsed.toNat).sum ≤
    peak (meteredTimes cbor peer session baseline start events) - start.toNat
  reported : ∀ before counters now after,
    events = before ++ (.meterSample peer counters, now) :: after →
    ∀ elapsedMs delivered received,
      .send peer (cbor.encodeMeteringReport (MeteringReport.new elapsedMs delivered received)) ∈
        (((Session.machine cbor).final session
          ((.meterSample peer baseline, start) :: before)).handle
          cbor (.meterSample peer counters) now).2 →
      elapsedMs.toNat ≤ peak (meteredTimes cbor peer session baseline start events) - start.toNat

/-- The peak is at least each value. -/
theorem le_peak {values : List ℕ} {value : ℕ} (hmem : value ∈ values) : value ≤ peak values := by
  induction values with
  | nil => exact absurd hmem List.not_mem_nil
  | cons first rest ih =>
    rw [peak_cons]
    rcases List.mem_cons.mp hmem with rfl | hrest
    · exact le_max_left _ _
    · exact (ih hrest).trans (le_max_right _ _)

section Metered

variable {cbor : Minicbor} {session : Session} {peer : PeerId} {entry : PeerSession}
  (hentry : session.peers[peer]? = some entry) (hphase : entry.phase = .active)
  (hread : entry.lastCounters = none) (baseline : Counters) (start : Millis)
  {events : List (Event × Millis)}
  (hsession : (Session.machine cbor).Along
    (fun session _ ↦ Entry.HasBaseline session.peers[peer]?)
    (session.handle cbor (.meterSample peer baseline) start).1 events)

include hentry hphase hread hsession

/-- The time billed is the sum of the rises of the sample times. -/
theorem elapsedCharged_eq_rises :
    (((Session.machine cbor).observe (Session.charges cbor peer) session
        ((.meterSample peer baseline, start) :: events)).map
          fun charge ↦ charge.elapsed.toNat).sum =
      rises start.toNat ((Session.machine cbor).observe (Session.sampleTimes cbor peer) session
        ((.meterSample peer baseline, start) :: events)) := by
  have hseen := (along_from_baseline hentry hphase hread baseline start
    (fun entry _ ↦ Entry.HasBaseline entry) events).mp hsession
  have htimes := observe_entry (Entry.atCharge fun _ _ now ↦ now.toNat) cbor session peer
    ((.meterSample peer baseline, start) :: events)
  rw [List.map_cons, PeerEvent.of_meterSample, hentry,
    observe_from_baseline _ hphase hread baseline start] at htimes
  rw [charges_from_baseline hentry hphase hread]
  refine (Entry.elapsed_eq_rises cbor session.price session.policy peer hseen).trans ?_
  exact congrArg _ htimes.symm

/-- Assumes: a lawful codec. The time in a report lies between the baseline and the latest sample
time, wherever the clock has been. -/
theorem reported_le_climb (hlawful : cbor.Lawful) {before after : List (Event × Millis)}
    {counters : Counters} {now : Millis}
    (hcut : events = before ++ (.meterSample peer counters, now) :: after)
    {elapsedMs delivered received : UInt64}
    (hsent : .send peer (cbor.encodeMeteringReport
        (MeteringReport.new elapsedMs delivered received)) ∈
      (((Session.machine cbor).final session ((.meterSample peer baseline, start) :: before)).handle
        cbor (.meterSample peer counters) now).2) :
    elapsedMs.toNat ≤
      peak (meteredTimes cbor peer session baseline start events) - start.toNat := by
  rw [hcut] at hsession
  obtain ⟨reached, hreached, hlast, -, hstart⟩ := reached_in_session hentry hphase hread hsession
  by_cases hactive : reached.phase = .active
  · rw [(handle_sample_charge hreached hactive hlast counters now).2] at hsent
    have helapsed := PeerSession.chargeSample_report hlawful hsent
    have hmem : now.toNat ∈ meteredTimes cbor peer session baseline start events := by
      refine List.mem_cons_of_mem _ ?_
      rw [hcut, ← List.cons_append, Transducer.observe_append, Transducer.observe_cons]
      refine List.mem_append_right _ (List.mem_append_left _ ?_)
      rw [Session.sampleTimes, hreached, PeerEvent.of_meterSample,
        Entry.atCharge_sample _ hactive hlast]
      exact List.mem_singleton_self _
    rw [helapsed, hstart, Millis.toNat_since]
    exact Nat.sub_le_sub_right (le_peak hmem) _
  · rw [handle_sample_inactive hreached hactive counters now] at hsent
    exact absurd hsent List.not_mem_nil

end Metered

/-- Assumes: a lawful codec, an active peer without a baseline, and a run that starts with its
baseline sample and stays in that metering session. No time is billed twice exactly when the sample
times, the baseline's included, never go back and then forward again. -/
theorem time_billed_once_iff {cbor : Minicbor} (hlawful : cbor.Lawful) {session : Session}
    {peer : PeerId} {entry : PeerSession} (hentry : session.peers[peer]? = some entry)
    (hphase : entry.phase = .active) (hread : entry.lastCounters = none) (baseline : Counters)
    (start : Millis) {events : List (Event × Millis)}
    (hsession : (Session.machine cbor).Along
      (fun session _ ↦ Entry.HasBaseline session.peers[peer]?)
      (session.handle cbor (.meterSample peer baseline) start).1 events) :
    TimeBilledOnce cbor peer session baseline start events ↔
      NeverRecovers (meteredTimes cbor peer session baseline start events) := by
  have hbilled := elapsedCharged_eq_rises hentry hphase hread baseline start hsession
  have hclimb := rises_le_climb_iff start.toNat ((Session.machine cbor).observe
    (Session.sampleTimes cbor peer) session ((.meterSample peer baseline, start) :: events))
  constructor
  · intro honce
    have hle := honce.billed
    rw [hbilled, meteredTimes, peak_cons] at hle
    exact hclimb.mp (by omega)
  · intro hnever
    have hle := hclimb.mpr hnever
    refine ⟨?_, fun before counters now after hcut elapsedMs delivered received hsent ↦ ?_⟩
    · rw [hbilled, meteredTimes, peak_cons]
      omega
    · exact reported_le_climb hentry hphase hread baseline start hsession hlawful hcut hsent

/-- A clock that only goes forward. -/
theorem time_billed_once_on_steady_clock :
    TimeBilledOnce Minicbor.derived samplePeer paidSession ⟨0, 0⟩ 1000
      [(.meterSample samplePeer ⟨1, 0⟩, 1100), (.meterSample samplePeer ⟨2, 0⟩, 1250)] := by
  have hentry : paidSession.peers[samplePeer]? = some
      { PeerSession.new with phase := .active, balance := 5000, lastMeterAt := 1 } := by
    decide +kernel
  refine (time_billed_once_iff Minicbor.derived_lawful hentry rfl rfl ⟨0, 0⟩ 1000
    (by decide +kernel)).mpr ?_
  have htimes : meteredTimes Minicbor.derived samplePeer paidSession ⟨0, 0⟩ 1000
      [(.meterSample samplePeer ⟨1, 0⟩, 1100), (.meterSample samplePeer ⟨2, 0⟩, 1250)] =
      [1000, 1100, 1250] := by
    decide +kernel
  rw [htimes]
  intro high low later hsub hlow
  have hall := hsub.eq_of_length rfl
  simp only [List.cons.injEq] at hall
  omega

/-- The clock is set back to the baseline once: a tenth of a second is billed twice. -/
theorem time_billed_twice_after_step_back :
    ¬ TimeBilledOnce Minicbor.derived samplePeer paidSession ⟨0, 0⟩ 1000
      [(.meterSample samplePeer ⟨1, 0⟩, 1100), (.meterSample samplePeer ⟨2, 0⟩, 1000),
        (.meterSample samplePeer ⟨3, 0⟩, 1100)] := by
  intro honce
  have hbilled := honce.billed
  exact absurd hbilled (by decide +kernel)

end Tollgate
