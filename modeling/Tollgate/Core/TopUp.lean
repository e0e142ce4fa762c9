import Tollgate.Core.AccessAgreement

/-!
# Top-ups

A peer pays in two events: its token arrives, and later the mint's verdict does. For a peer that is
already being metered this should be invisible to metering: an accepted top-up should only add to
the balance, and a refused one should change nothing.

`ServiceKept` states the second. It holds of no run (`refusedTopUp_never_keepsService`): the
verdict arm puts the peer back to `new` and blocks it, whatever its balance.

`TopUpTransparent` states the first, comparing the run with the two events inserted with the run
without them. The token arm has already taken the peer out of `active` when the verdict arrives, so
the verdict starts a fresh metering session. `topUpTransparent_iff` gives the runs on which that
makes no difference: those in which the peer had not been metered at all before the verdict, and
either is metered later or was activated at the very time of the verdict; and the credit must fit
the balance.
-/

set_option autoImplicit false
set_option relaxedAutoImplicit false

namespace Tollgate

open Std

/-! ### Refused top-ups -/

/-- What a refused top-up should leave of the service of `peer`: the phase, the access, the
metering, the balance, and the reading the next sample is billed from. -/
structure ServiceKept (peer : PeerId) (before after : Session)
    (emittedBefore emitted : List Action) : Prop where
  stays_active : after.peerPhase peer = some .active
  lets_through : LetThrough peer (emittedBefore ++ emitted)
  keeps_metering : Action.stopMetering peer ∉ emitted
  keeps_balance : after.peers[peer]?.map PeerSession.balance =
    before.peers[peer]?.map PeerSession.balance
  keeps_baseline : after.peers[peer]?.map PeerSession.meteringBaseline =
    before.peers[peer]?.map PeerSession.meteringBaseline
  keeps_reading : after.peers[peer]?.map
      (fun entry ↦ (entry.lastCounters, entry.lastMeterAt, entry.billedUnits)) =
    before.peers[peer]?.map
      (fun entry ↦ (entry.lastCounters, entry.lastMeterAt, entry.billedUnits))

/-- A refused verdict leaves no peer active. -/
theorem peerPhase_refused (cbor : Minicbor) (session : Session) (peer : PeerId) (amount : UInt64)
    (now : Millis) :
    (session.handle cbor (.bootstrapVerified peer amount false) now).1.peerPhase peer ≠
      some .active := by
  rw [Ne, peerPhase_eq_active_iff, (session.handle_self cbor peer now rfl).1,
    PeerEvent.of_bootstrapVerified]
  cases session.peers[peer]? with
  | none => simp [Entry.step]
  | some entry => simp [Entry.step, PeerSession.bootstrapVerified]

/-- For every session state, whatever was emitted before it, every message from the peer, every
events between it and the verdict, and every refused verdict: the service of the peer is not
kept. -/
theorem refusedTopUp_never_keepsService (cbor : Minicbor) (session : Session)
    (emittedBefore : List Action) (peer : PeerId) (bytes : Bytes) (tokenTime : Millis)
    (between : List (Event × Millis)) (amount : UInt64) (verdictTime : Millis) :
    ¬ ServiceKept peer session
      ((Session.machine cbor).final session
        ((.messageReceived peer bytes, tokenTime) :: between ++
          [(.bootstrapVerified peer amount false, verdictTime)]))
      emittedBefore
      ((Session.machine cbor).outputs session
        ((.messageReceived peer bytes, tokenTime) :: between ++
          [(.bootstrapVerified peer amount false, verdictTime)])) := by
  intro hkept
  have hactive := hkept.stays_active
  rw [Transducer.final_append, Transducer.final_cons, Transducer.final_nil] at hactive
  exact peerPhase_refused cbor _ peer amount verdictTime hactive

/-- A paying, metered peer sends a token that the mint refuses: it is active with credit before,
and its service is not kept. -/
theorem refusedTopUp_cuts_payingPeer :
    let paid := (Session.machine Minicbor.derived).final
      (Session.start ⟨0, 1⟩ MeteringPolicy.default)
      [(.peerConnected samplePeer, 0), (.bootstrapVerified samplePeer 5000 true, 1),
        (.meterSample samplePeer ⟨0, 0⟩, 2), (.meterSample samplePeer ⟨10, 0⟩, 3)]
    let topUp : List (Event × Millis) :=
      [(.messageReceived samplePeer sampleToken, 4), (.peerConnected samplePeer, 5),
        (.bootstrapVerified samplePeer 0 false, 6)]
    paid.peerPhase samplePeer = some .active ∧
      paid.peers[samplePeer]?.map PeerSession.balance = some 4990 ∧
      ¬ ServiceKept samplePeer paid ((Session.machine Minicbor.derived).final paid topUp)
        ((Session.machine Minicbor.derived).outputs
          (Session.start ⟨0, 1⟩ MeteringPolicy.default)
          [(.peerConnected samplePeer, 0), (.bootstrapVerified samplePeer 5000 true, 1),
            (.meterSample samplePeer ⟨0, 0⟩, 2), (.meterSample samplePeer ⟨10, 0⟩, 3)])
        ((Session.machine Minicbor.derived).outputs paid topUp) := by
  intro paid topUp
  refine ⟨by decide +kernel, by decide +kernel, fun hkept ↦ ?_⟩
  exact absurd hkept.stays_active (by decide +kernel)

/-! ### Metering events on one entry -/

namespace PeerEvent

/-- A meter reading. -/
def IsSample : PeerEvent → Prop
  | sample _ _ => True
  | _ => False

instance (event : PeerEvent) : Decidable event.IsSample := by
  cases event <;> unfold IsSample <;> infer_instance

/-- What meter readings and metering reports come to for the entry; a report that does not decode
is idle. -/
def IsMetering : PeerEvent → Prop
  | sample _ _ => True
  | report _ => True
  | idle => True
  | _ => False

end PeerEvent

namespace Entry

variable (cbor : Minicbor) (price : Price) (policy : MeteringPolicy) (peer : PeerId)

/-- Every sample of a run, with the charge it made and what was sent at it. -/
def meterLog (entry : Option PeerSession) (event : PeerEvent) :
    List (List Charge × List Action) :=
  match event with
  | .sample counters now =>
    [(charges price entry (.sample counters now),
      (step cbor price policy peer entry (.sample counters now)).2)]
  | _ => []

/-- The log has one line for each sample, wherever the run starts. -/
theorem length_meterLog (entry other : Option PeerSession) (events : List PeerEvent) :
    ((machine cbor price policy peer).observe (meterLog cbor price policy peer) entry
        events).length =
      ((machine cbor price policy peer).observe (meterLog cbor price policy peer) other
        events).length := by
  induction events generalizing entry other with
  | nil => rfl
  | cons event rest ih =>
    have hline : (meterLog cbor price policy peer entry event).length =
        (meterLog cbor price policy peer other event).length := by
      cases event <;> rfl
    rw [Transducer.observe_cons, Transducer.observe_cons, List.length_append, List.length_append,
      hline, ih]

/-- The report on file after a list of events. -/
def filed (onFile : Option Counters) : List PeerEvent → Option Counters
  | [] => onFile
  | .report report :: rest => filed (some ⟨report.delivered, report.received⟩) rest
  | _ :: rest => filed onFile rest

/-- Assumes: metering events that the entry is not metered at, because there is no sample among
them or because the entry is not active. They only change the report on file. -/
theorem final_unmetered {entry : PeerSession} {events : List PeerEvent}
    (hmetering : ∀ event ∈ events, event.IsMetering)
    (hquiet : entry.phase ≠ .active ∨ ∀ event ∈ events, ¬ event.IsSample) :
    (machine cbor price policy peer).final (some entry) events =
      some { entry with peerReport := filed entry.peerReport events } := by
  induction events generalizing entry with
  | nil => rfl
  | cons event rest ih =>
    have hrest : ∀ event ∈ rest, event.IsMetering := fun next hnext ↦
      hmetering next (List.mem_cons_of_mem _ hnext)
    have hlater : entry.phase ≠ .active ∨ ∀ event ∈ rest, ¬ event.IsSample :=
      hquiet.imp_right fun hnone next hnext ↦ hnone next (List.mem_cons_of_mem _ hnext)
    rw [Transducer.final_cons, machine_step]
    cases event with
    | idle => exact ih hrest hlater
    | report report =>
      rw [step_report]
      exact ih hrest hlater
    | sample counters now =>
      rcases hquiet with hphase | hnone
      · rw [step_sample_inactive cbor price policy peer hphase]
        exact ih hrest hlater
      · exact absurd trivial (hnone (.sample counters now) List.mem_cons_self)
    | _ => exact absurd (hmetering _ List.mem_cons_self) id

/-- Without a sample there is no line in the log. -/
theorem meterLog_of_no_sample (entry : Option PeerSession) {events : List PeerEvent}
    (hnone : ∀ event ∈ events, ¬ event.IsSample) :
    (machine cbor price policy peer).observe (meterLog cbor price policy peer) entry events =
      [] := by
  induction events generalizing entry with
  | nil => rfl
  | cons event rest ih =>
    have hline : meterLog cbor price policy peer entry event = [] := by
      cases event with
      | sample counters now => exact absurd trivial (hnone _ List.mem_cons_self)
      | _ => rfl
    rw [Transducer.observe_cons, hline, ih _ fun next hnext ↦
      hnone next (List.mem_cons_of_mem _ hnext), List.append_nil]

/-- The entry is suspended. -/
def Suspended (entry : Option PeerSession) : Prop :=
  ∃ tracked, entry = some tracked ∧ tracked.phase = .suspended

/-- Assumes: a charged sample that does not suspend an active entry. It leaves the entry active. -/
theorem phase_chargeSample {entry : PeerSession} (hphase : entry.phase = .active)
    {counters : Counters} {now : Millis}
    (hserved : ¬ Suspended (some (entry.chargeSample cbor peer price policy counters now).1)) :
    entry.cut counters price policy now = false ∧
      (entry.chargeSample cbor peer price policy counters now).1.phase = .active := by
  by_cases hcut : entry.cut counters price policy now = true
  · exact absurd ⟨_, rfl, by simp [PeerSession.chargeSample, hcut]⟩ hserved
  · refine ⟨Bool.not_eq_true _ ▸ hcut, ?_⟩
    simp [PeerSession.chargeSample, hcut, hphase]

/-- Assumes: a metering event that does not suspend an active entry. The entry stays active, and
has a last reading if it had one or if the event was a sample. -/
theorem step_metering {entry : PeerSession} (hphase : entry.phase = .active) {event : PeerEvent}
    (hmetering : event.IsMetering)
    (hserved : ¬ Suspended (step cbor price policy peer (some entry) event).1) :
    ∃ reached, (step cbor price policy peer (some entry) event).1 = some reached ∧
      reached.phase = .active ∧
      (entry.lastCounters.isSome = true ∨ event.IsSample → reached.lastCounters.isSome = true) := by
  cases event with
  | idle => exact ⟨entry, rfl, hphase, fun hcause ↦ hcause.resolve_right id⟩
  | report report => exact ⟨_, rfl, hphase, fun hcause ↦ hcause.resolve_right id⟩
  | sample counters now =>
    cases hread : entry.lastCounters with
    | none =>
      rw [step_sample_baseline cbor price policy peer hphase hread]
      exact ⟨_, rfl, hphase, fun _ ↦ rfl⟩
    | some last =>
      rw [step_sample_charge cbor price policy peer hphase (by rw [hread]; rfl)] at hserved ⊢
      exact ⟨_, rfl, (phase_chargeSample cbor price policy peer hphase hserved).2, fun _ ↦ rfl⟩
  | _ => exact absurd hmetering id

/-- Assumes: metering events that never suspend an active entry. The entry stays active, and has a
last reading if it had one or if there was a sample. -/
theorem final_metering {entry : PeerSession} (hphase : entry.phase = .active)
    {events : List PeerEvent} (hmetering : ∀ event ∈ events, event.IsMetering)
    (hserved : (machine cbor price policy peer).Throughout (fun state ↦ ¬ Suspended state)
      (some entry) events) :
    ∃ reached, (machine cbor price policy peer).final (some entry) events = some reached ∧
      reached.phase = .active ∧
      (entry.lastCounters.isSome = true ∨ (∃ event ∈ events, event.IsSample) →
        reached.lastCounters.isSome = true) := by
  induction events generalizing entry with
  | nil =>
    refine ⟨entry, rfl, hphase, ?_⟩
    rintro (hlast | ⟨event, hevent, -⟩)
    · exact hlast
    · exact absurd hevent List.not_mem_nil
  | cons event rest ih =>
    rw [Transducer.throughout_cons, machine_step] at hserved
    obtain ⟨next, hnext, hactive, hread⟩ := step_metering cbor price policy peer hphase
      (hmetering event List.mem_cons_self) (hserved.2 [] List.nil_prefix)
    rw [hnext] at hserved
    obtain ⟨reached, hfinal, hreached, hlast⟩ := ih hactive
      (fun later hlater ↦ hmetering later (List.mem_cons_of_mem _ hlater)) hserved.2
    rw [Transducer.final_cons, machine_step, hnext]
    refine ⟨reached, hfinal, hreached, ?_⟩
    rintro (hbefore | ⟨later, hlater, hsample⟩)
    · exact hlast (Or.inl (hread (Or.inl hbefore)))
    · rcases List.mem_cons.mp hlater with rfl | hlater
      · exact hlast (Or.inl (hread (Or.inr hsample)))
      · exact hlast (Or.inr ⟨later, hlater, hsample⟩)

/-! ### Two entries that differ in their credit -/

/-- Two entries that agree in everything but their balance, the second having `extra` more. -/
structure SameUpToBalance (extra : ℕ) (entry credited : PeerSession) : Prop where
  rest_eq : credited = { entry with balance := credited.balance }
  balance_eq : credited.balance.toNat = entry.balance.toNat + extra

/-- Assumes: a charged sample that does not cut the entry. Its charge is covered by the balance. -/
theorem covered_of_not_cut {entry : PeerSession} {counters : Counters} {now : Millis}
    (hcut : entry.cut counters price policy now = false) :
    (entry.balanceAfter counters price now).toNat +
        (PeerSession.chargeOf (entry.sampleCost counters price now)).toNat =
      entry.balance.toNat := by
  have hexhausted : entry.exhausted counters price now = false :=
    (Bool.or_eq_false_iff.mp hcut).1
  have hafter := entry.toNat_balanceAfter counters price now
  by_cases hpositive : 0 < entry.sampleCost counters price now
  · have hleft : entry.balanceAfter counters price now ≠ 0 := by
      intro hzero
      rw [PeerSession.exhausted, decide_eq_true hpositive, decide_eq_true hzero] at hexhausted
      exact absurd hexhausted (by decide)
    rw [Ne, UInt64.eq_zero_iff_toNat] at hleft
    omega
  · have hcharge := PeerSession.toNat_chargeOf (entry.sampleCost counters price now)
    have hzero : (0 : Int64).toInt = 0 := by decide
    rw [Int64.lt_iff_toInt_lt] at hpositive
    omega

/-- Assumes: two active entries that agree up to their balance, a metering event, and that it
suspends neither. They agree after it, and the event's line in the log is the same. -/
theorem SameUpToBalance.step {extra : ℕ} {entry credited : PeerSession}
    (hsame : SameUpToBalance extra entry credited) (hphase : entry.phase = .active)
    {event : PeerEvent} (hmetering : event.IsMetering)
    (hserved : ¬ Suspended (Entry.step cbor price policy peer (some entry) event).1)
    (hserved' : ¬ Suspended (Entry.step cbor price policy peer (some credited) event).1) :
    ∃ next next', (Entry.step cbor price policy peer (some entry) event).1 = some next ∧
      (Entry.step cbor price policy peer (some credited) event).1 = some next' ∧
      SameUpToBalance extra next next' ∧ next.phase = .active ∧
      meterLog cbor price policy peer (some entry) event =
        meterLog cbor price policy peer (some credited) event := by
  obtain ⟨hrest, hbalance⟩ := hsame
  generalize hmore : credited.balance = more at hrest hbalance
  subst hrest
  cases event with
  | idle => exact ⟨_, _, rfl, rfl, ⟨rfl, hbalance⟩, hphase, rfl⟩
  | report report => exact ⟨_, _, rfl, rfl, ⟨rfl, hbalance⟩, hphase, rfl⟩
  | sample counters now =>
    by_cases hread : entry.lastCounters = none
    · have hlines : ∀ balance, meterLog cbor price policy peer
          (some { entry with balance := balance }) (.sample counters now) = [([], [])] := by
        intro balance
        simp [meterLog, charges, hread, hphase, Entry.step, PeerSession.meterSample]
      have hfirst := step_sample_baseline cbor price policy peer hphase hread counters now
      have hsecond := @step_sample_baseline cbor price policy peer
        { entry with balance := more } hphase hread counters now
      refine ⟨_, _, congrArg Prod.fst hfirst, congrArg Prod.fst hsecond, ⟨rfl, hbalance⟩, hphase,
        ?_⟩
      exact (hlines entry.balance).trans (hlines more).symm
    · have hsome : entry.lastCounters.isSome = true := Option.isSome_iff_ne_none.mpr hread
      have hfirst := step_sample_charge cbor price policy peer hphase hsome counters now
      have hsecond := @step_sample_charge cbor price policy peer
        { entry with balance := more } hphase hsome counters now
      rw [hfirst] at hserved
      rw [hsecond] at hserved'
      obtain ⟨hcut, hactive⟩ := phase_chargeSample cbor price policy peer hphase hserved
      obtain ⟨hcut', -⟩ := @phase_chargeSample cbor price policy peer
        { entry with balance := more } hphase counters now hserved'
      have hcovered := covered_of_not_cut price policy hcut
      have hcovered' := covered_of_not_cut price policy hcut'
      refine ⟨_, _, congrArg Prod.fst hfirst, congrArg Prod.fst hsecond, ⟨?_, ?_⟩, hactive, ?_⟩
      · simp only [PeerSession.chargeSample, hcut, hcut']
        rfl
      · have hcost : ({ entry with balance := more } : PeerSession).sampleCost counters price now =
            entry.sampleCost counters price now := rfl
        simp only [PeerSession.chargeSample]
        rw [hcost] at hcovered'
        have hmore : ({ entry with balance := more } : PeerSession).balance.toNat =
          entry.balance.toNat + extra := hbalance
        omega
      · simp only [meterLog, hfirst, hsecond, PeerSession.chargeSample, hcut, hcut']
        rfl
  | _ => exact absurd hmetering id

/-- The run lemma of `SameUpToBalance.step`. -/
theorem SameUpToBalance.final {extra : ℕ} {entry credited : PeerSession}
    (hsame : SameUpToBalance extra entry credited) (hphase : entry.phase = .active)
    {events : List PeerEvent} (hmetering : ∀ event ∈ events, event.IsMetering)
    (hserved : (machine cbor price policy peer).Throughout (fun state ↦ ¬ Suspended state)
      (some entry) events)
    (hserved' : (machine cbor price policy peer).Throughout (fun state ↦ ¬ Suspended state)
      (some credited) events) :
    ∃ reached reached', (machine cbor price policy peer).final (some entry) events =
        some reached ∧
      (machine cbor price policy peer).final (some credited) events = some reached' ∧
      SameUpToBalance extra reached reached' ∧
      (machine cbor price policy peer).observe (meterLog cbor price policy peer) (some entry)
          events =
        (machine cbor price policy peer).observe (meterLog cbor price policy peer)
          (some credited) events := by
  induction events generalizing entry credited with
  | nil => exact ⟨entry, credited, rfl, rfl, hsame, rfl⟩
  | cons event rest ih =>
    rw [Transducer.throughout_cons, machine_step] at hserved hserved'
    obtain ⟨next, next', hnext, hnext', hstill, hactive, hline⟩ :=
      hsame.step cbor price policy peer hphase (hmetering event List.mem_cons_self)
        (hserved.2 [] List.nil_prefix) (hserved'.2 [] List.nil_prefix)
    rw [hnext] at hserved
    rw [hnext'] at hserved'
    obtain ⟨reached, reached', hfinal, hfinal', hend, hlog⟩ := ih hstill hactive
      (fun later hlater ↦ hmetering later (List.mem_cons_of_mem _ hlater)) hserved.2 hserved'.2
    refine ⟨reached, reached', ?_, ?_, hend, ?_⟩
    · rw [Transducer.final_cons, machine_step, hnext, hfinal]
    · rw [Transducer.final_cons, machine_step, hnext', hfinal']
    · rw [Transducer.observe_cons, Transducer.observe_cons, machine_step, machine_step, hnext,
        hnext', hline, hlog]

/-! ### A fresh metering session beside one that goes on -/

/-- Assumes: two active entries without a baseline that agree up to their balance and the time of
their activation, and metering events with a sample among them. The first sample is the baseline
of both, and they agree up to their balance from there on. -/
theorem sameUpToBalance_of_unmetered {extra : ℕ} {entry credited : PeerSession}
    (hrest : credited =
      { entry with balance := credited.balance, lastMeterAt := credited.lastMeterAt })
    (hbalance : credited.balance.toNat = entry.balance.toNat + extra)
    (hphase : entry.phase = .active) (hread : entry.lastCounters = none)
    {events : List PeerEvent} (hmetering : ∀ event ∈ events, event.IsMetering)
    (hsample : ∃ event ∈ events, event.IsSample)
    (hserved : (machine cbor price policy peer).Throughout (fun state ↦ ¬ Suspended state)
      (some entry) events)
    (hserved' : (machine cbor price policy peer).Throughout (fun state ↦ ¬ Suspended state)
      (some credited) events) :
    ∃ reached reached', (machine cbor price policy peer).final (some entry) events =
        some reached ∧
      (machine cbor price policy peer).final (some credited) events = some reached' ∧
      SameUpToBalance extra reached reached' ∧
      (machine cbor price policy peer).observe (meterLog cbor price policy peer) (some entry)
          events =
        (machine cbor price policy peer).observe (meterLog cbor price policy peer)
          (some credited) events := by
  induction events generalizing entry credited with
  | nil =>
    obtain ⟨event, hevent, -⟩ := hsample
    exact absurd hevent List.not_mem_nil
  | cons event rest ih =>
    have hlater : ∀ event ∈ rest, event.IsMetering := fun later hlater ↦
      hmetering later (List.mem_cons_of_mem _ hlater)
    have hphase' : credited.phase = .active := by rw [hrest]; exact hphase
    have hread' : credited.lastCounters = none := by rw [hrest]; exact hread
    have hstill (hnot : ¬ event.IsSample) : ∃ event ∈ rest, event.IsSample := by
      obtain ⟨found, hfound, hsample⟩ := hsample
      rcases List.mem_cons.mp hfound with rfl | hfound
      · exact absurd hsample hnot
      · exact ⟨found, hfound, hsample⟩
    rw [Transducer.throughout_cons, machine_step] at hserved hserved'
    simp only [Transducer.final_cons, Transducer.observe_cons, machine_step]
    cases event with
    | idle =>
      simpa only [step_idle, meterLog, List.nil_append] using
        ih hrest hbalance hphase hread hlater (hstill id) hserved.2 hserved'.2
    | report report =>
      have hrest' : (credited.receiveReport report).1 =
          { (entry.receiveReport report).1 with
            balance := credited.balance
            lastMeterAt := credited.lastMeterAt } := by
        rw [hrest]
        rfl
      exact @ih (entry.receiveReport report).1 (credited.receiveReport report).1 hrest' hbalance
        hphase hread hlater (hstill id) hserved.2 hserved'.2
    | sample counters now =>
      rw [step_sample_baseline cbor price policy peer hphase hread] at hserved ⊢
      rw [step_sample_baseline cbor price policy peer hphase' hread'] at hserved' ⊢
      have hsame : SameUpToBalance extra (entry.resetMetering counters now)
          (credited.resetMetering counters now) := by
        refine ⟨?_, hbalance⟩
        rw [hrest]
        rfl
      obtain ⟨reached, reached', hfinal, hfinal', hend, hlog⟩ :=
        hsame.final cbor price policy peer hphase hlater hserved.2 hserved'.2
      refine ⟨reached, reached', hfinal, hfinal', hend, ?_⟩
      rw [hlog]
      simp [meterLog, charges, hread, hread',
        step_sample_baseline cbor price policy peer hphase hread,
        step_sample_baseline cbor price policy peer hphase' hread']
    | _ => exact absurd (hmetering _ List.mem_cons_self) id

/-- Assumes: an active entry with a baseline and one without, and metering events. Either a sample
tells them apart, being charged to the first and taken as the baseline of the second, or there is
none and they end with different readings. -/
theorem differ_of_metered {entry fresh : PeerSession} (hphase : entry.phase = .active)
    (hread : entry.lastCounters.isSome = true) (hphase' : fresh.phase = .active)
    (hread' : fresh.lastCounters = none) {events : List PeerEvent}
    (hmetering : ∀ event ∈ events, event.IsMetering)
    (hlog : (machine cbor price policy peer).observe (meterLog cbor price policy peer)
        (some entry) events =
      (machine cbor price policy peer).observe (meterLog cbor price policy peer) (some fresh)
        events) :
    ((machine cbor price policy peer).final (some entry) events).map PeerSession.lastCounters ≠
      ((machine cbor price policy peer).final (some fresh) events).map
        PeerSession.lastCounters := by
  induction events generalizing entry fresh with
  | nil =>
    intro hend
    rw [Option.some.inj hend, hread'] at hread
    exact absurd hread (by decide)
  | cons event rest ih =>
    have hlater : ∀ event ∈ rest, event.IsMetering := fun later hlater ↦
      hmetering later (List.mem_cons_of_mem _ hlater)
    simp only [Transducer.final_cons, Transducer.observe_cons, machine_step] at hlog ⊢
    cases event with
    | idle => exact ih hphase hread hphase' hread' hlater hlog
    | report report =>
      rw [step_report, step_report] at hlog ⊢
      exact ih (by exact hphase) (by exact hread) (by exact hphase') (by exact hread') hlater hlog
    | sample counters now =>
      have hhead := (List.cons.inj hlog).1
      simp [charges, hphase, hread, hread'] at hhead
    | _ => exact absurd (hmetering _ List.mem_cons_self) id

/-! ### The two events of a top-up among metering events -/

/-- The entry of a peer whose accepted top-up began when it was active, with the report on file
when the verdict arrives. -/
def readmitted (entry : PeerSession) (amount : UInt64) (verdictTime : Millis)
    (onFile : Option Counters) : PeerSession :=
  { entry with
    balance := entry.balance.saturatingAdd amount
    phase := .active
    lastCounters := none
    lastMeterAt := verdictTime
    peerReport := onFile }

/-- From its token to its verdict a peer is not metered, and the verdict drops its baseline. -/
theorem final_topUp (entry : PeerSession) (message : BootstrapToken) (amount : UInt64)
    (verdictTime : Millis) {middle : List PeerEvent}
    (hmetering : ∀ event ∈ middle, event.IsMetering) :
    (machine cbor price policy peer).final (some entry)
        (.token message :: (middle ++ [PeerEvent.verified amount true verdictTime])) =
      some (readmitted entry amount verdictTime (filed entry.peerReport middle)) := by
  have hpending := @final_unmetered cbor price policy peer
    { entry with phase := .bootstrapPending } middle hmetering (Or.inl (by simp))
  rw [Transducer.final_cons, Transducer.final_append]
  simp only [machine_step, step, getMut_some, PeerSession.receiveToken]
  rw [hpending]
  rfl

/-- What a top-up should leave of metering on one entry: the same state but for the credit, and
the same log. -/
def TopUpTransparent (amount : UInt64) (entry : Option PeerSession)
    (plain toppedUp : List PeerEvent) : Prop :=
  ∃ reached, (machine cbor price policy peer).final entry plain = some reached ∧
    reached.balance.toNat + amount.toNat < 2 ^ 64 ∧
    (machine cbor price policy peer).final entry toppedUp =
      some { reached with balance := reached.balance + amount } ∧
    (machine cbor price policy peer).observe (meterLog cbor price policy peer) entry plain =
      (machine cbor price policy peer).observe (meterLog cbor price policy peer) entry toppedUp

/-- Assumes: an entry that is active and has no baseline, events without a sample up to the
verdict, and that neither run suspends the peer. The top-up is transparent exactly when the credit
fits and the activation that the verdict records is not seen: a sample follows, or it was at the
same time. -/
theorem topUpTransparent_iff_of_unmetered {entry : PeerSession} (hphase : entry.phase = .active)
    (hread : entry.lastCounters = none) (message : BootstrapToken) (amount : UInt64)
    (verdictTime : Millis) {front middle back : List PeerEvent}
    (hfront : ∀ event ∈ front, event.IsMetering) (hmiddle : ∀ event ∈ middle, event.IsMetering)
    (hback : ∀ event ∈ back, event.IsMetering)
    (hnone : ∀ event ∈ front ++ middle, ¬ event.IsSample)
    (hserved : (machine cbor price policy peer).Throughout (fun state ↦ ¬ Suspended state)
      (some entry) (front ++ middle ++ back))
    (hserved' : (machine cbor price policy peer).Throughout (fun state ↦ ¬ Suspended state)
      (some entry) (front ++ (PeerEvent.token message ::
        (middle ++ [PeerEvent.verified amount true verdictTime])) ++ back)) :
    TopUpTransparent cbor price policy peer amount (some entry) (front ++ middle ++ back)
        (front ++ (PeerEvent.token message ::
          (middle ++ [PeerEvent.verified amount true verdictTime])) ++ back) ↔
      entry.balance.toNat + amount.toNat < 2 ^ 64 ∧
        ((∃ event ∈ back, event.IsSample) ∨ verdictTime = entry.lastMeterAt) := by
  have hnone₁ : ∀ event ∈ front, ¬ event.IsSample := fun event hevent ↦
    hnone event (List.mem_append_left _ hevent)
  have hnone₂ : ∀ event ∈ middle, ¬ event.IsSample := fun event hevent ↦
    hnone event (List.mem_append_right _ hevent)
  set onFile := filed (filed entry.peerReport front) middle
  have hopened := @final_unmetered cbor price policy peer entry front hfront (Or.inr hnone₁)
  have hstill : (machine cbor price policy peer).final (some entry) (front ++ middle) =
      some { entry with peerReport := onFile } := by
    rw [Transducer.final_append, hopened]
    exact final_unmetered cbor price policy peer hmiddle (Or.inr hnone₂)
  have hadmitted : (machine cbor price policy peer).final (some entry)
      (front ++ (PeerEvent.token message ::
        (middle ++ [PeerEvent.verified amount true verdictTime]))) =
      some (readmitted entry amount verdictTime onFile) := by
    rw [Transducer.final_append, hopened, final_topUp cbor price policy peer _ _ _ _ hmiddle]
    rfl
  have hquiet := meterLog_of_no_sample cbor price policy peer (some entry) hnone
  have hquiet' : (machine cbor price policy peer).observe (meterLog cbor price policy peer)
      (some entry) (front ++ (PeerEvent.token message ::
        (middle ++ [PeerEvent.verified amount true verdictTime]))) =
      [] := by
    refine meterLog_of_no_sample cbor price policy peer _ fun event hevent ↦ ?_
    simp only [List.mem_append, List.mem_cons, List.not_mem_nil, or_false] at hevent
    rcases hevent with hevent | rfl | hevent | rfl
    · exact hnone₁ event hevent
    · exact id
    · exact hnone₂ event hevent
    · exact id
  rw [Transducer.throughout_append, hstill] at hserved
  rw [Transducer.throughout_append, hadmitted] at hserved'
  unfold TopUpTransparent
  simp only [Transducer.final_append _ _ _ back, Transducer.observe_append _ _ _ _ back, hstill,
    hadmitted, hquiet, hquiet', List.nil_append]
  -- What the verdict adds to the balance; less than the amount when it does not fit.
  have hadded : (entry.balance.saturatingAdd amount).toNat =
      entry.balance.toNat + min amount.toNat (2 ^ 64 - 1 - entry.balance.toNat) := by
    have := entry.balance.toNat_lt
    rw [UInt64.toNat_saturatingAdd]
    omega
  by_cases hsample : ∃ event ∈ back, event.IsSample
  · obtain ⟨reached, reached', hfinal, hfinal', hsame, hlog⟩ :=
      @sameUpToBalance_of_unmetered cbor price policy peer
        (min amount.toNat (2 ^ 64 - 1 - entry.balance.toNat))
        { entry with peerReport := onFile } (readmitted entry amount verdictTime onFile)
        (by simp [readmitted, hread, hphase]) hadded hphase hread back hback hsample hserved.2
        hserved'.2
    rw [hfinal, hfinal']
    have hbalance := hsame.balance_eq
    constructor
    · rintro ⟨found, hfound, hfits, hend, -⟩
      rw [← Option.some.inj hfound] at hfits hend
      rw [Option.some.inj hend, UInt64.toNat_add, Nat.mod_eq_of_lt hfits] at hbalance
      have := entry.balance.toNat_lt
      exact ⟨by omega, Or.inl hsample⟩
    · rintro ⟨hfits, -⟩
      have hsum : reached'.balance.toNat = reached.balance.toNat + amount.toNat := by omega
      have hlt : reached.balance.toNat + amount.toNat < 2 ^ 64 := by
        have := reached'.balance.toNat_lt
        omega
      refine ⟨reached, rfl, hlt, ?_, hlog⟩
      have hword : reached'.balance = reached.balance + amount := by
        rw [← UInt64.toNat_inj, UInt64.toNat_add, Nat.mod_eq_of_lt hlt, hsum]
      rw [hsame.rest_eq, hword]
  · have hnone₃ : ∀ event ∈ back, ¬ event.IsSample := fun event hevent hthis ↦
      hsample ⟨event, hevent, hthis⟩
    have hfinal := @final_unmetered cbor price policy peer { entry with peerReport := onFile }
      back hback (Or.inr hnone₃)
    have hfinal' := @final_unmetered cbor price policy peer
      (readmitted entry amount verdictTime onFile) back hback (Or.inr hnone₃)
    rw [hfinal, hfinal', meterLog_of_no_sample cbor price policy peer _ hnone₃,
      meterLog_of_no_sample cbor price policy peer _ hnone₃]
    constructor
    · rintro ⟨found, hfound, hfits, hend, -⟩
      rw [← Option.some.inj hfound] at hfits hend
      have hend := Option.some.inj hend
      exact ⟨hfits, Or.inr (congrArg PeerSession.lastMeterAt hend)⟩
    · rintro ⟨hfits, htime⟩
      have hword : entry.balance.saturatingAdd amount = entry.balance + amount := by
        rw [UInt64.saturatingAdd, if_pos hfits]
      refine ⟨_, rfl, hfits, ?_, rfl⟩
      rw [htime.resolve_left hsample]
      simp [readmitted, hread, hphase, hword]

/-- Assumes: an active entry, metering events around a top-up, and that neither run suspends the
peer. The top-up is transparent exactly when there was no metering before the verdict, the credit
fits, and the new activation time is not seen. -/
theorem entry_topUpTransparent_iff {entry : PeerSession} (hphase : entry.phase = .active)
    (message : BootstrapToken) (amount : UInt64) (verdictTime : Millis)
    {front middle back : List PeerEvent}
    (hfront : ∀ event ∈ front, event.IsMetering) (hmiddle : ∀ event ∈ middle, event.IsMetering)
    (hback : ∀ event ∈ back, event.IsMetering)
    (hserved : (machine cbor price policy peer).Throughout (fun state ↦ ¬ Suspended state)
      (some entry) (front ++ middle ++ back))
    (hserved' : (machine cbor price policy peer).Throughout (fun state ↦ ¬ Suspended state)
      (some entry) (front ++ (PeerEvent.token message ::
        (middle ++ [PeerEvent.verified amount true verdictTime])) ++ back)) :
    TopUpTransparent cbor price policy peer amount (some entry) (front ++ middle ++ back)
        (front ++ (PeerEvent.token message ::
          (middle ++ [PeerEvent.verified amount true verdictTime])) ++ back) ↔
      (entry.lastCounters = none ∧ ∀ event ∈ front ++ middle, ¬ event.IsSample) ∧
        entry.balance.toNat + amount.toNat < 2 ^ 64 ∧
        ((∃ event ∈ back, event.IsSample) ∨ verdictTime = entry.lastMeterAt) := by
  by_cases hunmetered : entry.lastCounters = none ∧ ∀ event ∈ front ++ middle, ¬ event.IsSample
  · rw [topUpTransparent_iff_of_unmetered cbor price policy peer hphase hunmetered.1 message amount
      verdictTime hfront hmiddle hback hunmetered.2 hserved hserved', and_iff_right hunmetered]
  · refine iff_of_false (fun htransparent ↦ ?_) fun hall ↦ hunmetered hall.1
    have hboth : ∀ event ∈ front ++ middle, event.IsMetering := fun event hevent ↦
      (List.mem_append.mp hevent).elim (hfront event) (hmiddle event)
    have hcause : entry.lastCounters.isSome = true ∨
        ∃ event ∈ front ++ middle, event.IsSample := by
      by_contra hneither
      obtain ⟨hread, hnone⟩ := not_or.mp hneither
      refine hunmetered ⟨Option.not_isSome_iff_eq_none.mp hread, fun event hevent hsample ↦ ?_⟩
      exact hnone ⟨event, hevent, hsample⟩
    -- The run without the top-up has a reading when it comes to `back`, the other has none.
    rw [Transducer.throughout_append] at hserved
    obtain ⟨metered, hmetered, hactive, hlast⟩ :=
      final_metering cbor price policy peer hphase hboth hserved.1
    obtain ⟨opened, hopened, -, -⟩ := final_metering cbor price policy peer hphase hfront
      ((Transducer.throughout_append _ _ _ front middle).mp hserved.1).1
    have hadmitted : (machine cbor price policy peer).final (some entry)
        (front ++ (PeerEvent.token message ::
          (middle ++ [PeerEvent.verified amount true verdictTime]))) =
        some (readmitted opened amount verdictTime (filed opened.peerReport middle)) := by
      rw [Transducer.final_append, hopened, final_topUp cbor price policy peer _ _ _ _ hmiddle]
    obtain ⟨reached, hfinal, -, hfinal', hlog⟩ := htransparent
    rw [Transducer.final_append, hmetered] at hfinal
    rw [Transducer.final_append, hadmitted] at hfinal'
    rw [Transducer.observe_append, Transducer.observe_append _ _ _ _ back, hmetered,
      hadmitted] at hlog
    have htail := (List.append_inj' hlog (length_meterLog cbor price policy peer _ _ back)).2
    refine differ_of_metered cbor price policy peer hactive (hlast hcause) rfl rfl hback htail ?_
    rw [hfinal, hfinal']
    rfl

end Entry

/-! ### Accepted top-ups in the session -/

/-- A meter reading of `peer`. -/
def SampleOf (peer : PeerId) (input : Event × Millis) : Prop :=
  ∃ counters, input.1 = .meterSample peer counters

/-- A metering report that `peer` sent. -/
def ReportFrom (cbor : Minicbor) (peer : PeerId) (input : Event × Millis) : Prop :=
  ∃ bytes, input.1 = .messageReceived peer bytes ∧ cbor.peekType bytes = some .meteringReport

/-- Every sample of `peer`, with the charge it made and what was sent at it. -/
def Session.meterLog (cbor : Minicbor) (peer : PeerId) (session : Session)
    (input : Event × Millis) : List (List Charge × List Action) :=
  match input.1 with
  | .meterSample other _ =>
    if other = peer then
      [(session.charges cbor peer input, (session.handle cbor input.1 input.2).2)]
    else []
  | _ => []

/-- What an accepted top-up should leave of metering: the run with it ends in the state of the run
without it, but for `amount` more in the balance of `peer`, and every sample is charged and
reported as in that run. -/
def TopUpTransparent (cbor : Minicbor) (peer : PeerId) (amount : UInt64) (session : Session)
    (plain toppedUp : List (Event × Millis)) : Prop :=
  ∃ entry, ((Session.machine cbor).final session plain).peers[peer]? = some entry ∧
    entry.balance.toNat + amount.toNat < 2 ^ 64 ∧
    (Session.machine cbor).final session toppedUp =
      { (Session.machine cbor).final session plain with
        peers := ((Session.machine cbor).final session plain).peers.insert peer
          { entry with balance := entry.balance + amount } } ∧
    (Session.machine cbor).observe (Session.meterLog cbor peer) session plain =
      (Session.machine cbor).observe (Session.meterLog cbor peer) session toppedUp

theorem PeerEvent.isSample_of_iff (cbor : Minicbor) {peer : PeerId} {input : Event × Millis} :
    (PeerEvent.of cbor peer input).IsSample ↔ SampleOf peer input := by
  constructor
  · intro hsample
    cases hseen : PeerEvent.of cbor peer input with
    | sample counters now =>
      rw [PeerEvent.of_eq_sample_iff] at hseen
      exact ⟨counters, by rw [hseen]⟩
    | _ =>
      rw [hseen] at hsample
      exact absurd hsample id
  · rintro ⟨counters, hevent⟩
    obtain ⟨event, now⟩ := input
    obtain rfl : event = .meterSample peer counters := hevent
    rw [PeerEvent.of_meterSample]
    trivial

theorem PeerEvent.isMetering_of {cbor : Minicbor} {peer : PeerId} {input : Event × Millis}
    (hinput : SampleOf peer input ∨ ReportFrom cbor peer input) :
    (PeerEvent.of cbor peer input).IsMetering := by
  obtain ⟨event, now⟩ := input
  rcases hinput with ⟨counters, hevent⟩ | ⟨bytes, hevent, hpeek⟩
  · obtain rfl : event = .meterSample peer counters := hevent
    rw [PeerEvent.of_meterSample]
    trivial
  · obtain rfl : event = .messageReceived peer bytes := hevent
    rw [PeerEvent.of_messageReceived, PeerEvent.ofMessage, hpeek]
    cases cbor.decodeMeteringReport bytes <;> trivial

/-- The log of the session is the log of the entry. -/
theorem meterLog_eq (cbor : Minicbor) (price : Price) (policy : MeteringPolicy) (peer : PeerId)
    (session : Session) (entry : Option PeerSession) (input : Event × Millis)
    (hentry : HasEntry price policy peer session entry) :
    session.meterLog cbor peer input =
      Entry.meterLog cbor price policy peer entry (PeerEvent.of cbor peer input) := by
  obtain ⟨rfl, rfl, rfl⟩ := hentry
  by_cases hsample : SampleOf peer input
  · obtain ⟨counters, hevent⟩ := hsample
    obtain ⟨event, now⟩ := input
    obtain rfl : event = .meterSample peer counters := hevent
    rw [PeerEvent.of_meterSample]
    have hself := @Session.handle_self cbor session peer (.meterSample peer counters) now rfl
    rw [PeerEvent.of_meterSample] at hself
    simp only [Session.meterLog, Entry.meterLog, if_true, Session.charges,
      PeerEvent.of_meterSample, hself.2]
  · have hleft : session.meterLog cbor peer input = [] := by
      unfold Session.meterLog
      split
      · next other counters hevent =>
        refine if_neg fun hpeer ↦ hsample ⟨counters, ?_⟩
        rw [hevent, hpeer]
      · rfl
    rw [hleft]
    rw [← PeerEvent.isSample_of_iff cbor] at hsample
    cases hseen : PeerEvent.of cbor peer input with
    | sample counters now =>
      rw [hseen] at hsample
      exact absurd trivial hsample
    | _ => rfl

/-- Assumes: every event is about `peer`. A run leaves the entries of other peers as they are. -/
theorem getElem?_final_of_ne {cbor : Minicbor} {peer other : PeerId} (hne : other ≠ peer)
    {events : List (Event × Millis)} (habout : ∀ input ∈ events, input.1.peer = some peer)
    (session : Session) :
    ((Session.machine cbor).final session events).peers[other]? = session.peers[other]? := by
  induction events generalizing session with
  | nil => rfl
  | cons input rest ih =>
    have hpeer : input.1.peer ≠ some other := by
      rw [habout input List.mem_cons_self]
      exact fun heq ↦ hne (Option.some.inj heq).symm
    rw [Transducer.final_cons, ih fun next hnext ↦ habout next (List.mem_cons_of_mem _ hnext)]
    exact (session.handle_frame cbor input.1 input.2).1 other hpeer

/-- Assumes: every event of both runs is about `peer`. The top-up is transparent in the session
exactly when it is on the peer's entry. -/
theorem topUpTransparent_iff_entry {cbor : Minicbor} {session : Session} {peer : PeerId}
    {amount : UInt64} {plain toppedUp : List (Event × Millis)}
    (hplain : ∀ input ∈ plain, input.1.peer = some peer)
    (htoppedUp : ∀ input ∈ toppedUp, input.1.peer = some peer) :
    TopUpTransparent cbor peer amount session plain toppedUp ↔
      Entry.TopUpTransparent cbor session.price session.policy peer amount session.peers[peer]?
        (plain.map (PeerEvent.of cbor peer)) (toppedUp.map (PeerEvent.of cbor peer)) := by
  have hsim := entrySimulation cbor session.price session.policy peer
  have hlog (events : List (Event × Millis)) :
      (Session.machine cbor).observe (Session.meterLog cbor peer) session events =
        (Entry.machine cbor session.price session.policy peer).observe
          (Entry.meterLog cbor session.price session.policy peer) session.peers[peer]?
          (events.map (PeerEvent.of cbor peer)) :=
    hsim.observe _ _ (meterLog_eq cbor session.price session.policy peer) ⟨rfl, rfl, rfl⟩ events
  unfold TopUpTransparent Entry.TopUpTransparent
  refine exists_congr fun entry ↦ ?_
  rw [getElem?_final, hlog, hlog]
  refine and_congr_right fun hfinal ↦ and_congr_right fun _ ↦ and_congr_left fun _ ↦ ?_
  obtain ⟨hprice, hpolicy⟩ := terms_final cbor session plain
  obtain ⟨hprice', hpolicy'⟩ := terms_final cbor session toppedUp
  constructor
  · intro hend
    rw [← getElem?_final, hend]
    simp
  · intro hend
    rw [← getElem?_final] at hend
    have hpeers : ((Session.machine cbor).final session toppedUp).peers =
        ((Session.machine cbor).final session plain).peers.insert peer
          { entry with balance := entry.balance + amount } := by
      refine ExtTreeMap.ext_getElem? fun other ↦ ?_
      by_cases hother : peer = other
      · rw [← hother, hend, ExtTreeMap.getElem?_insert_self]
      · have hne : other ≠ peer := fun heq ↦ hother heq.symm
        rw [ExtTreeMap.getElem?_insert, getElem?_final_of_ne hne htoppedUp,
          getElem?_final_of_ne hne hplain]
        simp [hother]
    exact Session.ext hpeers (hprice'.trans hprice.symm) (hpolicy'.trans hpolicy.symm)

/-- Assumes: an active peer, readings and reports of it in front of a top-up, between its token and
its verdict and behind it, and that neither the run with the top-up nor the one without suspends
the peer. The top-up is transparent exactly when the peer had no baseline and was not metered
before the verdict, the credit fits the balance, and either a reading follows or the peer was last
activated at the time of the verdict. -/
theorem topUpTransparent_iff {cbor : Minicbor} {session : Session} {peer : PeerId}
    {entry : PeerSession} (hentry : session.peers[peer]? = some entry)
    (hphase : entry.phase = .active) {bytes : Bytes} {message : BootstrapToken}
    (hpeek : cbor.peekType bytes = some .bootstrapToken)
    (hdecode : cbor.decodeBootstrapToken bytes = some message)
    (tokenTime : Millis) (amount : UInt64) (verdictTime : Millis)
    {front middle back : List (Event × Millis)}
    (hmetering : ∀ input ∈ front ++ middle ++ back,
      SampleOf peer input ∨ ReportFrom cbor peer input)
    (hserved : (Session.machine cbor).Throughout
      (fun session ↦ session.peerPhase peer ≠ some .suspended) session (front ++ middle ++ back))
    (hserved' : (Session.machine cbor).Throughout
      (fun session ↦ session.peerPhase peer ≠ some .suspended) session
      (front ++ ((.messageReceived peer bytes, tokenTime) ::
        (middle ++ [(.bootstrapVerified peer amount true, verdictTime)])) ++ back)) :
    TopUpTransparent cbor peer amount session (front ++ middle ++ back)
        (front ++ ((.messageReceived peer bytes, tokenTime) ::
          (middle ++ [(.bootstrapVerified peer amount true, verdictTime)])) ++ back) ↔
      (entry.lastCounters = none ∧ ∀ input ∈ front ++ middle, ¬ SampleOf peer input) ∧
        entry.balance.toNat + amount.toNat < 2 ^ 64 ∧
        ((∃ input ∈ back, SampleOf peer input) ∨ verdictTime = entry.lastMeterAt) := by
  have hplain : ∀ input ∈ front ++ middle ++ back, input.1.peer = some peer := by
    intro input hinput
    rcases hmetering input hinput with ⟨counters, hevent⟩ | ⟨bytes, hevent, -⟩
    · rw [hevent]
      rfl
    · rw [hevent]
      rfl
  have htoppedUp : ∀ input ∈ front ++ ((Event.messageReceived peer bytes, tokenTime) ::
      (middle ++ [(Event.bootstrapVerified peer amount true, verdictTime)])) ++ back,
      input.1.peer = some peer := by
    intro input hinput
    simp only [List.mem_append, List.mem_cons, List.not_mem_nil, or_false] at hinput hplain
    rcases hinput with (hinput | rfl | hinput | rfl) | hinput
    · exact hplain input (Or.inl (Or.inl hinput))
    · rfl
    · exact hplain input (Or.inl (Or.inr hinput))
    · rfl
    · exact hplain input (Or.inr hinput)
  have hsuspended (reached : Session) (view : Option PeerSession)
      (hview : HasEntry session.price session.policy peer reached view) :
      reached.peerPhase peer ≠ some .suspended ↔ ¬ Entry.Suspended view := by
    rw [Session.peerPhase, hview.2.2, Entry.Suspended, Ne, Option.map_eq_some_iff]
  have hsim := entrySimulation cbor session.price session.policy peer
  rw [hsim.throughout _ _ hsuspended ⟨rfl, rfl, rfl⟩, hentry] at hserved hserved'
  have htoken : PeerEvent.of cbor peer (.messageReceived peer bytes, tokenTime) =
      .token message := by
    rw [PeerEvent.of_messageReceived, PeerEvent.ofMessage_eq_token_iff]
    exact ⟨hpeek, hdecode⟩
  have hseen {part : List (Event × Millis)}
      (hpart : ∀ input ∈ part, input ∈ front ++ middle ++ back)
      (event : PeerEvent) (hevent : event ∈ part.map (PeerEvent.of cbor peer)) :
      event.IsMetering := by
    obtain ⟨input, hinput, rfl⟩ := List.mem_map.mp hevent
    exact PeerEvent.isMetering_of (hmetering input (hpart input hinput))
  rw [topUpTransparent_iff_entry hplain htoppedUp, hentry]
  simp only [List.map_append, List.map_cons, List.map_nil, htoken,
    PeerEvent.of_bootstrapVerified] at hserved hserved' ⊢
  rw [Entry.entry_topUpTransparent_iff cbor session.price session.policy peer hphase message amount
    verdictTime (hseen fun input hinput ↦ by simp [hinput])
    (hseen fun input hinput ↦ by simp [hinput]) (hseen fun input hinput ↦ by simp [hinput])
    hserved hserved', ← List.map_append]
  simp only [List.mem_map, exists_exists_and_eq_and, forall_exists_index, and_imp,
    forall_apply_eq_imp_iff₂, PeerEvent.isSample_of_iff]

/-- A peer with credit that has not been metered yet. -/
def paidSession : Session :=
  (Session.machine Minicbor.derived).final (Session.start ⟨0, 1⟩ MeteringPolicy.default)
    [(.peerConnected samplePeer, 0), (.bootstrapVerified samplePeer 5000 true, 1)]

/-- A top-up between activation and the first reading is transparent: the peer is billed the same
ten units. -/
theorem topUpTransparent_beforeBaseline :
    TopUpTransparent Minicbor.derived samplePeer 700 paidSession
      ([] ++ [] ++ [(.meterSample samplePeer ⟨3, 0⟩, 4), (.meterSample samplePeer ⟨13, 0⟩, 5)])
      ([] ++ ((.messageReceived samplePeer sampleToken, 2) ::
          ([] ++ [(.bootstrapVerified samplePeer 700 true, 3)])) ++
        [(.meterSample samplePeer ⟨3, 0⟩, 4), (.meterSample samplePeer ⟨13, 0⟩, 5)]) := by
  have hentry : paidSession.peers[samplePeer]? = some
      { PeerSession.new with phase := .active, balance := 5000, lastMeterAt := 1 } := by
    decide +kernel
  have hmetering : ∀ input ∈ [(Event.meterSample samplePeer ⟨3, 0⟩, (4 : Millis)),
      (.meterSample samplePeer ⟨13, 0⟩, 5)], SampleOf samplePeer input := by
    simp [SampleOf]
  have hdecode : Minicbor.derived.decodeBootstrapToken sampleToken =
      some (BootstrapToken.new [0x63, 0x61, 0x73, 0x68, 0x75]) := by
    decide +kernel
  refine (topUpTransparent_iff hentry rfl (by decide +kernel) hdecode 2 700 3
    (fun input hinput ↦ Or.inl (hmetering input hinput)) (by decide +kernel)
    (by decide +kernel)).mpr ⟨⟨rfl, by simp⟩, by decide, Or.inl ?_⟩
  exact ⟨_, List.mem_cons_self, hmetering _ List.mem_cons_self⟩

/-- A metered peer tops up while active: without the top-up the last reading is charged ten units,
with it that reading is the baseline of a new metering session and charges nothing. -/
theorem topUpTransparent_fails_on_meteredPeer :
    let plain : List (Event × Millis) :=
      [(.meterSample samplePeer ⟨0, 0⟩, 2), (.meterSample samplePeer ⟨10, 0⟩, 5)]
    let toppedUp : List (Event × Millis) :=
      [(.meterSample samplePeer ⟨0, 0⟩, 2), (.messageReceived samplePeer sampleToken, 3),
        (.bootstrapVerified samplePeer 700 true, 4), (.meterSample samplePeer ⟨10, 0⟩, 5)]
    paidSession.peerPhase samplePeer = some .active ∧
      (Session.machine Minicbor.derived).Throughout
        (fun session ↦ session.peerPhase samplePeer ≠ some .suspended) paidSession plain ∧
      (Session.machine Minicbor.derived).Throughout
        (fun session ↦ session.peerPhase samplePeer ≠ some .suspended) paidSession toppedUp ∧
      ¬ TopUpTransparent Minicbor.derived samplePeer 700 paidSession plain toppedUp := by
  refine ⟨by decide +kernel, by decide +kernel, by decide +kernel, ?_⟩
  rintro ⟨entry, -, -, -, hlog⟩
  exact absurd hlog (by decide +kernel)

end Tollgate
