import Tollgate.Core.Billing

/-!
# Exact billing under monotone readings

A metering session whose readings, times and reports never decrease. `BilledExactly` collects what
the three paths of the code then agree on after each sample: the units and the time charged since
the baseline, the report that is sent, and the snapshot. `billedExactly_of_monotone` proves it for
every such session, from the sums of increments of `Billing`.
-/

set_option autoImplicit false
set_option relaxedAutoImplicit false

namespace Tollgate

open Std Increments

/-! ### Readings and reports of a run -/

/-- The reading an event brings. -/
def PeerEvent.reading : PeerEvent → Option (Counters × Millis)
  | sample counters now => some (counters, now)
  | _ => none

/-- The received count an event reports. -/
def PeerEvent.reported : PeerEvent → Option UInt64
  | report message => some message.received
  | _ => none

/-- The readings of `peer` in a run. -/
def readings (cbor : Minicbor) (peer : PeerId) (events : List (Event × Millis)) :
    List (Counters × Millis) :=
  (events.map (PeerEvent.of cbor peer)).filterMap PeerEvent.reading

/-- The received counts that `peer` reported in a run. -/
def reports (cbor : Minicbor) (peer : PeerId) (events : List (Event × Millis)) : List UInt64 :=
  (events.map (PeerEvent.of cbor peer)).filterMap PeerEvent.reported

/-- Neither a counter nor the time goes back from one reading to the other. -/
def Counters.NoDecrease (earlier later : Counters × Millis) : Prop :=
  earlier.1.delivered ≤ later.1.delivered ∧ earlier.1.received ≤ later.1.received ∧
    earlier.2 ≤ later.2

instance (earlier later : Counters × Millis) : Decidable (Counters.NoDecrease earlier later) :=
  inferInstanceAs (Decidable (_ ∧ _))

namespace Entry

variable (cbor : Minicbor) (price : Price) (policy : MeteringPolicy) (peer : PeerId)

/-! ### A metering session of an active entry -/

/-- An active entry with its baseline keeps it while it stays active. -/
theorem hasBaseline_along {entry : PeerSession} (hread : entry.lastCounters.isSome = true)
    {events : List PeerEvent}
    (hactive : (machine cbor price policy peer).Along (fun entry _ ↦ Active entry) (some entry)
      events) :
    (machine cbor price policy peer).Along (fun entry _ ↦ HasBaseline entry) (some entry)
      events := by
  have hboth := hactive.with_invariant (fun entry ↦ Active entry → HasBaseline entry)
    (fun entry event hentry hphase ↦ ?_) (fun _ ↦ ⟨entry, rfl, hread⟩)
  · exact hboth.mono fun state event hstate ↦ hstate.1 hstate.2
  · obtain ⟨tracked, rfl, hread⟩ := hentry hphase
    rw [active_some] at hphase
    have hstep := step_baselined cbor price policy peer hread event
    rw [machine_step]
    generalize (step cbor price policy peer (some tracked) event).1 = next at hstep
    intro hnext
    cases hstep with
    | tornDown hsample => exact absurd hnext active_none
    | readmitted next hfresh hother => exact absurd hphase hother
    | charged counters now hevent _ => exact ⟨_, rfl, rfl⟩
    | kept next hsame hreport hsample => exact ⟨next, rfl, hsame.lastCounters_eq ▸ hread⟩

/-- Where a metering session that stays active leads: it keeps the reading it started from, and has
the last report on file. -/
theorem final_active {entry : PeerSession} (hread : entry.lastCounters.isSome = true)
    {events : List PeerEvent}
    (hactive : (machine cbor price policy peer).Along (fun entry _ ↦ Active entry) (some entry)
      events)
    (hend : Active ((machine cbor price policy peer).final (some entry) events)) :
    ∃ reached, (machine cbor price policy peer).final (some entry) events = some reached ∧
      reached.lastCounters.isSome = true ∧ reached.meteringBaseline = entry.meteringBaseline ∧
      reached.meteringStart = entry.meteringStart ∧
      reached.peerReport = filed entry.peerReport events := by
  induction events generalizing entry with
  | nil => exact ⟨entry, rfl, hread, rfl, rfl, rfl⟩
  | cons event rest ih =>
    obtain ⟨hphase, hrest⟩ := hactive
    rw [active_some] at hphase
    rw [Transducer.final_cons] at hend ⊢
    rw [machine_step] at hrest hend ⊢
    have hfiled : filed entry.peerReport (event :: rest) =
        filed (filed entry.peerReport [event]) rest := by
      cases event <;> rfl
    rw [hfiled]
    have hstep := step_baselined cbor price policy peer hread event
    generalize (step cbor price policy peer (some entry) event).1 = next at hstep hrest hend ⊢
    cases hstep with
    | tornDown hsample =>
      exfalso
      cases rest with
      | nil => exact active_none hend
      | cons later others => exact active_none hrest.1
    | readmitted next hfresh hother => exact absurd hphase hother
    | charged counters now hevent _ =>
      obtain ⟨reached, hfinal, hlast, hbaseline, hstart, hreport⟩ := ih rfl hrest hend
      refine ⟨reached, hfinal, hlast, hbaseline, hstart, ?_⟩
      rw [hreport, hevent]
      rfl
    | kept next hsame hreport hsample =>
      obtain ⟨reached, hfinal, hlast, hbaseline, hstart, hlater⟩ :=
        ih (hsame.lastCounters_eq ▸ hread) hrest hend
      exact ⟨reached, hfinal, hlast, hbaseline.trans hsame.meteringBaseline_eq,
        hstart.trans hsame.meteringStart_eq, by rw [hlater, hreport]⟩

/-- In a metering session that stays active every reading is charged. -/
theorem observe_readings {α : Type*} (read : Counters → Millis → α) {entry : PeerSession}
    (hread : entry.lastCounters.isSome = true) {events : List PeerEvent}
    (hactive : (machine cbor price policy peer).Along (fun entry _ ↦ Active entry) (some entry)
      events) :
    (machine cbor price policy peer).observe (atCharge fun _ counters now ↦ read counters now)
        (some entry) events =
      (events.filterMap PeerEvent.reading).map fun reading ↦ read reading.1 reading.2 := by
  have hbaseline := hasBaseline_along cbor price policy peer hread hactive
  generalize some entry = state at hactive hbaseline
  induction events generalizing state with
  | nil => rfl
  | cons event rest ih =>
    rw [Transducer.observe_cons, ih _ hactive.2 hbaseline.2]
    obtain ⟨tracked, rfl, hlast⟩ := hbaseline.1
    have hphase := (active_some tracked).mp hactive.1
    cases event with
    | sample counters now =>
      rw [atCharge_sample _ hphase hlast]
      rfl
    | _ => rfl

/-- The last report on file is the last that was received. -/
theorem receivedOf_filed (onFile : Option Counters) (events : List PeerEvent) :
    receivedOf (filed onFile events) =
      (((events.filterMap PeerEvent.reported).map UInt64.toNat).getLast?).getD
        (receivedOf onFile) := by
  induction events generalizing onFile with
  | nil => rfl
  | cons event rest ih =>
    cases event with
    | report message =>
      rw [filed, ih]
      simp [PeerEvent.reported, receivedOf, List.getLast?_cons]
    | _ =>
      rw [filed, ih]
      · rfl
      · simp

/-- Assumes: an active entry in a metering session, readings from `current` on that never decrease,
and reports that never decrease from the one on file. The reconciled figures never decrease. -/
theorem reconciled_sorted {entry : PeerSession} (hread : entry.lastCounters.isSome = true)
    {current : Counters × Millis} {events : List PeerEvent}
    (hactive : (machine cbor price policy peer).Along (fun entry _ ↦ Active entry) (some entry)
      events)
    (hreadings : (current :: events.filterMap PeerEvent.reading).Pairwise Counters.NoDecrease)
    (hreports : (receivedOf entry.peerReport ::
      (events.filterMap PeerEvent.reported).map UInt64.toNat).Pairwise (· ≤ ·)) :
    (max (current.1.delivered.toNat - entry.meteringBaseline.delivered.toNat)
        (receivedOf entry.peerReport) ::
      (machine cbor price policy peer).observe (reconciled entry.meteringBaseline) (some entry)
        events).Pairwise (· ≤ ·) := by
  induction events generalizing entry current with
  | nil => simp
  | cons event rest ih =>
    obtain ⟨hphase, hrest⟩ := hactive
    rw [active_some] at hphase
    rw [Transducer.observe_cons]
    rw [machine_step] at hrest ⊢
    have hstep := step_baselined cbor price policy peer hread event
    generalize (step cbor price policy peer (some entry) event).1 = next at hstep hrest ⊢
    cases hstep with
    | tornDown hsample =>
      rw [reconciled, atCharge_of_not _ (Or.inr hsample), List.nil_append]
      cases rest with
      | nil => simp
      | cons later others => exact absurd hrest.1 active_none
    | readmitted next hfresh hother => exact absurd hphase hother
    | charged counters now hevent _ =>
      subst hevent
      obtain ⟨hnext, hlater⟩ := List.pairwise_cons.mp hreadings
      have hgrown := UInt64.le_iff_toNat_le.mp (hnext (counters, now) List.mem_cons_self).1
      have hsorted := ih rfl hrest hlater hreports
      rw [reconciled, atCharge_sample _ hphase hread]
      have hle : max (current.1.delivered.toNat - entry.meteringBaseline.delivered.toNat)
          (receivedOf entry.peerReport) ≤
          max (counters.delivered.toNat - entry.meteringBaseline.delivered.toNat)
            (receivedOf entry.peerReport) := by
        have hgrown' : current.1.delivered.toNat ≤ counters.delivered.toNat := hgrown
        omega
      refine List.pairwise_cons.mpr ⟨fun figure hfigure ↦ ?_, hsorted⟩
      rcases List.mem_cons.mp hfigure with rfl | hfigure
      · exact hle
      · exact hle.trans ((List.pairwise_cons.mp hsorted).1 figure hfigure)
    | kept next hsame hreport hsample =>
      have hnot : ¬ event.IsSample := hsample.resolve_left fun hother ↦ hother hphase
      rw [reconciled, atCharge_of_not _ (Or.inr hnot), List.nil_append]
      have hreading : (event :: rest).filterMap PeerEvent.reading =
          rest.filterMap PeerEvent.reading := by
        cases event with
        | sample counters now => exact absurd trivial hnot
        | _ => rfl
      rw [hreading] at hreadings
      have hfiled : receivedOf entry.peerReport ≤ receivedOf next.peerReport ∧
          (receivedOf next.peerReport ::
            (rest.filterMap PeerEvent.reported).map UInt64.toNat).Pairwise (· ≤ ·) := by
        rw [hreport]
        cases event with
        | report message =>
          obtain ⟨hnext, hlater⟩ := List.pairwise_cons.mp hreports
          exact ⟨hnext _ List.mem_cons_self, hlater⟩
        | _ => exact ⟨le_rfl, hreports⟩
      have hsorted := ih (hsame.lastCounters_eq ▸ hread) hrest hreadings hfiled.2
      rw [hsame.meteringBaseline_eq] at hsorted
      obtain ⟨hfirst, hothers⟩ := List.pairwise_cons.mp hsorted
      refine List.pairwise_cons.mpr ⟨fun figure hfigure ↦ ?_, hothers⟩
      have hle := hfirst figure hfigure
      omega

/-- Assumes: an active entry whose metering session starts at `baseline`, and readings and reports
that never decrease. The units charged up to a sample are its reconciled figure. -/
theorem units_exact {entry : PeerSession} {baseline counters : Counters} {start now : Millis}
    {events : List PeerEvent}
    (hactive : (machine cbor price policy peer).Along (fun entry _ ↦ Active entry)
      (some (entry.resetMetering baseline start)) (events ++ [PeerEvent.sample counters now]))
    (hreadings : ((baseline, start) ::
      (events ++ [PeerEvent.sample counters now]).filterMap PeerEvent.reading).Pairwise
        Counters.NoDecrease)
    (hreports : (events.filterMap PeerEvent.reported).Pairwise (· ≤ ·)) :
    (((machine cbor price policy peer).observe (charges price)
        (some (entry.resetMetering baseline start)) (events ++ [PeerEvent.sample counters now])).map
        fun charge ↦ charge.units.toNat).sum =
      max (counters.delivered.toNat - baseline.delivered.toNat)
        (((events.filterMap PeerEvent.reported).map UInt64.toNat).getLast?.getD 0) := by
  have hbaseline := hasBaseline_along cbor price policy peer rfl hactive
  obtain ⟨hfront, hend⟩ := (Transducer.along_append _ _ _ _ _).mp hactive
  obtain ⟨reached, hfinal, hlast, -, -, hreport⟩ :=
    final_active cbor price policy peer rfl hfront hend.1
  have hphase : reached.phase = .active := by
    have hphase := hend.1
    rwa [hfinal, active_some] at hphase
  have hreported : (events ++ [PeerEvent.sample counters now]).filterMap PeerEvent.reported =
      events.filterMap PeerEvent.reported := by
    simp [List.filterMap_append, PeerEvent.reported]
  have hsortedReports : (receivedOf (entry.resetMetering baseline start).peerReport ::
      ((events ++ [PeerEvent.sample counters now]).filterMap PeerEvent.reported).map
        UInt64.toNat).Pairwise (· ≤ ·) := by
    rw [hreported]
    refine List.pairwise_cons.mpr ⟨fun _ _ ↦ Nat.zero_le _, ?_⟩
    exact List.pairwise_map.mpr (hreports.imp fun hle ↦ UInt64.le_iff_toNat_le.mp hle)
  have hsorted := reconciled_sorted cbor price policy peer rfl hactive hreadings hsortedReports
  have hzero : max (baseline.delivered.toNat -
      (entry.resetMetering baseline start).meteringBaseline.delivered.toNat)
      (receivedOf (entry.resetMetering baseline start).peerReport) = 0 := by
    simp [PeerSession.resetMetering, receivedOf]
  have hsample : (machine cbor price policy peer).observe
      (reconciled (entry.resetMetering baseline start).meteringBaseline)
      (some (entry.resetMetering baseline start)) (events ++ [PeerEvent.sample counters now]) =
      (machine cbor price policy peer).observe
          (reconciled (entry.resetMetering baseline start).meteringBaseline)
          (some (entry.resetMetering baseline start)) events ++
        [max (counters.delivered.toNat - baseline.delivered.toNat)
          (receivedOf reached.peerReport)] := by
    rw [Transducer.observe_append, hfinal, Transducer.observe_cons, Transducer.observe_nil,
      List.append_nil, reconciled, atCharge_sample _ hphase hlast]
    rfl
  rw [hzero, hsample] at hsorted
  have htelescope := rises_of_sorted hsorted
  have hstart : (entry.resetMetering baseline start).billedUnits.toNat = 0 := rfl
  rw [units_eq_rises cbor price policy peer hbaseline,
    observe_reconciled cbor price policy peer hbaseline, hstart, hsample]
  rw [Nat.zero_add] at htelescope
  rw [htelescope, hreport, receivedOf_filed]
  rfl

/-- Assumes: an active entry whose metering session starts at `start`, and readings that never
decrease. The time charged up to a sample is the time since the start. -/
theorem elapsed_exact {entry : PeerSession} {baseline counters : Counters} {start now : Millis}
    {events : List PeerEvent}
    (hactive : (machine cbor price policy peer).Along (fun entry _ ↦ Active entry)
      (some (entry.resetMetering baseline start)) (events ++ [PeerEvent.sample counters now]))
    (hreadings : ((baseline, start) ::
      (events ++ [PeerEvent.sample counters now]).filterMap PeerEvent.reading).Pairwise
        Counters.NoDecrease) :
    (((machine cbor price policy peer).observe (charges price)
        (some (entry.resetMetering baseline start)) (events ++ [PeerEvent.sample counters now])).map
        fun charge ↦ charge.elapsed.toNat).sum =
      now.toNat - start.toNat := by
  have hbaseline := hasBaseline_along cbor price policy peer rfl hactive
  rw [elapsed_eq_rises cbor price policy peer hbaseline,
    observe_readings cbor price policy peer (fun _ now ↦ now.toNat) rfl hactive]
  have hlast : ((events ++ [PeerEvent.sample counters now]).filterMap PeerEvent.reading).map
      (fun reading ↦ reading.2.toNat) =
      (events.filterMap PeerEvent.reading).map (fun reading ↦ reading.2.toNat) ++
        [now.toNat] := by
    simp [List.filterMap_append, PeerEvent.reading]
  have hsorted : (start.toNat :: ((events.filterMap PeerEvent.reading).map
      (fun reading ↦ reading.2.toNat) ++ [now.toNat])).Pairwise (· ≤ ·) := by
    rw [← hlast]
    have htimes := hreadings.imp fun hle ↦ UInt64.le_iff_toNat_le.mp hle.2.2
    exact List.pairwise_map.mpr htimes
  have htelescope := rises_of_sorted hsorted
  have hstart : (entry.resetMetering baseline start).lastMeterAt = start := rfl
  rw [hlast, hstart]
  omega

end Entry

/-! ### The session -/

/-- What the charges, the report and the snapshot show after a sample of a metering session that
started at `baseline`, and that a report on file before the baseline plays no part in it. -/
structure BilledExactly (cbor : Minicbor) (peer : PeerId) (session : Session)
    (baseline : Counters) (start : Millis) (events : List (Event × Millis)) (counters : Counters)
    (now : Millis) : Prop where
  units_eq : (((Session.machine cbor).observe (Session.charges cbor peer) session
      ((.meterSample peer baseline, start) :: (events ++ [(.meterSample peer counters, now)]))).map
      fun charge ↦ charge.units.toNat).sum =
    max (counters.delivered.toNat - baseline.delivered.toNat)
      (((reports cbor peer events).map UInt64.toNat).getLast?.getD 0)
  elapsed_eq : (((Session.machine cbor).observe (Session.charges cbor peer) session
      ((.meterSample peer baseline, start) :: (events ++ [(.meterSample peer counters, now)]))).map
      fun charge ↦ charge.elapsed.toNat).sum = now.toNat - start.toNat
  report_sent : ∃ warning suspension,
    (((Session.machine cbor).final session ((.meterSample peer baseline, start) :: events)).handle
        cbor (.meterSample peer counters) now).2 =
      warning ++ [.send peer (cbor.encodeMeteringReport (MeteringReport.new (now - start)
        (counters.delivered - baseline.delivered) (counters.received - baseline.received)))] ++
        suspension ∧
    ∀ bytes, Action.send peer bytes ∈ warning ++ suspension →
      ∃ reason, bytes = cbor.encodeReject (Reject.new .meteringReport reason)
  snapshot_shown : ∃ view ∈ ((Session.machine cbor).final session
      ((.meterSample peer baseline, start) ::
        (events ++ [(.meterSample peer counters, now)]))).snapshot, view.peer = peer
  snapshot_eq : ∀ view ∈ ((Session.machine cbor).final session
      ((.meterSample peer baseline, start) ::
        (events ++ [(.meterSample peer counters, now)]))).snapshot, view.peer = peer →
      view.delivered = counters.delivered - baseline.delivered ∧
        view.received = counters.received - baseline.received
  earlier_report : ∀ entry onFile, session.peers[peer]? = some entry →
    (Session.machine cbor).final
        { session with peers := session.peers.insert peer { entry with peerReport := onFile } }
        ((.meterSample peer baseline, start) :: (events ++ [(.meterSample peer counters, now)])) =
      (Session.machine cbor).final session
        ((.meterSample peer baseline, start) :: (events ++ [(.meterSample peer counters, now)])) ∧
    (Session.machine cbor).outputs
        { session with peers := session.peers.insert peer { entry with peerReport := onFile } }
        ((.meterSample peer baseline, start) :: (events ++ [(.meterSample peer counters, now)])) =
      (Session.machine cbor).outputs session
        ((.meterSample peer baseline, start) :: (events ++ [(.meterSample peer counters, now)]))

/-- The sends of a charged sample are its report and, around it, rejections. -/
theorem PeerSession.chargeSample_sends (cbor : Minicbor) (peer : PeerId) (entry : PeerSession)
    (price : Price) (policy : MeteringPolicy) (counters : Counters) (now : Millis) :
    ∃ warning suspension,
      (entry.chargeSample cbor peer price policy counters now).2 =
        warning ++
          [Action.send peer (cbor.encodeMeteringReport (entry.usageReport counters now))] ++
          suspension ∧
      ∀ bytes, Action.send peer bytes ∈ warning ++ suspension →
        ∃ reason, bytes = cbor.encodeReject (Reject.new .meteringReport reason) := by
  refine ⟨_, _, rfl, fun bytes hsend ↦ ?_⟩
  rcases List.mem_append.mp hsend with hsend | hsend
  · split_ifs at hsend with hover
    · exact ⟨_, by simpa using hsend⟩
    · exact absurd hsend List.not_mem_nil
  · split_ifs at hsend with hcut hexhausted
    · exact ⟨_, by simpa using hsend⟩
    · exact absurd hsend (by simp)
    · exact absurd hsend List.not_mem_nil

/-- Before the baseline the report on file plays no part: the baseline sample drops it. -/
theorem handle_baseline_report (cbor : Minicbor) {session : Session} {peer : PeerId}
    {entry : PeerSession} (hentry : session.peers[peer]? = some entry)
    (hphase : entry.phase = .active) (hread : entry.lastCounters = none)
    (onFile : Option Counters) (baseline : Counters) (start : Millis) :
    ({ session with peers := session.peers.insert peer { entry with peerReport := onFile } } :
        Session).handle cbor (.meterSample peer baseline) start =
      session.handle cbor (.meterSample peer baseline) start := by
  simp only [Session.handle, Session.getMut, hentry, ExtTreeMap.getElem?_insert_self,
    PeerSession.meterSample, hphase, hread, if_true]
  refine Prod.ext (Session.ext ?_ rfl rfl) rfl
  refine ExtTreeMap.ext_getElem? fun other ↦ ?_
  by_cases hother : peer = other
  · simp [hother, hphase, PeerSession.resetMetering]
  · simp [ExtTreeMap.getElem?_insert, hother]

/-- Assumes: an active peer without a baseline, a run of a metering session that ends in a sample
of the peer, with the peer active at every event of it, and readings that never decrease. The state
in front of that sample: it charges, and its counts since the baseline are plain differences. -/
theorem reached_before_sample {cbor : Minicbor} {session : Session} {peer : PeerId}
    {entry : PeerSession} (hentry : session.peers[peer]? = some entry)
    (hread : entry.lastCounters = none) {baseline : Counters} {start : Millis}
    {events : List (Event × Millis)} {counters : Counters} {now : Millis}
    (hactive : (Session.machine cbor).Along
      (fun session _ ↦ session.peerPhase peer = some .active) session
      ((.meterSample peer baseline, start) :: (events ++ [(Event.meterSample peer counters, now)])))
    (hreadings : (readings cbor peer ((.meterSample peer baseline, start) ::
      (events ++ [(Event.meterSample peer counters, now)]))).Pairwise Counters.NoDecrease) :
    entry.phase = .active ∧
      (Entry.machine cbor session.price session.policy peer).Along
        (fun entry _ ↦ Entry.Active entry) (some (entry.resetMetering baseline start))
        (events.map (PeerEvent.of cbor peer) ++ [PeerEvent.sample counters now]) ∧
      ∃ reached, ((Session.machine cbor).final session
          ((.meterSample peer baseline, start) :: events)).peers[peer]? = some reached ∧
        reached.phase = .active ∧ reached.lastCounters.isSome = true ∧
        reached.ourDelivered counters = counters.delivered - baseline.delivered ∧
        reached.ourReceived counters = counters.received - baseline.received ∧
        reached.usageReport counters now = MeteringReport.new (now - start)
          (counters.delivered - baseline.delivered) (counters.received - baseline.received) := by
  simp only [peerPhase_eq_active_iff] at hactive
  rw [along_entry (fun entry _ ↦ Entry.Active entry), hentry] at hactive
  simp only [List.map_cons, List.map_append, List.map_nil, PeerEvent.of_meterSample] at hactive
  have hphase : entry.phase = .active := (Entry.active_some entry).mp hactive.1
  rw [Transducer.along_cons, Entry.machine_step,
    Entry.step_sample_baseline cbor session.price session.policy peer hphase hread] at hactive
  obtain ⟨hfront, hend⟩ := (Transducer.along_append _ _ _ _ _).mp hactive.2
  obtain ⟨reached, hfinal, hlast, hbaseline, hstart, -⟩ :=
    Entry.final_active cbor session.price session.policy peer rfl hfront hend.1
  have hserved : reached.phase = .active := by
    have hserved := hend.1
    rwa [hfinal, Entry.active_some] at hserved
  have hreached : ((Session.machine cbor).final session
      ((.meterSample peer baseline, start) :: events)).peers[peer]? = some reached := by
    rw [getElem?_final, hentry, List.map_cons, PeerEvent.of_meterSample,
      Transducer.final_cons, Entry.machine_step,
      Entry.step_sample_baseline cbor session.price session.policy peer hphase hread]
    exact hfinal
  -- The sample is not below the baseline, so the saturating differences are differences.
  have hgrown : Counters.NoDecrease (baseline, start) (counters, now) := by
    simp only [readings, List.map_cons, List.map_append, List.map_nil,
      PeerEvent.of_meterSample] at hreadings
    refine (List.pairwise_cons.mp hreadings).1 (counters, now) ?_
    simp [List.filterMap_append, PeerEvent.reading]
  have hdelivered : reached.ourDelivered counters = counters.delivered - baseline.delivered := by
    rw [PeerSession.ourDelivered, hbaseline]
    exact UInt64.saturatingSub_of_le hgrown.1
  have hreceived : reached.ourReceived counters = counters.received - baseline.received := by
    rw [PeerSession.ourReceived, hbaseline]
    exact UInt64.saturatingSub_of_le hgrown.2.1
  refine ⟨hphase, hactive.2, reached, hreached, hserved, hlast, hdelivered, hreceived, ?_⟩
  rw [PeerSession.usageReport, hdelivered, hreceived, hstart]
  congr 1
  exact UInt64.saturatingSub_of_le hgrown.2.2

/-- The charges of a run that starts with the baseline sample are those after it. -/
theorem charges_from_baseline {cbor : Minicbor} {session : Session} {peer : PeerId}
    {entry : PeerSession} (hentry : session.peers[peer]? = some entry)
    (hphase : entry.phase = .active) (hread : entry.lastCounters = none) (baseline : Counters)
    (start : Millis) (events : List (Event × Millis)) :
    (Session.machine cbor).observe (Session.charges cbor peer) session
        ((.meterSample peer baseline, start) :: events) =
      (Entry.machine cbor session.price session.policy peer).observe (Entry.charges session.price)
        (some (entry.resetMetering baseline start)) (events.map (PeerEvent.of cbor peer)) := by
  rw [observe_charges, hentry, List.map_cons, PeerEvent.of_meterSample, Entry.charges_eq_atCharge,
    observe_from_baseline _ hphase hread]

/-- Assumes: an active peer without a baseline, a run of a metering session that ends in a sample
of the peer, with the peer active at every event of it, and readings and reports that never
decrease. Its charges, its report and its snapshot are exact. -/
theorem billedExactly_of_monotone {cbor : Minicbor} {session : Session} {peer : PeerId}
    {entry : PeerSession} (hentry : session.peers[peer]? = some entry)
    (hread : entry.lastCounters = none) (baseline : Counters) (start : Millis)
    (events : List (Event × Millis)) (counters : Counters) (now : Millis)
    (hactive : (Session.machine cbor).Along
      (fun session _ ↦ session.peerPhase peer = some .active) session
      ((.meterSample peer baseline, start) :: (events ++ [(.meterSample peer counters, now)])))
    (hreadings : (readings cbor peer ((.meterSample peer baseline, start) ::
      (events ++ [(.meterSample peer counters, now)]))).Pairwise Counters.NoDecrease)
    (hreports : (reports cbor peer events).Pairwise (· ≤ ·)) :
    BilledExactly cbor peer session baseline start events counters now := by
  obtain ⟨hphase, hstays, reached, hreached, hserved, hlast, hdelivered, hreceived, hreport⟩ :=
    reached_before_sample hentry hread hactive hreadings
  simp only [readings, List.map_cons, List.map_append, List.map_nil,
    PeerEvent.of_meterSample] at hreadings
  set middle := (Session.machine cbor).final session ((.meterSample peer baseline, start) :: events)
  have hself := @Session.handle_self cbor middle peer (.meterSample peer counters) now rfl
  rw [PeerEvent.of_meterSample, hreached,
    Entry.step_sample_charge cbor middle.price middle.policy peer hserved hlast] at hself
  have hafter : (Session.machine cbor).final session ((.meterSample peer baseline, start) ::
      (events ++ [(Event.meterSample peer counters, now)])) =
      (middle.handle cbor (.meterSample peer counters) now).1 := by
    rw [← List.cons_append, Transducer.final_append]
    rfl
  constructor
  · rw [charges_from_baseline hentry hphase hread, List.map_append, List.map_cons, List.map_nil,
      PeerEvent.of_meterSample]
    exact Entry.units_exact cbor session.price session.policy peer hstays hreadings hreports
  · rw [charges_from_baseline hentry hphase hread, List.map_append, List.map_cons, List.map_nil,
      PeerEvent.of_meterSample]
    exact Entry.elapsed_exact cbor session.price session.policy peer hstays hreadings
  · rw [hself.2, ← hreport]
    exact PeerSession.chargeSample_sends cbor peer reached middle.price middle.policy counters now
  · rw [hafter]
    refine ⟨_, List.mem_map.mpr ⟨(peer, _),
      ExtTreeMap.mem_toList_iff_getElem?_eq_some.mpr hself.1, rfl⟩, rfl⟩
  · rw [hafter]
    intro view hview hpeer
    obtain ⟨⟨other, shown⟩, hmem, rfl⟩ := List.mem_map.mp hview
    have hshown := ExtTreeMap.mem_toList_iff_getElem?_eq_some.mp hmem
    obtain rfl : other = peer := hpeer
    rw [hself.1] at hshown
    obtain rfl := Option.some.inj hshown
    exact ⟨hdelivered, hreceived⟩
  · intro tracked onFile htracked
    rw [hentry] at htracked
    obtain rfl := Option.some.inj htracked
    have hsame := handle_baseline_report cbor hentry hphase hread onFile baseline start
    refine ⟨congrArg (fun result ↦ (Session.machine cbor).final result.1
      (events ++ [(Event.meterSample peer counters, now)])) hsame, ?_⟩
    exact congrArg (fun result ↦ result.2 ++ (Session.machine cbor).outputs result.1
      (events ++ [(Event.meterSample peer counters, now)])) hsame

/-- A metering report from a peer that counted seven units. -/
def sampleReport : Bytes :=
  Minicbor.derived.encodeMeteringReport (MeteringReport.new 1 0 7)

/-- A session of two samples with a report between the baseline and the first. -/
theorem billedExactly_with_report :
    BilledExactly Minicbor.derived samplePeer paidSession ⟨5, 1⟩ 2
      [(.messageReceived samplePeer sampleReport, 3), (.meterSample samplePeer ⟨8, 3⟩, 4)] ⟨35, 4⟩
      6 := by
  have hentry : paidSession.peers[samplePeer]? = some
      { PeerSession.new with phase := .active, balance := 5000, lastMeterAt := 1 } := by
    decide +kernel
  exact billedExactly_of_monotone hentry rfl ⟨5, 1⟩ 2 _ ⟨35, 4⟩ 6 (by decide +kernel)
    (by decide +kernel) (by decide +kernel)

end Tollgate
