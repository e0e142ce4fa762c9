import Tollgate.Core.ExactBilling
import Tollgate.Library.Periods

/-!
# What is billed lies inside active periods

A peer leaves `active` in many ways and comes back by one: an accepted verdict, which drops the
reading the next charge would have started from. So a charge never reaches back over a time in which
the peer was not active. `Entry.anchored` finds, for an active entry with a reading, the sample that
its next charge counts the time from and the one that its counters are counted from, both in the
present active period. `Entry.elapsed_eq_total` adds the charges up: the time billed in a run is the
time from the first to the last sample, summed over the maximal active periods.
-/

set_option autoImplicit false
set_option relaxedAutoImplicit false

namespace Tollgate

open Std Periods

namespace Entry

instance (entry : Option PeerSession) : Decidable (Active entry) :=
  decidable_of_iff (entry.map PeerSession.phase = some .active) (by
    cases entry <;> simp)

variable (cbor : Minicbor) (price : Price) (policy : MeteringPolicy) (peer : PeerId)

/-! ### Events on entries that are not being charged -/

/-- A peer that becomes active has no reading. -/
theorem lastCounters_of_activated {entry : Option PeerSession} (hinactive : ¬ Active entry)
    {event : PeerEvent} {next : PeerSession}
    (hnext : (step cbor price policy peer entry event).1 = some next)
    (hphase : next.phase = .active) : next.lastCounters = none := by
  cases entry with
  | none =>
    cases event with
    | connected =>
      obtain rfl := Option.some.inj hnext
      rfl
    | _ => exact absurd hnext (by simp [step])
  | some entry =>
    rw [active_some] at hinactive
    cases event with
    | disconnected => exact absurd hnext (by simp [step])
    | reject =>
      obtain rfl := Option.some.inj hnext
      have hrejected : (entry.receiveReject peer).1.phase ≠ .active := by
        unfold PeerSession.receiveReject
        split_ifs <;> simp [hinactive]
      exact absurd hphase hrejected
    | verified amount ok now =>
      obtain rfl := Option.some.inj hnext
      cases ok with
      | false => exact absurd hphase (by simp [PeerSession.bootstrapVerified])
      | true => simp [PeerSession.bootstrapVerified, hinactive]
    | sample counters now =>
      rw [step_sample_inactive cbor price policy peer hinactive] at hnext
      obtain rfl := Option.some.inj hnext
      exact absurd hphase hinactive
    | token message =>
      obtain rfl := Option.some.inj hnext
      exact absurd hphase (by simp [PeerSession.receiveToken])
    | _ =>
      obtain rfl := Option.some.inj hnext
      exact absurd hphase hinactive

/-- An active entry gets its first reading by a sample. -/
theorem lastCounters_of_unread {entry : PeerSession} (hphase : entry.phase = .active)
    (hread : entry.lastCounters = none) {event : PeerEvent} (hsample : ¬ event.IsSample)
    {next : PeerSession} (hnext : (step cbor price policy peer (some entry) event).1 = some next) :
    next.lastCounters = none := by
  cases event with
  | disconnected => exact absurd hnext (by simp [step])
  | reject =>
    obtain rfl := Option.some.inj hnext
    have hrejected : (entry.receiveReject peer).1.lastCounters = none := by
      unfold PeerSession.receiveReject
      split_ifs <;> exact hread
    exact hrejected
  | verified amount ok now =>
    obtain rfl := Option.some.inj hnext
    cases ok with
    | false => exact hread
    | true => simpa [PeerSession.bootstrapVerified, hphase] using hread
  | sample counters now => exact absurd trivial hsample
  | _ =>
    obtain rfl := Option.some.inj hnext
    exact hread

theorem charges_of_inactive {entry : Option PeerSession} (hinactive : ¬ Active entry)
    (event : PeerEvent) : charges price entry event = [] := by
  rw [charges_eq_atCharge]
  cases entry with
  | none => cases event <;> rfl
  | some entry => exact atCharge_of_not _ (Or.inl fun hphase ↦ hinactive ⟨entry, rfl, hphase⟩)

/-! ### The sample a charge starts from -/

/-- A sample of a run such that the entry was active at it and at every event behind it. -/
def ActiveSince (events : List PeerEvent) (counters : Counters) (now : Millis) : Prop :=
  ∃ early between, events = early ++ .sample counters now :: between ∧
    (machine cbor price policy peer).Along (fun entry _ ↦ Active entry)
      ((machine cbor price policy peer).final none early) (.sample counters now :: between)

variable {cbor price policy peer}

/-- A sample of an active entry. -/
theorem activeSince_sample {events : List PeerEvent}
    (hactive : Active ((machine cbor price policy peer).final none events)) (counters : Counters)
    (now : Millis) :
    ActiveSince cbor price policy peer (events ++ [PeerEvent.sample counters now]) counters now :=
  ⟨events, [], rfl, hactive, trivial⟩

/-- Another event of an entry that is still active. -/
theorem ActiveSince.concat {events : List PeerEvent} {counters : Counters} {now : Millis}
    (hsince : ActiveSince cbor price policy peer events counters now)
    (hactive : Active ((machine cbor price policy peer).final none events)) (event : PeerEvent) :
    ActiveSince cbor price policy peer (events ++ [event]) counters now := by
  obtain ⟨early, between, rfl, halong⟩ := hsince
  refine ⟨early, between ++ [event], by simp, ?_⟩
  rw [Transducer.final_append] at hactive
  rw [← List.cons_append, Transducer.along_append]
  exact ⟨halong, hactive, trivial⟩

variable (cbor price policy peer)

/-- Assumes: a run that leads to an active entry with a reading. The entry's last reading and its
baseline are samples of the run, and the entry was active at every event since. -/
theorem anchored {events : List PeerEvent} {entry : PeerSession}
    (hfinal : (machine cbor price policy peer).final none events = some entry)
    (hphase : entry.phase = .active) (hread : entry.lastCounters.isSome = true) :
    (∃ counters, ActiveSince cbor price policy peer events counters entry.lastMeterAt) ∧
      ActiveSince cbor price policy peer events entry.meteringBaseline entry.meteringStart := by
  -- From the last event back: the reading is this sample, or one that an earlier state had.
  induction events using List.reverseRecOn generalizing entry with
  | nil => exact absurd hfinal (by simp)
  | append_singleton events event ih =>
    rw [Transducer.final_append, Transducer.final_cons, Transducer.final_nil,
      machine_step] at hfinal
    by_cases hactive : Active ((machine cbor price policy peer).final none events)
    · obtain ⟨current, hcurrent, hserved⟩ := id hactive
      rw [hcurrent] at hfinal
      by_cases hunread : current.lastCounters = none
      · cases event with
        | sample counters now =>
          rw [step_sample_baseline cbor price policy peer hserved hunread] at hfinal
          obtain rfl := Option.some.inj hfinal
          exact ⟨⟨counters, activeSince_sample hactive counters now⟩,
            activeSince_sample hactive counters now⟩
        | _ =>
          have hnone := lastCounters_of_unread cbor price policy peer hserved hunread id hfinal
          rw [hnone] at hread
          exact absurd hread (by decide)
      · have hsome := Option.isSome_iff_ne_none.mpr hunread
        obtain ⟨⟨earlier, hlast⟩, hbaseline⟩ := ih hcurrent hserved hsome
        have hstep := step_baselined cbor price policy peer hsome event
        rw [hfinal] at hstep
        cases hstep with
        | readmitted _ hfresh hother => exact absurd hserved hother
        | charged counters now hevent _ =>
          subst hevent
          exact ⟨⟨counters, activeSince_sample hactive counters now⟩,
            hbaseline.concat hactive _⟩
        | kept _ hsame hreport hsample =>
          rw [hsame.lastMeterAt_eq, hsame.meteringBaseline_eq, hsame.meteringStart_eq]
          exact ⟨⟨earlier, hlast.concat hactive event⟩, hbaseline.concat hactive event⟩
    · have hnone := lastCounters_of_activated cbor price policy peer hactive hfinal hphase
      rw [hnone] at hread
      exact absurd hread (by decide)

/-! ### The time billed -/

/-- An event as a mark: whether the entry is active at it, and the time of a sample. -/
def mark (entry : Option PeerSession) (event : PeerEvent) : List Mark :=
  [⟨decide (Active entry), event.reading.map fun reading ↦ reading.2.toNat⟩]

/-- The mark of the sample that the next charge counts from. -/
def openMark (entry : Option PeerSession) : List Mark :=
  match entry with
  | some tracked =>
    if tracked.phase = .active ∧ tracked.lastCounters.isSome then
      [⟨true, some tracked.lastMeterAt.toNat⟩]
    else []
  | none => []

theorem openMark_of_inactive {entry : Option PeerSession} (hinactive : ¬ Active entry) :
    openMark entry = [] := by
  cases entry with
  | none => rfl
  | some tracked => exact if_neg fun hboth ↦ hinactive ⟨tracked, rfl, hboth.1⟩

theorem openMark_of_unread {entry : PeerSession} (hread : entry.lastCounters = none) :
    openMark (some entry) = [] := by
  simp [openMark, hread]

theorem openMark_of_charged {entry : PeerSession} (hphase : entry.phase = .active)
    (hread : entry.lastCounters.isSome = true) :
    openMark (some entry) = [⟨true, some entry.lastMeterAt.toNat⟩] :=
  if_pos ⟨hphase, hread⟩

/-- The times of the marks are the times of the samples. -/
theorem times_observe_mark (entry : Option PeerSession) (events : List PeerEvent) :
    times ((machine cbor price policy peer).observe mark entry events) =
      (events.filterMap PeerEvent.reading).map fun reading ↦ reading.2.toNat := by
  induction events generalizing entry with
  | nil => rfl
  | cons event rest ih =>
    have hrest := ih (step cbor price policy peer entry event).1
    rw [Transducer.observe_cons, machine_step]
    unfold times at hrest ⊢
    rw [List.filterMap_append, hrest]
    cases event <;> rfl

/-- The first mark of a run tells whether the run starts active. -/
theorem head?_observe_mark {entry : Option PeerSession} {events : List PeerEvent} {first : Mark}
    (hfirst : first ∈ ((machine cbor price policy peer).observe mark entry events).head?) :
    first.inside = decide (Active entry) := by
  cases events with
  | nil => exact absurd hfirst (by simp)
  | cons event rest =>
    rw [Transducer.observe_cons] at hfirst
    have hmark : some ⟨decide (Active entry), event.reading.map fun reading ↦ reading.2.toNat⟩ =
        some first := hfirst
    rw [← Option.some.inj hmark]

/-- Only a sample carries a time. -/
theorem reading_of_not_sample {event : PeerEvent} (hsample : ¬ event.IsSample) :
    event.reading = none := by
  cases event with
  | sample counters now => exact absurd trivial hsample
  | _ => rfl

theorem mark_of_active {entry : PeerSession} (hphase : entry.phase = .active)
    (event : PeerEvent) :
    mark (some entry) event = [⟨true, event.reading.map fun reading ↦ reading.2.toNat⟩] := by
  rw [mark, decide_eq_true ((active_some entry).mpr hphase)]

/-- One event adds up: what it charges and the total from the next state on are the total from this
state on. Stated for any marks that may follow, which start outside when the next state is not
active. -/
structure AddsUp (price : Price) (entry : Option PeerSession) (event : PeerEvent)
    (next : Option PeerSession) (tail : List Mark) : Prop where
  opens : (openMark next).Sublist (openMark entry ++ mark entry event)
  adds : ((charges price entry event).map fun charge ↦ charge.elapsed.toNat).sum +
      total (openMark next ++ tail) =
    total (openMark entry ++ (mark entry event ++ tail))

/-- A peer that is not active is charged nothing, and its marks lie outside. -/
theorem addsUp_inactive {entry : Option PeerSession} (hinactive : ¬ Active entry)
    (event : PeerEvent) (tail : List Mark) :
    AddsUp price entry event (step cbor price policy peer entry event).1 tail := by
  have hopen : openMark (step cbor price policy peer entry event).1 = [] := by
    cases hnext : (step cbor price policy peer entry event).1 with
    | none => rfl
    | some next =>
      by_cases hphase : next.phase = .active
      · exact openMark_of_unread
          (lastCounters_of_activated cbor price policy peer hinactive hnext hphase)
      · exact openMark_of_inactive (by rwa [active_some])
  refine ⟨by rw [hopen]; exact List.nil_sublist _, ?_⟩
  rw [hopen, openMark_of_inactive hinactive, charges_of_inactive price hinactive, mark,
    List.nil_append, List.nil_append, List.singleton_append,
    total_outside (decide_eq_false hinactive), List.map_nil, List.sum_nil, Nat.zero_add]

/-- An active peer without a reading is charged nothing: a sample opens its account. -/
theorem addsUp_unread {entry : PeerSession} (hphase : entry.phase = .active)
    (hread : entry.lastCounters = none) (event : PeerEvent) (tail : List Mark) :
    AddsUp price (some entry) event (step cbor price policy peer (some entry) event).1 tail := by
  have hfree : charges price (some entry) event = [] := by
    cases event with
    | sample counters now => simp [charges, hread]
    | _ => rfl
  by_cases hsample : event.IsSample
  · cases event with
    | sample counters now =>
      have hopen : openMark (some (entry.resetMetering counters now)) =
          mark (some entry) (.sample counters now) := by
        rw [mark_of_active hphase]
        exact @openMark_of_charged (entry.resetMetering counters now) hphase rfl
      rw [step_sample_baseline cbor price policy peer hphase hread]
      refine ⟨by rw [hopen]; exact List.sublist_append_right _ _, ?_⟩
      rw [hfree, hopen, openMark_of_unread hread, List.nil_append, List.map_nil, List.sum_nil,
        Nat.zero_add]
    | _ => exact absurd hsample id
  · have hopen : openMark (step cbor price policy peer (some entry) event).1 = [] := by
      cases hnext : (step cbor price policy peer (some entry) event).1 with
      | none => rfl
      | some next =>
        have hnone := lastCounters_of_unread cbor price policy peer hphase hread hsample hnext
        exact openMark_of_unread hnone
    refine ⟨by rw [hopen]; exact List.nil_sublist _, ?_⟩
    rw [hfree, hopen, openMark_of_unread hread, mark_of_active hphase,
      reading_of_not_sample hsample, List.nil_append, List.nil_append, List.singleton_append,
      total_untimed rfl rfl, List.map_nil, List.sum_nil, Nat.zero_add]

/-- Assumes: marks in order, which start outside when the next state is not active. An active peer
with a reading is charged at a sample, from the open mark to it. -/
theorem addsUp_baselined {entry : PeerSession} (hphase : entry.phase = .active)
    (hread : entry.lastCounters.isSome = true) (event : PeerEvent) {tail : List Mark}
    (htail : ¬ Active (step cbor price policy peer (some entry) event).1 →
      ∀ next ∈ tail.head?, next.inside = false)
    (htimes : (times (openMark (some entry) ++ (mark (some entry) event ++ tail))).Pairwise
      (· ≤ ·)) :
    AddsUp price (some entry) event (step cbor price policy peer (some entry) event).1 tail := by
  have hstep := step_baselined cbor price policy peer hread event
  generalize (step cbor price policy peer (some entry) event).1 = next at hstep htail ⊢
  -- Without a charge the open mark stays, or closes with the period.
  have hkept (hsample : ¬ event.IsSample)
      (hnext : Active next → openMark next = openMark (some entry)) :
      AddsUp price (some entry) event next tail := by
    have hfree : charges price (some entry) event = [] := by
      rw [charges_eq_atCharge]
      exact atCharge_of_not _ (Or.inr hsample)
    have hskip : total (openMark (some entry) ++ (mark (some entry) event ++ tail)) =
        total (openMark (some entry) ++ tail) := by
      rw [openMark_of_charged hphase hread, mark_of_active hphase, reading_of_not_sample hsample]
      exact total_timed_untimed rfl rfl rfl tail
    by_cases hactive : Active next
    · refine ⟨by rw [hnext hactive]; exact List.sublist_append_left _ _, ?_⟩
      rw [hfree, hskip, hnext hactive, List.map_nil, List.sum_nil, Nat.zero_add]
    · refine ⟨by rw [openMark_of_inactive hactive]; exact List.nil_sublist _, ?_⟩
      rw [hfree, hskip, openMark_of_inactive hactive, openMark_of_charged hphase hread,
        List.singleton_append, total_timed_last rfl (htail hactive), List.map_nil, List.sum_nil,
        List.nil_append, Nat.zero_add]
  cases hstep with
  | tornDown hsample => exact hkept hsample fun hactive ↦ absurd hactive active_none
  | readmitted next hfresh hother => exact absurd hphase hother
  | kept next hsame hreport hsample =>
    refine hkept (hsample.resolve_left fun hother ↦ hother hphase) fun hactive ↦ ?_
    rw [openMark_of_charged hphase hread,
      openMark_of_charged ((active_some next).mp hactive) (hsame.lastCounters_eq ▸ hread),
      hsame.lastMeterAt_eq]
  | charged counters now hevent _ =>
    subst hevent
    have hcharge : ((charges price (some entry) (.sample counters now)).map
        fun charge ↦ charge.elapsed.toNat).sum = now.toNat - entry.lastMeterAt.toNat := by
      rw [charges_eq_atCharge, atCharge_sample _ hphase hread, List.map_singleton,
        List.sum_singleton]
      exact Millis.toNat_since now entry.lastMeterAt
    rw [openMark_of_charged hphase hread, mark_of_active hphase] at htimes
    have htimes : (entry.lastMeterAt.toNat :: now.toNat :: times tail).Pairwise (· ≤ ·) := htimes
    obtain ⟨hfirst, hrest⟩ := List.pairwise_cons.mp htimes
    have hbehind (mark : Mark) (hmark : mark ∈ tail) (time : ℕ) (htime : mark.time = some time) :
        now.toNat ≤ time :=
      (List.pairwise_cons.mp hrest).1 time (List.mem_filterMap.mpr ⟨mark, hmark, htime⟩)
    have hadds : total (openMark (some entry) ++
        (mark (some entry) (.sample counters now) ++ tail)) =
        (now.toNat - entry.lastMeterAt.toNat) + total (⟨true, some now.toNat⟩ :: tail) := by
      rw [openMark_of_charged hphase hread, mark_of_active hphase]
      exact total_timed_timed rfl rfl rfl rfl (hfirst _ List.mem_cons_self) hbehind
    set next := (entry.chargeSample cbor peer price policy counters now).1 with hnext
    by_cases hactive : next.phase = .active
    · have hopen : openMark (some next) = [⟨true, some now.toNat⟩] :=
        openMark_of_charged hactive rfl
      refine ⟨?_, ?_⟩
      · rw [hopen, mark_of_active hphase]
        exact List.sublist_append_right _ _
      · rw [hcharge, hadds, hopen]
        rfl
    · have hinactive : ¬ Active (some next) := by rwa [active_some]
      refine ⟨by rw [openMark_of_inactive hinactive]; exact List.nil_sublist _, ?_⟩
      rw [hcharge, hadds, openMark_of_inactive hinactive, List.nil_append,
        total_timed_last rfl (htail hinactive)]

/-- Assumes: sample times in order. The time billed along a run is the total of its active periods,
the one under way included. -/
theorem elapsed_eq_total {entry : Option PeerSession} {events : List PeerEvent}
    (htimes : (times (openMark entry ++
      (machine cbor price policy peer).observe mark entry events)).Pairwise (· ≤ ·)) :
    (((machine cbor price policy peer).observe (charges price) entry events).map
        fun charge ↦ charge.elapsed.toNat).sum =
      total (openMark entry ++ (machine cbor price policy peer).observe mark entry events) := by
  induction events generalizing entry with
  | nil =>
    rw [Transducer.observe_nil, Transducer.observe_nil, List.append_nil]
    cases entry with
    | none => rfl
    | some tracked =>
      by_cases hcharged : tracked.phase = .active ∧ tracked.lastCounters.isSome = true
      · rw [openMark_of_charged hcharged.1 hcharged.2]
        exact (@total_timed_last ⟨true, _⟩ rfl [] (by simp)).symm
      · have hopen : openMark (some tracked) = [] := if_neg hcharged
        rw [hopen]
        rfl
  | cons event rest ih =>
    rw [Transducer.observe_cons, Transducer.observe_cons, List.map_append, List.sum_append,
      machine_step]
    rw [Transducer.observe_cons, machine_step] at htimes
    have hadds : AddsUp price entry event (step cbor price policy peer entry event).1
        ((machine cbor price policy peer).observe mark (step cbor price policy peer entry event).1
          rest) := by
      by_cases hactive : Active entry
      · obtain ⟨tracked, rfl, hphase⟩ := hactive
        by_cases hread : tracked.lastCounters = none
        · exact addsUp_unread cbor price policy peer hphase hread event _
        · refine addsUp_baselined cbor price policy peer hphase
            (Option.isSome_iff_ne_none.mpr hread) event (fun hinactive next hnext ↦ ?_) htimes
          rw [head?_observe_mark cbor price policy peer hnext, decide_eq_false hinactive]
      · exact addsUp_inactive cbor price policy peer hactive event _
    have hsublist := hadds.opens.append_right
      ((machine cbor price policy peer).observe mark (step cbor price policy peer entry event).1
        rest)
    rw [List.append_assoc] at hsublist
    rw [ih (htimes.sublist (hsublist.filterMap _)), hadds.adds]

end Entry

/-! ### The session -/

/-- An earlier sample of `peer` such that the peer was active at it and at every event from it to
`input`. -/
def ActiveSinceSample (cbor : Minicbor) (peer : PeerId) (initial : Session)
    (before : List (Event × Millis)) (input : Event × Millis) (counters : Counters)
    (now : Millis) : Prop :=
  ∃ early between, before = early ++ (.meterSample peer counters, now) :: between ∧
    (Session.machine cbor).Along (fun session _ ↦ session.peerPhase peer = some .active)
      ((Session.machine cbor).final initial early)
      ((.meterSample peer counters, now) :: (between ++ [input]))

/-- A charge at `input` covers time and counters of the active period under way: it counts the time
from an earlier sample of that period, and our own delivered count from one too. -/
structure ChargedWhileActive (cbor : Minicbor) (peer : PeerId) (initial : Session)
    (before : List (Event × Millis)) (input : Event × Millis) (counters : Counters)
    (charge : Charge) : Prop where
  interval : ∃ earlier since,
    ActiveSinceSample cbor peer initial before input earlier since ∧
      charge.elapsed.toNat + since.toNat = input.2.toNat
  range : ∃ first since entry,
    ActiveSinceSample cbor peer initial before input first since ∧
      ((Session.machine cbor).final initial before).peers[peer]? = some entry ∧
      (entry.ourDelivered counters).toNat = counters.delivered.toNat - first.delivered.toNat ∧
      charge.units.toNat = max (entry.ourDelivered counters).toNat
        (Entry.receivedOf entry.peerReport) - entry.billedUnits.toNat

/-- An event as a mark of the active periods of `peer`. -/
def Session.mark (cbor : Minicbor) (peer : PeerId) (session : Session) (input : Event × Millis) :
    List Mark :=
  [⟨decide (session.peerPhase peer = some .active),
    (PeerEvent.of cbor peer input).reading.map fun reading ↦ reading.2.toNat⟩]

/-- A stretch of the one-peer run is a stretch of the run. -/
theorem activeSinceSample_of_entry {cbor : Minicbor} {price : Price} {policy : MeteringPolicy}
    {peer : PeerId} {before : List (Event × Millis)} {counters : Counters} {now : Millis}
    (hsince : Entry.ActiveSince cbor price policy peer (before.map (PeerEvent.of cbor peer))
      counters now)
    (hactive : Entry.Active
      ((Session.machine cbor).final (Session.start price policy) before).peers[peer]?)
    (input : Event × Millis) :
    ActiveSinceSample cbor peer (Session.start price policy) before input counters now := by
  obtain ⟨early, between, hsplit, halong⟩ := hsince
  obtain ⟨first, second, rfl, rfl, hsecond⟩ := List.map_eq_append_iff.mp hsplit
  obtain ⟨sample, rest, rfl, hsample, rfl⟩ := List.map_eq_cons_iff.mp hsecond
  rw [PeerEvent.of_eq_sample_iff] at hsample
  subst hsample
  refine ⟨first, rest, rfl, ?_⟩
  obtain ⟨hprice, hpolicy⟩ := terms_final cbor (Session.start price policy) first
  have hentry := getElem?_final cbor (Session.start price policy) peer first
  have hstart : (Session.start price policy).peers[peer]? = none := by
    simp [Session.start, Session.new, Session.setPrice, Session.setMeteringPolicy]
  rw [hstart] at hentry
  have hstretch := (along_entry (fun entry _ ↦ Entry.Active entry) cbor
    ((Session.machine cbor).final (Session.start price policy) first) peer
    ((.meterSample peer counters, now) :: rest)).mpr (by
      rw [hprice, hpolicy, hentry, List.map_cons, PeerEvent.of_meterSample]
      exact halong)
  simp only [peerPhase_eq_active_iff]
  rw [← List.cons_append, Transducer.along_append]
  rw [Transducer.final_append] at hactive
  exact ⟨hstretch, hactive, trivial⟩

/-- Assumes: times that never decrease. In every run from a new session, every charge covers only
time and counters of the active period it is made in, and the time billed is the time from the
first to the last sample, summed over the maximal active periods. -/
theorem blockedTime_never_charged (cbor : Minicbor) (price : Price) (policy : MeteringPolicy)
    (peer : PeerId) {events : List (Event × Millis)}
    (htimes : (events.map Prod.snd).Pairwise (· ≤ ·)) :
    (∀ before input after, events = before ++ input :: after →
        ∀ charge ∈ Session.charges cbor peer
          ((Session.machine cbor).final (Session.start price policy) before) input,
        ∃ counters, input.1 = .meterSample peer counters ∧
          ChargedWhileActive cbor peer (Session.start price policy) before input counters
            charge) ∧
      (((Session.machine cbor).observe (Session.charges cbor peer) (Session.start price policy)
          events).map fun charge ↦ charge.elapsed.toNat).sum =
        total ((Session.machine cbor).observe (Session.mark cbor peer) (Session.start price policy)
          events) := by
  have hstart : (Session.start price policy).peers[peer]? = none := by
    simp [Session.start, Session.new, Session.setPrice, Session.setMeteringPolicy]
  constructor
  · intro before input after hevents charge hcharge
    set reached := (Session.machine cbor).final (Session.start price policy) before with hreached
    cases hentry : reached.peers[peer]? with
    | none =>
      rw [Session.charges, hentry, Entry.charges_of_inactive _ Entry.active_none] at hcharge
      exact absurd hcharge List.not_mem_nil
    | some entry =>
      rw [Session.charges, hentry, Entry.charges_eq_atCharge] at hcharge
      obtain ⟨counters, now, hseen, hphase, hread, rfl⟩ := Entry.mem_atCharge hcharge
      rw [PeerEvent.of_eq_sample_iff] at hseen
      subst hseen
      have hfinal : (Entry.machine cbor price policy peer).final none
          (before.map (PeerEvent.of cbor peer)) = some entry := by
        have hview := getElem?_final cbor (Session.start price policy) peer before
        rw [hstart, ← hreached, hentry] at hview
        exact hview.symm
      obtain ⟨⟨earlier, hlast⟩, hbaseline⟩ :=
        Entry.anchored cbor price policy peer hfinal hphase hread
      have hactive : Entry.Active reached.peers[peer]? := ⟨entry, hentry, hphase⟩
      have hsince := activeSinceSample_of_entry hlast hactive (.meterSample peer counters, now)
      refine ⟨counters, rfl, ⟨earlier, entry.lastMeterAt, hsince, ?_⟩,
        ⟨entry.meteringBaseline, entry.meteringStart, entry,
          activeSinceSample_of_entry hbaseline hactive _, hentry, ?_, ?_⟩⟩
      · -- The earlier sample is in front of this one, so its time is not later.
        obtain ⟨early, between, hbefore, -⟩ := hsince
        have hle : entry.lastMeterAt ≤ now := by
          rw [hevents, hbefore, List.map_append, List.map_append, List.pairwise_append] at htimes
          exact htimes.2.2 _ (by simp) _ (by simp)
        rw [UInt64.le_iff_toNat_le] at hle
        have helapsed := Millis.toNat_since now entry.lastMeterAt
        simp only [PeerSession.charge]
        omega
      · exact UInt64.toNat_saturatingSub _ _
      · rw [PeerSession.charge, PeerSession.toNat_newUnits, PeerSession.toNat_billable,
          PeerSession.toNat_ourDelivered]
  · have hmarks : (Session.machine cbor).observe (Session.mark cbor peer)
        (Session.start price policy) events =
        (Entry.machine cbor price policy peer).observe Entry.mark none
          (events.map (PeerEvent.of cbor peer)) := by
      have hview := observe_entry Entry.mark cbor (Session.start price policy) peer events
      rw [hstart] at hview
      refine Eq.trans (Transducer.observe_congr_along _ ?_) hview
      rw [Transducer.along_iff_forall_cut]
      intro before input after _
      simp only [Session.mark, Entry.mark, peerPhase_eq_active_iff]
    rw [hmarks, observe_charges, hstart]
    refine Entry.elapsed_eq_total cbor price policy peer ?_
    -- The times of the samples are some of the times of the events.
    have hsamples : (readings cbor peer events).Pairwise (fun earlier later ↦
        earlier.2 ≤ later.2) := by
      rw [readings, List.filterMap_map, List.pairwise_filterMap]
      refine (List.pairwise_map.mp htimes).imp fun hle earlier hearlier later hlater ↦ ?_
      have htime {input : Event × Millis} {reading : Counters × Millis}
          (hreading : (PeerEvent.of cbor peer input).reading = some reading) :
          reading.2 = input.2 := by
        cases hseen : PeerEvent.of cbor peer input with
        | sample counters now =>
          rw [hseen] at hreading
          rw [PeerEvent.of_eq_sample_iff] at hseen
          rw [← Option.some.inj hreading, hseen]
        | _ =>
          rw [hseen] at hreading
          exact absurd hreading (by simp [PeerEvent.reading])
      rw [htime hearlier, htime hlater]
      exact hle
    rw [Entry.openMark_of_inactive Entry.active_none, List.nil_append, Entry.times_observe_mark]
    exact List.pairwise_map.mpr (hsamples.imp fun hle ↦ UInt64.le_iff_toNat_le.mp hle)

/-- Two active periods with a top-up between them: the time billed is one and two. -/
theorem blockedTime_of_topUp :
    let events : List (Event × Millis) :=
      [(.peerConnected samplePeer, 0), (.bootstrapVerified samplePeer 5000 true, 1),
        (.meterSample samplePeer ⟨0, 0⟩, 2), (.meterSample samplePeer ⟨10, 0⟩, 3),
        (.messageReceived samplePeer sampleToken, 4), (.meterSample samplePeer ⟨20, 0⟩, 5),
        (.bootstrapVerified samplePeer 700 true, 6), (.meterSample samplePeer ⟨30, 0⟩, 7),
        (.meterSample samplePeer ⟨40, 0⟩, 9)]
    (((Session.machine Minicbor.derived).observe (Session.charges Minicbor.derived samplePeer)
        (Session.start ⟨1000, 1⟩ MeteringPolicy.default) events).map
        fun charge ↦ charge.elapsed.toNat).sum = 3 := by
  intro events
  rw [(blockedTime_never_charged Minicbor.derived ⟨1000, 1⟩ MeteringPolicy.default samplePeer
    (show (events.map Prod.snd).Pairwise (· ≤ ·) by decide +kernel)).2]
  decide +kernel

end Tollgate
