import Tollgate.Net.Exchange

/-!
# Units charged and units delivered

The provider charges by its own count since a baseline, unless the consumer has acknowledged more.
Each side starts its count by its own rules: the provider at its first sample after a token, the
consumer when it has paid, if it has a meter, and anew only after a top-up that ended a cut. So an
acknowledgement can count from an earlier baseline than the provider's, and what lies between is
charged. `units_within_delivery` says that this is the only way in which more is charged than was
delivered.
-/

set_option autoImplicit false
set_option relaxedAutoImplicit false

namespace Tollgate

open Std

namespace Link

variable (terms : Terms) (link : Link)

/-- What a step charges the consumer. -/
def charges (step : LinkStep) : List Charge :=
  Entry.charges link.provider.session.price (link.entry terms) (link.seen terms step)

/-- The counter at which a step starts a metering session. -/
def baselines : LinkStep → List UInt64
  | .sample _ _ =>
    match link.entry terms with
    | some entry => if entry.phase = .active ∧ entry.lastCounters = none then [link.counter] else []
    | none => []
  | _ => []

/-- The units charged along a run. -/
def unitsCharged (steps : List LinkStep) : ℕ :=
  (((machine terms).observe (charges terms) link steps).map fun charge ↦ charge.units.toNat).sum

/-- The counter at which the first metering session of a run starts. -/
def firstBaseline (steps : List LinkStep) : Option UInt64 :=
  ((machine terms).observe (baselines terms) link steps).head?

/-- The step charges a sample, and the consumer has acknowledged more than the provider has counted
since its baseline. -/
def OverAcknowledged : LinkStep → Prop
  | .sample received _ =>
    ∃ entry ∈ link.entry terms, entry.phase = .active ∧ entry.lastCounters.isSome = true ∧
      ∃ theirs ∈ entry.peerReceived, entry.ourDelivered ⟨link.counter, received⟩ < theirs
  | _ => False

instance : DecidablePred (link.OverAcknowledged terms)
  | .sample _ _ => inferInstanceAs (Decidable (∃ _ ∈ _, _))
  | .deliver _ | .pay _ | .poll | .serve _ | .verdict _ _ | .respond _ => instDecidableFalse

/-- What has been charged so far lies between the first baseline and what is billed of the current
session, and that within the counter. -/
structure Billed (first : Option UInt64) (units : ℕ) : Prop where
  unbegun : first = none → units = 0 ∧ ∀ entry, link.entry terms = some entry →
    entry.lastCounters = none
  within : ∀ start, first = some start → start.toNat + units ≤ link.counter.toNat
  current : ∀ start, first = some start → ∀ entry, link.entry terms = some entry →
    entry.lastCounters.isSome = true →
      start.toNat + units ≤ entry.meteringBaseline.delivered.toNat + entry.billedUnits.toNat ∧
        entry.meteringBaseline.delivered.toNat + entry.billedUnits.toNat ≤ link.counter.toNat

variable {terms link}

/-- Assumes: an entry in its metering session whose sample is not charged by an acknowledgement
above the provider's own count. It is charged by that count. -/
theorem billable_eq_ourDelivered {entry : PeerSession} {counters : Counters}
    (hown : ∀ theirs, entry.peerReceived = some theirs → theirs ≤ entry.ourDelivered counters) :
    entry.billable counters = entry.ourDelivered counters := by
  unfold PeerSession.billable
  cases hreport : entry.peerReceived with
  | none => rfl
  | some theirs =>
    have hle := hown theirs hreport
    rw [UInt64.le_iff_toNat_le] at hle
    refine UInt64.toNat_inj.mp ?_
    simp only
    rw [toNat_reconcile, Nat.max_eq_left hle]

/-- Assumes: an entry in its metering session, and a step that is not over-acknowledged. -/
theorem Billed.step_baselined {first : Option UInt64} {units : ℕ}
    (hbilled : link.Billed terms first units) {step : LinkStep}
    (hown : ¬ link.OverAcknowledged terms step) {entry : PeerSession}
    (hentry : link.entry terms = some entry) (hread : entry.lastCounters.isSome = true) :
    (Link.step terms link step).Billed terms first
      (units + ((link.charges terms step).map fun charge ↦ charge.units.toNat).sum) := by
  obtain ⟨start, rfl⟩ : ∃ start, first = some start := by
    cases first with
    | some start => exact ⟨start, rfl⟩
    | none =>
      rw [(hbilled.unbegun rfl).2 entry hentry] at hread
      exact absurd hread (by simp)
  obtain ⟨hunits, hbilled⟩ := hbilled.current start rfl entry hentry hread
  have hcounter := UInt64.le_iff_toNat_le.mp (@counter_step terms link step)
  have hstep := Entry.step_baselined terms.cbor link.provider.session.price
    link.provider.session.policy terms.peer hread (link.seen terms step)
  rw [← hentry, ← entry_step step] at hstep
  have hcharges : link.charges terms step = Entry.atCharge
      (fun entry counters now ↦ entry.charge link.provider.session.price counters now)
      (some entry) (link.seen terms step) := by
    rw [charges, hentry, Entry.charges_eq_atCharge]
  -- A step that charges nothing leaves the billed units of the session, or ends it.
  have hquiet (hsample : entry.phase ≠ .active ∨ ¬ (link.seen terms step).IsSample)
      (hsame : ∀ next, (Link.step terms link step).entry terms = some next →
        next.lastCounters.isSome = true → SameMetering entry next) :
      (Link.step terms link step).Billed terms (some start)
        (units + ((link.charges terms step).map fun charge ↦ charge.units.toNat).sum) := by
    rw [hcharges, Entry.atCharge_of_not _ hsample, List.map_nil, List.sum_nil, Nat.add_zero]
    refine ⟨by simp, ?_, ?_⟩
    · rintro _ ⟨⟩
      omega
    · rintro _ ⟨⟩ next hnext hcounters
      have hmetering := hsame next hnext hcounters
      rw [hmetering.meteringBaseline_eq, hmetering.billedUnits_eq]
      exact ⟨hunits, hbilled.trans hcounter⟩
  generalize hafter : (Link.step terms link step).entry terms = after at hstep
  cases hstep with
  | tornDown hsample =>
    refine hquiet (Or.inr hsample) fun next hnext ↦ ?_
    rw [hafter] at hnext
    exact absurd hnext (by simp)
  | readmitted next hfresh hphase =>
    refine hquiet (Or.inl hphase) fun same hsame hcounters ↦ ?_
    rw [hafter] at hsame
    rw [← Option.some.inj hsame, hfresh] at hcounters
    exact absurd hcounters (by simp)
  | kept next hsame hreport hsample =>
    refine hquiet hsample fun same hnext _ ↦ ?_
    rw [hafter] at hnext
    rw [← Option.some.inj hnext]
    exact hsame
  | charged counters now hevent hphase =>
    obtain ⟨received, rfl, rfl⟩ := seen_sample_iff.mp hevent
    have hle : ∀ theirs, entry.peerReceived = some theirs →
        theirs ≤ entry.ourDelivered ⟨link.counter, received⟩ := by
      intro theirs htheirs
      refine UInt64.not_lt.mp fun hlt ↦ hown ?_
      exact ⟨entry, hentry, hphase, hread, theirs, htheirs, hlt⟩
    have hbillable := billable_eq_ourDelivered hle
    have hours : (entry.ourDelivered ⟨link.counter, received⟩).toNat =
        link.counter.toNat - entry.meteringBaseline.delivered.toNat :=
      entry.toNat_ourDelivered _
    have hnew : (entry.newUnits ⟨link.counter, received⟩).toNat =
        (entry.ourDelivered ⟨link.counter, received⟩).toNat - entry.billedUnits.toNat := by
      rw [PeerSession.toNat_newUnits, hbillable]
    have hsum : ((link.charges terms (.sample received now)).map
        fun charge ↦ charge.units.toNat).sum =
          (entry.newUnits ⟨link.counter, received⟩).toNat := by
      rw [hcharges, hevent, Entry.atCharge_sample _ hphase hread]
      simp [PeerSession.charge]
    have hstill : (Link.step terms link (.sample received now)).counter = link.counter :=
      (sample_frame received now).2.2.2.2
    rw [hsum]
    refine ⟨by simp, ?_, ?_⟩
    · rintro _ ⟨⟩
      omega
    · rintro _ ⟨⟩ next hnext -
      rw [hafter] at hnext
      obtain rfl := Option.some.inj hnext
      show start.toNat + _ ≤ entry.meteringBaseline.delivered.toNat +
        (entry.billable ⟨link.counter, received⟩).toNat ∧ _
      rw [hbillable, hstill]
      constructor
      · omega
      · show entry.meteringBaseline.delivered.toNat +
          (entry.billable ⟨link.counter, received⟩).toNat ≤ _
        rw [hbillable]
        omega

/-- Assumes: no metering session going on. A step charges nothing, and may start one. -/
theorem Billed.step_unread {first : Option UInt64} {units : ℕ}
    (hbilled : link.Billed terms first units) (step : LinkStep)
    (hunread : ∀ entry, link.entry terms = some entry → entry.lastCounters = none) :
    (Link.step terms link step).Billed terms (first.or (link.baselines terms step).head?)
      (units + ((link.charges terms step).map fun charge ↦ charge.units.toNat).sum) := by
  have hcharges : link.charges terms step = [] := by
    rw [charges, Entry.charges_eq_atCharge]
    cases hentry : link.entry terms with
    | none => cases link.seen terms step <;> rfl
    | some entry =>
      cases link.seen terms step with
      | sample counters now =>
        refine if_neg fun hboth ↦ ?_
        rw [hunread entry hentry] at hboth
        exact absurd hboth.2 (by simp)
      | _ => rfl
  have hcounter := UInt64.le_iff_toNat_le.mp (@counter_step terms link step)
  -- A session that goes on after the step was started by it, at the counter of now.
  have hstarted {next : PeerSession} (hnext : (Link.step terms link step).entry terms = some next)
      (hread : next.lastCounters.isSome = true) :
      link.baselines terms step = [link.counter] ∧
        next.meteringBaseline.delivered = link.counter ∧ next.billedUnits = 0 := by
    rw [entry_step] at hnext
    obtain ⟨before, counters, now, hbefore, hphase, hevent, rfl⟩ :=
      Entry.baseline_of_step hunread hnext hread
    obtain ⟨received, rfl, rfl⟩ := seen_sample_iff.mp hevent
    refine ⟨?_, rfl, rfl⟩
    simp only [baselines, hbefore]
    exact if_pos ⟨hphase, hunread before hbefore⟩
  have hbaselines : link.baselines terms step = [] ∨
      link.baselines terms step = [link.counter] := by
    unfold baselines
    cases step with
    | sample received now =>
      simp only
      cases link.entry terms with
      | none => exact Or.inl rfl
      | some entry =>
        simp only
        split_ifs
        · exact Or.inr rfl
        · exact Or.inl rfl
    | _ => exact Or.inl rfl
  rw [hcharges, List.map_nil, List.sum_nil, Nat.add_zero]
  refine ⟨?_, ?_, ?_⟩
  · intro hnone
    rw [Option.or_eq_none_iff] at hnone
    refine ⟨(hbilled.unbegun hnone.1).1, fun next hnext ↦ ?_⟩
    by_contra hsome
    have hread : next.lastCounters.isSome = true := Option.isSome_iff_ne_none.mpr hsome
    rw [(hstarted hnext hread).1] at hnone
    exact absurd hnone.2 (by simp)
  · intro start hstart
    cases first with
    | some begun =>
      obtain rfl : begun = start := by simpa using hstart
      exact (hbilled.within begun rfl).trans hcounter
    | none =>
      rw [(hbilled.unbegun rfl).1]
      rcases hbaselines with hnone | hone
      · rw [hnone] at hstart
        exact absurd hstart (by simp)
      · rw [hone] at hstart
        obtain rfl : link.counter = start := by simpa using hstart
        exact hcounter
  · intro start hstart next hnext hread
    obtain ⟨hone, hbaseline, hzero⟩ := hstarted hnext hread
    rw [hbaseline, hzero]
    refine ⟨?_, hcounter⟩
    show start.toNat + units ≤ link.counter.toNat + 0
    cases first with
    | some begun =>
      obtain rfl : begun = start := by simpa using hstart
      exact hbilled.within begun rfl
    | none =>
      rw [hone] at hstart
      obtain rfl : link.counter = start := by simpa using hstart
      rw [(hbilled.unbegun rfl).1]

/-- Assumes: a step that is not over-acknowledged. -/
theorem Billed.step {first : Option UInt64} {units : ℕ} (hbilled : link.Billed terms first units)
    {step : LinkStep} (hown : ¬ link.OverAcknowledged terms step) :
    (Link.step terms link step).Billed terms (first.or (link.baselines terms step).head?)
      (units + ((link.charges terms step).map fun charge ↦ charge.units.toNat).sum) := by
  by_cases hunread : ∀ entry, link.entry terms = some entry → entry.lastCounters = none
  · exact hbilled.step_unread step hunread
  · push Not at hunread
    obtain ⟨entry, hentry, hsome⟩ := hunread
    have hread : entry.lastCounters.isSome = true := Option.isSome_iff_ne_none.mpr hsome
    have hfirst : first.or (link.baselines terms step).head? = first := by
      cases first with
      | some start => rfl
      | none => exact absurd ((hbilled.unbegun rfl).2 entry hentry) hsome
    rw [hfirst]
    exact hbilled.step_baselined hown hentry hread

theorem Billed.run {first : Option UInt64} {units : ℕ} (hbilled : link.Billed terms first units)
    {steps : List LinkStep}
    (hown : (machine terms).Along (fun link step ↦ ¬ link.OverAcknowledged terms step) link
      steps) :
    ((machine terms).final link steps).Billed terms (first.or (link.firstBaseline terms steps))
      (units + link.unitsCharged terms steps) := by
  induction steps generalizing link first units with
  | nil =>
    have hfirst : first.or (link.firstBaseline terms []) = first := by
      cases first <;> rfl
    rw [hfirst]
    exact hbilled
  | cons step rest ih =>
    have hrest := ih (hbilled.step hown.1) hown.2
    have hunits : link.unitsCharged terms (step :: rest) =
        ((link.charges terms step).map fun charge ↦ charge.units.toNat).sum +
          (Link.step terms link step).unitsCharged terms rest := by
      unfold unitsCharged
      rw [Transducer.observe_cons, List.map_append, List.sum_append]
      rfl
    have hfirst : link.firstBaseline terms (step :: rest) =
        (link.baselines terms step).head?.or
          ((Link.step terms link step).firstBaseline terms rest) := by
      unfold firstBaseline
      rw [Transducer.observe_cons, List.head?_append]
      rfl
    rw [hunits, hfirst, ← Nat.add_assoc, ← Option.or_assoc]
    exact hrest

/-- Assumes: a run in which no sample is charged on an acknowledgement above the provider's own
count since its baseline. The units charged are at most the units delivered since the first
baseline, and none without one. -/
theorem units_within_delivery (terms : Terms) (price : Price) (policy : MeteringPolicy)
    (announce priceSheet : Bytes) (counter : UInt64) (steps : List LinkStep)
    (hown : (machine terms).Along (fun link step ↦ ¬ link.OverAcknowledged terms step)
      (new price policy announce priceSheet counter) steps) :
    let link := new price policy announce priceSheet counter
    match link.firstBaseline terms steps with
    | some first =>
      first.toNat + link.unitsCharged terms steps ≤ ((machine terms).final link steps).counter.toNat
    | none => link.unitsCharged terms steps = 0 := by
  intro link
  have hstart : link.Billed terms none 0 := by
    have hnobody : link.entry terms = none := by
      simp [link, new, entry, Session.start, Session.new, Session.setPrice,
        Session.setMeteringPolicy]
    refine ⟨fun _ ↦ ⟨rfl, fun entry hentry ↦ ?_⟩, by simp, by simp⟩
    rw [hnobody] at hentry
    exact absurd hentry (by simp)
  have hend := hstart.run hown
  rw [Option.none_or, Nat.zero_add] at hend
  cases hfirst : link.firstBaseline terms steps with
  | some first => exact hend.within first hfirst
  | none => exact (hend.unbegun hfirst).1

/-- A consumer pays, and is metered over two samples. -/
theorem units_within_delivery_of_oneSession :
    let steps := samplePayment ++ [.deliver 7, .sample 0 3, .deliver 100, .sample 0 4]
    (7 + sampleLink.unitsCharged (sampleTerms false) steps ≤ 100) ∧
      sampleLink.unitsCharged (sampleTerms false) steps = 93 := by
  intro steps
  have hown : (machine (sampleTerms false)).Along
      (fun link step ↦ ¬ link.OverAcknowledged (sampleTerms false) step) sampleLink steps := by
    decide +kernel +zetaReduce
  have hfirst : sampleLink.firstBaseline (sampleTerms false) steps = some 7 := by
    decide +kernel +zetaReduce
  have hcounter : ((machine (sampleTerms false)).final sampleLink steps).counter = 100 := by
    decide +kernel +zetaReduce
  have hcharged : sampleLink.unitsCharged (sampleTerms false) steps = 93 := by
    decide +kernel +zetaReduce
  -- nothing below looks at the steps, or computes with them
  clear_value steps
  have hwithin := units_within_delivery _ _ _ _ _ _ steps hown
  unfold sampleLink at hfirst hcounter ⊢
  simp only [hfirst, hcounter] at hwithin
  exact ⟨hwithin, hcharged⟩

/-- A consumer without a meter is charged for a hundred units, tops up, and acknowledges them when
the provider has started over: it is charged for them again. -/
theorem units_charged_twice_after_topUp :
    let steps := samplePayment ++ [.sample 0 3, .deliver 100, .sample 0 4] ++ sampleTopUp ++
      [.sample 0 8, .poll, .serve 9, .serve 9, .respond [], .sample 0 10]
    sampleLink.firstBaseline (sampleTerms false) steps = some 0 ∧
      ((machine (sampleTerms false)).final sampleLink steps).counter = 100 ∧
      sampleLink.unitsCharged (sampleTerms false) steps = 200 := by
  decide +kernel

-- A consumer with a meter counts from its payment on: what is delivered before the provider's first
-- sample is charged, in the first metering session already.
example :
    let terms : Terms := { sampleTerms true with opts := ⟨10, 1, 0, true⟩ }
    let steps := samplePayment ++ [.deliver 50, .sample 0 3, .poll, .serve 4, .serve 4, .respond [],
      .poll, .serve 4, .serve 4, .respond [], .sample 0 5]
    sampleLink.firstBaseline terms steps = some 50 ∧ sampleLink.unitsCharged terms steps = 50 := by
  decide +kernel

end Link

end Tollgate
