import Tollgate.Core.ExactBilling
import Tollgate.Core.Ledger
import Tollgate.Net.Consume
import Tollgate.Net.Driver

/-!
# The cost as provider and consumer see it

The provider charges each sample by itself and truncates the time part each time; the consumer
applies the same price once, to the totals of the last report. `costs_between` compares the two for
a list of charges: the provider's sum is never above the consumer's figure and falls short of it by
less than one for each charge. `cost_agreement` puts the two parties around it: the report that the
consumer finds in its poll is the last one that was sent, and it carries the totals of what was
charged.
-/

set_option autoImplicit false
set_option relaxedAutoImplicit false

namespace Tollgate

open Std Increments

/-! ### Instalments and totals -/

/-- With a price that is not negative the exact cost is one of natural numbers. -/
theorem Price.exactCost_of_nonneg {price : Price} (hsecond : 0 ≤ price.perSecond.toInt)
    (hunit : 0 ≤ price.perUnit.toInt) (elapsedMs units : ℕ) :
    price.exactCost elapsedMs units =
      ((elapsedMs * price.perSecond.toInt.toNat / 1000 +
        units * price.perUnit.toInt.toNat : ℕ) : ℤ) := by
  obtain ⟨perSecond, hperSecond⟩ := Int.eq_ofNat_of_zero_le hsecond
  obtain ⟨perUnit, hperUnit⟩ := Int.eq_ofNat_of_zero_le hunit
  rw [exactCost, hperSecond, hperUnit]
  simp only [Int.toNat_natCast]
  push_cast
  rw [Int.tdiv_eq_ediv_of_nonneg (by positivity)]

/-- Assumes: charges at one price that is not negative, whose totals cost less than `2 ^ 63`. None
of them saturates, since the totals do not. -/
theorem toInt_cost_of_mem {price : Price} (hsecond : 0 ≤ price.perSecond.toInt)
    (hunit : 0 ≤ price.perUnit.toInt) {charges : List Charge}
    (hcost : ∀ charge ∈ charges, charge.cost = price.costScaled charge.elapsed charge.units)
    (hfits : price.exactCost (charges.map fun charge ↦ charge.elapsed.toNat).sum
      (charges.map fun charge ↦ charge.units.toNat).sum < 2 ^ 63) {charge : Charge}
    (hcharge : charge ∈ charges) :
    charge.cost.toInt = ((charge.elapsed.toNat * price.perSecond.toInt.toNat / 1000 +
      charge.units.toNat * price.perUnit.toInt.toNat : ℕ) : ℤ) := by
  have hexact := Price.exactCost_of_nonneg hsecond hunit charge.elapsed.toNat charge.units.toNat
  rw [Price.exactCost_of_nonneg hsecond hunit] at hfits
  have htime : charge.elapsed.toNat * price.perSecond.toInt.toNat / 1000 ≤
      (charges.map fun charge ↦ charge.elapsed.toNat).sum * price.perSecond.toInt.toNat / 1000 :=
    Nat.div_le_div_right (Nat.mul_le_mul_right _
      (List.le_sum_of_mem (List.mem_map.mpr ⟨charge, hcharge, rfl⟩)))
  have hunits : charge.units.toNat * price.perUnit.toInt.toNat ≤
      (charges.map fun charge ↦ charge.units.toNat).sum * price.perUnit.toInt.toNat :=
    Nat.mul_le_mul_right _ (List.le_sum_of_mem (List.mem_map.mpr ⟨charge, hcharge, rfl⟩))
  rw [hcost charge hcharge, Price.toInt_costScaled _ _ _ (by omega) (by omega), hexact]

/-- Assumes: charges at one price that is not negative, whose totals cost less than `2 ^ 63`. What
they add up to lies between the cost of the totals and one less for each charge but one. -/
theorem costs_between {price : Price} (hsecond : 0 ≤ price.perSecond.toInt)
    (hunit : 0 ≤ price.perUnit.toInt) {charges : List Charge} (hne : charges ≠ [])
    (hcost : ∀ charge ∈ charges, charge.cost = price.costScaled charge.elapsed charge.units)
    (hfits : price.exactCost (charges.map fun charge ↦ charge.elapsed.toNat).sum
      (charges.map fun charge ↦ charge.units.toNat).sum < 2 ^ 63) :
    (charges.map fun charge ↦ charge.cost.toInt).sum ≤
        price.exactCost (charges.map fun charge ↦ charge.elapsed.toNat).sum
          (charges.map fun charge ↦ charge.units.toNat).sum ∧
      price.exactCost (charges.map fun charge ↦ charge.elapsed.toNat).sum
          (charges.map fun charge ↦ charge.units.toNat).sum -
        (charges.map fun charge ↦ charge.cost.toInt).sum ≤ charges.length - 1 := by
  have heach := fun charge (hcharge : charge ∈ charges) ↦
    toInt_cost_of_mem hsecond hunit hcost hfits hcharge
  rw [Price.exactCost_of_nonneg hsecond hunit]
  set perSecond := price.perSecond.toInt.toNat
  set perUnit := price.perUnit.toInt.toNat
  set parts := charges.map fun charge ↦ charge.elapsed.toNat * perSecond with hparts
  have hsum : (charges.map fun charge ↦ charge.elapsed.toNat).sum * perSecond = parts.sum := by
    rw [hparts, List.sum_map_mul_right]
  -- The costs are the truncated parts of the time and the undivided cost of the units.
  have hcosts : (charges.map fun charge ↦ charge.cost.toInt).sum =
      (((parts.map (· / 1000)).sum +
        (charges.map fun charge ↦ charge.units.toNat).sum * perUnit : ℕ) : ℤ) := by
    have hsplit : (charges.map fun charge ↦
        charge.elapsed.toNat * perSecond / 1000 + charge.units.toNat * perUnit).sum =
        (parts.map (· / 1000)).sum +
          (charges.map fun charge ↦ charge.units.toNat).sum * perUnit := by
      rw [← List.sum_map_mul_right, hparts, List.map_map, ← List.sum_map_add]
      rfl
    rw [List.map_congr_left heach, ← hsplit, Nat.cast_list_sum, List.map_map]
    rfl
  have hbelow := sum_div_le parts 1000
  have habove := @div_sum_lt 1000 (by omega) parts (by simp [hparts, hne])
  have hlength : parts.length = charges.length := List.length_map _
  rw [hcosts, hsum]
  omega

/-! ### The units charged when our own count is the higher one -/

/-- At a sample, the report on file is not above our count since `baseline`. -/
def Entry.ReportWithin (baseline : Counters) (entry : Option PeerSession) (event : PeerEvent) :
    Prop :=
  ∀ tracked counters now, entry = some tracked → event = .sample counters now →
    Entry.receivedOf tracked.peerReport ≤
      counters.delivered.toNat - baseline.delivered.toNat

instance (baseline : Counters) :
    (entry : Option PeerSession) → (event : PeerEvent) →
      Decidable (Entry.ReportWithin baseline entry event)
  | some tracked, .sample counters now =>
    decidable_of_iff (Entry.receivedOf tracked.peerReport ≤
        counters.delivered.toNat - baseline.delivered.toNat)
      ⟨by rintro hle _ _ _ ⟨⟩ ⟨⟩; exact hle, fun hall ↦ hall tracked counters now rfl rfl⟩
  | none, event => isTrue fun _ _ _ hentry ↦ nomatch hentry
  | some _, .idle | some _, .connected | some _, .disconnected | some _, .token _
  | some _, .reject | some _, .priceSheet _ | some _, .accept _ | some _, .report _
  | some _, .verified _ _ _ => isTrue fun _ _ _ _ hevent ↦ nomatch hevent

/-- Assumes: a metering session of an active entry, readings that never decrease, and no report
above our own count at a sample. The units charged are our own count. -/
theorem Entry.units_own (cbor : Minicbor) (price : Price) (policy : MeteringPolicy)
    (peer : PeerId) {entry : PeerSession} {baseline counters : Counters} {start now : Millis}
    {events : List PeerEvent}
    (hactive : (Entry.machine cbor price policy peer).Along (fun entry _ ↦ Entry.Active entry)
      (some (entry.resetMetering baseline start)) (events ++ [PeerEvent.sample counters now]))
    (hreadings : ((baseline, start) ::
      (events ++ [PeerEvent.sample counters now]).filterMap PeerEvent.reading).Pairwise
        Counters.NoDecrease)
    (hwithin : (Entry.machine cbor price policy peer).Along (Entry.ReportWithin baseline)
      (some (entry.resetMetering baseline start)) (events ++ [PeerEvent.sample counters now])) :
    (((Entry.machine cbor price policy peer).observe (Entry.charges price)
        (some (entry.resetMetering baseline start)) (events ++ [PeerEvent.sample counters now])).map
        fun charge ↦ charge.units.toNat).sum =
      counters.delivered.toNat - baseline.delivered.toNat := by
  have hbaseline := Entry.hasBaseline_along cbor price policy peer rfl hactive
  have hown : (Entry.machine cbor price policy peer).observe (Entry.reconciled baseline)
      (some (entry.resetMetering baseline start)) (events ++ [PeerEvent.sample counters now]) =
      (Entry.machine cbor price policy peer).observe
        (Entry.atCharge fun _ counters _ ↦
          counters.delivered.toNat - baseline.delivered.toNat)
        (some (entry.resetMetering baseline start))
        (events ++ [PeerEvent.sample counters now]) := by
    refine Transducer.observe_congr_along _ (hwithin.mono fun state event hstate ↦ ?_)
    cases event with
    | sample counters now =>
      cases state with
      | none => rfl
      | some tracked =>
        have hle := hstate tracked counters now rfl rfl
        simp only [Entry.reconciled, Entry.atCharge, max_eq_left hle]
    | _ => rfl
  have hlist : ((events ++ [PeerEvent.sample counters now]).filterMap PeerEvent.reading).map
      (fun reading ↦ reading.1.delivered.toNat - baseline.delivered.toNat) =
      (events.filterMap PeerEvent.reading).map
          (fun reading ↦ reading.1.delivered.toNat - baseline.delivered.toNat) ++
        [counters.delivered.toNat - baseline.delivered.toNat] := by
    simp [List.filterMap_append, PeerEvent.reading]
  have hsorted : (0 :: ((events.filterMap PeerEvent.reading).map
      (fun reading ↦ reading.1.delivered.toNat - baseline.delivered.toNat) ++
        [counters.delivered.toNat - baseline.delivered.toNat])).Pairwise (· ≤ ·) := by
    rw [← hlist]
    refine List.pairwise_cons.mpr ⟨fun _ _ ↦ Nat.zero_le _, List.pairwise_map.mpr ?_⟩
    refine (List.pairwise_cons.mp hreadings).2.imp fun hle ↦ ?_
    have hgrown := UInt64.le_iff_toNat_le.mp hle.1
    omega
  have htelescope := rises_of_sorted hsorted
  have hzero : (entry.resetMetering baseline start).billedUnits.toNat = 0 := rfl
  have hstart : (entry.resetMetering baseline start).meteringBaseline = baseline := rfl
  rw [Entry.units_eq_rises cbor price policy peer hbaseline,
    Entry.observe_reconciled cbor price policy peer hbaseline, hzero, hstart, hown,
    Entry.observe_readings cbor price policy peer
      (fun counters _ ↦ counters.delivered.toNat - baseline.delivered.toNat) rfl hactive, hlist]
  omega

/-! ### The report that the consumer finds -/

theorem execute_append (cbor : Minicbor) (peer : PeerId) (queue : List Bytes)
    (first second : List Action) :
    execute cbor peer queue (first ++ second) =
      execute cbor peer (execute cbor peer queue first) second := by
  rw [execute, execute, execute, List.filterMap_append, List.foldl_append]

/-- A fresh report is the only one queued. -/
theorem ofType_enqueue_report {cbor : Minicbor} {message : Bytes}
    (hpeek : cbor.peekType message = some .meteringReport) (queue : List Bytes) :
    ofType cbor (enqueue cbor queue message) .meteringReport = [message] := by
  rw [ofType, enqueue, if_pos hpeek, List.filter_append, List.filter_filter]
  simp [hpeek]

/-- Another body leaves the queued report as it is. -/
theorem ofType_enqueue_other {cbor : Minicbor} {message : Bytes}
    (hpeek : cbor.peekType message ≠ some .meteringReport) (queue : List Bytes) :
    ofType cbor (enqueue cbor queue message) .meteringReport =
      ofType cbor queue .meteringReport := by
  rw [ofType, ofType, enqueue, if_neg hpeek, List.filter_append]
  simp [hpeek]

theorem ofType_foldl_other {cbor : Minicbor} {messages : List Bytes}
    (hpeek : ∀ message ∈ messages, cbor.peekType message ≠ some .meteringReport)
    (queue : List Bytes) :
    ofType cbor (messages.foldl (enqueue cbor) queue) .meteringReport =
      ofType cbor queue .meteringReport := by
  induction messages generalizing queue with
  | nil => rfl
  | cons message rest ih =>
    rw [List.foldl_cons, ih fun later hlater ↦ hpeek later (List.mem_cons_of_mem _ hlater),
      ofType_enqueue_other (hpeek message List.mem_cons_self)]

/-- Assumes: a lawful codec, and actions that send a report with only rejections after it. That
report is what the consumer finds when it polls, whatever was queued before. -/
theorem findMeteringReport_execute {cbor : Minicbor} (hlawful : cbor.Lawful) {peer : PeerId}
    (queue : List Bytes) (warning : List Action) {suspension : List Action}
    (elapsedMs delivered received : UInt64)
    (hrejects : ∀ bytes, Action.send peer bytes ∈ suspension →
      ∃ reason, bytes = cbor.encodeReject (Reject.new .meteringReport reason)) :
    findMeteringReport cbor (execute cbor peer queue (warning ++
        [Action.send peer
          (cbor.encodeMeteringReport (MeteringReport.new elapsedMs delivered received))] ++
        suspension)) =
      some (MeteringReport.new elapsedMs delivered received) := by
  have hother : ∀ message ∈ suspension.filterMap (Action.sentTo peer),
      cbor.peekType message ≠ some .meteringReport := by
    intro message hmessage
    obtain ⟨action, haction, hsent⟩ := List.mem_filterMap.mp hmessage
    cases action with
    | send other bytes =>
      simp only [Action.sentTo] at hsent
      split_ifs at hsent with hpeer
      obtain rfl := Option.some.inj hsent
      rw [hpeer] at haction
      obtain ⟨reason, rfl⟩ := hrejects _ haction
      rw [hlawful.peekType_reject]
      simp
    | _ => exact absurd hsent (by simp [Action.sentTo])
  have hsent : [Action.send peer (cbor.encodeMeteringReport
      (MeteringReport.new elapsedMs delivered received))].filterMap (Action.sentTo peer) =
      [cbor.encodeMeteringReport (MeteringReport.new elapsedMs delivered received)] := by
    simp [Action.sentTo]
  rw [execute_append, execute_append, findMeteringReport, execute, ofType_foldl_other hother,
    execute, hsent, List.foldl_cons, List.foldl_nil,
    ofType_enqueue_report (hlawful.peekType_meteringReport elapsedMs delivered received),
    List.findSome?_cons, hlawful.decode_meteringReport]

/-! ### The two parties -/

/-- Every charge is the price applied to its time and its units. -/
theorem Entry.cost_of_mem_charges {price : Price} {entry : Option PeerSession} {event : PeerEvent}
    {charge : Charge} (hcharge : charge ∈ Entry.charges price entry event) :
    charge.cost = price.costScaled charge.elapsed charge.units := by
  cases entry with
  | none => cases event <;> exact absurd hcharge List.not_mem_nil
  | some tracked =>
    rw [Entry.charges_eq_atCharge] at hcharge
    obtain ⟨counters, now, -, -, -, rfl⟩ := Entry.mem_atCharge hcharge
    rfl

/-- The balance covers the cost of every charge that an event makes. -/
def Entry.Covered (price : Price) (entry : Option PeerSession) (event : PeerEvent) : Prop :=
  ∀ tracked, entry = some tracked → ∀ charge ∈ Entry.charges price entry event,
    charge.cost.toInt ≤ tracked.balance.toNat

instance (price : Price) :
    (entry : Option PeerSession) → (event : PeerEvent) →
      Decidable (Entry.Covered price entry event)
  | none, event => isTrue fun _ hentry ↦ nomatch hentry
  | some tracked, event =>
    decidable_of_iff (∀ charge ∈ Entry.charges price (some tracked) event,
        charge.cost.toInt ≤ tracked.balance.toNat)
      ⟨by rintro hall _ ⟨⟩; exact hall, fun hall ↦ hall tracked rfl⟩

/-- Assumes: a balance that covers every charge. What is deducted is the cost. -/
theorem Entry.sum_deductions {cbor : Minicbor} {price : Price} {policy : MeteringPolicy}
    {peer : PeerId} {entry : Option PeerSession} {events : List PeerEvent}
    (hcovered : (Entry.machine cbor price policy peer).Along (Entry.Covered price) entry events) :
    (Entry.machine cbor price policy peer).observe (Entry.deductions price) entry events =
      ((Entry.machine cbor price policy peer).observe (Entry.charges price) entry events).map
        fun charge ↦ (max charge.cost.toInt 0).toNat := by
  rw [Transducer.map_observe]
  refine Transducer.observe_congr_along _ (hcovered.mono fun state event hstate ↦ ?_)
  cases state with
  | none => cases event <;> rfl
  | some tracked =>
    cases event with
    | sample counters now =>
      have hall := hstate tracked rfl
      rw [Entry.charges_eq_atCharge, Entry.map_atCharge, Entry.deductions]
      rw [Entry.charges_eq_atCharge] at hall
      by_cases hcharged : tracked.phase = .active ∧ tracked.lastCounters.isSome = true
      · rw [Entry.atCharge_sample _ hcharged.1 hcharged.2] at hall
        have hcost := hall _ (List.mem_singleton.mpr rfl)
        rw [Entry.atCharge_sample _ hcharged.1 hcharged.2,
          Entry.atCharge_sample _ hcharged.1 hcharged.2]
        simp only [PeerSession.charge] at hcost ⊢
        rw [min_eq_right (by omega)]
      · simp only [Entry.atCharge]
        rw [if_neg hcharged, if_neg hcharged]
    | _ => rfl

/-- In a metering session that stays active there is one charge for each reading. -/
theorem Entry.length_charges (cbor : Minicbor) (price : Price) (policy : MeteringPolicy)
    (peer : PeerId) {entry : PeerSession} (hread : entry.lastCounters.isSome = true)
    {events : List PeerEvent}
    (hactive : (Entry.machine cbor price policy peer).Along (fun entry _ ↦ Entry.Active entry)
      (some entry) events) :
    ((Entry.machine cbor price policy peer).observe (Entry.charges price) (some entry)
        events).length =
      (events.filterMap PeerEvent.reading).length := by
  have hcount := Entry.observe_readings cbor price policy peer (fun _ _ ↦ ()) hread hactive
  have hunit : ((Entry.machine cbor price policy peer).observe (Entry.charges price) (some entry)
      events).map (fun _ ↦ ()) =
      (Entry.machine cbor price policy peer).observe (Entry.atCharge fun _ _ _ ↦ ()) (some entry)
        events := by
    rw [Transducer.map_observe]
    congr 1
    funext state event
    rw [Entry.charges_eq_atCharge, Entry.map_atCharge]
  have hlengths := congrArg List.length (hunit.trans hcount)
  rwa [List.length_map, List.length_map] at hlengths

/-- An entry that is active at every event of a run and tracked at its end is tracked
throughout. -/
theorem Entry.tracked_of_active {cbor : Minicbor} {price : Price} {policy : MeteringPolicy}
    {peer : PeerId} {entry : Option PeerSession} {events : List PeerEvent}
    (hactive : (Entry.machine cbor price policy peer).Along (fun entry _ ↦ Entry.Active entry)
      entry events)
    (hend : ((Entry.machine cbor price policy peer).final entry events).isSome = true) :
    (Entry.machine cbor price policy peer).Throughout (fun state ↦ state.isSome = true) entry
      events := by
  induction events generalizing entry with
  | nil => exact (Transducer.throughout_nil _ _ _).mpr hend
  | cons event rest ih =>
    rw [Transducer.throughout_cons]
    refine ⟨?_, ih hactive.2 hend⟩
    obtain ⟨tracked, rfl, -⟩ := hactive.1
    rfl

/-- Assumes: a lawful codec and a run of a metering session that ends in a sample. What the consumer
finds when it polls after it is the report of that sample. -/
theorem findMeteringReport_of_run {cbor : Minicbor} (hlawful : cbor.Lawful) {session : Session}
    {peer : PeerId} {entry : PeerSession} (hentry : session.peers[peer]? = some entry)
    (hread : entry.lastCounters = none) {baseline : Counters} {start : Millis}
    {events : List (Event × Millis)} {counters : Counters} {now : Millis}
    (hactive : (Session.machine cbor).Along
      (fun session _ ↦ session.peerPhase peer = some .active) session
      ((.meterSample peer baseline, start) :: (events ++ [(Event.meterSample peer counters, now)])))
    (hreadings : (readings cbor peer ((.meterSample peer baseline, start) ::
      (events ++ [(Event.meterSample peer counters, now)]))).Pairwise Counters.NoDecrease)
    (queue : List Bytes) :
    findMeteringReport cbor (execute cbor peer queue ((Session.machine cbor).outputs session
        ((.meterSample peer baseline, start) ::
          (events ++ [(Event.meterSample peer counters, now)])))) =
      some (MeteringReport.new (now - start) (counters.delivered - baseline.delivered)
        (counters.received - baseline.received)) := by
  obtain ⟨-, -, reached, hreached, hserved, hlast, -, -, hreport⟩ :=
    reached_before_sample hentry hread hactive hreadings
  set middle := (Session.machine cbor).final session ((.meterSample peer baseline, start) :: events)
    with hmiddle
  have hself := @Session.handle_self cbor middle peer (.meterSample peer counters) now rfl
  rw [PeerEvent.of_meterSample, hreached,
    Entry.step_sample_charge cbor middle.price middle.policy peer hserved hlast] at hself
  obtain ⟨warning, suspension, hsends, hrejects⟩ := PeerSession.chargeSample_sends cbor peer
    reached middle.price middle.policy counters now
  have hlastOutputs : (Session.machine cbor).outputs middle
      [(.meterSample peer counters, now)] =
      warning ++ [Action.send peer (cbor.encodeMeteringReport (MeteringReport.new (now - start)
        (counters.delivered - baseline.delivered) (counters.received - baseline.received)))] ++
        suspension := by
    rw [← hreport, ← hsends, ← hself.2]
    exact List.append_nil _
  rw [← List.cons_append, Transducer.outputs_append, ← hmiddle, hlastOutputs, execute_append]
  exact findMeteringReport_execute hlawful _ warning _ _ _ fun bytes hbytes ↦
    hrejects bytes (List.mem_append_right _ hbytes)

/-- Assumes: a metering session of an active entry in which the balance covers every charge, no
charge is negative, and credits that fit. The balance at its end is what was paid less the
charges. -/
theorem Entry.balance_of_covered {cbor : Minicbor} {price : Price} {policy : MeteringPolicy}
    {peer : PeerId} {entry : PeerSession} {events : List PeerEvent}
    (hactive : (Entry.machine cbor price policy peer).Along (fun entry _ ↦ Entry.Active entry)
      (some entry) events)
    (hend : ((Entry.machine cbor price policy peer).final (some entry) events).isSome = true)
    (hcovered : (Entry.machine cbor price policy peer).Along (Entry.Covered price) (some entry)
      events)
    (hnonneg : ∀ charge ∈ (Entry.machine cbor price policy peer).observe (Entry.charges price)
      (some entry) events, 0 ≤ charge.cost.toInt)
    (hcredits : entry.balance.toNat + (events.map PeerEvent.credit).sum < 2 ^ 64) :
    ∃ left, (Entry.machine cbor price policy peer).final (some entry) events = some left ∧
      (left.balance.toNat : ℤ) = entry.balance.toNat + (events.map PeerEvent.credit).sum -
        (((Entry.machine cbor price policy peer).observe (Entry.charges price) (some entry)
          events).map fun charge ↦ charge.cost.toInt).sum := by
  obtain ⟨left, hfinal, hbalance⟩ := Entry.balance_run cbor price policy peer
    (Entry.tracked_of_active hactive hend) hcredits
  refine ⟨left, hfinal, ?_⟩
  set charges := (Entry.machine cbor price policy peer).observe (Entry.charges price) (some entry)
    events
  have hsum : (((charges.map fun charge ↦ (max charge.cost.toInt 0).toNat).sum : ℕ) : ℤ) =
      (charges.map fun charge ↦ charge.cost.toInt).sum := by
    rw [Nat.cast_list_sum, List.map_map]
    congr 1
    refine List.map_congr_left fun charge hcharge ↦ ?_
    have hcost := hnonneg charge hcharge
    simp only [Function.comp_apply]
    omega
  rw [Entry.sum_deductions hcovered] at hbalance
  have hpaid : (left.balance.toNat : ℤ) +
      ((charges.map fun charge ↦ (max charge.cost.toInt 0).toNat).sum : ℕ) =
      entry.balance.toNat + (events.map PeerEvent.credit).sum := by
    exact_mod_cast hbalance
  omega

/-- Assumes: a lawful codec, a price that is not negative, an active peer without a baseline, a run
that starts with its baseline sample and ends in a sample, with the peer active at every event of
it, readings that never decrease, no report above our own count at a sample, totals that cost less
than `2 ^ 63`, a balance that covers every charge and credits that fit. Then with `n` samples after
the baseline the provider's charges add up to at most what the consumer reckons from the last report
in its poll, and to at least that less `n - 1`; and what the consumer thinks it has left is at most
the provider's balance and at least that less `n - 1`. -/
theorem cost_agreement {cbor : Minicbor} (hlawful : cbor.Lawful) {session : Session}
    {peer : PeerId} (hsecond : 0 ≤ session.price.perSecond.toInt)
    (hunit : 0 ≤ session.price.perUnit.toInt) {entry : PeerSession}
    (hentry : session.peers[peer]? = some entry) (hread : entry.lastCounters = none)
    {baseline : Counters} {start : Millis} {events : List (Event × Millis)} {counters : Counters}
    {now : Millis}
    (hactive : (Session.machine cbor).Along
      (fun session _ ↦ session.peerPhase peer = some .active) session
      ((.meterSample peer baseline, start) :: (events ++ [(.meterSample peer counters, now)])))
    (hreadings : (readings cbor peer ((.meterSample peer baseline, start) ::
      (events ++ [(.meterSample peer counters, now)]))).Pairwise Counters.NoDecrease)
    (hwithin : (Session.machine cbor).Along
      (fun session input ↦ Entry.ReportWithin baseline session.peers[peer]?
        (PeerEvent.of cbor peer input))
      (session.handle cbor (.meterSample peer baseline) start).1
      (events ++ [(.meterSample peer counters, now)]))
    (hcost : session.price.exactCost (now.toNat - start.toNat)
      (counters.delivered.toNat - baseline.delivered.toNat) < 2 ^ 63)
    (hcovered : (Session.machine cbor).Along
      (fun reached input ↦ Entry.Covered session.price reached.peers[peer]?
        (PeerEvent.of cbor peer input))
      (session.handle cbor (.meterSample peer baseline) start).1
      (events ++ [(.meterSample peer counters, now)]))
    (hcredits : entry.balance.toNat + (events.map (credit peer)).sum < 2 ^ 64)
    (queue : List Bytes) :
    let run := (.meterSample peer baseline, start) ::
      (events ++ [(.meterSample peer counters, now)])
    let samples := (readings cbor peer (events ++ [(.meterSample peer counters, now)])).length
    let charged := (((Session.machine cbor).observe (Session.charges cbor peer) session run).map
      fun charge ↦ charge.cost.toInt).sum
    let reckoned := (Consumer.costOf session.price (findMeteringReport cbor
      (execute cbor peer queue ((Session.machine cbor).outputs session run))) none).toInt
    let paid : ℤ := entry.balance.toNat + (events.map (credit peer)).sum
    charged ≤ reckoned ∧ reckoned - charged ≤ samples - 1 ∧
      ∃ left, ((Session.machine cbor).final session run).peers[peer]? = some left ∧
        paid - reckoned ≤ left.balance.toNat ∧
        (left.balance.toNat : ℤ) - (paid - reckoned) ≤ samples - 1 := by
  intro run samples charged reckoned paid
  have hfound := findMeteringReport_of_run hlawful hentry hread hactive hreadings queue
  obtain ⟨hphase, hstays, -⟩ := reached_before_sample hentry hread hactive hreadings
  have hself := @Session.handle_self cbor session peer (.meterSample peer baseline) start rfl
  rw [PeerEvent.of_meterSample, hentry,
    Entry.step_sample_baseline cbor session.price session.policy peer hphase hread] at hself
  obtain ⟨-, hprice, hpolicy⟩ := session.handle_frame cbor (.meterSample peer baseline) start
  have hview : (events ++ [(Event.meterSample peer counters, now)]).map (PeerEvent.of cbor peer) =
      events.map (PeerEvent.of cbor peer) ++ [PeerEvent.sample counters now] := by
    rw [List.map_append, List.map_cons, List.map_nil, PeerEvent.of_meterSample]
  rw [along_entry (Entry.ReportWithin baseline), hself.1, hprice, hpolicy, hview] at hwithin
  rw [along_entry (Entry.Covered session.price), hself.1, hprice, hpolicy, hview] at hcovered
  rw [readings, List.map_cons, hview, PeerEvent.of_meterSample] at hreadings
  have hgrown : Counters.NoDecrease (baseline, start) (counters, now) := by
    refine (List.pairwise_cons.mp hreadings).1 (counters, now) ?_
    simp [List.filterMap_append, PeerEvent.reading]
  -- The charges of the run, their number and their totals.
  set charges := (Entry.machine cbor session.price session.policy peer).observe
    (Entry.charges session.price) (some (entry.resetMetering baseline start))
    (events.map (PeerEvent.of cbor peer) ++ [PeerEvent.sample counters now]) with hcharges
  have hcharged : charged = (charges.map fun charge ↦ charge.cost.toInt).sum := by
    simp only [charged, run]
    rw [charges_from_baseline hentry hphase hread, hview]
  have hlength : charges.length = samples := by
    rw [hcharges, Entry.length_charges cbor session.price session.policy peer rfl hstays]
    simp only [samples, readings, hview]
  have hsamples : 0 < samples := by
    simp [samples, readings, hview, List.filterMap_append, PeerEvent.reading]
  have hne : charges ≠ [] := List.ne_nil_of_length_pos (by omega)
  have helapsed : (charges.map fun charge ↦ charge.elapsed.toNat).sum =
      now.toNat - start.toNat :=
    Entry.elapsed_exact cbor session.price session.policy peer hstays hreadings
  have hunits : (charges.map fun charge ↦ charge.units.toNat).sum =
      counters.delivered.toNat - baseline.delivered.toNat :=
    Entry.units_own cbor session.price session.policy peer hstays hreadings hwithin
  have hpriced : ∀ charge ∈ charges,
      charge.cost = session.price.costScaled charge.elapsed charge.units :=
    Transducer.forall_mem_observe _ (fun _ _ _ hcharge ↦ Entry.cost_of_mem_charges hcharge) _ _
  have hfits : session.price.exactCost (charges.map fun charge ↦ charge.elapsed.toNat).sum
      (charges.map fun charge ↦ charge.units.toNat).sum < 2 ^ 63 := by
    rw [helapsed, hunits]
    exact hcost
  have hbetween := costs_between hsecond hunit hne hpriced hfits
  rw [helapsed, hunits, hlength] at hbetween
  have hreckoned : reckoned = session.price.exactCost (now.toNat - start.toNat)
      (counters.delivered.toNat - baseline.delivered.toNat) := by
    have htime : (now - start).toNat = now.toNat - start.toNat :=
      UInt64.toNat_sub_of_le _ _ hgrown.2.2
    have hcount : (counters.delivered - baseline.delivered).toNat =
        counters.delivered.toNat - baseline.delivered.toNat :=
      UInt64.toNat_sub_of_le _ _ hgrown.1
    have hlow := Price.exactCost_of_nonneg hsecond hunit (now.toNat - start.toNat)
      (counters.delivered.toNat - baseline.delivered.toNat)
    simp only [reckoned, run]
    rw [hfound]
    rw [← htime, ← hcount] at hcost hlow ⊢
    have hnonneg : 0 ≤ session.price.exactCost (now - start).toNat
        (counters.delivered - baseline.delivered).toNat := by
      rw [hlow]
      exact Int.natCast_nonneg _
    exact Price.toInt_costScaled _ _ _ (Int.le_trans (by decide) hnonneg) hcost
  refine ⟨by omega, by omega, ?_⟩
  -- The balance is what was paid less the charges.
  have hfinal : ((Session.machine cbor).final session run).peers[peer]? =
      (Entry.machine cbor session.price session.policy peer).final
        (some (entry.resetMetering baseline start))
        (events.map (PeerEvent.of cbor peer) ++ [PeerEvent.sample counters now]) := by
    rw [getElem?_final, hentry, List.map_cons, hview, PeerEvent.of_meterSample,
      Transducer.final_cons, Entry.machine_step,
      Entry.step_sample_baseline cbor session.price session.policy peer hphase hread]
  have hcredit : ((events.map (PeerEvent.of cbor peer) ++ [PeerEvent.sample counters now]).map
      PeerEvent.credit).sum = (events.map (credit peer)).sum := by
    rw [List.map_append, List.sum_append, sum_credit]
    rfl
  have hend : ((Entry.machine cbor session.price session.policy peer).final
      (some (entry.resetMetering baseline start))
      (events.map (PeerEvent.of cbor peer) ++ [PeerEvent.sample counters now])).isSome = true := by
    obtain ⟨-, hlastActive, -⟩ := (Transducer.along_append _ _ _ _ _).mp hstays
    obtain ⟨reached, hreached, -⟩ := hlastActive
    rw [Transducer.final_append, hreached]
    rfl
  obtain ⟨left, hleft, hbalance⟩ := Entry.balance_of_covered hstays hend hcovered
    (fun charge hcharge ↦ by
      rw [toInt_cost_of_mem hsecond hunit hpriced hfits hcharge]
      exact Int.natCast_nonneg _)
    (by rw [hcredit]; exact hcredits)
  rw [hcredit, ← hcharges] at hbalance
  refine ⟨left, hfinal.trans hleft, ?_⟩
  have hsame : (entry.resetMetering baseline start).balance = entry.balance := rfl
  rw [hsame] at hbalance
  omega

/-- A peer that has paid, at a price for time and for units. -/
def timedSession : Session :=
  (Session.machine Minicbor.derived).final (Session.start ⟨1, 2⟩ MeteringPolicy.default)
    [(.peerConnected samplePeer, 0), (.bootstrapVerified samplePeer 5000 true, 1)]

/-- Three samples half a second apart: the provider truncates twice what the consumer truncates
once. -/
theorem cost_agreement_of_halfSeconds :
    let run := [(.meterSample samplePeer ⟨5, 0⟩, 0), (.meterSample samplePeer ⟨15, 0⟩, 500),
      (.meterSample samplePeer ⟨20, 0⟩, 1000)]
    let charged := (((Session.machine Minicbor.derived).observe
      (Session.charges Minicbor.derived samplePeer) timedSession run).map
      fun charge ↦ charge.cost.toInt).sum
    let reckoned := (Consumer.costOf timedSession.price (findMeteringReport Minicbor.derived
      (execute Minicbor.derived samplePeer []
        ((Session.machine Minicbor.derived).outputs timedSession run))) none).toInt
    charged ≤ reckoned ∧ reckoned - charged ≤ 1 := by
  have hentry : timedSession.peers[samplePeer]? = some
      { PeerSession.new with phase := .active, balance := 5000, lastMeterAt := 1 } := by
    decide +kernel
  have hagree := @cost_agreement Minicbor.derived Minicbor.derived_lawful timedSession samplePeer
    (by decide +kernel) (by decide +kernel) _ hentry rfl ⟨5, 0⟩ 0
    [(.meterSample samplePeer ⟨15, 0⟩, 500)] ⟨20, 0⟩ 1000 (by decide +kernel) (by decide +kernel)
    (by decide +kernel) (by decide +kernel) (by decide +kernel) (by decide +kernel) []
  exact ⟨hagree.1, hagree.2.1⟩

end Tollgate
