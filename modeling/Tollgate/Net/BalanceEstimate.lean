import Tollgate.Net.Account
import Tollgate.Net.DeliveredUnits
import Tollgate.Net.RequestOrder

/-!
# The balance as the consumer reckons it

The consumer takes the cost of the last report off what it has paid. The report counts from the
provider's baseline, so this is right as long as what the consumer counts as paid is not above what
it was worth when the baseline was set. A cut-off top-up starts both accounts afresh. A proactive
one only adds to the consumer's total while the provider sets a new baseline, and what the old
session cost is then nowhere taken off.

`Link.Solvent` is the relation that holds as long as no such top-up ends a session that has cost
something, and `remaining_within_balance` what follows for every poll.
-/

set_option autoImplicit false
set_option relaxedAutoImplicit false

namespace Tollgate

open Std

/-! ### Events that leave the account alone -/

/-- The event is none that charges, credits or tears down. -/
def PeerEvent.LeavesAccount : PeerEvent → Prop
  | idle | connected | token _ | priceSheet _ | accept _ | report _ => True
  | disconnected | reject | verified _ _ _ | sample _ _ => False

theorem Entry.worth_leaves {cbor : Minicbor} {price : Price} {policy : MeteringPolicy}
    {peer : PeerId} (entry : Option PeerSession) {event : PeerEvent}
    (hleaves : event.LeavesAccount) :
    Entry.worth price (Entry.step cbor price policy peer entry event).1 =
      Entry.worth price entry := by
  cases entry with
  | none => cases event <;> rfl
  | some tracked => cases event <;> first | rfl | exact absurd hleaves id

/-- A baseline starts a session that has cost nothing yet. -/
theorem PeerSession.worth_resetMetering {price : Price} {entry : PeerSession}
    (hread : entry.lastCounters = none) (counters : Counters) (now : Millis) :
    Entry.worth price (some (entry.resetMetering counters now)) =
      Entry.worth price (some entry) := by
  simp [Entry.worth, accrued, resetMetering, hread, Price.exactCost]

/-- Assumes: a token credited to an entry. It is worth at least the credit after it. -/
theorem PeerSession.worth_credited {cbor : Minicbor} {peer : PeerId} {price : Price}
    (hsecond : 0 ≤ price.perSecond.toInt) (hunit : 0 ≤ price.perUnit.toInt) (entry : PeerSession)
    (amount : UInt64) (now : Millis) :
    ((entry.balance.saturatingAdd amount).toNat : ℤ) ≤
      Entry.worth price (some (entry.bootstrapVerified cbor peer amount true now).1) := by
  have hbalance : (entry.bootstrapVerified cbor peer amount true now).1.balance =
      entry.balance.saturatingAdd amount := by
    simp only [bootstrapVerified, if_true]
    split_ifs <;> rfl
  have hnonneg (next : PeerSession) : 0 ≤ next.accrued price := by
    unfold accrued
    split_ifs
    · exact Price.exactCost_nonneg hsecond hunit _ _
    · exact le_rfl
  have haccrued := hnonneg (entry.bootstrapVerified cbor peer amount true now).1
  simp only [Entry.worth, hbalance]
  omega

/-- A poll leaves what has been paid. -/
theorem Consumer.paid_afterPoll (cbor : Minicbor) (opts : ConsumeOpts) (consumer : Consumer)
    (messages : List Bytes) (raw : UInt64) :
    (consumer.afterPoll cbor opts messages raw).1.paidScaled = consumer.paidScaled := by
  simp only [Consumer.afterPoll]
  split_ifs <;> rfl

namespace Link

variable (terms : Terms) (link : Link)

/-! ### What the wallet, the clock and the top-ups do -/

/-- What the token of a request is worth. -/
def face : UInt64 :=
  match link.stand with
  | .paying => terms.opts.amountSat.saturatingMul pricingScale
  | .toppingUp _ => Consumer.topupScaled terms.opts
  | .unpaid | .idle | .polling | .stopped => 0

/-- A token that reaches the wallet is accepted for its face value. -/
def Honours : LinkStep → Prop
  | .verdict answer _ =>
    link.payment = .atWallet → ∃ credited ∈ answer, link.face terms ≤ credited
  | .deliver _ | .sample _ _ | .pay _ | .poll | .serve _ | .respond _ => True

instance : DecidablePred (link.Honours terms)
  | .verdict _ _ => inferInstanceAs (Decidable (_ → _))
  | .deliver _ | .sample _ _ | .pay _ | .poll | .serve _ | .respond _ => instDecidableTrue

/-- A sample that is charged finds a clock that has not gone back, and a session whose cost the
128-bit register of the computation holds. -/
def ChargesPlainly : LinkStep → Prop
  | .sample received now =>
    ∀ entry ∈ link.entry terms, entry.phase = .active → entry.lastCounters.isSome = true →
      entry.lastMeterAt ≤ now ∧
        link.provider.session.price.exactCost (now.toNat - entry.meteringStart.toNat)
          (entry.ourDelivered ⟨link.counter, received⟩).toNat < 2 ^ 127
  | .deliver _ | .pay _ | .poll | .serve _ | .verdict _ _ | .respond _ => True

instance : DecidablePred (link.ChargesPlainly terms)
  | .sample _ _ => inferInstanceAs (Decidable (∀ _ ∈ _, _))
  | .deliver _ | .pay _ | .poll | .serve _ | .verdict _ _ | .respond _ => instDecidableTrue

/-- A proactive top-up is answered while the metering session that it ends has cost something. -/
def EndsCharged : LinkStep → Prop
  | .verdict _ _ =>
    link.payment = .atWallet ∧ link.stand = .toppingUp false ∧
      ∃ entry ∈ link.entry terms, entry.accrued link.provider.session.price ≠ 0
  | .deliver _ | .sample _ _ | .pay _ | .poll | .serve _ | .respond _ => False

instance : DecidablePred (link.EndsCharged terms)
  | .verdict _ _ => inferInstanceAs (Decidable (_ ∧ _))
  | .deliver _ | .sample _ _ | .pay _ | .poll | .serve _ | .respond _ => instDecidableFalse

/-- When a poll delivers a report, what the consumer reckons to have left is at most the balance
that the provider had for it when it sent that report. -/
def WithinBalance : LinkStep → Prop
  | .respond _ =>
    link.stand = .polling → link.payment ≠ .atWallet → link.frames = [] →
      ∀ report ∈ (link.consumer.afterPoll terms.cbor terms.opts link.provider.outbox
          (terms.raw link.counter)).2.report,
        ∃ sent ∈ link.emitted, sent.1 = report ∧
          (Consumer.saturatingSubSigned link.consumer.paidScaled.toInt64
            (link.consumer.afterPoll terms.cbor terms.opts link.provider.outbox
              (terms.raw link.counter)).2.cost).toInt ≤ sent.2.toNat
  | .deliver _ | .sample _ _ | .pay _ | .poll | .serve _ | .verdict _ _ => True

instance : DecidablePred (link.WithinBalance terms)
  | .respond _ => inferInstanceAs (Decidable (_ → _))
  | .deliver _ | .sample _ _ | .pay _ | .poll | .serve _ | .verdict _ _ => instDecidableTrue

/-! ### The two accounts -/

/-- What the consumer counts as paid, or will once it has the response to an accepted token. -/
def due : UInt64 :=
  match link.stand with
  | .idle | .polling => link.consumer.paidScaled
  | .toppingUp cutOff =>
    if link.payment = .answered true then
      (link.consumer.afterTopUp terms.opts cutOff true).paidScaled
    else link.consumer.paidScaled
  | .paying =>
    if link.payment = .answered true then terms.opts.amountSat.saturatingMul pricingScale else 0
  | .unpaid | .stopped => 0

/-- The consumer counts as paid no more than what it is worth to the provider, and the clock and the
tally of the session that goes on are behind now. -/
structure Solvent : Prop where
  due_le : ((link.due terms).toNat : ℤ) ≤
    Entry.worth link.provider.session.price (link.entry terms)
  clock : ∀ entry, link.entry terms = some entry → entry.lastCounters.isSome = true →
    entry.meteringStart ≤ entry.lastMeterAt
  tally : ∀ entry, link.entry terms = some entry → entry.lastCounters.isSome = true →
    entry.meteringBaseline.delivered.toNat + entry.billedUnits.toNat ≤ link.counter.toNat

/-- While the consumer holds an account and asks for nothing more, a report in the queue is the last
one sent, and the consumer's reckoning by it is within the balance it was sent at. -/
def Reported : Prop :=
  link.stand = .idle ∨ link.stand = .polling →
    ∀ report, findMeteringReport terms.cbor link.provider.outbox = some report →
      ∃ balance, link.emitted = some (report, balance) ∧
        (Consumer.saturatingSubSigned link.consumer.paidScaled.toInt64
          (link.consumer.price.costScaled report.elapsedMs report.delivered)).toInt ≤
            balance.toNat

variable {terms link}

/-- A token accepted for its face value is accepted. -/
theorem Honours.accepts {step : LinkStep} (hhonours : link.Honours terms step) :
    link.Accepts step := by
  cases step with
  | verdict answer now =>
    intro hwallet
    obtain ⟨credited, hanswer, -⟩ := hhonours hwallet
    exact Option.isSome_of_mem hanswer
  | _ => trivial

/-- Assumes: a sample that is not over-acknowledged. It is charged by the provider's own count. -/
theorem billable_of_own {received : UInt64} {now : Millis}
    (hown : ¬ link.OverAcknowledged terms (.sample received now)) {entry : PeerSession}
    (hentry : link.entry terms = some entry) (hactive : entry.phase = .active)
    (hread : entry.lastCounters.isSome = true) :
    entry.billable ⟨link.counter, received⟩ = entry.ourDelivered ⟨link.counter, received⟩ := by
  refine billable_eq_ourDelivered fun theirs htheirs ↦ UInt64.not_lt.mp fun hlt ↦ hown ?_
  exact ⟨entry, hentry, hactive, hread, theirs, htheirs, hlt⟩

/-- The clock and the tally of the session stay behind. -/
theorem Solvent.clock_tally_step (hsolvent : link.Solvent terms) {step : LinkStep}
    (hplain : link.ChargesPlainly terms step) (hown : ¬ link.OverAcknowledged terms step)
    {next : PeerSession} (hnext : (Link.step terms link step).entry terms = some next)
    (hread : next.lastCounters.isSome = true) :
    next.meteringStart ≤ next.lastMeterAt ∧
      next.meteringBaseline.delivered.toNat + next.billedUnits.toNat ≤
        (Link.step terms link step).counter.toNat := by
  have hcounter := UInt64.le_iff_toNat_le.mp (@counter_step terms link step)
  cases metered_step hnext hread with
  | started before received now hentry hactive hunread hstart =>
    subst hstart
    refine ⟨UInt64.le_refl _, ?_⟩
    show link.counter.toNat + 0 ≤ _
    omega
  | charged entry received now hentry hentryRead hactive hcharge =>
    subst hcharge
    have hclock := hsolvent.clock entry hentry hentryRead
    have htally := hsolvent.tally entry hentry hentryRead
    have hnow := (hplain entry hentry hactive hentryRead).1
    have hcount : (entry.ourDelivered ⟨link.counter, received⟩).toNat =
        link.counter.toNat - entry.meteringBaseline.delivered.toNat :=
      entry.toNat_ourDelivered _
    refine ⟨UInt64.le_trans hclock hnow, ?_⟩
    show entry.meteringBaseline.delivered.toNat +
      (entry.billable ⟨link.counter, received⟩).toNat ≤ _
    rw [billable_of_own hown hentry hactive hentryRead]
    omega
  | kept entry hentry hentryRead hsame =>
    rw [hsame.meteringStart_eq, hsame.lastMeterAt_eq, hsame.meteringBaseline_eq,
      hsame.billedUnits_eq]
    exact ⟨hsolvent.clock entry hentry hentryRead,
      (hsolvent.tally entry hentry hentryRead).trans hcounter⟩

/-- Assumes: a price that is not negative. A sample does not lessen what the consumer is worth. -/
theorem Solvent.worth_sample (hsolvent : link.Solvent terms)
    (hsecond : 0 ≤ link.provider.session.price.perSecond.toInt)
    (hunit : 0 ≤ link.provider.session.price.perUnit.toInt) {received : UInt64} {now : Millis}
    (hplain : link.ChargesPlainly terms (.sample received now))
    (hown : ¬ link.OverAcknowledged terms (.sample received now)) :
    Entry.worth link.provider.session.price (link.entry terms) ≤
      Entry.worth link.provider.session.price
        ((Link.step terms link (.sample received now)).entry terms) := by
  rw [entry_step, seen_sample_iff.mpr ⟨received, rfl, rfl⟩]
  cases hentry : link.entry terms with
  | none => exact le_rfl
  | some entry =>
    by_cases hactive : entry.phase = .active
    · by_cases hread : entry.lastCounters.isSome = true
      · rw [Entry.step_sample_charge _ _ _ _ hactive hread]
        refine PeerSession.worth_charged hsecond hunit _ _ _ hread
          (hsolvent.clock entry hentry hread) (hplain entry hentry hactive hread).1 ?_
        have htally := hsolvent.tally entry hentry hread
        have hcount : (entry.ourDelivered ⟨link.counter, received⟩).toNat =
            link.counter.toNat - entry.meteringBaseline.delivered.toNat :=
          entry.toNat_ourDelivered _
        rw [billable_of_own hown hentry hactive hread, UInt64.le_iff_toNat_le, hcount]
        omega
      · have hnone : entry.lastCounters = none := by simpa using hread
        rw [Entry.step_sample_baseline _ _ _ _ hactive hnone,
          PeerSession.worth_resetMetering hnone]
    · rw [Entry.step_sample_inactive _ _ _ _ hactive]

/-- Assumes: marked frames. Serving one leaves what the consumer is worth. -/
theorem worth_serve (hframes : ∀ frame ∈ link.frames, terms.Marks frame) (now : Millis) :
    Entry.worth link.provider.session.price
        ((Link.step terms link (.serve now)).entry terms) =
      Entry.worth link.provider.session.price (link.entry terms) := by
  rw [entry_step]
  refine Entry.worth_leaves _ ?_
  by_cases hwallet : link.payment = .atWallet
  · simp [seen, heard, hwallet, PeerEvent.LeavesAccount]
  · cases hrequest : link.frames with
    | nil => simp [seen, heard, hrequest, PeerEvent.LeavesAccount]
    | cons frame rest =>
      rw [seen_serve hwallet hrequest]
      rcases frameEvent_marked (hframes frame (by simp [hrequest])) now with hevent | ⟨-, hevent⟩ |
        ⟨report, hevent⟩ | ⟨token, message, -, hevent⟩ <;> rw [hevent] <;> trivial

/-- Serving a frame leaves what is due. -/
theorem Orderly.due_serve (horderly : link.Orderly terms) (now : Millis) :
    (Link.step terms link (.serve now)).due terms = link.due terms := by
  simp only [Link.step]
  split_ifs with hwallet
  · rfl
  · cases hrequest : link.frames with
    | nil => rfl
    | cons frame rest =>
      have hmarks : terms.Marks frame := horderly.frames frame (by simp [hrequest])
      rcases @payment_serve terms link frame hmarks rest now with
        hsame | ⟨hatWallet, ⟨token, hframe⟩, -⟩
      · simp only [due, hsame]
        rfl
      · have hnone := (horderly.token [] token rest (by rw [hrequest, hframe, List.nil_append])).2.1
        simp only [due, hatWallet, hnone]
        rfl

/-- Assumes: a token accepted for its face value, and by it no session ended that has cost something
unless the consumer starts afresh too. What is due then is at most what the consumer is worth. -/
theorem Solvent.due_accepted (hsolvent : link.Solvent terms) (horderly : link.Orderly terms)
    (hsecond : 0 ≤ link.provider.session.price.perSecond.toInt)
    (hunit : 0 ≤ link.provider.session.price.perUnit.toInt)
    (hwallet : link.payment = .atWallet) {answer : Option UInt64} {now : Millis}
    (hhonours : link.Honours terms (.verdict answer now))
    (huncharged : ¬ link.EndsCharged terms (.verdict answer now)) :
    (((Link.step terms link (.verdict answer now)).due terms).toNat : ℤ) ≤
      Entry.worth link.provider.session.price
        ((Link.step terms link (.verdict answer now)).entry terms) := by
  obtain ⟨credited, hanswer, hface⟩ := hhonours hwallet
  obtain rfl : answer = some credited := hanswer
  obtain ⟨entry, hentry⟩ := Option.isSome_iff_exists.mp
    (horderly.tracked (by rw [hwallet]; simp))
  have hcredited := @PeerSession.worth_credited terms.cbor terms.peer _ hsecond hunit entry
    credited now
  have hafter : (Link.step terms link (.verdict (some credited) now)).entry terms =
      some (entry.bootstrapVerified terms.cbor terms.peer credited true now).1 := by
    rw [entry_step, hentry]
    simp [seen, heard, hwallet, Entry.step]
  have hstand : (Link.step terms link (.verdict (some credited) now)).stand = link.stand := by
    simp [Link.step, hwallet]
  have hpayment : (Link.step terms link (.verdict (some credited) now)).payment =
      .answered true := by
    simp [Link.step, hwallet]
  have hconsumer : (Link.step terms link (.verdict (some credited) now)).consumer =
      link.consumer := by
    simp [Link.step, hwallet]
  rw [hafter]
  refine Int.le_trans ?_ hcredited
  rw [UInt64.toNat_saturatingAdd]
  rw [UInt64.le_iff_toNat_le] at hface
  have hword := (link.face terms).toNat_lt
  have hpays := horderly.wallet hwallet
  unfold face at hface hword
  simp only [due, hstand, hpayment, hconsumer, if_true]
  cases hcase : link.stand with
  | paying =>
    rw [hcase] at hface hword
    simp only at hface hword ⊢
    omega
  | toppingUp cutOff =>
    rw [hcase] at hface hword
    simp only [Consumer.afterTopUp, if_true] at hface hword ⊢
    cases cutOff with
    | true =>
      simp only [if_true]
      omega
    | false =>
      -- The session has cost nothing, so what was due is covered by the balance alone.
      have hzero : entry.accrued link.provider.session.price = 0 := by
        by_contra hne
        exact huncharged ⟨hwallet, hcase, entry, hentry, hne⟩
      have hdue := hsolvent.due_le
      simp only [due, hcase, hwallet, hentry, Entry.worth, hzero] at hdue
      rw [if_neg (by simp)] at hdue
      simp only [Bool.false_eq_true, if_false, UInt64.toNat_saturatingAdd]
      omega
  | _ =>
    rw [hcase] at hpays
    exact absurd hpays (by simp [Stand.pays])

/-- The response leaves what is due, or the consumer gives up. -/
theorem Orderly.due_respond (horderly : link.Orderly terms) (token : Bytes) :
    ((link.respond terms token).due terms).toNat ≤ (link.due terms).toNat := by
  unfold Link.respond
  simp only
  cases hstand : link.stand with
  | paying =>
    simp only
    cases hpaid : Consumer.paid terms.cbor link.provider.outbox with
    | none => exact Nat.zero_le _
    | some accepted =>
      cases accepted with
      | false => exact Nat.zero_le _
      | true =>
        have hpayment := (horderly.answered hpaid).2.1
        simp only [due, hstand, hpayment, if_true]
        exact le_rfl
  | polling =>
    have hpaid := Consumer.paid_afterPoll terms.cbor terms.opts link.consumer
      link.provider.outbox (terms.raw link.counter)
    simp only
    split_ifs
    · simp only [due, hstand, hpaid]
      exact le_rfl
    · simp only [due, hstand, hpaid]
      exact le_rfl
  | toppingUp cutOff =>
    simp only
    cases hpaid : Consumer.paid terms.cbor link.provider.outbox with
    | none => exact Nat.zero_le _
    | some accepted =>
      obtain ⟨rfl, hpayment, -⟩ := horderly.answered hpaid
      simp only [due, hstand, hpayment, if_true]
      exact le_rfl
  | _ => exact le_rfl

/-- Assumes: a price that is not negative, tokens accepted for their face value, samples charged
plainly and by the provider's own count, and no top-up that ends a session which has cost something
while the consumer goes on counting. -/
theorem Solvent.step (hsolvent : link.Solvent terms) (horderly : link.Orderly terms)
    (hsecond : 0 ≤ link.provider.session.price.perSecond.toInt)
    (hunit : 0 ≤ link.provider.session.price.perUnit.toInt) {step : LinkStep}
    (hhonours : link.Honours terms step) (hplain : link.ChargesPlainly terms step)
    (hown : ¬ link.OverAcknowledged terms step) (huncharged : ¬ link.EndsCharged terms step) :
    (Link.step terms link step).Solvent terms := by
  refine ⟨?_, fun next hnext hread ↦ (hsolvent.clock_tally_step hplain hown hnext hread).1,
    fun next hnext hread ↦ (hsolvent.clock_tally_step hplain hown hnext hread).2⟩
  rw [(terms_step step).1]
  have hdue := hsolvent.due_le
  cases step with
  | deliver counter =>
    simp only [Link.step]
    split_ifs <;> exact hdue
  | sample received now =>
    have hsame : (Link.step terms link (.sample received now)).due terms = link.due terms := by
      obtain ⟨hconsumer, hstand, -, hpayment, -⟩ := @sample_frame terms link received now
      simp only [Link.step, due, hconsumer, hstand, hpayment]
    rw [hsame]
    exact hdue.trans (hsolvent.worth_sample hsecond hunit hplain hown)
  | pay token =>
    simp only [Link.step]
    split_ifs with hstand
    · simp only [due, hstand] at hdue
      exact hdue
    · exact hdue
  | poll =>
    simp only [Link.step]
    split_ifs with hstand
    · simp only [due, hstand] at hdue
      exact hdue
    · exact hdue
  | serve now =>
    rw [horderly.due_serve, worth_serve horderly.frames]
    exact hdue
  | verdict answer now =>
    by_cases hwallet : link.payment = .atWallet
    · exact hsolvent.due_accepted horderly hsecond hunit hwallet hhonours huncharged
    · simp only [Link.step, if_neg hwallet]
      exact hdue
  | respond token =>
    simp only [Link.step]
    split_ifs
    · exact hdue
    · have hentry : (link.respond terms token).entry terms = link.entry terms := by
        unfold entry
        rw [(respond_frame token).1]
      rw [hentry]
      exact (Int.ofNat_le.mpr (horderly.due_respond token)).trans hdue

/-! ### The report in the queue -/

/-- Assumes: a charged sample of a consumer that holds an account and asks for nothing more. What it
will reckon by the report is at most the balance that the sample leaves. -/
theorem Solvent.charged_within (hsolvent : link.Solvent terms) (horderly : link.Orderly terms)
    (hsecond : 0 ≤ link.provider.session.price.perSecond.toInt)
    (hunit : 0 ≤ link.provider.session.price.perUnit.toInt)
    (hstand : link.stand = .idle ∨ link.stand = .polling) {received : UInt64} {now : Millis}
    (hplain : link.ChargesPlainly terms (.sample received now))
    (hown : ¬ link.OverAcknowledged terms (.sample received now)) {entry : PeerSession}
    (hentry : link.entry terms = some entry) (hactive : entry.phase = .active)
    (hread : entry.lastCounters.isSome = true) :
    (Consumer.saturatingSubSigned link.consumer.paidScaled.toInt64
      (link.consumer.price.costScaled (entry.usageReport ⟨link.counter, received⟩ now).elapsedMs
        (entry.usageReport ⟨link.counter, received⟩ now).delivered)).toInt ≤
      (entry.balanceAfter ⟨link.counter, received⟩ link.provider.session.price now).toNat := by
  have hprice : link.consumer.price = link.provider.session.price := by
    refine horderly.priced ?_
    rcases hstand with hstand | hstand <;> rw [hstand] <;> rfl
  have hdue : link.due terms = link.consumer.paidScaled := by
    rcases hstand with hstand | hstand <;> simp only [due, hstand]
  have hworth := hsolvent.due_le.trans (hsolvent.worth_sample hsecond hunit hplain hown)
  have hfits := (hplain entry hentry hactive hread).2
  have hcost : (Millis.since now entry.meteringStart).toNat =
      now.toNat - entry.meteringStart.toNat := Millis.toNat_since _ _
  rw [entry_step, seen_sample_iff.mpr ⟨received, rfl, rfl⟩, hentry,
    Entry.step_sample_charge _ _ _ _ hactive hread, hdue] at hworth
  rw [hprice]
  refine Consumer.remaining_le hsecond hunit ?_ ?_
  · show link.provider.session.price.exactCost (Millis.since now entry.meteringStart).toNat
      (entry.ourDelivered ⟨link.counter, received⟩).toNat < 2 ^ 127
    rw [hcost]
    exact hfits
  · show (link.consumer.paidScaled.toNat : ℤ) ≤ _ + link.provider.session.price.exactCost
      (Millis.since now entry.meteringStart).toNat
      (entry.ourDelivered ⟨link.counter, received⟩).toNat
    rw [hcost, ← billable_of_own hown hentry hactive hread]
    exact hworth

/-- Assumes: what `Solvent.step` does. The report in the queue stays within the balance. -/
theorem Reported.step (hreported : link.Reported terms) (hsolvent : link.Solvent terms)
    (horderly : link.Orderly terms)
    (hsecond : 0 ≤ link.provider.session.price.perSecond.toInt)
    (hunit : 0 ≤ link.provider.session.price.perUnit.toInt) {step : LinkStep}
    (hplain : link.ChargesPlainly terms step) (hown : ¬ link.OverAcknowledged terms step) :
    (Link.step terms link step).Reported terms := by
  cases step with
  | deliver counter =>
    simp only [Link.step]
    split_ifs <;> exact hreported
  | sample received now =>
    obtain ⟨hconsumer, hstand, -, -, -⟩ := @sample_frame terms link received now
    intro hquiet report hreport
    simp only [Link.step] at hquiet hreport ⊢
    rw [hstand] at hquiet
    rw [hconsumer]
    by_cases hcharged : ∃ entry, link.entry terms = some entry ∧ entry.phase = .active ∧
        entry.lastCounters.isSome = true
    · obtain ⟨entry, hentry, hactive, hread⟩ := hcharged
      rw [findMeteringReport_charged horderly.reads.lawful hentry hactive hread] at hreport
      obtain rfl := Option.some.inj hreport
      refine ⟨entry.balanceAfter ⟨link.counter, received⟩ link.provider.session.price now, ?_, ?_⟩
      · simp [Link.sample, hentry, hactive, hread]
      · exact hsolvent.charged_within horderly hsecond hunit hquiet hplain hown hentry hactive hread
    · obtain ⟨houtbox, hemitted⟩ := sample_uncharged hcharged received now
      rw [houtbox] at hreport
      rw [hemitted]
      exact hreported hquiet report hreport
  | pay token =>
    simp only [Link.step]
    split_ifs
    · exact fun hstand ↦ by simp at hstand
    · exact hreported
  | poll =>
    simp only [Link.step]
    split_ifs with hidle
    · exact fun _ ↦ hreported (Or.inl hidle)
    · exact hreported
  | serve now =>
    simp only [Link.step]
    split_ifs
    · exact hreported
    · cases hrequest : link.frames with
      | nil => exact hreported
      | cons frame rest =>
        intro hstand report hreport
        simp only [serve] at hreport
        rw [findMeteringReport_receive (by simp [horderly.reads.greeting])
          (by simp [horderly.reads.sheet_type])] at hreport
        exact hreported hstand report hreport
  | verdict answer now =>
    by_cases hwallet : link.payment = .atWallet
    · intro hstand
      have hpays := horderly.wallet hwallet
      simp only [Link.step, if_pos hwallet] at hstand
      rcases hstand with hstand | hstand <;> rw [hstand] at hpays <;>
        exact absurd hpays (by simp [Stand.pays])
    · simp only [Link.step, if_neg hwallet]
      exact hreported
  | respond token =>
    simp only [Link.step]
    split_ifs
    · exact hreported
    · intro hstand report hreport
      rcases outbox_respond terms link token with hempty | hsame
      · rw [hempty] at hreport
        exact absurd hreport (by simp [findMeteringReport, ofType])
      · rw [hsame] at hstand hreport ⊢
        exact hreported hstand report hreport

/-- Assumes: a consumer without a meter. By the report in the queue it reckons within the
balance. -/
theorem Reported.withinBalance (hreported : link.Reported terms)
    (hmetered : terms.opts.metered = false) (step : LinkStep) :
    link.WithinBalance terms step := by
  cases step with
  | respond token =>
    intro hpolling _ _ report hreport
    obtain ⟨balance, hemitted, hle⟩ := hreported (Or.inr hpolling) report hreport
    refine ⟨(report, balance), hemitted, rfl, ?_⟩
    have hfound : findMeteringReport terms.cbor link.provider.outbox = some report := hreport
    simp only [Consumer.afterPoll, Consumer.costOf, hmetered, hfound]
    exact hle
  | _ => trivial

/-- Assumes: a consumer without a meter, a price that is not negative and a codec that reads what
the parties send; tokens that are accepted for their face value, samples that are charged plainly
and by the provider's own count, and no proactive top-up that ends a metering session which has cost
something. At every poll that delivers a report, what the consumer reckons to have left is at most
the provider's balance for it when the report was sent. -/
theorem remaining_within_balance (terms : Terms) (hmetered : terms.opts.metered = false)
    (price : Price) (hsecond : 0 ≤ price.perSecond.toInt) (hunit : 0 ≤ price.perUnit.toInt)
    (policy : MeteringPolicy) (announce priceSheet : Bytes) (counter : UInt64)
    (hreads : terms.Reads (new price policy announce priceSheet counter).provider)
    (steps : List LinkStep) (htokens : ∀ step ∈ steps, terms.MarksToken step)
    (halong : (machine terms).Along (fun link step ↦ link.Honours terms step ∧
      link.ChargesPlainly terms step ∧ ¬ link.OverAcknowledged terms step ∧
      ¬ link.EndsCharged terms step) (new price policy announce priceSheet counter) steps) :
    (machine terms).Along (fun link step ↦ link.WithinBalance terms step)
      (new price policy announce priceSheet counter) steps := by
  have hnobody : (new price policy announce priceSheet counter).entry terms = none := by
    simp [new, entry, Session.start, Session.new, Session.setPrice, Session.setMeteringPolicy]
  have horderly : (new price policy announce priceSheet counter).Orderly terms := by
    refine ⟨hreads, by simp [new], fun _ ↦ ⟨rfl, hnobody⟩, by simp [new], by simp [new],
      by simp [new], by simp [new], by simp [new], by simp [new], by simp [new, Stand.holds]⟩
  have hsolvent : (new price policy announce priceSheet counter).Solvent terms := by
    refine ⟨?_, fun entry hentry ↦ ?_, fun entry hentry ↦ ?_⟩
    · rw [hnobody]
      exact le_rfl
    · rw [hnobody] at hentry
      exact absurd hentry (by simp)
    · rw [hnobody] at hentry
      exact absurd hentry (by simp)
  have hreported : (new price policy announce priceSheet counter).Reported terms := by
    intro hstand
    rcases hstand with hstand | hstand <;> exact absurd hstand (by simp [new])
  have hmarked : (machine terms).Along (fun link step ↦ terms.MarksToken step ∧
      link.Honours terms step ∧ link.ChargesPlainly terms step ∧
      ¬ link.OverAcknowledged terms step ∧ ¬ link.EndsCharged terms step)
      (new price policy announce priceSheet counter) steps := by
    rw [Transducer.along_iff_forall_cut] at halong ⊢
    intro before step after hcut
    exact ⟨htokens step (by simp [hcut]), halong before step after hcut⟩
  refine (hmarked.with_invariant (fun link ↦ link.provider.session.price = price ∧
    link.Orderly terms ∧ link.Solvent terms ∧ link.Reported terms) ?_
    ⟨rfl, horderly, hsolvent, hreported⟩).mono fun link step hboth ↦ ?_
  · rintro link step ⟨rfl, horderly, hsolvent, hreported⟩ ⟨htoken, hhonours, hplain, hown, hends⟩
    refine ⟨(terms_step step).1, ?_, ?_, ?_⟩
    · exact horderly.step htoken (Honours.accepts hhonours)
    · exact hsolvent.step horderly hsecond hunit hhonours hplain hown hends
    · exact hreported.step hsolvent horderly hsecond hunit hplain hown
  · exact hboth.1.2.2.2.withinBalance hmetered step

/-- A consumer that tops up by one sat. -/
def sampleFrugal : Terms :=
  { sampleTerms false with opts := ⟨10, 1, 0, false⟩ }

/-- Its first payment is used up at one sample. It tops up after the cut-off, and is metered
again. -/
def sampleCutOff : List LinkStep :=
  samplePayment ++
    [.sample 0 3, .deliver 10000, .sample 0 4, .poll, .serve 5, .respond [2], .serve 6, .serve 6,
      .verdict (some 1000) 7, .respond [], .sample 0 8, .deliver 10100, .sample 0 9, .poll,
      .serve 10,
      .serve 10, .respond [3]]

/-- Two polls deliver a report, before and after the cut-off. -/
theorem remaining_within_balance_of_cutOff :
    (machine sampleFrugal).Along (fun link step ↦ link.WithinBalance sampleFrugal step) sampleLink
      sampleCutOff := by
  have hreads : sampleFrugal.Reads sampleLink.provider := by
    refine ⟨Minicbor.derived_lawful, ?_, ?_, ?_, ?_, ?_, ?_, ?_, ?_⟩ <;> decide +kernel
  have htokens : ∀ step ∈ sampleCutOff, sampleFrugal.MarksToken step := by
    decide +kernel
  have halong : (machine sampleFrugal).Along (fun link step ↦ link.Honours sampleFrugal step ∧
      link.ChargesPlainly sampleFrugal step ∧ ¬ link.OverAcknowledged sampleFrugal step ∧
      ¬ link.EndsCharged sampleFrugal step) sampleLink sampleCutOff := by
    decide +kernel
  exact remaining_within_balance sampleFrugal rfl ⟨0, 1⟩ (by decide) (by decide) _ _ _ _ hreads
    sampleCutOff htokens halong

/-- A consumer is charged for a hundred units, tops up before its balance runs out, and is charged
for fifty more: it takes off only the fifty. -/
theorem remaining_above_balance_after_topUp :
    let steps := samplePayment ++ [.sample 0 3, .deliver 100, .sample 0 4] ++ sampleTopUp ++
      [.sample 0 8, .deliver 150, .sample 0 9, .poll, .serve 10, .serve 10, .respond []]
    (machine (sampleTerms false)).Along (fun link step ↦ link.Honours (sampleTerms false) step ∧
        link.ChargesPlainly (sampleTerms false) step ∧
        ¬ link.OverAcknowledged (sampleTerms false) step) sampleLink steps ∧
      ¬ (machine (sampleTerms false)).Along
        (fun link step ↦ link.WithinBalance (sampleTerms false) step) sampleLink steps := by
  decide +kernel

end Link

end Tollgate
