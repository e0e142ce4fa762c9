import Tollgate.Library.Streak
import Tollgate.Net.Outbox

/-!
# The drift alarm and a consumer that echoes

At every sample the provider holds the consumer's last acknowledgement against its own count of that
moment. What the acknowledgement says is older: the poll that carries it was sent before its own
response came, so it repeats the report that an earlier poll collected, and that report was queued
at a sample before.

`Echo` follows this by the traffic and the order of samples and polls alone. `Link.Echoed` relates
it to both parties, and `drift_alarm_iff` says what comes of it: an echoing consumer is never warned
three times in a row, and never suspended for drift, exactly when there are no three samples in a
row at each of which more than a twentieth of the session's traffic lies between the count and the
echo of an earlier one.
-/

set_option autoImplicit false
set_option relaxedAutoImplicit false

namespace Tollgate

open Std

/-- The action sends a rejection of a given kind. -/
def Action.rejects (cbor : Minicbor) (kind : Reject → Bool) : Action → Bool
  | send _ bytes =>
    decide (cbor.peekType bytes = some .reject) && (cbor.decodeReject bytes).any kind
  | setAccess _ _ => false
  | verifyBootstrapToken _ _ => false
  | startMetering _ => false
  | stopMetering _ => false
  | disconnect _ => false

/-! ### What a charged sample sends -/

section ChargeSample

variable {cbor : Minicbor} {peer : PeerId} {entry : PeerSession} {price : Price}
  {policy : MeteringPolicy} {counters : Counters} {now : Millis}

/-- A rejection is for transit loss, or for spent credit, by its reason. -/
theorem Reject.kind_new (type : MessageType) (reason : RejectReason) :
    (Reject.new type reason).isTransitLoss = decide (reason = .transitLossToleranceExceeded) ∧
      (Reject.new type reason).isBalanceExhausted =
        decide (reason = .balanceVerificationFailed) := by
  simp only [Reject.isTransitLoss, Reject.isBalanceExhausted, Reject.reason, Reject.new,
    RejectReason.fromU8_asU8]
  cases reason <;> exact ⟨rfl, rfl⟩

theorem Action.rejects_reject (hlawful : cbor.Lawful) (kind : Reject → Bool) (type : MessageType)
    (reason : RejectReason) :
    (Action.send peer (cbor.encodeReject (Reject.new type reason))).rejects cbor kind =
      kind (Reject.new type reason) := by
  simp [Action.rejects, hlawful.peekType_reject, hlawful.decode_reject]

theorem Action.rejects_report (hlawful : cbor.Lawful) (kind : Reject → Bool)
    (elapsedMs delivered received : UInt64) :
    (Action.send peer (cbor.encodeMeteringReport
      (MeteringReport.new elapsedMs delivered received))).rejects cbor kind = false := by
  simp [Action.rejects, hlawful.peekType_meteringReport]

/-- A charged sample warns of transit loss exactly when the acknowledgement is outside the
tolerance. -/
theorem PeerSession.chargeSample_warns (hlawful : cbor.Lawful) :
    (entry.chargeSample cbor peer price policy counters now).2.any
        (Action.rejects cbor Reject.isTransitLoss) =
      entry.overTolerance counters policy := by
  have hreport : (Action.send peer (cbor.encodeMeteringReport
      (entry.usageReport counters now))).rejects cbor Reject.isTransitLoss = false :=
    Action.rejects_report hlawful _ _ _ _
  have haccess : (Action.setAccess peer .suspended).rejects cbor Reject.isTransitLoss = false := rfl
  have hstop : (Action.stopMetering peer).rejects cbor Reject.isTransitLoss = false := rfl
  simp only [PeerSession.chargeSample]
  split_ifs with hover hcut hexhausted hcut hexhausted <;>
    simp [hreport, hover, Action.rejects_reject hlawful, (Reject.kind_new _ _).1, haccess,
      hstop]

/-- A charged sample that suspends the consumer without telling it that its credit is spent has
found the drift to persist. -/
theorem PeerSession.chargeSample_cut (hlawful : cbor.Lawful)
    (hcut : .setAccess peer .suspended ∈
      (entry.chargeSample cbor peer price policy counters now).2)
    (hcredit : ¬ (entry.chargeSample cbor peer price policy counters now).2.any
      (Action.rejects cbor Reject.isBalanceExhausted) = true) :
    policy.maxStreak ≤ entry.streakAfter counters policy := by
  have hcut : entry.cut counters price policy now = true := by
    by_contra hnot
    simp only [PeerSession.chargeSample, if_neg hnot] at hcut
    split_ifs at hcut <;> simp at hcut
  have hexhausted : ¬ entry.exhausted counters price now = true := by
    intro hexhausted
    refine hcredit ?_
    simp [PeerSession.chargeSample, hcut, hexhausted, Action.rejects_reject hlawful,
      (Reject.kind_new _ _).2]
  rw [PeerSession.cut, Bool.or_eq_true, decide_eq_true_iff] at hcut
  exact hcut.resolve_left hexhausted

end ChargeSample

namespace Link

variable (terms : Terms) (link : Link)

/-- Whether the provider warns the consumer of transit loss, sample by sample. -/
def warnings : LinkStep → List Bool
  | .sample received now =>
    [(link.sampled terms received now).any (Action.rejects terms.cbor Reject.isTransitLoss)]
  | _ => []

/-- The provider suspends the consumer at a sample, and not for spent credit. -/
def CutForDrift : LinkStep → Prop
  | .sample received now =>
    .setAccess terms.peer .suspended ∈ link.sampled terms received now ∧
      ¬ (link.sampled terms received now).any
        (Action.rejects terms.cbor Reject.isBalanceExhausted) = true
  | _ => False

instance : DecidablePred (link.CutForDrift terms)
  | .sample _ _ => inferInstanceAs (Decidable (_ ∧ _))
  | .deliver _ | .pay _ | .poll | .serve _ | .verdict _ _ | .respond _ => instDecidableFalse

end Link

/-! ### The echo -/

/-- What a step is to the echo: a sample that is not charged, one that starts a metering session at
a count, one that is charged at a count, an acknowledgement that is served, and the response of a
payment or of a poll. -/
inductive Beat
  | pass
  | baseline (counter : UInt64)
  | charge (counter : UInt64)
  | served
  | paid
  | polled (exhausted : Bool)
  deriving DecidableEq

/-- The count at the baseline, the units of the last charged sample as long as their report is not
collected, the figure that the next poll acknowledges, and the one that was acknowledged last in
the metering session. -/
structure Echo where
  start : UInt64
  waiting : Option UInt64
  held : UInt64
  told : Option UInt64
  deriving DecidableEq

namespace Echo

def new : Echo := ⟨0, none, 0, none⟩

/-- A poll collects the report that waits; the consumer acknowledges its share of that from the next
poll on, and starts again from nothing when it is told that its credit is spent. -/
def step (share : UInt64 → UInt64) (echo : Echo) : Beat → Echo
  | .pass => echo
  | .baseline counter => { echo with start := counter, told := none }
  | .charge counter => { echo with waiting := some (counter.saturatingSub echo.start) }
  | .served => { echo with told := some echo.held }
  | .paid => { echo with waiting := none }
  | .polled exhausted =>
    { echo with
      waiting := none
      held := (echo.waiting.map share).getD (if exhausted then 0 else echo.held) }

/-- The echo over the traffic and the exchanges of a run. -/
def machine (share : UInt64 → UInt64) : Transducer Echo Beat Empty where
  step echo beat := (step share echo beat, [])

/-- A figure is off a count by more than a twentieth of the count. -/
def off (count : UInt64) : Option UInt64 → Bool
  | some figure => decide (0 < count) && decide (count.toNat < 20 * (count.absDiff figure).toNat)
  | none => false

/-- Whether the echo strays from the units delivered since the baseline, sample by sample. -/
def strays (echo : Echo) : Beat → List Bool
  | .pass | .baseline _ => [false]
  | .charge counter => [off (counter.saturatingSub echo.start) echo.told]
  | .served | .paid | .polled _ => []

end Echo

/-- What the parties rely on of the codec: what is sent is marked with its type and read back, and
neither the provider's greeting nor its answers are marked as reports. -/
structure Terms.Marked (terms : Terms) (announce priceSheet : Bytes) : Prop where
  lawful : terms.cbor.Lawful
  frame : terms.Marks .announce
  greeting : terms.cbor.peekType announce ≠ some .meteringReport
  sheet : terms.cbor.peekType priceSheet ≠ some .meteringReport
  answer : ∀ accepted : Bool, terms.cbor.peekType (terms.cbor.encodeBootstrapAck
    (if accepted then BootstrapAck.accepted
      else BootstrapAck.rejected "token verification failed")) ≠ some .meteringReport

namespace Link

variable (terms : Terms) (link : Link)

/-- The traffic and the exchange of a step, as far as the echo goes. -/
def beats : LinkStep → List Beat
  | .sample _ _ =>
    match link.entry terms with
    | some entry =>
      if entry.phase = .active then
        if entry.lastCounters.isSome then [.charge link.counter] else [.baseline link.counter]
      else [.pass]
    | none => [.pass]
  | .serve now => if (link.acknowledges (.serve now)).isSome then [.served] else []
  | .respond _ =>
    if link.payment = .atWallet ∨ link.frames ≠ [] then []
    else
      match link.stand with
      | .paying | .toppingUp _ => [.paid]
      | .polling => [.polled (balanceExhausted terms.cbor link.provider.outbox)]
      | .unpaid | .idle | .stopped => []
  | .deliver _ | .pay _ | .poll | .verdict _ _ => []

/-- The streak of the entry is the number of warnings in a row. -/
def Counted (streak : ℕ) : Prop :=
  ∀ entry, link.entry terms = some entry → entry.lastCounters.isSome = true →
    entry.phase = .active →
      entry.overToleranceStreak.toNat = streak ∧ (entry.peerReceived = none → streak = 0)

variable {terms link}

/-! ### The echo is what the parties hold -/

/-- Assumes: a step that is no sample, and acknowledgements under way that carry what the echo
holds. The echo keeps its baseline, and it has told what the step hands to the provider. -/
theorem told_beats (share : UInt64 → UInt64) {echo : Echo}
    (hacks : ∀ figure, .acknowledgement figure ∈ link.frames → figure = echo.held)
    {step : LinkStep} (hsample : ∀ received now, step ≠ .sample received now) :
    ((Echo.machine share).final echo (link.beats terms step)).start = echo.start ∧
      ((Echo.machine share).final echo (link.beats terms step)).told =
        (link.acknowledges step).or echo.told := by
  cases step with
  | sample received now => exact absurd rfl (hsample received now)
  | serve now =>
    cases hfigure : link.acknowledges (.serve now) with
    | none =>
      simp only [beats, hfigure]
      exact ⟨rfl, rfl⟩
    | some figure =>
      have hheld : figure = echo.held := by
        refine hacks figure ?_
        simp only [acknowledges] at hfigure
        split_ifs at hfigure
        split at hfigure
        · rename_i hframes
          rw [hframes, ← Option.some.inj hfigure]
          exact List.mem_cons_self
        · exact absurd hfigure (by simp)
      simp only [beats, hfigure]
      exact ⟨rfl, congrArg some hheld.symm⟩
  | respond token =>
    simp only [beats, acknowledges]
    split_ifs
    · exact ⟨rfl, rfl⟩
    · cases link.stand <;> exact ⟨rfl, rfl⟩
  | _ => exact ⟨rfl, rfl⟩

/-- What is held changes by a response alone. -/
theorem held_beats (share : UInt64 → UInt64) (echo : Echo) {step : LinkStep}
    (hresponse : ∀ token, step ≠ .respond token) :
    ((Echo.machine share).final echo (link.beats terms step)).held = echo.held := by
  cases step with
  | sample received now =>
    simp only [beats]
    split
    · split_ifs <;> rfl
    · rfl
  | serve now =>
    simp only [beats]
    split_ifs <;> rfl
  | respond token => exact absurd rfl (hresponse token)
  | _ => rfl

/-- A sample of an entry that is not active passes, whatever its baseline. -/
theorem beats_inactive {entry : PeerSession} (hentry : link.entry terms = some entry)
    (hactive : entry.phase ≠ .active) (received : UInt64) (now : Millis) :
    link.beats terms (.sample received now) = [.pass] := by
  simp [beats, hentry, hactive]

theorem beats_baseline {entry : PeerSession} (hentry : link.entry terms = some entry)
    (hactive : entry.phase = .active) (hread : entry.lastCounters = none) (received : UInt64)
    (now : Millis) : link.beats terms (.sample received now) = [.baseline link.counter] := by
  simp [beats, hentry, hactive, hread]

theorem beats_charge {entry : PeerSession} (hentry : link.entry terms = some entry)
    (hactive : entry.phase = .active) (hread : entry.lastCounters.isSome = true)
    (received : UInt64) (now : Millis) :
    link.beats terms (.sample received now) = [.charge link.counter] := by
  simp [beats, hentry, hactive, hread]

/-- The policy is the default one, what is sent is marked, and the echo is what both parties hold:
the provider's baseline and the acknowledgement on file, the units of the report in the queue, and
the figure that the consumer acknowledges next. -/
structure Echoed (terms : Terms) (link : Link) (echo : Echo) : Prop where
  policy : link.provider.session.policy = MeteringPolicy.default
  marked : terms.Marked link.provider.announce link.provider.priceSheet
  frames : ∀ frame ∈ link.frames, terms.Marks frame
  report : ∀ entry, link.entry terms = some entry → entry.lastCounters.isSome = true →
    entry.meteringBaseline.delivered = echo.start ∧ entry.peerReceived = echo.told
  waiting : (findMeteringReport terms.cbor link.provider.outbox).map MeteringReport.delivered =
    echo.waiting
  held : link.consumer.ackedReceived = echo.held
  acks : ∀ figure, .acknowledgement figure ∈ link.frames → figure = echo.held
  unpaid : link.stand = .unpaid ∨ link.stand = .paying → echo.held = 0

namespace Echoed

variable {echo : Echo}

/-- The entry after a step, as far as it is in a metering session. -/
theorem report_step (hechoed : link.Echoed terms echo) (share : UInt64 → UInt64)
    (step : LinkStep) {next : PeerSession}
    (hnext : (Link.step terms link step).entry terms = some next)
    (hread : next.lastCounters.isSome = true) :
    next.meteringBaseline.delivered =
        ((Echo.machine share).final echo (link.beats terms step)).start ∧
      next.peerReceived = ((Echo.machine share).final echo (link.beats terms step)).told := by
  cases metered_step hnext hread with
  | started before received now hentry hactive hunread hstart =>
    -- The reading that starts a session clears both sides.
    subst hstart
    rw [beats_baseline hentry hactive hunread]
    exact ⟨rfl, rfl⟩
  | charged entry received now hentry hentryRead hactive hcharge =>
    subst hcharge
    rw [beats_charge hentry hactive hentryRead]
    exact hechoed.report entry hentry hentryRead
  | kept entry hentry hentryRead hsame hfiled _ hsample =>
    obtain ⟨hstart, htold⟩ := hechoed.report entry hentry hentryRead
    have hreceived : next.peerReceived = (link.acknowledges step).or echo.told := by
      rw [PeerSession.peerReceived, hfiled, filed_seen hechoed.marked.lawful hechoed.frames step,
        ← htold]
      rfl
    rw [hreceived, hsame.meteringBaseline_eq, hstart]
    cases step with
    | sample received now =>
      have hactive : entry.phase ≠ .active := by
        refine hsample.resolve_right fun hnot ↦ hnot ?_
        rw [seen_sample_iff.mpr ⟨received, rfl, rfl⟩]
        trivial
      rw [beats_inactive hentry hactive]
      exact ⟨rfl, rfl⟩
    | _ =>
      refine (told_beats share hechoed.acks ?_).imp Eq.symm Eq.symm
      simp

/-- The report in the queue after a step. -/
theorem waiting_step (hechoed : link.Echoed terms echo) (share : UInt64 → UInt64)
    (step : LinkStep) :
    (findMeteringReport terms.cbor (Link.step terms link step).provider.outbox).map
        MeteringReport.delivered =
      ((Echo.machine share).final echo (link.beats terms step)).waiting := by
  have hwaiting := hechoed.waiting
  cases step with
  | deliver counter =>
    simp only [Link.step]
    split_ifs <;> exact hwaiting
  | sample received now =>
    simp only [Link.step]
    by_cases hcharged : ∃ entry, link.entry terms = some entry ∧ entry.phase = .active ∧
        entry.lastCounters.isSome = true
    · obtain ⟨entry, hentry, hactive, hread⟩ := hcharged
      rw [findMeteringReport_charged hechoed.marked.lawful hentry hactive hread,
        beats_charge hentry hactive hread]
      show some (entry.ourDelivered ⟨link.counter, received⟩) = some _
      rw [PeerSession.ourDelivered, (hechoed.report entry hentry hread).1]
    · rw [(sample_uncharged hcharged received now).1, hwaiting]
      simp only [beats]
      split
      · rename_i entry hentry
        split_ifs with hactive hread
        · exact absurd ⟨entry, hentry, hactive, hread⟩ hcharged
        · rfl
        · rfl
      · rfl
  | pay token =>
    simp only [Link.step]
    split_ifs <;> exact hwaiting
  | poll =>
    simp only [Link.step]
    split_ifs <;> exact hwaiting
  | serve now =>
    have hserved : ((Echo.machine share).final echo (link.beats terms (.serve now))).waiting =
        echo.waiting := by
      simp only [beats]
      split_ifs <;> rfl
    rw [hserved]
    simp only [Link.step]
    split_ifs
    · exact hwaiting
    · cases link.frames with
      | nil => exact hwaiting
      | cons frame rest =>
        simp only [serve]
        rw [findMeteringReport_receive hechoed.marked.greeting hechoed.marked.sheet]
        exact hwaiting
  | verdict answer now =>
    simp only [Link.step]
    split_ifs
    · simp only
      rw [findMeteringReport_verdict _ _ _ (hechoed.marked.answer answer.isSome)]
      exact hwaiting
    · exact hwaiting
  | respond token =>
    simp only [Link.step, beats]
    split_ifs
    · exact hwaiting
    · unfold respond
      simp only
      cases link.stand with
      | paying =>
        simp only
        split <;> rfl
      | polling =>
        simp only
        split_ifs <;> rfl
      | toppingUp cutOff =>
        simp only
        split <;> rfl
      | _ => exact hwaiting

/-- The figure that the consumer acknowledges next, after a step. -/
theorem held_step (hechoed : link.Echoed terms echo) (hmetered : terms.opts.metered = false)
    (step : LinkStep) :
    (Link.step terms link step).consumer.ackedReceived =
      ((Echo.machine (Consumer.acknowledged terms.opts)).final echo
        (link.beats terms step)).held := by
  have hheld := hechoed.held
  cases step with
  | deliver counter =>
    simp only [Link.step]
    split_ifs <;> exact hheld
  | sample received now =>
    rw [held_beats _ echo (by simp), ← hheld]
    exact congrArg Consumer.ackedReceived (sample_frame received now).1
  | pay token =>
    simp only [Link.step]
    split_ifs <;> exact hheld
  | poll =>
    simp only [Link.step]
    split_ifs <;> exact hheld
  | serve now =>
    rw [held_beats _ echo (by simp), ← hheld]
    simp only [Link.step]
    split_ifs
    · rfl
    · cases link.frames <;> rfl
  | verdict answer now =>
    simp only [Link.step]
    split_ifs <;> exact hheld
  | respond token =>
    simp only [Link.step, beats]
    split_ifs
    · exact hheld
    · unfold respond
      simp only
      cases hstand : link.stand with
      | paying =>
        -- The loop starts with nothing to acknowledge, and nothing is held before it does.
        simp only
        split
        · exact (hechoed.unpaid (Or.inr hstand)).symm
        · exact hheld
        · exact hheld
      | polling =>
        have hpolled : (link.consumer.afterPoll terms.cbor terms.opts link.provider.outbox
            (terms.raw link.counter)).1.ackedReceived =
            (echo.waiting.map (Consumer.acknowledged terms.opts)).getD
              (if balanceExhausted terms.cbor link.provider.outbox then 0 else echo.held) := by
          rw [← hechoed.waiting, ← hheld]
          simp only [Consumer.afterPoll, hmetered, Bool.false_eq_true, if_false, Option.none_or]
          cases findMeteringReport terms.cbor link.provider.outbox with
          | some report => rfl
          | none =>
            show (if _ then _ else _ : Consumer).ackedReceived = if _ then _ else _
            split_ifs <;> rfl
        simp only
        split_ifs <;> exact hpolled
      | toppingUp cutOff =>
        simp only
        split
        · refine Eq.trans ?_ hheld
          unfold Consumer.afterTopUp
          split_ifs <;> rfl
        · exact hheld
      | _ => exact hheld

/-- The acknowledgements under way after a step. -/
theorem acks_step (hechoed : link.Echoed terms echo) (share : UInt64 → UInt64) (step : LinkStep)
    {figure : UInt64}
    (hfigure : .acknowledgement figure ∈ (Link.step terms link step).frames) :
    figure = ((Echo.machine share).final echo (link.beats terms step)).held := by
  have hacks := hechoed.acks
  cases step with
  | deliver counter =>
    simp only [Link.step] at hfigure
    split_ifs at hfigure <;> exact hacks figure hfigure
  | sample received now =>
    rw [held_beats share echo (by simp)]
    simp only [Link.step, (sample_frame received now).2.2.1] at hfigure
    exact hacks figure hfigure
  | pay token =>
    simp only [Link.step] at hfigure
    split_ifs at hfigure
    · exact absurd hfigure (by simp [payFrames])
    · exact hacks figure hfigure
  | poll =>
    simp only [Link.step] at hfigure
    split_ifs at hfigure
    · have hpolled : figure = link.consumer.ackedReceived := by
        simp only [pollFrames, List.mem_cons, reduceCtorEq, false_or] at hfigure
        split_ifs at hfigure
        · simpa using hfigure
        · exact absurd hfigure List.not_mem_nil
      rw [hpolled, hechoed.held]
      rfl
    · exact hacks figure hfigure
  | serve now =>
    rw [held_beats share echo (by simp)]
    simp only [Link.step] at hfigure
    split_ifs at hfigure
    · exact hacks figure hfigure
    · cases hframes : link.frames with
      | nil =>
        rw [hframes] at hfigure
        exact absurd hfigure (by simp [hframes])
      | cons frame rest =>
        rw [hframes] at hfigure
        exact hacks figure (by rw [hframes]; exact List.mem_cons_of_mem _ hfigure)
  | verdict answer now =>
    simp only [Link.step] at hfigure
    split_ifs at hfigure <;> exact hacks figure hfigure
  | respond token =>
    simp only [Link.step] at hfigure
    simp only [beats]
    split_ifs at hfigure ⊢ with hwaits
    · exact hacks figure hfigure
    · -- A response arrives when no frame is left, and brings at most a payment.
      have hnone : link.frames = [] := by
        by_contra hframes
        exact hwaits (Or.inr hframes)
      have hpayment : ∀ frames : List Frame, frames = [] ∨ frames = payFrames token →
          .acknowledgement figure ∉ frames := by
        rintro frames (rfl | rfl) <;> simp [payFrames]
      refine absurd hfigure (hpayment _ ?_)
      unfold respond
      simp only
      cases link.stand with
      | paying =>
        simp only
        split <;> exact Or.inl hnone
      | polling =>
        simp only
        split_ifs
        · exact Or.inr rfl
        · exact Or.inl hnone
      | toppingUp cutOff =>
        simp only
        split <;> exact Or.inl hnone
      | _ => exact Or.inl hnone

/-- Nothing is held before the first payment is answered. -/
theorem unpaid_step (hechoed : link.Echoed terms echo) (share : UInt64 → UInt64)
    (step : LinkStep)
    (hstand : (Link.step terms link step).stand = .unpaid ∨
      (Link.step terms link step).stand = .paying) :
    ((Echo.machine share).final echo (link.beats terms step)).held = 0 := by
  have hunpaid := hechoed.unpaid
  cases step with
  | deliver counter =>
    simp only [Link.step] at hstand
    split_ifs at hstand <;> exact hunpaid hstand
  | sample received now =>
    simp only [Link.step, (sample_frame received now).2.1] at hstand
    rw [held_beats share echo (by simp)]
    exact hunpaid hstand
  | pay token =>
    simp only [Link.step] at hstand
    split_ifs at hstand with hfirst
    · exact hunpaid (Or.inl hfirst)
    · exact hunpaid hstand
  | poll =>
    simp only [Link.step] at hstand
    split_ifs at hstand
    · exact absurd hstand (by simp)
    · exact hunpaid hstand
  | serve now =>
    rw [held_beats share echo (by simp)]
    simp only [Link.step] at hstand
    split_ifs at hstand
    · exact hunpaid hstand
    · cases hframes : link.frames with
      | nil =>
        rw [hframes] at hstand
        exact hunpaid hstand
      | cons frame rest =>
        rw [hframes] at hstand
        exact hunpaid hstand
  | verdict answer now =>
    simp only [Link.step] at hstand
    split_ifs at hstand <;> exact hunpaid hstand
  | respond token =>
    simp only [Link.step] at hstand
    simp only [beats]
    split_ifs at hstand ⊢
    · exact hunpaid hstand
    · unfold respond at hstand
      simp only at hstand
      cases hwas : link.stand with
      | paying =>
        rw [hwas] at hstand
        simp only at hstand
        split at hstand <;> exact absurd hstand (by simp)
      | polling =>
        rw [hwas] at hstand
        simp only at hstand
        split_ifs at hstand <;> exact absurd hstand (by simp)
      | toppingUp cutOff =>
        rw [hwas] at hstand
        simp only at hstand
        split at hstand <;> exact absurd hstand (by simp)
      | _ =>
        rw [hwas] at hstand
        exact hunpaid hstand

/-- Assumes: a consumer without a meter, and a token that is marked as one. -/
theorem step (hechoed : link.Echoed terms echo) (hmetered : terms.opts.metered = false)
    {step : LinkStep} (htoken : terms.MarksToken step) :
    (Link.step terms link step).Echoed terms
      ((Echo.machine (Consumer.acknowledged terms.opts)).final echo (link.beats terms step)) where
  policy := (terms_step step).2.trans hechoed.policy
  marked := by
    rw [(greeting_step step).1, (greeting_step step).2]
    exact hechoed.marked
  frames := marks_step hechoed.marked.lawful hechoed.marked.frame hechoed.frames htoken
  report := fun _ ↦ hechoed.report_step _ step
  waiting := hechoed.waiting_step _ step
  held := hechoed.held_step hmetered step
  acks := fun _ ↦ hechoed.acks_step _ step
  unpaid := hechoed.unpaid_step _ step

/-- The provider warns at the samples at which the echo strays. -/
theorem warnings_eq (hechoed : link.Echoed terms echo) (share : UInt64 → UInt64)
    (step : LinkStep) :
    link.warnings terms step =
      (Echo.machine share).observe Echo.strays echo (link.beats terms step) := by
  cases step with
  | sample received now =>
    simp only [warnings, sampled_eq]
    cases hentry : link.entry terms with
    | none =>
      simp only [beats, hentry]
      rfl
    | some entry =>
      by_cases hactive : entry.phase = .active
      · by_cases hread : entry.lastCounters.isSome = true
        · obtain ⟨hstart, htold⟩ := hechoed.report entry hentry hread
          rw [Entry.step_sample_charge _ _ _ _ hactive hread, beats_charge hentry hactive hread]
          simp only [PeerSession.chargeSample_warns hechoed.marked.lawful, Transducer.observe_cons,
            Transducer.observe_nil, List.append_nil, Echo.strays]
          rw [PeerSession.overTolerance, htold, hechoed.policy, PeerSession.ourDelivered, hstart]
          cases echo.told with
          | none => rfl
          | some figure =>
            have hrate (count distance : ℕ) :
                count * MeteringPolicy.default.toleranceBps.toNat < distance * 10000 ↔
                  count < 20 * distance := by
              show count * 500 < distance * 10000 ↔ _
              omega
            simp only [Echo.off, hrate]
        · have hnone : entry.lastCounters = none := by simpa using hread
          rw [Entry.step_sample_baseline _ _ _ _ hactive hnone,
            beats_baseline hentry hactive hnone]
          rfl
      · rw [Entry.step_sample_inactive _ _ _ _ hactive, beats_inactive hentry hactive]
        rfl
  | serve now =>
    simp only [warnings, beats]
    split_ifs <;> rfl
  | respond token =>
    simp only [warnings, beats]
    split_ifs
    · rfl
    · cases link.stand <;> rfl
  | _ => rfl

end Echoed

/-! ### Three warnings in a row -/

/-- A charged sample warns by its tolerance, as the provider sees it. -/
theorem warnings_charged (hlawful : terms.cbor.Lawful) {entry : PeerSession}
    (hentry : link.entry terms = some entry) (hread : entry.lastCounters.isSome = true)
    (hactive : entry.phase = .active) (received : UInt64) (now : Millis) :
    link.warnings terms (.sample received now) =
      [entry.overTolerance ⟨link.counter, received⟩ link.provider.session.policy] := by
  simp only [warnings, sampled_eq, hentry, Entry.step_sample_charge _ _ _ _ hactive hread,
    PeerSession.chargeSample_warns hlawful]

/-- Assumes: a streak that is counted and short. A charged sample goes on counting it. -/
theorem Counted.charged (hlawful : terms.cbor.Lawful) {streak : ℕ}
    (hcounted : link.Counted terms streak) (hstreak : streak < 3) {entry : PeerSession}
    (hentry : link.entry terms = some entry) (hread : entry.lastCounters.isSome = true)
    (hactive : entry.phase = .active) (received : UInt64) (now : Millis) :
    (entry.streakAfter ⟨link.counter, received⟩ link.provider.session.policy).toNat =
      Streak.after streak (link.warnings terms (.sample received now)) := by
  obtain ⟨hcount, hzero⟩ := hcounted entry hentry hread hactive
  rw [warnings_charged hlawful hentry hread hactive]
  show _ = Streak.next streak _
  unfold PeerSession.streakAfter
  cases htheirs : entry.peerReceived with
  | none =>
    simp only [PeerSession.overTolerance, htheirs]
    rw [hcount]
    exact hzero htheirs
  | some theirs =>
    simp only
    cases entry.overTolerance ⟨link.counter, received⟩ link.provider.session.policy with
    | false => rfl
    | true =>
      simp only [if_true, Streak.next]
      rw [UInt8.toNat_saturatingAdd, hcount]
      show min (streak + 1) 255 = streak + 1
      omega

/-- Assumes: fewer than three warnings in a row, with the one of this step. The consumer is not
suspended for drift. -/
theorem Counted.not_cutForDrift (hlawful : terms.cbor.Lawful)
    (hpolicy : link.provider.session.policy = MeteringPolicy.default) {streak : ℕ}
    (hcounted : link.Counted terms streak) (hstreak : streak < 3) {step : LinkStep}
    (hafter : Streak.after streak (link.warnings terms step) < 3) :
    ¬ link.CutForDrift terms step := by
  intro hcut
  cases step with
  | sample received now =>
    obtain ⟨hcut, hcredit⟩ := hcut
    rw [sampled_eq] at hcut hcredit
    cases hentry : link.entry terms with
    | none =>
      rw [hentry] at hcut
      exact absurd hcut (by simp [Entry.step])
    | some entry =>
      rw [hentry] at hcut hcredit
      by_cases hactive : entry.phase = .active
      · by_cases hread : entry.lastCounters.isSome = true
        · rw [Entry.step_sample_charge _ _ _ _ hactive hread] at hcut hcredit
          have hpersisted := PeerSession.chargeSample_cut hlawful hcut hcredit
          rw [UInt8.le_iff_toNat_le, hcounted.charged hlawful hstreak hentry hread hactive received
            now, hpolicy] at hpersisted
          exact absurd hafter (Nat.not_lt.mpr hpersisted)
        · have hnone : entry.lastCounters = none := by simpa using hread
          rw [Entry.step_sample_baseline _ _ _ _ hactive hnone] at hcut
          exact absurd hcut (by simp)
      · rw [Entry.step_sample_inactive _ _ _ _ hactive] at hcut
        exact absurd hcut (by simp)
  | _ => exact hcut

/-- Assumes: a streak that is counted and short. It is counted after the step. -/
theorem Counted.step (hlawful : terms.cbor.Lawful) {streak : ℕ}
    (hcounted : link.Counted terms streak) (hstreak : streak < 3) (step : LinkStep) :
    (Link.step terms link step).Counted terms
      (Streak.after streak (link.warnings terms step)) := by
  intro next hnext hread hactive
  cases metered_step hnext hread with
  | started before received now hentry hbefore hunread hstart =>
    subst hstart
    have hsilent : link.warnings terms (.sample received now) = [false] := by
      simp only [warnings, sampled_eq, hentry,
        Entry.step_sample_baseline _ _ _ _ hbefore hunread]
      rfl
    rw [hsilent]
    exact ⟨rfl, fun _ ↦ rfl⟩
  | charged entry received now hentry hentryRead hentryActive hcharge =>
    subst hcharge
    have hafter := hcounted.charged hlawful hstreak hentry hentryRead hentryActive received now
    refine ⟨hafter, fun hnone ↦ ?_⟩
    have htheirs : entry.peerReceived = none := hnone
    obtain ⟨hcount, hzero⟩ := hcounted entry hentry hentryRead hentryActive
    rw [← hafter, PeerSession.streakAfter, htheirs, hcount]
    exact hzero htheirs
  | kept entry hentry hentryRead hsame hfiled hphase hsample =>
    obtain ⟨hcount, hzero⟩ := hcounted entry hentry hentryRead (hphase hactive)
    have hsilent : link.warnings terms step = [] := by
      cases step with
      | sample received now =>
        refine absurd ?_ (hsample.resolve_left fun hne ↦ hne (hphase hactive))
        rw [seen_sample_iff.mpr ⟨received, rfl, rfl⟩]
        trivial
      | _ => rfl
    rw [hsilent, hsame.streak_eq]
    refine ⟨hcount, fun hnone ↦ hzero ?_⟩
    rw [PeerSession.peerReceived, Option.map_eq_none_iff] at hnone ⊢
    exact Entry.filed_eq_none (hfiled ▸ hnone)

/-- Assumes: fewer than three warnings in a row along a run. Nobody is suspended for drift. -/
theorem Counted.run (hlawful : terms.cbor.Lawful)
    (hpolicy : link.provider.session.policy = MeteringPolicy.default) {streak : ℕ}
    (hcounted : link.Counted terms streak) {steps : List LinkStep}
    (hbelow : Streak.Below 3 streak ((machine terms).observe (warnings terms) link steps)) :
    (machine terms).Along (fun link step ↦ ¬ link.CutForDrift terms step) link steps := by
  induction steps generalizing link streak with
  | nil => trivial
  | cons step rest ih =>
    rw [Transducer.observe_cons] at hbelow
    have hstreak : streak < 3 := hbelow [] List.nil_prefix
    obtain ⟨hafter, hrest⟩ := hbelow.append
    exact ⟨hcounted.not_cutForDrift hlawful hpolicy hstreak hafter,
      ih ((terms_step step).2.trans hpolicy) (hcounted.step hlawful hstreak step) hrest⟩

/-- Assumes: a codec that marks and reads what the parties send, and a consumer without a meter. It
is never warned three samples in a row, and never suspended for drift, exactly when its echo does
not stray three samples in a row. -/
theorem drift_alarm_iff (terms : Terms) (price : Price) (announce priceSheet : Bytes)
    (hmarked : terms.Marked announce priceSheet) (hmetered : terms.opts.metered = false)
    (counter : UInt64) (steps : List LinkStep) (htokens : ∀ step ∈ steps, terms.MarksToken step) :
    let link := new price MeteringPolicy.default announce priceSheet counter
    (¬ [true, true, true] <:+: (machine terms).observe (warnings terms) link steps ∧
        (machine terms).Along (fun link step ↦ ¬ link.CutForDrift terms step) link steps) ↔
      ¬ [true, true, true] <:+:
        (Echo.machine (Consumer.acknowledged terms.opts)).observe Echo.strays Echo.new
          ((machine terms).observe (beats terms) link steps) := by
  intro link
  have hnobody : link.entry terms = none := by
    simp [link, new, entry, Session.start, Session.new, Session.setPrice,
      Session.setMeteringPolicy]
  have hechoed : link.Echoed terms Echo.new := by
    refine ⟨rfl, hmarked, by simp [link, new], fun entry hentry ↦ ?_, rfl, rfl, ?_, fun _ ↦ rfl⟩
    · rw [hnobody] at hentry
      exact absurd hentry (by simp)
    · simp [link, new]
  have hcounted : link.Counted terms 0 := by
    intro entry hentry
    rw [hnobody] at hentry
    exact absurd hentry (by simp)
  have halong : (machine terms).Along (fun _ step ↦ terms.MarksToken step) link steps := by
    rw [Transducer.along_iff_forall_cut]
    intro before step after hcut
    exact htokens step (by simp [hcut])
  have hshadow : Transducer.Shadow (machine terms)
      (Echo.machine (Consumer.acknowledged terms.opts)) (beats terms)
      (fun _ step ↦ terms.MarksToken step) (Echoed terms) :=
    fun link echo step hechoed htoken ↦ hechoed.step hmetered htoken
  have hwarnings := hshadow.observe
    (fun link echo step hechoed _ ↦ hechoed.warnings_eq _ step) hechoed halong
  rw [← hwarnings]
  refine ⟨fun hquiet ↦ hquiet.1, fun hnone ↦ ⟨hnone, ?_⟩⟩
  exact hcounted.run hmarked.lawful rfl (Streak.below_iff_not_infix.mpr hnone)

/-! ### Rounds of traffic, a sample and a poll -/

/-- A consumer that echoes, and tops up by one sat. -/
def sampleEcho : Terms :=
  { sampleTerms false with opts := ⟨10, 1, 0, false⟩ }

/-- The first payment and the baseline, and for each counter the delivery, a sample and a poll. -/
def sampleRounds (counters : List UInt64) : List LinkStep :=
  samplePayment ++ .sample 0 3 ::
    counters.flatMap fun counter ↦
      [.deliver counter, .sample 0 4, .poll, .serve 5, .serve 5, .respond []]

-- Each sample is charged, each poll collects its report, and each but the first repeats the report
-- that the one before it collected.
example :
    (machine sampleEcho).observe (beats sampleEcho) sampleLink (sampleRounds [100, 200, 300]) =
      [.paid, .baseline 0, .charge 100, .polled false, .charge 200, .served, .polled false,
        .charge 300, .served, .polled false] := by
  decide +kernel

/-- The echo strays twice, and then the traffic slows down. -/
theorem drift_alarm_of_slowingTraffic :
    ¬ [true, true, true] <:+: (machine sampleEcho).observe (warnings sampleEcho) sampleLink
        (sampleRounds [100, 200, 300, 302, 304]) ∧
      (machine sampleEcho).Along (fun link step ↦ ¬ link.CutForDrift sampleEcho step) sampleLink
        (sampleRounds [100, 200, 300, 302, 304]) := by
  have hstrays : (Echo.machine (Consumer.acknowledged sampleEcho.opts)).observe Echo.strays Echo.new
      ((machine sampleEcho).observe (beats sampleEcho) sampleLink
        (sampleRounds [100, 200, 300, 302, 304])) = [false, false, false, true, true, false] := by
    decide +kernel
  have hmarked : sampleEcho.Marked sampleLink.provider.announce sampleLink.provider.priceSheet :=
    ⟨Minicbor.derived_lawful, by decide +kernel, by decide +kernel, by decide +kernel,
      by decide +kernel⟩
  have htokens : ∀ step ∈ sampleRounds [100, 200, 300, 302, 304], sampleEcho.MarksToken step := by
    decide +kernel
  refine (drift_alarm_iff sampleEcho _ _ _ hmarked rfl _ _ htokens).mpr ?_
  show ¬ [true, true, true] <:+: (Echo.machine (Consumer.acknowledged sampleEcho.opts)).observe
    Echo.strays Echo.new ((machine sampleEcho).observe (beats sampleEcho) sampleLink
      (sampleRounds [100, 200, 300, 302, 304]))
  rw [hstrays]
  decide

/-- A hundred units at every sample, and a poll after each: the consumer echoes every report, and is
suspended for drift at the sixth sample with nearly all its credit left. -/
theorem echo_cut_for_drift :
    (machine sampleEcho).observe (warnings sampleEcho) sampleLink
        (sampleRounds [100, 200, 300, 400, 500]) = [false, false, false, true, true, true] ∧
      ¬ (machine sampleEcho).Along (fun link step ↦ ¬ link.CutForDrift sampleEcho step) sampleLink
        (sampleRounds [100, 200, 300, 400, 500]) ∧
      (((machine sampleEcho).final sampleLink (sampleRounds [100, 200, 300, 400, 500])).entry
        sampleEcho).map (fun entry ↦ (entry.phase, entry.balance)) = some (.suspended, 9500) := by
  decide +kernel

end Link

end Tollgate
