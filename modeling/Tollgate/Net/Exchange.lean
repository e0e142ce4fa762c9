import Tollgate.Core.ExactBilling
import Tollgate.Net.Consume
import Tollgate.Net.Driver

/-!
# A provider and a consumer

The provider with its session, and the loop of a consumer that pays, polls and tops up, over one
true counter of what is delivered. Every exchange is one request of the consumer: its frames are
served one after the other, a token waits for the wallet's verdict, and the response is everything
queued by then. The meter of the provider, the traffic and the wallet interleave with the frames in
any order.

`Link.entry_step` is what a step does to the provider's entry for the consumer; everything about
billing is proved through it. `emitted` keeps a record for the statements only: the last report,
with the balance it was sent at.
-/

set_option autoImplicit false
set_option relaxedAutoImplicit false

namespace Tollgate

open Std

/-- Assumes: an entry without a baseline. It gets one by a sample while it is active, and in no
other way. -/
theorem Entry.baseline_of_step {cbor : Minicbor} {price : Price} {policy : MeteringPolicy}
    {peer : PeerId} {entry : Option PeerSession} {event : PeerEvent} {next : PeerSession}
    (hunread : ∀ before, entry = some before → before.lastCounters = none)
    (hnext : (Entry.step cbor price policy peer entry event).1 = some next)
    (hread : next.lastCounters.isSome = true) :
    ∃ before counters now, entry = some before ∧ before.phase = .active ∧
      event = .sample counters now ∧ next = before.resetMetering counters now := by
  cases entry with
  | none =>
    cases event with
    | connected =>
      obtain rfl := Option.some.inj hnext
      exact absurd hread (by simp [PeerSession.new])
    | _ => exact absurd hnext (by simp [Entry.step])
  | some before =>
    have hnone := hunread before rfl
    have hkept (heq : next.lastCounters = before.lastCounters) : False := by
      rw [heq, hnone] at hread
      exact absurd hread (by simp)
    cases event with
    | disconnected => exact absurd hnext (by simp [Entry.step])
    | reject =>
      obtain rfl := Option.some.inj hnext
      refine (hkept ?_).elim
      simp only [PeerSession.receiveReject]
      split_ifs <;> rfl
    | verified amount ok now =>
      obtain rfl := Option.some.inj hnext
      refine (hkept ?_).elim
      cases ok with
      | false => rfl
      | true =>
        simp only [PeerSession.bootstrapVerified, if_true]
        split_ifs
        · rfl
        · exact hnone.symm
    | sample counters now =>
      by_cases hactive : before.phase = .active
      · rw [step_sample_baseline cbor price policy peer hactive hnone] at hnext
        exact ⟨before, counters, now, rfl, hactive, rfl, (Option.some.inj hnext).symm⟩
      · rw [step_sample_inactive cbor price policy peer hactive] at hnext
        exact (hkept (by rw [Option.some.inj hnext])).elim
    | _ =>
      obtain rfl := Option.some.inj hnext
      exact (hkept rfl).elim

/-- Assumes: an entry with a baseline that an event leaves active and with one. It was active
before. -/
theorem Entry.active_of_step {cbor : Minicbor} {price : Price} {policy : MeteringPolicy}
    {peer : PeerId} {entry next : PeerSession} {event : PeerEvent}
    (hnext : (Entry.step cbor price policy peer (some entry) event).1 = some next)
    (hread : next.lastCounters.isSome = true) (hactive : next.phase = .active) :
    entry.phase = .active := by
  cases event with
  | disconnected => exact absurd hnext (by simp [Entry.step])
  | token message =>
    rw [← Option.some.inj hnext] at hactive
    exact absurd hactive (by simp [PeerSession.receiveToken])
  | reject =>
    rw [← Option.some.inj hnext] at hactive
    simp only [PeerSession.receiveReject] at hactive
    split_ifs at hactive with hclosed
    exact hactive
  | verified amount ok now =>
    by_contra hphase
    rw [← Option.some.inj hnext] at hactive hread
    cases ok with
    | false => exact absurd hactive (by simp [PeerSession.bootstrapVerified])
    | true => exact absurd hread (by simp [PeerSession.bootstrapVerified, hphase])
  | sample counters now =>
    by_contra hphase
    rw [step_sample_inactive cbor price policy peer hphase] at hnext
    rw [← Option.some.inj hnext] at hactive
    exact hphase hactive
  | _ =>
    rw [← Option.some.inj hnext] at hactive
    exact hactive

/-- Assumes: no report on file after an event. There was none before. -/
theorem Entry.filed_eq_none {onFile : Option Counters} {event : PeerEvent}
    (hnone : Entry.filed onFile [event] = none) : onFile = none := by
  cases event with
  | report report => exact absurd hnone (by simp [Entry.filed])
  | _ => exact hnone

/-- What the consumer puts in a request. -/
inductive Frame
  | announce
  | acknowledgement (received : UInt64)
  | token (token : Bytes)
  deriving DecidableEq

/-- Where the consumer's loop is: it pays, waits between polls, polls, tops up, or has given up. -/
inductive Stand
  | unpaid
  | paying
  | idle
  | polling
  | toppingUp (cutOff : Bool)
  | stopped
  deriving DecidableEq

/-- How far the token of a request has come: not served or not handed on, at the wallet, or
answered. -/
inductive Payment
  | none
  | atWallet
  | answered (accepted : Bool)
  deriving DecidableEq

/-- Both parties, the request under way, and the true counter. `emitted` is the record. -/
structure Link where
  provider : Provider
  consumer : Consumer
  stand : Stand
  frames : List Frame
  payment : Payment
  counter : UInt64
  emitted : Option (MeteringReport × UInt64)

/-- What happens next. -/
inductive LinkStep
  | deliver (counter : UInt64)
  | sample (received : UInt64) (now : Millis)
  | pay (token : Bytes)
  | poll
  | serve (now : Millis)
  | verdict (answer : Option UInt64) (now : Millis)
  | respond (token : Bytes)
  deriving DecidableEq

/-- What both parties have fixed: the codec, the consumer's key, its announce and its options. -/
structure Terms where
  cbor : Minicbor
  peer : PeerId
  announce : Announce
  opts : ConsumeOpts

namespace Terms

variable (terms : Terms)

def encode : Frame → Bytes
  | .announce => terms.cbor.encodeAnnounce terms.announce
  | .acknowledgement received =>
    terms.cbor.encodeMeteringReport (MeteringReport.new 0 0 received)
  | .token token => terms.cbor.encodeBootstrapToken (BootstrapToken.new token)

/-- The consumer's meter, if it has one. -/
def raw (counter : UInt64) : UInt64 :=
  if terms.opts.metered then counter else 0

end Terms

/-- The frames of a payment. -/
def payFrames (token : Bytes) : List Frame :=
  [.announce, .token token]

/-- The frames of a poll. -/
def pollFrames (consumer : Consumer) : List Frame :=
  .announce :: if 0 < consumer.ackedReceived then [.acknowledgement consumer.ackedReceived] else []

/-- They are the bodies that the loop sends. -/
theorem map_encode_payFrames (terms : Terms) (token : Bytes) :
    (payFrames token).map terms.encode =
      Consumer.payRequest terms.cbor terms.announce token := rfl

theorem map_encode_pollFrames (terms : Terms) (consumer : Consumer) :
    (pollFrames consumer).map terms.encode =
      Consumer.pollRequest terms.cbor terms.announce consumer := by
  unfold pollFrames Consumer.pollRequest
  split_ifs <;> rfl

/-- The type of the message in a frame. -/
def Frame.type : Frame → MessageType
  | .announce => .announce
  | .acknowledgement _ => .meteringReport
  | .token _ => .bootstrapToken

/-- The codec marks the frame with its type. -/
def Terms.Marks (terms : Terms) (frame : Frame) : Prop :=
  terms.cbor.peekType (terms.encode frame) = some frame.type

instance (terms : Terms) : DecidablePred terms.Marks :=
  fun _ ↦ inferInstanceAs (Decidable (_ = _))

/-- A token that the consumer may send after the step is marked as one. -/
def Terms.MarksToken (terms : Terms) : LinkStep → Prop
  | .pay token | .respond token => terms.Marks (.token token)
  | .deliver _ | .sample _ _ | .poll | .serve _ | .verdict _ _ => True

instance (terms : Terms) : DecidablePred terms.MarksToken
  | .pay token | .respond token => inferInstanceAs (Decidable (terms.Marks (.token token)))
  | .deliver _ | .sample _ _ | .poll | .serve _ | .verdict _ _ => instDecidableTrue

namespace Link

/-- Before the first payment. -/
def new (price : Price) (policy : MeteringPolicy) (announce priceSheet : Bytes)
    (counter : UInt64) : Link where
  provider := ⟨Session.start price policy, [], announce, priceSheet⟩
  consumer := ⟨Price.default, 0, 0, 0⟩
  stand := .unpaid
  frames := []
  payment := .none
  counter := counter
  emitted := none

variable (terms : Terms) (link : Link)

/-- The provider's entry for the consumer. -/
def entry : Option PeerSession :=
  link.provider.session.peers[terms.peer]?

/-- The provider reads its meter. A reading that is charged sends a report. -/
def sample (received : UInt64) (now : Millis) : Link :=
  let counters : Counters := ⟨link.counter, received⟩
  let provider :=
    (link.provider.handle terms.cbor terms.peer (.meterSample terms.peer counters) now).1
  match link.entry terms with
  | some entry =>
    if entry.phase = .active then
      if entry.lastCounters.isSome then
        { link with
          provider := provider
          emitted := some (entry.usageReport counters now,
            entry.balanceAfter counters link.provider.session.price now) }
      else { link with provider := provider }
    else { link with provider := provider }
  | none => { link with provider := provider }

/-- What the provider does at a reading of its meter. -/
def sampled (received : UInt64) (now : Millis) : List Action :=
  (link.provider.handle terms.cbor terms.peer (.meterSample terms.peer ⟨link.counter, received⟩)
    now).2

/-- The provider serves a frame; a token that it hands on waits for its verdict. -/
def serve (frame : Frame) (rest : List Frame) (now : Millis) : Link :=
  let received := link.provider.receive terms.cbor terms.peer (terms.encode frame) now
  { link with
    provider := received.1
    frames := rest
    payment :=
      if received.2.any fun action ↦
          match action with
          | .verifyBootstrapToken _ _ => true
          | _ => false
      then .atWallet else link.payment }

/-- The queue is emptied into the response. -/
def drained : Link :=
  { link with provider := { link.provider with outbox := [] } }

/-- The response arrives. A payment without an answer ends the loop, and so does a first one that is
refused; a poll may lead to a top-up at once. -/
def respond (token : Bytes) : Link :=
  let messages := link.provider.outbox
  match link.stand with
  | .paying =>
    match Consumer.paid terms.cbor messages with
    | some true =>
      { link.drained with
        consumer := Consumer.start terms.cbor terms.opts messages (terms.raw link.counter)
        stand := .idle }
    | some false | none => { link.drained with stand := .stopped }
  | .polling =>
    let polled := link.consumer.afterPoll terms.cbor terms.opts messages (terms.raw link.counter)
    if polled.2.topUp then
      { link.drained with
        consumer := polled.1
        stand := .toppingUp polled.2.cutOff
        frames := payFrames token
        payment := .none }
    else { link.drained with consumer := polled.1, stand := .idle }
  | .toppingUp cutOff =>
    match Consumer.paid terms.cbor messages with
    | some accepted =>
      { link.drained with
        consumer := link.consumer.afterTopUp terms.opts cutOff accepted
        stand := .idle }
    | none => { link.drained with stand := .stopped }
  | .unpaid | .idle | .stopped => link

/-- One step. A step that its party is not ready for does nothing, and the counter never goes
back. -/
def step : LinkStep → Link
  | .deliver counter => if link.counter ≤ counter then { link with counter := counter } else link
  | .sample received now => link.sample terms received now
  | .pay token =>
    if link.stand = .unpaid then
      { link with stand := .paying, frames := payFrames token, payment := .none }
    else link
  | .poll =>
    if link.stand = .idle then
      { link with stand := .polling, frames := pollFrames link.consumer, payment := .none }
    else link
  | .serve now =>
    if link.payment = .atWallet then link
    else
      match link.frames with
      | frame :: rest => link.serve terms frame rest now
      | [] => link
  | .verdict answer now =>
    if link.payment = .atWallet then
      { link with
        provider := (link.provider.handle terms.cbor terms.peer
          (.bootstrapVerified terms.peer (answer.getD 0) answer.isSome) now).1
        payment := .answered answer.isSome }
    else link
  | .respond token =>
    if link.payment = .atWallet ∨ link.frames ≠ [] then link else link.respond terms token

/-- The two parties as a machine over what happens. -/
def machine : Transducer Link LinkStep Empty where
  step link step := (Link.step terms link step, [])

/-! ### What a step does to the entry -/

/-- The event that a frame is to the session, if any. -/
def heardFrame (frame : Bytes) (now : Millis) : Option (Event × Millis) :=
  match terms.cbor.peekType frame with
  | some .announce =>
    (terms.cbor.decodeAnnounce frame).map fun _ ↦ (.peerConnected terms.peer, now)
  | some _ => some (.messageReceived terms.peer frame, now)
  | none => none

/-- The event that a step runs through the session, if any. -/
def heard : LinkStep → Option (Event × Millis)
  | .sample received now => some (.meterSample terms.peer ⟨link.counter, received⟩, now)
  | .serve now =>
    if link.payment = .atWallet then none
    else link.frames.head?.bind fun frame ↦ heardFrame terms (terms.encode frame) now
  | .verdict answer now =>
    if link.payment = .atWallet then
      some (.bootstrapVerified terms.peer (answer.getD 0) answer.isSome, now)
    else none
  | .deliver _ | .pay _ | .poll | .respond _ => none

/-- A step as the entry sees it. -/
def seen (step : LinkStep) : PeerEvent :=
  (link.heard terms step).elim .idle (PeerEvent.of terms.cbor terms.peer)

variable {terms link}

theorem session_receive (provider : Provider) (frame : Bytes) (now : Millis) :
    (provider.receive terms.cbor terms.peer frame now).1.session =
      (heardFrame terms frame now).elim provider.session
        fun input ↦ (provider.session.handle terms.cbor input.1 input.2).1 := by
  unfold Provider.receive heardFrame
  cases terms.cbor.peekType frame with
  | none => rfl
  | some type =>
    cases type with
    | announce => cases terms.cbor.decodeAnnounce frame <;> rfl
    | _ => rfl

theorem provider_sample (received : UInt64) (now : Millis) :
    (link.sample terms received now).provider = (link.provider.handle terms.cbor terms.peer
      (.meterSample terms.peer ⟨link.counter, received⟩) now).1 := by
  unfold Link.sample
  simp only
  cases link.entry terms with
  | none => rfl
  | some entry =>
    simp only
    split_ifs <;> rfl

theorem sampled_eq (received : UInt64) (now : Millis) :
    link.sampled terms received now =
      (Entry.step terms.cbor link.provider.session.price link.provider.session.policy terms.peer
        (link.entry terms) (.sample ⟨link.counter, received⟩ now)).2 := by
  have hself := (@Session.handle_self terms.cbor link.provider.session terms.peer
    (.meterSample terms.peer ⟨link.counter, received⟩) now rfl).2
  rw [PeerEvent.of_meterSample] at hself
  exact hself

theorem outbox_sample (received : UInt64) (now : Millis) :
    (link.sample terms received now).provider.outbox =
      execute terms.cbor terms.peer link.provider.outbox (link.sampled terms received now) := by
  rw [provider_sample]
  rfl

/-- A response changes neither the session nor the counter nor the record. -/
theorem respond_frame (token : Bytes) :
    (link.respond terms token).provider.session = link.provider.session ∧
      (link.respond terms token).counter = link.counter ∧
      (link.respond terms token).emitted = link.emitted := by
  unfold respond
  simp only
  cases link.stand with
  | paying =>
    simp only
    cases Consumer.paid terms.cbor link.provider.outbox with
    | none => exact ⟨rfl, rfl, rfl⟩
    | some accepted => cases accepted <;> exact ⟨rfl, rfl, rfl⟩
  | polling =>
    simp only
    split_ifs <;> exact ⟨rfl, rfl, rfl⟩
  | toppingUp cutOff =>
    simp only
    cases Consumer.paid terms.cbor link.provider.outbox <;> exact ⟨rfl, rfl, rfl⟩
  | _ => exact ⟨rfl, rfl, rfl⟩

/-- A sample changes nothing about the consumer, its request and the counter. -/
theorem sample_frame (received : UInt64) (now : Millis) :
    (link.sample terms received now).consumer = link.consumer ∧
      (link.sample terms received now).stand = link.stand ∧
      (link.sample terms received now).frames = link.frames ∧
      (link.sample terms received now).payment = link.payment ∧
      (link.sample terms received now).counter = link.counter := by
  unfold Link.sample
  simp only
  cases link.entry terms with
  | none => exact ⟨rfl, rfl, rfl, rfl, rfl⟩
  | some entry =>
    simp only
    split_ifs <;> exact ⟨rfl, rfl, rfl, rfl, rfl⟩

theorem session_step (step : LinkStep) :
    (Link.step terms link step).provider.session =
      (link.heard terms step).elim link.provider.session
        fun input ↦ (link.provider.session.handle terms.cbor input.1 input.2).1 := by
  cases step with
  | deliver counter =>
    simp only [Link.step, heard]
    split_ifs <;> rfl
  | sample received now =>
    simp only [Link.step, heard, provider_sample]
    rfl
  | pay token =>
    simp only [Link.step, heard]
    split_ifs <;> rfl
  | poll =>
    simp only [Link.step, heard]
    split_ifs <;> rfl
  | serve now =>
    simp only [Link.step, heard]
    split_ifs
    · rfl
    · cases link.frames with
      | nil => rfl
      | cons frame rest => exact session_receive link.provider (terms.encode frame) now
  | verdict answer now =>
    simp only [Link.step, heard]
    split_ifs <;> rfl
  | respond token =>
    simp only [Link.step, heard]
    split_ifs
    · rfl
    · exact (respond_frame token).1

/-- What a step does to the provider's entry. -/
theorem entry_step (step : LinkStep) :
    (Link.step terms link step).entry terms =
      (Entry.step terms.cbor link.provider.session.price link.provider.session.policy terms.peer
        (link.entry terms) (link.seen terms step)).1 := by
  unfold entry seen
  rw [session_step]
  cases link.heard terms step with
  | none => rfl
  | some input => exact link.provider.session.getElem?_handle terms.cbor terms.peer input.1 input.2

/-- The provider's price and policy stay. -/
theorem terms_step (step : LinkStep) :
    (Link.step terms link step).provider.session.price = link.provider.session.price ∧
      (Link.step terms link step).provider.session.policy = link.provider.session.policy := by
  rw [session_step]
  cases link.heard terms step with
  | none => exact ⟨rfl, rfl⟩
  | some input => exact (link.provider.session.handle_frame terms.cbor input.1 input.2).2

/-- The counter never goes back. -/
theorem counter_step (step : LinkStep) :
    link.counter ≤ (Link.step terms link step).counter := by
  cases step with
  | deliver counter =>
    simp only [Link.step]
    split_ifs with hle
    · exact hle
    · exact UInt64.le_refl _
  | sample received now =>
    show link.counter ≤ (link.sample terms received now).counter
    rw [(sample_frame received now).2.2.2.2]
    exact UInt64.le_refl _
  | pay token =>
    simp only [Link.step]
    split_ifs <;> exact UInt64.le_refl _
  | poll =>
    simp only [Link.step]
    split_ifs <;> exact UInt64.le_refl _
  | serve now =>
    simp only [Link.step]
    split_ifs
    · exact UInt64.le_refl _
    · cases link.frames <;> exact UInt64.le_refl _
  | verdict answer now =>
    simp only [Link.step]
    split_ifs <;> exact UInt64.le_refl _
  | respond token =>
    simp only [Link.step]
    split_ifs
    · exact UInt64.le_refl _
    · rw [(respond_frame token).2.1]
      exact UInt64.le_refl _

/-- Only a reading of the meter is a sample to the entry. -/
theorem seen_sample_iff {step : LinkStep} {counters : Counters} {now : Millis} :
    link.seen terms step = .sample counters now ↔
      ∃ received, step = .sample received now ∧ counters = ⟨link.counter, received⟩ := by
  constructor
  · intro hseen
    unfold seen at hseen
    cases hheard : link.heard terms step with
    | none =>
      rw [hheard] at hseen
      exact absurd hseen (by simp)
    | some input =>
      rw [hheard, Option.elim_some, PeerEvent.of_eq_sample_iff] at hseen
      subst hseen
      cases step with
      | sample received time =>
        simp only [heard, Option.some.injEq, Prod.mk.injEq, Event.meterSample.injEq] at hheard
        obtain ⟨⟨-, rfl⟩, rfl⟩ := hheard
        exact ⟨received, rfl, rfl⟩
      | serve time =>
        simp only [heard] at hheard
        split_ifs at hheard
        cases hframes : link.frames with
        | nil =>
          rw [hframes] at hheard
          exact absurd hheard (by simp)
        | cons frame rest =>
          rw [hframes] at hheard
          simp only [List.head?_cons, Option.bind_some, heardFrame] at hheard
          split at hheard
          · cases hdecode : terms.cbor.decodeAnnounce (terms.encode frame) <;>
              simp [hdecode] at hheard
          · simp at hheard
          · simp at hheard
      | verdict answer time =>
        simp only [heard] at hheard
        split_ifs at hheard
        simp at hheard
      | _ => simp [heard] at hheard
  · rintro ⟨received, rfl, rfl⟩
    simp [seen, heard]

/-- Everything a step can do that leaves a metering session going on: start it, charge a sample of
it, or leave it as it is but for a new report. -/
inductive MeteredStep (terms : Terms) (link : Link) (next : PeerSession) : LinkStep → Prop
  | started (before : PeerSession) (received : UInt64) (now : Millis)
      (hentry : link.entry terms = some before) (hactive : before.phase = .active)
      (hunread : before.lastCounters = none)
      (hnext : next = before.resetMetering ⟨link.counter, received⟩ now) :
      MeteredStep terms link next (.sample received now)
  | charged (entry : PeerSession) (received : UInt64) (now : Millis)
      (hentry : link.entry terms = some entry) (hread : entry.lastCounters.isSome = true)
      (hactive : entry.phase = .active)
      (hnext : next = (entry.chargeSample terms.cbor terms.peer link.provider.session.price
        link.provider.session.policy ⟨link.counter, received⟩ now).1) :
      MeteredStep terms link next (.sample received now)
  | kept (entry : PeerSession) (hentry : link.entry terms = some entry)
      (hread : entry.lastCounters.isSome = true) {step : LinkStep}
      (hsame : SameMetering entry next)
      (hreport : next.peerReport = Entry.filed entry.peerReport [link.seen terms step])
      (hphase : next.phase = .active → entry.phase = .active)
      (hsample : entry.phase ≠ .active ∨ ¬ (link.seen terms step).IsSample) :
      MeteredStep terms link next step

/-- Assumes: a metering session that goes on after a step. -/
theorem metered_step {step : LinkStep} {next : PeerSession}
    (hnext : (Link.step terms link step).entry terms = some next)
    (hread : next.lastCounters.isSome = true) : MeteredStep terms link next step := by
  rw [entry_step] at hnext
  by_cases hunread : ∀ entry, link.entry terms = some entry → entry.lastCounters = none
  · obtain ⟨before, counters, now, hbefore, hactive, hevent, rfl⟩ :=
      Entry.baseline_of_step hunread hnext hread
    obtain ⟨received, rfl, rfl⟩ := seen_sample_iff.mp hevent
    exact .started before received now hbefore hactive (hunread before hbefore) rfl
  · push Not at hunread
    obtain ⟨entry, hentry, hsome⟩ := hunread
    have hentryRead : entry.lastCounters.isSome = true := Option.isSome_iff_ne_none.mpr hsome
    rw [hentry] at hnext
    have hphase := Entry.active_of_step hnext hread
    have hstep := Entry.step_baselined terms.cbor link.provider.session.price
      link.provider.session.policy terms.peer hentryRead (link.seen terms step)
    rw [hnext] at hstep
    cases hstep with
    | readmitted _ hfresh =>
      rw [hfresh] at hread
      exact absurd hread (by simp)
    | charged counters now hevent hactive =>
      obtain ⟨received, rfl, rfl⟩ := seen_sample_iff.mp hevent
      exact .charged entry received now hentry hentryRead hactive rfl
    | kept _ hsame hreport hsample =>
      exact .kept entry hentry hentryRead hsame hreport hphase hsample

/-! ### What the provider reads in a frame -/

/-- The figure that a step hands to the provider. -/
def acknowledges (link : Link) : LinkStep → Option UInt64
  | .serve _ =>
    if link.payment = .atWallet then none
    else
      match link.frames with
      | .acknowledgement figure :: _ => some figure
      | _ => none
  | .deliver _ | .sample _ _ | .pay _ | .poll | .verdict _ _ | .respond _ => none

/-- Assumes: a codec that marks the announce, the acknowledgements and the tokens of the run. Every
frame of a request is marked. -/
theorem marks_step (hlawful : terms.cbor.Lawful) (hannounce : terms.Marks .announce)
    (hframes : ∀ frame ∈ link.frames, terms.Marks frame) {step : LinkStep}
    (htoken : terms.MarksToken step) :
    ∀ frame ∈ (Link.step terms link step).frames, terms.Marks frame := by
  have hpay (token : Bytes) (hmarks : terms.Marks (.token token)) :
      ∀ frame ∈ payFrames token, terms.Marks frame := by
    simp only [payFrames, List.forall_mem_cons]
    exact ⟨hannounce, hmarks, by simp⟩
  cases step with
  | deliver counter =>
    simp only [Link.step]
    split_ifs <;> exact hframes
  | sample received now =>
    show ∀ frame ∈ (link.sample terms received now).frames, terms.Marks frame
    rw [(sample_frame received now).2.2.1]
    exact hframes
  | pay token =>
    simp only [Link.step]
    split_ifs
    · exact hpay token htoken
    · exact hframes
  | poll =>
    simp only [Link.step]
    split_ifs
    · simp only [pollFrames, List.forall_mem_cons]
      refine ⟨hannounce, ?_⟩
      split_ifs
      · simp only [List.forall_mem_singleton]
        exact hlawful.peekType_meteringReport 0 0 _
      · simp
    · exact hframes
  | serve now =>
    simp only [Link.step]
    split_ifs
    · exact hframes
    · cases hrequest : link.frames with
      | nil =>
        simp only
        rw [hrequest]
        simp
      | cons first rest =>
        rw [hrequest, List.forall_mem_cons] at hframes
        exact hframes.2
  | verdict answer now =>
    simp only [Link.step]
    split_ifs <;> exact hframes
  | respond token =>
    simp only [Link.step]
    split_ifs
    · exact hframes
    · unfold respond
      simp only
      cases link.stand with
      | paying =>
        simp only
        cases Consumer.paid terms.cbor link.provider.outbox with
        | none => exact hframes
        | some accepted => cases accepted <;> exact hframes
      | polling =>
        simp only
        split_ifs
        · exact hpay token htoken
        · exact hframes
      | toppingUp cutOff =>
        simp only
        cases Consumer.paid terms.cbor link.provider.outbox <;> exact hframes
      | _ => exact hframes

/-- Assumes: a lawful codec that marks the frames of the request. The entry sees a report exactly
when the step acknowledges a figure, and then with that figure. -/
theorem filed_seen (hlawful : terms.cbor.Lawful)
    (hframes : ∀ frame ∈ link.frames, terms.Marks frame) (step : LinkStep)
    (onFile : Option Counters) :
    (Entry.filed onFile [link.seen terms step]).map Counters.received =
      (link.acknowledges step).or (onFile.map Counters.received) := by
  cases step with
  | serve now =>
    simp only [seen, heard, acknowledges]
    split_ifs
    · rfl
    · cases hrequest : link.frames with
      | nil => rfl
      | cons frame rest =>
        have hmarks : terms.cbor.peekType (terms.encode frame) = some frame.type :=
          hframes frame (by rw [hrequest]; exact List.mem_cons_self)
        simp only [List.head?_cons, Option.bind_some]
        cases frame with
        | announce =>
          simp only [heardFrame, hmarks, Frame.type]
          cases terms.cbor.decodeAnnounce (terms.encode .announce) with
          | none => rfl
          | some announce => simp [Entry.filed]
        | acknowledgement figure =>
          have hdecode : terms.cbor.decodeMeteringReport (terms.encode (.acknowledgement figure)) =
              some (MeteringReport.new 0 0 figure) := hlawful.decode_meteringReport 0 0 figure
          simp [heardFrame, hmarks, Frame.type, PeerEvent.ofMessage, hdecode, Entry.filed,
            MeteringReport.new]
        | token token =>
          simp only [heardFrame, hmarks, Frame.type, Option.elim_some, PeerEvent.of_messageReceived,
            PeerEvent.ofMessage]
          cases terms.cbor.decodeBootstrapToken (terms.encode (.token token)) <;> rfl
  | sample received now => simp [seen, heard, acknowledges, Entry.filed]
  | verdict answer now =>
    simp only [seen, heard, acknowledges]
    split_ifs
    · simp [Entry.filed]
    · rfl
  | _ => rfl

/-! ### Two parties for concrete runs -/

/-- A price sheet with one mint. -/
def samplePriceSheet (price : Price) : Bytes :=
  Minicbor.derived.encodePriceSheet
    { typeTag := MessageType.priceSheet.asU8
      products := [{
        productId := Vector.replicate 32 1
        extensions := []
        pricingScale := 1000
        mintOptions := [{
          optionId := Vector.replicate 32 2
          mintUrl := "https://testnut.cashu.space"
          pricePerSecond := price.perSecond
          pricePerUnit := price.perUnit
          mintUnit := "sat" }] }]
      interval := ⟨1000, 60000⟩ }

/-- A consumer that pays ten sat at a time. -/
def sampleTerms (metered : Bool) : Terms where
  cbor := Minicbor.derived
  peer := samplePeer
  announce := Announce.new protocolVersion samplePeer "byte" 0
  opts := ⟨10, 10, 0, metered⟩

/-- A provider that charges one for each unit. -/
def sampleLink : Link :=
  new ⟨0, 1⟩ MeteringPolicy.default
    (Minicbor.derived.encodeAnnounce
      (Announce.new protocolVersion (Vector.replicate 33 3) "byte" 0))
    (samplePriceSheet ⟨0, 1⟩) 0

/-- The first payment of the consumer. -/
def samplePayment : List LinkStep :=
  [.pay [1], .serve 1, .serve 1, .verdict (some 10000) 2, .respond []]

/-- A poll that leads to a top-up. -/
def sampleTopUp : List LinkStep :=
  [.poll, .serve 5, .respond [2], .serve 6, .serve 6, .verdict (some 10000) 7, .respond []]

end Link

end Tollgate
