import Tollgate.Net.Outbox

/-!
# The order of a request

A request of the consumer goes through its stages in order: the frames are served, a token is the
last of them, it is answered once, and only then does the response arrive. So a consumer that finds
a payment accepted has indeed been credited, and by then it has been told the price that it is
charged at. `Link.Orderly` is this order as an invariant, kept by every step (`Link.Orderly.step`)
when all tokens are accepted.
-/

set_option autoImplicit false
set_option relaxedAutoImplicit false

namespace Tollgate

open Std

/-- The consumer is paying or topping up. -/
def Stand.pays : Stand → Bool
  | .paying | .toppingUp _ => true
  | .unpaid | .idle | .polling | .stopped => false

/-- The consumer holds an account with the provider. -/
def Stand.holds : Stand → Bool
  | .idle | .polling | .toppingUp _ => true
  | .unpaid | .paying | .stopped => false

/-- What the parties rely on of the codec and of the provider's greeting: messages are marked with
their types, an acceptance is read as one, and the price sheet offers the price that is charged. -/
structure Terms.Reads (terms : Terms) (provider : Provider) : Prop where
  lawful : terms.cbor.Lawful
  announce : terms.Marks .announce
  ack_type : terms.cbor.peekType (terms.cbor.encodeBootstrapAck BootstrapAck.accepted) =
    some .bootstrapAck
  ack_decode : terms.cbor.decodeBootstrapAck
    (terms.cbor.encodeBootstrapAck BootstrapAck.accepted) = some BootstrapAck.accepted
  greeting : terms.cbor.peekType provider.announce = some .announce
  sheet_type : terms.cbor.peekType provider.priceSheet = some .priceSheet
  sheet_sent : provider.priceSheet.isEmpty = false
  sheet_decode : (terms.cbor.decodePriceSheet provider.priceSheet).isSome = true
  sheet_price : priceFromSheet (terms.cbor.decodePriceSheet provider.priceSheet) =
    provider.session.price

/-- A poll leaves the price. -/
theorem Consumer.price_afterPoll (cbor : Minicbor) (opts : ConsumeOpts) (consumer : Consumer)
    (messages : List Bytes) (raw : UInt64) :
    (consumer.afterPoll cbor opts messages raw).1.price = consumer.price := by
  simp only [Consumer.afterPoll]
  split_ifs <;> rfl

theorem Consumer.price_afterTopUp (opts : ConsumeOpts) (consumer : Consumer)
    (cutOff accepted : Bool) :
    (consumer.afterTopUp opts cutOff accepted).price = consumer.price := by
  unfold Consumer.afterTopUp
  split_ifs <;> rfl

namespace Link

variable {terms : Terms} {link : Link}

/-! ### Frames and what they do -/

/-- What the entry sees of a frame. -/
def frameEvent (terms : Terms) (frame : Frame) (now : Millis) : PeerEvent :=
  (heardFrame terms (terms.encode frame) now).elim .idle (PeerEvent.of terms.cbor terms.peer)

theorem seen_serve {frame : Frame} {rest : List Frame} (hwallet : link.payment ≠ .atWallet)
    (hframes : link.frames = frame :: rest) (now : Millis) :
    link.seen terms (.serve now) = frameEvent terms frame now := by
  simp [seen, heard, frameEvent, hwallet, hframes]

/-- Assumes: a frame marked with its type. The entry sees in it what it is, or nothing. -/
theorem frameEvent_marked {frame : Frame} (hmarks : terms.Marks frame) (now : Millis) :
    frameEvent terms frame now = .idle ∨
      (frame = .announce ∧ frameEvent terms frame now = .connected) ∨
      (∃ report, frameEvent terms frame now = .report report) ∨
      ∃ token message, frame = .token token ∧ frameEvent terms frame now = .token message := by
  have hpeek : terms.cbor.peekType (terms.encode frame) = some frame.type := hmarks
  unfold frameEvent heardFrame
  rw [hpeek]
  cases frame with
  | announce =>
    simp only [Frame.type]
    cases terms.cbor.decodeAnnounce (terms.encode .announce) with
    | none => exact Or.inl rfl
    | some announce => exact Or.inr (Or.inl ⟨trivial, if_pos rfl⟩)
  | acknowledgement figure =>
    simp only [Frame.type, Option.elim_some, PeerEvent.of_messageReceived, PeerEvent.ofMessage,
      hpeek]
    cases terms.cbor.decodeMeteringReport (terms.encode (.acknowledgement figure)) with
    | none => exact Or.inl rfl
    | some report => exact Or.inr (Or.inr (Or.inl ⟨report, rfl⟩))
  | token token =>
    simp only [Frame.type, Option.elim_some, PeerEvent.of_messageReceived, PeerEvent.ofMessage,
      hpeek]
    cases terms.cbor.decodeBootstrapToken (terms.encode (.token token)) with
    | none => exact Or.inl rfl
    | some message => exact Or.inr (Or.inr (Or.inr ⟨token, message, rfl, rfl⟩))

/-- What the provider does with a frame. -/
theorem receive_actions (provider : Provider) (frame : Frame) (now : Millis) :
    (provider.receive terms.cbor terms.peer (terms.encode frame) now).2 =
      (Entry.step terms.cbor provider.session.price provider.session.policy terms.peer
        provider.session.peers[terms.peer]? (frameEvent terms frame now)).2 := by
  unfold frameEvent heardFrame Provider.receive
  cases terms.cbor.peekType (terms.encode frame) with
  | none => rfl
  | some type =>
    cases type with
    | announce =>
      simp only
      cases terms.cbor.decodeAnnounce (terms.encode frame) with
      | none => rfl
      | some announce => exact (provider.session.handle_self terms.cbor terms.peer now rfl).2
    | _ => exact (provider.session.handle_self terms.cbor terms.peer now rfl).2

/-- Assumes: a marked frame. Serving it leaves the payment as it is, or the frame is a token of a
tracked consumer that is handed to the wallet. -/
theorem payment_serve {frame : Frame} (hmarks : terms.Marks frame) (rest : List Frame)
    (now : Millis) :
    (link.serve terms frame rest now).payment = link.payment ∨
      ((link.serve terms frame rest now).payment = .atWallet ∧ (∃ token, frame = .token token) ∧
        (link.entry terms).isSome = true) := by
  simp only [serve]
  split_ifs with hverify
  · refine Or.inr ⟨rfl, ?_⟩
    rw [List.any_eq_true] at hverify
    obtain ⟨action, haction, hkind⟩ := hverify
    rw [receive_actions] at haction
    cases action with
    | verifyBootstrapToken other token =>
      obtain ⟨message, hevent⟩ := Entry.token_of_verify haction
      refine ⟨?_, ?_⟩
      · rcases frameEvent_marked hmarks now with hidle | ⟨-, hother⟩ | ⟨report, hother⟩ |
          ⟨token, -, hframe, -⟩
        · exact absurd (hidle.symm.trans hevent) (by simp)
        · exact absurd (hother.symm.trans hevent) (by simp)
        · exact absurd (hother.symm.trans hevent) (by simp)
        · exact ⟨token, hframe⟩
      · unfold entry
        cases hentry : link.provider.session.peers[terms.peer]? with
        | none =>
          rw [hentry, hevent] at haction
          exact absurd haction (by simp [Entry.step])
        | some tracked => rfl
    | _ => exact absurd hkind (by simp)
  · exact Or.inl rfl

/-- Assumes: marked frames. No step tears the consumer's entry down. -/
theorem isSome_step (hframes : ∀ frame ∈ link.frames, terms.Marks frame) (step : LinkStep)
    (hsome : (link.entry terms).isSome = true) :
    ((Link.step terms link step).entry terms).isSome = true := by
  rw [entry_step]
  refine Entry.isSome_step ?_ hsome
  cases step with
  | serve now =>
    by_cases hwallet : link.payment = .atWallet
    · simp [seen, heard, hwallet]
    · cases hrequest : link.frames with
      | nil => simp [seen, heard, hrequest]
      | cons frame rest =>
        rw [seen_serve hwallet hrequest]
        rcases frameEvent_marked (hframes frame (by simp [hrequest])) now with
          hevent | ⟨-, hevent⟩ |
          ⟨report, hevent⟩ | ⟨token, message, -, hevent⟩ <;> simp [hevent]
  | sample received now => simp [seen, heard]
  | verdict answer now =>
    simp only [seen, heard]
    split_ifs <;> simp
  | _ => simp [seen, heard]

theorem reads_step (hreads : terms.Reads link.provider) (step : LinkStep) :
    terms.Reads (Link.step terms link step).provider := by
  obtain ⟨hannounce, hsheet⟩ := @greeting_step terms link step
  have hprice := (@terms_step terms link step).1
  refine ⟨hreads.lawful, hreads.announce, hreads.ack_type, hreads.ack_decode, ?_, ?_, ?_, ?_, ?_⟩
  · rw [hannounce]
    exact hreads.greeting
  · rw [hsheet]
    exact hreads.sheet_type
  · rw [hsheet]
    exact hreads.sheet_sent
  · rw [hsheet]
    exact hreads.sheet_decode
  · rw [hsheet, hprice]
    exact hreads.sheet_price

/-! ### The order as an invariant -/

/-- Every token that reaches the wallet is accepted. -/
def Accepts (link : Link) : LinkStep → Prop
  | .verdict answer _ => link.payment = .atWallet → answer.isSome = true
  | .deliver _ | .sample _ _ | .pay _ | .poll | .serve _ | .respond _ => True

/-- A token is the last frame of a payment, and its answer is in the queue only when it has been
given. Before the first payment nobody is tracked, during it the price is in the queue, and after it
the consumer knows the price. -/
structure Orderly (terms : Terms) (link : Link) : Prop where
  reads : terms.Reads link.provider
  frames : ∀ frame ∈ link.frames, terms.Marks frame
  unpaid : link.stand = .unpaid → link.frames = [] ∧ link.entry terms = none
  token : ∀ before token after, link.frames = before ++ .token token :: after →
    after = [] ∧ link.payment = .none ∧ link.stand.pays = true
  wallet : link.payment = .atWallet → link.stand.pays = true
  tracked : link.payment ≠ .none → (link.entry terms).isSome = true
  answers : ∀ message ∈ link.provider.outbox,
    terms.cbor.peekType message = some .bootstrapAck →
      link.stand.pays = true ∧ link.payment = .answered true ∧
        message = terms.cbor.encodeBootstrapAck BootstrapAck.accepted
  sheets : ∀ message ∈ link.provider.outbox, terms.cbor.peekType message = some .priceSheet →
    message = link.provider.priceSheet
  greeted : link.stand = .paying → (link.entry terms).isSome = true →
    link.provider.priceSheet ∈ link.provider.outbox
  priced : link.stand.holds = true → link.consumer.price = link.provider.session.price

/-- Assumes: a body of the queue after a step that is marked as an answer. It was in the queue
before or is the answer given by the step. -/
theorem answer_of_queued (hreads : terms.Reads link.provider) {step : LinkStep}
    (haccepts : link.Accepts step) {message : Bytes} (hqueued : Queued terms link step message)
    (htype : terms.cbor.peekType message = some .bootstrapAck) :
    message ∈ link.provider.outbox ∨
      ∃ answer now, step = .verdict answer now ∧ answer.isSome = true ∧ link.payment = .atWallet ∧
        message = terms.cbor.encodeBootstrapAck BootstrapAck.accepted := by
  cases hqueued with
  | kept hmem => exact Or.inl hmem
  | announce now => exact absurd (hreads.greeting.symm.trans htype) (by simp)
  | priceSheet now => exact absurd (hreads.sheet_type.symm.trans htype) (by simp)
  | reject received now reason =>
    rw [hreads.lawful.peekType_reject] at htype
    exact absurd htype (by simp)
  | report received now elapsedMs theirs ours =>
    rw [hreads.lawful.peekType_meteringReport] at htype
    exact absurd htype (by simp)
  | answer answer now hwallet =>
    have hsome := haccepts hwallet
    refine Or.inr ⟨answer, now, rfl, hsome, hwallet, ?_⟩
    rw [if_pos hsome]

/-- Assumes: a body of the queue after a step that is marked as a price sheet. It was there before,
or is the provider's. -/
theorem sheet_of_queued (hreads : terms.Reads link.provider) {step : LinkStep}
    (haccepts : link.Accepts step) {message : Bytes} (hqueued : Queued terms link step message)
    (htype : terms.cbor.peekType message = some .priceSheet) :
    message ∈ link.provider.outbox ∨ message = link.provider.priceSheet := by
  cases hqueued with
  | kept hmem => exact Or.inl hmem
  | announce now => exact absurd (hreads.greeting.symm.trans htype) (by simp)
  | priceSheet now => exact Or.inr rfl
  | reject received now reason =>
    rw [hreads.lawful.peekType_reject] at htype
    exact absurd htype (by simp)
  | report received now elapsedMs theirs ours =>
    rw [hreads.lawful.peekType_meteringReport] at htype
    exact absurd htype (by simp)
  | answer answer now hwallet =>
    rw [if_pos (haccepts hwallet), hreads.ack_type] at htype
    exact absurd htype (by simp)

/-- Assumes: a response in which the consumer finds an answer to its payment. The answer is one of
its bodies. -/
theorem ack_of_paid {cbor : Minicbor} {messages : List Bytes} {accepted : Bool}
    (hpaid : Consumer.paid cbor messages = some accepted) :
    ∃ message ∈ messages, cbor.peekType message = some .bootstrapAck ∧
      ∃ ack, cbor.decodeBootstrapAck message = some ack ∧ ack.isAccepted = accepted := by
  unfold Consumer.paid at hpaid
  obtain ⟨announce, -, hpaid⟩ := Option.bind_eq_some_iff.mp hpaid
  obtain ⟨ack, hfound, haccepted⟩ := Option.map_eq_some_iff.mp hpaid
  obtain ⟨message, hmem, hdecode⟩ := List.exists_of_findSome?_eq_some hfound
  obtain ⟨hmem, htype⟩ := List.mem_filter.mp hmem
  exact ⟨message, hmem, of_decide_eq_true htype, ack, hdecode, haccepted⟩

/-- Assumes: a response whose price sheets are all the same one. The consumer finds that one. -/
theorem findPriceSheet_of_only {cbor : Minicbor} {messages : List Bytes} {sheet : Bytes}
    (hmem : sheet ∈ messages) (htype : cbor.peekType sheet = some .priceSheet)
    (honly : ∀ message ∈ messages, cbor.peekType message = some .priceSheet → message = sheet)
    (hdecode : (cbor.decodePriceSheet sheet).isSome = true) :
    findPriceSheet cbor messages = cbor.decodePriceSheet sheet := by
  obtain ⟨offer, hoffer⟩ := Option.isSome_iff_exists.mp hdecode
  have hsheet : sheet ∈ ofType cbor messages .priceSheet :=
    List.mem_filter.mpr ⟨hmem, decide_eq_true htype⟩
  unfold findPriceSheet
  cases hsheets : ofType cbor messages .priceSheet with
  | nil =>
    rw [hsheets] at hsheet
    exact absurd hsheet List.not_mem_nil
  | cons first rest =>
    have hfirst : first ∈ ofType cbor messages .priceSheet := by
      rw [hsheets]
      exact List.mem_cons_self
    obtain ⟨hmem, htype⟩ := List.mem_filter.mp hfirst
    rw [honly first hmem (of_decide_eq_true htype), List.findSome?_cons, hoffer]

/-- Assumes: an orderly request whose payment the consumer finds answered. It was accepted. -/
theorem Orderly.answered (horderly : link.Orderly terms) {accepted : Bool}
    (hpaid : Consumer.paid terms.cbor link.provider.outbox = some accepted) :
    accepted = true ∧ link.payment = .answered true ∧ (link.entry terms).isSome = true := by
  obtain ⟨message, hmem, htype, ack, hdecode, haccepted⟩ := ack_of_paid hpaid
  obtain ⟨-, hpayment, rfl⟩ := horderly.answers message hmem htype
  rw [horderly.reads.ack_decode] at hdecode
  obtain rfl := Option.some.inj hdecode
  refine ⟨haccepted.symm, hpayment, horderly.tracked ?_⟩
  rw [hpayment]
  simp

/-- Assumes: an orderly first payment that the consumer finds answered. It has been told the
price. -/
theorem Orderly.price_of_paid (horderly : link.Orderly terms) (hstand : link.stand = .paying)
    {accepted : Bool} (hpaid : Consumer.paid terms.cbor link.provider.outbox = some accepted) :
    priceFromSheet (findPriceSheet terms.cbor link.provider.outbox) =
      link.provider.session.price := by
  have htracked := (horderly.answered hpaid).2.2
  rw [findPriceSheet_of_only (horderly.greeted hstand htracked) horderly.reads.sheet_type
    horderly.sheets horderly.reads.sheet_decode]
  exact horderly.reads.sheet_price

/-! ### One step of it -/

/-- A step that queues something leaves the price sheet in the queue. -/
theorem sheet_mem_handle {provider : Provider} (hreads : terms.Reads provider)
    (hmem : provider.priceSheet ∈ provider.outbox) (event : Event) (now : Millis) :
    provider.priceSheet ∈ (provider.handle terms.cbor terms.peer event now).1.outbox := by
  refine mem_execute_of_mem hmem ?_ _
  rw [hreads.sheet_type]
  simp

/-- Assumes: a frame that leaves the consumer tracked, and the price in the queue if it was tracked
before. The price is in the queue. -/
theorem sheet_mem_receive {provider : Provider} (hreads : terms.Reads provider) {frame : Frame}
    {now : Millis}
    (hmem : provider.session.peers[terms.peer]?.isSome = true →
      provider.priceSheet ∈ provider.outbox)
    (hsome : (Entry.step terms.cbor provider.session.price provider.session.policy terms.peer
      provider.session.peers[terms.peer]? (frameEvent terms frame now)).1.isSome = true) :
    provider.priceSheet ∈
      (provider.receive terms.cbor terms.peer (terms.encode frame) now).1.outbox := by
  have hother : terms.cbor.peekType provider.priceSheet ≠ some .meteringReport := by
    rw [hreads.sheet_type]
    simp
  -- A frame that is no announce leaves nobody tracked who was not.
  have htracked (hevent : frameEvent terms frame now ≠ .connected) :
      provider.priceSheet ∈ provider.outbox := by
    refine hmem ?_
    cases hentry : provider.session.peers[terms.peer]? with
    | some tracked => rfl
    | none =>
      rw [hentry] at hsome
      obtain ⟨next, hnext⟩ := Option.isSome_iff_exists.mp hsome
      exact absurd (Entry.step_untracked hnext).1 hevent
  unfold Provider.receive
  unfold frameEvent heardFrame at htracked
  cases hpeek : terms.cbor.peekType (terms.encode frame) with
  | none =>
    rw [hpeek] at htracked
    exact htracked (by simp)
  | some type =>
    rw [hpeek] at htracked
    cases type with
    | announce =>
      simp only
      cases hdecode : terms.cbor.decodeAnnounce (terms.encode frame) with
      | none =>
        rw [hdecode] at htracked
        exact htracked (by simp)
      | some announce =>
        simp only [Provider.peerConnected, hreads.sheet_sent]
        exact List.mem_append_right _ List.mem_cons_self
    | _ =>
      refine sheet_mem_handle hreads (htracked ?_) _ _
      rw [Option.elim_some, PeerEvent.of_messageReceived]
      exact (PeerEvent.ofMessage_ne terms.cbor _).2.2

/-- Assumes: a step that changes nothing but the provider and the counter, and gives no answer. -/
theorem Orderly.unchanged (horderly : link.Orderly terms) {step : LinkStep}
    (htoken : terms.MarksToken step) (haccepts : link.Accepts step)
    (hanswer : ∀ answer now, step ≠ .verdict answer now)
    (hstand : (Link.step terms link step).stand = link.stand)
    (hframes : (Link.step terms link step).frames = link.frames)
    (hpayment : (Link.step terms link step).payment = link.payment)
    (hconsumer : (Link.step terms link step).consumer = link.consumer)
    (hnobody : link.entry terms = none → (Link.step terms link step).entry terms = none)
    (hsheet : link.provider.priceSheet ∈ link.provider.outbox →
      link.provider.priceSheet ∈ (Link.step terms link step).provider.outbox) :
    (Link.step terms link step).Orderly terms where
  reads := reads_step horderly.reads step
  frames := marks_step horderly.reads.lawful horderly.reads.announce horderly.frames htoken
  unpaid hunpaid := by
    rw [hstand] at hunpaid
    rw [hframes]
    exact ⟨(horderly.unpaid hunpaid).1, hnobody (horderly.unpaid hunpaid).2⟩
  token := by
    rw [hframes, hpayment, hstand]
    exact horderly.token
  wallet := by
    rw [hpayment, hstand]
    exact horderly.wallet
  tracked hpaid := by
    rw [hpayment] at hpaid
    exact isSome_step horderly.frames step (horderly.tracked hpaid)
  answers message hmem htype := by
    rw [hstand, hpayment]
    rcases answer_of_queued horderly.reads haccepts (queued_step hmem) htype with
      hmem | ⟨answer, now, hstep, -⟩
    · exact horderly.answers message hmem htype
    · exact absurd hstep (hanswer answer now)
  sheets message hmem htype := by
    rw [(greeting_step step).2]
    rcases sheet_of_queued horderly.reads haccepts (queued_step hmem) htype with hmem | rfl
    · exact horderly.sheets message hmem htype
    · rfl
  greeted hpaying hsome := by
    rw [hstand] at hpaying
    rw [(greeting_step step).2]
    refine hsheet (horderly.greeted hpaying ?_)
    by_contra hnone
    rw [Option.not_isSome_iff_eq_none] at hnone
    rw [hnobody hnone] at hsome
    exact absurd hsome (by simp)
  priced hholds := by
    rw [hstand] at hholds
    rw [hconsumer, (terms_step step).1]
    exact horderly.priced hholds

/-- Assumes: an orderly request that the consumer has not begun, or a poll. It starts another one,
in which a token stands last if there is one. -/
theorem Orderly.begun (horderly : link.Orderly terms) (hbefore : link.stand.pays = false)
    {stand : Stand} {frames : List Frame} (hframes : ∀ frame ∈ frames, terms.Marks frame)
    (hstand : stand ≠ .unpaid)
    (htoken : ∀ before token after, frames = before ++ .token token :: after →
      after = [] ∧ stand.pays = true)
    (hgreeted : stand = .paying → link.entry terms = none)
    (hpriced : stand.holds = true → link.consumer.price = link.provider.session.price) :
    ({ link with stand := stand, frames := frames, payment := .none } : Link).Orderly terms where
  reads := horderly.reads
  frames := hframes
  unpaid hunpaid := absurd hunpaid hstand
  token before token after heq :=
    ⟨(htoken before token after heq).1, rfl, (htoken before token after heq).2⟩
  wallet hwallet := nomatch hwallet
  tracked hpaid := absurd rfl hpaid
  answers message hmem htype := by
    have hpays := (horderly.answers message hmem htype).1
    rw [hbefore] at hpays
    exact absurd hpays (by simp)
  sheets := horderly.sheets
  greeted hpaying hsome := by
    have hsome : (link.entry terms).isSome = true := hsome
    rw [hgreeted hpaying] at hsome
    exact absurd hsome (by simp)
  priced := hpriced

/-- Assumes: an orderly request with its response under way. The queue is emptied, and the consumer
takes another stand. -/
theorem Orderly.responded (horderly : link.Orderly terms) (hwallet : link.payment ≠ .atWallet)
    (hnone : link.frames = []) {consumer : Consumer} {stand : Stand} (hstand : stand ≠ .unpaid)
    (hpaying : stand ≠ .paying)
    (hpriced : stand.holds = true → consumer.price = link.provider.session.price) :
    ({ link.drained with consumer := consumer, stand := stand } : Link).Orderly terms where
  reads := { horderly.reads with }
  frames := horderly.frames
  unpaid hunpaid := absurd hunpaid hstand
  token before token after heq := by
    have heq : link.frames = before ++ .token token :: after := heq
    rw [hnone] at heq
    exact absurd heq (by simp)
  wallet hpayment := absurd hpayment hwallet
  tracked := horderly.tracked
  answers message hmem := absurd hmem List.not_mem_nil
  sheets message hmem := absurd hmem List.not_mem_nil
  greeted heq := absurd heq hpaying
  priced := hpriced

/-- The token of a payment is its last frame. -/
theorem last_payFrames {token other : Bytes} {before after : List Frame}
    (heq : payFrames token = before ++ .token other :: after) : after = [] := by
  cases before with
  | nil => exact absurd heq (by simp [payFrames])
  | cons first rest =>
    cases rest with
    | nil =>
      simp only [payFrames, List.cons_append, List.nil_append, List.cons.injEq] at heq
      exact heq.2.2.symm
    | cons second others => exact absurd heq (by simp [payFrames])

/-- A poll has no token. -/
theorem token_not_mem_pollFrames (consumer : Consumer) (token : Bytes) :
    .token token ∉ pollFrames consumer := by
  unfold pollFrames
  split_ifs <;> simp

/-- Assumes: an orderly request whose next frame is served. -/
theorem Orderly.served (horderly : link.Orderly terms) (hwallet : link.payment ≠ .atWallet)
    {frame : Frame} {rest : List Frame} (hrequest : link.frames = frame :: rest) (now : Millis) :
    (link.serve terms frame rest now).Orderly terms := by
  have hstep : Link.step terms link (.serve now) = link.serve terms frame rest now := by
    simp [Link.step, hwallet, hrequest]
  have haccepts : link.Accepts (.serve now) := trivial
  have hmarks : terms.Marks frame := horderly.frames frame (by simp [hrequest])
  have hpayment := @payment_serve terms link frame hmarks rest now
  -- The frame that is handed to the wallet is the last one, and nothing was paid before.
  have hlast {token : Bytes} (heq : frame = .token token) :
      rest = [] ∧ link.payment = .none ∧ link.stand.pays = true :=
    horderly.token [] token rest (by rw [hrequest, heq, List.nil_append])
  refine
    { reads := ?_, frames := ?_, unpaid := ?_, token := ?_, wallet := ?_, tracked := ?_,
      answers := ?_, sheets := ?_, greeted := ?_, priced := ?_ }
  · rw [← hstep]
    exact reads_step horderly.reads _
  · rw [← hstep]
    exact marks_step horderly.reads.lawful horderly.reads.announce horderly.frames trivial
  · intro hunpaid
    rw [(horderly.unpaid hunpaid).1] at hrequest
    exact absurd hrequest (by simp)
  · intro before token after heq
    have heq : rest = before ++ .token token :: after := heq
    obtain ⟨hafter, hnone, hpays⟩ := horderly.token (frame :: before) token after
      (by rw [hrequest, heq, List.cons_append])
    refine ⟨hafter, ?_, hpays⟩
    rcases hpayment with hsame | ⟨-, ⟨other, hframe⟩, -⟩
    · rw [hsame]
      exact hnone
    · rw [(hlast hframe).1] at heq
      exact absurd heq (by simp)
  · intro hatWallet
    rcases hpayment with hsame | ⟨-, ⟨other, hframe⟩, -⟩
    · rw [hsame] at hatWallet
      exact absurd hatWallet hwallet
    · exact (hlast hframe).2.2
  · intro hpaid
    rw [← hstep]
    refine isSome_step horderly.frames _ ?_
    rcases hpayment with hsame | ⟨-, -, htracked⟩
    · rw [hsame] at hpaid
      exact horderly.tracked hpaid
    · exact htracked
  · intro message hmem htype
    rw [← hstep] at hmem
    rcases answer_of_queued horderly.reads haccepts (queued_step hmem) htype with
      hmem | ⟨answer, time, hverdict, -⟩
    · obtain ⟨hpays, hanswered, heq⟩ := horderly.answers message hmem htype
      refine ⟨hpays, ?_, heq⟩
      rcases hpayment with hsame | ⟨-, ⟨other, hframe⟩, -⟩
      · rw [hsame]
        exact hanswered
      · rw [(hlast hframe).2.1] at hanswered
        exact absurd hanswered (by simp)
    · exact absurd hverdict (by simp)
  · intro message hmem htype
    rw [← hstep] at hmem ⊢
    rw [(greeting_step _).2]
    rcases sheet_of_queued horderly.reads haccepts (queued_step hmem) htype with hmem | rfl
    · exact horderly.sheets message hmem htype
    · rfl
  · intro hpaying hsome
    rw [← hstep, entry_step, seen_serve hwallet hrequest] at hsome
    rw [← hstep, (greeting_step _).2, hstep]
    exact sheet_mem_receive horderly.reads (horderly.greeted hpaying) hsome
  · intro hholds
    rw [← hstep, (terms_step _).1, hstep]
    exact horderly.priced hholds

/-- Assumes: an orderly request whose token is accepted. -/
theorem Orderly.accepted (horderly : link.Orderly terms) (hwallet : link.payment = .atWallet)
    {answer : Option UInt64} (hsome : answer.isSome = true) (now : Millis) :
    (Link.step terms link (.verdict answer now)).Orderly terms := by
  have haccepts : link.Accepts (.verdict answer now) := fun _ ↦ hsome
  have hpays := horderly.wallet hwallet
  have htracked := horderly.tracked (by rw [hwallet]; simp)
  have hfields : (Link.step terms link (.verdict answer now)).stand = link.stand ∧
      (Link.step terms link (.verdict answer now)).frames = link.frames ∧
      (Link.step terms link (.verdict answer now)).payment = .answered true ∧
      (Link.step terms link (.verdict answer now)).consumer = link.consumer := by
    simp [Link.step, hwallet, hsome]
  obtain ⟨hstand, hframes, hpayment, hconsumer⟩ := hfields
  refine
    { reads := reads_step horderly.reads _
      frames := marks_step horderly.reads.lawful horderly.reads.announce horderly.frames trivial
      unpaid := ?_, token := ?_, wallet := ?_, tracked := ?_, answers := ?_, sheets := ?_
      greeted := ?_, priced := ?_ }
  · intro hunpaid
    rw [hstand] at hunpaid
    rw [hunpaid] at hpays
    exact absurd hpays (by simp [Stand.pays])
  · intro before token after heq
    rw [hframes] at heq
    have hnone := (horderly.token before token after heq).2.1
    rw [hwallet] at hnone
    exact absurd hnone (by simp)
  · intro hagain
    rw [hpayment] at hagain
    exact absurd hagain (by simp)
  · intro _
    exact isSome_step horderly.frames _ htracked
  · intro message hmem htype
    rw [hstand, hpayment]
    refine ⟨hpays, rfl, ?_⟩
    rcases answer_of_queued horderly.reads haccepts (queued_step hmem) htype with
      hmem | ⟨_, _, -, -, -, heq⟩
    · exact (horderly.answers message hmem htype).2.2
    · exact heq
  · intro message hmem htype
    rw [(greeting_step _).2]
    rcases sheet_of_queued horderly.reads haccepts (queued_step hmem) htype with hmem | rfl
    · exact horderly.sheets message hmem htype
    · rfl
  · intro hpaying _
    rw [hstand] at hpaying
    rw [(greeting_step _).2]
    simp only [Link.step, hwallet, if_true]
    exact sheet_mem_handle horderly.reads (horderly.greeted hpaying htracked) _ _
  · intro hholds
    rw [hstand] at hholds
    rw [hconsumer, (terms_step _).1]
    exact horderly.priced hholds

/-- Assumes: an orderly request with its response under way. -/
theorem Orderly.respond (horderly : link.Orderly terms) (hwallet : link.payment ≠ .atWallet)
    (hnone : link.frames = []) {token : Bytes} (htoken : terms.Marks (.token token)) :
    (link.respond terms token).Orderly terms := by
  have hstopped : ({ link.drained with stand := .stopped } : Link).Orderly terms :=
    @Orderly.responded terms link horderly hwallet hnone link.consumer .stopped (by simp) (by simp)
      (by simp [Stand.holds])
  unfold Link.respond
  simp only
  cases hstand : link.stand with
  | paying =>
    simp only
    cases hpaid : Consumer.paid terms.cbor link.provider.outbox with
    | none => exact hstopped
    | some accepted =>
      cases accepted with
      | false => exact hstopped
      | true =>
        refine horderly.responded hwallet hnone (by simp) (by simp) fun _ ↦ ?_
        exact horderly.price_of_paid hstand hpaid
  | polling =>
    have hpriced := horderly.priced (by rw [hstand]; rfl)
    have hprice := Consumer.price_afterPoll terms.cbor terms.opts link.consumer
      link.provider.outbox (terms.raw link.counter)
    simp only
    split_ifs
    · have hdrained : ({ link.drained with
          consumer := (link.consumer.afterPoll terms.cbor terms.opts link.provider.outbox
            (terms.raw link.counter)).1, stand := .idle } : Link).Orderly terms :=
        horderly.responded hwallet hnone (by simp) (by simp) fun _ ↦ hprice.trans hpriced
      refine hdrained.begun rfl ?_ (by simp) ?_ (by simp) fun _ ↦ hprice.trans hpriced
      · simp only [payFrames, List.forall_mem_cons]
        exact ⟨horderly.reads.announce, htoken, by simp⟩
      · exact fun before other after heq ↦ ⟨last_payFrames heq, rfl⟩
    · exact horderly.responded hwallet hnone (by simp) (by simp) fun _ ↦ hprice.trans hpriced
  | toppingUp cutOff =>
    have hpriced := horderly.priced (by rw [hstand]; rfl)
    simp only
    cases hpaid : Consumer.paid terms.cbor link.provider.outbox with
    | none => exact hstopped
    | some accepted =>
      refine horderly.responded hwallet hnone (by simp) (by simp) fun _ ↦ ?_
      rw [Consumer.price_afterTopUp]
      exact hpriced
  | _ => exact horderly

/-- Assumes: an orderly request, and a step at which a token is not refused. -/
theorem Orderly.step (horderly : link.Orderly terms) {step : LinkStep}
    (htoken : terms.MarksToken step) (haccepts : link.Accepts step) :
    (Link.step terms link step).Orderly terms := by
  cases step with
  | deliver counter =>
    refine horderly.unchanged htoken haccepts (by simp) ?_ ?_ ?_ ?_ ?_ ?_ <;>
      simp only [Link.step] <;> split_ifs <;> first | rfl | exact id
  | sample received now =>
    obtain ⟨hconsumer, hstand, hframes, hpayment, -⟩ := @sample_frame terms link received now
    refine horderly.unchanged htoken haccepts (by simp) hstand hframes hpayment hconsumer ?_ ?_
    · intro hnobody
      rw [entry_step, hnobody]
      simp [seen, heard, Entry.step]
    · intro hmem
      simp only [Link.step, provider_sample]
      exact sheet_mem_handle horderly.reads hmem _ _
  | pay token =>
    simp only [Link.step]
    split_ifs with hstand
    · refine horderly.begun (by rw [hstand]; rfl) ?_ (by simp) ?_ ?_ (by simp [Stand.holds])
      · simp only [payFrames, List.forall_mem_cons]
        exact ⟨horderly.reads.announce, htoken, by simp⟩
      · exact fun before other after heq ↦ ⟨last_payFrames heq, rfl⟩
      · exact fun _ ↦ (horderly.unpaid hstand).2
    · exact horderly
  | poll =>
    have hmarks := @marks_step terms link horderly.reads.lawful horderly.reads.announce
      horderly.frames .poll trivial
    simp only [Link.step] at hmarks ⊢
    split_ifs at hmarks ⊢ with hstand
    · refine horderly.begun (by rw [hstand]; rfl) hmarks (by simp) ?_ (by simp) ?_
      · intro before token after heq
        have hmem : Frame.token token ∈ pollFrames link.consumer := by simp [heq]
        exact absurd hmem (token_not_mem_pollFrames _ _)
      · exact fun _ ↦ horderly.priced (by rw [hstand]; rfl)
    · exact horderly
  | serve now =>
    simp only [Link.step]
    split_ifs with hwallet
    · exact horderly
    · cases hrequest : link.frames with
      | nil => exact horderly
      | cons frame rest => exact horderly.served hwallet hrequest now
  | verdict answer now =>
    by_cases hwallet : link.payment = .atWallet
    · exact horderly.accepted hwallet (haccepts hwallet) now
    · simp only [Link.step, if_neg hwallet]
      exact horderly
  | respond token =>
    simp only [Link.step]
    split_ifs with hbusy
    · exact horderly
    · rw [not_or, not_not] at hbusy
      exact horderly.respond hbusy.1 hbusy.2 htoken

end Link

end Tollgate
