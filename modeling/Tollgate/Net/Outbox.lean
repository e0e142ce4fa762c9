import Tollgate.Net.CostAgreement
import Tollgate.Net.Exchange

/-!
# What is queued for the consumer

Every body in the provider's queue comes from one of a few places: the greeting of an announce, the
reports and rejections of a sample, and the answer to a token. `Link.queued_step` says so for one
step, and what the consumer finds in a response is derived from it.
-/

set_option autoImplicit false
set_option relaxedAutoImplicit false

namespace Tollgate

open Std

/-! ### Queueing -/

section Queue

variable {cbor : Minicbor} {peer : PeerId} {queue : List Bytes} {message : Bytes}

theorem mem_enqueue {later : Bytes} (hmem : message ∈ enqueue cbor queue later) :
    message ∈ queue ∨ message = later := by
  rw [enqueue, List.mem_append, List.mem_singleton] at hmem
  refine hmem.imp_left fun hqueue ↦ ?_
  split_ifs at hqueue
  · exact List.mem_of_mem_filter hqueue
  · exact hqueue

/-- A body that is not a report stays in the queue. -/
theorem mem_enqueue_of_mem (hmem : message ∈ queue)
    (hother : cbor.peekType message ≠ some .meteringReport) (later : Bytes) :
    message ∈ enqueue cbor queue later := by
  rw [enqueue, List.mem_append]
  refine Or.inl ?_
  split_ifs
  · exact List.mem_filter.mpr ⟨hmem, decide_eq_true hother⟩
  · exact hmem

theorem mem_execute {actions : List Action} (hmem : message ∈ execute cbor peer queue actions) :
    message ∈ queue ∨ .send peer message ∈ actions := by
  have hfold : ∀ (messages queue : List Bytes), message ∈ messages.foldl (enqueue cbor) queue →
      message ∈ queue ∨ message ∈ messages := by
    intro messages
    induction messages with
    | nil => exact fun queue hmem ↦ Or.inl hmem
    | cons first rest ih =>
      intro queue hmem
      rcases ih _ hmem with hqueue | hrest
      · rcases mem_enqueue hqueue with hqueue | rfl
        · exact Or.inl hqueue
        · exact Or.inr List.mem_cons_self
      · exact Or.inr (List.mem_cons_of_mem _ hrest)
  refine (hfold _ _ hmem).imp_right fun hsent ↦ ?_
  obtain ⟨action, haction, hsent⟩ := List.mem_filterMap.mp hsent
  cases action with
  | send other bytes =>
    simp only [Action.sentTo] at hsent
    split_ifs at hsent with hpeer
    rw [← Option.some.inj hsent, ← hpeer]
    exact haction
  | _ => exact absurd hsent (by simp [Action.sentTo])

theorem mem_execute_of_mem (hmem : message ∈ queue)
    (hother : cbor.peekType message ≠ some .meteringReport) (actions : List Action) :
    message ∈ execute cbor peer queue actions := by
  unfold execute
  induction actions.filterMap (Action.sentTo peer) generalizing queue with
  | nil => exact hmem
  | cons first rest ih => exact ih (mem_enqueue_of_mem hmem hother first)

theorem execute_of_no_sends {actions : List Action}
    (hsends : ∀ bytes, .send peer bytes ∉ actions) :
    execute cbor peer queue actions = queue := by
  have hnone : actions.filterMap (Action.sentTo peer) = [] := by
    refine List.filterMap_eq_nil_iff.mpr fun action haction ↦ ?_
    cases action with
    | send other bytes =>
      refine if_neg fun hpeer ↦ hsends bytes ?_
      rw [← hpeer]
      exact haction
    | _ => rfl
  rw [execute, hnone, List.foldl_nil]

end Queue

/-- What the arms of the session send: reports and rejections at a sample, and the answer to a
token. -/
theorem Entry.sends {cbor : Minicbor} {price : Price} {policy : MeteringPolicy}
    {peer other : PeerId} {entry : Option PeerSession} {event : PeerEvent} {bytes : Bytes}
    (haction : .send other bytes ∈ (Entry.step cbor price policy peer entry event).2) :
    (event.IsSample ∧
        ((∃ reason, bytes = cbor.encodeReject (Reject.new .meteringReport reason)) ∨
          ∃ elapsedMs delivered received, bytes =
            cbor.encodeMeteringReport (MeteringReport.new elapsedMs delivered received))) ∨
      ∃ amount ok now, event = .verified amount ok now ∧ bytes = cbor.encodeBootstrapAck
        (if ok then BootstrapAck.accepted
          else BootstrapAck.rejected "token verification failed") := by
  cases entry with
  | none => cases event <;> simp [Entry.step] at haction
  | some entry =>
    cases event with
    | reject =>
      simp only [Entry.step, Entry.getMut_some, PeerSession.receiveReject] at haction
      split_ifs at haction <;> simp at haction
    | verified amount ok now =>
      refine Or.inr ⟨amount, ok, now, rfl, ?_⟩
      cases ok <;> simp [Entry.step, PeerSession.bootstrapVerified] at haction <;> exact haction.2
    | sample counters now =>
      refine Or.inl ⟨trivial, ?_⟩
      by_cases hactive : entry.phase = .active
      · by_cases hread : entry.lastCounters.isSome = true
        · rw [step_sample_charge _ _ _ _ hactive hread] at haction
          simp only [PeerSession.chargeSample, List.mem_append, List.mem_singleton,
            Action.send.injEq] at haction
          rcases haction with (hwarning | hreport) | hsuspension
          · split_ifs at hwarning
            · simp only [List.mem_singleton, Action.send.injEq] at hwarning
              exact Or.inl ⟨_, hwarning.2⟩
            · exact absurd hwarning List.not_mem_nil
          · exact Or.inr ⟨_, _, _, hreport.2⟩
          · split_ifs at hsuspension
            · simp at hsuspension
              exact Or.inl ⟨_, hsuspension.2⟩
            · simp at hsuspension
            · exact absurd hsuspension List.not_mem_nil
        · rw [step_sample_baseline _ _ _ _ hactive (by simpa using hread)] at haction
          exact absurd haction List.not_mem_nil
      · rw [step_sample_inactive _ _ _ _ hactive] at haction
        exact absurd haction List.not_mem_nil
    | _ => simp [Entry.step, PeerSession.receivePriceSheet, PeerSession.receiveAccept,
        PeerSession.receiveReport, PeerSession.receiveToken] at haction

namespace Link

variable {terms : Terms} {link : Link}

/-- Where a body that is queued after a step comes from. -/
inductive Queued (terms : Terms) (link : Link) : LinkStep → Bytes → Prop
  | kept {step : LinkStep} {message : Bytes} (hmem : message ∈ link.provider.outbox) :
      Queued terms link step message
  | announce (now : Millis) : Queued terms link (.serve now) link.provider.announce
  | priceSheet (now : Millis) : Queued terms link (.serve now) link.provider.priceSheet
  | reject (received : UInt64) (now : Millis) (reason : RejectReason) :
      Queued terms link (.sample received now)
        (terms.cbor.encodeReject (Reject.new .meteringReport reason))
  | report (received : UInt64) (now : Millis) (elapsedMs theirs ours : UInt64) :
      Queued terms link (.sample received now)
        (terms.cbor.encodeMeteringReport (MeteringReport.new elapsedMs theirs ours))
  | answer (answer : Option UInt64) (now : Millis) (hwallet : link.payment = .atWallet) :
      Queued terms link (.verdict answer now) (terms.cbor.encodeBootstrapAck
        (if answer.isSome then BootstrapAck.accepted
          else BootstrapAck.rejected "token verification failed"))

/-- What the provider queues for an event that it runs through the session. -/
theorem mem_outbox_handle {provider : Provider} {event : Event} {now : Millis}
    (hpeer : event.peer = some terms.peer) {message : Bytes}
    (hmem : message ∈ (provider.handle terms.cbor terms.peer event now).1.outbox) :
    message ∈ provider.outbox ∨ .send terms.peer message ∈
      (Entry.step terms.cbor provider.session.price provider.session.policy terms.peer
        provider.session.peers[terms.peer]?
        (PeerEvent.of terms.cbor terms.peer (event, now))).2 := by
  rw [← (provider.session.handle_self terms.cbor terms.peer now hpeer).2]
  exact mem_execute hmem

/-- Neither an announce nor a message makes the session send anything. -/
theorem outbox_connected (provider : Provider) (now : Millis) :
    (provider.handle terms.cbor terms.peer (.peerConnected terms.peer) now).1.outbox =
      provider.outbox := by
  refine execute_of_no_sends fun bytes hsend ↦ ?_
  rw [(provider.session.handle_self terms.cbor terms.peer now rfl).2,
    PeerEvent.of_peerConnected] at hsend
  rcases Entry.sends hsend with ⟨hsample, -⟩ | ⟨amount, ok, time, hevent, -⟩
  · exact hsample
  · exact absurd hevent (by simp)

theorem outbox_message (provider : Provider) (bytes : Bytes) (now : Millis) :
    (provider.handle terms.cbor terms.peer (.messageReceived terms.peer bytes) now).1.outbox =
      provider.outbox := by
  refine execute_of_no_sends fun sent hsend ↦ ?_
  rw [(provider.session.handle_self terms.cbor terms.peer now rfl).2,
    PeerEvent.of_messageReceived] at hsend
  obtain ⟨hsamples, hverified, -⟩ := PeerEvent.ofMessage_ne terms.cbor bytes
  rcases Entry.sends hsend with ⟨hsample, -⟩ | ⟨amount, ok, time, hevent, -⟩
  · cases hevent : PeerEvent.ofMessage terms.cbor bytes with
    | sample counters time => exact hsamples counters time hevent
    | _ =>
      rw [hevent] at hsample
      exact hsample
  · exact hverified amount ok time hevent

/-- A frame that is served queues at most a greeting. -/
theorem mem_outbox_receive {provider : Provider} {frame : Bytes} {now : Millis} {message : Bytes}
    (hmem : message ∈ (provider.receive terms.cbor terms.peer frame now).1.outbox) :
    message ∈ provider.outbox ∨ message = provider.announce ∨ message = provider.priceSheet := by
  unfold Provider.receive at hmem
  cases hpeek : terms.cbor.peekType frame with
  | none =>
    rw [hpeek] at hmem
    exact Or.inl hmem
  | some type =>
    rw [hpeek] at hmem
    cases type with
    | announce =>
      cases hdecode : terms.cbor.decodeAnnounce frame with
      | none =>
        rw [hdecode] at hmem
        exact Or.inl hmem
      | some announce =>
        rw [hdecode] at hmem
        simp only [Provider.peerConnected, outbox_connected] at hmem
        split_ifs at hmem
        · exact (mem_enqueue hmem).imp_right Or.inl
        · rcases mem_enqueue hmem with hmem | rfl
          · exact (mem_enqueue hmem).imp_right Or.inl
          · exact Or.inr (Or.inr rfl)
    | _ =>
      simp only [outbox_message] at hmem
      exact Or.inl hmem

/-- The response leaves nothing new in the queue. -/
theorem mem_outbox_respond {token message : Bytes}
    (hmem : message ∈ (link.respond terms token).provider.outbox) :
    message ∈ link.provider.outbox := by
  unfold respond at hmem
  simp only at hmem
  cases hstand : link.stand with
  | paying =>
    rw [hstand] at hmem
    simp only at hmem
    split at hmem <;> exact absurd hmem List.not_mem_nil
  | polling =>
    rw [hstand] at hmem
    simp only at hmem
    split_ifs at hmem <;> exact absurd hmem List.not_mem_nil
  | toppingUp cutOff =>
    rw [hstand] at hmem
    simp only at hmem
    split at hmem <;> exact absurd hmem List.not_mem_nil
  | _ =>
    rw [hstand] at hmem
    exact hmem

theorem queued_step {step : LinkStep} {message : Bytes}
    (hmem : message ∈ (Link.step terms link step).provider.outbox) :
    Queued terms link step message := by
  cases step with
  | deliver counter =>
    simp only [Link.step] at hmem
    split_ifs at hmem <;> exact .kept hmem
  | sample received now =>
    simp only [Link.step, provider_sample] at hmem
    rcases mem_outbox_handle rfl hmem with hmem | hsend
    · exact .kept hmem
    · rw [PeerEvent.of_meterSample] at hsend
      rcases Entry.sends hsend with
        ⟨-, ⟨reason, rfl⟩ | ⟨elapsedMs, theirs, ours, rfl⟩⟩ | ⟨amount, ok, time, hevent, -⟩
      · exact .reject received now reason
      · exact .report received now elapsedMs theirs ours
      · exact absurd hevent (by simp)
  | pay token =>
    simp only [Link.step] at hmem
    split_ifs at hmem <;> exact .kept hmem
  | poll =>
    simp only [Link.step] at hmem
    split_ifs at hmem <;> exact .kept hmem
  | serve now =>
    simp only [Link.step] at hmem
    split_ifs at hmem
    · exact .kept hmem
    · cases hframes : link.frames with
      | nil =>
        rw [hframes] at hmem
        exact .kept hmem
      | cons frame rest =>
        rw [hframes] at hmem
        rcases mem_outbox_receive hmem with hmem | rfl | rfl
        · exact .kept hmem
        · exact .announce now
        · exact .priceSheet now
  | verdict answer now =>
    simp only [Link.step] at hmem
    split_ifs at hmem with hwallet
    · rcases mem_outbox_handle rfl hmem with hmem | hsend
      · exact .kept hmem
      · rw [PeerEvent.of_bootstrapVerified] at hsend
        rcases Entry.sends hsend with ⟨hsample, -⟩ | ⟨amount, ok, time, hevent, rfl⟩
        · exact absurd hsample id
        · obtain ⟨-, rfl, -⟩ := PeerEvent.verified.inj hevent
          exact .answer answer now hwallet
    · exact .kept hmem
  | respond token =>
    simp only [Link.step] at hmem
    split_ifs at hmem
    · exact .kept hmem
    · exact .kept (mem_outbox_respond hmem)

/-- The provider's greeting stays. -/
theorem greeting_step (step : LinkStep) :
    (Link.step terms link step).provider.announce = link.provider.announce ∧
      (Link.step terms link step).provider.priceSheet = link.provider.priceSheet := by
  cases step with
  | deliver counter =>
    simp only [Link.step]
    split_ifs <;> exact ⟨rfl, rfl⟩
  | sample received now =>
    simp only [Link.step, provider_sample]
    exact ⟨rfl, rfl⟩
  | pay token =>
    simp only [Link.step]
    split_ifs <;> exact ⟨rfl, rfl⟩
  | poll =>
    simp only [Link.step]
    split_ifs <;> exact ⟨rfl, rfl⟩
  | serve now =>
    simp only [Link.step]
    split_ifs
    · exact ⟨rfl, rfl⟩
    · cases link.frames with
      | nil => exact ⟨rfl, rfl⟩
      | cons frame rest =>
        simp only [serve, Provider.receive]
        cases terms.cbor.peekType (terms.encode frame) with
        | none => exact ⟨rfl, rfl⟩
        | some type =>
          cases type with
          | announce => cases terms.cbor.decodeAnnounce (terms.encode frame) <;> exact ⟨rfl, rfl⟩
          | _ => exact ⟨rfl, rfl⟩
  | verdict answer now =>
    simp only [Link.step]
    split_ifs <;> exact ⟨rfl, rfl⟩
  | respond token =>
    simp only [Link.step]
    split_ifs
    · exact ⟨rfl, rfl⟩
    · unfold respond
      simp only
      cases link.stand with
      | paying =>
        simp only
        split <;> exact ⟨rfl, rfl⟩
      | polling =>
        simp only
        split_ifs <;> exact ⟨rfl, rfl⟩
      | toppingUp cutOff =>
        simp only
        split <;> exact ⟨rfl, rfl⟩
      | _ => exact ⟨rfl, rfl⟩

/-! ### The report in the queue -/

/-- Assumes: a greeting that is not marked as a report. Serving a frame leaves the report in the
queue. -/
theorem findMeteringReport_receive {provider : Provider}
    (hgreeting : terms.cbor.peekType provider.announce ≠ some .meteringReport)
    (hsheet : terms.cbor.peekType provider.priceSheet ≠ some .meteringReport) (frame : Frame)
    (now : Millis) :
    findMeteringReport terms.cbor
        (provider.receive terms.cbor terms.peer (terms.encode frame) now).1.outbox =
      findMeteringReport terms.cbor provider.outbox := by
  unfold Provider.receive
  cases terms.cbor.peekType (terms.encode frame) with
  | none => rfl
  | some type =>
    cases type with
    | announce =>
      simp only
      cases terms.cbor.decodeAnnounce (terms.encode frame) with
      | none => rfl
      | some announce =>
        simp only [Provider.peerConnected, findMeteringReport]
        split_ifs
        · rw [ofType_enqueue_other hgreeting, outbox_connected]
        · rw [ofType_enqueue_other hsheet, ofType_enqueue_other hgreeting, outbox_connected]
    | _ =>
      simp only
      rw [outbox_message]

/-- Assumes: answers that are not marked as reports. The verdict on a token leaves the report in the
queue. -/
theorem findMeteringReport_verdict (provider : Provider) (amount : UInt64) (ok : Bool)
    (hanswer : terms.cbor.peekType (terms.cbor.encodeBootstrapAck
      (if ok then BootstrapAck.accepted
        else BootstrapAck.rejected "token verification failed")) ≠ some .meteringReport)
    (now : Millis) :
    findMeteringReport terms.cbor (provider.handle terms.cbor terms.peer
        (.bootstrapVerified terms.peer amount ok) now).1.outbox =
      findMeteringReport terms.cbor provider.outbox := by
  have hother : ∀ message ∈ (provider.handle terms.cbor terms.peer
      (.bootstrapVerified terms.peer amount ok) now).2.filterMap (Action.sentTo terms.peer),
      terms.cbor.peekType message ≠ some .meteringReport := by
    intro message hmessage
    obtain ⟨action, haction, hsent⟩ := List.mem_filterMap.mp hmessage
    cases action with
    | send other bytes =>
      simp only [Action.sentTo] at hsent
      split_ifs at hsent
      obtain rfl := Option.some.inj hsent
      replace haction : .send other bytes ∈ (provider.session.handle terms.cbor
        (.bootstrapVerified terms.peer amount ok) now).2 := haction
      rw [(provider.session.handle_self terms.cbor terms.peer now rfl).2,
        PeerEvent.of_bootstrapVerified] at haction
      rcases Entry.sends haction with ⟨hsample, -⟩ | ⟨credit, accepted, time, hevent, rfl⟩
      · exact absurd hsample id
      · obtain ⟨-, rfl, -⟩ := PeerEvent.verified.inj hevent
        exact hanswer
    | _ => exact absurd hsent (by simp [Action.sentTo])
  exact congrArg (List.findSome? terms.cbor.decodeMeteringReport) (ofType_foldl_other hother _)

/-- Assumes: a sample that is charged. The consumer finds its report, whatever was queued before. -/
theorem findMeteringReport_charged (hlawful : terms.cbor.Lawful) {entry : PeerSession}
    (hentry : link.entry terms = some entry) (hactive : entry.phase = .active)
    (hread : entry.lastCounters.isSome = true) (received : UInt64) (now : Millis) :
    findMeteringReport terms.cbor (link.sample terms received now).provider.outbox =
      some (entry.usageReport ⟨link.counter, received⟩ now) := by
  rw [outbox_sample, sampled_eq, hentry, Entry.step_sample_charge _ _ _ _ hactive hread]
  refine findMeteringReport_execute hlawful _ _ _ _ _ ?_
  intro bytes hsend
  split_ifs at hsend
  · simp at hsend
    exact ⟨_, hsend⟩
  · simp at hsend
  · exact absurd hsend List.not_mem_nil

/-- Assumes: a sample that is not charged. It queues nothing and sends no report. -/
theorem sample_uncharged
    (hcharged : ¬ ∃ entry, link.entry terms = some entry ∧ entry.phase = .active ∧
      entry.lastCounters.isSome = true) (received : UInt64) (now : Millis) :
    (link.sample terms received now).provider.outbox = link.provider.outbox ∧
      (link.sample terms received now).emitted = link.emitted := by
  have hsilent : link.sampled terms received now = [] := by
    rw [sampled_eq]
    cases hentry : link.entry terms with
    | none => rfl
    | some entry =>
      by_cases hactive : entry.phase = .active
      · have hnone : entry.lastCounters = none := by
          by_contra hsome
          exact hcharged ⟨entry, hentry, hactive, Option.isSome_iff_ne_none.mpr hsome⟩
        rw [Entry.step_sample_baseline _ _ _ _ hactive hnone]
      · rw [Entry.step_sample_inactive _ _ _ _ hactive]
  constructor
  · rw [outbox_sample, hsilent]
    rfl
  · unfold Link.sample
    simp only
    cases hentry : link.entry terms with
    | none => rfl
    | some entry =>
      simp only
      split_ifs with hactive hread
      · exact absurd ⟨entry, hentry, hactive, hread⟩ hcharged
      · rfl
      · rfl

/-- The response empties the queue, or there is none. -/
theorem outbox_respond (terms : Terms) (link : Link) (token : Bytes) :
    (link.respond terms token).provider.outbox = [] ∨ link.respond terms token = link := by
  unfold Link.respond
  simp only
  cases link.stand with
  | paying =>
    simp only
    split <;> exact Or.inl rfl
  | polling =>
    simp only
    split_ifs <;> exact Or.inl rfl
  | toppingUp cutOff =>
    simp only
    split <;> exact Or.inl rfl
  | _ => exact Or.inr rfl

end Link

end Tollgate
