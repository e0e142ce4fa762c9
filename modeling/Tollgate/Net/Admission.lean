import Tollgate.Net.Conformance

/-!
# Admissions with a token

`v1_compat/adapter.rs`: a payer of the older protocol hands a token in and waits for the verdict.
The call announces the peer, passes the token on, and looks for the first acknowledgement in all
that is queued for the peer. The wallet answers in between, the actions that follow the answer are
carried out one after the other, and calls for one peer share its queue.

`admission_tells_own_verdict` says when that is enough: an acknowledgement is on the queue for one
call at a time, and the reaper leaves the peers of calls alone.
-/

set_option autoImplicit false
set_option relaxedAutoImplicit false

namespace Tollgate

open Std

/-! ### Calls -/

/-- How far a call has come. At last it has actions to carry out and the queue to empty; it knows by
then whether its token was verified and whether the amount was credited. -/
inductive AdmissionStage
  | connected
  | verifying
  | answering (verified credited : Bool) (follow : List Action)
  deriving DecidableEq

/-- A call in flight: the peer and the token it was made for, a string in memory. -/
structure Admission where
  peer : PeerId
  token : String
  fits : textFits token
  stage : AdmissionStage
  deriving DecidableEq

namespace Admission

/-- The token is with the wallet. -/
def isVerifying (admission : Admission) : Bool :=
  match admission.stage with
  | .verifying => true
  | .connected | .answering _ _ _ => false

/-- Only the answer is to be fetched. -/
def isAnswering (admission : Admission) : Bool :=
  match admission.stage with
  | .answering _ _ _ => true
  | .connected | .verifying => false

end Admission

/-- What a call returned, with what became of its token. -/
structure AdmissionResult where
  call : ℕ
  accepted : Bool
  verified : Bool
  credited : Bool
  deriving DecidableEq, Repr

/-- The payer was told what became of its own token: it is told that it was accepted exactly if it
was verified and credited, and a token that was taken is not called refused. -/
structure AdmissionResult.OwnVerdict (result : AdmissionResult) : Prop where
  accepted_iff : result.accepted = true ↔ result.verified = true ∧ result.credited = true
  taken : result.verified = true → result.accepted = true

/-- The first acknowledgement that can be read. -/
def firstAck (cbor : Minicbor) (outbox : List Bytes) : Option BootstrapAck :=
  (ofType cbor outbox .bootstrapAck).findSome? cbor.decodeBootstrapAck

/-- What else goes on: samples of the meter, and the sweeps of the reaper. -/
inductive Background
  | meter (peer : PeerId) (counters : Counters) (now : Millis)
  | sweep (nowMs idleMs : UInt64)
  | look
  | tearDown (now : Millis)

def Background.step : Background → HostStep
  | .meter peer counters now => .meter peer counters now
  | .sweep nowMs idleMs => .sweep nowMs idleMs
  | .look => .look
  | .tearDown now => .tearDown now

/-- A step of one call, with what it hears from outside, or of the background. -/
inductive AdmissionStep
  | connect (call : ℕ) (peer : PeerId) (ip : Option IpAddr) (token : String)
      (fits : textFits token) (seenAt now : Millis)
  | present (call : ℕ) (seenAt now : Millis)
  | verdict (call : ℕ) (answer : Option UInt64) (now : Millis)
  | proceed (call : ℕ)
  | drain (call : ℕ)
  | background (step : Background)

/-- The driver with the calls on it. -/
structure Admissions where
  host : Host
  calls : ExtTreeMap ℕ Admission

namespace Admissions

variable (cbor : Minicbor) (admissions : Admissions)

/-- The driver goes on, and a call with it. -/
def advance (driver : Driver) (call : ℕ) (admission : Admission) : Admissions :=
  ⟨{ admissions.host with driver := driver }, admissions.calls.insert call admission⟩

/-- One step. A step that its call is not ready for does nothing. -/
def step : AdmissionStep → Admissions × List AdmissionResult
  | .connect call peer ip token fits seenAt now =>
    match admissions.calls[call]? with
    | none =>
      (admissions.advance (admissions.host.driver.peerConnected cbor peer ip seenAt now) call
        ⟨peer, token, fits, .connected⟩, [])
    | some _ => (admissions, [])
  | .present call seenAt now =>
    match admissions.calls[call]? with
    | some ⟨peer, token, fits, .connected⟩ =>
      let message := cbor.encodeBootstrapToken (BootstrapToken.new (asBytes token))
      let handled := (admissions.host.driver.touch peer seenAt).handle cbor
        (.messageReceived peer message) now
      (admissions.advance handled.1 call ⟨peer, token, fits,
        match handled.2 with
        | [.verifyBootstrapToken _ _] => .verifying
        | follow => .answering false false follow⟩, [])
    | _ => (admissions, [])
  | .verdict call answer now =>
    match admissions.calls[call]? with
    | some ⟨peer, token, fits, .verifying⟩ =>
      let driver := admissions.host.driver
      let verdict := Driver.verifyToken answer
      let handled := driver.handle cbor (.bootstrapVerified peer verdict.2 verdict.1) now
      (admissions.advance handled.1 call ⟨peer, token, fits, .answering answer.isSome
        (answer.isSome && (driver.session.peers[peer]?).isSome) handled.2⟩, [])
    | _ => (admissions, [])
  | .proceed call =>
    match admissions.calls[call]? with
    | some ⟨peer, token, fits, .answering verified credited (action :: follow)⟩ =>
      (admissions.advance (admissions.host.driver.execute cbor action) call
        ⟨peer, token, fits, .answering verified credited follow⟩, [])
    | _ => (admissions, [])
  | .drain call =>
    match admissions.calls[call]? with
    | some ⟨peer, _, _, .answering verified credited []⟩ =>
      let drained := admissions.host.driver.drainOutbox peer
      let accepted := ((firstAck cbor drained.2).map BootstrapAck.isAccepted).getD false
      (⟨{ admissions.host with driver := drained.1 }, admissions.calls.erase call⟩,
        [⟨call, accepted, verified, credited⟩])
    | _ => (admissions, [])
  | .background step => ({ admissions with host := Host.step cbor admissions.host step.step }, [])

/-- The calls on a driver as a machine over their steps; what it emits is what they return. -/
def machine : Transducer Admissions AdmissionStep AdmissionResult where
  step := Admissions.step cbor

/-- A call other than the given one is about to fetch an answer from the queue of the peer. -/
def OtherAnswering (call : ℕ) (peer : PeerId) : Prop :=
  ∃ entry ∈ admissions.calls.toList, entry.1 ≠ call ∧ entry.2.peer = peer ∧
    entry.2.isAnswering = true

instance decidableOtherAnswering (call : ℕ) (peer : PeerId) :
    Decidable (admissions.OtherAnswering call peer) :=
  inferInstanceAs (Decidable (∃ _ ∈ _, _))

/-- A call has its answer, or finds that its peer is unknown by now, while another call for the peer
has not yet fetched its own answer; or the reaper tears down a peer whose token is with the wallet
or whose answer is waiting. -/
def Disturbs : AdmissionStep → Prop
  | .verdict call _ _ =>
    ∃ admission ∈ admissions.calls[call]?, admissions.OtherAnswering call admission.peer
  | .present call _ _ =>
    ∃ admission ∈ admissions.calls[call]?,
      admissions.host.driver.session.peers[admission.peer]? = none ∧
        admissions.OtherAnswering call admission.peer
  | .background (.tearDown _) =>
    ∃ peer ∈ admissions.host.condemned, ∃ entry ∈ admissions.calls.toList,
      entry.2.peer = peer ∧ (entry.2.isVerifying || entry.2.isAnswering) = true
  | _ => False

end Admissions

/-! ### Acknowledgements on the queue -/

namespace Driver

variable (cbor : Minicbor) (driver : Driver)

/-- The acknowledgements that are queued for a peer. -/
def acks (peer : PeerId) : List Bytes :=
  ofType cbor (driver.outbox[peer]?.getD []) .bootstrapAck

/-- The session has an entry for the peer. -/
def tracks (peer : PeerId) : Prop :=
  (driver.session.peers[peer]?).isSome = true

/-- Neither of the bodies that the driver greets with is an acknowledgement. -/
def Greets : Prop :=
  cbor.peekType driver.announce ≠ some .bootstrapAck ∧
    cbor.peekType driver.priceSheet ≠ some .bootstrapAck

end Driver

namespace Driver.Greets

variable {cbor : Minicbor} {driver : Driver} (hgreets : driver.Greets cbor)

include hgreets

/-- Carrying actions out changes nothing about the greeting. -/
theorem executeAll (actions : List Action) : (driver.executeAll cbor actions).Greets cbor := by
  unfold Driver.executeAll
  induction actions generalizing driver with
  | nil => exact hgreets
  | cons action rest ih =>
    refine ih ?_
    cases action with
    | setAccess peer level =>
      simp only [Driver.execute]
      cases driver.peerIp[peer]? with
      | none => exact hgreets
      | some ip =>
        simp only
        split_ifs <;> exact hgreets
    | _ => exact hgreets

theorem feed (event : Event) (now : Millis) : (driver.feed cbor event now).Greets cbor :=
  @executeAll cbor (driver.handle cbor event now).1 hgreets _

theorem peerConnected (peer : PeerId) (ip : Option IpAddr) (seenAt now : Millis) :
    (driver.peerConnected cbor peer ip seenAt now).Greets cbor := by
  have hlocated : ((driver.locate peer ip).touch peer seenAt).Greets cbor := by
    cases ip <;> exact hgreets
  unfold Driver.peerConnected
  split_ifs <;> exact hlocated.feed (.peerConnected peer) now

end Driver.Greets

theorem ofType_append (cbor : Minicbor) (first second : List Bytes) (type : MessageType) :
    ofType cbor (first ++ second) type = ofType cbor first type ++ ofType cbor second type :=
  List.filter_append ..

theorem ofType_eq_nil {cbor : Minicbor} {messages : List Bytes} {type : MessageType}
    (hother : ∀ message ∈ messages, cbor.peekType message ≠ some type) :
    ofType cbor messages type = [] := by
  rw [ofType, List.filter_eq_nil_iff]
  intro message hmessage
  simpa using hother message hmessage

/-- Queueing keeps acknowledgements and adds the new body if it is one. -/
theorem ofType_enqueue (cbor : Minicbor) (queue : List Bytes) (message : Bytes) :
    ofType cbor (enqueue cbor queue message) .bootstrapAck =
      ofType cbor queue .bootstrapAck ++ ofType cbor [message] .bootstrapAck := by
  rw [enqueue, ofType_append]
  split_ifs
  · congr 1
    rw [ofType, ofType, List.filter_filter]
    refine List.filter_congr fun queued _ ↦ ?_
    by_cases hack : cbor.peekType queued = some .bootstrapAck <;> simp [hack]
  · rfl

namespace Driver

variable {cbor : Minicbor} {driver : Driver}

theorem acks_enqueue (peer other : PeerId) (message : Bytes) :
    (driver.enqueue cbor peer message).acks cbor other =
      driver.acks cbor other ++
        if peer = other then ofType cbor [message] .bootstrapAck else [] := by
  by_cases hsame : peer = other
  · rw [if_pos hsame, ← hsame, acks, enqueue, ExtTreeMap.getElem?_insert_self, Option.getD_some,
      ofType_enqueue]
    rfl
  · rw [if_neg hsame, List.append_nil]
    simp [acks, enqueue, ExtTreeMap.getElem?_insert, hsame]

/-- An action adds what it sends. -/
theorem acks_execute (action : Action) (peer : PeerId) :
    (driver.execute cbor action).acks cbor peer =
      driver.acks cbor peer ++ ofType cbor (action.sentTo peer).toList .bootstrapAck := by
  cases action with
  | send other bytes =>
    rw [execute, acks_enqueue, Action.sentTo]
    split_ifs <;> rfl
  | setAccess other level =>
    have hqueue : (driver.execute cbor (.setAccess other level)).outbox = driver.outbox := by
      simp only [execute]
      cases driver.peerIp[other]? with
      | none => rfl
      | some ip =>
        simp only
        split_ifs <;> rfl
    rw [acks, hqueue]
    exact (List.append_nil _).symm
  | _ => exact (List.append_nil _).symm

theorem acks_executeAll (actions : List Action) (peer : PeerId) :
    (driver.executeAll cbor actions).acks cbor peer =
      driver.acks cbor peer ++ ofType cbor (actions.filterMap (Action.sentTo peer))
        .bootstrapAck := by
  unfold executeAll
  induction actions generalizing driver with
  | nil => exact (List.append_nil _).symm
  | cons action rest ih =>
    rw [List.foldl_cons, ih, acks_execute, List.append_assoc, ← ofType_append]
    cases hsent : action.sentTo peer <;> simp [hsent]

section Effects

variable (hlawful : cbor.Lawful)

include hlawful

/-- Only a verdict makes the session send an acknowledgement. -/
theorem sent_not_ack {event : Event} {now : Millis} {peer : PeerId}
    (hevent : ∀ about amount ok, event ≠ .bootstrapVerified about amount ok) :
    ofType cbor ((driver.session.handle cbor event now).2.filterMap (Action.sentTo peer))
      .bootstrapAck = [] := by
  refine ofType_eq_nil fun message hmessage ↦ ?_
  obtain ⟨action, haction, hsent⟩ := List.mem_filterMap.mp hmessage
  cases action with
  | send other bytes =>
    simp only [Action.sentTo] at hsent
    split_ifs at hsent
    obtain rfl := Option.some.inj hsent
    cases hpeer : event.peer with
    | none =>
      cases event with
      | tick => exact absurd haction List.not_mem_nil
      | _ => exact absurd hpeer (by simp [Event.peer])
    | some about =>
      rw [(driver.session.handle_self cbor about now hpeer).2] at haction
      rcases Entry.sends haction with ⟨-, ⟨reason, rfl⟩ | ⟨elapsedMs, delivered, received, rfl⟩⟩ |
        ⟨amount, ok, time, hverified, -⟩
      · rw [hlawful.peekType_reject]
        decide
      · rw [hlawful.peekType_meteringReport]
        decide
      · cases event with
        | bootstrapVerified other amount' ok' => exact absurd rfl (hevent other amount' ok')
        | messageReceived other bytes =>
          obtain rfl : other = about := Option.some.inj hpeer
          rw [PeerEvent.of_messageReceived] at hverified
          exact absurd hverified ((PeerEvent.ofMessage_ne cbor bytes).2.1 amount ok time)
        | _ => simp [PeerEvent.of, hpeer] at hverified
  | _ => exact absurd hsent (by simp [Action.sentTo])

/-- Feeding anything but a verdict leaves the acknowledgements as they are. -/
theorem acks_feed {event : Event} (now : Millis) (peer : PeerId)
    (hevent : ∀ about amount ok, event ≠ .bootstrapVerified about amount ok) :
    (driver.feed cbor event now).acks cbor peer = driver.acks cbor peer := by
  rw [feed, acks_executeAll]
  exact (congrArg _ (sent_not_ack hlawful hevent)).trans (List.append_nil _)

theorem acks_peerConnected (hgreets : driver.Greets cbor) (peer other : PeerId)
    (ip : Option IpAddr) (seenAt now : Millis) :
    (driver.peerConnected cbor peer ip seenAt now).acks cbor other = driver.acks cbor other := by
  have hannounce : ofType cbor [driver.announce] .bootstrapAck = [] :=
    ofType_eq_nil (by simpa using hgreets.1)
  have hsheet : ofType cbor [driver.priceSheet] .bootstrapAck = [] :=
    ofType_eq_nil (by simpa using hgreets.2)
  have hconnected : (((driver.locate peer ip).touch peer seenAt).feed cbor (.peerConnected peer)
      now).acks cbor other = driver.acks cbor other := by
    rw [acks_feed hlawful now other (by simp)]
    cases ip <;> rfl
  unfold peerConnected
  split_ifs
  · rw [acks_enqueue, hannounce, hconnected, ite_self, List.append_nil]
  · rw [acks_enqueue, acks_enqueue, hannounce, hsheet, hconnected, ite_self, List.append_nil,
      List.append_nil]

theorem acks_peerDisconnected (peer other : PeerId) (now : Millis) :
    (driver.peerDisconnected cbor peer now).acks cbor other =
      if peer = other then [] else driver.acks cbor other := by
  have hfed : (driver.feed cbor (.peerDisconnected peer) now).acks cbor other =
      driver.acks cbor other := acks_feed hlawful now other (by simp)
  by_cases hsame : peer = other
  · simp [peerDisconnected, forget, acks, ofType, hsame]
  · rw [if_neg hsame, ← hfed]
    simp [peerDisconnected, forget, acks, ExtTreeMap.getElem?_erase, hsame]

end Effects

/-! ### Tracked peers -/

theorem tracks_feed {event : Event} (now : Millis) (peer : PeerId) :
    (driver.feed cbor event now).tracks peer ↔
      ((driver.session.handle cbor event now).1.peers[peer]?).isSome = true := by
  rw [tracks, session_feed]

/-- A sample, a token and a verdict neither add an entry nor take one away. -/
theorem isSome_getMut (session : Session) (peer other : PeerId)
    (update : PeerSession → PeerSession × List Action) :
    ((session.getMut peer update).1.peers[other]?).isSome = (session.peers[other]?).isSome := by
  by_cases hsame : peer = other
  · rw [← hsame, session.getElem?_getMut_self]
    cases session.peers[peer]? <;> rfl
  · rw [session.getElem?_getMut_of_ne other peer hsame]

theorem tracks_peerConnected (peer other : PeerId) (ip : Option IpAddr) (seenAt now : Millis) :
    (driver.peerConnected cbor peer ip seenAt now).tracks other ↔
      driver.tracks other ∨ peer = other := by
  have hsession : (driver.peerConnected cbor peer ip seenAt now).session =
      (driver.session.handle cbor (.peerConnected peer) now).1 := by
    have hfed : (((driver.locate peer ip).touch peer seenAt).feed cbor (.peerConnected peer)
        now).session = (driver.session.handle cbor (.peerConnected peer) now).1 := by
      rw [session_feed]
      cases ip <;> rfl
    unfold peerConnected
    split_ifs <;> exact hfed
  rw [tracks, hsession, tracks]
  simp only [Session.handle]
  cases hentry : driver.session.peers[peer]? with
  | none =>
    simp only [ExtTreeMap.getElem?_insert]
    by_cases hsame : peer = other <;> simp [hsame]
  | some entry =>
    by_cases hsame : peer = other
    · simp [← hsame, hentry]
    · simp [hsame]

theorem tracks_peerDisconnected (peer other : PeerId) (now : Millis) :
    (driver.peerDisconnected cbor peer now).tracks other ↔ driver.tracks other ∧ peer ≠ other := by
  have hsession : (driver.peerDisconnected cbor peer now).session =
      (driver.session.remove peer).1 :=
    session_feed
  rw [tracks, hsession, tracks]
  simp only [Session.remove, ExtTreeMap.getElem?_erase]
  by_cases hsame : peer = other <;> simp [hsame]

end Driver

/-! ### Answers -/

/-- The acknowledgement of a verdict. -/
def ackOf (cbor : Minicbor) (ok : Bool) : Bytes :=
  cbor.encodeBootstrapAck
    (if ok then BootstrapAck.accepted else BootstrapAck.rejected "token verification failed")

section Answers

variable {cbor : Minicbor} (hderives : cbor.Derives)

include hderives

theorem ackOf_reads (ok : Bool) :
    cbor.peekType (ackOf cbor ok) = some .bootstrapAck ∧
      (cbor.decodeBootstrapAck (ackOf cbor ok)).map BootstrapAck.isAccepted = some ok := by
  set ack := if ok then BootstrapAck.accepted
    else BootstrapAck.rejected "token verification failed" with hack
  have hfits : Message.Fits (.bootstrapAck ack) := by
    intro text htext
    cases ok
    · rw [← Option.some.inj htext]
      decide +kernel
    · exact absurd htext (Option.not_mem_none text)
  have htagged : Message.Tagged (.bootstrapAck ack) := by
    cases ok <;> rfl
  refine ⟨Message.peekType_encode hderives htagged hfits, ?_⟩
  have hdecode := (Message.decodeAs_encode hderives hfits).1
  simp only [Message.decodeAs, Message.type, Message.encode, Option.map_eq_some_iff,
    Message.bootstrapAck.injEq, exists_eq_right] at hdecode
  rw [ackOf, hdecode]
  cases ok <;> rfl

/-- The scan finds the only acknowledgement there is. -/
theorem firstAck_of_only {outbox : List Bytes} {ok : Bool}
    (honly : ofType cbor outbox .bootstrapAck = [ackOf cbor ok]) :
    ((firstAck cbor outbox).map BootstrapAck.isAccepted).getD false = ok := by
  obtain ⟨ack, hdecode, haccepted⟩ := Option.map_eq_some_iff.mp (ackOf_reads hderives ok).2
  rw [firstAck, honly, List.findSome?_cons, hdecode]
  exact haccepted

theorem token_reads {token : String} (hfits : textFits token) :
    cbor.peekType (cbor.encodeBootstrapToken (BootstrapToken.new (asBytes token))) =
        some .bootstrapToken ∧
      cbor.decodeBootstrapToken (cbor.encodeBootstrapToken (BootstrapToken.new (asBytes token))) =
        some (BootstrapToken.new (asBytes token)) := by
  have hmessage : Message.Fits (.bootstrapToken (BootstrapToken.new (asBytes token))) := hfits
  have htagged : Message.Tagged (.bootstrapToken (BootstrapToken.new (asBytes token))) := rfl
  refine ⟨Message.peekType_encode hderives htagged hmessage, ?_⟩
  have hdecode := (Message.decodeAs_encode hderives hmessage).1
  simpa only [Message.decodeAs, Message.type, Message.encode, Option.map_eq_some_iff,
    Message.bootstrapToken.injEq, exists_eq_right] using hdecode

/-- A token is passed on to the wallet if its peer is tracked, and dropped otherwise. -/
theorem handle_token {session : Session} {token : String} (hfits : textFits token) (peer : PeerId)
    (now : Millis) :
    (session.handle cbor (.messageReceived peer (cbor.encodeBootstrapToken
        (BootstrapToken.new (asBytes token)))) now).2 =
      if (session.peers[peer]?).isSome then [.verifyBootstrapToken peer (asBytes token)]
      else [] := by
  obtain ⟨hpeek, hdecode⟩ := token_reads hderives hfits
  simp only [Session.handle, Session.messageReceived, hpeek, hdecode, Session.getMut_actions]
  cases session.peers[peer]? <;> rfl

theorem ofType_singleton_ackOf (ok : Bool) :
    ofType cbor [ackOf cbor ok] .bootstrapAck = [ackOf cbor ok] := by
  simp [ofType, (ackOf_reads hderives ok).1]

theorem Driver.isSome_handle_token {session : Session} {token : String} (hfits : textFits token)
    (peer other : PeerId) (now : Millis) :
    ((session.handle cbor (.messageReceived peer (cbor.encodeBootstrapToken
        (BootstrapToken.new (asBytes token)))) now).1.peers[other]?).isSome =
      (session.peers[other]?).isSome := by
  obtain ⟨hpeek, hdecode⟩ := token_reads hderives hfits
  simp only [Session.handle, Session.messageReceived, hpeek, hdecode]
  exact Driver.isSome_getMut session peer other _

end Answers

/-- A verdict is acknowledged to its peer, if it is tracked, and to nobody else. -/
theorem handle_verdict_sends {cbor : Minicbor} {session : Session} (peer other : PeerId)
    (amount : UInt64) (ok : Bool) (now : Millis) :
    (session.handle cbor (.bootstrapVerified peer amount ok) now).2.filterMap
        (Action.sentTo other) =
      if (session.peers[peer]?).isSome = true ∧ peer = other then [ackOf cbor ok] else [] := by
  simp only [Session.handle, Session.getMut_actions]
  cases session.peers[peer]? with
  | none => simp
  | some entry =>
    by_cases hsame : peer = other <;> cases ok <;>
      simp [PeerSession.bootstrapVerified, Action.sentTo, ackOf, hsame]

/-! ### One acknowledgement at a time -/

namespace Admissions

variable {cbor : Minicbor} {admissions : Admissions}

/-- A call that counts its token as credited has its amount in the peer's balance. -/
theorem verdict_credits {call : ℕ} {peer : PeerId} {token : String} {fits : textFits token}
    (hcall : admissions.calls[call]? = some ⟨peer, token, fits, .verifying⟩) {entry : PeerSession}
    (hentry : admissions.host.driver.session.peers[peer]? = some entry) (amount : UInt64)
    (now : Millis) :
    ((admissions.step cbor
      (.verdict call (some amount) now)).1.host.driver.session.peers[peer]?).map
      PeerSession.balance = some (entry.balance.saturatingAdd amount) := by
  simp only [Admissions.step, hcall, Admissions.advance, Driver.handle, Driver.verifyToken,
    Session.handle, Session.getElem?_getMut_self, hentry, Entry.getMut_some,
    PeerSession.bootstrapVerified, if_true, Option.map_some]
  split_ifs <;> rfl

/-- The acknowledgements a call finds on the queue once it is through with its actions. -/
def due (cbor : Minicbor) (driver : Driver) (peer : PeerId) (follow : List Action) : List Bytes :=
  driver.acks cbor peer ++
    ofType cbor (follow.filterMap (Action.sentTo peer)) .bootstrapAck

/-- A token at the wallet is of a tracked peer; at most one call for a peer has an answer to fetch;
without one there is no acknowledgement on the queue, and with one it is that call's own. -/
structure Orderly (cbor : Minicbor) (admissions : Admissions) : Prop where
  greets : admissions.host.driver.Greets cbor
  tracked : ∀ (call : ℕ) admission, admissions.calls[call]? = some admission →
    admission.isVerifying = true → admissions.host.driver.tracks admission.peer
  alone : ∀ (call other : ℕ) admission another, admissions.calls[call]? = some admission →
    admissions.calls[other]? = some another → admission.isAnswering = true →
    another.isAnswering = true → admission.peer = another.peer → call = other
  quiet : ∀ peer, (∀ (call : ℕ) admission, admissions.calls[call]? = some admission →
    admission.peer = peer → admission.isAnswering = false) →
      admissions.host.driver.acks cbor peer = []
  owed : ∀ (call : ℕ) peer token fits verified credited follow,
    admissions.calls[call]? = some ⟨peer, token, fits, .answering verified credited follow⟩ →
      credited = verified ∧
        (∀ other, peer ≠ other →
          ofType cbor (follow.filterMap (Action.sentTo other)) .bootstrapAck = []) ∧
        (due cbor admissions.host.driver peer follow = [ackOf cbor verified] ∨
          due cbor admissions.host.driver peer follow = [] ∧ verified = false)

theorem notOtherAnswering_iff {call : ℕ} {peer : PeerId} :
    ¬ admissions.OtherAnswering call peer ↔ ∀ (other : ℕ) another, call ≠ other →
      admissions.calls[other]? = some another → another.peer = peer →
        another.isAnswering = false := by
  constructor
  · intro hnone other another hother hanother hpeer
    by_contra hanswering
    refine hnone ⟨(other, another), ?_, hother.symm, hpeer, by simpa using hanswering⟩
    exact ExtTreeMap.mem_toList_iff_getElem?_eq_some.mpr hanother
  · rintro hall ⟨entry, hentry, hother, hpeer, hanswering⟩
    have hnot := hall entry.1 entry.2 hother.symm
      (ExtTreeMap.mem_toList_iff_getElem?_eq_some.mp hentry) hpeer
    exact absurd (hanswering.symm.trans hnot) (by decide)

namespace Orderly

variable (horderly : Orderly cbor admissions)

include horderly

/-- Assumes: no tracked peer is lost and no other peer's acknowledgements change. A call goes on: as
one without an answer yet, which changes no acknowledgement, or as the only one for its peer that
has an answer, with its own acknowledgement due. -/
theorem advance {driver : Driver} {call : ℕ} {admission : Admission}
    (hgreets : driver.Greets cbor)
    (htracked : ∀ peer, admissions.host.driver.tracks peer → driver.tracks peer)
    (hacks : ∀ peer, admission.peer ≠ peer →
      driver.acks cbor peer = admissions.host.driver.acks cbor peer)
    (hcall : ∀ before, admissions.calls[call]? = some before → before.peer = admission.peer)
    (hverifying : admission.isVerifying = true → driver.tracks admission.peer)
    (hwaiting : admission.isAnswering = false →
      driver.acks cbor admission.peer = admissions.host.driver.acks cbor admission.peer ∧
        ∀ before, admissions.calls[call]? = some before → before.isAnswering = false)
    (halone : admission.isAnswering = true → ∀ (other : ℕ) another, call ≠ other →
      admissions.calls[other]? = some another → another.peer = admission.peer →
        another.isAnswering = false)
    (howed : ∀ verified credited follow, admission.stage = .answering verified credited follow →
      credited = verified ∧
        (∀ other, admission.peer ≠ other →
          ofType cbor (follow.filterMap (Action.sentTo other)) .bootstrapAck = []) ∧
        (due cbor driver admission.peer follow = [ackOf cbor verified] ∨
          due cbor driver admission.peer follow = [] ∧ verified = false)) :
    Orderly cbor (admissions.advance driver call admission) := by
  have hlookup (other : ℕ) : (admissions.advance driver call admission).calls[other]? =
      if call = other then some admission else admissions.calls[other]? := by
    rw [Admissions.advance, ExtTreeMap.getElem?_insert]
    by_cases hsame : call = other <;> simp [hsame]
  refine ⟨hgreets, ?_, ?_, ?_, ?_⟩
  · intro other another hanother hwallet
    rw [hlookup] at hanother
    split_ifs at hanother with hsame
    · obtain rfl := Option.some.inj hanother
      exact hverifying hwallet
    · exact htracked _ (horderly.tracked other another hanother hwallet)
  · intro first second one another hone hanother hanswering hanswering' hpeer
    rw [hlookup] at hone hanother
    split_ifs at hone hanother with hfirst hsecond hsecond
    · exact hfirst.symm.trans hsecond
    · obtain rfl := Option.some.inj hone
      rw [halone hanswering second another hsecond hanother hpeer.symm] at hanswering'
      exact absurd hanswering' Bool.false_ne_true
    · obtain rfl := Option.some.inj hanother
      rw [halone hanswering' first one hfirst hone hpeer] at hanswering
      exact absurd hanswering Bool.false_ne_true
    · exact horderly.alone first second one another hone hanother hanswering hanswering' hpeer
  · intro peer hnone
    by_cases hpeer : admission.peer = peer
    · have hown := hnone call admission (by rw [hlookup, if_pos rfl]) hpeer
      obtain ⟨hsame, hbefore⟩ := hwaiting hown
      rw [← hpeer]
      refine hsame.trans (horderly.quiet _ fun other another hanother hpeer' ↦ ?_)
      by_cases hother : call = other
      · exact hbefore another (by rw [hother]; exact hanother)
      · exact hnone other another (by rw [hlookup, if_neg hother]; exact hanother)
          (hpeer'.trans hpeer)
    · refine (hacks peer hpeer).trans (horderly.quiet peer fun other another hanother hpeer' ↦ ?_)
      have hother : call ≠ other := by
        rintro rfl
        exact hpeer ((hcall another hanother).symm.trans hpeer')
      exact hnone other another (by rw [hlookup, if_neg hother]; exact hanother) hpeer'
  · intro other peer token fits verified credited follow hanother
    rw [hlookup] at hanother
    split_ifs at hanother with hother
    · obtain rfl := Option.some.inj hanother
      exact howed verified credited follow rfl
    · obtain ⟨hcredited, hsends, hdue⟩ :=
        horderly.owed other peer token fits verified credited follow hanother
      refine ⟨hcredited, hsends, ?_⟩
      have hsame : driver.acks cbor peer = admissions.host.driver.acks cbor peer := by
        by_cases hpeer : admission.peer = peer
        · cases hanswering : admission.isAnswering with
          | false => exact hpeer ▸ (hwaiting hanswering).1
          | true =>
            have hnot := halone hanswering other _ hother hanother hpeer.symm
            exact absurd hnot (by simp [Admission.isAnswering])
        · exact hacks peer hpeer
      have hkept : due cbor driver peer follow = due cbor admissions.host.driver peer follow := by
        rw [due, due, hsame]
      rw [← hkept] at hdue
      exact hdue

/-- A new call greets its peer. -/
theorem connect (hlawful : cbor.Lawful) {call : ℕ} (hcall : admissions.calls[call]? = none)
    (peer : PeerId) (ip : Option IpAddr) (token : String) (fits : textFits token)
    (seenAt now : Millis) :
    Orderly cbor (admissions.advance
      (admissions.host.driver.peerConnected cbor peer ip seenAt now) call
        ⟨peer, token, fits, .connected⟩) := by
  refine horderly.advance ?_ ?_ ?_ ?_ ?_ ?_ ?_ ?_
  · exact horderly.greets.peerConnected peer ip seenAt now
  · exact fun other hother ↦ (Driver.tracks_peerConnected ..).mpr (.inl hother)
  · exact fun other _ ↦ Driver.acks_peerConnected hlawful horderly.greets peer other ip seenAt now
  · exact fun before hbefore ↦ absurd (hcall.symm.trans hbefore) (by simp)
  · exact fun hverifying ↦ absurd hverifying (by simp [Admission.isVerifying])
  · refine fun _ ↦ ⟨?_, fun before hbefore ↦ absurd (hcall.symm.trans hbefore) (by simp)⟩
    exact Driver.acks_peerConnected hlawful horderly.greets peer peer ip seenAt now
  · exact fun hanswering ↦ absurd hanswering (by simp [Admission.isAnswering])
  · exact fun verified credited follow hstage ↦ absurd hstage (by simp)

/-- A call passes its token on. A call whose peer is unknown by now has nothing to wait for. -/
theorem present (hderives : cbor.Derives) {call : ℕ} {peer : PeerId} {token : String}
    {fits : textFits token}
    (hcall : admissions.calls[call]? = some ⟨peer, token, fits, .connected⟩) (seenAt now : Millis)
    (hundisturbed : admissions.host.driver.session.peers[peer]? = none →
      ¬ admissions.OtherAnswering call peer) :
    Orderly cbor (admissions.step cbor (.present call seenAt now)).1 := by
  set message := cbor.encodeBootstrapToken (BootstrapToken.new (asBytes token)) with hmessage
  set handled := (admissions.host.driver.touch peer seenAt).handle cbor
    (.messageReceived peer message) now with hhandled
  have hactions : handled.2 = if (admissions.host.driver.session.peers[peer]?).isSome then
      [.verifyBootstrapToken peer (asBytes token)] else [] :=
    handle_token hderives fits peer now
  have htracked (other : PeerId) (hother : admissions.host.driver.tracks other) :
      handled.1.tracks other := by
    rw [Driver.tracks, hhandled]
    exact (Driver.isSome_handle_token hderives fits peer other now).trans hother
  have hconnected : ∀ before, admissions.calls[call]? = some before →
      before = ⟨peer, token, fits, .connected⟩ :=
    fun before hbefore ↦ (Option.some.inj (hcall.symm.trans hbefore)).symm
  cases hpeer : admissions.host.driver.session.peers[peer]? with
  | some entry =>
    rw [hpeer] at hactions
    simp only [Admissions.step, hcall, ← hmessage, ← hhandled, hactions, Option.isSome_some,
      if_true]
    refine horderly.advance horderly.greets htracked (fun _ _ ↦ rfl) ?_ ?_ ?_ ?_ ?_
    · exact fun before hbefore ↦ by rw [hconnected before hbefore]
    · exact fun _ ↦ htracked peer (by simp [Driver.tracks, hpeer])
    · exact fun _ ↦ ⟨rfl, fun before hbefore ↦ by rw [hconnected before hbefore]; rfl⟩
    · exact fun hanswering ↦ absurd hanswering (by simp [Admission.isAnswering])
    · exact fun verified credited follow hstage ↦ absurd hstage (by simp)
  | none =>
    have halone := notOtherAnswering_iff.mp (hundisturbed hpeer)
    rw [hpeer] at hactions
    simp only [Admissions.step, hcall, ← hmessage, ← hhandled, hactions, Option.isSome_none,
      Bool.false_eq_true, if_false]
    refine horderly.advance horderly.greets htracked (fun _ _ ↦ rfl) ?_ ?_ ?_ ?_ ?_
    · exact fun before hbefore ↦ by rw [hconnected before hbefore]
    · exact fun hverifying ↦ absurd hverifying (by simp [Admission.isVerifying])
    · exact fun hanswering ↦ absurd hanswering (by simp [Admission.isAnswering])
    · exact fun _ ↦ halone
    · rintro verified credited follow hstage
      simp only [AdmissionStage.answering.injEq] at hstage
      obtain ⟨rfl, rfl, rfl⟩ := hstage
      refine ⟨rfl, fun _ _ ↦ rfl, .inr ⟨?_, rfl⟩⟩
      -- Nobody has an answer to fetch, so the queue holds none.
      have hquiet : admissions.host.driver.acks cbor peer = [] := by
        refine horderly.quiet peer fun other another hanother hsame ↦ ?_
        by_cases hother : call = other
        · rw [hconnected another (hother ▸ hanother)]
          rfl
        · exact halone other another hother hanother hsame
      exact (List.append_nil _).trans hquiet

/-- A call hears from the wallet while no other call for its peer has an answer to fetch. -/
theorem verdict (hderives : cbor.Derives) {call : ℕ} {peer : PeerId} {token : String}
    {fits : textFits token}
    (hcall : admissions.calls[call]? = some ⟨peer, token, fits, .verifying⟩)
    (answer : Option UInt64) (now : Millis)
    (hundisturbed : ¬ admissions.OtherAnswering call peer) :
    Orderly cbor (admissions.step cbor (.verdict call answer now)).1 := by
  have halone := notOtherAnswering_iff.mp hundisturbed
  have hverifying : ∀ before, admissions.calls[call]? = some before →
      before = ⟨peer, token, fits, .verifying⟩ :=
    fun before hbefore ↦ (Option.some.inj (hcall.symm.trans hbefore)).symm
  have htracked : (admissions.host.driver.session.peers[peer]?).isSome = true :=
    horderly.tracked call _ hcall rfl
  have hquiet : admissions.host.driver.acks cbor peer = [] := by
    refine horderly.quiet peer fun other another hanother hsame ↦ ?_
    by_cases hother : call = other
    · rw [hverifying another (hother ▸ hanother)]
      rfl
    · exact halone other another hother hanother hsame
  simp only [Admissions.step, hcall]
  set verdict := Driver.verifyToken answer with hverdict
  have hok : verdict.1 = answer.isSome := by
    cases answer <;> rfl
  refine horderly.advance horderly.greets ?_ (fun _ _ ↦ rfl) ?_ ?_ ?_ ?_ ?_
  · intro other hother
    exact (Driver.isSome_getMut _ peer other _).trans hother
  · exact fun before hbefore ↦ by rw [hverifying before hbefore]
  · exact fun hwallet ↦ absurd hwallet (by simp [Admission.isVerifying])
  · exact fun hanswering ↦ absurd hanswering (by simp [Admission.isAnswering])
  · exact fun _ ↦ halone
  · rintro verified credited follow hstage
    simp only [AdmissionStage.answering.injEq, htracked, Bool.and_true] at hstage
    obtain ⟨rfl, rfl, rfl⟩ := hstage
    refine ⟨rfl, fun other hother ↦ ?_, .inl ?_⟩
    · rw [Driver.handle, handle_verdict_sends, if_neg fun hboth ↦ hother hboth.2]
      rfl
    · have hack := ofType_singleton_ackOf hderives verdict.1
      have hacks : (admissions.host.driver.handle cbor
          (.bootstrapVerified peer verdict.2 verdict.1) now).1.acks cbor peer = [] := hquiet
      rw [due, hacks, Driver.handle, handle_verdict_sends, if_pos ⟨htracked, rfl⟩, hack, hok]
      rfl

/-- A call carries one of its actions out: an acknowledgement that was due is on the queue. -/
theorem proceed {call : ℕ} {peer : PeerId} {token : String} {fits : textFits token}
    {verified credited : Bool} {action : Action} {follow : List Action}
    (hcall : admissions.calls[call]? =
      some ⟨peer, token, fits, .answering verified credited (action :: follow)⟩) :
    Orderly cbor (admissions.advance (admissions.host.driver.execute cbor action) call
      ⟨peer, token, fits, .answering verified credited follow⟩) := by
  have hanswering : ∀ before, admissions.calls[call]? = some before →
      before = ⟨peer, token, fits, .answering verified credited (action :: follow)⟩ :=
    fun before hbefore ↦ (Option.some.inj (hcall.symm.trans hbefore)).symm
  obtain ⟨hcredited, hsends, hdue⟩ := horderly.owed call _ _ _ _ _ _ hcall
  have hsplit (other : PeerId) :
      ofType cbor ((action :: follow).filterMap (Action.sentTo other)) .bootstrapAck =
        ofType cbor (action.sentTo other).toList .bootstrapAck ++
          ofType cbor (follow.filterMap (Action.sentTo other)) .bootstrapAck := by
    rw [← ofType_append]
    cases hsent : action.sentTo other <;> simp [hsent]
  refine horderly.advance ?_ ?_ ?_ ?_ ?_ ?_ ?_ ?_
  · exact horderly.greets.executeAll [action]
  · intro other hother
    rwa [Driver.tracks, (Driver.execute_frame cbor _ action).1]
  · intro other hother
    have hnone := hsends other hother
    rw [hsplit, List.append_eq_nil_iff] at hnone
    rw [Driver.acks_execute, hnone.1, List.append_nil]
  · exact fun before hbefore ↦ by rw [hanswering before hbefore]
  · exact fun hverifying ↦ absurd hverifying (by simp [Admission.isVerifying])
  · exact fun hwaiting ↦ absurd hwaiting (by simp [Admission.isAnswering])
  · intro _ other another hother hanother hsame
    by_contra hboth
    refine hother (horderly.alone call other _ another hcall hanother rfl ?_ hsame.symm)
    simpa using hboth
  · intro verified' credited' follow' hstage
    simp only [AdmissionStage.answering.injEq] at hstage
    obtain ⟨rfl, rfl, rfl⟩ := hstage
    refine ⟨hcredited, fun other hother ↦ ?_, ?_⟩
    · have hnone := hsends other hother
      rw [hsplit, List.append_eq_nil_iff] at hnone
      exact hnone.2
    · have hkept : due cbor (admissions.host.driver.execute cbor action) peer follow =
          due cbor admissions.host.driver peer (action :: follow) := by
        rw [due, due, Driver.acks_execute, hsplit, List.append_assoc]
      rwa [hkept]

/-- A call empties the queue and returns what it finds there: the verdict on its own token. -/
theorem drain (hderives : cbor.Derives) {call : ℕ} {peer : PeerId} {token : String}
    {fits : textFits token} {verified credited : Bool}
    (hcall : admissions.calls[call]? =
      some ⟨peer, token, fits, .answering verified credited []⟩) :
    Orderly cbor (admissions.step cbor (.drain call)).1 ∧
      ∀ result ∈ (admissions.step cbor (.drain call)).2, result.OwnVerdict := by
  obtain ⟨hcredited, -, hdue⟩ := horderly.owed call _ _ _ _ _ _ hcall
  simp only [Admissions.step, hcall]
  have hlookup (other : ℕ) : (admissions.calls.erase call)[other]? =
      if call = other then none else admissions.calls[other]? := by
    rw [ExtTreeMap.getElem?_erase]
    by_cases hsame : call = other <;> simp [hsame]
  have hacks (other : PeerId) : (admissions.host.driver.drainOutbox peer).1.acks cbor other =
      if peer = other then [] else admissions.host.driver.acks cbor other := by
    by_cases hsame : peer = other <;>
      simp [Driver.drainOutbox, Driver.acks, ofType, ExtTreeMap.getElem?_erase, hsame]
  constructor
  · refine ⟨horderly.greets, ?_, ?_, ?_, ?_⟩
    · intro other another hanother hverifying
      rw [hlookup] at hanother
      split_ifs at hanother
      exact horderly.tracked other another hanother hverifying
    · intro first second one another hone hanother
      rw [hlookup] at hone hanother
      split_ifs at hone hanother
      exact horderly.alone first second one another hone hanother
    · intro other hnone
      rw [hacks]
      split_ifs with hsame
      · rfl
      · refine horderly.quiet other fun id another hanother hpeer ↦ ?_
        have hother : call ≠ id := by
          rintro rfl
          obtain rfl := Option.some.inj (hcall.symm.trans hanother)
          exact hsame hpeer
        exact hnone id another (by rw [hlookup, if_neg hother]; exact hanother) hpeer
    · intro other peer' token' fits' verified' credited' follow' hanother
      rw [hlookup] at hanother
      split_ifs at hanother with hother
      obtain ⟨hcredited', hsends', hdue'⟩ := horderly.owed other _ _ _ _ _ _ hanother
      have hpeer : peer ≠ peer' := by
        rintro rfl
        exact hother (horderly.alone call other _ _ hcall hanother rfl rfl rfl)
      refine ⟨hcredited', hsends', ?_⟩
      have hkept : due cbor (admissions.host.driver.drainOutbox peer).1 peer' follow' =
          due cbor admissions.host.driver peer' follow' := by
        rw [due, due, hacks, if_neg hpeer]
      rwa [hkept]
  · intro result hresult
    obtain rfl := List.mem_singleton.mp hresult
    have haccepted : ((firstAck cbor (admissions.host.driver.drainOutbox peer).2).map
        BootstrapAck.isAccepted).getD false = verified := by
      have hnil : due cbor admissions.host.driver peer [] =
          ofType cbor (admissions.host.driver.drainOutbox peer).2 .bootstrapAck :=
        List.append_nil _
      rw [hnil] at hdue
      rcases hdue with honly | ⟨hnone, hrefused⟩
      · exact firstAck_of_only hderives honly
      · rw [firstAck, hnone, hrefused]
        rfl
    refine ⟨?_, ?_⟩
    · simp [haccepted, hcredited]
    · simp [haccepted]

/-- The driver goes on without any of the calls. Acknowledgements are lost at most for a peer that
nobody waits for. -/
theorem of_host {host : Host} (hgreets : host.driver.Greets cbor)
    (htracked : ∀ (call : ℕ) admission, admissions.calls[call]? = some admission →
      admission.isVerifying = true → host.driver.tracks admission.peer)
    (hacks : ∀ peer, host.driver.acks cbor peer = admissions.host.driver.acks cbor peer ∨
      host.driver.acks cbor peer = [] ∧ ∀ (call : ℕ) admission,
        admissions.calls[call]? = some admission → admission.peer = peer →
          admission.isAnswering = false) :
    Orderly cbor { admissions with host := host } := by
  refine ⟨hgreets, htracked, horderly.alone, ?_, ?_⟩
  · intro peer hnone
    rcases hacks peer with hsame | ⟨hempty, -⟩
    · exact hsame.trans (horderly.quiet peer hnone)
    · exact hempty
  · intro call peer token fits verified credited follow hcall
    obtain ⟨hcredited, hsends, hdue⟩ := horderly.owed call _ _ _ _ _ _ hcall
    refine ⟨hcredited, hsends, ?_⟩
    rcases hacks peer with hsame | ⟨-, hnobody⟩
    · have hkept : due cbor host.driver peer follow =
          due cbor admissions.host.driver peer follow := by
        rw [due, due, hsame]
      rwa [hkept]
    · exact absurd (hnobody call _ hcall rfl) (by simp [Admission.isAnswering])

/-- The background keeps the acknowledgements, if it tears down nobody who waits for one. -/
theorem background (hlawful : cbor.Lawful) (step : Background)
    (hundisturbed : ¬ admissions.Disturbs (.background step)) :
    Orderly cbor (admissions.step cbor (.background step)).1 := by
  have hidle : ∀ host : Host, host.driver = admissions.host.driver →
      Orderly cbor { admissions with host := host } := by
    intro host hdriver
    refine horderly.of_host ?_ ?_ fun peer ↦ .inl (by rw [hdriver])
    · exact hdriver ▸ horderly.greets
    · exact hdriver ▸ horderly.tracked
  cases step with
  | meter peer counters now =>
    refine horderly.of_host (horderly.greets.feed _ now) ?_ fun other ↦ .inl ?_
    · intro call admission hcall hverifying
      have htracks := horderly.tracked call admission hcall hverifying
      rw [Background.step, Host.step, Driver.meter, Driver.tracks_feed]
      exact (Driver.isSome_getMut _ peer admission.peer _).trans htracks
    · exact Driver.acks_feed hlawful now other (by simp)
  | sweep nowMs idleMs =>
    refine hidle _ ?_
    simp only [Background.step, Host.step]
    split_ifs <;> rfl
  | look =>
    refine hidle _ ?_
    simp only [Background.step, Host.step]
    split
    · split_ifs <;> rfl
    · rfl
  | tearDown now =>
    cases hcondemned : admissions.host.condemned with
    | none =>
      refine hidle _ ?_
      simp only [Background.step, Host.step, hcondemned]
    | some peer =>
      -- Nobody with a token at the wallet or an answer to fetch is torn down.
      have hnobody : ∀ (call : ℕ) admission, admissions.calls[call]? = some admission →
          admission.peer = peer → admission.isVerifying = false ∧
            admission.isAnswering = false := by
        intro call admission hcall hpeer
        rw [← Bool.or_eq_false_iff, ← Bool.not_eq_true]
        refine fun hwaits ↦ hundisturbed ⟨peer, hcondemned, (call, admission), ?_, hpeer, hwaits⟩
        exact ExtTreeMap.mem_toList_iff_getElem?_eq_some.mpr hcall
      simp only [Admissions.step, Background.step, Host.step, hcondemned]
      refine horderly.of_host (horderly.greets.feed (.peerDisconnected peer) now) ?_ fun other ↦ ?_
      · intro call admission hcall hverifying
        rw [Driver.tracks_peerDisconnected]
        refine ⟨horderly.tracked call admission hcall hverifying, fun hpeer ↦ ?_⟩
        rw [(hnobody call admission hcall hpeer.symm).1] at hverifying
        exact absurd hverifying Bool.false_ne_true
      · rw [Driver.acks_peerDisconnected hlawful]
        split_ifs with hsame
        · refine .inr ⟨rfl, fun call admission hcall hpeer ↦ ?_⟩
          exact (hnobody call admission hcall (hpeer.trans hsame.symm)).2
        · exact .inl rfl

/-- Assumes: a step that disturbs no call. Order is kept, and what a call returns is the verdict on
its own token. -/
theorem step (hderives : cbor.Derives) (step : AdmissionStep)
    (hundisturbed : ¬ admissions.Disturbs step) :
    Orderly cbor (admissions.step cbor step).1 ∧
      ∀ result ∈ (admissions.step cbor step).2, result.OwnVerdict := by
  have hstill : Orderly cbor admissions ∧ ∀ result ∈ ([] : List AdmissionResult),
      result.OwnVerdict := ⟨horderly, fun result hresult ↦ absurd hresult List.not_mem_nil⟩
  cases step with
  | connect call peer ip token fits seenAt now =>
    cases hcall : admissions.calls[call]? with
    | some admission =>
      simp only [Admissions.step, hcall]
      exact hstill
    | none =>
      simp only [Admissions.step, hcall]
      exact ⟨horderly.connect hderives.lawful hcall peer ip token fits seenAt now, hstill.2⟩
  | present call seenAt now =>
    rcases hcall : admissions.calls[call]? with - | ⟨peer, token, fits, stage⟩
    · simp only [Admissions.step, hcall]
      exact hstill
    · cases stage with
      | connected =>
        refine ⟨horderly.present hderives hcall seenAt now fun hpeer hother ↦ ?_, ?_⟩
        · exact hundisturbed ⟨_, hcall, hpeer, hother⟩
        · simp [Admissions.step, hcall]
      | _ =>
        simp only [Admissions.step, hcall]
        exact hstill
  | verdict call answer now =>
    rcases hcall : admissions.calls[call]? with - | ⟨peer, token, fits, stage⟩
    · simp only [Admissions.step, hcall]
      exact hstill
    · cases stage with
      | verifying =>
        refine ⟨horderly.verdict hderives hcall answer now fun hother ↦ ?_, ?_⟩
        · exact hundisturbed ⟨_, hcall, hother⟩
        · simp [Admissions.step, hcall]
      | _ =>
        simp only [Admissions.step, hcall]
        exact hstill
  | proceed call =>
    rcases hcall : admissions.calls[call]? with
      - | ⟨peer, token, fits, - | - | ⟨verified, credited, - | ⟨action, follow⟩⟩⟩
    case some.answering.cons =>
      simp only [Admissions.step, hcall]
      exact ⟨horderly.proceed hcall, hstill.2⟩
    all_goals
      simp only [Admissions.step, hcall]
      exact hstill
  | drain call =>
    rcases hcall : admissions.calls[call]? with
      - | ⟨peer, token, fits, - | - | ⟨verified, credited, - | ⟨action, follow⟩⟩⟩
    case some.answering.nil => exact horderly.drain hderives hcall
    all_goals
      simp only [Admissions.step, hcall]
      exact hstill
  | background step => exact ⟨horderly.background hderives.lawful step hundisturbed, hstill.2⟩

end Orderly

/-- The node that `main` starts, before any call. -/
def start (config : Config) (sort : List MintPrice → List MintPrice) (sha256 : Bytes → Digest)
    (cbor : Minicbor) (publicKey : PublicKey) : Admissions :=
  ⟨config.host sort sha256 cbor publicKey, ∅⟩

theorem orderly_start (hderives : cbor.Derives) {config : Config} (hfits : config.Fits)
    (sort : List MintPrice → List MintPrice) (sha256 : Bytes → Digest) (publicKey : PublicKey) :
    Orderly cbor (start config sort sha256 cbor publicKey) := by
  have hannounce : cbor.peekType (cbor.encodeAnnounce (config.announce publicKey)) =
      some .announce :=
    @Message.peekType_encode cbor hderives (.announce (config.announce publicKey)) rfl hfits.unit
  have hsheet : cbor.peekType (cbor.encodePriceSheet (config.priceSheet sort sha256)) =
      some .priceSheet :=
    @Message.peekType_encode cbor hderives (.priceSheet (config.priceSheet sort sha256)) rfl
      (hfits.sheet sort sha256)
  have hgreets : (config.driver sort sha256 cbor publicKey).Greets cbor := by
    simp [Driver.Greets, Config.driver, Driver.new, hannounce, hsheet]
  have hnone (call : ℕ) (admission : Admission) :
      (start config sort sha256 cbor publicKey).calls[call]? ≠ some admission := by
    simp [start]
  exact ⟨hgreets, fun call admission hcall ↦ absurd hcall (hnone call admission),
    fun call _ admission _ hcall ↦ absurd hcall (hnone call admission), fun _ _ ↦ rfl,
    fun call _ _ _ _ _ _ hcall ↦ absurd hcall (hnone call _)⟩

/-- Assumes: the documented format of the codec, and lengths that are machine words. In a run in
which no call gets its answer while another one for its peer has not fetched its own, and nobody
with a call is torn down, every call returns the verdict on its own token. -/
theorem admission_tells_own_verdict (hderives : cbor.Derives) {config : Config}
    (hfits : config.Fits) (sort : List MintPrice → List MintPrice) (sha256 : Bytes → Digest)
    (publicKey : PublicKey) (steps : List AdmissionStep)
    (hundisturbed : (machine cbor).Along (fun admissions step ↦ ¬ admissions.Disturbs step)
      (start config sort sha256 cbor publicKey) steps) :
    ∀ result ∈ (machine cbor).outputs (start config sort sha256 cbor publicKey) steps,
      result.OwnVerdict := by
  have hrun : ∀ (admissions : Admissions) (steps : List AdmissionStep), Orderly cbor admissions →
      (machine cbor).Along (fun admissions step ↦ ¬ admissions.Disturbs step) admissions steps →
        ∀ result ∈ (machine cbor).outputs admissions steps, result.OwnVerdict := by
    intro admissions steps
    induction steps generalizing admissions with
    | nil => exact fun _ _ result hresult ↦ absurd hresult List.not_mem_nil
    | cons step rest ih =>
      intro horderly halong
      obtain ⟨hnext, hresults⟩ := horderly.step hderives step halong.1
      exact List.forall_mem_append.mpr ⟨hresults, ih _ hnext halong.2⟩
  exact hrun _ steps (orderly_start hderives hfits sort sha256 publicKey) hundisturbed

/-! ### Two payers of one peer -/

instance decidableDisturbs (admissions : Admissions) : DecidablePred admissions.Disturbs
  | .verdict _ _ _ | .present _ _ _ => inferInstanceAs (Decidable (∃ _ ∈ _, _))
  | .background (.tearDown _) => inferInstanceAs (Decidable (∃ _ ∈ _, _))
  | .background (.meter _ _ _) | .background (.sweep _ _) | .background .look
  | .connect _ _ _ _ _ _ _ | .proceed _ | .drain _ => instDecidableFalse

/-- A node with one product and one mint. -/
def sampleStart : Admissions :=
  start (sampleConfig 1000) (List.insertionSort MintPrice.urlLe) (fun _ ↦ Vector.replicate 32 0)
    Minicbor.derived (Vector.replicate 33 2)

/-- A call that hands a token in for the sample peer, up to the wallet. -/
def handIn (call : ℕ) (token : String) (fits : textFits token) : List AdmissionStep :=
  [.connect call samplePeer none token fits 1 1, .present call 1 1]

/-- What follows the wallet's answer, up to the queue. -/
def settle (call : ℕ) (answer : Option UInt64) : List AdmissionStep :=
  [.verdict call answer 2, .proceed call, .proceed call, .proceed call]

/-- A payer whose token is refused, and after it one whose token is good; a sample in between. -/
theorem admission_tells_own_verdict_in_turn :
    (∀ result ∈ (machine Minicbor.derived).outputs sampleStart
        (handIn 0 "bad" (by decide +kernel) ++ handIn 1 "good" (by decide +kernel) ++
          settle 0 none ++ [.drain 0, .background (.meter samplePeer ⟨0, 0⟩ 2)] ++
          settle 1 (some 5000) ++ [.drain 1]),
      result.OwnVerdict) ∧
    (machine Minicbor.derived).outputs sampleStart
        (handIn 0 "bad" (by decide +kernel) ++ handIn 1 "good" (by decide +kernel) ++
          settle 0 none ++ [.drain 0, .background (.meter samplePeer ⟨0, 0⟩ 2)] ++
          settle 1 (some 5000) ++ [.drain 1]) =
      [⟨0, false, false, false⟩, ⟨1, true, true, true⟩] := by
  have hfits : (sampleConfig 1000).Fits :=
    ⟨by decide, by decide, by decide, by decide⟩
  refine ⟨admission_tells_own_verdict Minicbor.derived_derives hfits _ _ _ _ ?_, ?_⟩
  · decide +kernel
  · decide +kernel

/-- The same two payers, with both answers in before either call has fetched its own: the one whose
token was taken is told that it was refused. -/
theorem admission_confuses_verdicts :
    (machine Minicbor.derived).outputs sampleStart
        (handIn 0 "bad" (by decide +kernel) ++ handIn 1 "good" (by decide +kernel) ++
          settle 0 none ++ settle 1 (some 5000) ++ [.drain 1, .drain 0]) =
      [⟨1, false, true, true⟩, ⟨0, false, false, false⟩] ∧
    ¬ (∀ result ∈ (machine Minicbor.derived).outputs sampleStart
        (handIn 0 "bad" (by decide +kernel) ++ handIn 1 "good" (by decide +kernel) ++
          settle 0 none ++ settle 1 (some 5000) ++ [.drain 1, .drain 0]),
      result.OwnVerdict) := by
  have hresults : (machine Minicbor.derived).outputs sampleStart
      (handIn 0 "bad" (by decide +kernel) ++ handIn 1 "good" (by decide +kernel) ++
        settle 0 none ++ settle 1 (some 5000) ++ [AdmissionStep.drain 1, .drain 0]) =
      [⟨1, false, true, true⟩, ⟨0, false, false, false⟩] := by
    decide +kernel
  refine ⟨hresults, fun hall ↦ ?_⟩
  rw [hresults] at hall
  exact absurd ((hall _ List.mem_cons_self).taken rfl) (by decide)

end Admissions

end Tollgate
