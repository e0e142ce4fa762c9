import Tollgate.Core.Session

/-!
# One peer's view of the session

Every event concerns at most one peer, and `Session.handle` reads and writes that peer's entry
alone. `PeerEvent` is an event as one peer's entry sees it: decoded, and `idle` when the event is
another peer's, a tick, or a message that the session ignores. `Entry.step` is what it does to the
entry, and `entrySimulation` connects this machine to `Session.handle`: the entry a run leaves in
the map is the entry the one-peer machine reaches on the events the peer sees, and the actions that
name the peer are the ones that machine emits. Results about one peer are proved on the one-peer
machine and carried over by it.

`Entry.charges` records the arguments and the result of the one call of `costScaled`, made at a
sample of an active peer after its baseline.
-/

set_option autoImplicit false
set_option relaxedAutoImplicit false

namespace Tollgate

open Std

/-- An event as one peer's entry sees it. -/
inductive PeerEvent
  | idle
  | connected
  | disconnected
  | token (message : BootstrapToken)
  | reject
  | priceSheet (sheet : PriceSheet)
  | accept (message : Accept)
  | report (report : MeteringReport)
  | verified (amount : UInt64) (ok : Bool) (now : Millis)
  | sample (counters : Counters) (now : Millis)
  deriving DecidableEq

/-- What a message body says to the entry of the peer that sent it. -/
def PeerEvent.ofMessage (cbor : Minicbor) (bytes : Bytes) : PeerEvent :=
  match cbor.peekType bytes with
  | some .bootstrapToken => ((cbor.decodeBootstrapToken bytes).map token).getD idle
  | some .reject => ((cbor.decodeReject bytes).map fun _ ↦ reject).getD idle
  | some .disconnect => ((cbor.decodeDisconnect bytes).map fun _ ↦ disconnected).getD idle
  | some .priceSheet => ((cbor.decodePriceSheet bytes).map priceSheet).getD idle
  | some .accept => ((cbor.decodeAccept bytes).map accept).getD idle
  | some .meteringReport => ((cbor.decodeMeteringReport bytes).map report).getD idle
  | _ => idle

/-- An event as the entry of `peer` sees it. -/
def PeerEvent.of (cbor : Minicbor) (peer : PeerId) (input : Event × Millis) : PeerEvent :=
  if input.1.peer = some peer then
    match input.1 with
    | .peerConnected _ => connected
    | .peerDisconnected _ => disconnected
    | .messageReceived _ bytes => ofMessage cbor bytes
    | .meterSample _ counters => sample counters input.2
    | .bootstrapVerified _ amount ok => verified amount ok input.2
    | .tick => idle
  else idle

/-! ### Which events an entry sees as what -/

theorem PeerEvent.ofMessage_eq_token_iff {cbor : Minicbor} {bytes : Bytes}
    {message : BootstrapToken} :
    PeerEvent.ofMessage cbor bytes = .token message ↔
      cbor.peekType bytes = some .bootstrapToken ∧
        cbor.decodeBootstrapToken bytes = some message := by
  unfold PeerEvent.ofMessage
  cases cbor.peekType bytes with
  | none => simp
  | some type =>
    cases type with
    | bootstrapToken => cases cbor.decodeBootstrapToken bytes <;> simp
    | reject => cases cbor.decodeReject bytes <;> simp
    | disconnect => cases cbor.decodeDisconnect bytes <;> simp
    | priceSheet => cases cbor.decodePriceSheet bytes <;> simp
    | accept => cases cbor.decodeAccept bytes <;> simp
    | meteringReport => cases cbor.decodeMeteringReport bytes <;> simp
    | _ => simp

/-- Only meter readings and verdicts carry their time to the entry, and no message is one. -/
theorem PeerEvent.ofMessage_ne (cbor : Minicbor) (bytes : Bytes) :
    (∀ counters now, PeerEvent.ofMessage cbor bytes ≠ .sample counters now) ∧
      (∀ amount ok now, PeerEvent.ofMessage cbor bytes ≠ .verified amount ok now) ∧
      PeerEvent.ofMessage cbor bytes ≠ .connected := by
  unfold PeerEvent.ofMessage
  cases cbor.peekType bytes with
  | none => simp
  | some type =>
    cases type with
    | bootstrapToken => cases cbor.decodeBootstrapToken bytes <;> simp
    | reject => cases cbor.decodeReject bytes <;> simp
    | disconnect => cases cbor.decodeDisconnect bytes <;> simp
    | priceSheet => cases cbor.decodePriceSheet bytes <;> simp
    | accept => cases cbor.decodeAccept bytes <;> simp
    | meteringReport => cases cbor.decodeMeteringReport bytes <;> simp
    | _ => simp

/-- A message as its sender's entry sees it. -/
@[simp] theorem PeerEvent.of_messageReceived (cbor : Minicbor) (peer : PeerId) (bytes : Bytes)
    (now : Millis) :
    PeerEvent.of cbor peer (.messageReceived peer bytes, now) = PeerEvent.ofMessage cbor bytes :=
  if_pos rfl

@[simp] theorem PeerEvent.of_meterSample (cbor : Minicbor) (peer : PeerId) (counters : Counters)
    (now : Millis) :
    PeerEvent.of cbor peer (.meterSample peer counters, now) = .sample counters now :=
  if_pos rfl

@[simp] theorem PeerEvent.of_bootstrapVerified (cbor : Minicbor) (peer : PeerId) (amount : UInt64)
    (ok : Bool) (now : Millis) :
    PeerEvent.of cbor peer (.bootstrapVerified peer amount ok, now) = .verified amount ok now :=
  if_pos rfl

@[simp] theorem PeerEvent.of_peerConnected (cbor : Minicbor) (peer : PeerId) (now : Millis) :
    PeerEvent.of cbor peer (.peerConnected peer, now) = .connected :=
  if_pos rfl

/-- An event about another peer is idle. -/
theorem PeerEvent.of_ne {cbor : Minicbor} {peer : PeerId} {input : Event × Millis}
    (hpeer : input.1.peer ≠ some peer) : PeerEvent.of cbor peer input = .idle :=
  if_neg hpeer

theorem PeerEvent.of_eq_token_iff {cbor : Minicbor} {peer : PeerId} {input : Event × Millis}
    {message : BootstrapToken} :
    PeerEvent.of cbor peer input = .token message ↔
      ∃ bytes, input.1 = .messageReceived peer bytes ∧
        cbor.peekType bytes = some .bootstrapToken ∧
        cbor.decodeBootstrapToken bytes = some message := by
  obtain ⟨event, now⟩ := input
  constructor
  · intro htoken
    by_cases hpeer : event.peer = some peer
    · cases event with
      | messageReceived other bytes =>
        obtain rfl : other = peer := Option.some.inj hpeer
        rw [of_messageReceived, ofMessage_eq_token_iff] at htoken
        exact ⟨bytes, rfl, htoken⟩
      | _ => simp [of, hpeer] at htoken
    · rw [of_ne hpeer] at htoken
      exact absurd htoken (by simp)
  · rintro ⟨bytes, hevent, htoken⟩
    obtain rfl : event = .messageReceived peer bytes := hevent
    rw [of_messageReceived, ofMessage_eq_token_iff]
    exact htoken

theorem PeerEvent.of_eq_sample_iff {cbor : Minicbor} {peer : PeerId} {input : Event × Millis}
    {counters : Counters} {now : Millis} :
    PeerEvent.of cbor peer input = .sample counters now ↔
      input = (.meterSample peer counters, now) := by
  obtain ⟨event, time⟩ := input
  constructor
  · intro hsample
    by_cases hpeer : event.peer = some peer
    · cases event with
      | meterSample other readings =>
        obtain rfl : other = peer := Option.some.inj hpeer
        rw [of_meterSample] at hsample
        cases hsample
        rfl
      | messageReceived other bytes =>
        obtain rfl : other = peer := Option.some.inj hpeer
        rw [of_messageReceived] at hsample
        exact absurd hsample ((ofMessage_ne cbor bytes).1 counters now)
      | _ => simp [of, hpeer] at hsample
    · rw [of_ne hpeer] at hsample
      exact absurd hsample (by simp)
  · intro hinput
    rw [hinput, of_meterSample]

theorem PeerEvent.of_eq_verified_iff {cbor : Minicbor} {peer : PeerId} {input : Event × Millis}
    {amount : UInt64} {ok : Bool} {now : Millis} :
    PeerEvent.of cbor peer input = .verified amount ok now ↔
      input = (.bootstrapVerified peer amount ok, now) := by
  obtain ⟨event, time⟩ := input
  constructor
  · intro hverified
    by_cases hpeer : event.peer = some peer
    · cases event with
      | bootstrapVerified other credit accepted =>
        obtain rfl : other = peer := Option.some.inj hpeer
        rw [of_bootstrapVerified] at hverified
        cases hverified
        rfl
      | messageReceived other bytes =>
        obtain rfl : other = peer := Option.some.inj hpeer
        rw [of_messageReceived] at hverified
        exact absurd hverified ((ofMessage_ne cbor bytes).2.1 amount ok now)
      | _ => simp [of, hpeer] at hverified
    · rw [of_ne hpeer] at hverified
      exact absurd hverified (by simp)
  · intro hinput
    rw [hinput, of_bootstrapVerified]

namespace Entry

/-- A mutable borrow of an entry that may be absent. -/
def getMut (entry : Option PeerSession) (update : PeerSession → PeerSession × List Action) :
    Option PeerSession × List Action :=
  match entry with
  | some entry => (some (update entry).1, (update entry).2)
  | none => (none, [])

@[simp] theorem getMut_some (entry : PeerSession)
    (update : PeerSession → PeerSession × List Action) :
    getMut (some entry) update = (some (update entry).1, (update entry).2) := rfl

@[simp] theorem getMut_none (update : PeerSession → PeerSession × List Action) :
    getMut none update = (none, []) := rfl

/-- What an event does to the entry of the peer that sees it. -/
def step (cbor : Minicbor) (price : Price) (policy : MeteringPolicy) (peer : PeerId)
    (entry : Option PeerSession) : PeerEvent → Option PeerSession × List Action
  | .idle => (entry, [])
  | .connected =>
    match entry with
    | none => (some PeerSession.new, [.setAccess peer .none])
    | some entry => (some entry, [])
  | .disconnected => (none, [.setAccess peer .none, .stopMetering peer])
  | .token message => getMut entry fun entry ↦ entry.receiveToken peer message
  | .reject => getMut entry fun entry ↦ entry.receiveReject peer
  | .priceSheet sheet => getMut entry fun entry ↦ entry.receivePriceSheet sheet
  | .accept message => getMut entry fun entry ↦ entry.receiveAccept message
  | .report report => getMut entry fun entry ↦ entry.receiveReport report
  | .verified amount ok now =>
    getMut entry fun entry ↦ entry.bootstrapVerified cbor peer amount ok now
  | .sample counters now =>
    getMut entry fun entry ↦ entry.meterSample cbor peer price policy counters now

/-- The one-peer machine. -/
def machine (cbor : Minicbor) (price : Price) (policy : MeteringPolicy) (peer : PeerId) :
    Transducer (Option PeerSession) PeerEvent Action where
  step := step cbor price policy peer

@[simp] theorem machine_step (cbor : Minicbor) (price : Price) (policy : MeteringPolicy)
    (peer : PeerId) (entry : Option PeerSession) (event : PeerEvent) :
    (machine cbor price policy peer).step entry event = step cbor price policy peer entry event :=
  rfl

section Step

variable (cbor : Minicbor) (price : Price) (policy : MeteringPolicy) (peer : PeerId)

@[simp] theorem step_idle (entry : Option PeerSession) :
    step cbor price policy peer entry .idle = (entry, []) := rfl

@[simp] theorem step_report (entry : PeerSession) (report : MeteringReport) :
    step cbor price policy peer (some entry) (.report report) =
      (some { entry with peerReport := some ⟨report.delivered, report.received⟩ }, []) := rfl

theorem step_sample_inactive {entry : PeerSession} (hphase : entry.phase ≠ .active)
    (counters : Counters) (now : Millis) :
    step cbor price policy peer (some entry) (.sample counters now) = (some entry, []) := by
  simp [step, PeerSession.meterSample, hphase]

theorem step_sample_baseline {entry : PeerSession} (hphase : entry.phase = .active)
    (hlast : entry.lastCounters = none) (counters : Counters) (now : Millis) :
    step cbor price policy peer (some entry) (.sample counters now) =
      (some (entry.resetMetering counters now), []) := by
  simp [step, PeerSession.meterSample, hphase, hlast]

theorem step_sample_charge {entry : PeerSession} (hphase : entry.phase = .active)
    (hlast : entry.lastCounters.isSome = true) (counters : Counters) (now : Millis) :
    step cbor price policy peer (some entry) (.sample counters now) =
      (some (entry.chargeSample cbor peer price policy counters now).1,
        (entry.chargeSample cbor peer price policy counters now).2) := by
  obtain ⟨last, hlast⟩ := Option.isSome_iff_exists.mp hlast
  simp [step, PeerSession.meterSample, hphase, hlast]

end Step

section Tracked

variable {cbor : Minicbor} {price : Price} {policy : MeteringPolicy} {peer : PeerId}
  {event : PeerEvent}

/-- Only a connection starts tracking, and it starts from nothing. -/
theorem step_untracked {next : PeerSession}
    (hnext : (step cbor price policy peer none event).1 = some next) :
    event = .connected ∧ next = PeerSession.new := by
  cases event with
  | connected => exact ⟨rfl, (Option.some.inj hnext).symm⟩
  | _ => exact absurd hnext (by simp [step])

/-- Only a goodbye removes an entry. -/
theorem isSome_step {entry : Option PeerSession} (hstays : event ≠ .disconnected)
    (htracked : entry.isSome = true) :
    (step cbor price policy peer entry event).1.isSome = true := by
  obtain ⟨before, rfl⟩ := Option.isSome_iff_exists.mp htracked
  cases event with
  | disconnected => exact absurd rfl hstays
  | _ => rfl

end Tracked

end Entry

/-! ### Charges -/

/-- One call of `costScaled`: its two arguments and its result. -/
structure Charge where
  elapsed : UInt64
  units : UInt64
  cost : Int64
  deriving DecidableEq

/-- The charge a sample makes on an entry that has its baseline. -/
def PeerSession.charge (entry : PeerSession) (price : Price) (counters : Counters)
    (now : Millis) : Charge where
  elapsed := Millis.since now entry.lastMeterAt
  units := entry.newUnits counters
  cost := entry.sampleCost counters price now

/-- The charges an event makes: one at a sample of an active entry after its baseline, and none
otherwise. -/
def Entry.charges (price : Price) (entry : Option PeerSession) : PeerEvent → List Charge
  | .sample counters now =>
    match entry with
    | some tracked =>
      if tracked.phase = .active ∧ tracked.lastCounters.isSome then
        [tracked.charge price counters now]
      else []
    | none => []
  | _ => []

/-- The charges an event makes on `peer`. -/
def Session.charges (cbor : Minicbor) (peer : PeerId) (session : Session)
    (input : Event × Millis) : List Charge :=
  Entry.charges session.price session.peers[peer]? (PeerEvent.of cbor peer input)

/-! ### Every action names the peer of its event -/

theorem PeerSession.chargeSample_peer {cbor : Minicbor} {peer : PeerId} {entry : PeerSession}
    {price : Price} {policy : MeteringPolicy} {counters : Counters} {now : Millis}
    {action : Action}
    (haction : action ∈ (entry.chargeSample cbor peer price policy counters now).2) :
    action.peer = peer := by
  simp only [chargeSample] at haction
  rcases List.mem_append.mp haction with haction | haction
  · rcases List.mem_append.mp haction with haction | haction
    · split_ifs at haction <;> simp_all [Action.peer]
    · simp_all [Action.peer]
  · split_ifs at haction <;> simp_all [Action.peer] <;>
      rcases haction with rfl | rfl | rfl <;> rfl

theorem Entry.step_peer {cbor : Minicbor} {price : Price} {policy : MeteringPolicy}
    {peer : PeerId} {entry : Option PeerSession} {event : PeerEvent} {action : Action}
    (haction : action ∈ (Entry.step cbor price policy peer entry event).2) :
    action.peer = peer := by
  cases entry with
  | none =>
    cases event <;> simp [Entry.step] at haction
    case connected => rw [haction]; rfl
    case disconnected => rcases haction with rfl | rfl <;> rfl
  | some entry =>
    cases event with
    | disconnected =>
      simp only [Entry.step, List.mem_cons, List.not_mem_nil, or_false] at haction
      rcases haction with rfl | rfl <;> rfl
    | token message =>
      simp only [Entry.step, Entry.getMut_some, PeerSession.receiveToken,
        List.mem_singleton] at haction
      rw [haction]
      rfl
    | reject =>
      simp only [Entry.step, Entry.getMut_some, PeerSession.receiveReject] at haction
      split_ifs at haction <;> simp at haction
      rcases haction with rfl | rfl <;> rfl
    | verified amount ok now =>
      simp only [Entry.step, Entry.getMut_some, PeerSession.bootstrapVerified] at haction
      cases ok <;> simp at haction
      · rcases haction with rfl | rfl <;> rfl
      · rcases haction with rfl | rfl | rfl <;> rfl
    | sample counters now =>
      simp only [Entry.step, Entry.getMut_some, PeerSession.meterSample] at haction
      split_ifs at haction
      · cases hlast : entry.lastCounters with
        | none => simp [hlast] at haction
        | some last =>
          rw [hlast] at haction
          exact PeerSession.chargeSample_peer haction
      · simp at haction
    | _ => simp [Entry.step, PeerSession.receivePriceSheet, PeerSession.receiveAccept,
        PeerSession.receiveReport] at haction

/-- Only a token is handed to the host for verification. -/
theorem Entry.token_of_verify {cbor : Minicbor} {price : Price} {policy : MeteringPolicy}
    {peer other : PeerId} {entry : Option PeerSession} {event : PeerEvent} {token : Bytes}
    (haction : .verifyBootstrapToken other token ∈
      (Entry.step cbor price policy peer entry event).2) :
    ∃ message, event = .token message := by
  cases entry with
  | none => cases event <;> simp [Entry.step] at haction
  | some entry =>
    cases event with
    | token message => exact ⟨message, rfl⟩
    | reject =>
      simp only [Entry.step, Entry.getMut_some, PeerSession.receiveReject] at haction
      split_ifs at haction <;> simp at haction
    | verified amount ok now =>
      cases ok <;> simp [Entry.step, PeerSession.bootstrapVerified] at haction
    | sample counters now =>
      simp only [Entry.step, Entry.getMut_some, PeerSession.meterSample] at haction
      split_ifs at haction
      · cases hlast : entry.lastCounters with
        | none => simp [hlast] at haction
        | some last =>
          rw [hlast] at haction
          simp only [PeerSession.chargeSample] at haction
          split_ifs at haction <;> simp at haction
      · simp at haction
    | _ => simp [Entry.step, PeerSession.receivePriceSheet, PeerSession.receiveAccept,
        PeerSession.receiveReport] at haction

/-! ### The simulation -/

namespace Session

variable (cbor : Minicbor) (session : Session) (peer other : PeerId)

theorem getElem?_getMut_self (update : PeerSession → PeerSession × List Action) :
    (session.getMut peer update).1.peers[peer]? = (Entry.getMut session.peers[peer]? update).1 := by
  unfold getMut Entry.getMut
  cases h : session.peers[peer]? with
  | none => exact h
  | some entry => simp

theorem getElem?_getMut_of_ne (hne : other ≠ peer)
    (update : PeerSession → PeerSession × List Action) :
    (session.getMut other update).1.peers[peer]? = session.peers[peer]? := by
  unfold getMut
  cases session.peers[other]? with
  | none => rfl
  | some entry => simp [ExtTreeMap.getElem?_insert, hne]

theorem getMut_actions (update : PeerSession → PeerSession × List Action) :
    (session.getMut peer update).2 = (Entry.getMut session.peers[peer]? update).2 := by
  unfold getMut Entry.getMut
  cases session.peers[peer]? <;> rfl

theorem getMut_price (update : PeerSession → PeerSession × List Action) :
    (session.getMut peer update).1.price = session.price := by
  unfold getMut
  cases session.peers[peer]? <;> rfl

theorem getMut_policy (update : PeerSession → PeerSession × List Action) :
    (session.getMut peer update).1.policy = session.policy := by
  unfold getMut
  cases session.peers[peer]? <;> rfl

theorem getElem?_remove_self : (session.remove peer).1.peers[peer]? = none := by
  simp [remove]

theorem getElem?_remove_of_ne (hne : other ≠ peer) :
    (session.remove other).1.peers[peer]? = session.peers[peer]? := by
  simp [remove, ExtTreeMap.getElem?_erase, hne]

/-- A message does to its sender's entry, and emits, what the entry sees in it. -/
theorem messageReceived_self (bytes : Bytes) :
    (session.messageReceived cbor peer bytes).1.peers[peer]? =
        (Entry.step cbor session.price session.policy peer session.peers[peer]?
          (PeerEvent.ofMessage cbor bytes)).1 ∧
      (session.messageReceived cbor peer bytes).2 =
        (Entry.step cbor session.price session.policy peer session.peers[peer]?
          (PeerEvent.ofMessage cbor bytes)).2 := by
  unfold messageReceived PeerEvent.ofMessage
  cases cbor.peekType bytes with
  | none => exact ⟨rfl, rfl⟩
  | some type =>
    cases type with
    | bootstrapToken =>
      cases cbor.decodeBootstrapToken bytes with
      | none => exact ⟨rfl, rfl⟩
      | some message => exact ⟨session.getElem?_getMut_self peer _, session.getMut_actions peer _⟩
    | reject =>
      cases cbor.decodeReject bytes with
      | none => exact ⟨rfl, rfl⟩
      | some message => exact ⟨session.getElem?_getMut_self peer _, session.getMut_actions peer _⟩
    | disconnect =>
      cases cbor.decodeDisconnect bytes with
      | none => exact ⟨rfl, rfl⟩
      | some message => exact ⟨session.getElem?_remove_self peer, rfl⟩
    | priceSheet =>
      cases cbor.decodePriceSheet bytes with
      | none => exact ⟨rfl, rfl⟩
      | some sheet => exact ⟨session.getElem?_getMut_self peer _, session.getMut_actions peer _⟩
    | accept =>
      cases cbor.decodeAccept bytes with
      | none => exact ⟨rfl, rfl⟩
      | some message => exact ⟨session.getElem?_getMut_self peer _, session.getMut_actions peer _⟩
    | meteringReport =>
      cases cbor.decodeMeteringReport bytes with
      | none => exact ⟨rfl, rfl⟩
      | some report => exact ⟨session.getElem?_getMut_self peer _, session.getMut_actions peer _⟩
    | _ => exact ⟨rfl, rfl⟩

/-- A message leaves the entries of other peers as they are, and the terms too. -/
theorem messageReceived_frame (bytes : Bytes) :
    (∀ peer, other ≠ peer →
        (session.messageReceived cbor other bytes).1.peers[peer]? = session.peers[peer]?) ∧
      (session.messageReceived cbor other bytes).1.price = session.price ∧
      (session.messageReceived cbor other bytes).1.policy = session.policy := by
  have hborrow (update : PeerSession → PeerSession × List Action) :
      (∀ peer, other ≠ peer →
          (session.getMut other update).1.peers[peer]? = session.peers[peer]?) ∧
        (session.getMut other update).1.price = session.price ∧
        (session.getMut other update).1.policy = session.policy :=
    ⟨fun peer hne ↦ session.getElem?_getMut_of_ne peer other hne update,
      session.getMut_price other update, session.getMut_policy other update⟩
  have hsame : (∀ peer, other ≠ peer → session.peers[peer]? = session.peers[peer]?) ∧
      session.price = session.price ∧ session.policy = session.policy :=
    ⟨fun _ _ ↦ rfl, rfl, rfl⟩
  unfold messageReceived
  cases cbor.peekType bytes with
  | none => exact hsame
  | some type =>
    cases type with
    | bootstrapToken =>
      cases cbor.decodeBootstrapToken bytes with
      | none => exact hsame
      | some message => exact hborrow _
    | reject =>
      cases cbor.decodeReject bytes with
      | none => exact hsame
      | some message => exact hborrow _
    | disconnect =>
      cases cbor.decodeDisconnect bytes with
      | none => exact hsame
      | some message =>
        exact ⟨fun peer hne ↦ session.getElem?_remove_of_ne peer other hne, rfl, rfl⟩
    | priceSheet =>
      cases cbor.decodePriceSheet bytes with
      | none => exact hsame
      | some sheet => exact hborrow _
    | accept =>
      cases cbor.decodeAccept bytes with
      | none => exact hsame
      | some message => exact hborrow _
    | meteringReport =>
      cases cbor.decodeMeteringReport bytes with
      | none => exact hsame
      | some report => exact hborrow _
    | _ => exact hsame

/-- Assumes: an event about `peer`. It does to that entry, and emits, what the one-peer step
does. -/
theorem handle_self {event : Event} (now : Millis) (hpeer : event.peer = some peer) :
    (session.handle cbor event now).1.peers[peer]? =
        (Entry.step cbor session.price session.policy peer session.peers[peer]?
          (PeerEvent.of cbor peer (event, now))).1 ∧
      (session.handle cbor event now).2 =
        (Entry.step cbor session.price session.policy peer session.peers[peer]?
          (PeerEvent.of cbor peer (event, now))).2 := by
  cases event with
  | peerConnected other =>
    obtain rfl : other = peer := Option.some.inj hpeer
    simp only [handle, PeerEvent.of, hpeer, if_true, Entry.step]
    cases h : session.peers[other]? with
    | none => simp
    | some entry => exact ⟨h, rfl⟩
  | peerDisconnected other =>
    obtain rfl : other = peer := Option.some.inj hpeer
    simp only [handle, PeerEvent.of, hpeer, if_true, Entry.step]
    exact ⟨session.getElem?_remove_self other, rfl⟩
  | messageReceived other bytes =>
    obtain rfl : other = peer := Option.some.inj hpeer
    simp only [handle, PeerEvent.of, hpeer, if_true]
    exact session.messageReceived_self cbor other bytes
  | meterSample other counters =>
    obtain rfl : other = peer := Option.some.inj hpeer
    simp only [handle, PeerEvent.of, hpeer, if_true, Entry.step]
    exact ⟨session.getElem?_getMut_self other _, session.getMut_actions other _⟩
  | bootstrapVerified other amount ok =>
    obtain rfl : other = peer := Option.some.inj hpeer
    simp only [handle, PeerEvent.of, hpeer, if_true, Entry.step]
    exact ⟨session.getElem?_getMut_self other _, session.getMut_actions other _⟩
  | tick => exact absurd hpeer (by simp [Event.peer])

/-- An event leaves the entries of the peers it is not about as they are, and the terms too. -/
theorem handle_frame (event : Event) (now : Millis) :
    (∀ peer, event.peer ≠ some peer →
        (session.handle cbor event now).1.peers[peer]? = session.peers[peer]?) ∧
      (session.handle cbor event now).1.price = session.price ∧
      (session.handle cbor event now).1.policy = session.policy := by
  cases event with
  | peerConnected other =>
    simp only [handle]
    cases h : session.peers[other]? with
    | none =>
      refine ⟨fun peer hne ↦ ?_, rfl, rfl⟩
      have hne : other ≠ peer := fun heq ↦ hne (congrArg some heq)
      simp [ExtTreeMap.getElem?_insert, hne]
    | some entry => exact ⟨fun _ _ ↦ rfl, rfl, rfl⟩
  | peerDisconnected other =>
    refine ⟨fun peer hne ↦ session.getElem?_remove_of_ne peer other fun heq ↦ ?_, rfl, rfl⟩
    exact hne (congrArg some heq)
  | messageReceived other bytes =>
    obtain ⟨hpeers, hprice, hpolicy⟩ := session.messageReceived_frame cbor other bytes
    exact ⟨fun peer hne ↦ hpeers peer fun heq ↦ hne (congrArg some heq), hprice, hpolicy⟩
  | meterSample other counters =>
    refine ⟨fun peer hne ↦ session.getElem?_getMut_of_ne peer other (fun heq ↦ ?_) _,
      session.getMut_price other _, session.getMut_policy other _⟩
    exact hne (congrArg some heq)
  | bootstrapVerified other amount ok =>
    refine ⟨fun peer hne ↦ session.getElem?_getMut_of_ne peer other (fun heq ↦ ?_) _,
      session.getMut_price other _, session.getMut_policy other _⟩
    exact hne (congrArg some heq)
  | tick => exact ⟨fun _ _ ↦ rfl, rfl, rfl⟩

/-- What an event does to any entry, as that entry sees it. -/
theorem getElem?_handle (event : Event) (now : Millis) :
    (session.handle cbor event now).1.peers[peer]? =
      (Entry.step cbor session.price session.policy peer session.peers[peer]?
        (PeerEvent.of cbor peer (event, now))).1 := by
  by_cases hpeer : event.peer = some peer
  · exact (session.handle_self cbor peer now hpeer).1
  · rw [(session.handle_frame cbor event now).1 peer hpeer, PeerEvent.of_ne hpeer]
    rfl

/-- Every action names the peer of the event it answers. -/
theorem handle_action_peer {event : Event} {now : Millis} {action : Action}
    (haction : action ∈ (session.handle cbor event now).2) : event.peer = some action.peer := by
  cases hpeer : event.peer with
  | none =>
    cases event with
    | tick => simp [handle] at haction
    | _ => simp [Event.peer] at hpeer
  | some about =>
    rw [(session.handle_self cbor about now hpeer).2] at haction
    rw [Entry.step_peer haction]

end Session

/-- Whether an action names `peer`. -/
def Action.about (peer : PeerId) (action : Action) : Bool :=
  decide (action.peer = peer)

/-- The entry of `peer` in the session, under the given terms. -/
def HasEntry (price : Price) (policy : MeteringPolicy) (peer : PeerId) (session : Session)
    (entry : Option PeerSession) : Prop :=
  session.price = price ∧ session.policy = policy ∧ session.peers[peer]? = entry

/-- The one-peer machine is the session seen through one entry. -/
theorem entrySimulation (cbor : Minicbor) (price : Price) (policy : MeteringPolicy)
    (peer : PeerId) :
    Transducer.Simulation (Session.machine cbor) (Entry.machine cbor price policy peer)
      (PeerEvent.of cbor peer) (HasEntry price policy peer) (Action.about peer) where
  step_rel := by
    rintro session entry ⟨event, now⟩ ⟨rfl, rfl, rfl⟩
    obtain ⟨-, hprice, hpolicy⟩ := session.handle_frame cbor event now
    refine ⟨hprice, hpolicy, ?_⟩
    exact session.getElem?_handle cbor peer event now
  step_outputs := by
    rintro session entry ⟨event, now⟩ ⟨rfl, rfl, rfl⟩
    by_cases hpeer : event.peer = some peer
    · have hself := (session.handle_self cbor peer now hpeer).2
      have hall : ∀ action ∈ (session.handle cbor event now).2,
          Action.about peer action = true := by
        intro action haction
        have hname := session.handle_action_peer cbor haction
        rw [hpeer] at hname
        exact decide_eq_true (Option.some.inj hname).symm
      exact (List.filter_eq_self.mpr hall).trans hself
    · have hidle : PeerEvent.of cbor peer (event, now) = .idle := if_neg hpeer
      rw [hidle]
      refine List.filter_eq_nil_iff.mpr fun action haction habout ↦ hpeer ?_
      rw [session.handle_action_peer cbor haction, of_decide_eq_true habout]

/-- The entry a run leaves in the map is the one the one-peer machine reaches. -/
theorem getElem?_final (cbor : Minicbor) (session : Session) (peer : PeerId)
    (events : List (Event × Millis)) :
    ((Session.machine cbor).final session events).peers[peer]? =
      (Entry.machine cbor session.price session.policy peer).final session.peers[peer]?
        (events.map (PeerEvent.of cbor peer)) :=
  ((entrySimulation cbor session.price session.policy peer).final ⟨rfl, rfl, rfl⟩ events).2.2

/-- What is observed of the entry of one peer along a run is observed on the one-peer machine. -/
theorem observe_entry {α : Type*} (viewer : Option PeerSession → PeerEvent → List α)
    (cbor : Minicbor) (session : Session) (peer : PeerId) (events : List (Event × Millis)) :
    (Session.machine cbor).observe
        (fun session input ↦ viewer session.peers[peer]? (PeerEvent.of cbor peer input)) session
        events =
      (Entry.machine cbor session.price session.policy peer).observe viewer session.peers[peer]?
        (events.map (PeerEvent.of cbor peer)) :=
  (entrySimulation cbor session.price session.policy peer).observe _ viewer
    (fun _ _ _ hentry ↦ by rw [hentry.2.2]) ⟨rfl, rfl, rfl⟩ events

/-- The charges of a run are those of the one-peer machine. -/
theorem observe_charges (cbor : Minicbor) (session : Session) (peer : PeerId)
    (events : List (Event × Millis)) :
    (Session.machine cbor).observe (Session.charges cbor peer) session events =
      (Entry.machine cbor session.price session.policy peer).observe (Entry.charges session.price)
        session.peers[peer]? (events.map (PeerEvent.of cbor peer)) :=
  (entrySimulation cbor session.price session.policy peer).observe _ _
    (fun _ _ _ hentry ↦ by rw [Session.charges, hentry.2.2, hentry.1]) ⟨rfl, rfl, rfl⟩ events

/-- A condition on the entry of one peer along a run is one on the one-peer machine. -/
theorem along_entry (condition : Option PeerSession → PeerEvent → Prop) (cbor : Minicbor)
    (session : Session) (peer : PeerId) (events : List (Event × Millis)) :
    (Session.machine cbor).Along
        (fun session input ↦ condition session.peers[peer]? (PeerEvent.of cbor peer input)) session
        events ↔
      (Entry.machine cbor session.price session.policy peer).Along condition session.peers[peer]?
        (events.map (PeerEvent.of cbor peer)) :=
  (entrySimulation cbor session.price session.policy peer).along _ condition
    (fun _ _ _ hentry ↦ by rw [hentry.2.2]) ⟨rfl, rfl, rfl⟩ events

/-- A run keeps the terms. -/
theorem terms_final (cbor : Minicbor) (session : Session) (events : List (Event × Millis)) :
    ((Session.machine cbor).final session events).price = session.price ∧
      ((Session.machine cbor).final session events).policy = session.policy := by
  refine (Session.machine cbor).final_invariant
    (fun reached ↦ reached.price = session.price ∧ reached.policy = session.policy)
    (fun reached input hreached ↦ ?_) ⟨rfl, rfl⟩ events
  obtain ⟨-, hprice, hpolicy⟩ := reached.handle_frame cbor input.1 input.2
  exact ⟨hprice.trans hreached.1, hpolicy.trans hreached.2⟩

end Tollgate
