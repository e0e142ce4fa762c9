import Tollgate.Core.MeteringAgreement
import Tollgate.Library.Gatekeeper
import Tollgate.Net.Driver

/-!
# The driver and its firewall

`driver.rs` with everything it keeps beside the session: the queues, the address book, the time each
peer was last heard from, the metered set, and the paid set of the firewall adapter. Sessions are
keyed by public key, the firewall by address; an announce overwrites the address of its key.

The calls are sequential here: a message that carries a token runs through the wallet's answer
before the next call. `Driver.gate` is the driver as a gate over keys and addresses, and `gate_step`
says what each call does to it.
-/

set_option autoImplicit false
set_option relaxedAutoImplicit false

namespace Tollgate

open Std

/-- A source address. -/
inductive IpAddr
  | v4 (octets : Vector UInt8 4)
  | v6 (octets : Vector UInt8 16)
  deriving DecidableEq

/-- The driver's state. `announce` and `priceSheet` are what it says about itself; the paid set is
the adapter's. -/
structure Driver where
  session : Session
  outbox : ExtTreeMap PeerId (List Bytes)
  peerIp : ExtTreeMap PeerId IpAddr
  lastSeen : ExtTreeMap PeerId Millis
  metered : Finset PeerId
  paid : Finset IpAddr
  announce : Bytes
  priceSheet : Bytes

namespace Driver

def new (price : Price) (announce priceSheet : Bytes) : Driver where
  session := Session.new.setPrice price
  outbox := ∅
  peerIp := ∅
  lastSeen := ∅
  metered := ∅
  paid := ∅
  announce := announce
  priceSheet := priceSheet

section Calls

variable (cbor : Minicbor) (driver : Driver)

/-- Queue a body for a peer. -/
def enqueue (peer : PeerId) (message : Bytes) : Driver :=
  { driver with
    outbox := driver.outbox.insert peer
      (Tollgate.enqueue cbor (driver.outbox[peer]?.getD []) message) }

/-- Permit an address to forward. -/
def allow (ip : IpAddr) : Driver :=
  { driver with paid := insert ip driver.paid }

/-- Revoke an address. -/
def deny (ip : IpAddr) : Driver :=
  { driver with paid := driver.paid.erase ip }

/-- Carry an action out. Access is enforced at the address that the peer has now, and not at all
without one; token verification is handled by `dispatch`. -/
def execute : Action → Driver
  | .setAccess peer level =>
    match driver.peerIp[peer]? with
    | some ip => if level.allowsDelivery then driver.allow ip else driver.deny ip
    | none => driver
  | .send peer bytes => driver.enqueue cbor peer bytes
  | .startMetering peer => { driver with metered := insert peer driver.metered }
  | .stopMetering peer => { driver with metered := driver.metered.erase peer }
  | .disconnect _ => driver
  | .verifyBootstrapToken _ _ => driver

/-- Carry actions out in their order. -/
def executeAll (actions : List Action) : Driver :=
  actions.foldl (execute cbor) driver

/-- Run one event through the session. -/
def handle (event : Event) (now : Millis) : Driver × List Action :=
  let handled := driver.session.handle cbor event now
  ({ driver with session := handled.1 }, handled.2)

/-- Run one event through the session and carry its actions out. -/
def feed (event : Event) (now : Millis) : Driver :=
  let handled := driver.handle cbor event now
  handled.1.executeAll cbor handled.2

/-- The wallet's answer as the session hears it; a token that is not text is refused too. -/
def verifyToken (answer : Option UInt64) : Bool × UInt64 :=
  match answer with
  | some amount => (true, amount)
  | none => (false, 0)

/-- Carry actions out, asking the wallet where one verifies a token and feeding the answer back. -/
def dispatch (actions : List Action) (answer : Option UInt64) (answeredAt : Millis) : Driver :=
  actions.foldl (fun driver action ↦
    match action with
    | .verifyBootstrapToken peer _ =>
      let verdict := verifyToken answer
      driver.feed cbor (.bootstrapVerified peer verdict.2 verdict.1) answeredAt
    | .send _ _ | .setAccess _ _ | .startMetering _ | .stopMetering _ | .disconnect _ =>
      driver.execute cbor action) driver

/-- We just heard from a peer. -/
def touch (peer : PeerId) (seenAt : Millis) : Driver :=
  { driver with lastSeen := driver.lastSeen.insert peer seenAt }

/-- Note the address a peer announced from. -/
def locate (peer : PeerId) (ip : Option IpAddr) : Driver :=
  match ip with
  | some ip => { driver with peerIp := driver.peerIp.insert peer ip }
  | none => driver

/-- Feed a meter reading in. -/
def meter (peer : PeerId) (counters : Counters) (now : Millis) : Driver :=
  driver.feed cbor (.meterSample peer counters) now

/-- A peer announced itself, maybe from a known address: answer with our own announce, and with our
prices if we sell anything. -/
def peerConnected (peer : PeerId) (ip : Option IpAddr) (seenAt now : Millis) : Driver :=
  let connected := ((driver.locate peer ip).touch peer seenAt).feed cbor (.peerConnected peer) now
  let greeted := connected.enqueue cbor peer driver.announce
  if driver.priceSheet.isEmpty then greeted else greeted.enqueue cbor peer driver.priceSheet

/-- Drop what the driver keeps about a peer beside the session. -/
def forget (peer : PeerId) : Driver :=
  { driver with
    peerIp := driver.peerIp.erase peer
    lastSeen := driver.lastSeen.erase peer
    metered := driver.metered.erase peer
    outbox := driver.outbox.erase peer }

/-- A peer disconnected: revoke at the address it still has, then forget it. -/
def peerDisconnected (peer : PeerId) (now : Millis) : Driver :=
  (driver.feed cbor (.peerDisconnected peer) now).forget peer

/-- A message arrived; the wallet's answer is there for a token. -/
def messageReceived (peer : PeerId) (bytes : Bytes) (seenAt now : Millis)
    (answer : Option UInt64) (answeredAt : Millis) : Driver :=
  let handled := (driver.touch peer seenAt).handle cbor (.messageReceived peer bytes) now
  handled.1.dispatch cbor handled.2 answer answeredAt

/-- The peers not heard from for at least `idleMs`. -/
def idlePeers (nowMs idleMs : UInt64) : List PeerId :=
  (driver.lastSeen.toList.filter fun seen ↦
    decide (idleMs ≤ nowMs.saturatingSub seen.2)).map Prod.fst

/-- Tear a peer down unless it is active. -/
def reap (now : Millis) (driver : Driver) (peer : PeerId) : Driver :=
  if driver.session.peerPhase peer = some .active then driver
  else driver.peerDisconnected cbor peer now

/-- One sweep: tear down every idle peer that is not active. -/
def reapIdle (nowMs idleMs : UInt64) (now : Millis) : Driver :=
  (driver.idlePeers nowMs idleMs).foldl (reap cbor now) driver

end Calls

/-- A call of the driver, with what it reads of the outside: the clock and the wallet's answer. -/
inductive Call
  | peerConnected (peer : PeerId) (ip : Option IpAddr) (seenAt now : Millis)
  | messageReceived (peer : PeerId) (bytes : Bytes) (seenAt now : Millis) (answer : Option UInt64)
      (answeredAt : Millis)
  | meter (peer : PeerId) (counters : Counters) (now : Millis)
  | peerDisconnected (peer : PeerId) (now : Millis)
  | reapIdle (nowMs idleMs : UInt64) (now : Millis)

/-- What a call does to the driver. -/
def step (cbor : Minicbor) (driver : Driver) : Call → Driver
  | .peerConnected peer ip seenAt now => driver.peerConnected cbor peer ip seenAt now
  | .messageReceived peer bytes seenAt now answer answeredAt =>
    driver.messageReceived cbor peer bytes seenAt now answer answeredAt
  | .meter peer counters now => driver.meter cbor peer counters now
  | .peerDisconnected peer now => driver.peerDisconnected cbor peer now
  | .reapIdle nowMs idleMs now => driver.reapIdle cbor nowMs idleMs now

/-- The driver as a machine over its calls; what it says, it says through its queues. -/
def machine (cbor : Minicbor) : Transducer Driver Call Empty where
  step driver call := (driver.step cbor call, [])

@[simp] theorem machine_step (cbor : Minicbor) (driver : Driver) (call : Call) :
    ((machine cbor).step driver call).1 = driver.step cbor call := rfl

/-! ### Carrying actions out -/

section Execute

variable (cbor : Minicbor) (driver : Driver)

/-- An action changes neither the session nor the address book nor the times. -/
theorem execute_frame (action : Action) :
    (driver.execute cbor action).session = driver.session ∧
      (driver.execute cbor action).peerIp = driver.peerIp ∧
      (driver.execute cbor action).lastSeen = driver.lastSeen := by
  cases action with
  | setAccess peer level =>
    simp only [execute]
    cases driver.peerIp[peer]? with
    | none => exact ⟨rfl, rfl, rfl⟩
    | some ip =>
      simp only
      split_ifs <;> exact ⟨rfl, rfl, rfl⟩
  | _ => exact ⟨rfl, rfl, rfl⟩

theorem executeAll_frame (actions : List Action) :
    (driver.executeAll cbor actions).session = driver.session ∧
      (driver.executeAll cbor actions).peerIp = driver.peerIp ∧
      (driver.executeAll cbor actions).lastSeen = driver.lastSeen := by
  induction actions generalizing driver with
  | nil => exact ⟨rfl, rfl, rfl⟩
  | cons action rest ih =>
    obtain ⟨hsession, hpeerIp, hlastSeen⟩ := ih (driver.execute cbor action)
    obtain ⟨hsession', hpeerIp', hlastSeen'⟩ := driver.execute_frame cbor action
    exact ⟨hsession.trans hsession', hpeerIp.trans hpeerIp', hlastSeen.trans hlastSeen'⟩

/-- One action about `peer` opens or shuts the address of `peer`, as it decides. -/
theorem mem_paid_execute {peer : PeerId} {action : Action} (hpeer : action.peer = peer)
    (ip : IpAddr) :
    (driver.peerIp[peer]? = some ip → (ip ∈ (driver.execute cbor action).paid ↔
        (action.accessFor peer).elim (ip ∈ driver.paid) fun level ↦ level.allowsDelivery = true)) ∧
      (driver.peerIp[peer]? ≠ some ip →
        (ip ∈ (driver.execute cbor action).paid ↔ ip ∈ driver.paid)) := by
  cases action with
  | setAccess other level =>
    obtain rfl : other = peer := hpeer
    constructor
    · intro hip
      simp only [execute, hip, Action.accessFor, if_true, Option.elim_some]
      cases hlevel : level.allowsDelivery <;> simp [allow, deny]
    · intro hip
      simp only [execute]
      split
      case h_1 place haddress =>
        have hplace : ip ≠ place := by
          rintro rfl
          exact hip haddress
        cases hlevel : level.allowsDelivery <;> simp [allow, deny, hplace]
      case h_2 => rfl
  | _ => exact ⟨fun _ ↦ Iff.rfl, fun _ ↦ Iff.rfl⟩

/-- Actions about `peer` open or shut its address as the last of them decides. -/
theorem mem_paid_executeAll {peer : PeerId} {actions : List Action}
    (hpeer : ∀ action ∈ actions, action.peer = peer) (ip : IpAddr) :
    (driver.peerIp[peer]? = some ip → (ip ∈ (driver.executeAll cbor actions).paid ↔
        (lastAccess peer actions).elim (ip ∈ driver.paid) fun level ↦
          level.allowsDelivery = true)) ∧
      (driver.peerIp[peer]? ≠ some ip →
        (ip ∈ (driver.executeAll cbor actions).paid ↔ ip ∈ driver.paid)) := by
  induction actions generalizing driver with
  | nil => exact ⟨fun _ ↦ Iff.rfl, fun _ ↦ Iff.rfl⟩
  | cons action rest ih =>
    have hlast : lastAccess peer (action :: rest) =
        (lastAccess peer rest).or (action.accessFor peer) := by
      rw [← List.singleton_append, lastAccess_append]
      congr 1
      unfold lastAccess
      cases hlevel : action.accessFor peer <;> simp [hlevel]
    obtain ⟨hsame, hother⟩ := ih (driver.execute cbor action)
      (fun later hlater ↦ hpeer later (List.mem_cons_of_mem _ hlater))
    obtain ⟨hsame', hother'⟩ :=
      driver.mem_paid_execute cbor (hpeer action List.mem_cons_self) ip
    rw [(driver.execute_frame cbor action).2.1] at hsame hother
    constructor
    · intro hip
      refine (hsame hip).trans ?_
      rw [hlast]
      cases lastAccess peer rest with
      | none => exact hsame' hip
      | some level => exact Iff.rfl
    · exact fun hip ↦ (hother hip).trans (hother' hip)

end Execute

/-! ### The driver as a gate -/

/-- The driver as a gate: keys at their addresses, the active ones, and the paid addresses. -/
def gate (driver : Driver) : Gate PeerId IpAddr where
  address peer := driver.peerIp[peer]?
  active peer := driver.session.peerPhase peer = some .active
  opened := {ip | ip ∈ driver.paid}

section Gate

variable {cbor : Minicbor} {driver : Driver} {peer : PeerId} {event : Event} {now : Millis}

/-- What the session holds of the peers after an event. -/
theorem session_feed : (driver.feed cbor event now).session =
    (driver.session.handle cbor event now).1 :=
  (executeAll_frame cbor _ _).1

theorem peerIp_feed : (driver.feed cbor event now).peerIp = driver.peerIp :=
  (executeAll_frame cbor _ _).2.1

/-- An event leaves the other peers as active as they were. -/
theorem active_feed_of_ne {other : PeerId} (hpeer : event.peer ≠ some other) :
    (driver.feed cbor event now).gate.active other ↔ driver.gate.active other := by
  simp only [gate, Session.peerPhase, session_feed,
    (driver.session.handle_frame cbor event now).1 other hpeer]

/-- An event opens or shuts the address of its peer as it decides, and no other address. -/
theorem mem_paid_feed (hpeer : event.peer = some peer) (ip : IpAddr) :
    (driver.peerIp[peer]? = some ip → (ip ∈ (driver.feed cbor event now).paid ↔
        (lastAccess peer (driver.session.handle cbor event now).2).elim (ip ∈ driver.paid)
          fun level ↦ level.allowsDelivery = true)) ∧
      (driver.peerIp[peer]? ≠ some ip →
        (ip ∈ (driver.feed cbor event now).paid ↔ ip ∈ driver.paid)) := by
  refine mem_paid_executeAll cbor (driver.handle cbor event now).1 (fun action haction ↦ ?_) ip
  have hname := driver.session.handle_action_peer cbor haction
  rw [hpeer] at hname
  exact (Option.some.inj hname).symm

/-- Assumes: an event that decides nothing about the access of its peer, and that is no token. The
gate is as before. -/
theorem gate_feed_of_none (hpeer : event.peer = some peer)
    (hnone : lastAccess peer (driver.session.handle cbor event now).2 = none)
    (htoken : ¬ ∃ message, PeerEvent.of cbor peer (event, now) = .token message) :
    (driver.feed cbor event now).gate = driver.gate := by
  have hself := driver.session.handle_self cbor peer now hpeer
  have hactive : (driver.feed cbor event now).gate.active peer ↔ driver.gate.active peer := by
    simp only [gate, peerPhase_eq_active_iff, session_feed, hself.1]
    rcases @Entry.access_step cbor driver.session.price driver.session.policy peer
        driver.session.peers[peer]? (PeerEvent.of cbor peer (event, now)) with
      ⟨-, hsame⟩ | ⟨level, hsome, -⟩
    · rw [hsame]
      exact and_iff_left htoken
    · rw [hself.2, hsome] at hnone
      exact absurd hnone (by simp)
  refine Gate.ext ?_ ?_ ?_
  · funext other
    simp only [gate, peerIp_feed]
  · funext other
    by_cases hother : other = peer
    · rw [hother]
      exact propext hactive
    · refine propext (active_feed_of_ne ?_)
      rw [hpeer]
      exact fun heq ↦ hother (Option.some.inj heq).symm
  · refine Set.ext fun ip ↦ ?_
    obtain ⟨hsame, hother⟩ := @mem_paid_feed cbor driver peer event now hpeer ip
    rw [hnone] at hsame
    by_cases hip : driver.peerIp[peer]? = some ip
    · exact hsame hip
    · exact hother hip

/-- Assumes: an event that sets the access of its peer. The gate decides about the peer. -/
theorem gate_feed_of_some (hpeer : event.peer = some peer) {level : AccessLevel}
    (hsome : lastAccess peer (driver.session.handle cbor event now).2 = some level) :
    (driver.feed cbor event now).gate = driver.gate.decide peer level.allowsDelivery := by
  have hself := driver.session.handle_self cbor peer now hpeer
  have hactive : (driver.feed cbor event now).gate.active peer ↔ level.allowsDelivery = true := by
    simp only [gate, peerPhase_eq_active_iff, session_feed, hself.1]
    rcases @Entry.access_step cbor driver.session.price driver.session.policy peer
        driver.session.peers[peer]? (PeerEvent.of cbor peer (event, now)) with
      ⟨hnone, -⟩ | ⟨same, hsame, hlevel, -⟩
    · rw [hself.2, hnone] at hsome
      exact absurd hsome (by simp)
    · rw [hself.2, hsame] at hsome
      rw [← hlevel, Option.some.inj hsome]
  refine Gate.ext ?_ ?_ ?_
  · funext other
    simp only [gate, peerIp_feed, Gate.address_decide]
  · funext other
    by_cases hother : other = peer
    · rw [hother]
      exact propext (hactive.trans (Gate.active_decide_self _).symm)
    · refine propext ((active_feed_of_ne ?_).trans (Gate.active_decide_of_ne hother _).symm)
      rw [hpeer]
      exact fun heq ↦ hother (Option.some.inj heq).symm
  · refine Set.ext fun ip ↦ ?_
    obtain ⟨hsame, hother⟩ := @mem_paid_feed cbor driver peer event now hpeer ip
    rw [hsome] at hsame
    by_cases hip : driver.peerIp[peer]? = some ip
    · exact (hsame hip).trans (Gate.mem_opened_decide_self hip _).symm
    · have haddress : driver.gate.address peer ≠ some ip := hip
      exact (hother hip).trans (Gate.mem_opened_decide_other haddress _).symm

/-! ### What each call does to the gate -/

variable {seenAt : Millis}

theorem gate_forget : (driver.forget peer).gate = driver.gate.forget peer := by
  refine Gate.ext (funext fun other ↦ ?_) rfl rfl
  by_cases hother : other = peer
  · rw [hother, Gate.address_forget_self]
    simp [gate, forget]
  · rw [Gate.address_forget_of_ne hother]
    simp [gate, forget, ExtTreeMap.getElem?_erase, Ne.symm hother]

/-- Noting an address moves the key to it. -/
theorem gate_locate (ip : Option IpAddr) :
    (driver.locate peer ip).gate = ip.elim driver.gate (driver.gate.move peer) := by
  cases ip with
  | none => rfl
  | some ip =>
    refine Gate.ext (funext fun other ↦ ?_) rfl rfl
    rw [Option.elim_some]
    by_cases hother : other = peer
    · rw [hother, Gate.address_move_self]
      simp [gate, locate]
    · rw [Gate.address_move_of_ne hother]
      simp [gate, locate, ExtTreeMap.getElem?_insert, Ne.symm hother]

/-- A disconnect drops the peer. -/
theorem gate_peerDisconnected :
    (driver.peerDisconnected cbor peer now).gate = driver.gate.drop peer := by
  have hsome : lastAccess peer (driver.session.handle cbor (.peerDisconnected peer) now).2 =
      some .none := by
    simp [Session.handle, Session.remove, Action.accessFor]
  rw [peerDisconnected, gate_forget, gate_feed_of_some rfl hsome]
  rfl

/-- A peer's first announce blocks the address it comes from; a later one only moves the key. -/
theorem gate_peerConnected (ip : Option IpAddr) :
    (driver.peerConnected cbor peer ip seenAt now).gate =
      if driver.session.peerPhase peer = none then
        (ip.elim driver.gate (driver.gate.move peer)).decide peer false
      else ip.elim driver.gate (driver.gate.move peer) := by
  set located := (driver.locate peer ip).touch peer seenAt with hlocated
  have hgate : located.gate = ip.elim driver.gate (driver.gate.move peer) := gate_locate ip
  have hsession : located.session = driver.session := by
    rw [hlocated]
    cases ip <;> rfl
  have hgreeted : (driver.peerConnected cbor peer ip seenAt now).gate =
      (located.feed cbor (.peerConnected peer) now).gate := by
    simp only [peerConnected, ← hlocated]
    split_ifs <;> rfl
  rw [hgreeted, ← hgate]
  cases hentry : driver.session.peers[peer]? with
  | none =>
    have hsome : lastAccess peer (located.session.handle cbor (.peerConnected peer) now).2 =
        some .none := by
      simp [hsession, Session.handle, hentry, Action.accessFor]
    rw [gate_feed_of_some rfl hsome, if_pos (by simp [Session.peerPhase, hentry])]
    rfl
  | some entry =>
    have hnone : lastAccess peer (located.session.handle cbor (.peerConnected peer) now).2 =
        none := by
      simp [hsession, Session.handle, hentry]
    rw [gate_feed_of_none rfl hnone (by simp), if_neg (by simp [Session.peerPhase, hentry])]

/-- The sample suspends the peer. -/
def MeterCuts (driver : Driver) (peer : PeerId) (counters : Counters) (now : Millis) : Prop :=
  ∃ entry, driver.session.peers[peer]? = some entry ∧ entry.phase = .active ∧
    entry.lastCounters.isSome = true ∧
    entry.cut counters driver.session.price driver.session.policy now = true

open Classical in
/-- A sample blocks the peer that it suspends, and does nothing else to the gate. -/
theorem gate_meter (counters : Counters) :
    (driver.meter cbor peer counters now).gate =
      if driver.MeterCuts peer counters now then driver.gate.decide peer false
      else driver.gate := by
  have hself := driver.session.handle_self cbor peer now
    (rfl : (Event.meterSample peer counters).peer = some peer)
  rw [PeerEvent.of_meterSample] at hself
  split_ifs with hcuts
  · obtain ⟨entry, hentry, hphase, hread, hcut⟩ := hcuts
    have hsome : lastAccess peer
        (driver.session.handle cbor (.meterSample peer counters) now).2 = some .suspended := by
      rw [hself.2, hentry, Entry.step_sample_charge cbor _ _ peer hphase hread,
        Entry.lastAccess_chargeSample, if_pos hcut]
    rw [meter, gate_feed_of_some rfl hsome]
    rfl
  · have hnone : lastAccess peer
        (driver.session.handle cbor (.meterSample peer counters) now).2 = none := by
      rw [hself.2]
      cases hentry : driver.session.peers[peer]? with
      | none => rfl
      | some entry =>
        by_cases hphase : entry.phase = .active
        · cases hlast : entry.lastCounters with
          | none =>
            rw [Entry.step_sample_baseline cbor _ _ peer hphase hlast]
            rfl
          | some last =>
            have hread : entry.lastCounters.isSome = true := by simp [hlast]
            rw [Entry.step_sample_charge cbor _ _ peer hphase hread,
              Entry.lastAccess_chargeSample, if_neg]
            exact fun hcut ↦ hcuts ⟨entry, hentry, hphase, hread, hcut⟩
        · rw [Entry.step_sample_inactive cbor _ _ peer hphase]
          rfl
    exact gate_feed_of_none rfl hnone (by simp)

/-- Without a token to verify, dispatching actions is carrying them out. -/
theorem dispatch_eq_executeAll {actions : List Action}
    (hplain : ∀ action ∈ actions, ∀ peer token, action ≠ .verifyBootstrapToken peer token)
    (answer : Option UInt64) (answeredAt : Millis) :
    driver.dispatch cbor actions answer answeredAt = driver.executeAll cbor actions := by
  induction actions generalizing driver with
  | nil => rfl
  | cons action rest ih =>
    have hrest := fun later hlater ↦ hplain later (List.mem_cons_of_mem _ hlater)
    have hfirst := hplain action List.mem_cons_self
    cases action with
    | verifyBootstrapToken peer token => exact absurd rfl (hfirst peer token)
    | _ => exact ih hrest

/-- A message that is no token is one event. -/
theorem messageReceived_eq_feed {bytes : Bytes}
    (hplain : ∀ message, PeerEvent.ofMessage cbor bytes ≠ .token message)
    (answer : Option UInt64) (answeredAt : Millis) :
    driver.messageReceived cbor peer bytes seenAt now answer answeredAt =
      (driver.touch peer seenAt).feed cbor (.messageReceived peer bytes) now := by
  refine dispatch_eq_executeAll (fun action haction other token hverify ↦ ?_) answer answeredAt
  have hself := driver.session.handle_self cbor peer now
    (rfl : (Event.messageReceived peer bytes).peer = some peer)
  have hmem : Action.verifyBootstrapToken other token ∈
      (driver.session.handle cbor (.messageReceived peer bytes) now).2 := by
    rw [← hverify]
    exact haction
  rw [hself.2, PeerEvent.of_messageReceived] at hmem
  obtain ⟨message, htoken⟩ := Entry.token_of_verify hmem
  exact hplain message htoken

/-- A verdict on a tracked peer decides about it. -/
theorem lastAccess_verdict {session : Session} (htracked : (session.peerPhase peer).isSome = true)
    (answer : Option UInt64) :
    lastAccess peer (session.handle cbor (.bootstrapVerified peer (verifyToken answer).2
        (verifyToken answer).1) now).2 =
      some (if answer.isSome then .active else .none) := by
  rw [Session.peerPhase, Option.isSome_map] at htracked
  obtain ⟨entry, hentry⟩ := Option.isSome_iff_exists.mp htracked
  cases answer <;>
    simp [Session.handle, Session.getMut, hentry, verifyToken, PeerSession.bootstrapVerified,
      Action.accessFor]

/-- A token of a tracked peer leads to a decision: the wallet's. -/
theorem gate_token {bytes : Bytes} {message : BootstrapToken}
    (htoken : PeerEvent.ofMessage cbor bytes = .token message)
    (htracked : (driver.session.peerPhase peer).isSome = true) (answer : Option UInt64)
    (answeredAt : Millis) :
    (driver.messageReceived cbor peer bytes seenAt now answer answeredAt).gate =
      driver.gate.decide peer answer.isSome := by
  have hself := driver.session.handle_self cbor peer now
    (rfl : (Event.messageReceived peer bytes).peer = some peer)
  rw [PeerEvent.of_messageReceived, htoken] at hself
  rw [Session.peerPhase, Option.isSome_map] at htracked
  obtain ⟨entry, hentry⟩ := Option.isSome_iff_exists.mp htracked
  rw [hentry] at hself
  set handled := (driver.touch peer seenAt).handle cbor (.messageReceived peer bytes) now
    with hhandled
  have hactions : handled.2 = [.verifyBootstrapToken peer message.token] := hself.2
  have hsession : handled.1.session =
      (driver.session.handle cbor (.messageReceived peer bytes) now).1 := rfl
  have hpending : (handled.1.session.peerPhase peer).isSome = true := by
    rw [Session.peerPhase, Option.isSome_map, hsession, hself.1]
    rfl
  have hmessage : driver.messageReceived cbor peer bytes seenAt now answer answeredAt =
      handled.1.feed cbor (.bootstrapVerified peer (verifyToken answer).2
        (verifyToken answer).1) answeredAt := by
    simp only [messageReceived, ← hhandled, hactions]
    rfl
  rw [hmessage, gate_feed_of_some rfl (lastAccess_verdict hpending answer)]
  have hlevel : (if answer.isSome = true then AccessLevel.active else .none).allowsDelivery =
      answer.isSome := by
    cases answer <;> rfl
  rw [hlevel]
  apply Gate.decide_congr
  · rfl
  · rfl
  · intro other hother
    simp only [gate, Session.peerPhase, hsession]
    rw [(driver.session.handle_frame cbor (.messageReceived peer bytes) now).1 other]
    exact fun heq ↦ hother (Option.some.inj heq).symm

/-- The message takes the access of its sender: a refused token of a tracked peer, a rejection by an
active one, or a goodbye. -/
def MessageRevokes (cbor : Minicbor) (driver : Driver) (peer : PeerId) (bytes : Bytes)
    (answer : Option UInt64) : Prop :=
  (∃ message, PeerEvent.ofMessage cbor bytes = .token message ∧
      (driver.session.peerPhase peer).isSome = true ∧ answer = none) ∨
    (PeerEvent.ofMessage cbor bytes = .reject ∧
      driver.session.peerPhase peer = some .active) ∨
    PeerEvent.ofMessage cbor bytes = .disconnected

/-- The message is an accepted token of a tracked peer. -/
def MessageAdmits (cbor : Minicbor) (driver : Driver) (peer : PeerId) (bytes : Bytes)
    (answer : Option UInt64) : Prop :=
  ∃ message, PeerEvent.ofMessage cbor bytes = .token message ∧
    (driver.session.peerPhase peer).isSome = true ∧ answer.isSome = true

/-- An accepted token revokes nothing. -/
theorem not_revokes_of_admits {bytes : Bytes} {answer : Option UInt64}
    (hadmits : driver.MessageAdmits cbor peer bytes answer) :
    ¬ driver.MessageRevokes cbor peer bytes answer := by
  obtain ⟨message, htoken, -, haccepted⟩ := hadmits
  rintro (⟨-, -, -, hrefused⟩ | ⟨hreject, -⟩ | hgone)
  · rw [hrefused] at haccepted
    exact absurd haccepted (by simp)
  · rw [htoken] at hreject
    exact absurd hreject (by simp)
  · rw [htoken] at hgone
    exact absurd hgone (by simp)

/-- What a message other than a token decides about its sender. -/
theorem lastAccess_message {bytes : Bytes}
    (hplain : ∀ message, PeerEvent.ofMessage cbor bytes ≠ .token message) :
    (driver.MessageRevokes cbor peer bytes none ∧
        lastAccess peer (driver.session.handle cbor (.messageReceived peer bytes) now).2 =
          some .none) ∨
      (¬ driver.MessageRevokes cbor peer bytes none ∧
        lastAccess peer (driver.session.handle cbor (.messageReceived peer bytes) now).2 =
          none) := by
  have hself := (driver.session.handle_self cbor peer now
    (rfl : (Event.messageReceived peer bytes).peer = some peer)).2
  rw [PeerEvent.of_messageReceived] at hself
  rw [hself]
  have hsender := PeerEvent.ofMessage_ne cbor bytes
  unfold MessageRevokes
  cases hseen : PeerEvent.ofMessage cbor bytes with
  | token message => exact absurd hseen (hplain message)
  | sample counters now => exact absurd hseen (hsender.1 counters now)
  | verified amount ok now => exact absurd hseen (hsender.2.1 amount ok now)
  | connected => exact absurd hseen hsender.2.2
  | disconnected =>
    refine Or.inl ⟨by simp, ?_⟩
    simp [Entry.step, Action.accessFor]
  | reject =>
    simp only [Session.peerPhase]
    cases hentry : driver.session.peers[peer]? with
    | none => exact Or.inr ⟨by simp, rfl⟩
    | some entry =>
      by_cases hactive : entry.phase = .active
      · refine Or.inl ⟨by simp [hactive], ?_⟩
        have hclosed : entry.phase ≠ .closed := by simp [hactive]
        simp [Entry.step, PeerSession.receiveReject, hactive, Action.accessFor]
      · refine Or.inr ⟨by simp [hactive], ?_⟩
        simp only [Entry.step, Entry.getMut_some, PeerSession.receiveReject, if_neg hactive]
        split_ifs <;> rfl
  | _ => cases driver.session.peers[peer]? <;> exact Or.inr ⟨by simp, rfl⟩

/-- A message that revokes blocks its sender, an accepted token admits it, and any other message
leaves the gate as it is. -/
theorem gate_messageReceived (bytes : Bytes) (answer : Option UInt64) (answeredAt : Millis) :
    (driver.MessageRevokes cbor peer bytes answer ∧
        (driver.messageReceived cbor peer bytes seenAt now answer answeredAt).gate =
          driver.gate.decide peer false) ∨
      (driver.MessageAdmits cbor peer bytes answer ∧
        (driver.messageReceived cbor peer bytes seenAt now answer answeredAt).gate =
          driver.gate.decide peer true) ∨
      (¬ driver.MessageRevokes cbor peer bytes answer ∧
        (driver.messageReceived cbor peer bytes seenAt now answer answeredAt).gate =
          driver.gate) := by
  by_cases htoken : ∃ message, PeerEvent.ofMessage cbor bytes = .token message
  · obtain ⟨message, htoken⟩ := htoken
    by_cases htracked : (driver.session.peerPhase peer).isSome = true
    · have hgate := @gate_token cbor driver peer now seenAt bytes message htoken htracked answer
        answeredAt
      cases answer with
      | none => exact Or.inl ⟨Or.inl ⟨message, htoken, htracked, rfl⟩, hgate⟩
      | some amount => exact Or.inr (Or.inl ⟨⟨message, htoken, htracked, rfl⟩, hgate⟩)
    · -- A token of an untracked peer is not even verified.
      refine Or.inr (Or.inr ⟨?_, ?_⟩)
      · rintro (⟨-, -, hcontra, -⟩ | ⟨hreject, -⟩ | hgone)
        · exact htracked hcontra
        · rw [htoken] at hreject
          exact absurd hreject (by simp)
        · rw [htoken] at hgone
          exact absurd hgone (by simp)
      · have huntracked : driver.session.peers[peer]? = none := by
          rw [Session.peerPhase, Option.isSome_map] at htracked
          simpa using htracked
        obtain ⟨hpeek, hdecode⟩ := PeerEvent.ofMessage_eq_token_iff.mp htoken
        have hhandle : driver.session.handle cbor (.messageReceived peer bytes) now =
            (driver.session, []) := by
          simp only [Session.handle, Session.messageReceived, hpeek, hdecode, Session.getMut,
            huntracked]
        simp only [messageReceived, handle, touch, hhandle, dispatch, List.foldl_nil]
        rfl
  · have hplain : ∀ message, PeerEvent.ofMessage cbor bytes ≠ .token message :=
      fun message heq ↦ htoken ⟨message, heq⟩
    have hrevokes : driver.MessageRevokes cbor peer bytes answer ↔
        driver.MessageRevokes cbor peer bytes none := by
      unfold MessageRevokes
      simp [hplain]
    have hnotoken : ¬ ∃ message,
        PeerEvent.of cbor peer (.messageReceived peer bytes, now) = .token message := by
      rw [PeerEvent.of_messageReceived]
      exact htoken
    rw [messageReceived_eq_feed hplain, hrevokes]
    rcases @lastAccess_message cbor (driver.touch peer seenAt) peer now bytes hplain with
      ⟨hblocks, hsome⟩ | ⟨hquiet, hnone⟩
    · exact Or.inl ⟨hblocks, gate_feed_of_some rfl hsome⟩
    · exact Or.inr (Or.inr ⟨hquiet, gate_feed_of_none rfl hnone hnotoken⟩)

/-! ### The reaper -/

/-- The idle peers that a sweep tears down. -/
def reaped (driver : Driver) (nowMs idleMs : UInt64) : List PeerId :=
  (driver.idlePeers nowMs idleMs).filter fun peer ↦
    decide (driver.session.peerPhase peer ≠ some .active)

/-- Tearing down a peer that is not active leaves the active peers as they were. -/
theorem active_peerDisconnected (hidle : driver.session.peerPhase peer ≠ some .active)
    (other : PeerId) :
    (driver.peerDisconnected cbor peer now).session.peerPhase other = some .active ↔
      driver.session.peerPhase other = some .active := by
  have hdrop := @Gate.active_drop PeerId IpAddr _ driver.gate peer hidle other
  rwa [← @gate_peerDisconnected cbor driver peer now] at hdrop

/-- Reaping a list of peers drops those that are not active. -/
theorem gate_foldl_reap (peers : List PeerId) :
    (peers.foldl (reap cbor now) driver).gate =
      (peers.filter fun peer ↦ decide (driver.session.peerPhase peer ≠ some .active)).foldl
        Gate.drop driver.gate := by
  induction peers generalizing driver with
  | nil => rfl
  | cons first rest ih =>
    rw [List.foldl_cons, reap]
    by_cases hactive : driver.session.peerPhase first = some .active
    · rw [if_pos hactive, ih, List.filter_cons_of_neg (by simpa using hactive)]
    · have hsame : (rest.filter fun peer ↦ decide
          ((driver.peerDisconnected cbor first now).session.peerPhase peer ≠ some .active)) =
          rest.filter fun peer ↦ decide (driver.session.peerPhase peer ≠ some .active) := by
        refine List.filter_congr fun peer _ ↦ ?_
        simp only [ne_eq, active_peerDisconnected hactive peer]
      rw [if_neg hactive, ih, hsame, List.filter_cons_of_pos (by simpa using hactive),
        List.foldl_cons, gate_peerDisconnected]

/-- A sweep drops the idle peers that are not active. -/
theorem gate_reapIdle (nowMs idleMs : UInt64) :
    (driver.reapIdle cbor nowMs idleMs now).gate =
      (driver.reaped nowMs idleMs).foldl Gate.drop driver.gate :=
  gate_foldl_reap _

end Gate

end Driver

end Tollgate
