import Tollgate.Net.FirewallAgreement
import Tollgate.Net.ForwardedTraffic

/-!
# The driver over the firewall

`Driver.calls` are the calls that one call of the driver makes of its adapter, in their order. A
gateway is the driver beside the node of its host, with packets arriving between the calls. As long
as `nft` can be run, the ruleset has the driver's paid set (`Enforcing`), so packets are forwarded
for the peers that the session holds as active.
-/

set_option autoImplicit false
set_option relaxedAutoImplicit false

namespace Tollgate

namespace Driver

/-! ### The calls of the adapter -/

section Calls

variable (cbor : Minicbor) (driver : Driver)

/-- What carrying an action out asks of the adapter. -/
def adapterCalls : Action → List Node.Input
  | .setAccess peer level =>
    match driver.peerIp[peer]? with
    | some ip => [if level.allowsDelivery then Node.Input.allow ip true true
        else Node.Input.deny ip true]
    | none => []
  | .send _ _ | .startMetering _ | .stopMetering _ | .disconnect _ | .verifyBootstrapToken _ _ => []

/-- `execute` and `executeAll`, with the calls of the adapter. -/
def executor : Transducer Driver Action Node.Input where
  step driver action := (driver.execute cbor action, driver.adapterCalls action)

/-- The calls of `feed`. -/
def feedCalls (event : Event) (now : Millis) : List Node.Input :=
  (executor cbor).outputs (driver.handle cbor event now).1 (driver.handle cbor event now).2

/-- `dispatch`, with the calls of the adapter. -/
def dispatcher (answer : Option UInt64) (answeredAt : Millis) :
    Transducer Driver Action Node.Input where
  step driver action :=
    match action with
    | .verifyBootstrapToken peer _ =>
      let event := Event.bootstrapVerified peer (verifyToken answer).2 (verifyToken answer).1
      (driver.feed cbor event answeredAt, driver.feedCalls cbor event answeredAt)
    | .send _ _ | .setAccess _ _ | .startMetering _ | .stopMetering _ | .disconnect _ =>
      (driver.execute cbor action, driver.adapterCalls action)

/-- `reap`, with the calls of the adapter. -/
def reaper (now : Millis) : Transducer Driver PeerId Node.Input where
  step driver peer := (driver.reap cbor now peer,
    if driver.session.peerPhase peer = some .active then []
    else driver.feedCalls cbor (.peerDisconnected peer) now)

/-- The calls of the adapter that a call makes. -/
def calls : Call → List Node.Input
  | .peerConnected peer ip seenAt now =>
    ((driver.locate peer ip).touch peer seenAt).feedCalls cbor (.peerConnected peer) now
  | .messageReceived peer bytes seenAt now answer answeredAt =>
    let handled := (driver.touch peer seenAt).handle cbor (.messageReceived peer bytes) now
    (dispatcher cbor answer answeredAt).outputs handled.1 handled.2
  | .meter peer counters now => driver.feedCalls cbor (.meterSample peer counters) now
  | .peerDisconnected peer now => driver.feedCalls cbor (.peerDisconnected peer) now
  | .reapIdle nowMs idleMs now => (reaper cbor now).outputs driver (driver.idlePeers nowMs idleMs)

end Calls

/-! ### The paid set and the firewall -/

/-- Calls of the adapter that decide about each address as one paid set differs from the one
before. -/
def Enforced (before : Finset IpAddr) (calls : List Node.Input) (after : Finset IpAddr) : Prop :=
  ∀ ip, ip ∈ after ↔ (Node.decided calls ip).elim (ip ∈ before) (· = true)

theorem Enforced.refl (paid : Finset IpAddr) : Enforced paid [] paid :=
  fun _ ↦ Iff.rfl

theorem Enforced.append {before middle after : Finset IpAddr} {first second : List Node.Input}
    (hfirst : Enforced before first middle) (hsecond : Enforced middle second after) :
    Enforced before (first ++ second) after := by
  intro ip
  rw [hsecond, Node.decided_append]
  cases Node.decided second ip with
  | none => exact hfirst ip
  | some decided => rfl

/-- Assumes: a machine over drivers whose every step is enforced. So is every run. -/
theorem enforced_outputs {Input : Type} (machine : Transducer Driver Input Node.Input)
    (hstep : ∀ driver input, Enforced driver.paid (machine.step driver input).2
      (machine.step driver input).1.paid) (driver : Driver) (inputs : List Input) :
    Enforced driver.paid (machine.outputs driver inputs) (machine.final driver inputs).paid := by
  induction inputs generalizing driver with
  | nil => exact Enforced.refl _
  | cons input rest ih => exact (hstep driver input).append (ih _)

section Enforced

variable (cbor : Minicbor) (driver : Driver)

theorem enforced_execute (action : Action) :
    Enforced driver.paid (driver.adapterCalls action) (driver.execute cbor action).paid := by
  cases action with
  | setAccess peer level =>
    rw [adapterCalls, execute]
    cases driver.peerIp[peer]? with
    | none => exact Enforced.refl _
    | some ip =>
      intro other
      cases level.allowsDelivery <;> by_cases hsame : ip = other <;>
        simp [Node.decided, Node.Input.decision, allow, deny, hsame, eq_comm]
  | _ => exact Enforced.refl _

theorem final_executor (actions : List Action) :
    (executor cbor).final driver actions = driver.executeAll cbor actions := by
  induction actions generalizing driver with
  | nil => rfl
  | cons action rest ih => exact ih _

theorem enforced_feed (event : Event) (now : Millis) :
    Enforced driver.paid (driver.feedCalls cbor event now) (driver.feed cbor event now).paid := by
  have houtputs := enforced_outputs (executor cbor) (fun other ↦ other.enforced_execute cbor)
    (driver.handle cbor event now).1 (driver.handle cbor event now).2
  rw [final_executor] at houtputs
  exact houtputs

theorem final_dispatcher (actions : List Action) (answer : Option UInt64) (answeredAt : Millis) :
    (dispatcher cbor answer answeredAt).final driver actions =
      driver.dispatch cbor actions answer answeredAt := by
  induction actions generalizing driver with
  | nil => rfl
  | cons action rest ih =>
    rw [Transducer.final_cons, ih]
    cases action <;> rfl

theorem enforced_dispatch (actions : List Action) (answer : Option UInt64) (answeredAt : Millis) :
    Enforced driver.paid ((dispatcher cbor answer answeredAt).outputs driver actions)
      (driver.dispatch cbor actions answer answeredAt).paid := by
  rw [← final_dispatcher]
  refine enforced_outputs _ (fun other action ↦ ?_) driver actions
  cases action with
  | verifyBootstrapToken peer token => exact other.enforced_feed cbor _ answeredAt
  | send peer bytes => exact other.enforced_execute cbor (.send peer bytes)
  | setAccess peer level => exact other.enforced_execute cbor (.setAccess peer level)
  | startMetering peer => exact other.enforced_execute cbor (.startMetering peer)
  | stopMetering peer => exact other.enforced_execute cbor (.stopMetering peer)
  | disconnect peer => exact other.enforced_execute cbor (.disconnect peer)

theorem final_reaper (now : Millis) (peers : List PeerId) :
    (reaper cbor now).final driver peers = peers.foldl (reap cbor now) driver := by
  induction peers generalizing driver with
  | nil => rfl
  | cons peer rest ih => exact ih _

/-- What a call of the driver does to its paid set, its calls of the adapter do to the firewall. -/
theorem enforced_step (call : Call) :
    Enforced driver.paid (driver.calls cbor call) (driver.step cbor call).paid := by
  cases call with
  | peerConnected peer ip seenAt now =>
    have hlocated : ((driver.locate peer ip).touch peer seenAt).paid = driver.paid := by
      cases ip <;> rfl
    have hgreeted : (driver.peerConnected cbor peer ip seenAt now).paid =
        (((driver.locate peer ip).touch peer seenAt).feed cbor (.peerConnected peer) now).paid := by
      rw [peerConnected]
      split_ifs <;> rfl
    show Enforced driver.paid _ (driver.peerConnected cbor peer ip seenAt now).paid
    rw [hgreeted, ← hlocated]
    exact enforced_feed cbor _ (.peerConnected peer) now
  | messageReceived peer bytes seenAt now answer answeredAt =>
    exact enforced_dispatch cbor
      ((driver.touch peer seenAt).handle cbor (.messageReceived peer bytes) now).1 _ answer
      answeredAt
  | meter peer counters now => exact driver.enforced_feed cbor _ now
  | peerDisconnected peer now => exact driver.enforced_feed cbor (.peerDisconnected peer) now
  | reapIdle nowMs idleMs now =>
    have hreap := enforced_outputs (reaper cbor now) (fun other peer ↦ ?_) driver
      (driver.idlePeers nowMs idleMs)
    · rw [final_reaper] at hreap
      exact hreap
    · show Enforced other.paid (if _ then _ else _) (other.reap cbor now peer).paid
      rw [reap]
      split_ifs
      · exact Enforced.refl _
      · exact other.enforced_feed cbor (.peerDisconnected peer) now

end Enforced

end Driver

/-! ### The gateway -/

/-- A driver and the node of its host. -/
structure Gateway (Ruleset : Type) where
  driver : Driver
  node : Node Ruleset

namespace Gateway

/-- A call of the driver, a poll of an upstream's counter, or a packet. -/
inductive Input
  | call (call : Driver.Call)
  | ensureUpstreamCounter (ip : IpAddr) (arpTable : Option String) (runs : Bool)
  | receive (packet : Packet) (transit : Bool)

section Runs

variable {Ruleset : Type} {cbor : Minicbor} {nft : Netfilter Ruleset}
  {meaning : Ruleset → Option Policing}

/-- A gateway over its inputs; it puts out what it forwards. -/
def machine (cbor : Minicbor) (nft : Netfilter Ruleset) :
    Transducer (Gateway Ruleset) Input Packet where
  step gateway
    | .call call =>
      (⟨gateway.driver.step cbor call,
        (Node.machine nft).final gateway.node (gateway.driver.calls cbor call)⟩, [])
    | .ensureUpstreamCounter ip arpTable runs =>
      (⟨gateway.driver, gateway.node.ensureUpstreamCounter nft runs arpTable ip⟩, [])
    | .receive packet transit =>
      let received := (Node.machine nft).step gateway.node (.receive packet transit)
      (⟨gateway.driver, received.1⟩, received.2)

/-- `main`: a new driver, and the firewall with its forward chain. -/
def start (nft : Netfilter Ruleset) (price : Price) (announce priceSheet : Bytes)
    (ruleset : Ruleset) : Gateway Ruleset where
  driver := Driver.new price announce priceSheet
  node := Node.init nft ruleset true true

/-- The node enacts a firewall that enforces, with the driver's paid set. -/
def Enforcing (meaning : Ruleset → Option Policing) (gateway : Gateway Ruleset) : Prop :=
  ∃ policing : Policing, gateway.node.Enacts meaning policing ∧ policing.forwarding = true ∧
    policing.paid = gateway.driver.paid

/-- Assumes: calls of the adapter that decide as the paid set changes. The node enforces after
them. -/
theorem Enforcing.calls (hnft : nft.Documented meaning) {gateway : Gateway Ruleset}
    (henforcing : gateway.Enforcing meaning) {calls : List Node.Input} {driver : Driver}
    (henforced : Driver.Enforced gateway.driver.paid calls driver.paid) :
    (Gateway.mk driver ((Node.machine nft).final gateway.node calls)).Enforcing meaning := by
  obtain ⟨policing, henacts, hforwarding, hpaid⟩ := henforcing
  obtain ⟨after, hafter, hstill, hdecided⟩ := henacts.final hnft calls
  refine ⟨after, hafter, hstill.trans hforwarding, ?_⟩
  ext ip
  rw [hdecided, henforced, hpaid]

theorem Enforcing.step (hnft : nft.Documented meaning) {gateway : Gateway Ruleset}
    (henforcing : gateway.Enforcing meaning) (input : Input) :
    ((machine cbor nft).step gateway input).1.Enforcing meaning := by
  have hundecided {input : Node.Input} (hnone : ∀ ip, input.decision ip = none) :
      Driver.Enforced gateway.driver.paid [input] gateway.driver.paid := by
    intro ip
    simp [Node.decided, hnone]
  cases input with
  | call call => exact henforcing.calls hnft (gateway.driver.enforced_step cbor call)
  | ensureUpstreamCounter ip arpTable runs =>
    exact henforcing.calls hnft
      (@hundecided (.ensureUpstreamCounter ip arpTable runs) fun _ ↦ rfl)
  | receive packet transit =>
    exact henforcing.calls hnft (@hundecided (.receive packet transit) fun _ ↦ rfl)

theorem enforcing_start (hnft : nft.Documented meaning) (price : Price)
    (announce priceSheet : Bytes) (ruleset : Ruleset) :
    (start nft price announce priceSheet ruleset).Enforcing meaning :=
  ⟨Policing.start true, Node.enacts_init hnft ruleset true, rfl, rfl⟩

/-- An enforcing gateway forwards what is established, or from or to a paid address. -/
theorem Enforcing.forwards (hnft : nft.Documented meaning) {gateway : Gateway Ruleset}
    (henforcing : gateway.Enforcing meaning) (packet : Packet) :
    nft.forwards gateway.node.ruleset packet = true ↔
      packet.tracked = true ∨ packet.source ∈ gateway.driver.paid ∨
        packet.destination ∈ gateway.driver.paid := by
  obtain ⟨policing, henacts, hforwarding, hpaid⟩ := henforcing
  rw [hnft.forwards henacts.means, Policing.Admits, hforwarding, hpaid]
  simp

/-- The call that an input is, if it is one. -/
def Input.toCall : Input → Option Driver.Call
  | .call made => some made
  | .ensureUpstreamCounter _ _ _ | .receive _ _ => none

/-- No active peer abandons its address, loses it to a neighbour's end, or moves to one that is not
paid. -/
def Orderly (cbor : Minicbor) (gateway : Gateway Ruleset) (input : Input) : Prop :=
  ∀ call, input.toCall = some call → ¬ gateway.driver.AbandonsAddress call ∧
    ¬ gateway.driver.CutsNeighbour cbor call ∧ ¬ gateway.driver.MovesUnpaid call

/-- The current address of some active peer. -/
def Paying (driver : Driver) (ip : IpAddr) : Prop :=
  ∃ peer, driver.peerIp[peer]? = some ip ∧ driver.session.peerPhase peer = some .active

/-- The driver takes no notice of the packets. -/
theorem final_driver (gateway : Gateway Ruleset) (inputs : List Input) :
    ((machine cbor nft).final gateway inputs).driver =
      (Driver.machine cbor).final gateway.driver (inputs.filterMap Input.toCall) := by
  induction inputs generalizing gateway with
  | nil => rfl
  | cons input rest ih =>
    rw [Transducer.final_cons, ih]
    cases input <;> rfl

/-- Assumes: nobody is active. Any input is orderly. -/
theorem orderly_of_inactive {gateway : Gateway Ruleset}
    (hinactive : ∀ peer, gateway.driver.session.peerPhase peer ≠ some .active) (input : Input) :
    Orderly cbor gateway input := by
  refine fun call _ ↦ ⟨?_, ?_, ?_⟩
  · rintro ⟨peer, _, _, _, _, _, hactive, -⟩
    exact hinactive peer hactive
  · rintro ⟨_, other, _, _, _, hactive, -⟩
    exact hinactive other hactive
  · rintro ⟨peer, _, _, _, _, hactive, -⟩
    exact hinactive peer hactive

end Runs

end Gateway

end Tollgate
