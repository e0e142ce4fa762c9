import Tollgate.Core.ExactBilling
import Tollgate.Library.Polling
import Tollgate.Net.GatewayTraffic

/-!
# The metering loop

`spawn_metering` beside the gateway. A round takes down the metered peers that have an address; then
it reads the counters of each address and feeds the reading to the session. Calls of the driver,
packets and polls of upstreams fall between any two of these steps, between a reading and its sample
too. The counters that a reading finds are the traffic so far (`Fits.final`), and the readings that
reach the session never go back (`fed_pairwise`).
-/

set_option autoImplicit false
set_option relaxedAutoImplicit false

namespace Tollgate

/-! ### The events of a call -/

namespace Driver

/-- The wallet's answers to a list of actions, as the session hears them. -/
def verdicts (answer : Option UInt64) (answeredAt : Millis) (actions : List Action) :
    List (Event × Millis) :=
  actions.filterMap fun action ↦
    match action with
    | .verifyBootstrapToken peer _ =>
      some (.bootstrapVerified peer (verifyToken answer).2 (verifyToken answer).1, answeredAt)
    | .send _ _ | .setAccess _ _ | .startMetering _ | .stopMetering _ | .disconnect _ => none

variable (cbor : Minicbor) (driver : Driver)

/-- What a call feeds to the session. -/
def events : Call → List (Event × Millis)
  | .peerConnected peer _ _ now => [(.peerConnected peer, now)]
  | .messageReceived peer bytes _ now answer answeredAt =>
    (.messageReceived peer bytes, now) ::
      verdicts answer answeredAt (driver.session.handle cbor (.messageReceived peer bytes) now).2
  | .meter peer counters now => [(.meterSample peer counters, now)]
  | .peerDisconnected peer now => [(.peerDisconnected peer, now)]
  | .reapIdle nowMs idleMs now =>
    (driver.reaped nowMs idleMs).map fun peer ↦ (.peerDisconnected peer, now)

theorem session_dispatch (actions : List Action) (answer : Option UInt64) (answeredAt : Millis) :
    (driver.dispatch cbor actions answer answeredAt).session =
      (Session.machine cbor).final driver.session (verdicts answer answeredAt actions) := by
  induction actions generalizing driver with
  | nil => rfl
  | cons action rest ih =>
    cases action with
    | verifyBootstrapToken peer token =>
      refine (ih _).trans ?_
      rw [session_feed]
      rfl
    | send peer bytes => exact ih (driver.execute cbor (.send peer bytes))
    | setAccess peer level =>
      refine (ih (driver.execute cbor (.setAccess peer level))).trans ?_
      rw [(driver.execute_frame cbor (.setAccess peer level)).1]
      rfl
    | startMetering peer => exact ih (driver.execute cbor (.startMetering peer))
    | stopMetering peer => exact ih (driver.execute cbor (.stopMetering peer))
    | disconnect peer => exact ih (driver.execute cbor (.disconnect peer))

theorem session_foldl_reap (now : Millis) (peers : List PeerId) :
    (peers.foldl (reap cbor now) driver).session =
      (Session.machine cbor).final driver.session
        ((peers.filter fun peer ↦ decide (driver.session.peerPhase peer ≠ some .active)).map
          fun peer ↦ (.peerDisconnected peer, now)) := by
  induction peers generalizing driver with
  | nil => rfl
  | cons first rest ih =>
    rw [List.foldl_cons, reap]
    by_cases hactive : driver.session.peerPhase first = some .active
    · rw [if_pos hactive, ih, List.filter_cons_of_neg (by simpa using hactive)]
    · have hsame : (rest.filter fun peer ↦ decide
          ((driver.peerDisconnected cbor first now).session.peerPhase peer ≠ some .active)) =
          rest.filter fun peer ↦ decide (driver.session.peerPhase peer ≠ some .active) := by
        refine List.filter_congr fun peer _ ↦ ?_
        simp only [ne_eq, active_peerDisconnected hactive peer]
      rw [if_neg hactive, ih, hsame, List.filter_cons_of_pos (by simpa using hactive),
        List.map_cons, Transducer.final_cons]
      congr 1
      exact session_feed

/-- A call does to the session what its events do. -/
theorem session_step (call : Call) :
    (driver.step cbor call).session =
      (Session.machine cbor).final driver.session (driver.events cbor call) := by
  cases call with
  | peerConnected peer ip seenAt now =>
    have hlocated : ((driver.locate peer ip).touch peer seenAt).session = driver.session := by
      cases ip <;> rfl
    have hgreeted : (driver.peerConnected cbor peer ip seenAt now).session =
        (((driver.locate peer ip).touch peer seenAt).feed cbor (.peerConnected peer) now).session :=
      by rw [peerConnected]; split_ifs <;> rfl
    refine hgreeted.trans ?_
    rw [session_feed, hlocated]
    rfl
  | messageReceived peer bytes seenAt now answer answeredAt => exact session_dispatch cbor _ _ _ _
  | meter peer counters now => exact session_feed
  | peerDisconnected peer now => exact session_feed
  | reapIdle nowMs idleMs now => exact session_foldl_reap cbor driver now _

/-- The input is no packet. -/
def Uncounted : Node.Input → Prop
  | .receive _ _ => False
  | .allow _ _ _ | .deny _ _ | .ensureUpstreamCounter _ _ _ => True

theorem uncounted_of_mem_adapterCalls (action : Action) :
    ∀ input ∈ driver.adapterCalls action, Uncounted input := by
  intro input hinput
  cases action with
  | setAccess peer level =>
    rw [adapterCalls] at hinput
    cases haddress : driver.peerIp[peer]? with
    | none =>
      rw [haddress] at hinput
      exact absurd hinput List.not_mem_nil
    | some ip =>
      simp only [haddress, List.mem_singleton] at hinput
      subst hinput
      split_ifs <;> exact trivial
  | _ => exact absurd hinput List.not_mem_nil

theorem uncounted_of_mem_feedCalls (event : Event) (now : Millis) :
    ∀ input ∈ driver.feedCalls cbor event now, Uncounted input :=
  Transducer.forall_mem_observe _
    (fun other action ↦ other.uncounted_of_mem_adapterCalls action) _ _

/-- No call of the adapter is a packet. -/
theorem uncounted_of_mem_calls (call : Call) :
    ∀ input ∈ driver.calls cbor call, Uncounted input := by
  cases call with
  | peerConnected peer ip seenAt now =>
    exact uncounted_of_mem_feedCalls cbor _ (.peerConnected peer) now
  | messageReceived peer bytes seenAt now answer answeredAt =>
    refine Transducer.forall_mem_observe _ (fun reached action ↦ ?_) _ _
    cases action with
    | verifyBootstrapToken other token =>
      exact uncounted_of_mem_feedCalls cbor reached _ answeredAt
    | send other bytes => exact uncounted_of_mem_adapterCalls reached (.send other bytes)
    | setAccess other level => exact uncounted_of_mem_adapterCalls reached (.setAccess other level)
    | startMetering other => exact uncounted_of_mem_adapterCalls reached (.startMetering other)
    | stopMetering other => exact uncounted_of_mem_adapterCalls reached (.stopMetering other)
    | disconnect other => exact uncounted_of_mem_adapterCalls reached (.disconnect other)
  | meter peer counters now => exact uncounted_of_mem_feedCalls cbor driver _ now
  | peerDisconnected peer now => exact uncounted_of_mem_feedCalls cbor driver _ now
  | reapIdle nowMs idleMs now =>
    refine Transducer.forall_mem_observe _ (fun other peer ↦ ?_) _ _
    show ∀ input ∈ (if other.session.peerPhase peer = some .active then [] else
      other.feedCalls cbor (.peerDisconnected peer) now), Uncounted input
    split_ifs
    · exact fun input hinput ↦ absurd hinput List.not_mem_nil
    · exact uncounted_of_mem_feedCalls cbor other _ now

end Driver

/-! ### The loop -/

/-- A gateway and its metering loop: the peers of the round that are still to be read, and the
reading that is on its way to the session. -/
structure MeteredGateway (Ruleset : Type) where
  gateway : Gateway Ruleset
  round : List (PeerId × IpAddr)
  reading : Option (PeerId × Counters)

namespace MeteredGateway

/-- A step of the loop, or anything else that happens to the gateway. `nft` may fail to list its
counters, then there is no output. -/
inductive Input
  | gateway (input : Gateway.Input)
  | tick
  | read (output : Option String)
  | meter (now : Millis)

/-- The peers of a round: those that are metered and have an address. -/
def metered (driver : Driver) : List (PeerId × IpAddr) :=
  driver.peerIp.toList.filter fun located ↦ decide (located.1 ∈ driver.metered)

/-- The peer whose address the loop reads next. -/
def due {Ruleset : Type} (state : MeteredGateway Ruleset) : Option (PeerId × IpAddr) :=
  if state.reading.isSome then none else state.round.head?

section Machine

variable {Ruleset : Type} (cbor : Minicbor) (nft : Netfilter Ruleset)
  (fromStr : String → Option Json)

/-- The gateway with its loop. A tick waits for the round before it, and each peer of a round for
the sample of the peer before it. -/
def machine : Transducer (MeteredGateway Ruleset) Input Packet where
  step state
    | .gateway input =>
      let stepped := (Gateway.machine cbor nft).step state.gateway input
      ({ state with gateway := stepped.1 }, stepped.2)
    | .tick =>
      (if state.reading = none ∧ state.round = [] then
        { state with round := metered state.gateway.driver }
      else state, [])
    | .read output =>
      (match state.due with
      | some (peer, ip) =>
        { state with
          round := state.round.tail
          reading := some (peer, readCounters fromStr output ip) }
      | none => state, [])
    | .meter now =>
      (match state.reading with
      | some (peer, counters) =>
        { state with
          gateway :=
            ((Gateway.machine cbor nft).step state.gateway
              (.call (.meter peer counters now))).1
          reading := none }
      | none => state, [])

/-- A new gateway whose loop has not begun. -/
def start (price : Price) (announce priceSheet : Bytes) (ruleset : Ruleset) :
    MeteredGateway Ruleset where
  gateway := Gateway.start nft price announce priceSheet ruleset
  round := []
  reading := none

end Machine

section Inputs

variable {Ruleset : Type}

/-- What an input feeds to the session. -/
def events (cbor : Minicbor) (state : MeteredGateway Ruleset) : Input → List (Event × Millis)
  | .gateway (.call call) => state.gateway.driver.events cbor call
  | .meter now =>
    match state.reading with
    | some (peer, counters) => [(.meterSample peer counters, now)]
    | none => []
  | .gateway (.ensureUpstreamCounter _ _ _) | .gateway (.receive _ _) | .tick | .read _ => []

/-- The bytes that an input adds to what is counted at an address. -/
def traffic (ip : IpAddr) (side : Side) (state : MeteredGateway Ruleset) : Input → List ℕ
  | .gateway (.receive packet transit) =>
    Node.countedBytes ip side state.gateway.node (.receive packet transit)
  | .gateway (.call _) | .gateway (.ensureUpstreamCounter _ _ _) | .tick | .read _ | .meter _ => []

theorem due_eq {state : MeteredGateway Ruleset} {next : PeerId × IpAddr}
    (hdue : state.due = some next) :
    state.reading = none ∧ ∃ rest, state.round = next :: rest := by
  unfold due at hdue
  split_ifs at hdue with hbusy
  exact ⟨Option.not_isSome_iff_eq_none.mp hbusy, List.head?_eq_some_iff.mp hdue⟩

end Inputs

section Runs

variable {Ruleset : Type} {cbor : Minicbor} {nft : Netfilter Ruleset}
  {meaning : Ruleset → Option Policing} {fromStr : String → Option Json}

/-- The session after a run is where the events of the run take it. -/
theorem session_final (state : MeteredGateway Ruleset) (inputs : List Input) :
    ((machine cbor nft fromStr).final state inputs).gateway.driver.session =
      (Session.machine cbor).final state.gateway.driver.session
        ((machine cbor nft fromStr).observe (events cbor) state inputs) := by
  induction inputs generalizing state with
  | nil => rfl
  | cons input rest ih =>
    rw [Transducer.final_cons, ih, Transducer.observe_cons, Transducer.final_append]
    congr 1
    cases input with
    | gateway input =>
      cases input with
      | call call => exact state.gateway.driver.session_step cbor call
      | ensureUpstreamCounter ip arpTable runs => rfl
      | receive packet transit => rfl
    | tick =>
      simp only [machine, events]
      split_ifs <;> rfl
    | read output =>
      simp only [machine, events]
      split <;> rfl
    | meter now =>
      simp only [machine, events]
      cases state.reading with
      | none => rfl
      | some reading => exact Driver.session_feed

/-! ### The counters -/

/-- What the firewall's counter of an address shows. -/
def shown (meaning : Ruleset → Option Policing) (ip : IpAddr) (side : Side)
    (state : MeteredGateway Ruleset) : UInt64 :=
  ((meaning state.gateway.node.ruleset).map fun policing ↦
    policing.total (ip.counterName side)).getD 0

/-- The node enacts a firewall that counts. -/
def Tallied (meaning : Ruleset → Option Policing) (state : MeteredGateway Ruleset) : Prop :=
  ∃ policing : Policing, state.gateway.node.Enacts meaning policing ∧ policing.Counted

theorem tallied_start (hnft : nft.Documented meaning) (price : Price)
    (announce priceSheet : Bytes) (ruleset : Ruleset) :
    (start nft price announce priceSheet ruleset).Tallied meaning :=
  ⟨_, Node.enacts_init hnft ruleset true, Policing.counted_start true⟩

theorem shown_start (hnft : nft.Documented meaning) (price : Price) (announce priceSheet : Bytes)
    (ruleset : Ruleset) (ip : IpAddr) (side : Side) :
    (start nft price announce priceSheet ruleset).shown meaning ip side = 0 := by
  have hmeans := (Node.enacts_init hnft ruleset true).means
  rw [shown, start, Gateway.start, hmeans]
  rfl

/-- What a step of the node does: it still counts, and its traffic is added. -/
theorem Tallied.node (hnft : nft.Documented meaning) {state : MeteredGateway Ruleset}
    (htallied : state.Tallied meaning) (inputs : List Node.Input) {next : MeteredGateway Ruleset}
    (hnext : next.gateway.node = (Node.machine nft).final state.gateway.node inputs) :
    next.Tallied meaning ∧ ∀ ip side, next.shown meaning ip side = state.shown meaning ip side +
      UInt64.ofNat ((Node.machine nft).observe (Node.countedBytes ip side) state.gateway.node
        inputs).sum := by
  obtain ⟨policing, henacts, hcounted⟩ := htallied
  obtain ⟨after, hafter, hstill, htotal, -⟩ := henacts.final_counted hnft hcounted inputs
  rw [← hnext] at hafter
  refine ⟨⟨after, hafter, hstill⟩, fun ip side ↦ ?_⟩
  simp only [shown, hafter.means, henacts.means, Option.map_some, Option.getD_some]
  exact htotal ip side

theorem observe_uncounted {inputs : List Node.Input}
    (huncounted : ∀ input ∈ inputs, Driver.Uncounted input) (ip : IpAddr) (side : Side)
    (node : Node Ruleset) :
    (Node.machine nft).observe (Node.countedBytes ip side) node inputs = [] := by
  induction inputs generalizing node with
  | nil => rfl
  | cons input rest ih =>
    have hnone : node.countedBytes ip side input = [] := by
      have hinput := huncounted input List.mem_cons_self
      cases input with
      | receive packet transit => exact hinput.elim
      | _ => rfl
    rw [Transducer.observe_cons, hnone, List.nil_append]
    exact ih (fun later hlater ↦ huncounted later (List.mem_cons_of_mem _ hlater)) _

/-- What one input adds to the counters of an address. -/
theorem Tallied.step (hnft : nft.Documented meaning) {state : MeteredGateway Ruleset}
    (htallied : state.Tallied meaning) (input : Input) :
    ((machine cbor nft fromStr).step state input).1.Tallied meaning ∧
      ∀ ip side, ((machine cbor nft fromStr).step state input).1.shown meaning ip side =
        state.shown meaning ip side + UInt64.ofNat (state.traffic ip side input).sum := by
  have hquiet {next : MeteredGateway Ruleset} {inputs : List Node.Input}
      (huncounted : ∀ input ∈ inputs, Driver.Uncounted input)
      (hnext : next.gateway.node = (Node.machine nft).final state.gateway.node inputs) :
      next.Tallied meaning ∧ ∀ ip side, next.shown meaning ip side =
        state.shown meaning ip side + UInt64.ofNat 0 := by
    obtain ⟨hnext, hshown⟩ := htallied.node hnft inputs hnext
    refine ⟨hnext, fun ip side ↦ ?_⟩
    rw [hshown, observe_uncounted huncounted]
    rfl
  have hidle {next : MeteredGateway Ruleset} (hnext : next.gateway = state.gateway) :
      next.Tallied meaning ∧ ∀ ip side, next.shown meaning ip side =
        state.shown meaning ip side + UInt64.ofNat 0 :=
    @hquiet next [] (fun _ hmem ↦ absurd hmem List.not_mem_nil) (by rw [hnext]; rfl)
  cases input with
  | gateway input =>
    cases input with
    | call call => exact hquiet (state.gateway.driver.uncounted_of_mem_calls cbor call) rfl
    | ensureUpstreamCounter ip arpTable runs =>
      exact @hquiet _ [.ensureUpstreamCounter ip arpTable runs]
        (fun _ hmem ↦ by obtain rfl := List.mem_singleton.mp hmem; exact trivial) rfl
    | receive packet transit =>
      obtain ⟨hnext, hshown⟩ := @Tallied.node _ _ _ hnft _ htallied [.receive packet transit]
        ((machine cbor nft fromStr).step state (.gateway (.receive packet transit))).1 rfl
      refine ⟨hnext, fun ip side ↦ (hshown ip side).trans ?_⟩
      rw [Transducer.observe_cons, Transducer.observe_nil, List.append_nil]
      rfl
  | tick =>
    refine hidle ?_
    simp only [machine]
    split_ifs <;> rfl
  | read output =>
    refine hidle ?_
    simp only [machine]
    split <;> rfl
  | meter now =>
    cases hreading : state.reading with
    | none =>
      refine hidle ?_
      simp only [machine, hreading]
    | some reading =>
      obtain ⟨peer, counters⟩ := reading
      refine hquiet (state.gateway.driver.uncounted_of_mem_calls cbor (.meter peer counters now)) ?_
      simp only [machine, hreading]
      rfl

/-! ### Readings -/

/-- `nft` could be run, and printed the counters of the ruleset. -/
def Prints (meaning : Ruleset → Option Policing) (fromStr : String → Option Json)
    (state : MeteredGateway Ruleset) (output : Option String) : Prop :=
  ∃ stdout, output = some stdout ∧ Lists meaning fromStr state.gateway.node.ruleset stdout

theorem Prints.readCounters_shown {state : MeteredGateway Ruleset}
    (htallied : state.Tallied meaning) {output : Option String}
    (hprints : state.Prints meaning fromStr output) (ip : IpAddr) :
    readCounters fromStr output ip =
      ⟨state.shown meaning ip .daddr, state.shown meaning ip .saddr⟩ := by
  obtain ⟨stdout, rfl, hlists⟩ := hprints
  obtain ⟨policing, henacts, -⟩ := htallied
  rw [hlists.readCounters henacts.means]
  simp only [shown, henacts.means, Option.map_some, Option.getD_some]

/-- What a metering session supposes of an input: the loop alone feeds readings of the peer, a new
round finds it at no other address, and its counters are listed when they are read. -/
def Undisturbed (meaning : Ruleset → Option Policing) (fromStr : String → Option Json)
    (peer : PeerId) (ip : IpAddr) (state : MeteredGateway Ruleset) : Input → Prop
  | .gateway input => ∀ counters now, input ≠ .call (.meter peer counters now)
  | .tick => ∀ other, state.gateway.driver.peerIp[peer]? = some other → other = ip
  | .read output => ∀ other, state.due = some (peer, other) → state.Prints meaning fromStr output
  | .meter _ => True

/-- The round reads the peer at no other address. -/
def Located (peer : PeerId) (ip : IpAddr) (state : MeteredGateway Ruleset) : Prop :=
  ∀ other, (peer, other) ∈ state.round → other = ip

theorem Located.step {peer : PeerId} {ip : IpAddr} {state : MeteredGateway Ruleset}
    (hlocated : state.Located peer ip) {input : Input}
    (hundisturbed : state.Undisturbed meaning fromStr peer ip input) :
    ((machine cbor nft fromStr).step state input).1.Located peer ip := by
  cases input with
  | gateway input => exact hlocated
  | tick =>
    simp only [machine]
    split_ifs with hidle
    · intro other hother
      have hmem := List.mem_of_mem_filter hother
      exact hundisturbed other (Std.ExtTreeMap.mem_toList_iff_getElem?_eq_some.mp hmem)
    · exact hlocated
  | read output =>
    simp only [machine]
    split
    · exact fun other hother ↦ hlocated other (List.mem_of_mem_tail hother)
    · exact hlocated
  | meter now =>
    simp only [machine]
    split
    · exact hlocated
    · exact hlocated

/-- A reading as two numbers. -/
def amounts (counters : Counters) : ℕ × ℕ :=
  (counters.delivered.toNat, counters.received.toNat)

/-- What the counters of an address show, as two numbers. -/
def counted (meaning : Ruleset → Option Policing) (ip : IpAddr)
    (state : MeteredGateway Ruleset) : ℕ × ℕ :=
  ((state.shown meaning ip .daddr).toNat, (state.shown meaning ip .saddr).toNat)

/-- The reading of the peer that is on its way to the session. -/
def held (peer : PeerId) (state : MeteredGateway Ruleset) : Option (ℕ × ℕ) :=
  (state.reading.filter fun reading ↦ decide (reading.1 = peer)).map fun reading ↦
    amounts reading.2

/-- The readings of the peer that an input feeds to the session. -/
def fed (cbor : Minicbor) (peer : PeerId) (state : MeteredGateway Ruleset) (input : Input) :
    List (ℕ × ℕ) :=
  (readings cbor peer (state.events cbor input)).map fun reading ↦ amounts reading.1

theorem readings_append (cbor : Minicbor) (peer : PeerId) (first second : List (Event × Millis)) :
    readings cbor peer (first ++ second) =
      readings cbor peer first ++ readings cbor peer second := by
  simp [readings]

theorem readings_eq_nil {peer : PeerId} {events : List (Event × Millis)}
    (hnone : ∀ counters now, (Event.meterSample peer counters, now) ∉ events) :
    readings cbor peer events = [] := by
  refine List.filterMap_eq_nil_iff.mpr fun event hevent ↦ ?_
  obtain ⟨input, hinput, rfl⟩ := List.mem_map.mp hevent
  cases hview : PeerEvent.of cbor peer input with
  | sample counters now =>
    rw [PeerEvent.of_eq_sample_iff] at hview
    exact absurd (hview ▸ hinput) (hnone counters now)
  | _ => rfl

/-- The only call that feeds a reading is `meter`. -/
theorem eq_meter_of_mem_events {driver : Driver} {call : Driver.Call} {peer : PeerId}
    {counters : Counters} {now : Millis}
    (hmem : (Event.meterSample peer counters, now) ∈ driver.events cbor call) :
    call = .meter peer counters now := by
  cases call with
  | peerConnected other ip seenAt at_ => simp [Driver.events] at hmem
  | messageReceived other bytes seenAt at_ answer answeredAt =>
    rcases List.mem_cons.mp hmem with heq | hmem
    · exact absurd heq (by simp)
    · obtain ⟨action, -, haction⟩ := List.mem_filterMap.mp hmem
      cases action <;> simp at haction
  | meter other reading at_ =>
    simp only [Driver.events, List.mem_singleton, Prod.mk.injEq, Event.meterSample.injEq] at hmem
    obtain ⟨⟨rfl, rfl⟩, rfl⟩ := hmem
    rfl
  | peerDisconnected other at_ => simp [Driver.events] at hmem
  | reapIdle nowMs idleMs at_ => simp [Driver.events] at hmem

/-- The traffic of a run at an address still fits its counters. -/
def Fits (meaning : Ruleset → Option Policing) (cbor : Minicbor) (nft : Netfilter Ruleset)
    (fromStr : String → Option Json) (ip : IpAddr) (state : MeteredGateway Ruleset)
    (inputs : List Input) : Prop :=
  ∀ side, (state.shown meaning ip side).toNat +
    ((machine cbor nft fromStr).observe (traffic ip side) state inputs).sum < 2 ^ 64

/-- Assumes: traffic that fits the counters. They show what they showed before and the traffic. -/
theorem Fits.cons (hnft : nft.Documented meaning)
    {state : MeteredGateway Ruleset} (htallied : state.Tallied meaning) {ip : IpAddr}
    {input : Input} {rest : List Input}
    (hfits : state.Fits meaning cbor nft fromStr ip (input :: rest)) :
    (∀ side, (((machine cbor nft fromStr).step state input).1.shown meaning ip side).toNat =
        (state.shown meaning ip side).toNat + (state.traffic ip side input).sum) ∧
      ((machine cbor nft fromStr).step state input).1.Fits meaning cbor nft fromStr ip
        rest := by
  have hshown (side : Side) :
      (((machine cbor nft fromStr).step state input).1.shown meaning ip side).toNat =
        (state.shown meaning ip side).toNat + (state.traffic ip side input).sum := by
    have hfits' := hfits side
    rw [Transducer.observe_cons, List.sum_append] at hfits'
    rw [(htallied.step hnft input).2, UInt64.toNat_add, UInt64.toNat_ofNat']
    omega
  refine ⟨hshown, fun side ↦ ?_⟩
  have hfits' := hfits side
  rw [Transducer.observe_cons, List.sum_append] at hfits'
  rw [hshown]
  omega

/-- Assumes: traffic that fits the counters. After the run they show what they showed before and
the traffic. -/
theorem Fits.final (hnft : nft.Documented meaning)
    {state : MeteredGateway Ruleset} (htallied : state.Tallied meaning) {ip : IpAddr}
    {inputs : List Input} (hfits : state.Fits meaning cbor nft fromStr ip inputs) (side : Side) :
    (((machine cbor nft fromStr).final state inputs).shown meaning ip side).toNat =
      (state.shown meaning ip side).toNat +
        ((machine cbor nft fromStr).observe (traffic ip side) state inputs).sum := by
  induction inputs generalizing state with
  | nil => simp
  | cons input rest ih =>
    obtain ⟨hshown, hrest⟩ := hfits.cons hnft htallied
    rw [Transducer.final_cons, ih (htallied.step hnft input).1 hrest, hshown,
      Transducer.observe_cons, List.sum_append, Nat.add_assoc]

/-- Assumes: an input of a metering session. The loop polls the counters of the address. -/
theorem polls_step (hnft : nft.Documented meaning)
    {state : MeteredGateway Ruleset} (htallied : state.Tallied meaning) {peer : PeerId}
    {ip : IpAddr} (hlocated : state.Located peer ip) {input : Input} {rest : List Input}
    (hfits : state.Fits meaning cbor nft fromStr ip (input :: rest))
    (hundisturbed : state.Undisturbed meaning fromStr peer ip input) :
    (machine cbor nft fromStr).Polls (counted meaning ip) (held peer) (fed cbor peer) state
      input := by
  obtain ⟨hshown, -⟩ := hfits.cons hnft htallied
  refine ⟨⟨by simp [counted, hshown], by simp [counted, hshown]⟩, ?_⟩
  have hkeep {handed : List (ℕ × ℕ)} {after : Option (ℕ × ℕ)} (hhanded : handed = [])
      (hafter : after = state.held peer) :
      PollStep (state.counted meaning ip) (state.held peer) handed after := by
    rw [hhanded, hafter]
    exact .keep _
  cases input with
  | gateway input =>
    refine hkeep ?_ rfl
    cases input with
    | call call =>
      refine List.map_eq_nil_iff.mpr (readings_eq_nil fun counters now hmem ↦ ?_)
      exact hundisturbed counters now (congrArg _ (eq_meter_of_mem_events hmem))
    | ensureUpstreamCounter ip arpTable runs => rfl
    | receive packet transit => rfl
  | tick =>
    refine hkeep rfl ?_
    simp only [machine]
    split_ifs <;> rfl
  | read output =>
    have hnothing : state.fed cbor peer (.read output) = [] := rfl
    cases hdue : state.due with
    | none =>
      refine hkeep rfl ?_
      simp only [machine, hdue]
    | some next =>
      obtain ⟨other, place⟩ := next
      obtain ⟨hfree, rest, hround⟩ := due_eq hdue
      have hheld : state.held peer = none := by simp [held, hfree]
      rw [hnothing, hheld]
      simp only [machine, hdue, held, Option.filter_some]
      by_cases hsame : other = peer
      · subst hsame
        rw [hlocated place (hround ▸ List.mem_cons_self),
          (hundisturbed place hdue).readCounters_shown htallied]
        have htake :
            PollStep (state.counted meaning ip) none [] (some (state.counted meaning ip)) := .take
        simpa [counted, amounts] using htake
      · have hkept : PollStep (state.counted meaning ip) none [] none := .keep none
        simpa [hsame] using hkept
  | meter now =>
    cases hreading : state.reading with
    | none =>
      refine hkeep ?_ ?_
      · simp only [fed, events, hreading]
        rfl
      · simp only [machine, hreading]
    | some reading =>
      obtain ⟨other, counters⟩ := reading
      have hevents : state.events cbor (.meter now) = [(.meterSample other counters, now)] := by
        simp only [events, hreading]
      have hafter : ((machine cbor nft fromStr).step state (.meter now)).1.held peer =
          none := by
        simp only [machine, hreading, held, Option.filter_none, Option.map_none]
      by_cases hsame : other = peer
      · subst hsame
        have hfed : state.fed cbor other (.meter now) = [amounts counters] := by
          simp [fed, hevents, readings, PeerEvent.reading]
        have hheld : state.held other = some (amounts counters) := by simp [held, hreading]
        rw [hfed, hafter, hheld]
        exact .feed _
      · have hfed : state.fed cbor peer (.meter now) = [] := by
          refine List.map_eq_nil_iff.mpr (readings_eq_nil fun shown at_ hmem ↦ ?_)
          simp [hevents, Ne.symm hsame] at hmem
        have hheld : state.held peer = none := by simp [held, hreading, hsame]
        exact hkeep hfed (hafter.trans hheld.symm)

/-- Assumes: a metering session. The readings of the peer that are fed to the session never
decrease, from what the counters show or the reading on its way. -/
theorem fed_pairwise (hnft : nft.Documented meaning)
    {state : MeteredGateway Ruleset} (htallied : state.Tallied meaning) {peer : PeerId}
    {ip : IpAddr} (hlocated : state.Located peer ip) {inputs : List Input}
    (hfits : state.Fits meaning cbor nft fromStr ip inputs)
    (hundisturbed : (machine cbor nft fromStr).Along (Undisturbed meaning fromStr peer ip) state
      inputs)
    (hheld : ∀ reading ∈ state.held peer, reading ≤ state.counted meaning ip) :
    ((machine cbor nft fromStr).observe (fed cbor peer) state inputs).Pairwise
      (· ≤ ·) := by
  have hpolls : (machine cbor nft fromStr).Along
      ((machine cbor nft fromStr).Polls (counted meaning ip) (held peer) (fed cbor peer)) state
      inputs := by
    clear hheld
    induction inputs generalizing state with
    | nil => trivial
    | cons input rest ih =>
      obtain ⟨hnow, hlater⟩ := hundisturbed
      exact ⟨polls_step hnft htallied hlocated hfits hnow,
        ih (htallied.step hnft input).1 (hlocated.step hnow) (hfits.cons hnft htallied).2 hlater⟩
  exact (List.pairwise_cons.mp (Transducer.fed_sorted hpolls hheld)).2

theorem observe_fed (state : MeteredGateway Ruleset) (peer : PeerId) (inputs : List Input) :
    (machine cbor nft fromStr).observe (fed cbor peer) state inputs =
      (readings cbor peer ((machine cbor nft fromStr).observe (events cbor) state
        inputs)).map fun reading ↦ amounts reading.1 := by
  induction inputs generalizing state with
  | nil => rfl
  | cons input rest ih =>
    rw [Transducer.observe_cons, Transducer.observe_cons, readings_append, List.map_append, ih]
    rfl

/-- Assumes: traffic of two runs that fits the counters. So does that of the second. -/
theorem Fits.of_append (hnft : nft.Documented meaning)
    {state : MeteredGateway Ruleset} (htallied : state.Tallied meaning) {ip : IpAddr}
    {first second : List Input} (hfits : state.Fits meaning cbor nft fromStr ip (first ++ second)) :
    ((machine cbor nft fromStr).final state first).Fits meaning cbor nft fromStr ip
        second ∧ state.Fits meaning cbor nft fromStr ip first := by
  have hfirst : state.Fits meaning cbor nft fromStr ip first := fun side ↦ by
    have hboth := hfits side
    rw [Transducer.observe_append, List.sum_append] at hboth
    omega
  refine ⟨fun side ↦ ?_, hfirst⟩
  have hboth := hfits side
  rw [Transducer.observe_append, List.sum_append] at hboth
  rw [hfirst.final hnft htallied]
  omega

theorem Tallied.final (hnft : nft.Documented meaning)
    {state : MeteredGateway Ruleset} (htallied : state.Tallied meaning) (inputs : List Input) :
    ((machine cbor nft fromStr).final state inputs).Tallied meaning :=
  Transducer.final_invariant _ (Tallied meaning)
    (fun _ input hstate ↦ (hstate.step hnft input).1) htallied inputs

/-! ### Rounds -/

/-- No peer is in a round twice. -/
theorem nodup_round (price : Price) (announce priceSheet : Bytes)
    (ruleset : Ruleset) (inputs : List Input) :
    (((machine cbor nft fromStr).final
      (start nft price announce priceSheet ruleset) inputs).round.map Prod.fst).Nodup := by
  refine Transducer.final_invariant _
    (fun state : MeteredGateway Ruleset ↦ (state.round.map Prod.fst).Nodup)
    (fun state input hstate ↦ ?_)
    (show ((start nft price announce priceSheet ruleset).round.map Prod.fst).Nodup from
      List.nodup_nil) inputs
  cases input with
  | gateway input => exact hstate
  | tick =>
    simp only [machine]
    split_ifs
    · have hkeys : (state.gateway.driver.peerIp.toList.map Prod.fst).Nodup := by
        rw [Std.ExtTreeMap.map_fst_toList_eq_keys]
        exact Std.ExtTreeMap.nodup_keys
      exact hkeys.sublist (List.filter_sublist.map Prod.fst)
    · exact hstate
  | read output =>
    simp only [machine]
    split
    · exact hstate.sublist ((List.tail_sublist _).map Prod.fst)
    · exact hstate
  | meter now =>
    simp only [machine]
    split <;> exact hstate

/-- Anything but the sample that the loop is about to feed. -/
def Input.Waits (input : Input) : Prop :=
  ∀ now, input ≠ .meter now

/-- A reading waits for its sample. -/
theorem reading_final {state : MeteredGateway Ruleset} {reading : PeerId × Counters}
    (hreading : state.reading = some reading) {inputs : List Input}
    (hwaits : ∀ input ∈ inputs, input.Waits) :
    ((machine cbor nft fromStr).final state inputs).reading = some reading := by
  induction inputs generalizing state with
  | nil => exact hreading
  | cons input rest ih =>
    refine ih ?_ fun later hlater ↦ hwaits later (List.mem_cons_of_mem _ hlater)
    cases input with
    | gateway input => exact hreading
    | tick => simp [machine, hreading]
    | read output => simp [machine, due, hreading]
    | meter now => exact absurd rfl (hwaits _ List.mem_cons_self now)

/-- The reading that is taken of the peer that is due. -/
theorem step_read {state : MeteredGateway Ruleset} (htallied : state.Tallied meaning)
    {peer : PeerId} {ip : IpAddr} (hdue : state.due = some (peer, ip)) {output : Option String}
    (hundisturbed : state.Undisturbed meaning fromStr peer ip (.read output)) :
    ((machine cbor nft fromStr).step state (.read output)).1 =
      { state with
        round := state.round.tail
        reading :=
          some (peer, ⟨state.shown meaning ip .daddr, state.shown meaning ip .saddr⟩) } := by
  simp only [machine, hdue, (hundisturbed ip hdue).readCounters_shown htallied]

end Runs

end MeteredGateway

end Tollgate
