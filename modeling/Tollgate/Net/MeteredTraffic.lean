import Tollgate.Net.MeteringLoop

/-!
# Metered traffic

From the packets to the bill. A metering session is a peer's stay at one address from its baseline
sample on; what it is charged up to a later sample is the traffic between the two readings, or the
count it has reported if that is larger (`units_eq_traffic`), whatever else the gateway does.
-/

set_option autoImplicit false
set_option relaxedAutoImplicit false

namespace Tollgate

/-! ### The bill of a session -/

theorem reports_between (cbor : Minicbor) (peer : PeerId) (baseline counters : Counters)
    (begun now : Millis) (events : List (Event × Millis)) :
    reports cbor peer ((.meterSample peer baseline, begun) ::
      (events ++ [(.meterSample peer counters, now)])) = reports cbor peer events := by
  rw [reports, List.map_cons, List.map_append, List.map_cons, List.map_nil,
    PeerEvent.of_meterSample, PeerEvent.of_meterSample, List.filterMap_cons_none rfl,
    List.filterMap_append]
  exact List.append_nil _

/-- Assumes: an active peer without a baseline, a run from a baseline sample to another sample with
the peer active at every event of it, and readings and reports that never decrease. The units and
the time that are charged, and the report that is sent with the last sample. -/
theorem Session.bill {cbor : Minicbor} {session : Session} {peer : PeerId} {entry : PeerSession}
    (hentry : session.peers[peer]? = some entry) (hunread : entry.lastCounters = none)
    {baseline counters : Counters} {begun now : Millis} {events : List (Event × Millis)}
    (hactive : (Session.machine cbor).Along
      (fun session _ ↦ session.peerPhase peer = some .active) session
      ((.meterSample peer baseline, begun) :: (events ++ [(.meterSample peer counters, now)])))
    (hreadings : (readings cbor peer ((.meterSample peer baseline, begun) ::
      (events ++ [(.meterSample peer counters, now)]))).Pairwise Counters.NoDecrease)
    (hreports : (reports cbor peer events).Pairwise (· ≤ ·)) :
    (((Session.machine cbor).observe (Session.charges cbor peer) session
        ((.meterSample peer baseline, begun) ::
          (events ++ [(.meterSample peer counters, now)]))).map
        fun charge ↦ charge.units.toNat).sum =
      max (counters.delivered.toNat - baseline.delivered.toNat)
        (((reports cbor peer events).map UInt64.toNat).getLast?.getD 0) ∧
    (((Session.machine cbor).observe (Session.charges cbor peer) session
        ((.meterSample peer baseline, begun) ::
          (events ++ [(.meterSample peer counters, now)]))).map
        fun charge ↦ charge.elapsed.toNat).sum = now.toNat - begun.toNat ∧
    Action.send peer (cbor.encodeMeteringReport (MeteringReport.new (now - begun)
        (counters.delivered - baseline.delivered) (counters.received - baseline.received))) ∈
      (((Session.machine cbor).final session ((.meterSample peer baseline, begun) ::
        events)).handle cbor (.meterSample peer counters) now).2 := by
  obtain ⟨hphase, hstays, reached, hreached, hserved, hlast, -, -, hreport⟩ :=
    reached_before_sample hentry hunread hactive hreadings
  simp only [readings, List.map_cons, List.map_append, List.map_nil,
    PeerEvent.of_meterSample] at hreadings
  rw [charges_from_baseline hentry hphase hunread, List.map_append, List.map_cons, List.map_nil,
    PeerEvent.of_meterSample]
  refine ⟨Entry.units_exact cbor session.price session.policy peer hstays hreadings hreports,
    Entry.elapsed_exact cbor session.price session.policy peer hstays hreadings, ?_⟩
  set middle := (Session.machine cbor).final session ((.meterSample peer baseline, begun) :: events)
  have hself := (@Session.handle_self cbor middle peer (.meterSample peer counters) now rfl).2
  rw [PeerEvent.of_meterSample, hreached,
    Entry.step_sample_charge cbor middle.price middle.policy peer hserved hlast] at hself
  obtain ⟨warning, suspension, hsent, -⟩ := PeerSession.chargeSample_sends cbor peer reached
    middle.price middle.policy counters now
  rw [hself, hsent, hreport]
  simp

/-! ### A metering session -/

namespace MeteredGateway

/-- Two readings and their samples: the loop reads an address and feeds the reading at `begun`, and
later it reads again and feeds that reading at `now`. Anything else may happen in between. -/
structure Schedule where
  first : Option String
  gap : List Input
  begun : Millis
  middle : List Input
  last : Option String
  wait : List Input
  now : Millis

namespace Schedule

variable (schedule : Schedule)

/-- From the first reading to its sample. -/
def opening : List Input :=
  .read schedule.first :: schedule.gap

/-- From the first sample up to the second. -/
def unfed : List Input :=
  .meter schedule.begun :: (schedule.middle ++ .read schedule.last :: schedule.wait)

/-- From the first sample to the second. -/
def billed : List Input :=
  schedule.unfed ++ [.meter schedule.now]

/-- From the first reading to the second. -/
def metered : List Input :=
  schedule.opening ++ .meter schedule.begun :: schedule.middle

end Schedule

section Bill

variable {Ruleset : Type} (cbor : Minicbor) (nft : Netfilter Ruleset)
  (meaning : Ruleset → Option Policing) (fromStr : String → Option Json)
  (opened : MeteredGateway Ruleset) (schedule : Schedule)

/-- The session in front of the first sample. -/
def unbilled : Session :=
  ((machine cbor nft fromStr).final opened schedule.opening).gateway.driver.session

/-- What the session hears from the first sample to the second. -/
def heard : List (Event × Millis) :=
  (machine cbor nft fromStr).observe (events cbor)
    ((machine cbor nft fromStr).final opened schedule.opening) schedule.billed

/-- What the session hears between the two samples. -/
def inBetween : List (Event × Millis) :=
  (machine cbor nft fromStr).observe (events cbor)
    ((machine cbor nft fromStr).step
      ((machine cbor nft fromStr).final opened schedule.opening)
      (.meter schedule.begun)).1
    (schedule.middle ++ .read schedule.last :: schedule.wait)

/-- What the peer is charged from the first sample to the second. -/
def charges (peer : PeerId) : List Charge :=
  (Session.machine cbor).observe (Session.charges cbor peer)
    (unbilled cbor nft fromStr opened schedule)
    (heard cbor nft fromStr opened schedule)

/-- The bytes of the traffic between the readings. -/
def between (ip : IpAddr) (side : Side) : ℕ :=
  ((machine cbor nft fromStr).observe (traffic ip side) opened schedule.metered).sum

/-- Both readings are the peer's, taken at the address and fed to the session as they were taken. -/
structure Sampled (peer : PeerId) (ip : IpAddr) : Prop where
  due : opened.due = some (peer, ip)
  gap_waits : ∀ input ∈ schedule.gap, input.Waits
  due_again : ((machine cbor nft fromStr).final opened schedule.metered).due =
    some (peer, ip)
  wait_waits : ∀ input ∈ schedule.wait, input.Waits
  undisturbed : (machine cbor nft fromStr).Along (Undisturbed meaning fromStr peer ip) opened
    (schedule.opening ++ schedule.billed)

/-- A metering session of a peer at an address: the first reading is the baseline, and from there on
the peer stays active and neither its samples nor its reports go back. -/
structure MeteringSession (peer : PeerId) (ip : IpAddr) : Prop extends
    Sampled cbor nft meaning fromStr opened schedule peer ip where
  unread : ∃ entry, (unbilled cbor nft fromStr opened schedule).peers[peer]? =
    some entry ∧ entry.lastCounters = none
  active : (Session.machine cbor).Along (fun session _ ↦ session.peerPhase peer = some .active)
    (unbilled cbor nft fromStr opened schedule)
    (heard cbor nft fromStr opened schedule)
  clock : ((readings cbor peer (heard cbor nft fromStr opened schedule)).map
    Prod.snd).Pairwise (· ≤ ·)
  reports_grow : (reports cbor peer (heard cbor nft fromStr opened schedule)).Pairwise
    (· ≤ ·)

end Bill

section Runs

variable {Ruleset : Type} {cbor : Minicbor} {nft : Netfilter Ruleset}
  {meaning : Ruleset → Option Policing} {fromStr : String → Option Json}
  {opened : MeteredGateway Ruleset} {schedule : Schedule} {peer : PeerId} {ip : IpAddr}

theorem Schedule.inputs_eq (schedule : Schedule) :
    schedule.opening ++ schedule.billed =
      schedule.metered ++ .read schedule.last :: (schedule.wait ++ [.meter schedule.now]) := by
  simp [billed, unfed, metered]

/-- A reading waits for its sample as it was taken. -/
theorem reading_sampling (cbor : Minicbor) (nft : Netfilter Ruleset)
    {state : MeteredGateway Ruleset} (htallied : state.Tallied meaning)
    (hdue : state.due = some (peer, ip)) {output : Option String}
    (hundisturbed : state.Undisturbed meaning fromStr peer ip (.read output)) {wait : List Input}
    (hwaits : ∀ input ∈ wait, input.Waits) :
    ((machine cbor nft fromStr).final state (.read output :: wait)).reading =
      some (peer, ⟨state.shown meaning ip .daddr, state.shown meaning ip .saddr⟩) := by
  rw [Transducer.final_cons, step_read htallied hdue hundisturbed]
  exact reading_final rfl hwaits

/-- The two readings, as they come to their samples. -/
theorem Sampled.readings_fed (hnft : nft.Documented meaning) (htallied : opened.Tallied meaning)
    (hsampled : Sampled cbor nft meaning fromStr opened schedule peer ip) :
    ((machine cbor nft fromStr).final opened schedule.opening).reading =
        some (peer, ⟨opened.shown meaning ip .daddr, opened.shown meaning ip .saddr⟩) ∧
      ((machine cbor nft fromStr).final opened
          (schedule.opening ++ schedule.unfed)).reading =
        some (peer,
          ⟨((machine cbor nft fromStr).final opened schedule.metered).shown meaning ip .daddr,
            ((machine cbor nft fromStr).final opened schedule.metered).shown meaning ip .saddr⟩)
        := by
  have hfirst := hsampled.undisturbed
  rw [Schedule.opening, List.cons_append, Transducer.along_cons] at hfirst
  have hlast := hsampled.undisturbed
  rw [Schedule.inputs_eq, Transducer.along_append, Transducer.along_cons] at hlast
  refine ⟨reading_sampling cbor nft htallied hsampled.due hfirst.1 hsampled.gap_waits, ?_⟩
  have hsample := reading_sampling cbor nft (htallied.final hnft schedule.metered)
    hsampled.due_again hlast.2.1 hsampled.wait_waits
  have hinputs : schedule.opening ++ schedule.unfed =
      schedule.metered ++ .read schedule.last :: schedule.wait := by
    simp [Schedule.unfed, Schedule.metered]
  rw [hinputs, Transducer.final_append]
  exact hsample

/-- What the session hears: the baseline, whatever lies in between, and the sample, with the
counters that the two readings found. -/
theorem Sampled.heard_eq (hnft : nft.Documented meaning) (htallied : opened.Tallied meaning)
    (hsampled : Sampled cbor nft meaning fromStr opened schedule peer ip) :
    heard cbor nft fromStr opened schedule =
        (.meterSample peer ⟨opened.shown meaning ip .daddr, opened.shown meaning ip .saddr⟩,
            schedule.begun) ::
          (inBetween cbor nft fromStr opened schedule ++ [(.meterSample peer
            ⟨((machine cbor nft fromStr).final opened schedule.metered).shown meaning ip .daddr,
              ((machine cbor nft fromStr).final opened schedule.metered).shown meaning ip .saddr⟩,
            schedule.now)]) ∧
      ((machine cbor nft fromStr).final opened
          (schedule.opening ++ schedule.unfed)).gateway.driver.session =
        (Session.machine cbor).final (unbilled cbor nft fromStr opened schedule)
          ((.meterSample peer ⟨opened.shown meaning ip .daddr, opened.shown meaning ip .saddr⟩,
              schedule.begun) ::
            inBetween cbor nft fromStr opened schedule) := by
  obtain ⟨hbaseline, hsample⟩ := hsampled.readings_fed hnft htallied
  rw [Transducer.final_append] at hsample ⊢
  have hhead : events cbor ((machine cbor nft fromStr).final opened schedule.opening)
      (.meter schedule.begun) =
        [(.meterSample peer ⟨opened.shown meaning ip .daddr, opened.shown meaning ip .saddr⟩,
          schedule.begun)] := by
    simp only [events, hbaseline]
  have hunfed : (machine cbor nft fromStr).observe (events cbor)
      ((machine cbor nft fromStr).final opened schedule.opening) schedule.unfed =
        (.meterSample peer ⟨opened.shown meaning ip .daddr, opened.shown meaning ip .saddr⟩,
            schedule.begun) ::
          inBetween cbor nft fromStr opened schedule := by
    rw [Schedule.unfed, Transducer.observe_cons, hhead, List.singleton_append, inBetween]
  constructor
  · rw [heard, Schedule.billed, Transducer.observe_append, hunfed, Transducer.observe_cons,
      Transducer.observe_nil, List.append_nil, List.cons_append]
    simp only [events, hsample]
  · rw [session_final, hunfed]
    rfl

/-- Assumes: an opened gateway whose firewall counts and that reads no peer twice in a round, and
traffic that fits the counters. The readings of a metering session never go back. -/
theorem MeteringSession.readings_grow (hnft : nft.Documented meaning)
    (htallied : opened.Tallied meaning) (hround : (opened.round.map Prod.fst).Nodup)
    (hfits : opened.Fits meaning cbor nft fromStr ip (schedule.opening ++ schedule.billed))
    (hsession : MeteringSession cbor nft meaning fromStr opened schedule peer ip) :
    (readings cbor peer (heard cbor nft fromStr opened schedule)).Pairwise
      Counters.NoDecrease := by
  obtain ⟨hnext, hlater⟩ := (Transducer.along_append _ _ _ _ _).mp hsession.undisturbed
  have hfirst := hnext.1
  -- The peer is taken from the round, which has it once.
  have hlocated : (((machine cbor nft fromStr).step opened
      (.read schedule.first)).1).Located peer ip := by
    rw [step_read htallied hsession.due hfirst]
    obtain ⟨-, rest, hrest⟩ := due_eq hsession.due
    intro other hother
    rw [hrest] at hround hother
    have hmem : peer ∈ rest.map Prod.fst := List.mem_map_of_mem hother
    exact absurd hmem (List.nodup_cons.mp hround).1
  have hbaseline : ((machine cbor nft fromStr).final opened schedule.opening).Located
      peer ip :=
    hnext.2.final_invariant (Located peer ip) (fun _ _ hstate hinput ↦ hstate.step hinput) hlocated
  obtain ⟨hfits', hopening⟩ := hfits.of_append hnft htallied
  have hheld : ((machine cbor nft fromStr).final opened schedule.opening).held peer =
      some (opened.counted meaning ip) := by
    simp [held, (hsession.readings_fed hnft htallied).1, counted, amounts]
  have hgrown := fed_pairwise hnft (htallied.final hnft schedule.opening) hbaseline hfits' hlater
    (fun reading hreading ↦ by
      rw [hheld] at hreading
      obtain rfl := Option.mem_some.mp hreading
      exact ⟨by simp [counted, hopening.final hnft htallied],
        by simp [counted, hopening.final hnft htallied]⟩)
  rw [observe_fed] at hgrown
  refine ((List.pairwise_map.mp hgrown).and (List.pairwise_map.mp hsession.clock)).imp
    fun {earlier later} hboth ↦ ?_
  exact ⟨UInt64.le_iff_toNat_le.mpr hboth.1.1, UInt64.le_iff_toNat_le.mpr hboth.1.2, hboth.2⟩

end Runs

/-- A peer announces itself and pays, and a round begins. -/
def paidInputs : List Input :=
  [.gateway (.call (.peerConnected samplePeer (some Driver.firstIp) 0 0)),
    .gateway (.call (.messageReceived samplePeer sampleToken 1 1 (some 5000) 2)), .tick]

def samplePacket : Packet :=
  ⟨false, Driver.secondIp, Driver.firstIp, "", 60⟩

/-- Two samples of the peer, and a packet to it in between. -/
def packetSchedule : Schedule where
  first := some "before"
  gap := []
  begun := 3
  middle := [.gateway (.receive samplePacket true), .tick]
  last := some "after"
  wait := []
  now := 4

theorem packetSchedule_metered : packetSchedule.metered =
    [.read (some "before"), .meter 3] ++ [.gateway (.receive samplePacket true), .tick] := rfl

/-- The driver of a peer that has paid. -/
def paidDriver : Driver :=
  (Driver.machine Minicbor.derived).final (Driver.new ⟨0, 1⟩ [] [])
    [.peerConnected samplePeer (some Driver.firstIp) 0 0,
      .messageReceived samplePeer sampleToken 1 1 (some 5000) 2]

/-- The driver after its first sample. -/
def sampledDriver : Driver :=
  paidDriver.meter Minicbor.derived samplePeer ⟨0, 0⟩ 3

theorem paidDriver_metered :
    metered paidDriver = [(samplePeer, Driver.firstIp)] ∧
      paidDriver.session.peers[samplePeer]?.map PeerSession.lastCounters = some none ∧
      paidDriver.session.peerPhase samplePeer = some .active ∧
      metered sampledDriver = [(samplePeer, Driver.firstIp)] ∧
      sampledDriver.peerIp[samplePeer]? = some Driver.firstIp ∧
      sampledDriver.session.peerPhase samplePeer = some .active := by
  decide +kernel

section Witness

variable {Ruleset : Type} {meaning : Ruleset → Option Policing} (nft : Netfilter Ruleset)
  (ruleset : Ruleset)

/-- The calls of the adapter until the peer has paid, and until its first sample. -/
def paidCalls : List Node.Input :=
  let greeted := (Driver.new ⟨0, 1⟩ [] []).step Minicbor.derived
    (.peerConnected samplePeer (some Driver.firstIp) 0 0)
  (Driver.new ⟨0, 1⟩ [] []).calls Minicbor.derived
      (.peerConnected samplePeer (some Driver.firstIp) 0 0) ++
    greeted.calls Minicbor.derived (.messageReceived samplePeer sampleToken 1 1 (some 5000) 2)

def sampledCalls : List Node.Input :=
  paidCalls ++ paidDriver.calls Minicbor.derived (.meter samplePeer ⟨0, 0⟩ 3)

/-- The payment lets the address of the peer through, and its counters are installed. -/
theorem allow_mem_paidCalls : Node.Input.allow Driver.firstIp true true ∈ paidCalls := by
  decide +kernel

/-- The loop in front of the first reading, and in front of the packet. -/
def paidLoop : MeteredGateway Ruleset where
  gateway := ⟨paidDriver, (Node.machine nft).final (Node.init nft ruleset true true) paidCalls⟩
  round := [(samplePeer, Driver.firstIp)]
  reading := none

def sampledLoop : MeteredGateway Ruleset where
  gateway := ⟨sampledDriver,
    (Node.machine nft).final (Node.init nft ruleset true true) sampledCalls⟩
  round := []
  reading := none

/-- The loop after the packet, when the next round begins. -/
def reopenedLoop : MeteredGateway Ruleset where
  gateway := ((Gateway.machine Minicbor.derived nft).step (sampledLoop nft ruleset).gateway
    (.receive samplePacket true)).1
  round := [(samplePeer, Driver.firstIp)]
  reading := none

theorem final_paidInputs (fromStr : String → Option Json) :
    (machine Minicbor.derived nft fromStr).final (start nft ⟨0, 1⟩ [] [] ruleset) paidInputs =
      paidLoop nft ruleset := by
  rw [paidLoop, ← paidDriver_metered.1, paidCalls, Transducer.final_append]
  rfl

section Documented

variable {nft : Netfilter Ruleset} (hnft : nft.Documented meaning)
include hnft

/-- Nothing has been counted before the first reading. -/
theorem tallied_paidLoop :
    (paidLoop nft ruleset).Tallied meaning ∧
      ∀ side, (paidLoop nft ruleset).shown meaning Driver.firstIp side = 0 := by
  have huncounted : ∀ input ∈ paidCalls, Driver.Uncounted input := by
    intro input hinput
    rcases List.mem_append.mp hinput with hgreeted | hpaid
    · exact Driver.uncounted_of_mem_calls _ _ _ input hgreeted
    · exact Driver.uncounted_of_mem_calls _ _ _ input hpaid
  obtain ⟨htallied, hshown⟩ := (tallied_start hnft ⟨0, 1⟩ [] [] ruleset).node hnft paidCalls
    (show (paidLoop nft ruleset).gateway.node = _ from rfl)
  refine ⟨htallied, fun side ↦ ?_⟩
  rw [hshown, observe_uncounted huncounted, shown_start hnft]
  rfl

theorem tallied_reopenedLoop : (reopenedLoop nft ruleset).Tallied meaning := by
  have hsampled := ((tallied_start hnft ⟨0, 1⟩ [] [] ruleset).node hnft sampledCalls
    (show (sampledLoop nft ruleset).gateway.node = _ from rfl)).1
  exact (hsampled.node hnft [.receive samplePacket true]
    (show (reopenedLoop nft ruleset).gateway.node = _ from rfl)).1

theorem installed_sampledLoop :
    Driver.firstIp ∈ (sampledLoop nft ruleset).gateway.node.installed := by
  obtain ⟨after, hafter, -, -, hmetered⟩ := (Node.enacts_init hnft ruleset true).final_counted hnft
    (Policing.counted_start true) sampledCalls
  rw [sampledLoop, hafter.installed, hmetered]
  exact Or.inr ⟨rfl, true, List.mem_append_left _ allow_mem_paidCalls⟩

/-- Two texts can list what the loop finds at its two readings. -/
theorem exists_prints :
    ∃ fromStr, (paidLoop nft ruleset).Prints meaning fromStr (some "before") ∧
      (reopenedLoop nft ruleset).Prints meaning fromStr (some "after") := by
  obtain ⟨before, hbefore, -⟩ := (tallied_paidLoop ruleset hnft).1
  obtain ⟨after, hafter, -⟩ := tallied_reopenedLoop ruleset hnft
  refine ⟨fun stdout ↦ some (counterListing "1.0.9" (fun _ ↦ 1)
    (if stdout = "before" then before.counters else after.counters)), ⟨_, rfl, ?_⟩, ⟨_, rfl, ?_⟩⟩
  · intro policing hmeans
    refine ⟨"1.0.9", fun _ ↦ 1, before.counters, by simp, fun name ↦ ?_⟩
    rw [Option.some.inj (hmeans.symm.trans hbefore.means)]
  · intro policing hmeans
    refine ⟨"1.0.9", fun _ ↦ 1, after.counters, by simp, fun name ↦ ?_⟩
    rw [Option.some.inj (hmeans.symm.trans hafter.means)]

variable {fromStr : String → Option Json}
  (hfirst : (paidLoop nft ruleset).Prints meaning fromStr (some "before"))
include hfirst

theorem step_paidLoop :
    ((machine Minicbor.derived nft fromStr).step (paidLoop nft ruleset)
      (.read (some "before"))).1 =
        ⟨(paidLoop nft ruleset).gateway, [], some (samplePeer, ⟨0, 0⟩)⟩ := by
  obtain ⟨htallied, hshown⟩ := tallied_paidLoop ruleset hnft
  have hdue : (paidLoop nft ruleset).due = some (samplePeer, Driver.firstIp) := rfl
  rw [step_read htallied hdue fun _ _ ↦ hfirst, hshown, hshown]
  rfl

theorem final_paidLoop :
    (machine Minicbor.derived nft fromStr).final (paidLoop nft ruleset)
        [.read (some "before"), .meter 3] = sampledLoop nft ruleset := by
  rw [Transducer.final_cons, step_paidLoop ruleset hnft hfirst, sampledLoop, sampledCalls,
    Transducer.final_append]
  rfl

theorem final_metered :
    (machine Minicbor.derived nft fromStr).final (paidLoop nft ruleset) packetSchedule.metered =
      reopenedLoop nft ruleset := by
  rw [packetSchedule_metered, Transducer.final_append, final_paidLoop ruleset hnft hfirst,
    reopenedLoop, ← paidDriver_metered.2.2.2.1]
  rfl

theorem unbilled_packetSchedule :
    unbilled Minicbor.derived nft fromStr (paidLoop nft ruleset) packetSchedule =
      paidDriver.session := by
  rw [unbilled, show packetSchedule.opening = [.read (some "before")] from rfl,
    Transducer.final_cons, step_paidLoop ruleset hnft hfirst]
  rfl

/-- Of the whole run only the packet is counted. -/
theorem traffic_metered (side : Side) :
    (machine Minicbor.derived nft fromStr).observe (traffic Driver.firstIp side)
        (paidLoop nft ruleset) packetSchedule.metered =
      Node.countedBytes Driver.firstIp side (sampledLoop nft ruleset).gateway.node
        (.receive samplePacket true) := by
  rw [packetSchedule_metered, Transducer.observe_append, final_paidLoop ruleset hnft hfirst]
  exact List.append_nil _

theorem fits_packetSchedule :
    (start nft ⟨0, 1⟩ [] [] ruleset).Fits meaning Minicbor.derived nft fromStr Driver.firstIp
      (paidInputs ++ (packetSchedule.opening ++ packetSchedule.billed)) := by
  intro side
  have hnothing : (machine Minicbor.derived nft fromStr).observe (traffic Driver.firstIp side)
      (start nft ⟨0, 1⟩ [] [] ruleset) paidInputs = [] := rfl
  have hwaiting : (machine Minicbor.derived nft fromStr).observe (traffic Driver.firstIp side)
      (reopenedLoop nft ruleset) (.read packetSchedule.last ::
        (packetSchedule.wait ++ [.meter packetSchedule.now])) = [] := rfl
  rw [shown_start hnft, Transducer.observe_append, hnothing, final_paidInputs, Schedule.inputs_eq,
    Transducer.observe_append, final_metered ruleset hnft hfirst, hwaiting,
    traffic_metered ruleset hnft hfirst, Node.countedBytes]
  split_ifs <;> simp [samplePacket]

theorem between_packetSchedule :
    between Minicbor.derived nft fromStr (paidLoop nft ruleset) packetSchedule Driver.firstIp
      .daddr = 60 := by
  have hcounted : samplePacket.address .daddr ∈ (sampledLoop nft ruleset).gateway.node.installed :=
    installed_sampledLoop ruleset hnft
  rw [between, traffic_metered ruleset hnft hfirst, Node.countedBytes, if_pos ⟨hcounted, rfl⟩]
  rfl

variable (hlast : (reopenedLoop nft ruleset).Prints meaning fromStr (some "after"))
include hlast

theorem sampled_packetSchedule :
    Sampled Minicbor.derived nft meaning fromStr (paidLoop nft ruleset) packetSchedule samplePeer
      Driver.firstIp := by
  have hmetered := final_metered ruleset hnft hfirst
  refine ⟨rfl, fun _ hmem ↦ absurd hmem List.not_mem_nil, ?_,
    fun _ hmem ↦ absurd hmem List.not_mem_nil, ?_⟩
  · rw [hmetered]
    rfl
  · rw [Schedule.inputs_eq, Transducer.along_append, hmetered]
    refine ⟨⟨fun _ _ ↦ hfirst, ?_⟩, fun _ _ ↦ hlast, trivial, trivial⟩
    have hmiddle := step_paidLoop ruleset hnft hfirst
    rw [show packetSchedule.first = some "before" from rfl, hmiddle]
    refine ⟨trivial, fun _ _ ↦ Gateway.Input.noConfusion, fun other hother ↦ ?_, trivial⟩
    exact Option.some.inj (hother.symm.trans paidDriver_metered.2.2.2.2.1)

/-- The peer hears of nothing between its samples. -/
theorem heard_packetSchedule :
    ∃ counters, heard Minicbor.derived nft fromStr (paidLoop nft ruleset) packetSchedule =
      [(.meterSample samplePeer ⟨0, 0⟩, 3), (.meterSample samplePeer counters, 4)] := by
  obtain ⟨htallied, hblank⟩ := tallied_paidLoop ruleset hnft
  have hquiet : inBetween Minicbor.derived nft fromStr (paidLoop nft ruleset) packetSchedule =
      [] := rfl
  have hheard := ((sampled_packetSchedule ruleset hnft hfirst hlast).heard_eq hnft htallied).1
  rw [hquiet, hblank, hblank] at hheard
  exact ⟨_, hheard⟩

theorem session_packetSchedule :
    MeteringSession Minicbor.derived nft meaning fromStr (paidLoop nft ruleset) packetSchedule
      samplePeer Driver.firstIp := by
  obtain ⟨-, hunread, hactive, -, -, hstill⟩ := paidDriver_metered
  obtain ⟨counters, hheard⟩ := heard_packetSchedule ruleset hnft hfirst hlast
  have hunbilled := unbilled_packetSchedule ruleset hnft hfirst
  refine ⟨sampled_packetSchedule ruleset hnft hfirst hlast, ?_, ?_, ?_, ?_⟩
  · rw [hunbilled]
    exact Option.map_eq_some_iff.mp hunread
  · rw [hheard, hunbilled]
    refine ⟨hactive, ?_, trivial⟩
    rw [sampledDriver, Driver.meter, Driver.session_feed] at hstill
    exact hstill
  · rw [hheard]
    simp [readings, PeerEvent.reading]
  · rw [hheard]
    exact (reports_between _ _ _ _ _ _ []).symm ▸ List.Pairwise.nil

end Documented

end Witness

end MeteredGateway

end Tollgate
