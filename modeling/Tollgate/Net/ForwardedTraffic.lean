import Tollgate.Net.Policing

/-!
# What the firewall forwards and counts

Runs of the node from `init`: `forwards_iff` says which packets go through, `readCounters_eq` what
the counters of an address read.
-/

set_option autoImplicit false
set_option relaxedAutoImplicit false

namespace Tollgate

section Runs

variable {Ruleset : Type} {nft : Netfilter Ruleset} {meaning : Ruleset → Option Policing}

/-! ### What is forwarded -/

/-- What an input decides about an address, if `nft` carried it out. -/
def Node.Input.decision (ip : IpAddr) : Node.Input → Option Bool
  | .allow other applies _ => if other = ip ∧ applies = true then some true else none
  | .deny other applies => if other = ip ∧ applies = true then some false else none
  | .ensureUpstreamCounter _ _ _ | .receive _ _ => none

/-- The last decision about an address. -/
def Node.decided (inputs : List Node.Input) (ip : IpAddr) : Option Bool :=
  (inputs.filterMap (Input.decision ip)).getLast?

theorem Node.decided_append (first second : List Node.Input) (ip : IpAddr) :
    decided (first ++ second) ip = (decided second ip).or (decided first ip) := by
  rw [decided, List.filterMap_append, List.getLast?_append]
  rfl

namespace Policing

variable {policing after : Policing} {input : Node.Input}

theorem count_frame (policing : Policing) (ip : IpAddr) :
    (policing.count ip).paid = policing.paid ∧
      (policing.count ip).forwarding = policing.forwarding := by
  unfold count
  split_ifs <;> exact ⟨rfl, rfl⟩

/-- The firewall never stops or starts enforcing. -/
theorem Becomes.forwarding (hbecomes : policing.Becomes input after) :
    after.forwarding = policing.forwarding := by
  cases input with
  | allow ip applies installs =>
    rw [show after = _ from hbecomes]
    split_ifs <;> simp [count_frame, permit]
  | deny ip applies =>
    rw [show after = _ from hbecomes]
    split_ifs <;> rfl
  | ensureUpstreamCounter ip arpTable runs =>
    obtain rfl | ⟨mac, rfl⟩ := hbecomes <;> rfl
  | receive packet transit =>
    rw [show after = _ from hbecomes]
    rfl

/-- An address is paid if the input permits it, and not if the input revokes it. -/
theorem Becomes.mem_paid (hbecomes : policing.Becomes input after) (ip : IpAddr) :
    ip ∈ after.paid ↔ (input.decision ip).elim (ip ∈ policing.paid) (· = true) := by
  cases input with
  | allow other applies installs =>
    have hpaid : after.paid = if applies then insert other policing.paid else policing.paid := by
      rw [show after = _ from hbecomes]
      split_ifs <;> simp [count_frame, permit]
    rw [hpaid]
    cases applies with
    | false => simp [Node.Input.decision]
    | true =>
      by_cases hsame : other = ip
      · simp [Node.Input.decision, hsame]
      · simp [Node.Input.decision, hsame, Ne.symm hsame]
  | deny other applies =>
    rw [show after = _ from hbecomes]
    cases applies with
    | false => simp [Node.Input.decision]
    | true =>
      by_cases hsame : other = ip
      · simp [Node.Input.decision, revoke, hsame]
      · simp [Node.Input.decision, revoke, hsame, Ne.symm hsame]
  | ensureUpstreamCounter other arpTable runs =>
    obtain rfl | ⟨mac, rfl⟩ := hbecomes <;> rfl
  | receive packet transit =>
    rw [show after = _ from hbecomes]
    rfl

end Policing

/-- The firewall that a node enacts after a run: it enforces as before, and an address is paid by
the last decision about it. -/
theorem Node.Enacts.final (hnft : nft.Documented meaning) {node : Node Ruleset}
    {policing : Policing} (henacts : node.Enacts meaning policing) (inputs : List Node.Input) :
    ∃ after, ((machine nft).final node inputs).Enacts meaning after ∧
      after.forwarding = policing.forwarding ∧
      ∀ ip, ip ∈ after.paid ↔ (decided inputs ip).elim (ip ∈ policing.paid) (· = true) := by
  induction inputs generalizing node policing with
  | nil => exact ⟨policing, henacts, rfl, fun ip ↦ Iff.rfl⟩
  | cons input rest ih =>
    obtain ⟨middle, hmiddle, hbecomes⟩ := henacts.step hnft input
    obtain ⟨after, hafter, hforwarding, hpaid⟩ := ih hmiddle
    refine ⟨after, hafter, hforwarding.trans hbecomes.forwarding, fun ip ↦ ?_⟩
    rw [hpaid, ← List.singleton_append, decided_append]
    cases decided rest ip with
    | some later => rfl
    | none =>
      refine (hbecomes.mem_paid ip).trans ?_
      cases hdecision : input.decision ip <;> simp [decided, hdecision]

/-- The name of the counter of what an address receives, or sends. -/
def IpAddr.counterName (ip : IpAddr) : Side → String
  | .daddr => ip.counterNames.1
  | .saddr => ip.counterNames.2

/-- The counters of one direction have one prefix, and those of the other and of upstreams have
others. -/
theorem IpAddr.counterName_eq_iff (ip other : IpAddr) (side place : Side) :
    ip.counterName side = other.counterName place ↔ side = place ∧ ip.key = other.key := by
  have hdr (one two : String) : "tg_d_" ++ one ≠ "tg_r_" ++ two :=
    append_ne_append _ _ (by decide) (by decide) (by decide)
  cases side <;> cases place <;> simp [counterName, counterNames, hdr, (hdr _ _).symm]

theorem IpAddr.upstreamCounterName_ne (ip other : IpAddr) (side : Side) :
    other.upstreamCounterName ≠ ip.counterName side := by
  cases side with
  | daddr => exact append_ne_append _ _ (by decide) (by decide) (by decide)
  | saddr => exact append_ne_append _ _ (by decide) (by decide) (by decide)

/-- The bytes that an input adds to what is counted at an address: those of a packet in transit
from or to an address with installed rules that has the same counters. -/
def Node.countedBytes (ip : IpAddr) (side : Side) (node : Node Ruleset) : Node.Input → List ℕ
  | .receive packet true =>
    if packet.address side ∈ node.installed ∧ (packet.address side).key = ip.key then
      [packet.bytes]
    else []
  | .receive _ false | .allow _ _ _ | .deny _ _ | .ensureUpstreamCounter _ _ _ => []

namespace Policing

/-- What a counter shows. -/
def total (policing : Policing) (name : String) : UInt64 :=
  Tallies.total name policing.counters

/-- The rules of a metered address are there once and its counters are there, and nothing is metered
without a chain. Only upstreams have the counters of upstreams. -/
structure Counted (policing : Policing) : Prop where
  nodup : policing.metered.Nodup
  isSome : ∀ ip ∈ policing.metered, ∀ side,
    (policing.counters.lookup (ip.counterName side)).isSome = true
  enforcing : policing.metered ≠ [] → policing.forwarding = true
  upstreams : ∀ upstream ∈ policing.upstreams, ∀ ip : IpAddr, ∀ side,
    upstream.1 ≠ ip.counterName side

theorem counted_start (forwarding : Bool) : (start forwarding).Counted where
  nodup := List.nodup_nil
  isSome _ hmem := absurd hmem List.not_mem_nil
  enforcing hsome := absurd rfl hsome
  upstreams _ hmem := absurd hmem List.not_mem_nil

variable {policing after : Policing} {input : Node.Input}

theorem Counted.count (hcounted : policing.Counted) (hforwarding : policing.forwarding = true)
    (ip : IpAddr) : (policing.count ip).Counted := by
  unfold Policing.count
  split_ifs with hmetered
  · exact hcounted
  · refine ⟨List.nodup_cons.mpr ⟨hmetered, hcounted.nodup⟩, fun other hother side ↦ ?_,
      fun _ ↦ hforwarding, hcounted.upstreams⟩
    rw [meter, Tallies.isSome_lookup_begin, Tallies.isSome_lookup_begin]
    rcases List.mem_cons.mp hother with rfl | hold
    · cases side with
      | daddr => exact Or.inr (Or.inl rfl)
      | saddr => exact Or.inl rfl
    · exact Or.inr (Or.inr (hcounted.isSome other hold side))

theorem Becomes.counted (hbecomes : policing.Becomes input after) (hcounted : policing.Counted) :
    after.Counted := by
  cases input with
  | allow ip applies installs =>
    rw [show after = _ from hbecomes]
    have hpermit : (if applies then policing.permit ip else policing).Counted := by
      split_ifs
      · exact ⟨hcounted.nodup, hcounted.isSome, hcounted.enforcing, hcounted.upstreams⟩
      · exact hcounted
    set permitted := if applies then policing.permit ip else policing
    show (if permitted.forwarding && installs then permitted.count ip else permitted).Counted
    split_ifs with hboth
    · exact hpermit.count (Bool.and_eq_true_iff.mp hboth).1 ip
    · exact hpermit
  | deny ip applies =>
    rw [show after = _ from hbecomes]
    split_ifs
    · exact ⟨hcounted.nodup, hcounted.isSome, hcounted.enforcing, hcounted.upstreams⟩
    · exact hcounted
  | ensureUpstreamCounter ip arpTable runs =>
    obtain rfl | ⟨mac, rfl⟩ := hbecomes
    · exact hcounted
    · refine ⟨hcounted.nodup, fun other hother side ↦ ?_, hcounted.enforcing,
        fun upstream hupstream other side ↦ ?_⟩
      · exact (Tallies.isSome_lookup_begin _ _ _).mpr (Or.inr (hcounted.isSome other hother side))
      · rcases List.mem_cons.mp hupstream with rfl | hold
        · exact IpAddr.upstreamCounterName_ne other ip side
        · exact hcounted.upstreams upstream hold other side
  | receive packet transit =>
    rw [show after = _ from hbecomes]
    refine ⟨hcounted.nodup, fun other hother side ↦ ?_, hcounted.enforcing, hcounted.upstreams⟩
    rw [charged, Tallies.isSome_lookup_charge, Tallies.isSome_lookup_charge]
    exact hcounted.isSome other hother side

/-- How often a packet in transit is counted for an address. -/
theorem Counted.count_forwardNames (hcounted : policing.Counted) (packet : Packet) (ip : IpAddr)
    (side : Side) :
    (policing.forwardNames packet true).count (ip.counterName side) =
      if packet.address side ∈ policing.metered ∧ (packet.address side).key = ip.key then 1
      else 0 := by
  have hlist : ∀ metered : List IpAddr, metered.Nodup →
      (metered.flatMap fun ip ↦ (if packet.source = ip then [ip.counterNames.2] else []) ++
        if packet.destination = ip then [ip.counterNames.1] else []).count (ip.counterName side) =
          if packet.address side ∈ metered ∧ (packet.address side).key = ip.key then 1 else 0 := by
    intro metered hnodup
    induction metered with
    | nil => simp
    | cons first rest ih =>
      obtain ⟨hfirst, hrest⟩ := List.nodup_cons.mp hnodup
      have hhead : ((if packet.source = first then [first.counterNames.2] else []) ++
          if packet.destination = first then [first.counterNames.1] else []).count
            (ip.counterName side) =
          if packet.address side = first ∧ first.key = ip.key then 1 else 0 := by
        have hreceived : first.counterNames.2 = ip.counterName side ↔ _ :=
          IpAddr.counterName_eq_iff first ip .saddr side
        have hdelivered : first.counterNames.1 = ip.counterName side ↔ _ :=
          IpAddr.counterName_eq_iff first ip .daddr side
        cases side with
        | daddr =>
          rw [Packet.address]
          split_ifs <;> simp_all
        | saddr =>
          rw [Packet.address]
          split_ifs <;> simp_all
      rw [List.flatMap_cons, List.count_append, hhead, ih hrest]
      by_cases hsame : packet.address side = first
      · simp [hsame, hfirst]
      · simp [hsame]
  by_cases hmetered : policing.metered = []
  · simp [forwardNames, hmetered]
  · rw [forwardNames, hcounted.enforcing hmetered, Bool.and_self, if_pos rfl]
    exact hlist policing.metered hcounted.nodup

/-- What one input adds to a counter of an address. -/
theorem Becomes.total (hbecomes : policing.Becomes input after) (hcounted : policing.Counted)
    {node : Node Ruleset} (henacts : node.Enacts meaning policing) (ip : IpAddr) (side : Side) :
    after.total (ip.counterName side) = policing.total (ip.counterName side) +
      UInt64.ofNat (node.countedBytes ip side input).sum := by
  cases input with
  | allow other applies installs =>
    have hcount (before : Policing) : (before.count other).total (ip.counterName side) =
        before.total (ip.counterName side) := by
      unfold count
      split_ifs
      · rfl
      · rw [Policing.total, meter, Tallies.total_begin, Tallies.total_begin]
        rfl
    have hpermit : (policing.permit other).total (ip.counterName side) =
        policing.total (ip.counterName side) := rfl
    rw [show after = _ from hbecomes, Node.countedBytes]
    split_ifs <;> simp [hcount, hpermit]
  | deny other applies =>
    rw [show after = _ from hbecomes, Node.countedBytes]
    split_ifs <;> simp [revoke, Policing.total]
  | ensureUpstreamCounter other arpTable runs =>
    rw [Node.countedBytes]
    obtain rfl | ⟨mac, rfl⟩ := hbecomes
    · simp
    · simp [Policing.total, meterUpstream, Tallies.total_begin]
  | receive packet transit =>
    have hingress : ip.counterName side ∉ policing.ingressNames packet := by
      intro hmem
      obtain ⟨upstream, hupstream, hname⟩ := List.mem_map.mp hmem
      exact hcounted.upstreams upstream (List.mem_of_mem_filter hupstream) ip side hname
    rw [show after = _ from hbecomes, Policing.total, charged]
    cases transit with
    | false =>
      have hnone : policing.forwardNames packet false = [] := by simp [forwardNames]
      rw [hnone, Tallies.total_charge fun hmem ↦ absurd hmem List.not_mem_nil,
        Tallies.total_charge fun hmem ↦ absurd hmem hingress,
        List.count_eq_zero_of_not_mem hingress]
      simp [Node.countedBytes, Policing.total]
    | true =>
      have hcount := hcounted.count_forwardNames packet ip side
      rw [Tallies.total_charge fun hmem ↦ ?_, hcount,
        Tallies.total_charge fun hmem ↦ absurd hmem hingress,
        List.count_eq_zero_of_not_mem hingress]
      · simp only [Node.countedBytes, henacts.installed]
        split_ifs <;> simp [Policing.total]
      · have hboth : packet.address side ∈ policing.metered ∧
            (packet.address side).key = ip.key := by
          by_contra hneither
          rw [if_neg hneither, List.count_eq_zero] at hcount
          exact hcount hmem
        rw [Tallies.isSome_lookup_charge,
          ← (IpAddr.counterName_eq_iff (packet.address side) ip side side).mpr ⟨rfl, hboth.2⟩]
        exact hcounted.isSome _ hboth.1 side

/-- The addresses with installed rules are those that were permitted while `nft` could install
them. -/
theorem Becomes.mem_metered (hbecomes : policing.Becomes input after) (ip : IpAddr) :
    ip ∈ after.metered ↔ ip ∈ policing.metered ∨
      policing.forwarding = true ∧ ∃ applies, input = .allow ip applies true := by
  have hcount (before : Policing) (place : IpAddr) :
      ip ∈ (before.count place).metered ↔ ip = place ∨ ip ∈ before.metered := by
    unfold count
    split_ifs with hold
    · constructor
      · exact Or.inr
      · rintro (rfl | hmem)
        · exact hold
        · exact hmem
    · exact List.mem_cons
  cases input with
  | allow other applies installs =>
    have hpermit : (policing.permit other).metered = policing.metered ∧
        (policing.permit other).forwarding = policing.forwarding := ⟨rfl, rfl⟩
    rw [show after = _ from hbecomes]
    cases hforwarding : policing.forwarding <;> cases installs <;> cases applies <;>
      simp [hcount, hpermit, hforwarding, or_comm, eq_comm]
  | deny other applies =>
    rw [show after = _ from hbecomes]
    split_ifs <;> simp [revoke]
  | ensureUpstreamCounter other arpTable runs =>
    obtain rfl | ⟨mac, rfl⟩ := hbecomes <;> simp [meterUpstream]
  | receive packet transit =>
    rw [show after = _ from hbecomes]
    simp [charged]

end Policing

/-- The firewall that a node enacts after a run, with what the run adds to the counters of each
address and the addresses whose rules it installs. -/
theorem Node.Enacts.final_counted (hnft : nft.Documented meaning) {node : Node Ruleset}
    {policing : Policing} (henacts : node.Enacts meaning policing) (hcounted : policing.Counted)
    (inputs : List Node.Input) :
    ∃ after, ((machine nft).final node inputs).Enacts meaning after ∧ after.Counted ∧
      (∀ ip side, after.total (ip.counterName side) = policing.total (ip.counterName side) +
        UInt64.ofNat ((machine nft).observe (countedBytes ip side) node inputs).sum) ∧
      ∀ ip, ip ∈ after.metered ↔ ip ∈ policing.metered ∨
        policing.forwarding = true ∧ ∃ applies, Input.allow ip applies true ∈ inputs := by
  induction inputs generalizing node policing with
  | nil => exact ⟨policing, henacts, hcounted, fun ip side ↦ by simp, fun ip ↦ by simp⟩
  | cons input rest ih =>
    obtain ⟨middle, hmiddle, hbecomes⟩ := henacts.step hnft input
    obtain ⟨after, hafter, hstill, htotal, hmetered⟩ := ih hmiddle (hbecomes.counted hcounted)
    refine ⟨after, hafter, hstill, fun ip side ↦ ?_, fun ip ↦ ?_⟩
    · rw [htotal, hbecomes.total hcounted henacts, Transducer.observe_cons, List.sum_append,
        UInt64.ofNat_add, add_assoc]
    · rw [hmetered, hbecomes.mem_metered, hbecomes.forwarding, or_assoc, ← and_or_left]
      simp only [List.mem_cons, exists_or, eq_comm]

/-! ### The listing -/

/-- What `nft -j list counters` prints of a counter, with any numbers of packets. -/
def counterItem (packets : String → ℤ) (counter : String × UInt64) : Json :=
  .object [("family", .string "inet"), ("table", .string nftTable), ("name", .string counter.1),
    ("packets", .number (packets counter.1)), ("bytes", .ofU64 counter.2)]

/-- What `nft -j list counters` prints: something about itself, and the counters. -/
def counterListing (version : String) (packets : String → ℤ) (counters : List (String × UInt64)) :
    Json :=
  .object [("nftables", .array
    (.object [("metainfo", .object [("version", .string version)])] ::
      counters.map fun counter ↦ .object [("counter", counterItem packets counter)]))]

/-- The output is parsed as the counters of a ruleset, in some order. -/
def Lists (meaning : Ruleset → Option Policing) (fromStr : String → Option Json)
    (ruleset : Ruleset) (stdout : String) : Prop :=
  ∀ policing, meaning ruleset = some policing → ∃ version packets listed,
    fromStr stdout = some (counterListing version packets listed) ∧
      ∀ name, listed.lookup name = policing.counters.lookup name

theorem get_counterItem (packets : String → ℤ) (counter : String × UInt64) :
    ((counterItem packets counter).get "name").bind Json.asStr = some counter.1 ∧
      ((counterItem packets counter).get "bytes").bind Json.asU64 = some counter.2 := by
  have hne : "name" ≠ "family" ∧ "name" ≠ "table" ∧ "bytes" ≠ "family" ∧ "bytes" ≠ "table" ∧
      "bytes" ≠ "name" ∧ "bytes" ≠ "packets" := by
    simp
  obtain ⟨hfamily, htable, hfamily', htable', hname', hpackets'⟩ := hne
  constructor
  · rw [counterItem, Json.get, Tallies.lookup_cons_of_ne hfamily,
      Tallies.lookup_cons_of_ne htable, List.lookup_cons_self, Option.bind_some, Json.asStr]
  · rw [counterItem, Json.get, Tallies.lookup_cons_of_ne hfamily',
      Tallies.lookup_cons_of_ne htable', Tallies.lookup_cons_of_ne hname',
      Tallies.lookup_cons_of_ne hpackets', List.lookup_cons_self, Option.bind_some,
      Json.asU64_ofU64]

/-- The objects under `counter` in a listing are its counters. -/
theorem filterMap_listing (version : String) (packets : String → ℤ)
    (counters : List (String × UInt64)) :
    (Json.object [("metainfo", .object [("version", .string version)])] ::
      counters.map fun counter ↦ .object [("counter", counterItem packets counter)]).filterMap
        (Json.get "counter") = counters.map (counterItem packets) := by
  have hmeta : (Json.object [("metainfo", .object [("version", .string version)])]).get
      "counter" = none := by
    have hne : "counter" ≠ "metainfo" := by simp
    rw [Json.get, Tallies.lookup_cons_of_ne hne, List.lookup_nil]
  have hcounter : (Json.get "counter" ∘ fun counter ↦
      Json.object [("counter", counterItem packets counter)]) =
        fun counter ↦ some (counterItem packets counter) := by
    funext counter
    rw [Function.comp_apply, Json.get, List.lookup_cons_self]
  rw [List.filterMap_cons_none hmeta, List.filterMap_map, hcounter, List.filterMap_eq_map']

/-- The bytes found in a listing are those of the counter. -/
theorem parseCounterBytes_listing (version : String) (packets : String → ℤ)
    (counters : List (String × UInt64)) (name : String) :
    parseCounterBytes (counterListing version packets counters) name = counters.lookup name := by
  have hfound : (counters.map (counterItem packets)).find? (fun counter ↦
      decide ((counter.get "name").bind Json.asStr = some name)) =
        (counters.find? fun counter ↦ decide (counter.1 = name)).map (counterItem packets) := by
    rw [List.find?_map]
    congr 2
    funext counter
    simp only [Function.comp_apply, (get_counterItem packets counter).1, Option.some_inj]
  have hlist : (counterListing version packets counters).get "nftables" = some (.array
      (Json.object [("metainfo", .object [("version", .string version)])] ::
        counters.map fun counter ↦ .object [("counter", counterItem packets counter)])) := by
    rw [counterListing, Json.get, List.lookup_cons_self]
  rw [parseCounterBytes, hlist, Option.bind_eq_bind, Option.bind_some, Json.asArray,
    Option.bind_eq_bind, Option.bind_some, filterMap_listing, hfound, Tallies.lookup_eq_find?]
  cases counters.find? fun counter ↦ decide (counter.1 = name) with
  | none => rfl
  | some counter =>
    rw [Option.map_some, Option.map_some, Option.bind_some]
    exact (get_counterItem packets counter).2

/-- What is read of an address is what its counters show. -/
theorem Lists.readCounters {fromStr : String → Option Json} {ruleset : Ruleset} {stdout : String}
    (hlists : Lists meaning fromStr ruleset stdout) {policing : Policing}
    (hmeans : meaning ruleset = some policing) (ip : IpAddr) :
    readCounters fromStr (some stdout) ip =
      ⟨policing.total (ip.counterName .daddr), policing.total (ip.counterName .saddr)⟩ := by
  obtain ⟨version, packets, listed, hparsed, hlisted⟩ := hlists policing hmeans
  rw [Tollgate.readCounters, hparsed, Option.bind_some, Option.bind_some,
    parseCounterBytes_listing, parseCounterBytes_listing, hlisted, hlisted]
  rfl

end Runs

/-- An address is allowed and a packet comes: it is counted if it is from or to the address. -/
theorem Node.observe_allow_receive {Ruleset : Type} {nft : Netfilter Ruleset}
    {meaning : Ruleset → Option Policing} (hnft : nft.Documented meaning) (ruleset : Ruleset)
    (ip : IpAddr) (side : Side) (packet : Packet) :
    (machine nft).observe (countedBytes ip side) (init nft ruleset true true)
        [.allow ip true true, .receive packet true] =
      if packet.address side = ip then [packet.bytes] else [] := by
  obtain ⟨_, hallowed, rfl⟩ := (enacts_init hnft ruleset true).step hnft (.allow ip true true)
  have hinstalled (other : IpAddr) :
      other ∈ ((machine nft).step (init nft ruleset true true)
        (.allow ip true true)).1.installed ↔ other = ip := by
    rw [hallowed.installed]
    simp [Policing.count, Policing.meter, Policing.permit, Policing.start]
  simp only [Transducer.observe_cons, Transducer.observe_nil, countedBytes, List.nil_append,
    List.append_nil, hinstalled]
  refine if_congr ⟨fun hboth ↦ hboth.1, fun hsame ↦ ⟨hsame, congrArg IpAddr.key hsame⟩⟩ rfl rfl

end Tollgate
