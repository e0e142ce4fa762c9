import Tollgate.Net.Nftables

/-!
# The firewall in its own terms

`Policing` is what a ruleset of the adapter means: the addresses that have paid, those whose bytes
are counted, the upstreams, and the totals. What is supposed of `nft` and of the kernel is
`Netfilter.Documented`: what each script of the adapter makes of the meaning of a ruleset, and what
a packet meets there. Under it a node enacts a firewall, and every call and every packet does to the
one what it does to the other (`Node.Enacts.step`).
-/

set_option autoImplicit false
set_option relaxedAutoImplicit false

namespace Tollgate

/-! ### What a ruleset is for -/

/-- What the firewall holds: who may forward, whose bytes are counted (the latest first), the
counters of the upstreams with their hardware addresses, and the totals. `forwarding` says whether
it enforces on its own. -/
structure Policing where
  forwarding : Bool
  paid : Finset IpAddr
  metered : List IpAddr
  upstreams : List (String × String)
  counters : List (String × UInt64)

namespace Policing

/-- The firewall after `init`. -/
def start (forwarding : Bool) : Policing where
  forwarding := forwarding
  paid := ∅
  metered := []
  upstreams := []
  counters := []

variable (policing : Policing)

/-- Permit an address. -/
def permit (ip : IpAddr) : Policing :=
  { policing with paid := insert ip policing.paid }

/-- Revoke an address. -/
def revoke (ip : IpAddr) : Policing :=
  { policing with paid := policing.paid.erase ip }

/-- Count the bytes of an address, once more if they are counted already. -/
def meter (ip : IpAddr) : Policing :=
  { policing with
    metered := ip :: policing.metered
    counters := Tallies.begin ip.counterNames.2
      (Tallies.begin ip.counterNames.1 policing.counters) }

/-- Count the bytes that come from a hardware address. -/
def meterUpstream (name mac : String) : Policing :=
  { policing with
    upstreams := (name, mac) :: policing.upstreams
    counters := Tallies.begin name policing.counters }

/-- A packet in transit may be forwarded. -/
def Admits (packet : Packet) : Prop :=
  policing.forwarding = true →
    packet.tracked = true ∨ packet.source ∈ policing.paid ∨ packet.destination ∈ policing.paid

instance (packet : Packet) : Decidable (policing.Admits packet) :=
  inferInstanceAs (Decidable (_ → _))

/-- The counters that a packet adds to, by its hardware address and by its two addresses. -/
def ingressNames (packet : Packet) : List String :=
  (policing.upstreams.filter fun upstream ↦ decide (upstream.2 = packet.etherSource)).map Prod.fst

def forwardNames (packet : Packet) (transit : Bool) : List String :=
  if policing.forwarding && transit then
    policing.metered.flatMap fun ip ↦
      (if packet.source = ip then [ip.counterNames.2] else []) ++
        if packet.destination = ip then [ip.counterNames.1] else []
  else []

/-- Count a packet, whether or not it is forwarded. -/
def charged (packet : Packet) (transit : Bool) : Policing :=
  { policing with
    counters := Tallies.charge packet.bytes (policing.forwardNames packet transit)
      (Tallies.charge packet.bytes (policing.ingressNames packet) policing.counters) }

/-- What the adapter makes of the firewall: it counts no address twice. -/
def count (ip : IpAddr) : Policing :=
  if ip ∈ policing.metered then policing else policing.meter ip

/-- What an input makes of the firewall. An upstream is counted from then on, or not yet. -/
def Becomes : Node.Input → Policing → Prop
  | .allow ip applies installs, after =>
    let permitted := if applies then policing.permit ip else policing
    after = if permitted.forwarding && installs then permitted.count ip else permitted
  | .deny ip applies, after => after = if applies then policing.revoke ip else policing
  | .ensureUpstreamCounter ip _ _, after =>
    after = policing ∨ ∃ mac, after = policing.meterUpstream ip.upstreamCounterName mac
  | .receive packet transit, after => after = policing.charged packet transit

end Policing

/-! ### What is supposed of `nft` -/

section Documented

variable {Ruleset : Type}

/-- What `nft` and the packet filter do, on a ruleset of the adapter and with its scripts, where no
table of another program drops packets. A batch is carried out as a whole: that of `init` leaves a
fresh table, those of the counters put their rules in front of the others. An element is added to a
set if it is not there, and one that is not there cannot be deleted. In the forward chain a packet
is counted by every rule that matches it before a rule accepts it, and the policy drops what no rule
accepts; at the ingress it is only counted. -/
structure Netfilter.Documented (nft : Netfilter Ruleset) (meaning : Ruleset → Option Policing) :
    Prop where
  init : ∀ ruleset forwarding,
    (nft.batch ruleset (initScript forwarding)).bind meaning = some (.start forwarding)
  add : ∀ {ruleset policing}, meaning ruleset = some policing → ∀ ip,
    (nft.command ruleset (nftElementArgs ip true)).bind meaning = some (policing.permit ip)
  delete : ∀ {ruleset policing}, meaning ruleset = some policing → ∀ ip ∈ policing.paid,
    (nft.command ruleset (nftElementArgs ip false)).bind meaning = some (policing.revoke ip)
  delete_absent : ∀ {ruleset policing}, meaning ruleset = some policing → ∀ ip ∉ policing.paid,
    nft.command ruleset (nftElementArgs ip false) = none
  counters : ∀ {ruleset policing}, meaning ruleset = some policing → policing.forwarding = true →
    ∀ ip, (nft.batch ruleset (countersScript ip)).bind meaning = some (policing.meter ip)
  upstream : ∀ {ruleset policing}, meaning ruleset = some policing → ∀ ip mac,
    Script.IsToken mac → nft.readsMac mac = true →
      (nft.batch ruleset (upstreamScript ip mac)).bind meaning =
        some (policing.meterUpstream ip.upstreamCounterName mac)
  upstream_refused : ∀ {ruleset policing}, meaning ruleset = some policing → ∀ ip mac,
    Script.IsToken mac → nft.readsMac mac = false →
      nft.batch ruleset (upstreamScript ip mac) = none
  forwards : ∀ {ruleset policing}, meaning ruleset = some policing → ∀ packet,
    (nft.forwards ruleset packet = true ↔ policing.Admits packet)
  arrived : ∀ {ruleset policing}, meaning ruleset = some policing → ∀ packet transit,
    meaning (nft.arrived ruleset packet transit) = some (policing.charged packet transit)

/-- The node enacts a firewall: its ruleset means it, and the adapter remembers what is installed in
it. -/
structure Node.Enacts (meaning : Ruleset → Option Policing) (node : Node Ruleset)
    (policing : Policing) : Prop where
  means : meaning node.ruleset = some policing
  countersAvailable : node.countersAvailable = policing.forwarding
  installed : ∀ ip, ip ∈ node.installed ↔ ip ∈ policing.metered

variable {nft : Netfilter Ruleset} {meaning : Ruleset → Option Policing} {node : Node Ruleset}
  {policing : Policing}

/-- After `init` the firewall is there, whatever was there before. -/
theorem Node.enacts_init (hnft : nft.Documented meaning) (ruleset : Ruleset) (forwarding : Bool) :
    (init nft ruleset true forwarding).Enacts meaning (.start forwarding) := by
  obtain ⟨after, hafter, hmeans⟩ := Option.bind_eq_some_iff.mp (hnft.init ruleset forwarding)
  have hinit : init nft ruleset true forwarding = ⟨forwarding, ∅, ∅, after⟩ := by
    simp [init, runBatch, hafter]
  rw [hinit]
  exact ⟨hmeans, rfl, fun ip ↦ by simp [Policing.start]⟩

namespace Node.Enacts

theorem apply (hnft : nft.Documented meaning) (henacts : node.Enacts meaning policing)
    (runs : Bool) (ip : IpAddr) (add : Bool) :
    (node.apply nft runs ip add).Enacts meaning
      (if runs then if add then policing.permit ip else policing.revoke ip else policing) := by
  cases runs with
  | false => exact henacts
  | true =>
    cases add with
    | true =>
      obtain ⟨after, hafter, hmeans⟩ := Option.bind_eq_some_iff.mp (hnft.add henacts.means ip)
      have happly : node.apply nft true ip true = { node with ruleset := after } := by
        simp [Node.apply, hafter]
      rw [happly]
      exact ⟨hmeans, henacts.countersAvailable, henacts.installed⟩
    | false =>
      by_cases hpaid : ip ∈ policing.paid
      · obtain ⟨after, hafter, hmeans⟩ :=
          Option.bind_eq_some_iff.mp (hnft.delete henacts.means ip hpaid)
        have happly : node.apply nft true ip false = { node with ruleset := after } := by
          simp [Node.apply, hafter]
        rw [happly]
        exact ⟨hmeans, henacts.countersAvailable, henacts.installed⟩
      · -- The deletion fails, and there was nothing to delete.
        have happly : node.apply nft true ip false = node := by
          simp [Node.apply, hnft.delete_absent henacts.means ip hpaid]
        have hrevoke : policing.revoke ip = policing := by
          rw [Policing.revoke, Finset.erase_eq_of_notMem hpaid]
        simp only [happly, if_true, Bool.false_eq_true, if_false, hrevoke]
        exact henacts

theorem ensureCounters (hnft : nft.Documented meaning) (henacts : node.Enacts meaning policing)
    (hforwarding : policing.forwarding = true) (runs : Bool) (ip : IpAddr) :
    (node.ensureCounters nft runs ip).Enacts meaning
      (if runs then policing.count ip else policing) := by
  by_cases hmetered : ip ∈ policing.metered
  · rw [Node.ensureCounters, if_pos ((henacts.installed ip).mpr hmetered), Policing.count,
      if_pos hmetered, ite_self]
    exact henacts
  · have hnew : ip ∉ node.installed := (henacts.installed ip).not.mpr hmetered
    rw [Node.ensureCounters, if_neg hnew, Policing.count, if_neg hmetered]
    cases runs with
    | false =>
      refine ⟨henacts.means, henacts.countersAvailable, fun other ↦ ?_⟩
      simp [runBatch, hnew, henacts.installed]
    | true =>
      obtain ⟨after, hafter, hmeans⟩ :=
        Option.bind_eq_some_iff.mp (hnft.counters henacts.means hforwarding ip)
      simp only [runBatch, hafter, if_true]
      refine ⟨hmeans, henacts.countersAvailable, fun other ↦ ?_⟩
      simp [Policing.meter, henacts.installed]

theorem ensureUpstreamCounter (hnft : nft.Documented meaning)
    (henacts : node.Enacts meaning policing) (runs : Bool) (arpTable : Option String)
    (ip : IpAddr) :
    ∃ after, (node.ensureUpstreamCounter nft runs arpTable ip).Enacts meaning after ∧
      policing.Becomes (.ensureUpstreamCounter ip arpTable runs) after := by
  have hsame {other : Node Ruleset} (hruleset : other.ruleset = node.ruleset)
      (hcounters : other.countersAvailable = node.countersAvailable)
      (hinstalled : other.installed = node.installed) :
      ∃ after, other.Enacts meaning after ∧
        policing.Becomes (.ensureUpstreamCounter ip arpTable runs) after := by
    refine ⟨policing, ⟨?_, ?_, ?_⟩, Or.inl rfl⟩
    · rw [hruleset, henacts.means]
    · rw [hcounters, henacts.countersAvailable]
    · rw [hinstalled]
      exact henacts.installed
  rw [Node.ensureUpstreamCounter]
  split_ifs
  · exact hsame rfl rfl rfl
  · cases hmac : arpTable.bind fun table ↦ parseArpMac table ip.toString with
    | none => exact hsame rfl rfl rfl
    | some mac =>
      obtain ⟨table, -, hparse⟩ := Option.bind_eq_some_iff.mp hmac
      have htoken := isToken_of_parseArpMac hparse
      cases runs with
      | false => exact hsame rfl rfl rfl
      | true =>
        cases hreads : nft.readsMac mac with
        | false =>
          have hrefused := hnft.upstream_refused henacts.means ip mac htoken hreads
          simp only [runBatch, hrefused, if_true]
          exact hsame rfl rfl rfl
        | true =>
          obtain ⟨after, hafter, hmeans⟩ :=
            Option.bind_eq_some_iff.mp (hnft.upstream henacts.means ip mac htoken hreads)
          simp only [runBatch, hafter, if_true]
          exact ⟨_, ⟨hmeans, henacts.countersAvailable, henacts.installed⟩, Or.inr ⟨mac, rfl⟩⟩

/-- A call or a packet does to the node what it does to the firewall. -/
theorem step (hnft : nft.Documented meaning) (henacts : node.Enacts meaning policing)
    (input : Node.Input) :
    ∃ after, ((Node.machine nft).step node input).1.Enacts meaning after ∧
      policing.Becomes input after := by
  cases input with
  | allow ip applies installs =>
    have happlied := henacts.apply hnft applies ip true
    rw [if_pos rfl] at happlied
    refine ⟨_, ?_, rfl⟩
    show (node.allow nft applies installs ip).Enacts meaning _
    rw [Node.allow]
    cases hforwarding : (if applies then policing.permit ip else policing).forwarding with
    | false =>
      simp only [happlied.countersAvailable, hforwarding, Bool.false_eq_true, if_false,
        Bool.false_and]
      exact happlied
    | true =>
      simp only [happlied.countersAvailable, hforwarding, if_true, Bool.true_and]
      exact happlied.ensureCounters hnft hforwarding installs ip
  | deny ip applies =>
    refine ⟨_, ?_, rfl⟩
    have happlied := henacts.apply hnft applies ip false
    rw [if_neg Bool.false_ne_true] at happlied
    exact happlied
  | ensureUpstreamCounter ip arpTable runs =>
    exact henacts.ensureUpstreamCounter hnft runs arpTable ip
  | receive packet transit =>
    exact ⟨_, ⟨hnft.arrived henacts.means packet transit, henacts.countersAvailable,
      henacts.installed⟩, rfl⟩

end Node.Enacts

end Documented

/-! ### An `nft` that does as supposed -/

theorem initScript_injective : Function.Injective initScript := by
  intro one other hsame
  have hlines := Script.text_injective (tokens_init one) (tokens_init other) hsame
  cases one <;> cases other <;> first | rfl | exact absurd hlines (by decide)

theorem countersScript_ne_initScript (ip : IpAddr) (forwarding : Bool) :
    countersScript ip ≠ initScript forwarding := by
  intro hsame
  have hlines := Script.text_injective (tokens_counters ip) (tokens_init forwarding) hsame
  simp [countersLines, initLines] at hlines

theorem countersScript_injective : Function.Injective countersScript := by
  intro ip other hsame
  have hlines := Script.text_injective (tokens_counters ip) (tokens_counters other) hsame
  simp only [countersLines, List.cons.injEq] at hlines
  exact IpAddr.toString_injective hlines.2.2.1.2.2.2.2.2.2.2.1

section Upstream

variable {name mac : String} (htokens : Script.Tokens (upstreamLines name mac))
include htokens

theorem upstreamScript_ne_initScript (forwarding : Bool) :
    Script.text (upstreamLines name mac) ≠ initScript forwarding := by
  intro hsame
  have hlines := Script.text_injective htokens (tokens_init forwarding) hsame
  simp [upstreamLines, initLines] at hlines

theorem upstreamScript_ne_countersScript (ip : IpAddr) :
    Script.text (upstreamLines name mac) ≠ countersScript ip := by
  intro hsame
  have hlines := Script.text_injective htokens (tokens_counters ip) hsame
  simp [upstreamLines, countersLines] at hlines

theorem upstreamScript_injective {otherName otherMac : String}
    (hothers : Script.Tokens (upstreamLines otherName otherMac))
    (hsame : Script.text (upstreamLines name mac) =
      Script.text (upstreamLines otherName otherMac)) :
    otherName = name ∧ otherMac = mac := by
  have hlines := Script.text_injective htokens hothers hsame
  simp only [upstreamLines, List.cons.injEq] at hlines
  exact ⟨hlines.2.2.1.2.2.2.2.1.symm, hlines.2.2.2.1.2.2.2.2.2.2.2.1.symm⟩

end Upstream

theorem nftElementArgs_injective {ip other : IpAddr} {add otherAdd : Bool}
    (hsame : nftElementArgs ip add = nftElementArgs other otherAdd) :
    other = ip ∧ add = otherAdd := by
  simp only [nftElementArgs, List.cons.injEq] at hsame
  obtain ⟨hadd, -, -, -, -, haddress, -⟩ := hsame
  refine ⟨IpAddr.toString_injective ?_, ?_⟩
  · simpa [← String.toList_inj] using haddress.symm
  · cases add <;> cases otherAdd <;> first | rfl | exact absurd hadd (by decide)

namespace Netfilter

open Classical in
/-- An `nft` whose rulesets are what they mean. It takes the scripts of the adapter, and carries
them out as supposed. -/
noncomputable def sample : Netfilter (Option Policing) where
  batch ruleset script :=
    if hinit : ∃ forwarding, script = initScript forwarding then
      some (some (.start hinit.choose))
    else if hcounters : ∃ ip, script = countersScript ip then
      ruleset.bind fun policing ↦
        if policing.forwarding then some (some (policing.meter hcounters.choose)) else none
    else if hupstream : ∃ upstream : String × String,
        Script.Tokens (upstreamLines upstream.1 upstream.2) ∧
          script = Script.text (upstreamLines upstream.1 upstream.2) then
      ruleset.map fun policing ↦
        some (policing.meterUpstream hupstream.choose.1 hupstream.choose.2)
    else none
  command ruleset args :=
    if helement : ∃ element : IpAddr × Bool, args = nftElementArgs element.1 element.2 then
      ruleset.bind fun policing ↦
        if helement.choose.2 then some (some (policing.permit helement.choose.1))
        else if helement.choose.1 ∈ policing.paid then
          some (some (policing.revoke helement.choose.1))
        else none
    else none
  readsMac _ := true
  forwards ruleset packet := ruleset.all fun policing ↦ decide (policing.Admits packet)
  arrived ruleset packet transit := ruleset.map fun policing ↦ policing.charged packet transit

theorem sample_command (policing : Policing) (ip : IpAddr) (add : Bool) :
    sample.command (some policing) (nftElementArgs ip add) =
      if add then some (some (policing.permit ip))
      else if ip ∈ policing.paid then some (some (policing.revoke ip)) else none := by
  have helement : ∃ element : IpAddr × Bool,
      nftElementArgs ip add = nftElementArgs element.1 element.2 := ⟨(ip, add), rfl⟩
  obtain ⟨haddress, hadd⟩ := nftElementArgs_injective helement.choose_spec
  simp only [sample, dif_pos helement, Option.bind_some, haddress, ← hadd]

theorem sample_documented : sample.Documented id where
  init ruleset forwarding := by
    have hinit : ∃ other, initScript forwarding = initScript other := ⟨forwarding, rfl⟩
    have hchosen : hinit.choose = forwarding := initScript_injective hinit.choose_spec.symm
    simp only [sample, dif_pos hinit, hchosen]
    rfl
  add := by
    rintro _ policing rfl ip
    rw [sample_command]
    rfl
  delete := by
    rintro _ policing rfl ip hpaid
    rw [sample_command, if_neg Bool.false_ne_true, if_pos hpaid]
    rfl
  delete_absent := by
    rintro _ policing rfl ip hpaid
    rw [sample_command, if_neg Bool.false_ne_true, if_neg hpaid]
  counters := by
    rintro _ policing rfl hforwarding ip
    have hinit : ¬ ∃ forwarding, countersScript ip = initScript forwarding :=
      fun ⟨forwarding, hsame⟩ ↦ countersScript_ne_initScript ip forwarding hsame
    have hcounters : ∃ other, countersScript ip = countersScript other := ⟨ip, rfl⟩
    have hchosen : hcounters.choose = ip := countersScript_injective hcounters.choose_spec.symm
    simp only [sample, dif_neg hinit, dif_pos hcounters, hchosen]
    rw [Option.bind_some, if_pos hforwarding]
    rfl
  upstream := by
    rintro _ policing rfl ip mac hmac -
    have htokens := tokens_upstream ip hmac
    have hinit : ¬ ∃ forwarding, upstreamScript ip mac = initScript forwarding :=
      fun ⟨forwarding, hsame⟩ ↦ upstreamScript_ne_initScript htokens forwarding hsame
    have hcounters : ¬ ∃ other, upstreamScript ip mac = countersScript other :=
      fun ⟨other, hsame⟩ ↦ upstreamScript_ne_countersScript htokens other hsame
    have hupstream : ∃ upstream : String × String,
        Script.Tokens (upstreamLines upstream.1 upstream.2) ∧
          upstreamScript ip mac = Script.text (upstreamLines upstream.1 upstream.2) :=
      ⟨(ip.upstreamCounterName, mac), htokens, rfl⟩
    obtain ⟨hothers, hsame⟩ := hupstream.choose_spec
    obtain ⟨hname, hchosen⟩ := upstreamScript_injective htokens hothers hsame
    simp only [sample, dif_neg hinit, dif_neg hcounters, dif_pos hupstream, hname, hchosen]
    rfl
  upstream_refused := by
    rintro _ policing rfl ip mac - hreads
    exact absurd hreads (by simp [sample])
  forwards := by
    rintro _ policing rfl packet
    simp [sample]
  arrived := by
    rintro _ policing rfl packet transit
    rfl

end Netfilter

end Tollgate
