import Tollgate.Library.Json
import Tollgate.Library.Scripts
import Tollgate.Library.Tallies
import Tollgate.Library.Transducer
import Tollgate.Net.Neighbours

/-!
# The firewall adapter

`adapter.rs` on Linux: the scripts it hands to `nft`, and what it remembers of them. `nft` and the
kernel's packet filter are what they are given as (`Netfilter`). `Node` is the adapter beside the
ruleset, a machine over the calls of the driver and the packets of the network; each call also says
whether `nft` could be run. `allow` and `deny` change the sets of paid addresses, `ensureCounters`
installs the rules that count a peer's bytes, once for each process.
-/

set_option autoImplicit false
set_option relaxedAutoImplicit false

namespace Tollgate

open Text

namespace IpAddr

/-- `IpAddr::to_string`. -/
def toString (ip : IpAddr) : String :=
  String.ofList ip.toText

/-- The key word of the family in a rule. -/
def proto : IpAddr → String
  | v4 _ => "ip"
  | v6 _ => "ip6"

/-- The set for a paid address. -/
def paidSet : IpAddr → String
  | v4 _ => "paid_peers_v4"
  | v6 _ => "paid_peers_v6"

end IpAddr

/-! ### What is handed to `nft` -/

def nftTable : String := "tollgate"

/-- The base ruleset: a fresh table with the two sets and, if wanted, the chain that drops what is
neither established nor from or to a paid address. -/
def initLines (installForwardChain : Bool) : List (List String) :=
  [["add", "table", "inet", nftTable],
    ["delete", "table", "inet", nftTable],
    ["add", "table", "inet", nftTable],
    ["add", "set", "inet", nftTable, "paid_peers_v4", "\x7b", "type", "ipv4_addr;", "flags",
      "interval;", "\x7d"],
    ["add", "set", "inet", nftTable, "paid_peers_v6", "\x7b", "type", "ipv6_addr;", "flags",
      "interval;", "\x7d"]] ++
  if installForwardChain then
    [["add", "chain", "inet", nftTable, "forward", "\x7b", "type", "filter", "hook", "forward",
        "priority", "0;", "policy", "drop;", "\x7d"],
      ["add", "rule", "inet", nftTable, "forward", "ct", "state", "established,related", "accept"],
      ["add", "rule", "inet", nftTable, "forward", "ip", "saddr", "@paid_peers_v4", "accept"],
      ["add", "rule", "inet", nftTable, "forward", "ip", "daddr", "@paid_peers_v4", "accept"],
      ["add", "rule", "inet", nftTable, "forward", "ip6", "saddr", "@paid_peers_v6", "accept"],
      ["add", "rule", "inet", nftTable, "forward", "ip6", "daddr", "@paid_peers_v6", "accept"]]
  else []

/-- The batch of `init`. -/
def initScript (installForwardChain : Bool) : String :=
  Script.text (initLines installForwardChain)

/-- `nft_element_args`. -/
def nftElementArgs (ip : IpAddr) (add : Bool) : List String :=
  [if add then "add" else "delete", "element", "inet", nftTable, ip.paidSet,
    "\x7b " ++ ip.toString ++ " \x7d"]

def countersLines (ip : IpAddr) : List (List String) :=
  [["add", "counter", "inet", nftTable, ip.counterNames.1],
    ["add", "counter", "inet", nftTable, ip.counterNames.2],
    ["insert", "rule", "inet", nftTable, "forward", ip.proto, "daddr", ip.toString, "counter",
      "name", ip.counterNames.1],
    ["insert", "rule", "inet", nftTable, "forward", ip.proto, "saddr", ip.toString, "counter",
      "name", ip.counterNames.2]]

/-- The batch of `ensure_counters`. -/
def countersScript (ip : IpAddr) : String :=
  Script.text (countersLines ip)

def upstreamLines (name mac : String) : List (List String) :=
  [["add", "table", "inet", nftTable],
    ["add", "chain", "inet", nftTable, "ingress", "\x7b", "type", "filter", "hook", "prerouting",
      "priority", "-300;", "\x7d"],
    ["add", "counter", "inet", nftTable, name],
    ["insert", "rule", "inet", nftTable, "ingress", "ether", "saddr", mac, "counter", "name", name]]

/-- The batch of `ensure_upstream_counter`. -/
def upstreamScript (ip : IpAddr) (mac : String) : String :=
  Script.text (upstreamLines ip.upstreamCounterName mac)

/-! ### What is read of the counters -/

/-- `parse_counter_bytes`, from the parsed listing. The first counter of the name decides. -/
def parseCounterBytes (listing : Json) (name : String) : Option UInt64 := do
  let items ← (← listing.get "nftables").asArray
  let counter ← (items.filterMap (Json.get "counter")).find? fun counter ↦
    decide ((counter.get "name").bind Json.asStr = some name)
  (counter.get "bytes").bind Json.asU64

/-- `nft::read`, from the output of `nft`, if it could be run. `fromStr` is `serde_json`. -/
def readCounters (fromStr : String → Option Json) (output : Option String) (ip : IpAddr) :
    Counters :=
  match output with
  | none => ⟨0, 0⟩
  | some stdout =>
    ⟨((fromStr stdout).bind fun listing ↦ parseCounterBytes listing ip.counterNames.1).getD 0,
      ((fromStr stdout).bind fun listing ↦ parseCounterBytes listing ip.counterNames.2).getD 0⟩

/-! ### The node -/

/-- Which address of a packet. -/
inductive Side
  | saddr | daddr
  deriving DecidableEq, Repr

/-- What the filter sees of a packet. `tracked` is whether it belongs to an established connection
or one related to it, and `etherSource` the hardware address it comes from. -/
structure Packet where
  tracked : Bool
  source : IpAddr
  destination : IpAddr
  etherSource : String
  bytes : ℕ
  deriving DecidableEq

def Packet.address (packet : Packet) : Side → IpAddr
  | .saddr => packet.source
  | .daddr => packet.destination

/-- The program `nft` and the packet filter of the kernel, with the rulesets that they share: what a
batch (`nft -f -`) and a command in arguments make of a ruleset, unless they are refused, which
texts are read as hardware addresses, whether a packet in transit is forwarded, and the ruleset once
a packet has arrived. -/
structure Netfilter (Ruleset : Type) where
  batch : Ruleset → String → Option Ruleset
  command : Ruleset → List String → Option Ruleset
  readsMac : String → Bool
  forwards : Ruleset → Packet → Bool
  arrived : Ruleset → Packet → Bool → Ruleset

/-- The adapter and the kernel's ruleset: whether counters have a chain to stand in, the addresses
whose rules this process has installed, and those of the upstreams. -/
structure Node (Ruleset : Type) where
  countersAvailable : Bool
  installed : Finset IpAddr
  installedUp : Finset IpAddr
  ruleset : Ruleset

namespace Node

section Calls

variable {Ruleset : Type} (nft : Netfilter Ruleset) (node : Node Ruleset)

/-- `run_batch`, if `nft` can be run: what it leaves, and whether it succeeded. -/
def runBatch (runs : Bool) (script : String) : Node Ruleset × Bool :=
  if runs then
    match nft.batch node.ruleset script with
    | some ruleset => ({ node with ruleset := ruleset }, true)
    | none => (node, false)
  else (node, false)

/-- `IpAdapter::init`, in a new process: nothing is installed yet. -/
def init (ruleset : Ruleset) (runs installForwardChain : Bool) : Node Ruleset :=
  (runBatch nft ⟨installForwardChain, ∅, ∅, ruleset⟩ runs (initScript installForwardChain)).1

/-- `nft::apply`. What fails is only logged. -/
def apply (runs : Bool) (ip : IpAddr) (add : Bool) : Node Ruleset :=
  if runs then
    { node with
      ruleset := (nft.command node.ruleset (nftElementArgs ip add)).getD node.ruleset }
  else node

/-- `nft::ensure_counters`. What could not be installed is tried again the next time. -/
def ensureCounters (runs : Bool) (ip : IpAddr) : Node Ruleset :=
  if ip ∈ node.installed then node
  else
    let marked : Node Ruleset := { node with installed := insert ip node.installed }
    let result := marked.runBatch nft runs (countersScript ip)
    if result.2 then result.1
    else { result.1 with installed := result.1.installed.erase ip }

/-- `IpAdapter::allow`. -/
def allow (applies installs : Bool) (ip : IpAddr) : Node Ruleset :=
  let applied := node.apply nft applies ip true
  if applied.countersAvailable then applied.ensureCounters nft installs ip else applied

/-- `IpAdapter::deny`. -/
def deny (applies : Bool) (ip : IpAddr) : Node Ruleset :=
  node.apply nft applies ip false

/-- `nft::ensure_upstream_counter`, with the neighbour table if it can be read. -/
def ensureUpstreamCounter (runs : Bool) (arpTable : Option String) (ip : IpAddr) : Node Ruleset :=
  if ip ∈ node.installedUp then node
  else
    match arpTable.bind fun table ↦ parseArpMac table ip.toString with
    | none => node
    | some mac =>
      let result := node.runBatch nft runs (upstreamScript ip mac)
      if result.2 then { result.1 with installedUp := insert ip result.1.installedUp }
      else result.1

end Calls

/-- What happens to a node. -/
inductive Input
  | allow (ip : IpAddr) (applies installs : Bool)
  | deny (ip : IpAddr) (applies : Bool)
  | ensureUpstreamCounter (ip : IpAddr) (arpTable : Option String) (runs : Bool)
  | receive (packet : Packet) (transit : Bool)
  deriving DecidableEq

/-- A node over what happens to it; it puts out the packets it forwards. -/
def machine {Ruleset : Type} (nft : Netfilter Ruleset) :
    Transducer (Node Ruleset) Input Packet where
  step node
    | .allow ip applies installs => (node.allow nft applies installs ip, [])
    | .deny ip applies => (node.deny nft applies ip, [])
    | .ensureUpstreamCounter ip arpTable runs =>
      (node.ensureUpstreamCounter nft runs arpTable ip, [])
    | .receive packet transit =>
      ({ node with ruleset := nft.arrived node.ruleset packet transit },
        if transit && nft.forwards node.ruleset packet then [packet] else [])

end Node

/-! ### Words of the scripts -/

namespace IpAddr

@[simp] theorem toList_toString (ip : IpAddr) : ip.toString.toList = ip.toText :=
  String.toList_ofList

theorem toString_injective : Function.Injective toString := fun _ _ hsame ↦
  toText_injective (String.ofList_injective hsame)

theorem isToken_of_isWord {word : String} (hword : Text.IsWord isWhiteSpace word.toList) :
    Script.IsToken word := by
  refine ⟨hword.1, fun char hchar hmem ↦ ?_⟩
  have hblack := hword.2 char hchar
  simp only [List.mem_cons, List.not_mem_nil, or_false] at hmem
  obtain rfl | rfl | rfl | rfl := hmem <;> exact absurd hblack (by decide)

theorem isToken_toString (ip : IpAddr) : Script.IsToken ip.toString :=
  isToken_of_isWord (by rw [toList_toString]; exact ip.isWord_toText)

theorem isToken_name {ip : IpAddr} {name : String} (hname : name ∈ ip.names) :
    Script.IsToken name := by
  constructor
  · simp only [names, counterNames, upstreamCounterName, List.mem_cons, List.not_mem_nil,
      or_false] at hname
    obtain rfl | rfl | rfl := hname <;> simp
  · intro char hchar hmem
    have hidentifier := inIdentifier_of_mem_names hname char hchar
    simp only [List.mem_cons, List.not_mem_nil, or_false] at hmem
    obtain rfl | rfl | rfl | rfl := hmem <;> exact absurd hidentifier (by decide)

end IpAddr

theorem tokens_init (installForwardChain : Bool) :
    Script.Tokens (initLines installForwardChain) := by
  cases installForwardChain <;> simp [Script.Tokens, initLines, Script.IsToken, nftTable]

theorem tokens_counters (ip : IpAddr) : Script.Tokens (countersLines ip) := by
  have hdelivered := IpAddr.isToken_name (show ip.counterNames.1 ∈ ip.names by simp [IpAddr.names])
  have hreceived := IpAddr.isToken_name (show ip.counterNames.2 ∈ ip.names by simp [IpAddr.names])
  have hproto : Script.IsToken ip.proto := by cases ip <;> simp [IpAddr.proto, Script.IsToken]
  simp [Script.Tokens, countersLines, nftTable, ip.isToken_toString, hproto, hdelivered, hreceived]
  simp [Script.IsToken]

theorem tokens_upstream (ip : IpAddr) {mac : String} (hmac : Script.IsToken mac) :
    Script.Tokens (upstreamLines ip.upstreamCounterName mac) := by
  have hname :=
    IpAddr.isToken_name (show ip.upstreamCounterName ∈ ip.names by simp [IpAddr.names])
  simp [Script.Tokens, upstreamLines, nftTable, hname, hmac]
  simp [Script.IsToken]

/-- The hardware address that the neighbour table gives is one word. -/
theorem isToken_of_parseArpMac {arpTable ip mac : String}
    (hmac : parseArpMac arpTable ip = some mac) : Script.IsToken mac := by
  obtain ⟨text, htext, rfl⟩ := Option.map_eq_some_iff.mp hmac
  refine IpAddr.isToken_of_isWord ?_
  rw [String.toList_ofList]
  clear hmac
  generalize (Text.lines arpTable.toList).drop 1 = table at htext
  induction table with
  | nil => exact absurd htext (by simp [searchArp])
  | cons line rest ih =>
    rw [searchArp] at htext
    split at htext
    · next first columns hwords =>
      split_ifs at htext
      · obtain ⟨mac, hcolumn, hcomplete⟩ := Option.bind_eq_some_iff.mp htext
        split_ifs at hcomplete
        obtain rfl := Option.some.inj hcomplete
        have hmem : mac ∈ Text.words isWhiteSpace line := by
          rw [hwords]
          exact List.mem_cons_of_mem _ (List.mem_of_getElem? hcolumn)
        exact Text.isWord_of_mem_words hmem
      · exact ih htext
    · exact ih htext

end Tollgate
