import Tollgate.Library.Transducer
import Tollgate.Net.Enforcement

/-!
# What the network monitor says about a link

`network_monitor.rs`: netlink messages come in, events go out, and of one kind of event for one
interface there is at most one in `throttle_duration`. What the kernel's tables say at the time of a
message is part of the reading.

The events need not end where the link does. A link that goes down without being deleted is no event
at all, and an event that comes too early is dropped for good and not sent later.
`Undisturbed` is what has to hold of every message for the last event to match the last message.
-/

set_option autoImplicit false
set_option relaxedAutoImplicit false

namespace Tollgate

/-! ### Netlink -/

/-- The attributes of a link that are read. -/
inductive LinkAttribute
  | ifName (name : String)
  | address (bytes : List UInt8)
  | other

structure LinkMessage where
  index : UInt32
  up : Bool
  running : Bool
  loopback : Bool
  attributes : List LinkAttribute

inductive AddressAttribute
  | address (ip : IpAddr)
  | other

structure AddressMessage where
  index : UInt32
  prefixLen : UInt8
  attributes : List AddressAttribute

inductive AddressFamily
  | inet
  | inet6
  | other
  deriving DecidableEq

inductive RouteAddress
  | inet (octets : Vector UInt8 4)
  | inet6 (octets : Vector UInt8 16)
  | other

inductive RouteAttribute
  | oif (index : UInt32)
  | gateway (address : RouteAddress)
  | other

structure RouteMessage where
  addressFamily : AddressFamily
  destinationPrefixLength : UInt8
  attributes : List RouteAttribute

inductive RouteNetlinkMessage
  | newLink (link : LinkMessage)
  | delLink (link : LinkMessage)
  | newAddress (address : AddressMessage)
  | delAddress (address : AddressMessage)
  | other

/-- What the kernel answers when it is asked for its tables, without what cannot be read. -/
structure Kernel where
  links : List LinkMessage
  addresses : List AddressMessage
  routes : List RouteMessage

namespace LinkMessage

variable (link : LinkMessage)

/-- `link_name`. -/
def name : Option String :=
  link.attributes.findSome? fun
    | .ifName name => some name
    | .address _ | .other => none

/-- `link_is_up`. -/
def isUp : Bool :=
  link.up && link.running

/-- Two hexadecimal digits. -/
def hexByte (byte : UInt8) : List Char :=
  [Nat.digitChar (byte.toNat / 16), Nat.digitChar (byte.toNat % 16)]

/-- `link_mac_address`. -/
def macAddress : Option String :=
  link.attributes.findSome? fun
    | .address bytes =>
      if bytes.length = 6 then some (String.ofList ([':'].intercalate (bytes.map hexByte)))
      else none
    | .ifName _ | .other => none

end LinkMessage

/-- `address_msg_to_ip`. -/
def AddressMessage.toIp (address : AddressMessage) : Option IpAddr :=
  address.attributes.findSome? fun
    | .address ip => some ip
    | .other => none

namespace RouteMessage

variable (route : RouteMessage)

/-- `is_default_route`. -/
def isDefaultRoute : Bool :=
  (route.addressFamily = .inet ∨ route.addressFamily = .inet6) ∧ route.destinationPrefixLength = 0

/-- `route_oif`. -/
def routeOif : Option UInt32 :=
  route.attributes.findSome? fun
    | .oif index => some index
    | .gateway _ | .other => none

/-- `extract_gateway_from_route`. -/
def extractGateway : Option IpAddr :=
  (route.attributes.findSome? fun
    | .gateway address => some address
    | .oif _ | .other => none).bind fun
      | .inet octets => some (.v4 octets)
      | .inet6 octets => some (.v6 octets)
      | .other => none

end RouteMessage

namespace Kernel

variable (kernel : Kernel)

/-- `query_interface_addresses`. -/
def queryInterfaceAddresses (linkIndex : UInt32) : List IpAddr :=
  (kernel.addresses.filter fun address ↦ address.index = linkIndex).filterMap AddressMessage.toIp

/-- `resolve_link_name`. -/
def resolveLinkName (linkIndex : UInt32) : Option String :=
  (kernel.links.find? fun link ↦ link.index = linkIndex).bind LinkMessage.name

/-- `find_default_route_gateway`, for the default route of a link. -/
def findDefaultRouteGateway (linkIndex : UInt32) : Option IpAddr :=
  (kernel.routes.find? fun route ↦ route.isDefaultRoute && route.routeOif == some linkIndex).bind
    RouteMessage.extractGateway

/-- `find_global_default_gateway`, which looks for the same. -/
def findGlobalDefaultGateway (linkIndex : UInt32) : Option IpAddr :=
  kernel.findDefaultRouteGateway linkIndex

/-- The address after that of the network, in the last byte. -/
def networkPlusOne (octets : Vector UInt8 4) (prefixLen : UInt8) : Option IpAddr :=
  if prefixLen ≤ 32 then
    let kept (index : Fin 4) : UInt8 :=
      let bits := min 8 (prefixLen.toNat - 8 * index)
      UInt8.ofNat ((octets.get index).toNat / 2 ^ (8 - bits) * 2 ^ (8 - bits))
    some (.v4 #v[kept 0, kept 1, kept 2, if kept 3 = 255 then 255 else kept 3 + 1])
  else none

/-- The loop of `ip_heuristic_gateway`. -/
def heuristicFrom : List AddressMessage → Option IpAddr
  | [] => none
  | address :: rest =>
    match address.toIp with
    | none => none
    | some (.v4 octets) => networkPlusOne octets address.prefixLen
    | some (.v6 _) => heuristicFrom rest

/-- `ip_heuristic_gateway`. -/
def ipHeuristicGateway (linkIndex : UInt32) : Option IpAddr :=
  heuristicFrom (kernel.addresses.filter fun address ↦ address.index = linkIndex)

/-- `infer_gateway`. -/
def inferGateway (linkIndex : UInt32) : Option IpAddr :=
  ((kernel.findDefaultRouteGateway linkIndex).or (kernel.findGlobalDefaultGateway linkIndex)).or
    (kernel.ipHeuristicGateway linkIndex)

/-- `parse_address_message`. -/
def parseAddressMessage (address : AddressMessage) : Option (String × IpAddr) := do
  let ip ← address.toIp
  let name ← kernel.resolveLinkName address.index
  return (name, ip)

end Kernel

/-! ### The monitor -/

/-- `InterfaceInfo`. -/
structure InterfaceInfo where
  name : String
  macAddress : Option String
  ipAddresses : List IpAddr
  isUp : Bool
  isLoopback : Bool

/-- `NetworkEvent`. -/
inductive NetworkEvent
  | interfaceUp (name : String) (gatewayIp : Option IpAddr) (info : InterfaceInfo)
  | interfaceDown (name : String)
  | addressAdded (interface : String) (address : IpAddr) (gatewayIp : Option IpAddr)
  | addressDeleted (interface : String) (address : IpAddr)

/-- `NetworkMonitorConfig`, the duration in nanoseconds. -/
structure NetworkMonitorConfig where
  ignoreInterfaces : List String
  onlyInterfaces : List String
  throttleDuration : ℕ

/-- `should_process_interface`. -/
def NetworkMonitorConfig.shouldProcessInterface (config : NetworkMonitorConfig) (name : String) :
    Bool :=
  if name ∈ config.ignoreInterfaces then false
  else if config.onlyInterfaces ≠ [] ∧ name ∉ config.onlyInterfaces then false
  else true

/-- `EventType`. -/
inductive EventType
  | interfaceUp
  | interfaceDown
  | addressAdded
  | addressDeleted
  deriving DecidableEq

/-- `ThrottleKey`. -/
structure ThrottleKey where
  interface : String
  eventType : EventType
  deriving DecidableEq

/-- `NetworkMonitor`, with the time of the last event of each kind. -/
structure NetworkMonitor where
  config : NetworkMonitorConfig
  throttle : ThrottleKey → Option ℕ

/-- A message as it is handled: what the kernel answers, and the time at `should_emit`. -/
structure NetlinkReading where
  message : RouteNetlinkMessage
  kernel : Kernel
  now : ℕ

namespace NetworkMonitor

/-- `NetworkMonitor::new`. -/
def new (config : NetworkMonitorConfig) : NetworkMonitor :=
  ⟨config, fun _ ↦ none⟩

variable (monitor : NetworkMonitor)

/-- An event of this kind is too early. -/
def Throttled (key : ThrottleKey) (now : ℕ) : Prop :=
  ∃ last, monitor.throttle key = some last ∧ now - last < monitor.config.throttleDuration

instance (key : ThrottleKey) (now : ℕ) : Decidable (monitor.Throttled key now) :=
  decidable_of_iff
    ((monitor.throttle key).any (fun last ↦ now - last < monitor.config.throttleDuration) = true)
    (by simp [Throttled, Option.any_eq_true])

/-- `should_emit`. -/
def shouldEmit (key : ThrottleKey) (now : ℕ) : NetworkMonitor × Bool :=
  match monitor.throttle key with
  | some last =>
    if now - last < monitor.config.throttleDuration then (monitor, false)
    else ({ monitor with throttle := Function.update monitor.throttle key (some now) }, true)
  | none => ({ monitor with throttle := Function.update monitor.throttle key (some now) }, true)

/-- An event, unless it is too early. -/
def emit (key : ThrottleKey) (now : ℕ) (event : NetworkEvent) :
    NetworkMonitor × List NetworkEvent :=
  let allowed := monitor.shouldEmit key now
  (allowed.1, if allowed.2 then [event] else [])

/-- `handle_new_link`. -/
def handleNewLink (link : LinkMessage) (kernel : Kernel) (now : ℕ) :
    NetworkMonitor × List NetworkEvent :=
  match link.name with
  | none => (monitor, [])
  | some name =>
    if monitor.config.shouldProcessInterface name = false then (monitor, [])
    else if link.isUp = false ∨ link.loopback = true then (monitor, [])
    else
      let info : InterfaceInfo :=
        ⟨name, link.macAddress, kernel.queryInterfaceAddresses link.index, true, false⟩
      monitor.emit ⟨name, .interfaceUp⟩ now
        (.interfaceUp name (kernel.inferGateway link.index) info)

/-- `handle_del_link`. -/
def handleDelLink (link : LinkMessage) (now : ℕ) : NetworkMonitor × List NetworkEvent :=
  match link.name with
  | none => (monitor, [])
  | some name =>
    if monitor.config.shouldProcessInterface name = false then (monitor, [])
    else monitor.emit ⟨name, .interfaceDown⟩ now (.interfaceDown name)

/-- `handle_new_address`. -/
def handleNewAddress (address : AddressMessage) (kernel : Kernel) (now : ℕ) :
    NetworkMonitor × List NetworkEvent :=
  match kernel.parseAddressMessage address with
  | none => (monitor, [])
  | some (name, ip) =>
    if monitor.config.shouldProcessInterface name = false then (monitor, [])
    else
      monitor.emit ⟨name, .addressAdded⟩ now
        (.addressAdded name ip (kernel.inferGateway address.index))

/-- `handle_del_address`. -/
def handleDelAddress (address : AddressMessage) (kernel : Kernel) (now : ℕ) :
    NetworkMonitor × List NetworkEvent :=
  match kernel.parseAddressMessage address with
  | none => (monitor, [])
  | some (name, ip) =>
    if monitor.config.shouldProcessInterface name = false then (monitor, [])
    else monitor.emit ⟨name, .addressDeleted⟩ now (.addressDeleted name ip)

/-- `process_netlink_message`. -/
def processNetlinkMessage (reading : NetlinkReading) : NetworkMonitor × List NetworkEvent :=
  match reading.message with
  | .newLink link => monitor.handleNewLink link reading.kernel reading.now
  | .delLink link => monitor.handleDelLink link reading.now
  | .newAddress address => monitor.handleNewAddress address reading.kernel reading.now
  | .delAddress address => monitor.handleDelAddress address reading.kernel reading.now
  | .other => (monitor, [])

/-- `get_current_interfaces`. -/
def currentInterfaces (config : NetworkMonitorConfig) (kernel : Kernel) : List InterfaceInfo :=
  kernel.links.filterMap fun link ↦ link.name.bind fun name ↦
    if config.shouldProcessInterface name then
      some ⟨name, link.macAddress, kernel.queryInterfaceAddresses link.index, link.isUp,
        link.loopback⟩
    else none

/-- `emit_initial_scan`. -/
def initialScan (config : NetworkMonitorConfig) (kernel : Kernel) : List NetworkEvent :=
  ((currentInterfaces config kernel).filter fun info ↦ info.isUp && !info.isLoopback).map fun info ↦
    .interfaceUp info.name none info

/-- The monitor as a machine. -/
def machine : Transducer NetworkMonitor NetlinkReading NetworkEvent :=
  ⟨processNetlinkMessage⟩

end NetworkMonitor

/-! ### Links and their events -/

/-- What a message says of a link. -/
inductive LinkStatus
  | up
  | down
  | deleted
  deriving DecidableEq

/-- The link is up. -/
def LinkStatus.isUp : LinkStatus → Bool
  | .up => true
  | .down | .deleted => false

/-- What a message says of an interface that is no loopback. -/
def NetlinkReading.tells (interface : String) (reading : NetlinkReading) : Option LinkStatus :=
  match reading.message with
  | .newLink link =>
    if link.name = some interface ∧ link.loopback = false then
      some (if link.isUp then .up else .down)
    else none
  | .delLink link => if link.name = some interface then some .deleted else none
  | .newAddress _ | .delAddress _ | .other => none

/-- What some messages say of it. -/
def statuses (interface : String) (readings : List NetlinkReading) : List LinkStatus :=
  readings.filterMap (NetlinkReading.tells interface)

/-- What an event says of the link, true for up. -/
def NetworkEvent.link (interface : String) : NetworkEvent → Option Bool
  | interfaceUp name _ _ => if name = interface then some true else none
  | interfaceDown name => if name = interface then some false else none
  | addressAdded .. | addressDeleted .. => none

/-- What the last event says that says anything of the link. -/
def lastLink (interface : String) (events : List NetworkEvent) : Option Bool :=
  (events.filterMap (NetworkEvent.link interface)).getLast?

/-- The last event says what the last message says, if this is up, or if a message said up
before. -/
def Matches (interface : String) (readings : List NetlinkReading) (events : List NetworkEvent) :
    Prop :=
  ∀ status, (statuses interface readings).getLast? = some status →
    (status.isUp = true ∨ .up ∈ statuses interface readings) →
      lastLink interface events = some status.isUp

/-- What has to hold of a message, after some others: it says the same as the last one, or nothing
was up yet and it does not say up either, or it has an event and the event is not too early. -/
def Undisturbed (interface : String) (before : List NetlinkReading) (monitor : NetworkMonitor)
    (reading : NetlinkReading) : Prop :=
  ∀ status, reading.tells interface = some status →
    (statuses interface before).getLast?.map LinkStatus.isUp = some status.isUp ∨
    (.up ∉ statuses interface before ∧ status.isUp = false) ∨
    (status = .up ∧ ¬ monitor.Throttled ⟨interface, .interfaceUp⟩ reading.now) ∨
    (status = .deleted ∧ ¬ monitor.Throttled ⟨interface, .interfaceDown⟩ reading.now)

namespace NetworkMonitor

variable {monitor : NetworkMonitor} {key : ThrottleKey} {now : ℕ} {event : NetworkEvent}

theorem emit_of_throttled (hthrottled : monitor.Throttled key now) :
    monitor.emit key now event = (monitor, []) := by
  obtain ⟨last, hlast, hearly⟩ := hthrottled
  simp [emit, shouldEmit, hlast, hearly]

theorem emit_of_not_throttled (hfree : ¬ monitor.Throttled key now) :
    monitor.emit key now event =
      ({ monitor with throttle := Function.update monitor.throttle key (some now) }, [event]) := by
  cases hlast : monitor.throttle key with
  | none => simp [emit, shouldEmit, hlast]
  | some last =>
    have hlate : ¬ now - last < monitor.config.throttleDuration :=
      fun hearly ↦ hfree ⟨last, hlast, hearly⟩
    simp [emit, shouldEmit, hlast, hlate]

theorem emit_throttle_of_ne {other : ThrottleKey} (hother : other ≠ key) :
    (monitor.emit key now event).1.throttle other = monitor.throttle other := by
  by_cases hthrottled : monitor.Throttled key now
  · rw [emit_of_throttled hthrottled]
  · rw [emit_of_not_throttled hthrottled]
    exact Function.update_of_ne hother _ _

/-- The event that a message calls for, and its kind. -/
def wanted (config : NetworkMonitorConfig) (reading : NetlinkReading) :
    Option (ThrottleKey × NetworkEvent) :=
  let kernel := reading.kernel
  match reading.message with
  | .newLink link => link.name.bind fun name ↦
    if config.shouldProcessInterface name = true ∧ link.isUp = true ∧ link.loopback = false then
      some (⟨name, .interfaceUp⟩, .interfaceUp name (kernel.inferGateway link.index)
        ⟨name, link.macAddress, kernel.queryInterfaceAddresses link.index, true, false⟩)
    else none
  | .delLink link => link.name.bind fun name ↦
    if config.shouldProcessInterface name = true then
      some (⟨name, .interfaceDown⟩, .interfaceDown name)
    else none
  | .newAddress address => (kernel.parseAddressMessage address).bind fun found ↦
    if config.shouldProcessInterface found.1 = true then
      some (⟨found.1, .addressAdded⟩,
        .addressAdded found.1 found.2 (kernel.inferGateway address.index))
    else none
  | .delAddress address => (kernel.parseAddressMessage address).bind fun found ↦
    if config.shouldProcessInterface found.1 = true then
      some (⟨found.1, .addressDeleted⟩, .addressDeleted found.1 found.2)
    else none
  | .other => none

/-- A message does what it calls for, and nothing else. -/
theorem processNetlinkMessage_eq (monitor : NetworkMonitor) (reading : NetlinkReading) :
    monitor.processNetlinkMessage reading =
      match wanted monitor.config reading with
      | none => (monitor, [])
      | some called => monitor.emit called.1 reading.now called.2 := by
  unfold processNetlinkMessage wanted
  cases reading.message with
  | newLink link =>
    simp only [handleNewLink]
    cases hname : link.name with
    | none => rfl
    | some name =>
      cases hprocess : monitor.config.shouldProcessInterface name <;> cases link.isUp <;>
        cases link.loopback <;> simp [hprocess]
  | delLink link =>
    simp only [handleDelLink]
    cases hname : link.name with
    | none => rfl
    | some name => cases hprocess : monitor.config.shouldProcessInterface name <;> simp [hprocess]
  | newAddress address =>
    simp only [handleNewAddress]
    cases reading.kernel.parseAddressMessage address with
    | none => rfl
    | some found =>
      cases hprocess : monitor.config.shouldProcessInterface found.1 <;> simp [hprocess]
  | delAddress address =>
    simp only [handleDelAddress]
    cases reading.kernel.parseAddressMessage address with
    | none => rfl
    | some found =>
      cases hprocess : monitor.config.shouldProcessInterface found.1 <;> simp [hprocess]
  | other => rfl

section Processed

variable {config : NetworkMonitorConfig} {interface : String} {reading : NetlinkReading}
  (hprocess : config.shouldProcessInterface interface = true)

include hprocess

theorem wanted_up (htells : reading.tells interface = some .up) :
    ∃ event, wanted config reading = some (⟨interface, .interfaceUp⟩, event) ∧
      event.link interface = some true := by
  unfold NetlinkReading.tells at htells
  unfold wanted
  split at htells
  · next link hmessage =>
    split_ifs at htells with hlink hup
    · simp [hlink.1, hlink.2, hup, hprocess, NetworkEvent.link]
    · simp at htells
  · split_ifs at htells
    simp at htells
  all_goals simp at htells

theorem wanted_deleted (htells : reading.tells interface = some .deleted) :
    ∃ event, wanted config reading = some (⟨interface, .interfaceDown⟩, event) ∧
      event.link interface = some false := by
  unfold NetlinkReading.tells at htells
  unfold wanted
  split at htells
  · split_ifs at htells <;> simp at htells
  · next link hmessage =>
    split_ifs at htells with hlink
    simp [hlink, hprocess, NetworkEvent.link]
  all_goals simp at htells

omit hprocess in
/-- A message that says nothing of the link, or that it is down, calls for no event of it. -/
theorem wanted_quiet (hup : reading.tells interface ≠ some .up)
    (hdeleted : reading.tells interface ≠ some .deleted) {called : ThrottleKey × NetworkEvent}
    (hcalled : wanted config reading = some called) :
    called.1 ≠ ⟨interface, .interfaceUp⟩ ∧ called.2.link interface = none := by
  unfold NetlinkReading.tells at hup hdeleted
  unfold wanted at hcalled
  cases hmessage : reading.message with
  | newLink link =>
    simp only [hmessage] at hup hcalled
    obtain ⟨name, hname, hif⟩ := Option.bind_eq_some_iff.mp hcalled
    split_ifs at hif with hwanted
    obtain rfl := Option.some.inj hif
    have hother : name ≠ interface := by
      rintro rfl
      exact hup (by simp [hname, hwanted])
    simp [NetworkEvent.link, hother]
  | delLink link =>
    simp only [hmessage] at hdeleted hcalled
    obtain ⟨name, hname, hif⟩ := Option.bind_eq_some_iff.mp hcalled
    split_ifs at hif with hwanted
    obtain rfl := Option.some.inj hif
    have hother : name ≠ interface := by
      rintro rfl
      exact hdeleted (by simp [hname])
    simp [NetworkEvent.link, hother]
  | newAddress address =>
    simp only [hmessage] at hcalled
    obtain ⟨found, -, hif⟩ := Option.bind_eq_some_iff.mp hcalled
    split_ifs at hif
    obtain rfl := Option.some.inj hif
    simp [NetworkEvent.link]
  | delAddress address =>
    simp only [hmessage] at hcalled
    obtain ⟨found, -, hif⟩ := Option.bind_eq_some_iff.mp hcalled
    split_ifs at hif
    obtain rfl := Option.some.inj hif
    simp [NetworkEvent.link]
  | other => simp [hmessage] at hcalled

end Processed

section Steps

variable {interface : String} {reading : NetlinkReading}
  (hprocess : monitor.config.shouldProcessInterface interface = true)

theorem step_config (monitor : NetworkMonitor) (reading : NetlinkReading) :
    (monitor.processNetlinkMessage reading).1.config = monitor.config := by
  rw [processNetlinkMessage_eq]
  split
  · rfl
  · next called hcalled =>
    by_cases hthrottled : monitor.Throttled called.1 reading.now
    · rw [emit_of_throttled hthrottled]
    · rw [emit_of_not_throttled hthrottled]

/-- An event that is called for is emitted, unless it is too early. -/
theorem linkEvents_of_wanted {key : ThrottleKey} {event : NetworkEvent} {isUp : Bool}
    (hwanted : wanted monitor.config reading = some (key, event))
    (hlink : event.link interface = some isUp) :
    (monitor.processNetlinkMessage reading).2.filterMap (NetworkEvent.link interface) =
      if monitor.Throttled key reading.now then [] else [isUp] := by
  rw [processNetlinkMessage_eq, hwanted]
  simp only
  split_ifs with hthrottled
  · rw [emit_of_throttled hthrottled, List.filterMap_nil]
  · rw [emit_of_not_throttled hthrottled, List.filterMap_cons_some hlink, List.filterMap_nil]

theorem linkEvents_of_quiet (hup : reading.tells interface ≠ some .up)
    (hdeleted : reading.tells interface ≠ some .deleted) :
    (monitor.processNetlinkMessage reading).2.filterMap (NetworkEvent.link interface) = [] := by
  rw [processNetlinkMessage_eq]
  split
  · rfl
  · next called hcalled =>
    obtain ⟨-, hlink⟩ := wanted_quiet hup hdeleted hcalled
    by_cases hthrottled : monitor.Throttled called.1 reading.now
    · rw [emit_of_throttled hthrottled]
      rfl
    · rw [emit_of_not_throttled hthrottled]
      simp [hlink]

/-- Only a message that a link is up sets the time of the last event of this kind. -/
theorem step_throttle_up (hup : reading.tells interface ≠ some .up)
    (hprocess : monitor.config.shouldProcessInterface interface = true) :
    (monitor.processNetlinkMessage reading).1.throttle ⟨interface, .interfaceUp⟩ =
      monitor.throttle ⟨interface, .interfaceUp⟩ := by
  rw [processNetlinkMessage_eq]
  split
  · rfl
  · next called hcalled =>
    refine emit_throttle_of_ne fun hkey ↦ ?_
    by_cases hdeleted : reading.tells interface = some .deleted
    · obtain ⟨event, hwanted, -⟩ := wanted_deleted hprocess hdeleted
      rw [hwanted, Option.some.injEq] at hcalled
      rw [← hcalled] at hkey
      exact absurd hkey (by simp)
    · exact (wanted_quiet hup hdeleted hcalled).1 hkey.symm

include hprocess

theorem linkEvents_up (htells : reading.tells interface = some .up) :
    (monitor.processNetlinkMessage reading).2.filterMap (NetworkEvent.link interface) =
      if monitor.Throttled ⟨interface, .interfaceUp⟩ reading.now then [] else [true] := by
  obtain ⟨event, hwanted, hlink⟩ := wanted_up hprocess htells
  exact linkEvents_of_wanted hwanted hlink

theorem linkEvents_deleted (htells : reading.tells interface = some .deleted) :
    (monitor.processNetlinkMessage reading).2.filterMap (NetworkEvent.link interface) =
      if monitor.Throttled ⟨interface, .interfaceDown⟩ reading.now then [] else [false] := by
  obtain ⟨event, hwanted, hlink⟩ := wanted_deleted hprocess htells
  exact linkEvents_of_wanted hwanted hlink

end Steps

/-! ### Runs -/

section Runs

variable {interface : String} (config : NetworkMonitorConfig) (kernel : Kernel)

/-- The events of a start with some messages after it. -/
def events (readings : List NetlinkReading) : List NetworkEvent :=
  initialScan config kernel ++ machine.outputs (new config) readings

theorem final_config (readings : List NetlinkReading) :
    (machine.final (new config) readings).config = config :=
  machine.final_invariant (fun monitor ↦ monitor.config = config)
    (fun monitor reading hconfig ↦ (step_config monitor reading).trans hconfig) rfl readings

/-- Until a message says that it is up, no link was. -/
theorem throttle_up_of_never {config : NetworkMonitorConfig}
    (hprocess : config.shouldProcessInterface interface = true) {readings : List NetlinkReading}
    (hnever : .up ∉ statuses interface readings) :
    (machine.final (new config) readings).throttle ⟨interface, .interfaceUp⟩ = none := by
  induction readings using List.reverseRecOn with
  | nil => rfl
  | append_singleton before reading ih =>
    rw [statuses, List.filterMap_append, List.mem_append, not_or] at hnever
    have hup : reading.tells interface ≠ some .up := fun htells ↦ hnever.2 (by simp [htells])
    rw [Transducer.final_append, Transducer.final_cons, Transducer.final_nil]
    refine (step_throttle_up hup ?_).trans (ih hnever.1)
    rw [final_config]
    exact hprocess

/-- The last event of the link, after one more message. -/
theorem lastLink_concat (before : List NetlinkReading) (reading : NetlinkReading) :
    lastLink interface (events config kernel (before ++ [reading])) =
      (((machine.final (new config) before).processNetlinkMessage reading).2.filterMap
          (NetworkEvent.link interface)).getLast?.or
        (lastLink interface (events config kernel before)) := by
  have houtputs : machine.outputs (new config) (before ++ [reading]) =
      machine.outputs (new config) before ++
        ((machine.final (new config) before).processNetlinkMessage reading).2 := by
    rw [Transducer.outputs_append, Transducer.outputs_cons, Transducer.outputs_nil, List.append_nil]
    rfl
  rw [lastLink, events, houtputs, ← List.append_assoc, List.filterMap_append, List.getLast?_append]
  rfl

/-- One more message, after which the last event matches just when the message is undisturbed. -/
theorem matches_concat_iff {config : NetworkMonitorConfig} {kernel : Kernel}
    (hprocess : config.shouldProcessInterface interface = true) {before : List NetlinkReading}
    (reading : NetlinkReading) (hmatches : Matches interface before (events config kernel before)) :
    Matches interface (before ++ [reading]) (events config kernel (before ++ [reading])) ↔
      Undisturbed interface before (machine.final (new config) before) reading := by
  have hprocess' : (machine.final (new config) before).config.shouldProcessInterface interface =
      true := by
    rw [final_config]
    exact hprocess
  have hnever : .up ∉ statuses interface before →
      (machine.final (new config) before).throttle ⟨interface, .interfaceUp⟩ = none :=
    throttle_up_of_never hprocess
  have hlast : lastLink interface (events config kernel (before ++ [reading])) = _ :=
    lastLink_concat config kernel before reading
  have hquiet : reading.tells interface ≠ some .up → reading.tells interface ≠ some .deleted →
      ((machine.final (new config) before).processNetlinkMessage reading).2.filterMap
        (NetworkEvent.link interface) = [] := linkEvents_of_quiet
  have hgoesUp : reading.tells interface = some .up → _ := linkEvents_up hprocess'
  have hgoesDown : reading.tells interface = some .deleted → _ := linkEvents_deleted hprocess'
  unfold Matches Undisturbed at *
  rw [hlast]
  have hstatuses : statuses interface (before ++ [reading]) =
      statuses interface before ++ (reading.tells interface).toList := by
    rw [statuses, statuses, List.filterMap_append]
    cases htells : reading.tells interface with
    | none => simp [htells]
    | some status => simp [htells]
  rw [hstatuses]
  generalize machine.final (new config) before = monitor at *
  generalize statuses interface before = said at *
  generalize lastLink interface (events config kernel before) = shown at *
  generalize ((monitor.processNetlinkMessage reading).2.filterMap
    (NetworkEvent.link interface)) = emitted at *
  cases htells : reading.tells interface with
  | none =>
    have hnone : emitted = [] := hquiet (by simp [htells]) (by simp [htells])
    subst hnone
    simpa using hmatches
  | some status =>
    simp only [Option.toList_some, List.getLast?_concat, Option.some.injEq, forall_eq',
      List.mem_append, List.mem_singleton]
    by_cases hup : .up ∈ said
    · -- the last event so far says what the last message so far says
      have hshown : shown = said.getLast?.map LinkStatus.isUp := by
        obtain ⟨latest, hlatest⟩ := Option.ne_none_iff_exists'.mp
          (mt List.getLast?_eq_none_iff.mp (List.ne_nil_of_mem hup))
        rw [hmatches latest hlatest (Or.inr hup), hlatest]
        rfl
      simp only [hup, true_or, or_true, forall_true_left, not_true_eq_false, false_and, false_or,
        ← hshown]
      cases status with
      | up =>
        rw [hgoesUp htells]
        split_ifs with hthrottled <;> simp [hthrottled, LinkStatus.isUp]
      | down =>
        rw [hquiet (by simp [htells]) (by simp [htells])]
        simp
      | deleted =>
        rw [hgoesDown htells]
        split_ifs with hthrottled <;> simp [hthrottled, LinkStatus.isUp]
    · cases status with
      | up =>
        have hfree : ¬ monitor.Throttled ⟨interface, .interfaceUp⟩ reading.now := by
          rintro ⟨last, hlast, -⟩
          exact absurd ((hnever hup).symm.trans hlast) (by simp)
        rw [hgoesUp htells, if_neg hfree]
        simp [hfree, LinkStatus.isUp]
      | down => simp [hup, LinkStatus.isUp]
      | deleted => simp [hup, LinkStatus.isUp]

/-- Assumes: a property of histories that one more input keeps exactly when a condition holds. It
holds of all that a history starts with exactly when the condition holds wherever the history is cut
in front of an input. -/
theorem forall_prefix_iff_forall_cut {Input : Type*} {property : List Input → Prop}
    {condition : List Input → Input → Prop} (hnil : property [])
    (hconcat : ∀ before input, property before →
      (property (before ++ [input]) ↔ condition before input)) (inputs : List Input) :
    (∀ before, before <+: inputs → property before) ↔
      ∀ before input after, inputs = before ++ input :: after → condition before input := by
  constructor
  · rintro hall before input after rfl
    have hfirst := hall before (List.prefix_append _ _)
    refine (hconcat before input hfirst).mp (hall (before ++ [input]) ⟨after, ?_⟩)
    rw [List.append_assoc, List.singleton_append]
  · intro hall before
    induction before using List.reverseRecOn with
    | nil => exact fun _ ↦ hnil
    | append_singleton before input ih =>
      rintro ⟨after, rfl⟩
      rw [List.append_assoc, List.singleton_append] at hall
      refine (hconcat before input (ih ?_)).mpr (hall before input after rfl)
      rw [List.append_assoc]
      exact List.prefix_append _ _

/-- Assumes: an interface that passes the filters. For every run of messages at any times, of any
interfaces: after every message the last event of the link says what its last message says, exactly
if every message is undisturbed. -/
theorem last_event_matches_iff
    (hprocess : config.shouldProcessInterface interface = true) (readings : List NetlinkReading) :
    (∀ before, before <+: readings → Matches interface before (events config kernel before)) ↔
      ∀ before reading after, readings = before ++ reading :: after →
        Undisturbed interface before (machine.final (new config) before) reading :=
  forall_prefix_iff_forall_cut (fun status hstatus ↦ by simp [statuses] at hstatus)
    (fun _ reading hmatches ↦ matches_concat_iff hprocess reading hmatches) readings

end Runs

/-! ### Runs of one interface -/

/-- The configuration of `default`. -/
def defaultConfig : NetworkMonitorConfig where
  ignoreInterfaces := ["lo"]
  onlyInterfaces := []
  throttleDuration := 2000000000

/-- A link with a carrier or without one. -/
def sampleLink (running : Bool) : LinkMessage where
  index := 3
  up := true
  running := running
  loopback := false
  attributes := [.ifName "eth1"]

/-- A message, some milliseconds after the start. -/
def sampleReading (message : RouteNetlinkMessage) (afterMs : ℕ) : NetlinkReading :=
  ⟨message, ⟨[], [], []⟩, afterMs * 1000000⟩

/-- A link that comes up, is deleted and comes up again, far enough apart. -/
def slowReturn : List NetlinkReading :=
  [sampleReading (.newLink (sampleLink true)) 0, sampleReading (.delLink (sampleLink true)) 1000,
    sampleReading (.newLink (sampleLink true)) 3000]

/-- The same, less than two seconds apart. -/
def quickReturn : List NetlinkReading :=
  [sampleReading (.newLink (sampleLink true)) 0, sampleReading (.delLink (sampleLink true)) 1000,
    sampleReading (.newLink (sampleLink true)) 1500]

/-- A link that comes up and loses its carrier. -/
def carrierLost : List NetlinkReading :=
  [sampleReading (.newLink (sampleLink true)) 0,
    sampleReading (.newLink (sampleLink false)) 10000]

theorem last_event_matches_of_slowReturn :
    Matches "eth1" slowReturn (events defaultConfig ⟨[], [], []⟩ slowReturn) := by
  refine (last_event_matches_iff defaultConfig ⟨[], [], []⟩ (by decide) slowReturn).mpr
    (fun before reading after hcut ↦ ?_) slowReturn (List.prefix_refl _)
  obtain _ | ⟨first, _ | ⟨second, _ | ⟨third, rest⟩⟩⟩ := before
  all_goals simp [slowReturn] at hcut
  · obtain ⟨rfl, rfl⟩ := hcut
    exact fun status htells ↦ .inr (.inr (.inl ⟨(Option.some.inj htells).symm, by decide⟩))
  · obtain ⟨rfl, rfl, rfl⟩ := hcut
    exact fun status htells ↦ .inr (.inr (.inr ⟨(Option.some.inj htells).symm, by decide⟩))
  · obtain ⟨rfl, rfl, rfl, rfl⟩ := hcut
    exact fun status htells ↦ .inr (.inr (.inl ⟨(Option.some.inj htells).symm, by decide⟩))

/-- By its last event the link without a carrier is up, and the one that came up again too soon is
down. -/
theorem last_event_stale :
    ¬ Matches "eth1" carrierLost (events defaultConfig ⟨[], [], []⟩ carrierLost) ∧
      ¬ Matches "eth1" quickReturn (events defaultConfig ⟨[], [], []⟩ quickReturn) := by
  constructor
  · intro hmatches
    exact absurd (hmatches .down (by decide) (by decide)) (by decide)
  · intro hmatches
    exact absurd (hmatches .up (by decide) (by decide)) (by decide)

end NetworkMonitor

end Tollgate
