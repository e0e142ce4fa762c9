import Tollgate.Library.Grouping
import Tollgate.Net.Config
import Tollgate.Net.Nftables
import Tollgate.Net.TokenRecovery

/-!
# The status of a node

`status.rs` and the part of `driver.rs` that fills it. A peering has two sides: what the session
knows of a peer that buys from us, and what the loops of our upstreams have recorded of a peer that
we buy from. `Inner.status` merges them into one row for each key.

`status_after_run` says what the rows are after every run: the sell side of a row depends on the
calls of the driver only, the buy side on what was observed of the upstreams with its key, however
the two were interleaved. The largest usage that any side reports is shown; balance and price are
those of the upstream whose address is last, and drift is the first that is known.

The driver's queues and its firewall are in `Driver`; the source keeps drift as a floating-point
fraction, here it is the exact one.
-/

set_option autoImplicit false
set_option relaxedAutoImplicit false

namespace Tollgate

open Std

/-! ### What is recorded of an upstream -/

/-- What the loop of an upstream says of a report. -/
structure ReportSummary where
  elapsedMs : UInt64
  delivered : UInt64
  received : UInt64
  deriving DecidableEq, Repr

/-- What is recorded of an event of the loop of an upstream. -/
structure ConsumeEvent where
  peerPubkey : String
  price : Price
  remainingScaled : Int64
  report : Option ReportSummary
  cutOff : Bool
  drift : Option ℚ

/-- What we know about a peer that we buy from. -/
structure UpstreamState where
  pubkey : String
  url : String
  price : Price
  remainingScaled : Int64
  sent : UInt64
  recv : UInt64
  meteredSecs : UInt64
  drift : Option ℚ
  online : Bool
  lastSeen : Millis

namespace UpstreamState

/-- An upstream that is heard of for the first time. -/
def new (url : String) (now : Millis) : UpstreamState :=
  ⟨"", url, Price.default, 0, 0, 0, 0, none, true, now⟩

/-- Record an event. A report is turned round: we received what they delivered. -/
def record (state : UpstreamState) (event : ConsumeEvent) (now : Millis) : UpstreamState where
  pubkey := event.peerPubkey
  url := state.url
  price := event.price
  remainingScaled := event.remainingScaled
  sent := (event.report.map ReportSummary.received).getD state.sent
  recv := (event.report.map ReportSummary.delivered).getD state.recv
  meteredSecs := (event.report.map fun report ↦ report.elapsedMs / 1000).getD state.meteredSecs
  drift := event.drift
  online := !event.cutOff
  lastSeen := now

end UpstreamState

/-! ### The snapshot -/

namespace Status

/-- A rate as it is shown. -/
structure Pricing where
  pricePerSecond : Int64
  pricePerUnit : Int64
  deriving DecidableEq, Repr

def Pricing.default : Pricing := ⟨0, 0⟩

def Pricing.of (price : Price) : Pricing :=
  ⟨price.perSecond, price.perUnit⟩

/-- `MintStatus`. -/
structure MintStatus where
  mintUrl : String
  mintUnit : String
  pricePerSecond : Int64
  pricePerUnit : Int64
  deriving DecidableEq, Repr

/-- `ProductStatus`. -/
structure ProductStatus where
  productId : String
  pricingScale : UInt32
  mints : List MintStatus
  deriving DecidableEq, Repr

/-- `PricingStatus`. -/
structure PricingStatus where
  products : List ProductStatus
  minIntervalMs : UInt32
  maxIntervalMs : UInt32
  deriving DecidableEq, Repr

def PricingStatus.default : PricingStatus := ⟨[], 0, 0⟩

/-- One peering, as the node sees it. -/
structure PeerStatus where
  pubkey : String
  ip : Option String
  state : String
  delivered : UInt64
  received : UInt64
  ourPrice : Pricing
  theirPrice : Pricing
  theirBalance : Int64
  ourBalance : Int64
  meteredSecs : UInt64
  idleMs : UInt64
  drift : Option ℚ

/-- `NodeStatus`. -/
structure NodeStatus where
  pubkey : String
  unit : String
  peers : List PeerStatus
  pricing : PricingStatus

/-- The advertised pricing of a sheet. -/
def PricingStatus.of (sheet : PriceSheet) : PricingStatus where
  products := sheet.products.map fun product ↦
    { productId := String.ofList (hexEncode product.productId.toList)
      pricingScale := product.pricingScale
      mints := product.mintOptions.map fun option ↦
        ⟨option.mintUrl, option.mintUnit, option.pricePerSecond, option.pricePerUnit⟩ }
  minIntervalMs := sheet.interval.minMs
  maxIntervalMs := sheet.interval.maxMs

/-- `decode_pricing`: bytes that are no sheet advertise nothing. -/
def decodePricing (cbor : Minicbor) (encoded : Bytes) : PricingStatus :=
  ((cbor.decodePriceSheet encoded).map PricingStatus.of).getD PricingStatus.default

end Status

open Status

/-- The name of a phase. -/
def PeerPhase.text : PeerPhase → String
  | new => "New"
  | bootstrapPending => "BootstrapPending"
  | active => "Active"
  | suspended => "Suspended"
  | closed => "Closed"

/-- What the driver keeps, with its upstreams by their addresses. -/
structure Inner where
  driver : Driver
  publicKey : PublicKey
  unit : String
  ourPrice : Price
  upstreams : ExtTreeMap String UpstreamState

namespace Inner

/-- `Driver::new`. -/
def new (publicKey : PublicKey) (unit : String) (price : Price) (announce priceSheet : Bytes) :
    Inner :=
  ⟨Driver.new price announce priceSheet, publicKey, unit, price, ∅⟩

section Status

variable (cbor : Minicbor) (inner : Inner)

/-- Record an observation from the loop of an upstream. -/
def recordUpstream (url : String) (event : ConsumeEvent) (now : Millis) : Inner :=
  { inner with
    upstreams := inner.upstreams.alter url fun state ↦
      some ((state.getD (.new url now)).record event now) }

/-- The loop of an upstream ended and is retrying. -/
def markUpstreamOffline (url : String) : Inner :=
  { inner with
    upstreams := inner.upstreams.alter url fun state ↦
      state.map fun state ↦ { state with online := false } }

/-- The row of a peer that the session knows. -/
def outboundRow (now : Millis) (view : PeerSnapshot) : Status.PeerStatus where
  pubkey := keyText view.peer
  ip := inner.driver.peerIp[view.peer]?.map IpAddr.toString
  state := view.phase.text
  delivered := view.delivered
  received := view.received
  ourPrice := .of inner.ourPrice
  theirPrice := .default
  theirBalance := view.balance
  ourBalance := 0
  meteredSecs := (view.meteringStart.map fun start ↦ now.saturatingSub start / 1000).getD 0
  idleMs := (inner.driver.lastSeen[view.peer]?.map fun seen ↦ now.saturatingSub seen).getD 0
  drift := view.drift

/-- The row of a peer that the session does not know, before it is filled. -/
def inboundRow (now : Millis) (upstream : UpstreamState) : Status.PeerStatus where
  pubkey := upstream.pubkey
  ip := some upstream.url
  state := if upstream.online then "Active" else "Cut-off"
  delivered := 0
  received := 0
  ourPrice := .of inner.ourPrice
  theirPrice := .default
  theirBalance := 0
  ourBalance := 0
  meteredSecs := 0
  idleMs := now.saturatingSub upstream.lastSeen
  drift := none

/-- Fill the side of a row on which we buy. -/
def fill (now : Millis) (upstream : UpstreamState) (row : Status.PeerStatus) :
    Status.PeerStatus where
  pubkey := row.pubkey
  ip := row.ip
  state := row.state
  delivered := max row.delivered upstream.sent
  received := max row.received upstream.recv
  ourPrice := row.ourPrice
  theirPrice := .of upstream.price
  theirBalance := row.theirBalance
  ourBalance := upstream.remainingScaled
  meteredSecs := max row.meteredSecs upstream.meteredSecs
  idleMs := min row.idleMs (now.saturatingSub upstream.lastSeen)
  drift := row.drift.or upstream.drift

/-- The rows of the peers that the session knows. -/
def outbound (now : Millis) : ExtTreeMap String Status.PeerStatus :=
  group (fun view : PeerSnapshot ↦ keyText view.peer)
    (fun view _ ↦ some (inner.outboundRow now view)) ∅ inner.driver.session.snapshot

/-- One row for each key. -/
def byPubkey (now : Millis) : ExtTreeMap String Status.PeerStatus :=
  group UpstreamState.pubkey
    (fun upstream row ↦ some (fill now upstream (row.getD (inner.inboundRow now upstream))))
    (inner.outbound now) (intoValues inner.upstreams)

/-- `status`. -/
def status (now : Millis) : NodeStatus where
  pubkey := keyText inner.publicKey
  unit := inner.unit
  peers := intoValues (inner.byPubkey now)
  pricing := decodePricing cbor inner.driver.priceSheet

end Status

/-- A call of the driver, or an observation of an upstream. -/
inductive Input
  | call (call : Driver.Call)
  | recordUpstream (url : String) (event : ConsumeEvent) (now : Millis)
  | markUpstreamOffline (url : String)

/-- The driver with its upstreams. -/
def machine (cbor : Minicbor) : Transducer Inner Input Empty where
  step inner
    | .call call => ({ inner with driver := inner.driver.step cbor call }, [])
    | .recordUpstream url event now => (inner.recordUpstream url event now, [])
    | .markUpstreamOffline url => (inner.markUpstreamOffline url, [])

/-! ### What a run leaves of an upstream -/

/-- What is observed of the upstream at an address: an event of its loop, or the end of the loop. -/
structure Observation where
  url : String
  event : Option (ConsumeEvent × Millis)

/-- The call that an input is, if it is one. -/
def Input.toCall : Input → Option Driver.Call
  | .call made => some made
  | .recordUpstream _ _ _ | .markUpstreamOffline _ => none

/-- The observation that an input is, if it is one. -/
def Input.observation : Input → Option Observation
  | .call _ => none
  | .recordUpstream url event now => some ⟨url, some (event, now)⟩
  | .markUpstreamOffline url => some ⟨url, none⟩

/-- What was observed of the upstream at `url`. -/
def observations (url : String) (inputs : List Input) : List Observation :=
  (inputs.filterMap Input.observation).filter fun observation ↦ decide (observation.url = url)

/-- What the observations of one upstream leave of it, if there was an event at all: the last event,
the last report, and whether the last observation is an event of an upstream that is not cut off. -/
def remembered (url : String) (observed : List Observation) : Option UpstreamState :=
  let events := observed.filterMap Observation.event
  let report := (events.filterMap fun event ↦ event.1.report).getLast?
  events.getLast?.map fun last ↦
    { pubkey := last.1.peerPubkey
      url := url
      price := last.1.price
      remainingScaled := last.1.remainingScaled
      sent := (report.map ReportSummary.received).getD 0
      recv := (report.map ReportSummary.delivered).getD 0
      meteredSecs := (report.map fun report ↦ report.elapsedMs / 1000).getD 0
      drift := last.1.drift
      online := (observed.getLast?.bind Observation.event).any fun event ↦ !event.1.cutOff
      lastSeen := last.2 }

/-- What an observation does to the entry of its upstream. -/
def observe (observation : Observation) (state : Option UpstreamState) : Option UpstreamState :=
  match observation.event with
  | some (event, now) => some ((state.getD (.new observation.url now)).record event now)
  | none => state.map fun state ↦ { state with online := false }

theorem remembered_append (url : String) (observed : List Observation)
    (event : Option (ConsumeEvent × Millis)) :
    remembered url (observed ++ [⟨url, event⟩]) =
      observe ⟨url, event⟩ (remembered url observed) := by
  cases event with
  | none =>
    simp only [remembered, observe, List.filterMap_append, List.filterMap_cons_none,
      List.filterMap_nil, List.append_nil, List.getLast?_append, List.getLast?_singleton,
      Option.some_or, Option.map_map, Option.bind_some]
    rfl
  | some event =>
    obtain ⟨event, now⟩ := event
    simp only [remembered, observe, List.filterMap_append, List.getLast?_append,
      List.getLast?_singleton, Option.some_or, Option.bind_some, Option.any_some]
    cases hlast : (observed.filterMap Observation.event).getLast? with
    | none =>
      rw [List.getLast?_eq_none_iff.mp hlast]
      cases hreport : event.report <;> simp [UpstreamState.record, UpstreamState.new, hreport]
    | some last =>
      cases hreport : event.report <;> simp [UpstreamState.record, hreport]

theorem groupEntry_observe {url : String} {observed : List Observation}
    (hurl : ∀ observation ∈ observed, observation.url = url) :
    groupEntry observe none observed = remembered url observed := by
  induction observed using List.reverseRecOn with
  | nil => rfl
  | append_singleton before last ih =>
    obtain ⟨place, event⟩ := last
    obtain rfl : place = url := hurl ⟨place, event⟩ (by simp)
    rw [remembered_append, groupEntry_append,
      ih fun observation hmem ↦ hurl observation (List.mem_append_left _ hmem)]
    rfl

section Runs

variable {cbor : Minicbor}

/-- The calls of a run take the driver where they take it without the observations. -/
theorem driver_final (inner : Inner) (inputs : List Input) :
    ((machine cbor).final inner inputs).driver =
      (Driver.machine cbor).final inner.driver (inputs.filterMap Input.toCall) := by
  induction inputs generalizing inner with
  | nil => rfl
  | cons input rest ih =>
    cases input with
    | call call => exact ih { inner with driver := inner.driver.step cbor call }
    | recordUpstream url event now => exact ih (inner.recordUpstream url event now)
    | markUpstreamOffline url => exact ih (inner.markUpstreamOffline url)

/-- The observations of a run are worked into the upstreams, each at its address. -/
theorem upstreams_final (inner : Inner) (inputs : List Input) :
    ((machine cbor).final inner inputs).upstreams =
      group Observation.url observe inner.upstreams (inputs.filterMap Input.observation) := by
  induction inputs generalizing inner with
  | nil => rfl
  | cons input rest ih =>
    cases input with
    | call call => exact ih { inner with driver := inner.driver.step cbor call }
    | recordUpstream url event now => exact ih (inner.recordUpstream url event now)
    | markUpstreamOffline url => exact ih (inner.markUpstreamOffline url)

theorem settings_final (inner : Inner) (inputs : List Input) :
    ((machine cbor).final inner inputs).publicKey = inner.publicKey ∧
      ((machine cbor).final inner inputs).unit = inner.unit ∧
      ((machine cbor).final inner inputs).ourPrice = inner.ourPrice := by
  refine Transducer.final_invariant _ (fun state : Inner ↦ state.publicKey = inner.publicKey ∧
    state.unit = inner.unit ∧ state.ourPrice = inner.ourPrice) (fun state input hstate ↦ ?_)
    ⟨rfl, rfl, rfl⟩ inputs
  cases input <;> exact hstate

end Runs

/-! ### Rows -/

/-- The upstreams with a key, in the order of their addresses. -/
def providers (inner : Inner) (pubkey : String) : List UpstreamState :=
  (intoValues inner.upstreams).filter fun upstream ↦ decide (upstream.pubkey = pubkey)

/-- What the session knows of the peer with a key. -/
def view (inner : Inner) (pubkey : String) : Option PeerSnapshot :=
  inner.driver.session.snapshot.find? fun view ↦ decide (keyText view.peer = pubkey)

/-- What a row shows of a peer: `view` is what the session knows of it, and `upstreams` are those
with its key. -/
structure Shows (inner : Inner) (now : Millis) (view : Option PeerSnapshot)
    (upstreams : List UpstreamState) (row : Status.PeerStatus) : Prop where
  ip : row.ip = match view with
    | some view => inner.driver.peerIp[view.peer]?.map IpAddr.toString
    | none => upstreams.head?.map UpstreamState.url
  state : row.state = match view with
    | some view => view.phase.text
    | none => if upstreams.head?.any UpstreamState.online then "Active" else "Cut-off"
  delivered : ((view.map PeerSnapshot.delivered).getD 0 ::
    upstreams.map UpstreamState.sent).max? = some row.delivered
  received : ((view.map PeerSnapshot.received).getD 0 ::
    upstreams.map UpstreamState.recv).max? = some row.received
  ourPrice : row.ourPrice = .of inner.ourPrice
  theirPrice : row.theirPrice =
    (upstreams.getLast?.map fun upstream ↦ Pricing.of upstream.price).getD .default
  theirBalance : row.theirBalance = (view.map PeerSnapshot.balance).getD 0
  ourBalance : row.ourBalance = (upstreams.getLast?.map UpstreamState.remainingScaled).getD 0
  meteredSecs : ((view.map fun view ↦ (inner.outboundRow now view).meteredSecs).getD 0 ::
    upstreams.map UpstreamState.meteredSecs).max? = some row.meteredSecs
  idleMs : ((view.map fun view ↦ (inner.outboundRow now view).idleMs).toList ++
    upstreams.map fun upstream ↦ now.saturatingSub upstream.lastSeen).min? = some row.idleMs
  drift : row.drift =
    ((view.bind PeerSnapshot.drift) :: upstreams.map UpstreamState.drift).findSome? id

theorem keyText_injective : Function.Injective keyText := by
  intro first second htext
  have hhex : hexEncode first.toList = hexEncode second.toList := by
    have hlists := congrArg String.toList htext
    rwa [keyText, keyText, String.toList_ofList, String.toList_ofList] at hlists
  have hbytes := congrArg (fun digits ↦ decodeHex (Utf8.encode digits)) hhex
  simp only [decodeHex_hexEncode, Option.some.injEq] at hbytes
  exact Vector.toList_inj.mp hbytes

section Rows

variable (inner : Inner) (now : Millis)

/-- A row, filled with some upstreams. -/
def fillAll (upstreams : List UpstreamState) (row : Status.PeerStatus) : Status.PeerStatus :=
  upstreams.foldl (fun row upstream ↦ fill now upstream row) row

theorem fillAll_frame (upstreams : List UpstreamState) (row : Status.PeerStatus) :
    (fillAll now upstreams row).pubkey = row.pubkey ∧ (fillAll now upstreams row).ip = row.ip ∧
      (fillAll now upstreams row).state = row.state ∧
      (fillAll now upstreams row).ourPrice = row.ourPrice ∧
      (fillAll now upstreams row).theirBalance = row.theirBalance := by
  induction upstreams generalizing row with
  | nil => exact ⟨rfl, rfl, rfl, rfl, rfl⟩
  | cons upstream rest ih => exact ih (fill now upstream row)

/-- Usage grows to the largest, and silence shrinks to the smallest. -/
theorem fillAll_extremes (upstreams : List UpstreamState) (row : Status.PeerStatus) :
    (row.delivered :: upstreams.map UpstreamState.sent).max? =
        some (fillAll now upstreams row).delivered ∧
      (row.received :: upstreams.map UpstreamState.recv).max? =
        some (fillAll now upstreams row).received ∧
      (row.meteredSecs :: upstreams.map UpstreamState.meteredSecs).max? =
        some (fillAll now upstreams row).meteredSecs ∧
      (row.idleMs :: upstreams.map fun upstream ↦
        now.saturatingSub upstream.lastSeen).min? = some (fillAll now upstreams row).idleMs := by
  induction upstreams generalizing row with
  | nil => exact ⟨rfl, rfl, rfl, rfl⟩
  | cons upstream rest ih => exact ih (fill now upstream row)

/-- Price and balance are those of the last upstream, and drift is the first that is known. -/
theorem fillAll_purchases (upstreams : List UpstreamState) (row : Status.PeerStatus) :
    (fillAll now upstreams row).theirPrice =
        (upstreams.getLast?.map fun upstream ↦ Pricing.of upstream.price).getD row.theirPrice ∧
      (fillAll now upstreams row).ourBalance =
        (upstreams.getLast?.map UpstreamState.remainingScaled).getD row.ourBalance ∧
      (fillAll now upstreams row).drift =
        (row.drift :: upstreams.map UpstreamState.drift).findSome? id := by
  induction upstreams generalizing row with
  | nil =>
    refine ⟨rfl, rfl, ?_⟩
    cases hdrift : row.drift <;> simp [fillAll, hdrift]
  | cons upstream rest ih =>
    obtain ⟨hprice, hbalance, hdrift⟩ := ih (fill now upstream row)
    refine ⟨hprice.trans ?_, hbalance.trans ?_, hdrift.trans ?_⟩
    · rw [List.getLast?_cons]
      cases rest.getLast? <;> rfl
    · rw [List.getLast?_cons]
      cases rest.getLast? <;> rfl
    · cases hown : row.drift <;> simp [fill, hown, List.findSome?_cons]

theorem mem_snapshot {session : Session} {view : PeerSnapshot} :
    view ∈ session.snapshot ↔
      ∃ entry, session.peers[view.peer]? = some entry ∧ entry.snapshot view.peer = view := by
  simp only [Session.snapshot, List.mem_map, Prod.exists]
  constructor
  · rintro ⟨peer, entry, hmem, rfl⟩
    exact ⟨entry, ExtTreeMap.mem_toList_iff_getElem?_eq_some.mp hmem, rfl⟩
  · rintro ⟨entry, hentry, hview⟩
    exact ⟨view.peer, entry, ExtTreeMap.mem_toList_iff_getElem?_eq_some.mpr hentry, hview⟩

/-- Two views with one key are one. -/
theorem view_unique {session : Session} {first second : PeerSnapshot}
    (hfirst : first ∈ session.snapshot) (hsecond : second ∈ session.snapshot)
    (hkey : keyText first.peer = keyText second.peer) : first = second := by
  obtain ⟨entry, hentry, hview⟩ := mem_snapshot.mp hfirst
  obtain ⟨other, hother, hsame⟩ := mem_snapshot.mp hsecond
  rw [keyText_injective hkey] at hentry hview
  obtain rfl := Option.some.inj (hentry.symm.trans hother)
  exact hview.symm.trans hsame

theorem view_eq_some {pubkey : String} {view : PeerSnapshot} :
    inner.view pubkey = some view ↔
      view ∈ inner.driver.session.snapshot ∧ keyText view.peer = pubkey := by
  constructor
  · intro hview
    exact ⟨List.mem_of_find?_eq_some hview, by simpa using List.find?_some hview⟩
  · rintro ⟨hmem, rfl⟩
    cases hfound : inner.view (keyText view.peer) with
    | none => simpa using List.find?_eq_none.mp hfound view hmem
    | some found =>
      have hkey : keyText found.peer = keyText view.peer := by simpa using List.find?_some hfound
      rw [view_unique (List.mem_of_find?_eq_some hfound) hmem hkey]

theorem getElem?_outbound (pubkey : String) :
    (inner.outbound now)[pubkey]? = (inner.view pubkey).map (inner.outboundRow now) := by
  rw [outbound, getElem?_group, groupEntry_put, ExtTreeMap.getElem?_empty, Option.or_none]
  congr 1
  set views := inner.driver.session.snapshot.filter fun view ↦ decide (keyText view.peer = pubkey)
    with hviews
  cases hlast : views.getLast? with
  | none =>
    rw [view, ← List.head?_filter, ← hviews, List.getLast?_eq_none_iff.mp hlast]
    rfl
  | some last =>
    have hmem := List.mem_of_getLast? hlast
    rw [hviews, List.mem_filter, decide_eq_true_iff] at hmem
    exact (inner.view_eq_some.mpr hmem).symm

theorem groupEntry_fill (upstreams : List UpstreamState) (row : Status.PeerStatus) :
    groupEntry (fun upstream row ↦
        some (fill now upstream (row.getD (inner.inboundRow now upstream)))) (some row) upstreams =
      some (fillAll now upstreams row) := by
  induction upstreams generalizing row with
  | nil => rfl
  | cons upstream rest ih => exact ih (fill now upstream row)

/-- The row of a key is what the session knows of it, filled with its upstreams. -/
theorem getElem?_byPubkey (pubkey : String) :
    (inner.byPubkey now)[pubkey]? =
      match inner.view pubkey, inner.providers pubkey with
      | some view, upstreams => some (fillAll now upstreams (inner.outboundRow now view))
      | none, first :: rest =>
        some (fillAll now (first :: rest) (inner.inboundRow now first))
      | none, [] => none := by
  rw [byPubkey, getElem?_group, getElem?_outbound]
  change groupEntry _ _ (inner.providers pubkey) = _
  cases inner.view pubkey with
  | some view => exact inner.groupEntry_fill now _ _
  | none =>
    cases inner.providers pubkey with
    | nil => rfl
    | cons first rest => exact inner.groupEntry_fill now rest _

theorem shows_of_view (view : PeerSnapshot) (upstreams : List UpstreamState) :
    inner.Shows now (some view) upstreams (fillAll now upstreams (inner.outboundRow now view)) := by
  obtain ⟨-, hip, hstate, hourPrice, htheirBalance⟩ :=
    fillAll_frame now upstreams (inner.outboundRow now view)
  obtain ⟨hdelivered, hreceived, hmetered, hidle⟩ :=
    fillAll_extremes now upstreams (inner.outboundRow now view)
  obtain ⟨htheirPrice, hourBalance, hdrift⟩ :=
    fillAll_purchases now upstreams (inner.outboundRow now view)
  exact ⟨hip, hstate, hdelivered, hreceived, hourPrice, htheirPrice, htheirBalance, hourBalance,
    hmetered, hidle, hdrift⟩

theorem shows_of_upstream (first : UpstreamState) (rest : List UpstreamState) :
    inner.Shows now none (first :: rest)
      (fillAll now (first :: rest) (inner.inboundRow now first)) := by
  obtain ⟨-, hip, hstate, hourPrice, htheirBalance⟩ :=
    fillAll_frame now (first :: rest) (inner.inboundRow now first)
  obtain ⟨hdelivered, hreceived, hmetered, hidle⟩ :=
    fillAll_extremes now (first :: rest) (inner.inboundRow now first)
  obtain ⟨htheirPrice, hourBalance, hdrift⟩ :=
    fillAll_purchases now (first :: rest) (inner.inboundRow now first)
  refine ⟨hip, hstate, hdelivered, hreceived, hourPrice, htheirPrice, htheirBalance, hourBalance,
    hmetered, ?_, hdrift⟩
  have hself : min (now.saturatingSub first.lastSeen) (now.saturatingSub first.lastSeen) =
      now.saturatingSub first.lastSeen :=
    ite_self _
  rw [← hidle]
  simp only [Option.map_none, Option.toList_none, List.nil_append, List.map_cons, inboundRow,
    List.min?_cons', List.foldl_cons, hself]

theorem pubkey_byPubkey {pubkey : String} {row : Status.PeerStatus}
    (hrow : (inner.byPubkey now)[pubkey]? = some row) : row.pubkey = pubkey := by
  rw [getElem?_byPubkey] at hrow
  cases hview : inner.view pubkey with
  | some view =>
    simp only [hview, Option.some.injEq] at hrow
    rw [← hrow, (fillAll_frame now _ _).1]
    exact (inner.view_eq_some.mp hview).2
  | none =>
    cases hproviders : inner.providers pubkey with
    | nil => simp [hview, hproviders] at hrow
    | cons first rest =>
      have hmem : first ∈ inner.providers pubkey := hproviders ▸ List.mem_cons_self
      simp only [hview, hproviders, Option.some.injEq] at hrow
      rw [← hrow, (fillAll_frame now _ _).1]
      exact of_decide_eq_true (List.mem_filter.mp hmem).2

/-- The rows of a status: one for each key that the session or an upstream has, in the order of the
keys, with what both know of the peer. -/
structure Merges (rows : List Status.PeerStatus) : Prop where
  ordered : rows.Pairwise fun first second ↦ compare first.pubkey second.pubkey = .lt
  keys : ∀ pubkey, (∃ row ∈ rows, row.pubkey = pubkey) ↔
    (∃ peer, keyText peer = pubkey ∧ (inner.driver.session.peerPhase peer).isSome = true) ∨
      ∃ upstream ∈ intoValues inner.upstreams, upstream.pubkey = pubkey
  shows : ∀ row ∈ rows, inner.Shows now (inner.view row.pubkey) (inner.providers row.pubkey) row

theorem isSome_view {pubkey : String} :
    (inner.view pubkey).isSome = true ↔
      ∃ peer, keyText peer = pubkey ∧ (inner.driver.session.peerPhase peer).isSome = true := by
  simp only [Option.isSome_iff_exists, inner.view_eq_some, mem_snapshot, Session.peerPhase,
    Option.map_eq_some_iff]
  constructor
  · rintro ⟨view, ⟨entry, hentry, -⟩, hkey⟩
    exact ⟨view.peer, hkey, entry.phase, entry, hentry, rfl⟩
  · rintro ⟨peer, hkey, phase, entry, hentry, -⟩
    exact ⟨entry.snapshot peer, ⟨entry, hentry, rfl⟩, hkey⟩

theorem providers_ne_nil {pubkey : String} :
    inner.providers pubkey ≠ [] ↔
      ∃ upstream ∈ intoValues inner.upstreams, upstream.pubkey = pubkey := by
  rw [← List.isEmpty_eq_false_iff, List.isEmpty_eq_false_iff_exists_mem]
  simp only [providers, List.mem_filter, decide_eq_true_iff]

theorem merges_status (cbor : Minicbor) : inner.Merges now (inner.status cbor now).peers where
  ordered := pairwise_intoValues fun _ _ hrow ↦ inner.pubkey_byPubkey now hrow
  keys pubkey := by
    rw [← isSome_view, ← providers_ne_nil]
    have hrow : (∃ row ∈ (inner.status cbor now).peers, row.pubkey = pubkey) ↔
        (inner.byPubkey now)[pubkey]?.isSome = true := by
      simp only [status, mem_intoValues, Option.isSome_iff_exists]
      constructor
      · rintro ⟨row, ⟨place, hrow⟩, hkey⟩
        obtain rfl := (inner.pubkey_byPubkey now hrow).symm.trans hkey
        exact ⟨row, hrow⟩
      · rintro ⟨row, hrow⟩
        exact ⟨row, ⟨pubkey, hrow⟩, inner.pubkey_byPubkey now hrow⟩
    rw [hrow, getElem?_byPubkey]
    cases inner.view pubkey with
    | some view => simp
    | none => cases inner.providers pubkey <;> simp
  shows row hmem := by
    obtain ⟨place, hrow⟩ := mem_intoValues.mp hmem
    rw [inner.pubkey_byPubkey now hrow]
    rw [getElem?_byPubkey] at hrow
    cases hview : inner.view place with
    | some view =>
      simp only [hview, Option.some.injEq] at hrow
      exact hrow ▸ inner.shows_of_view now view _
    | none =>
      cases hproviders : inner.providers place with
      | nil => simp [hview, hproviders] at hrow
      | cons first rest =>
        simp only [hview, hproviders, Option.some.injEq] at hrow
        exact hrow ▸ inner.shows_of_upstream now first rest

end Rows

/-- After every run, calls of the driver and observations of upstreams in any order: the session is
where the calls alone take it, of every upstream its own observations are remembered, and the status
has one row for each peer that the session tracks or that some upstream turned out to be, in the
order of the keys. A row shows what the session knows of the peer and what is remembered of its
upstreams. -/
theorem status_after_run (cbor : Minicbor) (publicKey : PublicKey) (unit : String) (price : Price)
    (announce priceSheet : Bytes) (inputs : List Input) (now : Millis) :
    let inner := (machine cbor).final (new publicKey unit price announce priceSheet) inputs
    inner.driver = (Driver.machine cbor).final (Driver.new price announce priceSheet)
        (inputs.filterMap Input.toCall) ∧
      (inner.publicKey = publicKey ∧ inner.unit = unit ∧ inner.ourPrice = price) ∧
      (∀ url : String, inner.upstreams[url]? = remembered url (observations url inputs)) ∧
      inner.Merges now (inner.status cbor now).peers := by
  intro inner
  refine ⟨driver_final _ inputs, settings_final _ inputs, fun url ↦ ?_,
    inner.merges_status now cbor⟩
  have hgroup := congrArg (fun map : ExtTreeMap String UpstreamState ↦ map[url]?)
    (@upstreams_final cbor (new publicKey unit price announce priceSheet) inputs)
  refine hgroup.trans ?_
  rw [getElem?_group]
  refine groupEntry_observe fun observation hmem ↦ ?_
  simpa using (List.mem_filter.mp hmem).2

end Inner

end Tollgate
