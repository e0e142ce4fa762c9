import Tollgate.Library.Decimal
import Tollgate.Net.UpstreamClient

/-!
# Advertisements and session events

`v1_compat/merchant.rs` builds the events that a gateway publishes, and `v1_compat/nostr.rs` and
`parse_advertisement` of `crowsnest.rs` read them. Both go by lists of tags: a tag is a list of
texts, the first of which is its name, and of several tags of one name most readers take the first.

The nostr crate signs, prints and reads events; it is the parameter `Nostr`. `Nostr.Preserves` is
what is assumed of it: an event that is signed, printed and read again has the kind and the tags
that it was built with, and a valid signature.
-/

set_option autoImplicit false
set_option relaxedAutoImplicit false

namespace Tollgate

open Std Decimal

/-! ### Events -/

/-- What an `EventBuilder` is given. -/
structure NostrDraft where
  kind : UInt16
  content : String
  tags : List (List String)
  deriving DecidableEq

/-- A signed event. -/
structure NostrEvent where
  id : String
  pubkey : String
  createdAt : UInt64
  kind : UInt16
  tags : List (List String)
  content : String
  sig : String
  deriving DecidableEq

/-- What is used of the nostr crate, with the keys that it signs with. -/
structure Nostr (Keys : Type) where
  signWithKeys : Keys → NostrDraft → Except String NostrEvent
  asJson : NostrEvent → String
  fromJson : String → Except String NostrEvent
  verifySignature : NostrEvent → Bool
  debugKind : UInt16 → String

/-- The event that is built from a draft reads back with its kind and its tags. -/
def Nostr.Preserves {Keys : Type} (nostr : Nostr Keys) (keys : Keys) (draft : NostrDraft) : Prop :=
  ∃ event parsed, nostr.signWithKeys keys draft = .ok event ∧
    nostr.fromJson (nostr.asJson event) = .ok parsed ∧
    parsed.kind = draft.kind ∧ parsed.tags = draft.tags ∧ nostr.verifySignature parsed = true

/-- `V1NostrError`, as far as reading an event goes. -/
inductive V1NostrError
  | wrongKind (expected got : UInt16)
  | eventParse (message : String)
  deriving DecidableEq

/-- The text of an error. -/
def V1NostrError.text {Keys : Type} (nostr : Nostr Keys) : V1NostrError → String
  | wrongKind expected got =>
    "wrong event kind: expected " ++ nostr.debugKind expected ++ ", got " ++ nostr.debugKind got
  | eventParse message => "event parse error: " ++ message

namespace NostrEvent

variable (event : NostrEvent)

/-- The item at a place of the first tag with a name. -/
def tagItem (name : String) (place : ℕ) : Option String :=
  (event.tags.find? fun items ↦ decide (items.head? = some name)).bind fun items ↦ items[place]?

/-- `tag_value`, and the loop of every reader of one value. -/
def tagValue (name : String) : Option String :=
  event.tagItem name 1

/-- `TollGateAdvertisement::metric` and `SessionEvent::metric`. -/
def metric : Option String :=
  event.tagValue "metric"

/-- `TollGateAdvertisement::step_size`. -/
def stepSize : Option UInt64 :=
  (event.tagValue "step_size").bind parseU64

/-- A pricing option of a tag; a price that does not parse is read as zero, and so is a minimum that
does not parse or is not there. -/
def pricingOption : List String → Option PricingOption
  | "price_per_step" :: assetType :: price :: unit :: mintUrl :: rest =>
    some
      { assetType := assetType
        pricePerStep := (parseU64 price).getD 0
        unit := unit
        mintUrl := mintUrl
        minSteps := (rest.head?.bind parseU64).getD 0 }
  | _ => none

/-- `TollGateAdvertisement::pricing_options`. -/
def pricingOptions : List PricingOption :=
  event.tags.filterMap pricingOption

/-- `SessionEvent::allotment`. -/
def allotment : Option UInt64 :=
  (event.tagValue "allotment").bind parseU64

/-- `SessionEvent::device_identifier`. -/
def deviceIdentifier : Option String :=
  event.tagItem "device-identifier" 2

/-- `SessionEvent::start_time`. -/
def startTime : Option Int64 :=
  (event.tagValue "start-time").bind parseI64

/-- `SessionEvent::customer_pubkey`. -/
def customerPubkey : Option String :=
  event.tagValue "p"

end NostrEvent

section Read

variable {Keys : Type} (nostr : Nostr Keys)

/-- An event of a kind. -/
def readEvent (kind : UInt16) (json : String) : Except V1NostrError NostrEvent :=
  match nostr.fromJson json with
  | .error message => .error (.eventParse message)
  | .ok event => if event.kind ≠ kind then .error (.wrongKind kind event.kind) else .ok event

/-- `TollGateAdvertisement::from_json`. -/
def TollGateAdvertisement.fromJson (json : String) : Except V1NostrError NostrEvent :=
  readEvent nostr 10021 json

/-- `SessionEvent::from_json`. -/
def SessionEvent.fromJson (json : String) : Except V1NostrError NostrEvent :=
  readEvent nostr 1022 json

/-- What the client reads of an advertisement. -/
def TollGateAdvertisement.ofEvent (event : NostrEvent) : TollGateAdvertisement :=
  ⟨event.metric, event.stepSize, event.pricingOptions⟩

end Read

/-- `UpstreamMint`. -/
structure UpstreamMint where
  url : String
  pricePerStep : UInt64
  unit : String
  minSteps : UInt64
  deriving DecidableEq

/-- `DiscoveredUpstream`. -/
structure DiscoveredUpstream where
  gatewayIp : String
  interface : String
  nostrPubkey : String
  metric : String
  stepSize : UInt64
  acceptedMints : List UpstreamMint
  deriving DecidableEq

/-- `UpstreamDetectError`, as far as parsing an advertisement goes. -/
inductive UpstreamDetectError
  | invalidAdvertisement (message : String)
  | invalidSignature
  deriving DecidableEq

/-- `parse_advertisement`. -/
def parseAdvertisement {Keys : Type} (nostr : Nostr Keys)
    (eventJson gatewayIp interface : String) (verifySignature : Bool) :
    Except UpstreamDetectError DiscoveredUpstream :=
  match TollGateAdvertisement.fromJson nostr eventJson with
  | .error error => .error (.invalidAdvertisement ("failed to parse event: " ++ error.text nostr))
  | .ok event =>
    if verifySignature && !nostr.verifySignature event then .error .invalidSignature
    else
      match event.metric with
      | none => .error (.invalidAdvertisement "missing 'metric' tag")
      | some metric =>
        match event.stepSize with
        | none => .error (.invalidAdvertisement "missing or invalid 'step_size' tag")
        | some stepSize =>
          if event.pricingOptions = [] then
            .error (.invalidAdvertisement "no 'price_per_step' tags found")
          else
            .ok
              { gatewayIp := gatewayIp
                interface := interface
                nostrPubkey := event.pubkey
                metric := metric
                stepSize := stepSize
                acceptedMints := event.pricingOptions.map fun option ↦
                  ⟨option.mintUrl, option.pricePerStep, option.unit, option.minSteps⟩ }

/-! ### The merchant -/

/-- `AcceptedMint`. -/
structure AcceptedMint where
  url : String
  pricePerStep : UInt64
  unit : String
  minSteps : UInt64
  deriving DecidableEq

/-- What the merchant reads of a `V1ServerConfig`; of the tracker of its mints, which of them it has
found to be reachable. -/
structure V1ServerConfig (Keys : Type) where
  metric : String
  stepSize : UInt64
  acceptedMints : List AcceptedMint
  nostrKeys : Keys
  mintHealth : Option (ExtTreeMap String Bool)

/-- `CustomerSession`. -/
structure CustomerSession where
  macAddress : String
  startTime : Int64
  metric : String
  allotment : UInt64
  deriving DecidableEq

/-- `AllotmentError`. -/
inductive AllotmentError
  | unknownMint (mintUrl : String)
  | insufficientSteps (steps minSteps : UInt64)
  deriving DecidableEq, Repr

namespace V1ServerConfig

variable {Keys : Type} (config : V1ServerConfig Keys)

/-- The mints to advertise: all of them without a tracker, and with one those that
`get_reachable_mints` keeps. -/
def reachable : List AcceptedMint :=
  match config.mintHealth with
  | some tracker => config.acceptedMints.filter fun mint ↦ tracker[mint.url]?.getD false
  | none => config.acceptedMints

/-- The `price_per_step` tag of a mint. -/
def priceTag (mint : AcceptedMint) : List String :=
  ["price_per_step", "cashu", showU64 mint.pricePerStep, mint.unit, mint.url,
    showU64 mint.minSteps]

/-- What `build_degraded_advertisement` signs. -/
def degradedAdvertisement : NostrDraft where
  kind := 10021
  content := "TollGate is in degraded mode. No reachable mints detected."
  tags := [["metric", config.metric], ["step_size", showU64 config.stepSize],
    ["level", "warning"], ["code", "no-reachable-mints"]]

/-- What `build_advertisement` signs. -/
def advertisement : NostrDraft :=
  if config.reachable = [] then config.degradedAdvertisement
  else
    { kind := 10021
      content := ""
      tags := [["metric", config.metric], ["step_size", showU64 config.stepSize]] ++
        config.reachable.map priceTag ++
        [["tips", "1", "2", "3", "4"], ["step", showU64 config.stepSize]] }

/-- `build_advertisement`. -/
def buildAdvertisement (nostr : Nostr Keys) : Except String String :=
  (nostr.signWithKeys config.nostrKeys config.advertisement).map nostr.asJson

/-- `calculate_allotment`. -/
def calculateAllotment (amountSats : UInt64) (mintUrl : String) : Except AllotmentError UInt64 :=
  match config.acceptedMints.find? fun mint ↦ decide (mint.url = mintUrl) with
  | none => .error (.unknownMint mintUrl)
  | some mint =>
    if mint.pricePerStep = 0 then .ok config.stepSize
    else
      let steps := amountSats / mint.pricePerStep
      if steps < mint.minSteps then .error (.insufficientSteps steps mint.minSteps)
      else .ok (steps * config.stepSize)

/-- What `build_session_event` signs. -/
def sessionEvent (session : CustomerSession) (customerIdentifier : String) (amountSat : UInt64)
    (tokenType : String) : NostrDraft where
  kind := 1022
  content := ""
  tags := [["p", customerIdentifier], ["allotment", showU64 session.allotment],
    ["metric", session.metric], ["device-identifier", "mac", session.macAddress],
    ["start-time", showI64 session.startTime], ["amount_sat", showU64 amountSat],
    ["token_type", tokenType]] ++
    if amountSat = 0 then []
    else [["effective_rate", showU64 (session.allotment / 1000 / amountSat)]]

/-- `build_session_event`. -/
def buildSessionEvent (nostr : Nostr Keys) (session : CustomerSession)
    (customerIdentifier : String) (amountSat : UInt64) (tokenType : String) :
    Except String String :=
  (nostr.signWithKeys config.nostrKeys
    (sessionEvent session customerIdentifier amountSat tokenType)).map nostr.asJson

end V1ServerConfig

/-! ### Reading back what is built -/

/-- The offer of a mint, as it is advertised. -/
def AcceptedMint.offer (mint : AcceptedMint) : PricingOption :=
  ⟨"cashu", mint.pricePerStep, mint.unit, mint.url, mint.minSteps⟩

/-- A mint, as it is discovered. -/
def AcceptedMint.upstream (mint : AcceptedMint) : UpstreamMint :=
  ⟨mint.url, mint.pricePerStep, mint.unit, mint.minSteps⟩

theorem pricingOption_priceTag (mint : AcceptedMint) :
    NostrEvent.pricingOption (V1ServerConfig.priceTag mint) = some mint.offer := by
  simp [NostrEvent.pricingOption, V1ServerConfig.priceTag, AcceptedMint.offer]

section Advertised

variable {Keys : Type} {config : V1ServerConfig Keys} {event : NostrEvent}

/-- Assumes: the tags of the advertisement. Its metric and its step size are there in any case, and
the options are those of the reachable mints, in their order. -/
theorem ofEvent_advertisement (htags : event.tags = config.advertisement.tags) :
    event.metric = some config.metric ∧ event.stepSize = some config.stepSize ∧
      event.pricingOptions = config.reachable.map AcceptedMint.offer := by
  unfold NostrEvent.metric NostrEvent.stepSize NostrEvent.pricingOptions NostrEvent.tagValue
    NostrEvent.tagItem
  rw [htags, V1ServerConfig.advertisement]
  split_ifs with hnone
  · refine ⟨rfl, parseU64_showU64 _, ?_⟩
    rw [hnone]
    rfl
  · refine ⟨rfl, parseU64_showU64 _, ?_⟩
    rw [List.filterMap_append, List.filterMap_append, List.filterMap_map]
    have hprices : config.reachable.filterMap
        (NostrEvent.pricingOption ∘ V1ServerConfig.priceTag) =
        config.reachable.map AcceptedMint.offer := by
      rw [← List.filterMap_eq_map]
      refine List.filterMap_congr fun mint _ ↦ ?_
      exact pricingOption_priceTag mint
    rw [hprices]
    simp [NostrEvent.pricingOption]

end Advertised

/-- Assumes: the tags of a session event. What its readers find. -/
theorem readers_sessionEvent {session : CustomerSession} {customerIdentifier : String}
    {amountSat : UInt64} {tokenType : String} {event : NostrEvent}
    (htags : event.tags =
      (V1ServerConfig.sessionEvent session customerIdentifier amountSat tokenType).tags) :
    event.allotment = some session.allotment ∧ event.metric = some session.metric ∧
      event.deviceIdentifier = some session.macAddress ∧
      event.startTime = some session.startTime ∧
      event.customerPubkey = some customerIdentifier := by
  unfold NostrEvent.allotment NostrEvent.metric NostrEvent.deviceIdentifier NostrEvent.startTime
    NostrEvent.customerPubkey NostrEvent.tagValue NostrEvent.tagItem
  rw [htags, V1ServerConfig.sessionEvent]
  exact ⟨parseU64_showU64 _, rfl, rfl, parseI64_showI64 _, rfl⟩

/-- Assumes: an event that reads back. The text that is built, and what reading it gives. -/
theorem read_built {Keys : Type} {nostr : Nostr Keys} {keys : Keys} {draft : NostrDraft}
    (hpreserves : nostr.Preserves keys draft) :
    ∃ json event, (nostr.signWithKeys keys draft).map nostr.asJson = .ok json ∧
      readEvent nostr draft.kind json = .ok event ∧ event.tags = draft.tags ∧
      nostr.verifySignature event = true := by
  obtain ⟨event, parsed, hsigned, hparsed, hkind, htags, hvalid⟩ := hpreserves
  refine ⟨nostr.asJson event, parsed, ?_, ?_, htags, hvalid⟩
  · rw [hsigned]
    rfl
  · rw [readEvent, hparsed]
    simp only [hkind, ne_eq, not_true_eq_false, if_false]

/-- What comes back of an advertisement, and of a session event. -/
structure EventsRoundTrip {Keys : Type} (nostr : Nostr Keys) (config : V1ServerConfig Keys)
    (session : CustomerSession) (customerIdentifier : String) (amountSat : UInt64)
    (tokenType : String) : Prop where
  advertised : config.reachable ≠ [] →
    ∃ json pubkey, config.buildAdvertisement nostr = .ok json ∧
      ∀ gatewayIp interface verifySignature,
        parseAdvertisement nostr json gatewayIp interface verifySignature =
          .ok ⟨gatewayIp, interface, pubkey, config.metric, config.stepSize,
            config.reachable.map AcceptedMint.upstream⟩
  degraded : config.reachable = [] →
    ∃ json, config.buildAdvertisement nostr = .ok json ∧
      ∀ gatewayIp interface verifySignature,
        parseAdvertisement nostr json gatewayIp interface verifySignature =
          .error (.invalidAdvertisement "no 'price_per_step' tags found")
  session : ∃ json event,
    config.buildSessionEvent nostr session customerIdentifier amountSat tokenType = .ok json ∧
      SessionEvent.fromJson nostr json = .ok event ∧
      event.allotment = some session.allotment ∧ event.metric = some session.metric ∧
      event.deviceIdentifier = some session.macAddress ∧
      event.startTime = some session.startTime ∧
      event.customerPubkey = some customerIdentifier

/-- Assumes: of the nostr crate, that the two events read back with their kind, their tags and a
valid signature. Advertisements and session events round-trip. -/
theorem events_round_trip {Keys : Type} (nostr : Nostr Keys) (config : V1ServerConfig Keys)
    (session : CustomerSession) (customerIdentifier : String) (amountSat : UInt64)
    (tokenType : String)
    (hadvertisement : nostr.Preserves config.nostrKeys config.advertisement)
    (hsession : nostr.Preserves config.nostrKeys
      (V1ServerConfig.sessionEvent session customerIdentifier amountSat tokenType)) :
    EventsRoundTrip nostr config session customerIdentifier amountSat tokenType := by
  have hkind : config.advertisement.kind = 10021 := by
    rw [V1ServerConfig.advertisement]
    split_ifs
    · rfl
    · rfl
  obtain ⟨json, event, hbuilt, hread, htags, hvalid⟩ := read_built hadvertisement
  rw [hkind] at hread
  obtain ⟨hmetric, hstepSize, hoptions⟩ := ofEvent_advertisement htags
  refine ⟨fun hreachable ↦ ⟨json, event.pubkey, hbuilt, fun gatewayIp interface verify ↦ ?_⟩,
    fun hnone ↦ ⟨json, hbuilt, fun gatewayIp interface verify ↦ ?_⟩, ?_⟩
  · have hsome : config.reachable.map AcceptedMint.offer ≠ [] :=
      fun hempty ↦ hreachable (List.map_eq_nil_iff.mp hempty)
    simp only [parseAdvertisement, TollGateAdvertisement.fromJson, hread, hvalid, Bool.not_true,
      Bool.and_false, Bool.false_eq_true, if_false, hmetric, hstepSize, hoptions, hsome,
      List.map_map]
    rfl
  · simp only [parseAdvertisement, TollGateAdvertisement.fromJson, hread, hvalid, Bool.not_true,
      Bool.and_false, Bool.false_eq_true, if_false, hmetric, hstepSize, hoptions, hnone,
      List.map_nil, if_true]
  · obtain ⟨json, event, hbuilt, hread, htags, -⟩ := read_built hsession
    exact ⟨json, event, hbuilt, hread, readers_sessionEvent htags⟩

/-! ### An advertisement and a session -/

/-- A gateway with two mints, one of them out of reach. -/
def sampleServer : V1ServerConfig Unit where
  metric := "milliseconds"
  stepSize := 60000
  acceptedMints := [⟨"https://mint.example", 1, "sat", 2⟩, ⟨"https://other.example", 5, "sat", 1⟩]
  nostrKeys := ()
  mintHealth := some (((∅ : ExtTreeMap String Bool).insert "https://mint.example" true).insert
    "https://other.example" false)

def sampleSession : CustomerSession where
  macAddress := "aa:bb:cc:dd:ee:ff"
  startTime := 1700000000
  metric := "milliseconds"
  allotment := 120000

/-- The signed events, with the secret key three. -/
def sampleAdvertised : NostrEvent where
  id := "edc87a63f0b4ee4e5390b2e8da82efe5f68ce56f8ac44a434ae7da097644a2ee"
  pubkey := "f9308a019258c31049344f85f89d5229b531c845836f99b08601f113bce036f9"
  createdAt := 1700000000
  kind := 10021
  tags := sampleServer.advertisement.tags
  content := ""
  sig := "37eda387ee6cfddf4aeab6d0ae23d761f03a42e65ccde49134a9a7ccc23b998f" ++
    "a7590f509210aa9e884b394a7af3e2a920dc8e064350c7220d39aaac2962afcf"

def sampleGranted : NostrEvent where
  id := "2230738aecb2936b428aadea0af50e38dba188b48d93c12530dd5a8816e03785"
  pubkey := "f9308a019258c31049344f85f89d5229b531c845836f99b08601f113bce036f9"
  createdAt := 1700000000
  kind := 1022
  tags := (V1ServerConfig.sessionEvent sampleSession "aa:bb:cc:dd:ee:ff" 2 "cashu").tags
  content := ""
  sig := "9c731256286196bfba01388a2b2335cfb1c6ecd638bbcdfc25bff44aa70f676d" ++
    "0cfac750737cbb62006785bf5dc84bd1b06676b8f32980eaf0c203a374b96b2d"

def sampleAdvertisedJson : String :=
  "\x7b\"id\":\"edc87a63f0b4ee4e5390b2e8da82efe5f68ce56f8ac44a434ae7da097644a2ee\",\"pubkey" ++
  "\":\"f9308a019258c31049344f85f89d5229b531c845836f99b08601f113bce036f9\",\"created_at\":1" ++
  "700000000,\"kind\":10021,\"tags\":[[\"metric\",\"milliseconds\"],[\"step_size\",\"60000" ++
  "\"],[\"price_per_step\",\"cashu\",\"1\",\"sat\",\"https://mint.example\",\"2\"],[\"tips" ++
  "\",\"1\",\"2\",\"3\",\"4\"],[\"step\",\"60000\"]],\"content\":\"\",\"sig\":\"37eda387ee6" ++
  "cfddf4aeab6d0ae23d761f03a42e65ccde49134a9a7ccc23b998fa7590f509210aa9e884b394a7af3e2a920d" ++
  "c8e064350c7220d39aaac2962afcf\"\x7d"

def sampleGrantedJson : String :=
  "\x7b\"id\":\"2230738aecb2936b428aadea0af50e38dba188b48d93c12530dd5a8816e03785\",\"pubkey" ++
  "\":\"f9308a019258c31049344f85f89d5229b531c845836f99b08601f113bce036f9\",\"created_at\":1" ++
  "700000000,\"kind\":1022,\"tags\":[[\"p\",\"aa:bb:cc:dd:ee:ff\"],[\"allotment\",\"120000" ++
  "\"],[\"metric\",\"milliseconds\"],[\"device-identifier\",\"mac\",\"aa:bb:cc:dd:ee:ff\"]," ++
  "[\"start-time\",\"1700000000\"],[\"amount_sat\",\"2\"],[\"token_type\",\"cashu\"],[\"eff" ++
  "ective_rate\",\"60\"]],\"content\":\"\",\"sig\":\"9c731256286196bfba01388a2b2335cfb1c6ec" ++
  "d638bbcdfc25bff44aa70f676d0cfac750737cbb62006785bf5dc84bd1b06676b8f32980eaf0c203a374b96b" ++
  "2d\"\x7d"

/-- The crate as it is on these events. -/
def sampleNostr : Nostr Unit where
  signWithKeys _ draft :=
    if draft = sampleServer.advertisement then .ok sampleAdvertised
    else if draft = V1ServerConfig.sessionEvent sampleSession "aa:bb:cc:dd:ee:ff" 2 "cashu" then
      .ok sampleGranted
    else .error "another event"
  asJson event := if event = sampleAdvertised then sampleAdvertisedJson else sampleGrantedJson
  fromJson text :=
    if text = sampleAdvertisedJson then .ok sampleAdvertised
    else if text = sampleGrantedJson then .ok sampleGranted
    else .error "another text"
  verifySignature event := decide (event = sampleAdvertised ∨ event = sampleGranted)
  debugKind kind := "Custom(" ++ toString kind.toNat ++ ")"

/-- The advertisement of one mint of two, and a session of two minutes. -/
theorem sample_events_round_trip :
    EventsRoundTrip sampleNostr sampleServer sampleSession "aa:bb:cc:dd:ee:ff" 2 "cashu" ∧
      sampleServer.reachable = [⟨"https://mint.example", 1, "sat", 2⟩] := by
  refine ⟨events_round_trip sampleNostr sampleServer sampleSession "aa:bb:cc:dd:ee:ff" 2 "cashu"
    ⟨sampleAdvertised, sampleAdvertised, ?_⟩ ⟨sampleGranted, sampleGranted, ?_⟩, ?_⟩
  · decide +kernel
  · decide +kernel
  · decide +kernel

end Tollgate
