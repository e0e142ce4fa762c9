import Mathlib

/-!
# The client of an upstream gateway

`v1_compat/client.rs` and what it uses of `pricing.rs`: `connect` asks the gateway for the usage of
an existing session and attaches to it if there is one. Otherwise it chooses the cheapest offer of
the advertisement that it has a mint for, checks it against the budget, and pays as many steps as
it wants and can afford: with a token if the wallet holds any balance, else with an invoice that
somebody has to settle.

Everything that comes from outside during an attempt (the gateway's answers and the wallet's) is a
field of `ConnectReplies`. What an attempt pays is recorded also if it fails afterwards.
-/

set_option autoImplicit false
set_option relaxedAutoImplicit false

namespace Tollgate

/-- `PricingOption`. -/
structure PricingOption where
  assetType : String
  pricePerStep : UInt64
  unit : String
  mintUrl : String
  minSteps : UInt64
  deriving DecidableEq, Repr

/-- What the client reads of a `TollGateAdvertisement`. -/
structure TollGateAdvertisement where
  metric : Option String
  stepSize : Option UInt64
  pricingOptions : List PricingOption
  deriving DecidableEq, Repr

/-- The errors of `PricingError` that choosing an offer can return. -/
inductive PricingError
  | noCompatibleMint
  | priceTooHigh (unitName : String)
  | unsupportedMetric (metric : String)
  deriving DecidableEq, Repr

/-- `V1HttpError`. -/
inductive V1HttpError
  | request (message : String)
  | nostr (message : String)
  | paymentRejected (code message : String)
  | json (message : String)
  | unexpected (message : String)
  deriving DecidableEq, Repr

/-- `V1ClientError`. -/
inductive V1ClientError
  | http (error : V1HttpError)
  | pricing (error : PricingError)
  | wallet (message : String)
  | noSession
  | lnPaymentTimeout (seconds : UInt64)
  | unexpected (message : String)
  deriving DecidableEq, Repr

/-- What the client reads of its `V1ClientConfig`. The limits on the price are floating-point
numbers; what is kept of them is which prices for a step of which size exceed them. -/
structure V1ClientConfig where
  ourMintUrls : List String
  unit : String
  exceedsPerMs : UInt64 → UInt64 → Bool
  exceedsPerByte : UInt64 → UInt64 → Bool
  preferredAllotment : UInt64

/-- `V1Session`; of the session event, its allotment. -/
structure V1Session where
  advertisement : TollGateAdvertisement
  selectedPricing : PricingOption
  sessionEvent : Option (Option UInt64)
  totalAllotment : UInt64
  metric : String
  stepSize : UInt64
  deriving DecidableEq, Repr

/-- `V1Client`, without its connection and the time of its last attempt to renew. -/
structure V1Client where
  config : V1ClientConfig
  gatewayIp : String
  session : Option V1Session

/-- `V1Client::new`. -/
def V1Client.new (config : V1ClientConfig) (gatewayIp : String) : V1Client :=
  ⟨config, gatewayIp, none⟩

/-! ### Choosing an offer -/

/-- `select_cheapest_compatible`: the first of the cheapest. -/
def selectCheapestCompatible (upstreamOptions : List PricingOption) (ourMintUrls : List String)
    (ourUnit : String) : Except PricingError PricingOption :=
  let compatible := upstreamOptions.filter fun option ↦
    option.mintUrl ∈ ourMintUrls ∧ option.unit = ourUnit
  match compatible.argmin fun option ↦ option.pricePerStep.toNat with
  | none => .error .noCompatibleMint
  | some option => .ok option

/-- `validate_budget`. -/
def validateBudget (config : V1ClientConfig) (pricing : PricingOption) (stepSize : UInt64)
    (metric : String) : Except PricingError Unit :=
  if metric = "milliseconds" then
    if config.exceedsPerMs pricing.pricePerStep stepSize then .error (.priceTooHigh "millisecond")
    else .ok ()
  else if metric = "bytes" then
    if config.exceedsPerByte pricing.pricePerStep stepSize then .error (.priceTooHigh "byte")
    else .ok ()
  else .error (.unsupportedMetric metric)

/-! ### Connecting -/

/-- What the client reads of the answer to a request for an invoice, and of its status. -/
structure LnInvoiceStatus where
  quote : Option String
  state : String
  allotment : Option UInt64
  deriving DecidableEq, Repr

/-- What one attempt is told from outside: by `/usage`, the advertisement, the wallet, the payment
and the invoice. The statuses are those polled before the time for paying the invoice is over. -/
structure ConnectReplies where
  usage : Except V1HttpError (ℤ × ℤ)
  advertisement : Except V1HttpError TollGateAdvertisement
  balance : Except String UInt64
  token : Except String String
  payment : Except V1HttpError (Option UInt64)
  invoice : Except V1HttpError LnInvoiceStatus
  statuses : List (Except V1HttpError LnInvoiceStatus)

/-- What has been paid: a token that the wallet issued, or an invoice that was settled. -/
inductive UpstreamPayment
  | token (amount : UInt64)
  | invoice (amount : UInt64)
  deriving DecidableEq, Repr

/-- An attempt that pays and may fail; what it paid outlives a failure. -/
abbrev Attempt := ExceptT V1ClientError (StateM (List UpstreamPayment))

/-- A failure of another kind ends an attempt. -/
def orFail {ε α : Type} (error : ε → V1ClientError) : Except ε α → Attempt α
  | .ok value => pure value
  | .error cause => throw (error cause)

/-- The loop of `connect_via_lightning`: the allotment once the invoice is issued. -/
def awaitInvoice : List (Except V1HttpError LnInvoiceStatus) → Except V1ClientError UInt64
  | [] => .error (.lnPaymentTimeout 300)
  | .error error :: _ => .error (.http error)
  | .ok status :: rest =>
    if status.state = "ISSUED" then
      match status.allotment with
      | some allotment => .ok allotment
      | none => awaitInvoice rest
    else awaitInvoice rest

/-- `connect_via_lightning`. -/
def V1Client.connectViaLightning (client : V1Client) (replies : ConnectReplies)
    (ad : TollGateAdvertisement) (pricing : PricingOption) (steps : UInt64) :
    Attempt V1Client := do
  let amount := steps * pricing.pricePerStep
  let response ← orFail .http replies.invoice
  if response.quote.isNone then throw (.unexpected "No quote ID in response")
  let allotment ← orFail id (awaitInvoice replies.statuses)
  modify (· ++ [.invoice amount])
  return { client with
    session := some
      { advertisement := ad
        selectedPricing := pricing
        sessionEvent := none
        totalAllotment := allotment
        metric := ad.metric.getD "milliseconds"
        stepSize := ad.stepSize.getD 60000 } }

/-- `V1Client::connect`. -/
def V1Client.connect (client : V1Client) (replies : ConnectReplies) : Attempt V1Client := do
  let (_, allotment) ← orFail .http replies.usage
  if 0 < allotment then
    -- An existing session: the advertisement is fetched for its metadata only.
    let ad ← orFail .http replies.advertisement
    let pricing ← orFail .pricing
      (selectCheapestCompatible ad.pricingOptions client.config.ourMintUrls client.config.unit)
    return { client with
      session := some
        { advertisement := ad
          selectedPricing := pricing
          sessionEvent := none
          totalAllotment := UInt64.ofNat allotment.toNat
          metric := ad.metric.getD "milliseconds"
          stepSize := ad.stepSize.getD 60000 } }
  let ad ← orFail .http replies.advertisement
  let metric := ad.metric.getD "milliseconds"
  let stepSize := ad.stepSize.getD 60000
  let pricing ← orFail .pricing
    (selectCheapestCompatible ad.pricingOptions client.config.ourMintUrls client.config.unit)
  orFail .pricing (validateBudget client.config pricing stepSize metric)
  let preferredSteps := if stepSize = 0 then 1 else client.config.preferredAllotment / stepSize
  let balance ← orFail .wallet replies.balance
  let maxAffordable := if pricing.pricePerStep = 0 then 0 else balance / pricing.pricePerStep
  let steps := max (min (max preferredSteps pricing.minSteps) maxAffordable) 1
  let paymentAmount := steps * pricing.pricePerStep
  if maxAffordable = 0 ∨ balance = 0 then
    return ← client.connectViaLightning replies ad pricing steps
  let _ ← orFail .wallet replies.token
  modify (· ++ [.token paymentAmount])
  let event ← orFail .http replies.payment
  return { client with
    session := some
      { advertisement := ad
        selectedPricing := pricing
        sessionEvent := some event
        totalAllotment := event.getD 0
        metric := metric
        stepSize := stepSize } }

/-! ### A gateway that sells minutes -/

/-- A client with one mint and no limit on the price. -/
def sampleClientConfig : V1ClientConfig where
  ourMintUrls := ["https://mint.example"]
  unit := "sat"
  exceedsPerMs _ _ := false
  exceedsPerByte _ _ := false
  preferredAllotment := 60000

/-- A gateway without a session that sells a minute for a sat, and a wallet with ten. -/
def sampleReplies : ConnectReplies where
  usage := .ok (0, 0)
  advertisement := .ok
    { metric := some "milliseconds"
      stepSize := some 60000
      pricingOptions := [⟨"cashu", 1, "sat", "https://mint.example", 1⟩] }
  balance := .ok 10
  token := .ok "cashuB"
  payment := .ok (some 60000)
  invoice := .error (.unexpected "none asked for")
  statuses := []

/-- The attempt to connect to it pays one sat. -/
example : (((V1Client.new sampleClientConfig "192.168.1.1").connect sampleReplies).run.run []).2 =
    [.token 1] := by
  decide +kernel

end Tollgate
