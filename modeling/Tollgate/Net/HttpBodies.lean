import Tollgate.Library.Decimal
import Tollgate.Library.Json
import Tollgate.Net.LightningQuotes
import Tollgate.Net.Merchant
import Tollgate.Net.Renewal
import Tollgate.Net.Wallet

/-!
# Bodies of answers

What `v1_compat/handlers.rs` answers to `GET /usage` and to requests for an invoice, and what
`v1_compat/http_client.rs` makes of it. The handlers write JSON objects. The client expects a usage
as two numbers with a slash between them, and of an invoice it requires fields that the handlers do
not write.

`serde_json` prints values and reads texts; it is the parameters `print` and `fromStr`. Its maps are
sorted, so the members of what is written stand in the order of their names.
-/

set_option autoImplicit false
set_option relaxedAutoImplicit false

namespace Tollgate

open Std Decimal Json

/-- A status and a body. -/
structure HttpResponse where
  status : ℕ
  body : String

namespace HttpResponse

/-- An answer in JSON. -/
def json (print : Json → String) (status : ℕ) (value : Json) : HttpResponse :=
  ⟨status, print value⟩

/-- `json_error`, and the answers that are built like it. -/
def jsonError (print : Json → String) (status : ℕ) (message : String) : HttpResponse :=
  json print status (.object [("error", .string message)])

end HttpResponse

/-! ### The usage of a peer -/

/-- What is read of a `PeerStatus`. -/
structure PeerStatus where
  pubkey : String
  delivered : UInt64
  theirBalance : Int64
  deriving DecidableEq, Repr

/-- What the peer has left; a debt is nothing. -/
def PeerStatus.remaining (peer : PeerStatus) : UInt64 :=
  UInt64.ofNat peer.theirBalance.toInt.toNat

/-- `UsageInfo`. -/
structure UsageInfo where
  delivered : UInt64
  balance : UInt64
  allotment : UInt64

/-- `find_peer_status`. -/
def findPeerStatus (peers : List PeerStatus) (peerHex : String) : Option PeerStatus :=
  peers.find? fun peer ↦ decide (peer.pubkey = peerHex)

/-- `get_usage_json`. -/
def getUsageJson (peers : List PeerStatus) (peerHex : String) : Option UsageInfo :=
  (findPeerStatus peers peerHex).map fun peer ↦ ⟨peer.delivered, peer.remaining, peer.remaining⟩

section Server

variable {Keys : Type} (config : V1ServerConfig Keys) (print : Json → String)

/-- The success body of `GET /usage`. -/
def usageBody (usage : UsageInfo) : Json :=
  .object [("allotment", .ofU64 usage.allotment), ("delivered", .ofU64 usage.delivered),
    ("metric", .string config.metric), ("remaining", .ofU64 usage.balance),
    ("step_size", .ofU64 config.stepSize)]

/-- `handle_usage`, for a peer if it is known which. -/
def handleUsage (peers : List PeerStatus) (peerHex : Option String) : HttpResponse :=
  match peerHex with
  | none => .jsonError print 400 "unknown client"
  | some peerHex =>
    match getUsageJson peers peerHex with
    | some usage => .json print 200 (usageBody config usage)
    | none => .jsonError print 404 "no active session"

/-! ### Invoices -/

/-- `MintQuoteInfo`. -/
structure MintQuoteInfo where
  quoteId : String
  invoice : String
  amount : UInt64
  expiry : UInt64

/-- Why a quote is not checked, and whether the text, in lower case, contains "unknown". -/
structure QuoteCheckError where
  text : String
  saysUnknown : Bool

/-- What the handlers ask of the wallet. -/
structure InvoiceWallet where
  requestMintQuote : UInt64 → String → Except String MintQuoteInfo
  checkMintQuoteStatus : String → Except QuoteCheckError QuoteState

variable (fromStr : String → Except String Json) (wallet : Option InvoiceWallet)

/-- The amount that is asked for, eight if there is none. -/
def requestedAmount (body : String) : UInt64 :=
  ((fromStr body).toOption.bind fun value ↦ (value.get "amount").bind Json.asU64).getD 8

/-- The success body of `POST /ln-invoice`. -/
def postInvoiceBody (info : MintQuoteInfo) : Json :=
  .object [("amount", .ofU64 info.amount), ("expiry", .ofU64 info.expiry),
    ("invoice", .string info.invoice), ("quote", .string info.quoteId), ("status", .number 0)]

/-- The mint that an invoice is asked of: the first. -/
def invoiceMint : String :=
  (config.acceptedMints.head?.map AcceptedMint.url).getD "http://localhost:3338"

/-- `handle_post_ln_invoice`. -/
def handlePostLnInvoice (body : String) : HttpResponse :=
  let amount := requestedAmount fromStr body
  match wallet with
  | none => .jsonError print 503 "wallet not configured"
  | some wallet =>
    match wallet.requestMintQuote amount (invoiceMint config) with
    | .ok info => .json print 200 (postInvoiceBody info)
    | .error error =>
      .json print 500 (.object [("amount", .ofU64 amount),
        ("error", .string ("mint quote failed: " ++ error))])

/-- The name of a state. -/
def QuoteState.text : QuoteState → String
  | unpaid => "UNPAID"
  | paid => "PAID"
  | issued => "ISSUED"

/-- The success body of `GET /ln-invoice`. -/
def getInvoiceBody (quoteId : String) (state : QuoteState) : Json :=
  .object [("quote", .string quoteId), ("state", .string state.text)]

/-- `handle_get_ln_invoice`, with the parameter `quote` of the request. -/
def handleGetLnInvoice (quote : Option String) : HttpResponse :=
  match quote with
  | none => .jsonError print 400 "missing quote parameter"
  | some quoteId =>
    match wallet with
    | none => .jsonError print 503 "wallet not configured"
    | some wallet =>
      match wallet.checkMintQuoteStatus quoteId with
      | .ok state => .json print 200 (getInvoiceBody quoteId state)
      | .error error =>
        .json print (if error.saysUnknown then 404 else 500)
          (.object [("error", .string ("quote check failed: " ++ error.text)),
            ("quote", .string quoteId)])

end Server

/-! ### The client -/

/-- Why the client makes nothing of an answer. -/
inductive BodyError
  | status (code : ℕ)
  | notJson (message : String)
  | notObject
  | field (error : FieldError)
  deriving DecidableEq

/-- `parse_usage_response`. -/
def parseUsageResponse (body : String) : ℤ × ℤ :=
  let number (part : List Char) : ℤ := ((parseI64 (String.ofList part)).map Int64.toInt).getD (-1)
  match (trim body).toList.splitOn '/' with
  | [first, second] =>
    if number first < 0 ∨ number second < 0 then (0, 0) else (number first, number second)
  | _ => (0, 0)

/-- The body of an answer that is not an error. -/
def HttpResponse.success (response : HttpResponse) : Except BodyError String :=
  if 400 ≤ response.status then .error (.status response.status) else .ok response.body

/-- `fetch_usage`. -/
def fetchUsage (response : HttpResponse) : Except BodyError (ℤ × ℤ) :=
  response.success.map parseUsageResponse

/-- `LnInvoiceResponse`. -/
structure LnInvoiceResponse where
  status : UInt8
  quote : Option String
  invoice : Option String
  mintUrl : Option String
  amount : Option UInt64
  expiry : Option UInt64
  state : String
  accessGranted : Bool
  allotment : Option UInt64
  metric : Option String
  error : Option String

/-- An invoice of the members of an object. -/
def LnInvoiceResponse.ofMembers (members : List (String × Json)) :
    Except FieldError LnInvoiceResponse := do
  let status ← required asU8 members "status"
  let quote ← optional asStr members "quote"
  let invoice ← optional asStr members "invoice"
  let mintUrl ← optional asStr members "mint_url"
  let amount ← optional asU64 members "amount"
  let expiry ← optional asU64 members "expiry"
  let state ← required asStr members "state"
  let accessGranted ← required asBool members "access_granted"
  let allotment ← optional asU64 members "allotment"
  let metric ← optional asStr members "metric"
  let error ← optional asStr members "error"
  return ⟨status, quote, invoice, mintUrl, amount, expiry, state, accessGranted, allotment, metric,
    error⟩

/-- `LnInvoiceStatus`, with the field that the client does not go by. -/
structure LnInvoiceStatusBody where
  quote : Option String
  state : String
  accessGranted : Bool
  allotment : Option UInt64

/-- The status of an invoice of the members of an object. -/
def LnInvoiceStatusBody.ofMembers (members : List (String × Json)) :
    Except FieldError LnInvoiceStatusBody := do
  let quote ← optional asStr members "quote"
  let state ← required asStr members "state"
  let accessGranted ← required asBool members "access_granted"
  let allotment ← optional asU64 members "allotment"
  return ⟨quote, state, accessGranted, allotment⟩

section Client

variable (fromStr : String → Except String Json)

/-- A record of the body of an answer. -/
def readBody {α : Type} (ofMembers : List (String × Json) → Except FieldError α)
    (response : HttpResponse) : Except BodyError α :=
  match response.success with
  | .error error => .error error
  | .ok body =>
    match fromStr body with
    | .error message => .error (.notJson message)
    | .ok (.object members) =>
      match ofMembers members with
      | .ok record => .ok record
      | .error error => .error (.field error)
    | .ok _ => .error .notObject

/-- `request_ln_invoice`, given the answer. -/
def requestLnInvoice (response : HttpResponse) : Except BodyError LnInvoiceResponse :=
  readBody fromStr LnInvoiceResponse.ofMembers response

/-- `check_ln_invoice_status`, given the answer. -/
def checkLnInvoiceStatus (response : HttpResponse) : Except BodyError LnInvoiceStatusBody :=
  readBody fromStr LnInvoiceStatusBody.ofMembers response

/-- A value is read back from its text. -/
def ReadsBack (print : Json → String) (value : Json) : Prop :=
  fromStr (print value) = .ok value

end Client

/-- The text that is printed of an object opens with a brace. -/
def OpensObjects (print : Json → String) : Prop :=
  ∀ members, ∃ rest, (print (.object members)).toList = '\x7b' :: rest

/-! ### What reaches the client -/

/-- The first part of a text with a brace in front opens with that brace. -/
theorem splitOn_brace (rest : List Char) :
    ∃ part parts, ('\x7b' :: rest).splitOn '/' = ('\x7b' :: part) :: parts := by
  rw [List.splitOn_cons_eq_if_modifyHead, if_neg (by decide)]
  cases hsplit : rest.splitOn '/' with
  | nil => exact absurd hsplit (List.splitOn_ne_nil _ _)
  | cons part parts => exact ⟨part, parts, rfl⟩

/-- What opens with a brace is no number. -/
theorem parseI64_brace (part : List Char) : parseI64 (String.ofList ('\x7b' :: part)) = none := by
  unfold parseI64
  rw [String.toList_ofList]
  simp [ofDigits]

/-- White space around an object is none of its brace. -/
theorem trim_brace {text : String} {rest : List Char} (htext : text.toList = '\x7b' :: rest) :
    ∃ kept, (trim text).toList = '\x7b' :: kept := by
  rw [trim, htext, String.toList_ofList, List.dropWhile_cons_of_neg (by decide), List.reverse_cons,
    List.dropWhile_append]
  split
  · exact ⟨[], rfl⟩
  · exact ⟨(rest.reverse.dropWhile isWhiteSpace).reverse, by simp⟩

/-- Of an object the client reads no usage. -/
theorem parseUsageResponse_object {print : Json → String} (hprint : OpensObjects print)
    (members : List (String × Json)) : parseUsageResponse (print (.object members)) = (0, 0) := by
  obtain ⟨rest, hrest⟩ := hprint members
  obtain ⟨kept, hkept⟩ := trim_brace hrest
  obtain ⟨part, parts, hsplit⟩ := splitOn_brace kept
  rw [parseUsageResponse, hkept, hsplit]
  cases parts with
  | nil => rfl
  | cons second others =>
    cases others with
    | nil =>
      simp only [parseI64_brace, Option.map_none, Option.getD_none]
      rw [if_pos (.inl (by decide))]
    | cons third others => rfl

section Agreement

variable {Keys : Type} (config : V1ServerConfig Keys) (print : Json → String)

/-- The client reads the usage of the peer, and what it has left; and that something is left when
something is. -/
def UsageAgrees (peers : List PeerStatus) (peer : PeerStatus) : Prop :=
  fetchUsage (handleUsage config print peers (some peer.pubkey)) =
      .ok ((peer.delivered.toNat : ℤ), (peer.remaining.toNat : ℤ)) ∧
    (0 < peer.theirBalance.toInt → ∃ usage allotment,
      fetchUsage (handleUsage config print peers (some peer.pubkey)) = .ok (usage, allotment) ∧
        0 < allotment)

variable {config print}

/-- What the client reads of a peer that the server knows. -/
theorem fetchUsage_handleUsage (hprint : OpensObjects print) {peers : List PeerStatus}
    {peerHex : String} {peer : PeerStatus} (hpeer : findPeerStatus peers peerHex = some peer) :
    fetchUsage (handleUsage config print peers (some peerHex)) = .ok (0, 0) := by
  simp only [handleUsage, getUsageJson, hpeer, Option.map_some]
  exact congrArg Except.ok (parseUsageResponse_object hprint _)

theorem PeerStatus.toNat_remaining (peer : PeerStatus) :
    peer.remaining.toNat = peer.theirBalance.toInt.toNat := by
  refine UInt64.toNat_ofNat_of_lt' ?_
  have hlt := peer.theirBalance.toInt_lt
  show peer.theirBalance.toInt.toNat < 2 ^ 64
  omega

/-- The usage is read for a peer that has nothing left and was delivered nothing. -/
theorem usageAgrees_iff (hprint : OpensObjects print) {peers : List PeerStatus} {peer : PeerStatus}
    (hpeer : findPeerStatus peers peer.pubkey = some peer) :
    UsageAgrees config print peers peer ↔ peer.delivered = 0 ∧ peer.theirBalance.toInt ≤ 0 := by
  rw [UsageAgrees, fetchUsage_handleUsage hprint hpeer, peer.toNat_remaining]
  constructor
  · rintro ⟨hsame, hleft⟩
    have hpair := Prod.mk.inj (Except.ok.inj hsame)
    refine ⟨UInt64.toNat_inj.mp (Int.natCast_eq_zero.mp hpair.1.symm), ?_⟩
    have hnone := hpair.2
    omega
  · rintro ⟨hdelivered, hnone⟩
    refine ⟨?_, fun hleft ↦ absurd hleft (Int.not_lt.mpr hnone)⟩
    rw [hdelivered, Int.toNat_of_nonpos hnone]
    rfl

variable (config print) (fromStr : String → Except String Json)

/-- The client reads the quote and the amount of an invoice. -/
def InvoiceAgrees (wallet : InvoiceWallet) (body : String) (info : MintQuoteInfo) : Prop :=
  ∃ response,
    requestLnInvoice fromStr (handlePostLnInvoice config print fromStr (some wallet) body) =
        .ok response ∧
      response.quote = some info.quoteId ∧ response.invoice = some info.invoice ∧
      response.amount = some info.amount

/-- The client reads the quote and the state of an invoice. -/
def StatusAgrees (wallet : InvoiceWallet) (quoteId : String) (state : QuoteState) : Prop :=
  ∃ status,
    checkLnInvoiceStatus fromStr (handleGetLnInvoice print (some wallet) (some quoteId)) =
        .ok status ∧
      status.quote = some quoteId ∧ status.state = state.text

variable {config print fromStr}

/-- Assumes: an object that reads back, with a field amiss. The client makes nothing of it. -/
theorem readBody_error {α : Type} {ofMembers : List (String × Json) → Except FieldError α}
    {members : List (String × Json)} {error : FieldError}
    (hreads : ReadsBack fromStr print (.object members))
    (hfields : ofMembers members = .error error) :
    readBody fromStr ofMembers (.json print 200 (.object members)) = .error (.field error) := by
  have hbody : fromStr (print (.object members)) = .ok (.object members) := hreads
  have hsuccess : (HttpResponse.json print 200 (.object members)).success =
      .ok (print (.object members)) := rfl
  simp only [readBody, hsuccess, hbody, hfields]

/-- The client finds no state in the answer to a request for an invoice. -/
theorem requestLnInvoice_handlePost {wallet : InvoiceWallet} {body : String} {info : MintQuoteInfo}
    (hinfo : wallet.requestMintQuote (requestedAmount fromStr body) (invoiceMint config) = .ok info)
    (hreads : ReadsBack fromStr print (postInvoiceBody info)) :
    requestLnInvoice fromStr (handlePostLnInvoice config print fromStr (some wallet) body) =
      .error (.field (.missingField "state")) := by
  have hanswer : handlePostLnInvoice config print fromStr (some wallet) body =
      .json print 200 (postInvoiceBody info) := by
    simp only [handlePostLnInvoice, hinfo]
  rw [hanswer]
  refine readBody_error hreads ?_
  rw [LnInvoiceResponse.ofMembers,
    optional_of_some rfl (by simp [ofU64]) (asU64_ofU64 info.amount),
    optional_of_some rfl (by simp [ofU64]) (asU64_ofU64 info.expiry)]
  rfl

/-- The client does not find in the status of an invoice whether access was granted. -/
theorem checkLnInvoiceStatus_handleGet {wallet : InvoiceWallet} {quoteId : String}
    {state : QuoteState} (hstate : wallet.checkMintQuoteStatus quoteId = .ok state)
    (hreads : ReadsBack fromStr print (getInvoiceBody quoteId state)) :
    checkLnInvoiceStatus fromStr (handleGetLnInvoice print (some wallet) (some quoteId)) =
      .error (.field (.missingField "access_granted")) := by
  have hanswer : handleGetLnInvoice print (some wallet) (some quoteId) =
      .json print 200 (getInvoiceBody quoteId state) := by
    simp only [handleGetLnInvoice, hstate]
  rw [hanswer]
  exact readBody_error hreads rfl

end Agreement

/-- A client of this server finds no session to attach to. -/
theorem looksAround_of_usage {Keys : Type} {config : V1ServerConfig Keys} {print : Json → String}
    (hprint : OpensObjects print) {peers : List PeerStatus}
    {peerHex : String} {peer : PeerStatus} (hpeer : findPeerStatus peers peerHex = some peer)
    {replies : ConnectReplies} {read : ℤ × ℤ}
    (hread : fetchUsage (handleUsage config print peers (some peerHex)) = .ok read)
    (husage : replies.usage = .ok read) : replies.LooksAround := by
  rw [fetchUsage_handleUsage hprint hpeer] at hread
  obtain rfl := Except.ok.inj hread
  exact ⟨0, 0, husage, lt_irrefl 0⟩

/-- Without an invoice that it can read, the detour by one fails. -/
theorem connectViaLightning_unread {client : V1Client} {replies : ConnectReplies}
    {error : V1HttpError} (hinvoice : replies.invoice = .error error) (ad : TollGateAdvertisement)
    (pricing : PricingOption) (steps : UInt64) :
    (client.connectViaLightning replies ad pricing steps).run.run [] =
      (.error (.http error), []) := by
  rw [V1Client.connectViaLightning, hinvoice]
  rfl

/-- The client reads the usage of a peer exactly when that is nothing of nothing, and no invoice and
no status of one.
Assumes: the text of an object opens with a brace, a peer that the server knows, a quote of the
wallet, and a body that reads back. -/
theorem bodies_agree_iff {Keys : Type} (config : V1ServerConfig Keys) {print : Json → String}
    (hprint : OpensObjects print) (fromStr : String → Except String Json) :
    (∀ peers peer, findPeerStatus peers peer.pubkey = some peer →
        (UsageAgrees config print peers peer ↔ peer.delivered = 0 ∧ peer.theirBalance.toInt ≤ 0)) ∧
      (∀ wallet body info,
        wallet.requestMintQuote (requestedAmount fromStr body) (invoiceMint config) = .ok info →
        ReadsBack fromStr print (postInvoiceBody info) →
        ¬ InvoiceAgrees config print fromStr wallet body info) ∧
      ∀ wallet quoteId state, wallet.checkMintQuoteStatus quoteId = .ok state →
        ReadsBack fromStr print (getInvoiceBody quoteId state) →
        ¬ StatusAgrees print fromStr wallet quoteId state := by
  refine ⟨fun peers peer hpeer ↦ usageAgrees_iff hprint hpeer, ?_, ?_⟩
  · rintro wallet body info hinfo hreads ⟨response, hresponse, -⟩
    rw [requestLnInvoice_handlePost hinfo hreads] at hresponse
    exact absurd hresponse (by simp)
  · rintro wallet quoteId state hstate hreads ⟨status, hstatus, -⟩
    rw [checkLnInvoiceStatus_handleGet hstate hreads] at hstatus
    exact absurd hstatus (by simp)

/-! ### A peer and an invoice -/

/-- A wallet with one quote, which is paid. -/
def sampleInvoiceWallet : InvoiceWallet where
  requestMintQuote amount _ := .ok ⟨"q1", "lnbc80n1", amount, 1700000600⟩
  checkMintQuoteStatus quoteId :=
    if quoteId = "q1" then .ok .paid else .error ⟨"unknown quote", true⟩

def samplePosted : String :=
  "\x7b\"amount\":8,\"expiry\":1700000600,\"invoice\":\"lnbc80n1\",\"quote\":\"q1\"," ++
    "\"status\":0\x7d"

def samplePaid : String :=
  "\x7b\"quote\":\"q1\",\"state\":\"PAID\"\x7d"

/-- What the texts stand for. -/
def sampleFromStr (text : String) : Except String Json :=
  if text = samplePosted then .ok (postInvoiceBody ⟨"q1", "lnbc80n1", 8, 1700000600⟩)
  else if text = samplePaid then .ok (getInvoiceBody "q1" .paid)
  else if text = "\x7b\"amount\":8\x7d" then .ok (.object [("amount", .number 8)])
  else .error "another text"

theorem opensObjects_compact : OpensObjects Json.compact :=
  fun members ↦ ⟨_, toList_compact_object members⟩

theorem sampleFromStr_posted :
    ReadsBack sampleFromStr Json.compact (postInvoiceBody ⟨"q1", "lnbc80n1", 8, 1700000600⟩) := by
  have htext : (postInvoiceBody ⟨"q1", "lnbc80n1", 8, 1700000600⟩).compact = samplePosted := by
    decide +kernel
  rw [ReadsBack, htext, sampleFromStr, if_pos rfl]

theorem sampleFromStr_paid : ReadsBack sampleFromStr Json.compact (getInvoiceBody "q1" .paid) := by
  have htext : (getInvoiceBody "q1" .paid).compact = samplePaid := by
    decide +kernel
  rw [ReadsBack, htext, sampleFromStr, if_neg (by decide), if_pos rfl]

/-- A peer without a balance is read as it is; an invoice for the eight sats that are asked for, and
its status, are not. -/
theorem bodies_of_empty_peer :
    UsageAgrees sampleServer Json.compact [⟨"02ab", 0, -5⟩] ⟨"02ab", 0, -5⟩ ∧
      ¬ InvoiceAgrees sampleServer Json.compact sampleFromStr sampleInvoiceWallet
        "\x7b\"amount\":8\x7d" ⟨"q1", "lnbc80n1", 8, 1700000600⟩ ∧
      ¬ StatusAgrees Json.compact sampleFromStr sampleInvoiceWallet "q1" .paid := by
  obtain ⟨husage, hinvoice, hstatus⟩ :=
    bodies_agree_iff sampleServer opensObjects_compact sampleFromStr
  refine ⟨(husage _ _ (by decide)).mpr ⟨by decide, by decide⟩, hinvoice _ _ _ ?_ ?_,
    hstatus _ _ _ ?_ ?_⟩
  · have hamount : requestedAmount sampleFromStr "\x7b\"amount\":8\x7d" = 8 := by
      decide +kernel
    rw [hamount]
    rfl
  · exact sampleFromStr_posted
  · rfl
  · exact sampleFromStr_paid

/-- A peer with a balance of two minutes, and the same invoice. -/
theorem bodies_not_understood :
    (handleUsage sampleServer Json.compact [⟨"02ab", 5, 120000⟩] (some "02ab")).body =
        "\x7b\"allotment\":120000,\"delivered\":5,\"metric\":\"milliseconds\"," ++
          "\"remaining\":120000,\"step_size\":60000\x7d" ∧
      fetchUsage (handleUsage sampleServer Json.compact [⟨"02ab", 5, 120000⟩] (some "02ab")) =
        .ok (0, 0) ∧
      ¬ UsageAgrees sampleServer Json.compact [⟨"02ab", 5, 120000⟩] ⟨"02ab", 5, 120000⟩ ∧
      requestLnInvoice sampleFromStr (handlePostLnInvoice sampleServer Json.compact sampleFromStr
        (some sampleInvoiceWallet) "\x7b\"amount\":8\x7d") =
          .error (.field (.missingField "state")) ∧
      checkLnInvoiceStatus sampleFromStr
        (handleGetLnInvoice Json.compact (some sampleInvoiceWallet) (some "q1")) =
          .error (.field (.missingField "access_granted")) := by
  have hknown : findPeerStatus [⟨"02ab", 5, 120000⟩] "02ab" = some ⟨"02ab", 5, 120000⟩ := by
    decide
  have hread : fetchUsage (handleUsage sampleServer Json.compact [⟨"02ab", 5, 120000⟩]
      (some "02ab")) = .ok (0, 0) := fetchUsage_handleUsage opensObjects_compact hknown
  refine ⟨by decide +kernel, hread, fun hagrees ↦ ?_, ?_, ?_⟩
  · have hpair := hread.symm.trans hagrees.1
    exact absurd hpair (by decide)
  · have hamount : requestedAmount sampleFromStr "\x7b\"amount\":8\x7d" = 8 := by
      decide +kernel
    refine requestLnInvoice_handlePost ?_ sampleFromStr_posted
    rw [hamount]
    rfl
  · exact checkLnInvoiceStatus_handleGet rfl sampleFromStr_paid

end Tollgate
