import Tollgate.Net.Admission
import Tollgate.Net.HttpBodies

/-!
# What a session event says was paid

`handle_post_payment` of `v1_compat/handlers.rs`: the token goes through the session to the wallet,
and once it is accepted the payer is sent a session event. The wallet has the token read by the
cashu crate; the event is written from a second reading, by hand, which knows one of the two
serialisations only and prices the amount at the first mint of the list.

The base64 and serde_json crates are the parameter `TokenReader`. `TokenReader.ReadsTokens` is what
the two readings have in common, the format of tokens.
-/

set_option autoImplicit false
set_option relaxedAutoImplicit false

namespace Tollgate

open Std Decimal Json

/-! ### Two readings of a token -/

/-- The text after what it starts with. -/
def stripStart (start text : String) : Option String :=
  if start.toList.isPrefixOf text.toList = true then
    some (String.ofList (text.toList.drop start.toList.length))
  else none

/-- The two base64 engines that are tried, and the reader of JSON. -/
structure TokenReader where
  urlSafeNoPad : String → Option Bytes
  standard : String → Option Bytes
  fromSlice : Bytes → Option Json

/-- The amounts of the proofs, where they are where they belong. -/
def proofAmounts (json : Json) : List UInt64 :=
  let entries := ((json.get "token").bind asArray).getD []
  (entries.filterMap fun entry ↦ (entry.get "proofs").bind asArray).flatten.filterMap fun proof ↦
    (proof.get "amount").bind asU64

namespace TokenReader

variable (reader : TokenReader)

/-- The bytes of a payload, by the first engine that takes it. -/
def decode (payload : String) : Option Bytes :=
  (reader.urlSafeNoPad payload).or (reader.standard payload)

/-- `decode_cashu_amount`. -/
def decodeCashuAmount (token : String) : Option UInt64 := do
  let payload ← (stripStart "cashuA" token).or (stripStart "cashua" token)
  let decoded ← reader.decode payload
  let json ← reader.fromSlice decoded
  return (proofAmounts json).sum

/-- `extract_token_amount_and_allotment`. -/
def extractTokenAmountAndAllotment {Keys : Type} (config : V1ServerConfig Keys) (token : String) :
    UInt64 × UInt64 :=
  let amount := (reader.decodeCashuAmount token).getD 0
  if amount = 0 then (0, 0)
  else
    let mintUrl := (config.acceptedMints.head?.map AcceptedMint.url).getD ""
    (amount, ((config.calculateAllotment amount mintUrl).toOption).getD 0)

/-- The format of tokens, as it is read by the crate and by hand. A token of the older serialisation
is `cashuA` and the base64 of a JSON object with the amounts of the proofs; one of the newer is
`cashuB` and something else. -/
structure ReadsTokens (crates : Crates) : Prop where
  v3 : ∀ text entries, crates.parse text = some (.tokenV3 entries) →
    ∃ payload, text = "cashuA" ++ payload ∧
      ∀ decoded, reader.decode payload = some decoded →
        ∃ json, reader.fromSlice decoded = some json ∧
          proofAmounts json = entries.flatten.map Proof.amount
  v4 : ∀ text entries, crates.parse text = some (.tokenV4 entries) →
    ∃ payload, text = "cashuB" ++ payload

/-- The token is in the older serialisation, in a spelling of base64 that one of the engines
takes. -/
def Legible (text : String) : Token → Prop
  | .tokenV3 _ => ∃ payload, text = "cashuA" ++ payload ∧ (reader.decode payload).isSome = true
  | .tokenV4 _ => False

end TokenReader

theorem stripStart_append (start payload : String) :
    stripStart start (start ++ payload) = some payload := by
  rw [stripStart, String.toList_append, if_pos (by simp), List.drop_left, String.ofList_toList]

/-- A token of the newer serialisation has none of the starts that the reading by hand knows. -/
theorem stripStart_cashuB {text : String} {rest : List Char}
    (htext : text.toList = 'c' :: 'a' :: 's' :: 'h' :: 'u' :: 'B' :: rest) :
    stripStart "cashuA" text = none ∧ stripStart "cashua" text = none := by
  have hold : "cashuA".toList = ['c', 'a', 's', 'h', 'u', 'A'] := rfl
  have hlower : "cashua".toList = ['c', 'a', 's', 'h', 'u', 'a'] := rfl
  constructor
  · rw [stripStart, htext, hold, if_neg (by simp [List.isPrefixOf])]
  · rw [stripStart, htext, hlower, if_neg (by simp [List.isPrefixOf])]

/-- Of such a token the reading by hand finds nothing. -/
theorem TokenReader.decodeCashuAmount_newer (reader : TokenReader) {text : String}
    {rest : List Char} (htext : text.toList = 'c' :: 'a' :: 's' :: 'h' :: 'u' :: 'B' :: rest) :
    reader.decodeCashuAmount text = none := by
  rw [decodeCashuAmount, (stripStart_cashuB htext).1, (stripStart_cashuB htext).2]
  rfl

namespace TokenReader

variable {reader : TokenReader} {crates : Crates} (hreads : reader.ReadsTokens crates)
  {text : String} {token : Token} (hparse : crates.parse text = some token)

include hreads hparse

/-- Assumes: the format of tokens. The reading by hand finds the amounts of a token that it can
read. -/
theorem decodeCashuAmount_legible (hlegible : reader.Legible text token) :
    reader.decodeCashuAmount text = some (token.proofs.map Proof.amount).sum := by
  cases token with
  | tokenV4 entries => exact absurd hlegible id
  | tokenV3 entries =>
    obtain ⟨payload, rfl, hdecodes⟩ := hlegible
    obtain ⟨decoded, hdecoded⟩ := Option.isSome_iff_exists.mp hdecodes
    obtain ⟨other, hsame, hjson⟩ := hreads.v3 _ entries hparse
    have hpayload := congrArg (stripStart "cashuA") hsame
    rw [stripStart_append, stripStart_append] at hpayload
    obtain rfl := Option.some.inj hpayload
    obtain ⟨json, hread, hamounts⟩ := hjson decoded hdecoded
    rw [decodeCashuAmount, stripStart_append]
    simp only [Option.some_or, Option.bind_eq_bind, Option.bind_some, hdecoded, hread, hamounts,
      Token.proofs]
    rfl

/-- Assumes: the same. Of any other token it finds nothing. -/
theorem decodeCashuAmount_illegible (hillegible : ¬ reader.Legible text token) :
    reader.decodeCashuAmount text = none := by
  cases token with
  | tokenV4 entries =>
    obtain ⟨payload, rfl⟩ := hreads.v4 _ entries hparse
    have htext : ("cashuB" ++ payload).toList =
        'c' :: 'a' :: 's' :: 'h' :: 'u' :: 'B' :: payload.toList := String.toList_append
    exact reader.decodeCashuAmount_newer htext
  | tokenV3 entries =>
    obtain ⟨payload, rfl, -⟩ := hreads.v3 _ entries hparse
    have hdecodes : reader.decode payload = none := by
      rw [← Option.not_isSome_iff_eq_none]
      exact fun hsome ↦ hillegible ⟨payload, rfl, hsome⟩
    rw [decodeCashuAmount, stripStart_append]
    simp only [Option.some_or, Option.bind_eq_bind, Option.bind_some, hdecodes, Option.bind_none]

end TokenReader

/-! ### Paying -/

/-- What `build_notice_event` signs. -/
def noticeEvent (level code message : String) (customerIdentifier : Option String) :
    NostrDraft where
  kind := 21023
  content := message
  tags := [["level", level], ["code", code]] ++
    match customerIdentifier with
    | some id => if id = "" then [] else [["p", id]]
    | none => []

/-- The amount that a session event states. -/
def NostrEvent.amountSat (event : NostrEvent) : Option UInt64 :=
  (event.tagValue "amount_sat").bind parseU64

/-- One request: what is sent, by whom if that is known, and the clock as it goes. -/
structure PaymentCall where
  body : String
  client : Option PeerId
  ip : Option IpAddr
  startTime : Int64
  seenAt : Millis
  connectedAt : Millis
  heardAt : Millis
  handledAt : Millis
  answeredAt : Millis

/-- What the payer is answered. -/
inductive PaymentReply
  | badRequest (message : String)
  | session (event : NostrEvent)
  | sessionError (message : String)
  | rejected (notice : Except String NostrEvent)
  deriving DecidableEq

section Handler

variable {Keys : Type} (cbor : Minicbor) (fromStr : String → Except String Json)
  (reader : TokenReader) (nostr : Nostr Keys) (server : V1ServerConfig Keys)
  (verify : String → Except String UInt64) (driver : Driver) (call : PaymentCall)

/-- `extract_payment_token`: a token as it is, or in an object. -/
def extractPaymentToken (body : String) : Option String :=
  let trimmed := trim body
  if "cashu".toList.isPrefixOf trimmed.toList = true then some trimmed
  else (fromStr body).toOption.bind fun json ↦ (json.get "token").bind asStr

/-- A token with nothing around it is taken as it is. -/
theorem extractPaymentToken_token {text : String} {middle : List Char} {last : Char}
    (htext : text.toList = 'c' :: 'a' :: 's' :: 'h' :: 'u' :: (middle ++ [last]))
    (hlast : isWhiteSpace last = false) : extractPaymentToken fromStr text = some text := by
  have hends : text.toList = 'c' :: (['a', 's', 'h', 'u'] ++ middle ++ [last]) := htext
  have hstart : "cashu".toList = ['c', 'a', 's', 'h', 'u'] := rfl
  rw [extractPaymentToken, trim_eq_self hends (by decide) hlast, htext, hstart,
    if_pos (by simp [List.isPrefixOf])]

/-- `admit_peer_with_token`, with nothing else going on. -/
def admitPeerWithToken (peer : PeerId) (token : String) : Driver × Option BootstrapAck :=
  let connected := driver.peerConnected cbor peer call.ip call.seenAt call.connectedAt
  let message := cbor.encodeBootstrapToken (BootstrapToken.new (asBytes token))
  let heard := connected.messageReceived cbor peer message call.heardAt call.handledAt
    (verify token).toOption call.answeredAt
  let drained := heard.drainOutbox peer
  (drained.1, firstAck cbor drained.2)

/-- `handle_post_payment`. -/
def handlePostPayment : Driver × PaymentReply :=
  match extractPaymentToken fromStr call.body with
  | none => (driver, .badRequest "missing or invalid token")
  | some token =>
    match call.client with
    | none => (driver, .badRequest "could not resolve client identity")
    | some peer =>
      let admitted := admitPeerWithToken cbor verify driver call peer token
      let peerHex := keyText peer
      if (admitted.2.map BootstrapAck.isAccepted).getD false = true then
        let stated := reader.extractTokenAmountAndAllotment server token
        let session : CustomerSession := ⟨peerHex, call.startTime, server.metric, stated.2⟩
        match nostr.signWithKeys server.nostrKeys
            (V1ServerConfig.sessionEvent session peerHex stated.1 "cashu") with
        | .ok event => (admitted.1, .session event)
        | .error error => (admitted.1, .sessionError ("session event error: " ++ error))
      else
        let reason := (admitted.2.elim (some "no response from gateway") BootstrapAck.reason).getD
          "rejected"
        (admitted.1, .rejected (nostr.signWithKeys server.nostrKeys
          (noticeEvent "error" "payment_rejected" reason (some peerHex))))

end Handler

/-! ### What is credited -/

/-- What a peer has with us, nothing if it is unknown. -/
def Driver.balanceOf (driver : Driver) (peer : PeerId) : ℕ :=
  ((driver.session.peers[peer]?).map fun entry ↦ entry.balance.toNat).getD 0

/-- What the wallet's answer adds to a balance, which stays within 64 bits. -/
def creditFor (balance : ℕ) (answer : Option UInt64) : ℕ :=
  min ((answer.map UInt64.toNat).getD 0) (2 ^ 64 - 1 - balance)

section Credited

variable {cbor : Minicbor} {driver : Driver} {peer : PeerId}

/-- A peer that connects is known, with the balance it had. -/
theorem exists_entry_peerConnected (ip : Option IpAddr) (seenAt now : Millis) :
    ∃ entry, (driver.peerConnected cbor peer ip seenAt now).session.peers[peer]? = some entry ∧
      entry.balance.toNat = driver.balanceOf peer := by
  have hsession : (driver.peerConnected cbor peer ip seenAt now).session =
      (driver.session.handle cbor (.peerConnected peer) now).1 := by
    have hfed : (((driver.locate peer ip).touch peer seenAt).feed cbor (.peerConnected peer)
        now).session = (driver.session.handle cbor (.peerConnected peer) now).1 := by
      rw [Driver.session_feed]
      cases ip <;> rfl
    unfold Driver.peerConnected
    split_ifs <;> exact hfed
  rw [hsession, Driver.balanceOf]
  simp only [Session.handle]
  cases hentry : driver.session.peers[peer]? with
  | none => exact ⟨PeerSession.new, by simp, rfl⟩
  | some entry => exact ⟨entry, hentry, rfl⟩

/-- The wallet's answer is added to the balance, a refusal adds nothing. -/
theorem toNat_balance_bootstrapVerified (entry : PeerSession) (answer : Option UInt64)
    (now : Millis) :
    (entry.bootstrapVerified cbor peer (Driver.verifyToken answer).2
        (Driver.verifyToken answer).1 now).1.balance.toNat =
      min (entry.balance.toNat + (answer.map UInt64.toNat).getD 0) (2 ^ 64 - 1) := by
  cases answer with
  | none => exact (min_eq_left (Nat.le_pred_of_lt entry.balance.toNat_lt)).symm
  | some amount =>
    simp only [Driver.verifyToken, PeerSession.bootstrapVerified, if_true]
    split_ifs
    · exact UInt64.toNat_saturatingAdd entry.balance amount
    · exact UInt64.toNat_saturatingAdd entry.balance amount

/-- Assumes: an entry of the peer. A token that is handed in comes back as the wallet's verdict. -/
theorem messageReceived_token (hderives : cbor.Derives) {token : String} (hfits : textFits token)
    {entry : PeerSession} (hentry : driver.session.peers[peer]? = some entry)
    (seenAt now : Millis) (answer : Option UInt64) (answeredAt : Millis) :
    ∃ heard : Driver, driver.messageReceived cbor peer (cbor.encodeBootstrapToken
        (BootstrapToken.new (asBytes token))) seenAt now answer answeredAt =
          heard.feed cbor (.bootstrapVerified peer (Driver.verifyToken answer).2
            (Driver.verifyToken answer).1) answeredAt ∧
      heard.session.peers[peer]? = some { entry with phase := .bootstrapPending } ∧
      heard.acks cbor peer = driver.acks cbor peer := by
  obtain ⟨hpeek, hdecode⟩ := token_reads hderives hfits
  have hheard : (driver.session.handle cbor (.messageReceived peer (cbor.encodeBootstrapToken
      (BootstrapToken.new (asBytes token)))) now).1.peers[peer]? =
        some { entry with phase := .bootstrapPending } := by
    simp only [Session.handle, Session.messageReceived, hpeek, hdecode,
      Session.getElem?_getMut_self, hentry, Entry.getMut_some, PeerSession.receiveToken]
  have hactions : (driver.session.handle cbor (.messageReceived peer (cbor.encodeBootstrapToken
      (BootstrapToken.new (asBytes token)))) now).2 = _ := handle_token hderives hfits peer now
  rw [hentry, Option.isSome_some, if_pos rfl] at hactions
  refine ⟨((driver.touch peer seenAt).handle cbor (.messageReceived peer
    (cbor.encodeBootstrapToken (BootstrapToken.new (asBytes token)))) now).1, ?_, hheard, rfl⟩
  simp only [Driver.messageReceived, Driver.handle, Driver.touch, hactions, Driver.dispatch,
    List.foldl_cons, List.foldl_nil]

/-- Assumes: the same. It adds to the balance what the wallet answers. -/
theorem balanceOf_messageReceived (hderives : cbor.Derives) {token : String}
    (hfits : textFits token) {entry : PeerSession}
    (hentry : driver.session.peers[peer]? = some entry) (seenAt now : Millis)
    (answer : Option UInt64) (answeredAt : Millis) :
    (driver.messageReceived cbor peer (cbor.encodeBootstrapToken (BootstrapToken.new
        (asBytes token))) seenAt now answer answeredAt).balanceOf peer =
      min (entry.balance.toNat + (answer.map UInt64.toNat).getD 0) (2 ^ 64 - 1) := by
  obtain ⟨heard, hverdict, hpending, -⟩ :=
    messageReceived_token hderives hfits hentry seenAt now answer answeredAt
  rw [hverdict, Driver.balanceOf, Driver.session_feed]
  simp only [Session.handle, Session.getElem?_getMut_self]
  rw [hpending, Entry.getMut_some, Option.map_some, Option.getD_some]
  exact toNat_balance_bootstrapVerified _ answer answeredAt

/-- Assumes: the same, and no acknowledgement on the peer's queue. There is one then, of the
verdict. -/
theorem acks_messageReceived (hderives : cbor.Derives) {token : String} (hfits : textFits token)
    {entry : PeerSession} (hentry : driver.session.peers[peer]? = some entry)
    (hquiet : driver.acks cbor peer = []) (seenAt now : Millis) (answer : Option UInt64)
    (answeredAt : Millis) :
    (driver.messageReceived cbor peer (cbor.encodeBootstrapToken (BootstrapToken.new
        (asBytes token))) seenAt now answer answeredAt).acks cbor peer =
      [ackOf cbor answer.isSome] := by
  obtain ⟨heard, hverdict, hpending, hacks⟩ :=
    messageReceived_token hderives hfits hentry seenAt now answer answeredAt
  rw [hverdict, Driver.feed, Driver.acks_executeAll]
  have hkept : (heard.handle cbor (.bootstrapVerified peer (Driver.verifyToken answer).2
      (Driver.verifyToken answer).1) answeredAt).1.acks cbor peer = [] := hacks.trans hquiet
  have hsent : (heard.handle cbor (.bootstrapVerified peer (Driver.verifyToken answer).2
      (Driver.verifyToken answer).1) answeredAt).2.filterMap (Action.sentTo peer) = _ :=
    handle_verdict_sends peer peer _ _ answeredAt
  have hverified : (Driver.verifyToken answer).1 = answer.isSome := by
    cases answer <;> rfl
  rw [hkept, hsent, hpending, if_pos ⟨rfl, rfl⟩, List.nil_append, hverified]
  exact ofType_singleton_ackOf hderives _

/-- Assumes: a token that fits. What a call adds to the balance of its peer. -/
theorem balanceOf_admitPeerWithToken (hderives : cbor.Derives) {token : String}
    (hfits : textFits token) (verify : String → Except String UInt64) (call : PaymentCall) :
    (admitPeerWithToken cbor verify driver call peer token).1.balanceOf peer -
        driver.balanceOf peer =
      creditFor (driver.balanceOf peer) (verify token).toOption := by
  obtain ⟨entry, hentry, hbalance⟩ : ∃ entry, (driver.peerConnected cbor peer call.ip call.seenAt
      call.connectedAt).session.peers[peer]? = some entry ∧ _ :=
    exists_entry_peerConnected call.ip call.seenAt call.connectedAt
  have hadmitted : (admitPeerWithToken cbor verify driver call peer token).1.balanceOf peer =
      min (entry.balance.toNat + ((verify token).toOption.map UInt64.toNat).getD 0) (2 ^ 64 - 1) :=
    balanceOf_messageReceived hderives hfits hentry call.heardAt call.handledAt
      (verify token).toOption call.answeredAt
  rw [hadmitted, hbalance, creditFor]
  omega

/-- Assumes: also that the greeting is no acknowledgement. A call is told that its token is accepted
exactly when the wallet takes it. -/
theorem isAccepted_admitPeerWithToken (hderives : cbor.Derives) (hgreets : driver.Greets cbor)
    (hquiet : driver.acks cbor peer = []) {token : String} (hfits : textFits token)
    (verify : String → Except String UInt64) (call : PaymentCall) :
    ((admitPeerWithToken cbor verify driver call peer token).2.map
      BootstrapAck.isAccepted).getD false = (verify token).toOption.isSome := by
  obtain ⟨entry, hentry, -⟩ : ∃ entry, (driver.peerConnected cbor peer call.ip call.seenAt
      call.connectedAt).session.peers[peer]? = some entry ∧ _ :=
    exists_entry_peerConnected call.ip call.seenAt call.connectedAt
  have hconnected := (Driver.acks_peerConnected hderives.lawful hgreets peer peer call.ip
    call.seenAt call.connectedAt).trans hquiet
  exact firstAck_of_only hderives (acks_messageReceived hderives hfits hentry hconnected
    call.heardAt call.handledAt (verify token).toOption call.answeredAt)

end Credited

/-! ### The event and the credit -/

/-- The mint of a token, as the token has it. -/
def Crates.ownMint (crates : Crates) (token : Token) : String :=
  (crates.mintUrl token).getD ""

/-- An event that is signed keeps the tags of its draft. -/
def Nostr.KeepsTags {Keys : Type} (nostr : Nostr Keys) (keys : Keys) : Prop :=
  ∀ draft event, nostr.signWithKeys keys draft = .ok event → event.tags = draft.tags

section Receipt

variable {Keys : Type} (server : V1ServerConfig Keys)

/-- The event states an amount, in sats, and what that buys at a mint. -/
def NostrEvent.StatesCredit (event : NostrEvent) (credited : ℕ) (mintUrl : String) : Prop :=
  ∃ amountSat allotment, event.amountSat = some amountSat ∧ event.allotment = some allotment ∧
    amountSat.toNat = credited / 1000 ∧
    server.calculateAllotment amountSat mintUrl = .ok allotment

/-- Of a token that can be read by hand, the proofs are worth what is credited, and that buys at the
mint what it buys at the first mint of the list. Of any other, nothing is credited, and nothing buys
nothing. -/
def PlainCredit (reader : TokenReader) (text : String) (token : Token) (credited : ℕ)
    (mintUrl : String) : Prop :=
  let worth := (token.proofs.map Proof.amount).sum
  let firstUrl := (server.acceptedMints.head?.map AcceptedMint.url).getD ""
  (reader.Legible text token →
    worth.toNat = credited / 1000 ∧ ∃ allotment,
      server.calculateAllotment worth mintUrl = .ok allotment ∧
        allotment = if worth = 0 then 0
          else ((server.calculateAllotment worth firstUrl).toOption).getD 0) ∧
  (¬ reader.Legible text token →
    credited / 1000 = 0 ∧ server.calculateAllotment 0 mintUrl = .ok 0)

variable {server} {cbor : Minicbor} {fromStr : String → Except String Json} {reader : TokenReader}
  {nostr : Nostr Keys} {verify : String → Except String UInt64} {driver : Driver}
  {call : PaymentCall}

/-- What is known of a request that is answered with a session event. -/
theorem handlePostPayment_session {event : NostrEvent}
    (hreply : (handlePostPayment cbor fromStr reader nostr server verify driver call).2 =
      .session event) :
    ∃ token peer, extractPaymentToken fromStr call.body = some token ∧ call.client = some peer ∧
      (handlePostPayment cbor fromStr reader nostr server verify driver call).1 =
        (admitPeerWithToken cbor verify driver call peer token).1 ∧
      nostr.signWithKeys server.nostrKeys (V1ServerConfig.sessionEvent
        ⟨keyText peer, call.startTime, server.metric,
          (reader.extractTokenAmountAndAllotment server token).2⟩ (keyText peer)
        (reader.extractTokenAmountAndAllotment server token).1 "cashu") = .ok event := by
  unfold handlePostPayment at hreply ⊢
  cases htoken : extractPaymentToken fromStr call.body with
  | none =>
    rw [htoken] at hreply
    exact absurd hreply (by simp)
  | some token =>
    cases hclient : call.client with
    | none =>
      rw [htoken, hclient] at hreply
      exact absurd hreply (by simp)
    | some peer =>
      rw [htoken, hclient] at hreply
      refine ⟨token, peer, rfl, rfl, ?_⟩
      simp only at hreply ⊢
      split_ifs at hreply ⊢ with haccepted
      · split at hreply
        · next signed hsigned =>
          rw [hsigned]
          exact ⟨rfl, congrArg Except.ok (PaymentReply.session.inj hreply)⟩
        · exact absurd hreply (by simp)

/-- Assumes: a call that is told that its token is accepted, and an event that is signed. -/
theorem handlePostPayment_accepted {token : String} {peer : PeerId} {event : NostrEvent}
    (htoken : extractPaymentToken fromStr call.body = some token)
    (hclient : call.client = some peer)
    (haccepted : ((admitPeerWithToken cbor verify driver call peer token).2.map
      BootstrapAck.isAccepted).getD false = true)
    (hsigned : nostr.signWithKeys server.nostrKeys (V1ServerConfig.sessionEvent
      ⟨keyText peer, call.startTime, server.metric,
        (reader.extractTokenAmountAndAllotment server token).2⟩ (keyText peer)
      (reader.extractTokenAmountAndAllotment server token).1 "cashu") = .ok event) :
    handlePostPayment cbor fromStr reader nostr server verify driver call =
      ((admitPeerWithToken cbor verify driver call peer token).1, .session event) := by
  unfold handlePostPayment
  rw [htoken, hclient]
  simp only [haccepted, if_true, hsigned]

/-- Assumes: an event that keeps its tags. It states the reading by hand. -/
theorem statesCredit_iff (hkeeps : nostr.KeepsTags server.nostrKeys) {session : CustomerSession}
    {customerIdentifier : String} {amountSat : UInt64} {event : NostrEvent}
    (hsigned : nostr.signWithKeys server.nostrKeys
      (V1ServerConfig.sessionEvent session customerIdentifier amountSat "cashu") = .ok event)
    (credited : ℕ) (mintUrl : String) :
    event.StatesCredit server credited mintUrl ↔
      amountSat.toNat = credited / 1000 ∧
        server.calculateAllotment amountSat mintUrl = .ok session.allotment := by
  have htags := hkeeps _ _ hsigned
  have hallotment := (readers_sessionEvent htags).1
  have hamount : event.amountSat = some amountSat := by
    unfold NostrEvent.amountSat NostrEvent.tagValue NostrEvent.tagItem
    rw [htags, V1ServerConfig.sessionEvent]
    exact parseU64_showU64 _
  unfold NostrEvent.StatesCredit
  rw [hamount, hallotment]
  simp only [Option.some.injEq, exists_and_left, exists_eq_left']

/-- Assumes: the format of tokens. What is read by hand is what is credited exactly when the credit
is plain. -/
theorem statesReading_iff {crates : Crates} (hreads : reader.ReadsTokens crates) {text : String}
    {token : Token} (hparse : crates.parse text = some token) (credited : ℕ) (mintUrl : String) :
    (reader.extractTokenAmountAndAllotment server text).1.toNat = credited / 1000 ∧
        server.calculateAllotment (reader.extractTokenAmountAndAllotment server text).1 mintUrl =
          .ok (reader.extractTokenAmountAndAllotment server text).2 ↔
      PlainCredit server reader text token credited mintUrl := by
  unfold PlainCredit TokenReader.extractTokenAmountAndAllotment
  by_cases hlegible : reader.Legible text token
  · rw [TokenReader.decodeCashuAmount_legible hreads hparse hlegible, Option.getD_some]
    generalize (token.proofs.map Proof.amount).sum = worth
    simp only [hlegible, not_true_eq_false, false_implies, and_true, true_implies]
    by_cases hworth : worth = 0
    · simp only [hworth, if_true]
      refine and_congr_right fun _ ↦ ?_
      constructor
      · exact fun hbuys ↦ ⟨0, hbuys, rfl⟩
      · rintro ⟨allotment, hbuys, rfl⟩
        exact hbuys
    · simp only [hworth, if_false]
      refine and_congr_right fun _ ↦ ?_
      constructor
      · exact fun hbuys ↦ ⟨_, hbuys, rfl⟩
      · rintro ⟨allotment, hbuys, rfl⟩
        exact hbuys
  · rw [TokenReader.decodeCashuAmount_illegible hreads hparse hlegible, Option.getD_none]
    simp only [hlegible, if_true, false_implies, true_and, not_false_eq_true, true_implies,
      UInt64.toNat_zero]
    exact and_congr_left' ⟨Eq.symm, Eq.symm⟩

end Receipt

def samplePayloadStart : String :=
  "eyJ0b2tlbiI6W3sibWludCI6Imh0dHBzOi8vbWludC5leGFtcGxlIiwicHJvb2ZzIjpbeyJhbW91bnQiOjIsImlk" ++
  "IjoiMDA5YTFmMjkzMjUzZTQxZSIsInNlY3JldCI6IjQwNzkxNWJjMjEyYmU2MWE3N2UzZTZkMmFlYjRjNzI3OTgw" ++
  "YmRhNTFjZDA2YTZhZmMyOWUyODYxNzY4YTc4MzciLCJDIjoiMDJiYzkwOTc5OTdkODFhZmIyY2M3MzQ2YjVlNDM0" ++
  "NWE5MzQ2YmQyYTUwNmViNzk1ODU5OGE3MmYwY2Y4NTE2M2VhIn1dfV0sInVuaXQiOiJzYXQi"

def samplePayload : String :=
  samplePayloadStart ++ "fQ"

/-- What the payload is the base64 of. -/
def samplePayloadText : String :=
  "\x7b\"token\":[\x7b\"mint\":\"https://mint.example\",\"proofs\":[\x7b\"amount\":2,\"id\"" ++
  ":\"009a1f293253e41e\",\"secret\":\"407915bc212be61a77e3e6d2aeb4c727980bda51cd06a6afc29e2" ++
  "861768a7837\",\"C\":\"02bc9097997d81afb2cc7346b5e4345a9346bd2a506eb7958598a72f0cf85163ea" ++
  "\"\x7d]\x7d],\"unit\":\"sat\"\x7d"

def samplePayloadJson : Json :=
  .object [("token", .array [.object [("mint", .string "https://mint.example"),
    ("proofs", .array [.object [("amount", .number 2), ("id", .string "009a1f293253e41e"),
      ("secret", .string "407915bc212be61a77e3e6d2aeb4c727980bda51cd06a6afc29e2861768a7837"),
      ("C", .string "02bc9097997d81afb2cc7346b5e4345a9346bd2a506eb7958598a72f0cf85163ea")]])]]),
    ("unit", .string "sat")]

/-- The engines and the reader as they are on these tokens. -/
def sampleReader : TokenReader where
  urlSafeNoPad payload := if payload = samplePayload then some (asBytes samplePayloadText) else none
  standard _ := none
  fromSlice decoded :=
    if decoded = asBytes samplePayloadText then some samplePayloadJson else none

def sampleOlder : Token :=
  .tokenV3 [[{
    secret := "407915bc212be61a77e3e6d2aeb4c727980bda51cd06a6afc29e2861768a7837"
    c := #v[2, 188, 144, 151, 153, 125, 129, 175, 178, 204, 115, 70, 181, 228, 52, 90, 147, 70, 189,
      42, 80, 110, 183, 149, 133, 152, 167, 47, 12, 248, 81, 99, 234]
    amount := 2 }]]

/-- The crates as they are on a token of two sats in the older serialisation. -/
def olderCrates : Crates where
  parse text := if text = "cashuA" ++ samplePayload then some sampleOlder else none
  mintUrl _ := some "https://mint.example"
  value token := if token.worth < 2 ^ 64 then some (UInt64.ofNat token.worth) else none
  parseUrl text :=
    if text = "https://mint.example" then some ⟨"https", some "mint.example", none, "/"⟩ else none

theorem sampleReader_reads_older : sampleReader.ReadsTokens olderCrates := by
  constructor
  · intro text entries hparse
    simp only [olderCrates] at hparse
    split_ifs at hparse with htext
    obtain rfl := Token.tokenV3.inj (Option.some.inj hparse)
    refine ⟨samplePayload, htext, fun decoded hdecoded ↦ ⟨samplePayloadJson, ?_, rfl⟩⟩
    simp only [TokenReader.decode, sampleReader, if_true, Option.some_or] at hdecoded
    rw [← Option.some.inj hdecoded]
    simp [sampleReader]
  · intro text entries hparse
    simp only [olderCrates] at hparse
    split_ifs at hparse
    exact absurd (Option.some.inj hparse) (by simp [sampleOlder])

/-- The payer, and the request. -/
def samplePayer : PeerId :=
  Vector.replicate 33 2

def samplePaymentCall (body : String) : PaymentCall where
  body := body
  client := some samplePayer
  ip := none
  startTime := 1700000000
  seenAt := 0
  connectedAt := 0
  heardAt := 1
  handledAt := 1
  answeredAt := 2

/-- The session event of two sats, signed with the secret key three. -/
def sampleReceipt : NostrEvent where
  id := "a213f92b4bd94cf2e91149ba03cd190278c726d47a5d5f63b9fe197d384694da"
  pubkey := "f9308a019258c31049344f85f89d5229b531c845836f99b08601f113bce036f9"
  createdAt := 1700000000
  kind := 1022
  tags := (V1ServerConfig.sessionEvent
    ⟨keyText samplePayer, 1700000000, "milliseconds", 120000⟩ (keyText samplePayer) 2 "cashu").tags
  content := ""
  sig := "abc729b44fb624af176930d7a9f4daea1fe4f44ae6785e28fe4fbc353e5e5b05" ++
    "1217bb8ca525222c5e10fcb825204a42a28118f8648246fae0698b7389ec2512"

/-- The session event of nothing, signed with the same key. -/
def sampleBlankReceipt : NostrEvent where
  id := "1dcedffbba1b53bcdbe1b57a89405dce106810164966d3e802addfb6fc334c7e"
  pubkey := "f9308a019258c31049344f85f89d5229b531c845836f99b08601f113bce036f9"
  createdAt := 1700000000
  kind := 1022
  tags := (V1ServerConfig.sessionEvent
    ⟨keyText samplePayer, 1700000000, "milliseconds", 0⟩ (keyText samplePayer) 0 "cashu").tags
  content := ""
  sig := "efc95b3b82364b10dae3358c5f6c9cdee9b7e5d461e5af2a6e69482396f3409612" ++
    "b9dde0cc8ee50d2550c9d36a645032c36b18f166e5dd55faa1523b5826e266"

def sampleReceiptJson : String :=
  "\x7b\"id\":\"a213f92b4bd94cf2e91149ba03cd190278c726d47a5d5f63b9fe197d384694da\",\"pubkey" ++
  "\":\"f9308a019258c31049344f85f89d5229b531c845836f99b08601f113bce036f9\",\"created_at\":1" ++
  "700000000,\"kind\":1022,\"tags\":[[\"p\",\"020202020202020202020202020202020202020202020" ++
  "202020202020202020202\"],[\"allotment\",\"120000\"],[\"metric\",\"milliseconds\"],[\"dev" ++
  "ice-identifier\",\"mac\",\"0202020202020202020202020202020202020202020202020202020202020" ++
  "20202\"],[\"start-time\",\"1700000000\"],[\"amount_sat\",\"2\"],[\"token_type\",\"cashu" ++
  "\"],[\"effective_rate\",\"60\"]],\"content\":\"\",\"sig\":\"abc729b44fb624af176930d7a9f4" ++
  "daea1fe4f44ae6785e28fe4fbc353e5e5b051217bb8ca525222c5e10fcb825204a42a28118f8648246fae069" ++
  "8b7389ec2512\"\x7d"

def sampleBlankReceiptJson : String :=
  "\x7b\"id\":\"1dcedffbba1b53bcdbe1b57a89405dce106810164966d3e802addfb6fc334c7e\",\"pubkey" ++
  "\":\"f9308a019258c31049344f85f89d5229b531c845836f99b08601f113bce036f9\",\"created_at\":1" ++
  "700000000,\"kind\":1022,\"tags\":[[\"p\",\"020202020202020202020202020202020202020202020" ++
  "202020202020202020202\"],[\"allotment\",\"0\"],[\"metric\",\"milliseconds\"],[\"device-i" ++
  "dentifier\",\"mac\",\"020202020202020202020202020202020202020202020202020202020202020202" ++
  "\"],[\"start-time\",\"1700000000\"],[\"amount_sat\",\"0\"],[\"token_type\",\"cashu\"]]," ++
  "\"content\":\"\",\"sig\":\"efc95b3b82364b10dae3358c5f6c9cdee9b7e5d461e5af2a6e69482396f34" ++
  "09612b9dde0cc8ee50d2550c9d36a645032c36b18f166e5dd55faa1523b5826e266\"\x7d"

/-- The crate as it is on these events. -/
def receiptNostr : Nostr Unit where
  signWithKeys _ draft :=
    if draft = ⟨1022, "", sampleReceipt.tags⟩ then .ok sampleReceipt
    else if draft = ⟨1022, "", sampleBlankReceipt.tags⟩ then .ok sampleBlankReceipt
    else .error "another event"
  asJson event := if event = sampleReceipt then sampleReceiptJson else sampleBlankReceiptJson
  fromJson text :=
    if text = sampleReceiptJson then .ok sampleReceipt
    else if text = sampleBlankReceiptJson then .ok sampleBlankReceipt
    else .error "another text"
  verifySignature event := decide (event = sampleReceipt ∨ event = sampleBlankReceipt)
  debugKind kind := "Custom(" ++ toString kind.toNat ++ ")"

theorem receiptNostr_keepsTags : receiptNostr.KeepsTags () := by
  intro draft event hsigned
  simp only [receiptNostr] at hsigned
  split_ifs at hsigned with hfirst hsecond
  · rw [← Except.ok.inj hsigned, hfirst]
  · rw [← Except.ok.inj hsigned, hsecond]

/-- A driver that knows nobody. -/
def freshDriver : Driver :=
  Driver.new ⟨0, 1⟩ [] []

theorem freshDriver_greets : freshDriver.Greets Minicbor.derived :=
  ⟨by decide, by decide⟩

/-- What the wallet answers to two sats in the older serialisation. -/
def olderVerify (text : String) : Except String UInt64 :=
  (BootstrapWallet.withSpentFile ["https://mint.example"] none).verify olderCrates none text
    (.states ["UNSPENT"])

theorem olderVerify_token : olderVerify ("cashuA" ++ samplePayload) = .ok 2000 := by
  decide +kernel

/-- They are handed in. -/
def olderPaid : Driver × PaymentReply :=
  handlePostPayment Minicbor.derived (fun _ ↦ .error "no object") sampleReader receiptNostr
    sampleServer olderVerify freshDriver (samplePaymentCall ("cashuA" ++ samplePayload))

theorem extractPaymentToken_older (fromStr : String → Except String Json) (start : String) :
    extractPaymentToken fromStr ("cashuA" ++ (start ++ "fQ")) =
      some ("cashuA" ++ (start ++ "fQ")) := by
  have hstart : "cashuA".toList = ['c', 'a', 's', 'h', 'u', 'A'] := rfl
  have hlast : "fQ".toList = ['f', 'Q'] := rfl
  have htext : ("cashuA" ++ (start ++ "fQ")).toList =
      'c' :: 'a' :: 's' :: 'h' :: 'u' :: ('A' :: (start.toList ++ ['f']) ++ ['Q']) := by
    simp only [String.toList_append, hstart, hlast, List.cons_append, List.nil_append,
      List.append_assoc]
  exact extractPaymentToken_token _ htext (by decide)

theorem olderPaid_token :
    extractPaymentToken (fun _ ↦ .error "no object")
      (samplePaymentCall ("cashuA" ++ samplePayload)).body = some ("cashuA" ++ samplePayload) :=
  extractPaymentToken_older _ samplePayloadStart

set_option maxRecDepth 20000 in
theorem olderPaid_fits : textFits ("cashuA" ++ samplePayload) := by
  decide

theorem olderPaid_parse : olderCrates.parse ("cashuA" ++ samplePayload) = some sampleOlder := by
  simp only [olderCrates, if_true]

theorem sampleReader_legible :
    sampleReader.Legible ("cashuA" ++ samplePayload) sampleOlder := by
  refine ⟨samplePayload, rfl, ?_⟩
  simp [TokenReader.decode, sampleReader]

theorem olderPaid_stated :
    sampleReader.extractTokenAmountAndAllotment sampleServer ("cashuA" ++ samplePayload) =
      (2, 120000) := by
  rw [TokenReader.extractTokenAmountAndAllotment,
    TokenReader.decodeCashuAmount_legible sampleReader_reads_older olderPaid_parse
      sampleReader_legible]
  rfl

theorem sampleReceipt_signed :
    receiptNostr.signWithKeys () (V1ServerConfig.sessionEvent
      ⟨keyText samplePayer, 1700000000, "milliseconds", 120000⟩ (keyText samplePayer) 2 "cashu") =
        .ok sampleReceipt := by
  rfl

theorem olderPaid_reply : olderPaid.2 = .session sampleReceipt := by
  have haccepted := isAccepted_admitPeerWithToken Minicbor.derived_derives freshDriver_greets
    (rfl : freshDriver.acks Minicbor.derived samplePayer = []) olderPaid_fits olderVerify
    (samplePaymentCall ("cashuA" ++ samplePayload))
  rw [olderVerify_token] at haccepted
  have hsigned := sampleReceipt_signed
  refine congrArg Prod.snd (handlePostPayment_accepted olderPaid_token rfl haccepted ?_)
  rw [olderPaid_stated]
  exact hsigned

theorem olderPaid_eq :
    olderPaid = handlePostPayment Minicbor.derived (fun _ ↦ .error "no object") sampleReader
      receiptNostr sampleServer (fun text ↦ (BootstrapWallet.withSpentFile
        ["https://mint.example"] none).verify olderCrates none text (.states ["UNSPENT"]))
      freshDriver (samplePaymentCall ("cashuA" ++ samplePayload)) :=
  rfl

/-- A gateway at the mint of the token of one sat. -/
def testnutServer : V1ServerConfig Unit :=
  { sampleServer with
    acceptedMints := [⟨"https://testnut.cashu.space", 1, "sat", 1⟩]
    mintHealth := none }

/-- What the wallet answers to one sat in the newer serialisation. -/
def newerVerify (text : String) : Except String UInt64 :=
  sampleVerifier.verify Wallets.sampleCrates none text (.states ["UNSPENT"])

theorem newerVerify_token : newerVerify Wallets.sampleText = .ok 1000 := by
  decide +kernel

/-- It is handed in. -/
def newerPaid : Driver × PaymentReply :=
  handlePostPayment Minicbor.derived (fun _ ↦ .error "no object") sampleReader receiptNostr
    testnutServer newerVerify freshDriver (samplePaymentCall Wallets.sampleText)

theorem toList_newer {first : String} {opening : List Char} (hfirst : first.toList =
      'c' :: 'a' :: 's' :: 'h' :: 'u' :: 'B' :: opening) (second third fourth : String) :
    ∃ middle, (first ++ second ++ third ++ fourth ++ "2fSkG19-").toList =
      'c' :: 'a' :: 's' :: 'h' :: 'u' :: 'B' :: (middle ++ ['-']) := by
  have hlast : "2fSkG19-".toList = ['2', 'f', 'S', 'k', 'G', '1', '9'] ++ ['-'] := rfl
  refine ⟨opening ++ second.toList ++ third.toList ++ fourth.toList ++
    ['2', 'f', 'S', 'k', 'G', '1', '9'], ?_⟩
  simp only [String.toList_append, hfirst, hlast, List.cons_append, List.append_assoc]

theorem toList_sampleText : ∃ middle, Wallets.sampleText.toList =
    'c' :: 'a' :: 's' :: 'h' :: 'u' :: 'B' :: (middle ++ ['-']) :=
  toList_newer rfl _ _ _

theorem newerPaid_token :
    extractPaymentToken (fun _ ↦ .error "no object") (samplePaymentCall Wallets.sampleText).body =
      some Wallets.sampleText := by
  obtain ⟨middle, htext⟩ := toList_sampleText
  have hends : Wallets.sampleText.toList =
      'c' :: 'a' :: 's' :: 'h' :: 'u' :: ('B' :: middle ++ ['-']) := htext
  exact extractPaymentToken_token _ hends (by decide)

set_option maxRecDepth 20000 in
theorem newerPaid_fits : textFits Wallets.sampleText := by
  decide

theorem newerPaid_stated :
    sampleReader.extractTokenAmountAndAllotment testnutServer Wallets.sampleText = (0, 0) := by
  obtain ⟨middle, htext⟩ := toList_sampleText
  rw [TokenReader.extractTokenAmountAndAllotment, sampleReader.decodeCashuAmount_newer htext]
  rfl

theorem sampleBlankReceipt_signed :
    receiptNostr.signWithKeys () (V1ServerConfig.sessionEvent
      ⟨keyText samplePayer, 1700000000, "milliseconds", 0⟩ (keyText samplePayer) 0 "cashu") =
        .ok sampleBlankReceipt := by
  rfl

theorem newerPaid_run :
    newerPaid = ((admitPeerWithToken Minicbor.derived newerVerify freshDriver
      (samplePaymentCall Wallets.sampleText) samplePayer Wallets.sampleText).1,
        .session sampleBlankReceipt) := by
  have haccepted := isAccepted_admitPeerWithToken Minicbor.derived_derives freshDriver_greets
    (rfl : freshDriver.acks Minicbor.derived samplePayer = []) newerPaid_fits newerVerify
    (samplePaymentCall Wallets.sampleText)
  rw [newerVerify_token] at haccepted
  have hsigned := sampleBlankReceipt_signed
  refine handlePostPayment_accepted newerPaid_token rfl haccepted ?_
  rw [newerPaid_stated]
  exact hsigned

end Tollgate
