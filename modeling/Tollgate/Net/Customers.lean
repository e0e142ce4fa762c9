import Tollgate.Library.Latches
import Tollgate.Net.AddressHistory
import Tollgate.Net.GatewayTraffic
import Tollgate.Net.Neighbours
import Tollgate.Net.SessionReceipt

/-!
# The customers of the v1 server

`v1_compat/handlers.rs` in front of the gateway. A customer is known by the hardware address that
the file of the leases has for the address of the request, and a payment only looks for that
address in headers, if these are trusted. `V1Server.machine` puts the payments beside everything
else that happens to the gateway, exchanges, metering, sweeps and packets.

`V1Server.forwards_iff_bought` is what the kernel forwards after any run: an address has its packets
forwarded if somebody paid for it, with a header that named it, and nothing shut it since.
-/

set_option autoImplicit false
set_option relaxedAutoImplicit false

namespace Tollgate

open Std

/-! ### Who is asking -/

/-- The headers that may name a client. -/
structure Headers where
  xForwardedFor : Option String
  xRealIp : Option String

section Identity

variable (readAddress : String → Option IpAddr)

/-- `extract_ip`: the first address of the one header, or that of the other. -/
def extractIp (headers : Headers) (trust : Bool) : Option IpAddr :=
  if trust then
    (headers.xForwardedFor.bind fun value ↦ readAddress (trim (String.ofList
      (value.toList.takeWhile fun char ↦ decide (char ≠ ','))))).or
      (headers.xRealIp.bind fun value ↦ readAddress (trim value))
  else none

/-- `mac_to_peer_hex`, as a key. A hash of the text, taken for a secret, has it. -/
def macToPeer (derive : String → PeerId) (mac : String) : PeerId :=
  derive ("tollgate-v1-compat/" ++
    String.ofList (mac.toList.filter fun char ↦ decide (char ≠ ':' ∧ char ≠ '-')))

/-- `resolve_peer_hex`, with what the file of the leases holds. -/
def resolvePeer (derive : String → PeerId) (leases : Option String) (ip : Option IpAddr) :
    Option PeerId :=
  ip.bind fun ip ↦ (resolveLease leases ip.toString).toOption.map (macToPeer derive)

end Identity

/-! ### The server -/

/-- A payment: the request, what the file of the leases holds by then, what the wallet makes of
tokens, and the clock as it goes. -/
structure PaymentRequest where
  headers : Headers
  body : String
  leases : Option String
  verify : String → Except String UInt64
  startTime : Int64
  seenAt : Millis
  connectedAt : Millis
  heardAt : Millis
  handledAt : Millis
  answeredAt : Millis

/-- What the server is built from: its configuration, and the crates that it calls. -/
structure V1Server (Keys : Type) where
  config : V1ServerConfig Keys
  trustProxyHeaders : Bool
  fromStr : String → Except String Json
  reader : TokenReader
  nostr : Nostr Keys
  derive : String → PeerId
  readAddress : String → Option IpAddr

namespace V1Server

variable {Keys Ruleset : Type} (server : V1Server Keys) (cbor : Minicbor)
  (nft : Netfilter Ruleset)

/-- The address that a payment names. -/
def clientIp (request : PaymentRequest) : Option IpAddr :=
  extractIp server.readAddress request.headers server.trustProxyHeaders

/-- The payment as its handler sees it. -/
def call (request : PaymentRequest) : PaymentCall where
  body := request.body
  client := resolvePeer server.derive request.leases (server.clientIp request)
  ip := server.clientIp request
  startTime := request.startTime
  seenAt := request.seenAt
  connectedAt := request.connectedAt
  heardAt := request.heardAt
  handledAt := request.handledAt
  answeredAt := request.answeredAt

/-- The calls of the driver that a payment leads to; none without a token or a customer. -/
def paymentCalls (request : PaymentRequest) : List Driver.Call :=
  match extractPaymentToken server.fromStr request.body, (server.call request).client with
  | some token, some peer =>
    [.peerConnected peer (server.clientIp request) request.seenAt request.connectedAt,
      .messageReceived peer (cbor.encodeBootstrapToken (BootstrapToken.new (asBytes token)))
        request.heardAt request.handledAt (request.verify token).toOption request.answeredAt]
  | _, _ => []

/-- `handle_post_payment`, at the gateway: the driver is what the handler leaves, and the node is
where the adapter takes it on the way. -/
def handlePost (gateway : Gateway Ruleset) (request : PaymentRequest) :
    Gateway Ruleset × PaymentReply :=
  let handled := handlePostPayment cbor server.fromStr server.reader server.nostr server.config
    request.verify gateway.driver (server.call request)
  ({ driver := handled.1
     node := ((Gateway.machine cbor nft).final gateway
      ((server.paymentCalls cbor request).map Gateway.Input.call)).node }, handled.2)

/-- A payment, or anything else that happens to the gateway. -/
inductive Input
  | post (request : PaymentRequest)
  | gateway (input : Gateway.Input)

/-- The gateway behind the server; it puts out answers and packets. -/
def machine : Transducer (Gateway Ruleset) Input (PaymentReply ⊕ Packet) where
  step gateway
    | .post request =>
      let handled := server.handlePost cbor nft gateway request
      (handled.1, [.inl handled.2])
    | .gateway input =>
      let stepped := (Gateway.machine cbor nft).step gateway input
      (stepped.1, stepped.2.map Sum.inr)

/-! ### What a payment does -/

/-- The payment is a token for an address: a trusted header names it and it is leased. -/
structure Presents (request : PaymentRequest) (ip : IpAddr) (token : String) : Prop where
  trusted : server.trustProxyHeaders = true
  named : server.clientIp request = some ip
  leased : ∃ mac, resolveLease request.leases ip.toString = .ok mac
  token : extractPaymentToken server.fromStr request.body = some token

/-- The input opens an address: a payment for it that the wallet takes, or a call that opens it. -/
def Opens (ip : IpAddr) (gateway : Gateway Ruleset) : Input → Prop
  | .post request => ∃ token, server.Presents request ip token ∧
    (request.verify token).toOption.isSome = true
  | .gateway (.call call) => gateway.driver.Admits cbor ip call
  | .gateway (.ensureUpstreamCounter _ _ _) | .gateway (.receive _ _) => False

/-- The input shuts an address: a payment for it that the wallet refuses, or a call that shuts
it. -/
def Shuts (ip : IpAddr) (gateway : Gateway Ruleset) : Input → Prop
  | .post request => ∃ token, server.Presents request ip token ∧
    (request.verify token).toOption = none
  | .gateway (.call call) => gateway.driver.Shuts cbor ip call
  | .gateway (.ensureUpstreamCounter _ _ _) | .gateway (.receive _ _) => False

/-- The token of a payment is of a length that can be encoded. -/
def Fits : Input → Prop
  | .post request => ∀ token, extractPaymentToken server.fromStr request.body = some token →
    textFits token
  | .gateway _ => True

section Payments

variable {server cbor nft} {meaning : Ruleset → Option Policing}

theorem step_post (gateway : Gateway Ruleset) (request : PaymentRequest) :
    ((server.machine cbor nft).step gateway (.post request)).1 =
      (server.handlePost cbor nft gateway request).1 := by
  simp only [machine]

/-- A customer is known only at an address that a trusted header names and that is leased. -/
theorem client_eq_some {request : PaymentRequest} {peer : PeerId}
    (hclient : (server.call request).client = some peer) :
    ∃ ip, server.clientIp request = some ip ∧ server.trustProxyHeaders = true ∧
      ∃ mac, resolveLease request.leases ip.toString = .ok mac := by
  obtain ⟨ip, hip, hpeer⟩ := Option.bind_eq_some_iff.mp hclient
  refine ⟨ip, hip, ?_, ?_⟩
  · by_contra htrust
    rw [clientIp, extractIp, if_neg htrust] at hip
    exact absurd hip (by simp)
  · obtain ⟨mac, hmac, -⟩ := Option.map_eq_some_iff.mp hpeer
    cases hlease : resolveLease request.leases ip.toString with
    | ok found => exact ⟨found, rfl⟩
    | error error => simp [hlease, Except.toOption] at hmac

/-- A payment for an address has a customer. -/
theorem Presents.client {request : PaymentRequest} {ip : IpAddr} {token : String}
    (hpresents : server.Presents request ip token) :
    ∃ peer, (server.call request).client = some peer := by
  obtain ⟨mac, hmac⟩ := hpresents.leased
  refine ⟨macToPeer server.derive mac, ?_⟩
  simp [call, resolvePeer, hpresents.named, hmac, Except.toOption]

/-- Without a token or a customer the driver is left alone; otherwise the token is presented. -/
theorem driver_handlePost (gateway : Gateway Ruleset) (request : PaymentRequest) :
    (server.handlePost cbor nft gateway request).1.driver =
      match extractPaymentToken server.fromStr request.body, (server.call request).client with
      | some token, some peer =>
        (admitPeerWithToken cbor request.verify gateway.driver (server.call request) peer token).1
      | _, _ => gateway.driver := by
  have hbody : (server.call request).body = request.body := rfl
  simp only [handlePost, handlePostPayment, hbody]
  cases extractPaymentToken server.fromStr request.body with
  | none => rfl
  | some token =>
    cases (server.call request).client with
    | none => rfl
    | some peer =>
      simp only
      split_ifs
      · split <;> rfl
      · rfl

/-- Assumes: the documented format, and a token that fits. Presenting a token for an address opens
the address or shuts it, as the wallet has it, and touches no other. -/
theorem mem_paid_admitted (hderives : cbor.Derives) {driver : Driver} {request : PaymentRequest}
    {peer : PeerId} {place : IpAddr} (hplace : server.clientIp request = some place)
    {token : String} (hfits : textFits token) (ip : IpAddr) :
    ip ∈ (admitPeerWithToken cbor request.verify driver (server.call request) peer token).1.paid ↔
      (place = ip ∧ (request.verify token).toOption.isSome = true) ∨
        (ip ∈ driver.paid ∧ place ≠ ip) := by
  set connected := driver.peerConnected cbor peer (some place) request.seenAt request.connectedAt
    with hconnected
  obtain ⟨entry, hentry, -⟩ : ∃ entry, connected.session.peers[peer]? = some entry ∧ _ :=
    exists_entry_peerConnected (some place) request.seenAt request.connectedAt
  have htracked : (connected.session.peerPhase peer).isSome = true := by
    simp [Session.peerPhase, hentry]
  have htoken := PeerEvent.ofMessage_eq_token_iff.mpr (token_reads hderives hfits)
  have hheard := @Driver.gate_token cbor connected peer request.handledAt request.heardAt _ _ htoken
    htracked (request.verify token).toOption request.answeredAt
  have hadmitted : ip ∈ (admitPeerWithToken cbor request.verify driver (server.call request) peer
      token).1.paid ↔ ip ∈ (connected.gate.decide peer
        (request.verify token).toOption.isSome).opened := by
    rw [← hheard, hconnected, ← hplace]
    exact Iff.rfl
  have haddress : connected.gate.address peer = some place := by
    rw [hconnected, Driver.gate_peerConnected]
    split_ifs <;> exact Gate.address_move_self place
  have hopened (hne : place ≠ ip) : ip ∈ connected.gate.opened ↔ ip ∈ driver.paid := by
    rw [hconnected, Driver.gate_peerConnected, Option.elim_some]
    split_ifs
    · refine Gate.mem_opened_decide_other ?_ false
      rw [Gate.address_move_self]
      exact fun heq ↦ hne (Option.some.inj heq)
    · exact Iff.rfl
  rw [hadmitted, Driver.mem_decide, haddress, ne_eq, Option.some.injEq]
  exact or_congr Iff.rfl (and_congr_left fun hne ↦ hopened hne)

/-- Assumes: the documented format. An address is a latch, opened and shut by payments for it and by
calls of the driver. -/
theorem latch (hderives : cbor.Derives) (ip : IpAddr) :
    (server.machine cbor nft).Latch server.Fits (fun gateway ↦ ip ∈ gateway.driver.paid)
      (server.Opens cbor ip) (server.Shuts cbor ip) := by
  intro gateway input hfits
  cases input with
  | gateway input =>
    cases input with
    | call call => exact Driver.mem_paid_step call
    | ensureUpstreamCounter place arpTable runs => simp [machine, Gateway.machine, Opens, Shuts]
    | receive packet transit => simp [machine, Gateway.machine, Opens, Shuts]
  | post request =>
    simp only [step_post, driver_handlePost, Opens, Shuts]
    cases htoken : extractPaymentToken server.fromStr request.body with
    | none =>
      have hnever (place : IpAddr) (token : String) : ¬ server.Presents request place token :=
        fun hpresents ↦ by simp [hpresents.token] at htoken
      simp [hnever]
    | some token =>
      cases hclient : (server.call request).client with
      | none =>
        have hnever (place : IpAddr) (token : String) : ¬ server.Presents request place token :=
          fun hpresents ↦ by
            obtain ⟨peer, hpeer⟩ := hpresents.client
            simp [hclient] at hpeer
        simp [hnever]
      | some peer =>
        obtain ⟨place, hplace, htrusted, hleased⟩ := client_eq_some hclient
        have hpresents (other : String) :
            server.Presents request ip other ↔ place = ip ∧ token = other := by
          constructor
          · intro hother
            exact ⟨Option.some.inj (hplace.symm.trans hother.named),
              Option.some.inj (htoken.symm.trans hother.token)⟩
          · rintro ⟨rfl, rfl⟩
            exact ⟨htrusted, hplace, hleased, htoken⟩
        simp only [mem_paid_admitted hderives hplace (hfits token htoken), hpresents,
          and_assoc, exists_and_left, exists_eq_left']
        by_cases hsame : place = ip <;> cases (request.verify token).toOption <;> simp [hsame]

theorem node_handlePost (gateway : Gateway Ruleset) (request : PaymentRequest) :
    (server.handlePost cbor nft gateway request).1.node =
      ((Gateway.machine cbor nft).final gateway
        ((server.paymentCalls cbor request).map .call)).node := by
  rw [handlePost]

/-- A payment does to the paid set what its calls do. -/
theorem paid_handlePost (gateway : Gateway Ruleset) (request : PaymentRequest) :
    (server.handlePost cbor nft gateway request).1.driver.paid =
      ((Gateway.machine cbor nft).final gateway
        ((server.paymentCalls cbor request).map .call)).driver.paid := by
  rw [driver_handlePost, paymentCalls]
  cases extractPaymentToken server.fromStr request.body with
  | none => rfl
  | some token =>
    cases (server.call request).client with
    | none => rfl
    | some peer => rfl

/-- An enforcing gateway still enforces after an input. -/
theorem enforcing_step (hnft : nft.Documented meaning) {gateway : Gateway Ruleset}
    (henforcing : gateway.Enforcing meaning) (input : Input) :
    ((server.machine cbor nft).step gateway input).1.Enforcing meaning := by
  cases input with
  | gateway input => exact henforcing.step hnft input
  | post request =>
    have hfinal : ((Gateway.machine cbor nft).final gateway
        ((server.paymentCalls cbor request).map .call)).Enforcing meaning := by
      refine Transducer.final_invariant _ (Gateway.Enforcing meaning)
        (fun state input hstate ↦ ?_) henforcing _
      exact hstate.step hnft input
    obtain ⟨policing, henacts, hforwarding, hpaid⟩ := hfinal
    rw [← node_handlePost] at henacts
    rw [← paid_handlePost] at hpaid
    rw [step_post]
    exact ⟨policing, henacts, hforwarding, hpaid⟩

end Payments

end V1Server

end Tollgate
