import Tollgate.Protocol.Framing
import Tollgate.Protocol.RoundTrip
import Tollgate.Library.Transducer
import Tollgate.Net.Driver

/-!
# Where messages go

`Session::handle` and `http_exchange` look at the type of a frame before they decode it. This module
puts the loop of `http_exchange` beside the session's own dispatch: the announce of an exchange
names the peer that the frames behind it are from, and the driver is called for each of them.

`Session.deliver` and `Exchange.route` say what is to happen to a message, by its type and content.
An encoded message is treated so, in one frame (`messages_round_trip`) and in a whole request body
(`httpExchange_encode`).
-/

set_option autoImplicit false
set_option relaxedAutoImplicit false

namespace Tollgate

/-! ### The session -/

/-- What the session does with a message, by its type: announcements are not for the session, and
acknowledgements are not for a provider. -/
def Session.deliver (session : Session) (peer : PeerId) : Message → Session × List Action
  | .bootstrapToken message => session.getMut peer fun entry ↦ entry.receiveToken peer message
  | .reject _ => session.getMut peer fun entry ↦ entry.receiveReject peer
  | .disconnect _ => session.remove peer
  | .priceSheet message => session.getMut peer fun entry ↦ entry.receivePriceSheet message
  | .accept message => session.getMut peer fun entry ↦ entry.receiveAccept message
  | .meteringReport message => session.getMut peer fun entry ↦ entry.receiveReport message
  | .announce _ | .bootstrapAck _ => (session, [])

/-! ### An exchange -/

namespace Exchange

/-- What an exchange has the driver do. -/
inductive Call
  | peerConnected (peer : PeerId)
  | messageReceived (peer : PeerId) (frame : Bytes)
  deriving DecidableEq, Repr

/-- One frame of a request: who has announced itself by now, and the call that the frame leads to.
A message in front of any announce is ignored, and so is one that has no known type. -/
def receive (cbor : Minicbor) (announced : Option PeerId) (frame : Bytes) :
    Option PeerId × List Call :=
  match cbor.peekType frame with
  | some .announce =>
    match cbor.decodeAnnounce frame with
    | some announce => (some announce.pubkey, [.peerConnected announce.pubkey])
    | none => (announced, [])
  | some _ =>
    match announced with
    | some peer => (announced, [.messageReceived peer frame])
    | none => (announced, [])
  | none => (announced, [])

/-- The loop over the frames of a request. -/
def machine (cbor : Minicbor) : Transducer (Option PeerId) Bytes Call where
  step := receive cbor

/-- `http_exchange` up to its response: bad framing, or the peer announced last and the calls. -/
def httpExchange (cbor : Minicbor) (body : Bytes) :
    Run (Except FrameError (Option PeerId × List Call)) :=
  match decodeFrames body with
  | .returned (.ok frames) =>
    .returned (.ok ((machine cbor).final none frames, (machine cbor).outputs none frames))
  | .returned (.error error) => .returned (.error error)
  | .panicked => .panicked
  | .running => .running

/-- What an exchange does with a message: an announce names the peer, and anything else is from the
peer named last. -/
def route (cbor : Minicbor) (announced : Option PeerId) :
    Message → Option PeerId × List Call
  | .announce message => (some message.pubkey, [.peerConnected message.pubkey])
  | other => (announced, announced.toList.map fun peer ↦ .messageReceived peer (other.encode cbor))

/-- The exchange in terms of messages. -/
def routing (cbor : Minicbor) : Transducer (Option PeerId) Sendable Call where
  step announced sent := route cbor announced sent.message

end Exchange

section Encoded

variable {cbor : Minicbor} (hderives : cbor.Derives) (sent : Sendable)
include hderives

/-- Assumes: the documented format. The session does with the bytes of a message what it is to do
with the message. -/
theorem Session.messageReceived_encode (session : Session) (peer : PeerId) :
    session.messageReceived cbor peer (sent.message.encode cbor) =
      session.deliver peer sent.message := by
  obtain ⟨message, htagged, hfits⟩ := sent
  have htype := Message.peekType_encode hderives htagged hfits
  have hdecode := (Message.decodeAs_encode hderives hfits).1
  unfold Session.messageReceived Session.deliver
  rw [htype]
  cases message with
  | announce message => rfl
  | bootstrapAck message => rfl
  | _ message =>
    simp only [Message.type, Message.decodeAs, Option.map_eq_some_iff] at hdecode ⊢
    obtain ⟨decoded, hdecoded, heq⟩ := hdecode
    cases heq
    rw [hdecoded]

/-- Assumes: the documented format. So does an exchange. -/
theorem Exchange.receive_encode (announced : Option PeerId) :
    Exchange.receive cbor announced (sent.message.encode cbor) =
      Exchange.route cbor announced sent.message := by
  obtain ⟨message, htagged, hfits⟩ := sent
  have htype := Message.peekType_encode hderives htagged hfits
  have hdecode := (Message.decodeAs_encode hderives hfits).1
  unfold Exchange.receive Exchange.route
  rw [htype]
  cases message with
  | announce message =>
    simp only [Message.type, Message.decodeAs, Option.map_eq_some_iff] at hdecode ⊢
    obtain ⟨decoded, hdecoded, heq⟩ := hdecode
    cases heq
    rw [hdecoded]
  | _ message => cases announced <;> rfl

end Encoded

/-! ### Whole requests -/

/-- Assumes: the documented format. The loop over the frames simulates the routing of messages. -/
theorem Exchange.simulation {cbor : Minicbor} (hderives : cbor.Derives) :
    Transducer.Simulation (Exchange.routing cbor) (Exchange.machine cbor)
      (fun sent ↦ sent.message.encode cbor) Eq fun _ ↦ true where
  step_rel announced view sent hview := by
    subst hview
    exact congrArg Prod.fst (Exchange.receive_encode hderives sent announced).symm
  step_outputs announced view sent hview := by
    subst hview
    rw [List.filter_true]
    exact congrArg Prod.snd (Exchange.receive_encode hderives sent announced).symm

/-- Assumes: the documented format, and bodies that fit a frame. A request made of encoded messages
is decoded, and each of its messages goes where its type and content send it. -/
theorem Exchange.httpExchange_encode {cbor : Minicbor} (hderives : cbor.Derives)
    {messages : List Sendable}
    (hlength : ∀ sent ∈ messages, (sent.message.encode cbor).length ≤ maxFrameLen) :
    ∃ body, encodeAll [] (messages.map fun sent ↦ sent.message.encode cbor) = .ok body ∧
      Exchange.httpExchange cbor body = .returned (.ok ((Exchange.routing cbor).final none messages,
        (Exchange.routing cbor).outputs none messages)) := by
  have hsim := Exchange.simulation hderives
  have hfinal := hsim.final (Eq.refl none) messages
  have houtputs := hsim.outputs (Eq.refl none) messages
  obtain ⟨body, hbody, hdecode⟩ := decodeFrames_encodeAll (List.forall_mem_map.mpr hlength)
  refine ⟨body, hbody, ?_⟩
  rw [List.filter_true] at houtputs
  rw [Exchange.httpExchange, hdecode, hfinal, houtputs]

/-- What the provider does with a frame from its peer is the call that the frame leads to. -/
theorem Provider.receive_eq {cbor : Minicbor} (peer : PeerId) (provider : Provider)
    (frame : Bytes) (now : Millis) :
    provider.receive cbor peer frame now =
      match (Exchange.receive cbor (some peer) frame).2 with
      | .peerConnected _ :: _ => provider.peerConnected cbor peer now
      | .messageReceived _ body :: _ => provider.handle cbor peer (.messageReceived peer body) now
      | [] => (provider, []) := by
  unfold Provider.receive Exchange.receive
  cases cbor.peekType frame with
  | none => rfl
  | some type =>
    cases type with
    | announce => cases cbor.decodeAnnounce frame <;> rfl
    | _ => rfl

/-! ### Round trip and dispatch -/

/-- Assumes: the documented format of the derived codec. Every message as it is sent decodes to
itself, its type is peeked as its own, and it is routed by that type: the session and an exchange do
with its bytes what they are to do with the message. -/
theorem messages_round_trip {cbor : Minicbor} (hderives : cbor.Derives) (sent : Sendable) :
    Message.decodeAs cbor (sent.message.encode cbor) sent.message.type = some sent.message ∧
    cbor.peekType (sent.message.encode cbor) = some sent.message.type ∧
    (∀ (session : Session) (peer : PeerId) (now : Millis),
      session.handle cbor (.messageReceived peer (sent.message.encode cbor)) now =
        session.deliver peer sent.message) ∧
    ∀ announced, Exchange.receive cbor announced (sent.message.encode cbor) =
      Exchange.route cbor announced sent.message :=
  ⟨(Message.decodeAs_encode hderives sent.fits).1,
    Message.peekType_encode hderives sent.tagged sent.fits,
    fun session peer _ ↦ Session.messageReceived_encode hderives sent session peer,
    Exchange.receive_encode hderives sent⟩

/-- A price sheet with a negative price, under the codec in the shape of the derived one. -/
def sampleSheet : Sendable where
  message := .priceSheet (PriceSheet.new
    [⟨Vector.replicate 32 7, [0xf6, 0], 1000,
      [⟨Vector.replicate 32 9, "https://mint", -5, 300, "sat"⟩]⟩] ⟨1000, 60000⟩)
  tagged := rfl
  fits := ⟨by decide, by decide +kernel⟩

theorem messages_round_trip_on_sheet :
    Message.decodeAs Minicbor.derived (sampleSheet.message.encode Minicbor.derived) .priceSheet =
      some sampleSheet.message ∧
    Minicbor.derived.peekType (sampleSheet.message.encode Minicbor.derived) = some .priceSheet :=
  have htrip := messages_round_trip Minicbor.derived_derives sampleSheet
  ⟨htrip.1, htrip.2.1⟩

end Tollgate
