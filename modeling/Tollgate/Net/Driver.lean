import Tollgate.Core.Session

/-!
# The driver

`driver.rs`: the host around the session. It feeds events in, carries the actions out, and queues
what is to be sent to a peer until that peer polls. Only the queue matters to the peer at the other
end, so the model keeps the session and the queue of one peer; firewall rules, the address book and
the reaper's clock are left out.
-/

set_option autoImplicit false
set_option relaxedAutoImplicit false

namespace Tollgate

/-- What an action sends to `peer`. -/
def Action.sentTo (peer : PeerId) : Action → Option Bytes
  | send other bytes => if other = peer then some bytes else none
  | setAccess _ _ => none
  | verifyBootstrapToken _ _ => none
  | startMetering _ => none
  | stopMetering _ => none
  | disconnect _ => none

/-- Queue a body. Reports are cumulative, so a fresh one replaces any that is still queued. -/
def enqueue (cbor : Minicbor) (queue : List Bytes) (message : Bytes) : List Bytes :=
  (if cbor.peekType message = some .meteringReport then
    queue.filter fun queued ↦ decide (cbor.peekType queued ≠ some .meteringReport)
  else queue) ++ [message]

/-- Queue everything that a list of actions sends to `peer`. -/
def execute (cbor : Minicbor) (peer : PeerId) (queue : List Bytes) (actions : List Action) :
    List Bytes :=
  (actions.filterMap (Action.sentTo peer)).foldl (enqueue cbor) queue

/-- The provider as its peer sees it: the session, the queue for the peer, and what the provider
says about itself when the peer announces itself. -/
structure Provider where
  session : Session
  outbox : List Bytes
  announce : Bytes
  priceSheet : Bytes

namespace Provider

variable (cbor : Minicbor) (peer : PeerId) (provider : Provider)

/-- Run one event through the session and carry its actions out. -/
def handle (event : Event) (now : Millis) : Provider × List Action :=
  let result := provider.session.handle cbor event now
  ({ provider with session := result.1, outbox := execute cbor peer provider.outbox result.2 },
    result.2)

/-- The peer announced itself: announce ourselves back and advertise the price, if there is one. -/
def peerConnected (now : Millis) : Provider × List Action :=
  let result := provider.handle cbor peer (.peerConnected peer) now
  let greeted := enqueue cbor result.1.outbox provider.announce
  ({ result.1 with
      outbox := if provider.priceSheet.isEmpty then greeted
        else enqueue cbor greeted provider.priceSheet },
    result.2)

/-- A frame of an exchange: an announce connects the peer, anything else is a message from it, and
what has no known type is ignored. -/
def receive (frame : Bytes) (now : Millis) : Provider × List Action :=
  match cbor.peekType frame with
  | some .announce =>
    match cbor.decodeAnnounce frame with
    | some _ => provider.peerConnected cbor peer now
    | none => (provider, [])
  | some _ => provider.handle cbor peer (.messageReceived peer frame) now
  | none => (provider, [])

end Provider

end Tollgate
