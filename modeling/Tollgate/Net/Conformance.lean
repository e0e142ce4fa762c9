import Tollgate.Net.Config
import Tollgate.Net.Outbox
import Tollgate.Net.Reaper
import Tollgate.Protocol.Schema

/-!
# What a node sends and the wire schema

A node queues its announce, its price sheet, and what the session sends: reports, rejections and
answers to tokens. `Driver.Speaks` says that all of these have a property; it is kept by every call,
so a body that a peer is sent has it too (`Speaks.step`).

With the schema for the property, only the price sheet can fail: the schema asks for one or more
products and for one or more mint options, and a node without products or without mints announces a
sheet all the same. `outbox_conforms_iff` says that this is all.
-/

set_option autoImplicit false
set_option relaxedAutoImplicit false

namespace Tollgate

open Std

/-! ### What is queued -/

/-- What the session sends. -/
inductive Sent (cbor : Minicbor) : Bytes → Prop
  | report (elapsedMs delivered received : UInt64) :
      Sent cbor (cbor.encodeMeteringReport (MeteringReport.new elapsedMs delivered received))
  | reject (reason : RejectReason) :
      Sent cbor (cbor.encodeReject (Reject.new .meteringReport reason))
  | answer (ok : Bool) :
      Sent cbor (cbor.encodeBootstrapAck
        (if ok then BootstrapAck.accepted else BootstrapAck.rejected "token verification failed"))

theorem Session.sent {cbor : Minicbor} {session : Session} {event : Event} {now : Millis}
    {peer : PeerId} {bytes : Bytes} (hsend : .send peer bytes ∈ (session.handle cbor event now).2) :
    Sent cbor bytes := by
  cases hpeer : event.peer with
  | none =>
    cases event with
    | tick => exact absurd hsend List.not_mem_nil
    | _ => exact absurd hpeer (by simp [Event.peer])
  | some about =>
    rw [(session.handle_self cbor about now hpeer).2] at hsend
    rcases Entry.sends hsend with ⟨-, ⟨reason, rfl⟩ | ⟨elapsedMs, delivered, received, rfl⟩⟩ |
      ⟨amount, ok, time, -, rfl⟩
    · exact .reject reason
    · exact .report elapsedMs delivered received
    · exact .answer ok

namespace Driver

/-- The driver says about itself, and has queued, only bodies with the property. -/
structure Speaks (property : Bytes → Prop) (driver : Driver) : Prop where
  announce : property driver.announce
  priceSheet : driver.priceSheet.isEmpty = false → property driver.priceSheet
  queued : ∀ peer : PeerId, ∀ body ∈ driver.outbox[peer]?.getD [], property body

variable {cbor : Minicbor} {property : Bytes → Prop} {driver : Driver}

namespace Speaks

theorem enqueue (hspeaks : driver.Speaks property) (peer : PeerId) {body : Bytes}
    (hbody : property body) : (driver.enqueue cbor peer body).Speaks property := by
  refine ⟨hspeaks.announce, hspeaks.priceSheet, fun other queued hqueued ↦ ?_⟩
  simp only [Driver.enqueue, ExtTreeMap.getElem?_insert] at hqueued
  split_ifs at hqueued with hpeer
  · rcases mem_enqueue hqueued with hold | rfl
    · exact hspeaks.queued peer queued hold
    · exact hbody
  · exact hspeaks.queued other queued hqueued

theorem execute (hspeaks : driver.Speaks property) {action : Action}
    (hsend : ∀ peer bytes, action = .send peer bytes → property bytes) :
    (driver.execute cbor action).Speaks property := by
  cases action with
  | send peer bytes => exact hspeaks.enqueue peer (hsend peer bytes rfl)
  | setAccess peer level =>
    simp only [Driver.execute]
    cases driver.peerIp[peer]? with
    | none => exact hspeaks
    | some ip =>
      simp only
      split_ifs <;> exact ⟨hspeaks.announce, hspeaks.priceSheet, hspeaks.queued⟩
  | _ => exact ⟨hspeaks.announce, hspeaks.priceSheet, hspeaks.queued⟩

theorem executeAll (hspeaks : driver.Speaks property) {actions : List Action}
    (hsends : ∀ peer bytes, .send peer bytes ∈ actions → property bytes) :
    (driver.executeAll cbor actions).Speaks property := by
  unfold Driver.executeAll
  induction actions generalizing driver with
  | nil => exact hspeaks
  | cons action rest ih =>
    refine ih (hspeaks.execute ?_) fun peer bytes hmem ↦
      hsends peer bytes (List.mem_cons_of_mem _ hmem)
    rintro peer bytes rfl
    exact hsends peer bytes List.mem_cons_self

variable (hsent : ∀ bytes, Sent cbor bytes → property bytes)

include hsent

theorem feed (hspeaks : driver.Speaks property) (event : Event) (now : Millis) :
    (driver.feed cbor event now).Speaks property := by
  have hhandled : (driver.handle cbor event now).1.Speaks property :=
    ⟨hspeaks.announce, hspeaks.priceSheet, hspeaks.queued⟩
  exact hhandled.executeAll fun _ bytes hsend ↦ hsent bytes (Session.sent hsend)

theorem peerDisconnected (hspeaks : driver.Speaks property) (peer : PeerId) (now : Millis) :
    (driver.peerDisconnected cbor peer now).Speaks property := by
  have hfed := hspeaks.feed hsent (.peerDisconnected peer) now
  refine ⟨hfed.announce, hfed.priceSheet, fun other body hbody ↦ ?_⟩
  simp only [Driver.peerDisconnected, forget, ExtTreeMap.getElem?_erase] at hbody
  split_ifs at hbody
  · exact absurd hbody List.not_mem_nil
  · exact hfed.queued other body hbody

theorem peerConnected (hspeaks : driver.Speaks property) (peer : PeerId) (ip : Option IpAddr)
    (seenAt now : Millis) : (driver.peerConnected cbor peer ip seenAt now).Speaks property := by
  have hlocated : ((driver.locate peer ip).touch peer seenAt).Speaks property := by
    cases ip <;> exact ⟨hspeaks.announce, hspeaks.priceSheet, hspeaks.queued⟩
  have hconnected := hlocated.feed hsent (.peerConnected peer) now
  unfold Driver.peerConnected
  split_ifs with hsheet
  · exact hconnected.enqueue peer hspeaks.announce
  · exact (hconnected.enqueue peer hspeaks.announce).enqueue peer
      (hspeaks.priceSheet (by simpa using hsheet))

end Speaks

/-- Remove and return all queued bodies for a peer. -/
def drainOutbox (driver : Driver) (peer : PeerId) : Driver × List Bytes :=
  ({ driver with outbox := driver.outbox.erase peer }, driver.outbox[peer]?.getD [])

end Driver

/-! ### Whole runs -/

/-- The driver is at work, or a peer comes for what is queued for it. -/
inductive Traffic
  | host (step : HostStep)
  | drain (peer : PeerId)

namespace Host

/-- The driver with its peers; what it emits is what they are sent. -/
def traffic (cbor : Minicbor) : Transducer Host Traffic Bytes where
  step host
    | .host step => (Host.step cbor host step, [])
    | .drain peer =>
      let drained := host.driver.drainOutbox peer
      ({ host with driver := drained.1 }, drained.2)

variable {cbor : Minicbor} {property : Bytes → Prop} {host : Host}
variable (hsent : ∀ bytes, Sent cbor bytes → property bytes)

include hsent

/-- Every step of the driver keeps the property of what it says. -/
theorem speaks_step (hspeaks : host.driver.Speaks property) (step : HostStep) :
    (Host.step cbor host step).driver.Speaks property := by
  cases step with
  | peerConnected peer ip seenAt now => exact hspeaks.peerConnected hsent peer ip seenAt now
  | messageReceived peer bytes seenAt now =>
    have htouched : (host.driver.touch peer seenAt).Speaks property :=
      ⟨hspeaks.announce, hspeaks.priceSheet, hspeaks.queued⟩
    exact htouched.feed hsent (.messageReceived peer bytes) now
  | verified peer answer now =>
    simp only [Host.step]
    split_ifs
    · exact hspeaks.feed hsent _ now
    · exact hspeaks
  | meter peer counters now => exact hspeaks.feed hsent (.meterSample peer counters) now
  | peerDisconnected peer now => exact hspeaks.peerDisconnected hsent peer now
  | sweep nowMs idleMs =>
    simp only [Host.step]
    split_ifs <;> exact hspeaks
  | look =>
    simp only [Host.step]
    split
    · split_ifs <;> exact hspeaks
    · exact hspeaks
  | tearDown now =>
    simp only [Host.step]
    cases host.condemned with
    | none => exact hspeaks
    | some peer => exact hspeaks.peerDisconnected hsent peer now

/-- Along a run, what is queued and what peers are sent has the property. -/
theorem speaks_run (hspeaks : host.driver.Speaks property) (steps : List Traffic) :
    (traffic cbor).Throughout (fun host ↦ host.driver.Speaks property) host steps ∧
      ∀ body ∈ (traffic cbor).outputs host steps, property body := by
  induction steps generalizing host with
  | nil => exact ⟨(Transducer.throughout_nil _ _ _).mpr hspeaks, by simp [Transducer.outputs,
      Transducer.observe]⟩
  | cons step rest ih =>
    have hnext : ((traffic cbor).step host step).1.driver.Speaks property ∧
        ∀ body ∈ ((traffic cbor).step host step).2, property body := by
      cases step with
      | host step => exact ⟨speaks_step hsent hspeaks step, fun _ hnone ↦ absurd hnone (by
          simp [traffic])⟩
      | drain peer =>
        refine ⟨⟨hspeaks.announce, hspeaks.priceSheet, fun other body hbody ↦ ?_⟩,
          hspeaks.queued peer⟩
        simp only [traffic, Driver.drainOutbox, ExtTreeMap.getElem?_erase] at hbody
        split_ifs at hbody
        · exact absurd hbody List.not_mem_nil
        · exact hspeaks.queued other body hbody
    obtain ⟨hrest, houtputs⟩ := ih hnext.1
    refine ⟨(Transducer.throughout_cons _ _ _ _ _).mpr ⟨hspeaks, hrest⟩, ?_⟩
    exact List.forall_mem_append.mpr ⟨hnext.2, houtputs⟩

end Host

/-! ### The schema -/

/-- The lengths of what the configuration holds are machine words. -/
structure Config.Fits (config : Config) : Prop where
  unit : textFits config.unit
  mints : config.mints.length < 2 ^ 64
  products : config.products.length < 2 ^ 64
  urls : ∀ url ∈ config.mints, textFits url

section Schema

variable {cbor : Minicbor} (hderives : cbor.Derives)

include hderives

/-- A tagged message that is admitted by the rule of its type conforms. -/
theorem conforms_encode {message : Message} (htagged : message.Tagged) (hfits : message.Fits)
    {rule : Cddl.Rule} (hrule : Schema.rule message.type = some rule)
    (hadmits : rule.Admits (message.encode cbor)) : Conforms cbor (message.encode cbor) :=
  ⟨message.type, rule, Message.peekType_encode hderives htagged hfits, hrule, hadmits⟩

/-- Whatever the session sends conforms. -/
theorem Sent.conforms {bytes : Bytes} (hsent : Sent cbor bytes) : Conforms cbor bytes := by
  cases hsent with
  | report elapsedMs delivered received =>
    refine @conforms_encode cbor hderives
      (.meteringReport (MeteringReport.new elapsedMs delivered received)) rfl trivial _ rfl ?_
    rw [Message.encode, hderives.encode_meteringReport]
    exact Derived.admits_meteringReport rfl
  | reject reason =>
    have hnone : ∀ text ∈ (Reject.new .meteringReport reason).reasonText, textFits text :=
      fun _ htext ↦ absurd htext (Option.not_mem_none _)
    refine @conforms_encode cbor hderives (.reject (Reject.new .meteringReport reason)) rfl hnone _
      rfl ?_
    rw [Message.encode, hderives.encode_reject]
    exact Derived.admits_reject rfl rfl hnone
  | answer ok =>
    set ack := if ok then BootstrapAck.accepted
      else BootstrapAck.rejected "token verification failed" with hack
    have htag : ack.typeTag = MessageType.bootstrapAck.asU8 := by
      cases ok <;> rfl
    have hreason : ∀ text ∈ ack.reason, textFits text := by
      rw [hack]
      cases ok
      · intro text htext
        rw [← Option.some.inj htext]
        decide
      · exact fun text htext ↦ absurd htext (Option.not_mem_none text)
    refine @conforms_encode cbor hderives (.bootstrapAck ack) htag hreason _ rfl ?_
    rw [Message.encode, hderives.encode_bootstrapAck]
    exact Derived.admits_bootstrapAck htag hreason

variable {config : Config} (hfits : config.Fits) (sort : List MintPrice → List MintPrice)
  (sha256 : Bytes → Digest)

include hfits

theorem announce_conforms (publicKey : PublicKey) :
    Conforms cbor (cbor.encodeAnnounce (config.announce publicKey)) := by
  refine @conforms_encode cbor hderives (.announce (config.announce publicKey)) rfl hfits.unit _
    rfl ?_
  rw [Message.encode, hderives.encode_announce]
  exact Derived.admits_announce rfl hfits.unit

omit hderives in
theorem Config.Fits.sheet :
    Message.Fits (.priceSheet (config.priceSheet sort sha256)) := by
  refine ⟨by simpa [Config.priceSheet, PriceSheet.new] using hfits.products, ?_⟩
  intro entry hentry
  obtain ⟨product, -, rfl⟩ := mem_priceSheet.mp hentry
  refine ⟨by simp [ProductConfig.entry], ?_, ?_⟩
  · simpa [ProductConfig.entry, ProductConfig.prices] using hfits.mints
  · intro option hoption
    simp only [ProductConfig.entry, ProductConfig.prices, List.map_map, List.mem_map] at hoption
    obtain ⟨url, hurl, rfl⟩ := hoption
    have hsat : textFits "sat" := by decide
    exact ⟨hfits.urls url hurl, hsat⟩

/-- The sheet conforms exactly if there is a product and a mint. -/
theorem priceSheet_conforms_iff :
    Conforms cbor (cbor.encodePriceSheet (config.priceSheet sort sha256)) ↔
      config.products ≠ [] ∧ config.mints ≠ [] := by
  have hsheet := hfits.sheet sort sha256
  have hpeek : cbor.peekType (cbor.encodePriceSheet (config.priceSheet sort sha256)) =
      some .priceSheet :=
    @Message.peekType_encode cbor hderives (.priceSheet (config.priceSheet sort sha256)) rfl hsheet
  have hadmits : Schema.priceSheet.Admits
      (cbor.encodePriceSheet (config.priceSheet sort sha256)) ↔
        config.products ≠ [] ∧ config.mints ≠ [] := by
    rw [hderives.encode_priceSheet, Derived.admits_priceSheet_iff rfl hsheet.1 hsheet.2]
    simp only [Config.priceSheet, PriceSheet.new, ne_eq, List.map_eq_nil_iff, List.forall_mem_map,
      ProductConfig.entry, ProductConfig.prices]
    refine and_congr_right fun hproducts ↦ ?_
    obtain ⟨product, others, hcons⟩ := List.exists_cons_of_ne_nil hproducts
    exact ⟨fun hall ↦ hall product (by simp [hcons]), fun hmints _ _ ↦ hmints⟩
  rw [← hadmits]
  constructor
  · rintro ⟨type, rule, htype, hrule, hholds⟩
    obtain rfl := Option.some.inj (htype.symm.trans hpeek)
    rwa [Option.some.inj hrule]
  · exact fun hholds ↦ ⟨_, _, hpeek, rfl, hholds⟩

end Schema

/-- The driver that `main` starts, with its wallet and its reaper. -/
def Config.host (config : Config) (sort : List MintPrice → List MintPrice)
    (sha256 : Bytes → Digest) (cbor : Minicbor) (publicKey : PublicKey) : Host :=
  ⟨config.driver sort sha256 cbor publicKey, [], [], none⟩

/-- Everything on every queue conforms, and so does everything that peers are sent. -/
def OutboxConforms (cbor : Minicbor) (host : Host) (steps : List Traffic) : Prop :=
  (Host.traffic cbor).Throughout
      (fun host ↦ ∀ peer : PeerId, ∀ body ∈ host.driver.outbox[peer]?.getD [], Conforms cbor body)
      host steps ∧
    ∀ body ∈ (Host.traffic cbor).outputs host steps, Conforms cbor body

/-- The sheet is on the queue of a peer that has announced itself. -/
theorem mem_outbox_greeted {cbor : Minicbor} {driver : Driver} {peer : PeerId}
    (hsheet : driver.priceSheet.isEmpty = false) (ip : Option IpAddr) (seenAt now : Millis) :
    driver.priceSheet ∈ (driver.peerConnected cbor peer ip seenAt now).outbox[peer]?.getD [] := by
  simp only [Driver.peerConnected, hsheet, Bool.false_eq_true, if_false, Driver.enqueue,
    ExtTreeMap.getElem?_insert_self, Option.getD_some, enqueue]
  exact List.mem_append_right _ (List.mem_singleton_self _)

/-- Assumes: the documented format of the codec, and lengths that are machine words. What a node
queues and sends conforms to the schema in every run exactly if the node has a product and a
mint. -/
theorem outbox_conforms_iff {cbor : Minicbor} (hderives : cbor.Derives) {config : Config}
    (hfits : config.Fits) (sort : List MintPrice → List MintPrice) (sha256 : Bytes → Digest)
    (publicKey : PublicKey) :
    (∀ steps, OutboxConforms cbor (config.host sort sha256 cbor publicKey) steps) ↔
      config.products ≠ [] ∧ config.mints ≠ [] := by
  rw [← priceSheet_conforms_iff hderives hfits sort sha256]
  constructor
  · intro hruns
    have hsheet : (cbor.encodePriceSheet (config.priceSheet sort sha256)).isEmpty = false := by
      rw [hderives.encode_priceSheet, Derived.writePriceSheet, Cbor.writeRecord]
      rfl
    -- One announce is enough for the sheet to be queued.
    have hrun := (hruns [.host (.peerConnected publicKey none 0 0)]).1
      [.host (.peerConnected publicKey none 0 0)] List.prefix_rfl
    exact hrun publicKey _ (mem_outbox_greeted hsheet none 0 0)
  · intro hsheet steps
    have hspeaks : (config.host sort sha256 cbor publicKey).driver.Speaks (Conforms cbor) := by
      refine ⟨announce_conforms hderives hfits publicKey, fun _ ↦ hsheet, fun peer body hbody ↦ ?_⟩
      simp [Config.host, Config.driver, Driver.new] at hbody
    obtain ⟨hrun, hsent⟩ := Host.speaks_run (fun bytes ↦ Sent.conforms hderives) hspeaks steps
    exact ⟨fun before hbefore ↦ (hrun before hbefore).queued, hsent⟩

/-- A node with one product at one mint greets a peer, and the peer comes for the greeting. -/
theorem outbox_conforms_one_mint :
    OutboxConforms Minicbor.derived ((sampleConfig 1000).host (List.insertionSort MintPrice.urlLe)
      (fun _ ↦ Vector.replicate 32 0) Minicbor.derived (Vector.replicate 33 2))
      [.host (.peerConnected (Vector.replicate 33 3) none 0 0),
        .drain (Vector.replicate 33 3)] := by
  have hfits : (sampleConfig 1000).Fits :=
    ⟨by decide, by decide, by decide, by decide⟩
  exact (outbox_conforms_iff Minicbor.derived_derives hfits _ _ _).mpr
    ⟨by decide, by decide⟩ _

/-- The default configuration, of a node that sells nothing: its first answer to an announce has a
price sheet without products. -/
theorem outbox_fails_on_empty_sheet :
    let host := (⟨[], [], "bytes"⟩ : Config).host (List.insertionSort MintPrice.urlLe)
      (fun _ ↦ Vector.replicate 32 0) Minicbor.derived (Vector.replicate 33 2)
    ¬ OutboxConforms Minicbor.derived host
      [.host (.peerConnected (Vector.replicate 33 3) none 0 0)] := by
  intro host hconforms
  have hfits : (⟨[], [], "bytes"⟩ : Config).Fits :=
    ⟨by decide, by decide, by decide, by decide⟩
  have hsheet := hconforms.1 _ List.prefix_rfl (Vector.replicate 33 3) _
    (mem_outbox_greeted (by decide) none 0 0)
  have hsells := (priceSheet_conforms_iff Minicbor.derived_derives hfits _ _).mp hsheet
  exact hsells.1 rfl

end Tollgate
