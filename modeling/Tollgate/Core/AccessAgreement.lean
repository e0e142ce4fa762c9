import Tollgate.Core.Entry
import Tollgate.Protocol.Derived

/-!
# Access and phase

The session keeps a peer's phase and tells the host the peer's access level, in separate
statements of the same arms. `AccessAgrees` says that they tell the same story: the last access
level set for the peer lets it through exactly when the peer is tracked and active.

One arm breaks it. A bootstrap token puts its sender into `bootstrapPending` whatever its phase
was, and emits no access decision, so a top-up from an active peer leaves the peer let through
while its samples are ignored. `accessAgrees_along_iff` shows that nothing else does: along a run
the two agree after every event exactly when no token came from an active peer.
-/

set_option autoImplicit false
set_option relaxedAutoImplicit false

namespace Tollgate

/-! ### The last access decision -/

/-- The access level an action sets for `peer`, if it sets one. -/
def Action.accessFor (peer : PeerId) : Action → Option AccessLevel
  | setAccess other level => if other = peer then some level else none
  | send _ _ => none
  | verifyBootstrapToken _ _ => none
  | startMetering _ => none
  | stopMetering _ => none
  | disconnect _ => none

/-- The last access level set for a peer. -/
def lastAccess (peer : PeerId) (actions : List Action) : Option AccessLevel :=
  (actions.filterMap (Action.accessFor peer)).getLast?

/-- The last access level set for a peer lets it through; a peer without one is blocked. -/
def LetThrough (peer : PeerId) (actions : List Action) : Prop :=
  ∃ level, lastAccess peer actions = some level ∧ level.allowsDelivery = true

instance (peer : PeerId) (actions : List Action) : Decidable (LetThrough peer actions) :=
  decidable_of_iff ((lastAccess peer actions).any AccessLevel.allowsDelivery = true) (by
    unfold LetThrough
    cases lastAccess peer actions <;> simp)

@[simp] theorem lastAccess_nil (peer : PeerId) : lastAccess peer [] = none := rfl

theorem lastAccess_append (peer : PeerId) (first second : List Action) :
    lastAccess peer (first ++ second) = (lastAccess peer second).or (lastAccess peer first) := by
  unfold lastAccess
  rw [List.filterMap_append, List.getLast?_append]

@[simp] theorem lastAccess_cons (peer : PeerId) (action : Action) (rest : List Action) :
    lastAccess peer (action :: rest) = (lastAccess peer rest).or (action.accessFor peer) := by
  rw [← List.singleton_append, lastAccess_append]
  cases hlevel : action.accessFor peer <;> simp [lastAccess, hlevel]

/-- Only the actions that name the peer count. -/
theorem lastAccess_filter_about (peer : PeerId) (actions : List Action) :
    lastAccess peer (actions.filter (Action.about peer)) = lastAccess peer actions := by
  unfold lastAccess
  rw [List.filterMap_filter]
  congr 1
  refine List.filterMap_congr fun action _ ↦ ?_
  by_cases habout : Action.about peer action = true
  · rw [if_pos habout]
  · rw [if_neg habout]
    have hne : action.peer ≠ peer := fun heq ↦ habout (decide_eq_true heq)
    cases action with
    | setAccess other level => exact (if_neg hne).symm
    | _ => rfl

/-- Actions that set no access leave the earlier decision standing. -/
theorem lastAccess_append_of_none {peer : PeerId} {first second : List Action}
    (hnone : lastAccess peer second = none) :
    lastAccess peer (first ++ second) = lastAccess peer first := by
  rw [lastAccess_append, hnone, Option.none_or]

/-- Actions that set access replace the earlier decision. -/
theorem lastAccess_append_of_some {peer : PeerId} {first second : List Action}
    {level : AccessLevel} (hsome : lastAccess peer second = some level) :
    lastAccess peer (first ++ second) = some level := by
  rw [lastAccess_append, hsome, Option.some_or]

theorem letThrough_append_of_none {peer : PeerId} {first second : List Action}
    (hnone : lastAccess peer second = none) :
    LetThrough peer (first ++ second) ↔ LetThrough peer first := by
  unfold LetThrough
  rw [lastAccess_append_of_none hnone]

theorem letThrough_append_of_some {peer : PeerId} {first second : List Action}
    {level : AccessLevel} (hsome : lastAccess peer second = some level) :
    LetThrough peer (first ++ second) ↔ level.allowsDelivery = true := by
  unfold LetThrough
  rw [lastAccess_append_of_some hsome]
  simp

/-! ### The one-peer machine -/

namespace Entry

/-- The entry is tracked and active. -/
def Active (entry : Option PeerSession) : Prop :=
  ∃ tracked, entry = some tracked ∧ tracked.phase = .active

@[simp] theorem active_none : ¬ Active none := by
  rintro ⟨tracked, htracked, -⟩
  exact absurd htracked (by simp)

@[simp] theorem active_some (entry : PeerSession) :
    Active (some entry) ↔ entry.phase = .active := by
  constructor
  · rintro ⟨tracked, htracked, hphase⟩
    rw [Option.some.inj htracked]
    exact hphase
  · exact fun hphase ↦ ⟨entry, rfl, hphase⟩

/-- A bootstrap token seen by an active entry. -/
def TokenFromActive (entry : Option PeerSession) (event : PeerEvent) : Prop :=
  Active entry ∧ ∃ message, event = .token message

/-- What a charged sample decides about access: it suspends the peer or decides nothing. -/
theorem lastAccess_chargeSample (cbor : Minicbor) (price : Price) (policy : MeteringPolicy)
    (peer : PeerId) (entry : PeerSession) (counters : Counters) (now : Millis) :
    lastAccess peer (entry.chargeSample cbor peer price policy counters now).2 =
      if entry.cut counters price policy now then some .suspended else none := by
  have hsends (bytes : Bytes) (condition : Bool) :
      lastAccess peer (if condition then [Action.send peer bytes] else []) = none := by
    cases condition <;> rfl
  have hreport : lastAccess peer
      [Action.send peer (cbor.encodeMeteringReport (entry.usageReport counters now))] = none := rfl
  simp only [PeerSession.chargeSample]
  rw [lastAccess_append, lastAccess_append, hsends, hreport]
  by_cases hcut : entry.cut counters price policy now = true
  · rw [if_pos hcut, if_pos hcut, lastAccess_append, hsends]
    simp [Action.accessFor]
  · rw [if_neg hcut, if_neg hcut]
    rfl

variable {cbor : Minicbor} {price : Price} {policy : MeteringPolicy} {peer : PeerId}

/-- What an event decides about access. It decides nothing, and the entry is as active as before
unless the event is a token; or it sets a level that allows delivery exactly when the entry is
active after it. -/
theorem access_step (entry : Option PeerSession) (event : PeerEvent) :
    (lastAccess peer (step cbor price policy peer entry event).2 = none ∧
        (Active (step cbor price policy peer entry event).1 ↔
          Active entry ∧ ¬ ∃ message, event = .token message)) ∨
      ∃ level, lastAccess peer (step cbor price policy peer entry event).2 = some level ∧
        (level.allowsDelivery = true ↔ Active (step cbor price policy peer entry event).1) ∧
        ¬ ∃ message, event = .token message := by
  cases event with
  | token message =>
    left
    cases entry with
    | none => simp [step]
    | some entry => exact ⟨rfl, by simp [step, PeerSession.receiveToken]⟩
  | connected =>
    cases entry with
    | none =>
      refine Or.inr ⟨.none, ?_, ?_, by simp⟩
      · simp [step, Action.accessFor]
      · simp [step, AccessLevel.allowsDelivery, PeerSession.new]
    | some entry => exact Or.inl ⟨rfl, by simp [step]⟩
  | disconnected =>
    refine Or.inr ⟨.none, ?_, ?_, by simp⟩
    · simp [step, Action.accessFor]
    · simp [step, AccessLevel.allowsDelivery]
  | reject =>
    cases entry with
    | none => exact Or.inl ⟨rfl, by simp [step]⟩
    | some entry =>
      simp only [step, getMut_some, PeerSession.receiveReject]
      by_cases hclosed : entry.phase = .closed
      · rw [if_pos hclosed]
        exact Or.inl ⟨rfl, by simp⟩
      · rw [if_neg hclosed]
        by_cases hactive : entry.phase = .active
        · rw [if_pos hactive]
          refine Or.inr ⟨.none, ?_, ?_, by simp⟩
          · simp [Action.accessFor]
          · simp [AccessLevel.allowsDelivery]
        · rw [if_neg hactive]
          exact Or.inl ⟨rfl, by simp [hactive]⟩
  | verified amount ok now =>
    cases entry with
    | none => exact Or.inl ⟨rfl, by simp [step]⟩
    | some entry =>
      simp only [step, getMut_some, PeerSession.bootstrapVerified]
      cases ok with
      | false =>
        refine Or.inr ⟨.none, ?_, ?_, by simp⟩
        · simp [Action.accessFor]
        · simp [AccessLevel.allowsDelivery]
      | true =>
        refine Or.inr ⟨.active, ?_, ?_, by simp⟩
        · simp [Action.accessFor]
        · by_cases hactive : entry.phase = .active <;>
            simp [hactive, AccessLevel.allowsDelivery]
  | sample counters now =>
    cases entry with
    | none => exact Or.inl ⟨rfl, by simp [step]⟩
    | some entry =>
      simp only [step, getMut_some, PeerSession.meterSample]
      by_cases hactive : entry.phase = .active
      · rw [if_pos hactive]
        cases hlast : entry.lastCounters with
        | none => exact Or.inl ⟨rfl, by simp [PeerSession.resetMetering]⟩
        | some last =>
          have haccess := lastAccess_chargeSample cbor price policy peer entry counters now
          by_cases hcut : entry.cut counters price policy now = true
          · rw [if_pos hcut] at haccess
            refine Or.inr ⟨.suspended, haccess, ?_, by simp⟩
            simp [PeerSession.chargeSample, hcut, AccessLevel.allowsDelivery]
          · rw [if_neg hcut] at haccess
            exact Or.inl ⟨haccess, by simp [PeerSession.chargeSample, hcut]⟩
      · rw [if_neg hactive]
        exact Or.inl ⟨rfl, by simp⟩
  | idle => exact Or.inl ⟨rfl, by simp [step]⟩
  | priceSheet sheet =>
    cases entry with
    | none => exact Or.inl ⟨rfl, by simp [step]⟩
    | some entry => exact Or.inl ⟨rfl, by simp [step, PeerSession.receivePriceSheet]⟩
  | accept message =>
    cases entry with
    | none => exact Or.inl ⟨rfl, by simp [step]⟩
    | some entry => exact Or.inl ⟨rfl, by simp [step, PeerSession.receiveAccept]⟩
  | report report =>
    cases entry with
    | none => exact Or.inl ⟨rfl, by simp [step]⟩
    | some entry => exact Or.inl ⟨rfl, by simp [step, PeerSession.receiveReport]⟩

/-- Assumes: access agrees with the phase before an event. It agrees after it unless the event was
a token from an active peer, and then it does not. -/
theorem letThrough_step {entry : Option PeerSession} {earlier : List Action}
    (hagree : LetThrough peer earlier ↔ Active entry) (event : PeerEvent) :
    (LetThrough peer (earlier ++ (step cbor price policy peer entry event).2) ↔
        Active (step cbor price policy peer entry event).1) ↔
      ¬ TokenFromActive entry event := by
  unfold TokenFromActive
  rcases @access_step cbor price policy peer entry event with
    ⟨hnone, hactive⟩ | ⟨level, hsome, hlevel, hother⟩
  · rw [letThrough_append_of_none hnone, hagree, hactive]
    tauto
  · rw [letThrough_append_of_some hsome]
    exact iff_of_true hlevel fun htoken ↦ hother htoken.2

/-- Assumes: access agrees with the phase before a run. It agrees after every event of the run
exactly when no token in it came from an active peer. -/
theorem letThrough_prefixes_iff (events : List PeerEvent) {entry : Option PeerSession}
    {earlier : List Action} (hagree : LetThrough peer earlier ↔ Active entry) :
    (∀ before, before <+: events →
        (LetThrough peer (earlier ++ (machine cbor price policy peer).outputs entry before) ↔
          Active ((machine cbor price policy peer).final entry before))) ↔
      (machine cbor price policy peer).Along (fun entry event ↦ ¬ TokenFromActive entry event)
        entry events := by
  induction events generalizing entry earlier with
  | nil =>
    refine iff_of_true (fun before hbefore ↦ ?_) trivial
    rw [List.prefix_nil.mp hbefore, Transducer.outputs_nil, List.append_nil]
    exact hagree
  | cons event rest ih =>
    have hstep := @letThrough_step cbor price policy peer entry earlier hagree event
    rw [Transducer.along_cons, ← hstep, machine_step]
    constructor
    · intro hall
      have hnext := hall [event] ⟨rest, rfl⟩
      rw [Transducer.outputs_cons, Transducer.outputs_nil, List.append_nil] at hnext
      refine ⟨hnext, (ih hnext).mp fun before hbefore ↦ ?_⟩
      have hlater := hall (event :: before) (List.cons_prefix_cons.mpr ⟨rfl, hbefore⟩)
      rw [Transducer.outputs_cons, ← List.append_assoc] at hlater
      exact hlater
    · rintro ⟨hnext, halong⟩ before hbefore
      cases before with
      | nil =>
        rw [Transducer.outputs_nil, List.append_nil]
        exact hagree
      | cons first others =>
        obtain ⟨rfl, hothers⟩ := List.cons_prefix_cons.mp hbefore
        rw [Transducer.outputs_cons, ← List.append_assoc]
        exact (ih hnext).mpr halong others hothers

end Entry

/-! ### The session -/

/-- Access agrees with the phase of `peer`: the access decisions emitted so far let it through
exactly when it is tracked and active. -/
def AccessAgrees (peer : PeerId) (session : Session) (emitted : List Action) : Prop :=
  LetThrough peer emitted ↔ session.peerPhase peer = some .active

instance (peer : PeerId) (session : Session) (emitted : List Action) :
    Decidable (AccessAgrees peer session emitted) :=
  inferInstanceAs (Decidable (_ ↔ _))

/-- A well-formed bootstrap token arrives from a peer that is already active. -/
def TokenFromActivePeer (cbor : Minicbor) (peer : PeerId) (session : Session)
    (input : Event × Millis) : Prop :=
  session.peerPhase peer = some .active ∧
    ∃ bytes message, input.1 = .messageReceived peer bytes ∧
      cbor.peekType bytes = some .bootstrapToken ∧ cbor.decodeBootstrapToken bytes = some message

theorem peerPhase_eq_active_iff (session : Session) (peer : PeerId) :
    session.peerPhase peer = some .active ↔ Entry.Active session.peers[peer]? := by
  unfold Session.peerPhase Entry.Active
  rw [Option.map_eq_some_iff]

theorem tokenFromActivePeer_iff (cbor : Minicbor) (peer : PeerId) (session : Session)
    (input : Event × Millis) :
    TokenFromActivePeer cbor peer session input ↔
      Entry.TokenFromActive session.peers[peer]? (PeerEvent.of cbor peer input) := by
  unfold TokenFromActivePeer Entry.TokenFromActive
  simp only [peerPhase_eq_active_iff, PeerEvent.of_eq_token_iff]
  exact and_congr_right fun _ ↦ exists_comm

/-- From a new session with any price and policy, for every run and every peer: access agrees with
the phase after every event exactly when no bootstrap token in the run came from the peer while it
was active. -/
theorem accessAgrees_along_iff (cbor : Minicbor) (price : Price) (policy : MeteringPolicy)
    (peer : PeerId) (events : List (Event × Millis)) :
    (∀ before, before <+: events →
        AccessAgrees peer ((Session.machine cbor).final (Session.start price policy) before)
          ((Session.machine cbor).outputs (Session.start price policy) before)) ↔
      (Session.machine cbor).Along
        (fun session input ↦ ¬ TokenFromActivePeer cbor peer session input)
        (Session.start price policy) events := by
  have hsim := entrySimulation cbor price policy peer
  have hstart : HasEntry price policy peer (Session.start price policy) none :=
    ⟨rfl, rfl, by simp [Session.start, Session.new, Session.setPrice, Session.setMeteringPolicy]⟩
  have hview (before : List (Event × Millis)) :
      AccessAgrees peer ((Session.machine cbor).final (Session.start price policy) before)
          ((Session.machine cbor).outputs (Session.start price policy) before) ↔
        (LetThrough peer ([] ++ (Entry.machine cbor price policy peer).outputs none
            (before.map (PeerEvent.of cbor peer))) ↔
          Entry.Active ((Entry.machine cbor price policy peer).final none
            (before.map (PeerEvent.of cbor peer)))) := by
    rw [AccessAgrees, peerPhase_eq_active_iff, (hsim.final hstart before).2.2, List.nil_append,
      ← hsim.outputs hstart before, LetThrough, LetThrough, lastAccess_filter_about]
  have halong := hsim.along (fun session input ↦ ¬ TokenFromActivePeer cbor peer session input)
    (fun entry event ↦ ¬ Entry.TokenFromActive entry event)
    (fun session entry input hentry ↦ by
      rw [tokenFromActivePeer_iff, hentry.2.2]) hstart events
  have hblocked : LetThrough peer [] ↔ Entry.Active none := by
    simp [LetThrough]
  rw [halong, ← Entry.letThrough_prefixes_iff (events.map (PeerEvent.of cbor peer)) hblocked]
  constructor
  · intro hall before hbefore
    obtain ⟨taken, htaken, rfl⟩ := List.prefix_map_iff.mp hbefore
    exact (hview taken).mp (hall taken htaken)
  · intro hall before hbefore
    exact (hview before).mpr (hall _ (hbefore.map _))

/-- A key for concrete runs. -/
def samplePeer : PeerId := Vector.replicate 33 2

/-- A well-formed token message for concrete runs. -/
def sampleToken : Bytes :=
  Minicbor.derived.encodeBootstrapToken (BootstrapToken.new [0x63, 0x61, 0x73, 0x68, 0x75])

/-- A top-up from an active peer: after its token arrives the peer is pending, and still let
through. -/
theorem accessAgrees_fails_on_topUp :
    ¬ AccessAgrees samplePeer
      ((Session.machine Minicbor.derived).final
        (Session.start ⟨0, 1⟩ MeteringPolicy.default)
        [(.peerConnected samplePeer, 0), (.bootstrapVerified samplePeer 5000 true, 1),
          (.messageReceived samplePeer sampleToken, 2)])
      ((Session.machine Minicbor.derived).outputs
        (Session.start ⟨0, 1⟩ MeteringPolicy.default)
        [(.peerConnected samplePeer, 0), (.bootstrapVerified samplePeer 5000 true, 1),
          (.messageReceived samplePeer sampleToken, 2)]) := by
  decide +kernel

end Tollgate
