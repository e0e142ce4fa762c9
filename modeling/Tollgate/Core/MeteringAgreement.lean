import Tollgate.Core.AccessAgreement

/-!
# Access and metering

A host keeps two records of what the session decides: the access level of each peer and the set of
peers it meters. The session pairs the two kinds of action by hand. `decisions_step` lists what one
event can decide about both: nothing, both alike, or access alone. Access alone is taken from a peer
at its first connect, when it has none to lose, and at a refused verdict; a refused verdict for a
peer that is let through is therefore where the two records part.
-/

set_option autoImplicit false
set_option relaxedAutoImplicit false

namespace Tollgate

/-! ### The metered set -/

/-- What an action does to the set of metered peers. -/
def Action.applyMetering (metered : Finset PeerId) : Action → Finset PeerId
  | startMetering peer => insert peer metered
  | stopMetering peer => metered.erase peer
  | send _ _ | setAccess _ _ | verifyBootstrapToken _ _ | disconnect _ => metered

/-- The peers metered once a list of actions has been carried out. -/
def meteredAfter (actions : List Action) : Finset PeerId :=
  actions.foldl Action.applyMetering ∅

/-- What an action decides about metering `peer`. -/
def Action.meteringFor (peer : PeerId) : Action → Option Bool
  | startMetering other => if other = peer then some true else none
  | stopMetering other => if other = peer then some false else none
  | send _ _ | setAccess _ _ | verifyBootstrapToken _ _ | disconnect _ => none

/-- The last decision about metering `peer` in a list of actions. -/
def lastMetering (peer : PeerId) (actions : List Action) : Option Bool :=
  (actions.filterMap (Action.meteringFor peer)).getLast?

theorem lastMetering_append (peer : PeerId) (first second : List Action) :
    lastMetering peer (first ++ second) =
      (lastMetering peer second).or (lastMetering peer first) := by
  unfold lastMetering
  rw [List.filterMap_append, List.getLast?_append]

@[simp] theorem lastMetering_nil (peer : PeerId) : lastMetering peer [] = none := rfl

@[simp] theorem lastMetering_cons (peer : PeerId) (action : Action) (rest : List Action) :
    lastMetering peer (action :: rest) =
      (lastMetering peer rest).or (action.meteringFor peer) := by
  rw [← List.singleton_append, lastMetering_append]
  cases hdecision : action.meteringFor peer <;> simp [lastMetering, hdecision]

/-- One action: its own decision, or what was so before. -/
theorem mem_applyMetering (peer : PeerId) (metered : Finset PeerId) (action : Action) :
    decide (peer ∈ action.applyMetering metered) =
      (action.meteringFor peer).getD (decide (peer ∈ metered)) := by
  cases action with
  | startMetering other =>
    by_cases hother : other = peer
    · simp [Action.applyMetering, Action.meteringFor, hother]
    · simp [Action.applyMetering, Action.meteringFor, hother, Ne.symm hother]
  | stopMetering other =>
    by_cases hother : other = peer
    · simp [Action.applyMetering, Action.meteringFor, hother]
    · simp [Action.applyMetering, Action.meteringFor, hother, Ne.symm hother]
  | _ => rfl

/-- Whether a peer is metered is the last decision about it, or what was so before. -/
theorem mem_foldl_applyMetering (peer : PeerId) (actions : List Action)
    (metered : Finset PeerId) :
    decide (peer ∈ actions.foldl Action.applyMetering metered) =
      (lastMetering peer actions).getD (decide (peer ∈ metered)) := by
  induction actions generalizing metered with
  | nil => rfl
  | cons action rest ih =>
    have hlast : lastMetering peer (action :: rest) =
        (lastMetering peer rest).or (action.meteringFor peer) := by
      rw [← List.singleton_append, lastMetering_append]
      congr 1
      unfold lastMetering
      cases hdecision : action.meteringFor peer <;> simp [hdecision]
    rw [List.foldl_cons, ih, mem_applyMetering, hlast]
    cases lastMetering peer rest <;> rfl

theorem mem_meteredAfter_iff (peer : PeerId) (actions : List Action) :
    peer ∈ meteredAfter actions ↔ lastMetering peer actions = some true := by
  have hmem := mem_foldl_applyMetering peer actions ∅
  rw [← decide_eq_true_iff (p := peer ∈ meteredAfter actions), meteredAfter, hmem]
  cases lastMetering peer actions <;> simp

/-- Other peers' actions decide nothing about `peer`. -/
theorem lastMetering_filter_about (peer : PeerId) (actions : List Action) :
    lastMetering peer (actions.filter (Action.about peer)) = lastMetering peer actions := by
  unfold lastMetering
  rw [List.filterMap_filter]
  congr 1
  refine List.filterMap_congr fun action _ ↦ ?_
  by_cases habout : Action.about peer action = true
  · rw [if_pos habout]
  · rw [if_neg habout]
    have hne : action.peer ≠ peer := fun heq ↦ habout (decide_eq_true heq)
    cases action with
    | startMetering other => exact (if_neg hne).symm
    | stopMetering other => exact (if_neg hne).symm
    | _ => rfl

/-! ### The one-peer machine -/

namespace Entry

/-- What a charged sample decides about metering: it stops it or decides nothing. -/
theorem lastMetering_chargeSample (cbor : Minicbor) (price : Price) (policy : MeteringPolicy)
    (peer : PeerId) (entry : PeerSession) (counters : Counters) (now : Millis) :
    lastMetering peer (entry.chargeSample cbor peer price policy counters now).2 =
      if entry.cut counters price policy now then some false else none := by
  have hsends (bytes : Bytes) (condition : Bool) :
      lastMetering peer (if condition then [Action.send peer bytes] else []) = none := by
    cases condition <;> rfl
  have hreport : lastMetering peer
      [Action.send peer (cbor.encodeMeteringReport (entry.usageReport counters now))] = none := rfl
  simp only [PeerSession.chargeSample]
  rw [lastMetering_append, lastMetering_append, hsends, hreport]
  by_cases hcut : entry.cut counters price policy now = true
  · rw [if_pos hcut, if_pos hcut, lastMetering_append, hsends]
    simp [Action.meteringFor]
  · rw [if_neg hcut, if_neg hcut]
    rfl

variable {cbor : Minicbor} {price : Price} {policy : MeteringPolicy} {peer : PeerId}

/-- A verdict against a peer that is tracked. -/
def Refused (entry : Option PeerSession) (event : PeerEvent) : Prop :=
  entry.isSome = true ∧ ∃ amount now, event = .verified amount false now

/-- What an event decides about access and metering: nothing; both alike; or it takes access alone,
from a peer that connects for the first time or whose token was refused. -/
theorem decisions_step (entry : Option PeerSession) (event : PeerEvent) :
    (lastAccess peer (step cbor price policy peer entry event).2 = none ∧
        lastMetering peer (step cbor price policy peer entry event).2 = none ∧
        ((step cbor price policy peer entry event).1 = none → entry = none) ∧
        ¬ Refused entry event) ∨
      (∃ level, lastAccess peer (step cbor price policy peer entry event).2 = some level ∧
        lastMetering peer (step cbor price policy peer entry event).2 =
          some level.allowsDelivery ∧ ¬ Refused entry event) ∨
      (lastAccess peer (step cbor price policy peer entry event).2 = some .none ∧
        lastMetering peer (step cbor price policy peer entry event).2 = none ∧
        (entry = none ∨ Refused entry event)) := by
  have hquiet (hother : ¬ Refused entry event)
      (hactions : (step cbor price policy peer entry event).2 = [])
      (htracked : (step cbor price policy peer entry event).1 = none → entry = none) :
      lastAccess peer (step cbor price policy peer entry event).2 = none ∧
        lastMetering peer (step cbor price policy peer entry event).2 = none ∧
        ((step cbor price policy peer entry event).1 = none → entry = none) ∧
        ¬ Refused entry event := by
    rw [hactions]
    exact ⟨rfl, rfl, htracked, hother⟩
  cases event with
  | connected =>
    cases entry with
    | none =>
      refine Or.inr (Or.inr ⟨?_, ?_, Or.inl rfl⟩)
      · simp [step, Action.accessFor]
      · simp [step, Action.meteringFor]
    | some entry => exact Or.inl (hquiet (by simp [Refused]) rfl (by simp [step]))
  | disconnected =>
    refine Or.inr (Or.inl ⟨.none, ?_, ?_, by simp [Refused]⟩)
    · simp [step, Action.accessFor]
    · simp [step, Action.meteringFor, AccessLevel.allowsDelivery]
  | token message =>
    cases entry with
    | none => exact Or.inl (hquiet (by simp [Refused]) rfl fun _ ↦ rfl)
    | some entry => exact Or.inl ⟨rfl, rfl, by simp [step], by simp [Refused]⟩
  | reject =>
    cases entry with
    | none => exact Or.inl (hquiet (by simp [Refused]) rfl fun _ ↦ rfl)
    | some entry =>
      simp only [step, getMut_some, PeerSession.receiveReject]
      by_cases hactive : entry.phase = .active
      · have hclosed : entry.phase ≠ .closed := by simp [hactive]
        rw [if_neg hclosed, if_pos hactive]
        refine Or.inr (Or.inl ⟨.none, ?_, ?_, by simp [Refused]⟩)
        · simp [Action.accessFor]
        · simp [Action.meteringFor, AccessLevel.allowsDelivery]
      · left
        rw [if_neg hactive]
        split_ifs <;> exact ⟨rfl, rfl, by simp, by simp [Refused]⟩
  | verified amount ok now =>
    cases entry with
    | none => exact Or.inl (hquiet (by simp [Refused]) rfl fun _ ↦ rfl)
    | some entry =>
      simp only [step, getMut_some, PeerSession.bootstrapVerified]
      cases ok with
      | false =>
        refine Or.inr (Or.inr ⟨?_, ?_, Or.inr ⟨rfl, amount, now, rfl⟩⟩)
        · simp [Action.accessFor]
        · simp [Action.meteringFor]
      | true =>
        refine Or.inr (Or.inl ⟨.active, ?_, ?_, by simp [Refused]⟩)
        · simp [Action.accessFor]
        · simp [Action.meteringFor, AccessLevel.allowsDelivery]
  | sample counters now =>
    cases entry with
    | none => exact Or.inl (hquiet (by simp [Refused]) rfl fun _ ↦ rfl)
    | some entry =>
      simp only [step, getMut_some, PeerSession.meterSample]
      by_cases hactive : entry.phase = .active
      · rw [if_pos hactive]
        cases hlast : entry.lastCounters with
        | none => exact Or.inl ⟨rfl, rfl, by simp, by simp [Refused]⟩
        | some last =>
          have haccess := lastAccess_chargeSample cbor price policy peer entry counters now
          have hmetering := lastMetering_chargeSample cbor price policy peer entry counters now
          by_cases hcut : entry.cut counters price policy now = true
          · rw [if_pos hcut] at haccess hmetering
            exact Or.inr (Or.inl ⟨.suspended, haccess, hmetering, by simp [Refused]⟩)
          · rw [if_neg hcut] at haccess hmetering
            exact Or.inl ⟨haccess, hmetering, by simp, by simp [Refused]⟩
      · rw [if_neg hactive]
        exact Or.inl ⟨rfl, rfl, by simp, by simp [Refused]⟩
  | idle => exact Or.inl (hquiet (by simp [Refused]) rfl id)
  | priceSheet sheet =>
    cases entry with
    | none => exact Or.inl (hquiet (by simp [Refused]) rfl fun _ ↦ rfl)
    | some entry => exact Or.inl (hquiet (by simp [Refused]) rfl (by simp [step]))
  | accept message =>
    cases entry with
    | none => exact Or.inl (hquiet (by simp [Refused]) rfl fun _ ↦ rfl)
    | some entry => exact Or.inl (hquiet (by simp [Refused]) rfl (by simp [step]))
  | report report =>
    cases entry with
    | none => exact Or.inl (hquiet (by simp [Refused]) rfl fun _ ↦ rfl)
    | some entry => exact Or.inl (hquiet (by simp [Refused]) rfl (by simp [step]))

/-- Metering agrees with access: the peer is metered exactly when it is let through. -/
def MeteringAgrees (peer : PeerId) (emitted : List Action) : Prop :=
  peer ∈ meteredAfter emitted ↔ LetThrough peer emitted

instance (peer : PeerId) (emitted : List Action) : Decidable (MeteringAgrees peer emitted) :=
  inferInstanceAs (Decidable (_ ↔ _))

theorem metered_append_of_none {first second : List Action}
    (hnone : lastMetering peer second = none) :
    peer ∈ meteredAfter (first ++ second) ↔ peer ∈ meteredAfter first := by
  rw [mem_meteredAfter_iff, mem_meteredAfter_iff, lastMetering_append, hnone, Option.none_or]

theorem metered_append_of_some {first second : List Action} {decision : Bool}
    (hsome : lastMetering peer second = some decision) :
    peer ∈ meteredAfter (first ++ second) ↔ decision = true := by
  rw [mem_meteredAfter_iff, lastMetering_append, hsome, Option.some_or, Option.some_inj]

/-- Assumes: metering agrees with access before an event, and an untracked peer is not let through.
Metering agrees after the event exactly unless the event refuses a peer that is let through; and an
untracked peer is still not let through. -/
theorem metering_step {entry : Option PeerSession} {earlier : List Action}
    (hagree : MeteringAgrees peer earlier) (huntracked : entry = none → ¬ LetThrough peer earlier)
    (event : PeerEvent) :
    (MeteringAgrees peer (earlier ++ (step cbor price policy peer entry event).2) ↔
        ¬ (Refused entry event ∧ LetThrough peer earlier)) ∧
      ((step cbor price policy peer entry event).1 = none →
        ¬ LetThrough peer (earlier ++ (step cbor price policy peer entry event).2)) := by
  unfold MeteringAgrees at hagree ⊢
  rcases @decisions_step cbor price policy peer entry event with
    ⟨haccess, hmetering, htracked, hother⟩ | ⟨level, haccess, hmetering, hother⟩ |
      ⟨haccess, hmetering, hcause⟩
  · rw [letThrough_append_of_none haccess, metered_append_of_none hmetering]
    refine ⟨iff_of_true hagree fun hboth ↦ hother hboth.1, fun hnone ↦ ?_⟩
    exact huntracked (htracked hnone)
  · rw [letThrough_append_of_some haccess, metered_append_of_some hmetering]
    refine ⟨iff_of_true Iff.rfl fun hboth ↦ hother hboth.1, fun hnone ↦ ?_⟩
    rcases @access_step cbor price policy peer entry event with
      ⟨hnothing, -⟩ | ⟨same, hsame, hlevel, -⟩
    · rw [haccess] at hnothing
      exact absurd hnothing (by simp)
    · rw [haccess] at hsame
      rw [Option.some.inj hsame, hlevel, hnone]
      exact active_none
  · have hblocked : AccessLevel.allowsDelivery .none = true ↔ False := by
      simp [AccessLevel.allowsDelivery]
    rw [letThrough_append_of_some haccess, metered_append_of_none hmetering, hagree, hblocked]
    refine ⟨?_, fun _ ↦ id⟩
    rcases hcause with hnone | hrefused
    · exact iff_of_true (iff_of_false (huntracked hnone) id) fun hboth ↦ huntracked hnone hboth.2
    · constructor
      · exact fun hneither hboth ↦ hneither.mp hboth.2
      · exact fun hnot ↦ iff_of_false (fun hlet ↦ hnot ⟨hrefused, hlet⟩) id

/-- Assumes: metering agrees with access before a run, and an untracked peer is not let through.
Metering agrees after every event of the run exactly when no event of it refuses the peer while it
is let through. -/
theorem metering_prefixes_iff (events : List PeerEvent) {entry : Option PeerSession}
    {earlier : List Action} (hagree : MeteringAgrees peer earlier)
    (huntracked : entry = none → ¬ LetThrough peer earlier) :
    (∀ before, before <+: events →
        MeteringAgrees peer (earlier ++ (machine cbor price policy peer).outputs entry before)) ↔
      ∀ before event after, events = before ++ event :: after →
        ¬ (Refused ((machine cbor price policy peer).final entry before) event ∧
          LetThrough peer (earlier ++ (machine cbor price policy peer).outputs entry before)) := by
  induction events generalizing entry earlier with
  | nil =>
    refine iff_of_true (fun before hbefore ↦ ?_) fun before event after hcut ↦ ?_
    · rw [List.prefix_nil.mp hbefore, Transducer.outputs_nil, List.append_nil]
      exact hagree
    · exact absurd hcut (by simp)
  | cons event rest ih =>
    obtain ⟨hstep, hnext⟩ := @metering_step cbor price policy peer entry earlier hagree huntracked
      event
    constructor
    · intro hall
      have hafter := hall [event] ⟨rest, rfl⟩
      rw [Transducer.outputs_cons, Transducer.outputs_nil, List.append_nil] at hafter
      have hlater := (ih hafter hnext).mp fun before hbefore ↦ by
        have hagain := hall (event :: before) (List.cons_prefix_cons.mpr ⟨rfl, hbefore⟩)
        rw [Transducer.outputs_cons, ← List.append_assoc] at hagain
        exact hagain
      intro before later after hcut
      cases before with
      | nil =>
        obtain ⟨rfl, -⟩ := List.cons_eq_cons.mp hcut
        rw [Transducer.outputs_nil, List.append_nil]
        exact hstep.mp hafter
      | cons first others =>
        obtain ⟨rfl, hrest⟩ := List.cons_eq_cons.mp hcut
        rw [Transducer.outputs_cons, ← List.append_assoc]
        exact hlater others later after hrest
    · intro hnever before hbefore
      have hfirst := hnever [] event rest rfl
      rw [Transducer.outputs_nil, List.append_nil] at hfirst
      have hafter := hstep.mpr hfirst
      cases before with
      | nil =>
        rw [Transducer.outputs_nil, List.append_nil]
        exact hagree
      | cons first others =>
        obtain ⟨rfl, hothers⟩ := List.cons_prefix_cons.mp hbefore
        rw [Transducer.outputs_cons, ← List.append_assoc]
        refine (ih hafter hnext).mpr (fun between later after hcut ↦ ?_) others hothers
        have hthere := hnever (first :: between) later after (by rw [hcut, List.cons_append])
        rw [Transducer.outputs_cons, ← List.append_assoc] at hthere
        exact hthere

end Entry

/-! ### The session -/

/-- A tracked peer's token is refused. -/
def RefusedPeer (peer : PeerId) (session : Session) (input : Event × Millis) : Prop :=
  (session.peerPhase peer).isSome = true ∧
    ∃ amount, input.1 = .bootstrapVerified peer amount false

theorem refusedPeer_iff (cbor : Minicbor) (peer : PeerId) (session : Session)
    (input : Event × Millis) :
    RefusedPeer peer session input ↔
      Entry.Refused session.peers[peer]? (PeerEvent.of cbor peer input) := by
  unfold RefusedPeer Entry.Refused Session.peerPhase
  rw [Option.isSome_map]
  refine and_congr_right fun _ ↦ ?_
  constructor
  · rintro ⟨amount, hevent⟩
    obtain ⟨event, now⟩ := input
    obtain rfl : event = .bootstrapVerified peer amount false := hevent
    exact ⟨amount, now, PeerEvent.of_bootstrapVerified cbor peer amount false now⟩
  · rintro ⟨amount, now, hseen⟩
    refine ⟨amount, ?_⟩
    rw [PeerEvent.of_eq_verified_iff.mp hseen]

/-- From a new session with any price and policy, for every run and every peer: the peer is metered
exactly when its last access decision lets it through, after every event, if and only if no event of
the run refuses a token of the peer while it is let through. -/
theorem meteringAgrees_iff (cbor : Minicbor) (price : Price) (policy : MeteringPolicy)
    (peer : PeerId) (events : List (Event × Millis)) :
    (∀ before, before <+: events →
        Entry.MeteringAgrees peer
          ((Session.machine cbor).outputs (Session.start price policy) before)) ↔
      ∀ before input after, events = before ++ input :: after →
        ¬ (RefusedPeer peer ((Session.machine cbor).final (Session.start price policy) before)
            input ∧
          LetThrough peer
            ((Session.machine cbor).outputs (Session.start price policy) before)) := by
  have hsim := entrySimulation cbor price policy peer
  have hstart : HasEntry price policy peer (Session.start price policy) none :=
    ⟨rfl, rfl, by simp [Session.start, Session.new, Session.setPrice, Session.setMeteringPolicy]⟩
  -- What the host has recorded of the peer comes from the actions that name it.
  have hlet (before : List (Event × Millis)) :
      LetThrough peer ((Session.machine cbor).outputs (Session.start price policy) before) ↔
        LetThrough peer ([] ++ (Entry.machine cbor price policy peer).outputs none
          (before.map (PeerEvent.of cbor peer))) := by
    rw [List.nil_append, ← hsim.outputs hstart before, LetThrough, LetThrough,
      lastAccess_filter_about]
  have hmetered (before : List (Event × Millis)) :
      peer ∈ meteredAfter ((Session.machine cbor).outputs (Session.start price policy) before) ↔
        peer ∈ meteredAfter ([] ++ (Entry.machine cbor price policy peer).outputs none
          (before.map (PeerEvent.of cbor peer))) := by
    rw [List.nil_append, ← hsim.outputs hstart before, mem_meteredAfter_iff, mem_meteredAfter_iff,
      lastMetering_filter_about]
  have hview (before : List (Event × Millis)) (input : Event × Millis) :
      RefusedPeer peer ((Session.machine cbor).final (Session.start price policy) before) input ↔
        Entry.Refused ((Entry.machine cbor price policy peer).final none
          (before.map (PeerEvent.of cbor peer))) (PeerEvent.of cbor peer input) := by
    rw [refusedPeer_iff cbor, (hsim.final hstart before).2.2]
  have hnothing : Entry.MeteringAgrees peer [] := by
    simp [Entry.MeteringAgrees, meteredAfter, LetThrough]
  have hunlet : (none : Option PeerSession) = none → ¬ LetThrough peer [] := by
    simp [LetThrough]
  have hentry := @Entry.metering_prefixes_iff cbor price policy peer
    (events.map (PeerEvent.of cbor peer)) none [] hnothing hunlet
  constructor
  · intro hall before input after hcut
    rw [hview, hlet]
    refine hentry.mp (fun seen hseen ↦ ?_) _ _ (after.map (PeerEvent.of cbor peer)) ?_
    · obtain ⟨taken, htaken, rfl⟩ := List.prefix_map_iff.mp hseen
      rw [Entry.MeteringAgrees, ← hmetered, ← hlet]
      exact hall taken htaken
    · rw [hcut, List.map_append, List.map_cons]
  · intro hnever before hbefore
    rw [Entry.MeteringAgrees, hmetered, hlet]
    refine hentry.mpr (fun seen event after hcut ↦ ?_) _ (hbefore.map _)
    obtain ⟨first, second, rfl, rfl, hsecond⟩ := List.map_eq_append_iff.mp hcut
    obtain ⟨input, rest, rfl, rfl, -⟩ := List.map_eq_cons_iff.mp hsecond
    rw [← hview, ← hlet]
    exact hnever first input rest rfl

/-- A metered peer tops up and the mint refuses the token: its access is taken, its metering goes
on. -/
theorem meteringAgrees_fails_on_refusedTopUp :
    ¬ Entry.MeteringAgrees samplePeer
      ((Session.machine Minicbor.derived).outputs (Session.start ⟨0, 1⟩ MeteringPolicy.default)
        [(.peerConnected samplePeer, 0), (.bootstrapVerified samplePeer 5000 true, 1),
          (.messageReceived samplePeer sampleToken, 2),
          (.bootstrapVerified samplePeer 0 false, 3)]) := by
  decide +kernel

end Tollgate
