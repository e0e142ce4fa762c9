import Tollgate.Core.AccessAgreement

/-!
# Peers do not affect each other

One map holds every peer, and an event reads and writes one entry of it. Hence events of different
peers commute, and a peer cannot tell from its own entry and its own actions what other peers did:
along any interleaving of the peers' histories each of them gets what its own history alone would
give it.
-/

set_option autoImplicit false
set_option relaxedAutoImplicit false

namespace Tollgate

open Std

/-- Two sessions that a peer cannot tell apart: the same entry for it and the same terms. -/
structure SameFor (peer : PeerId) (first second : Session) : Prop where
  entry : first.peers[peer]? = second.peers[peer]?
  price : first.price = second.price
  policy : first.policy = second.policy

variable {cbor : Minicbor} {peer other : PeerId}

theorem SameFor.refl (session : Session) : SameFor peer session session := ⟨rfl, rfl, rfl⟩

theorem SameFor.symm {first second : Session} (hsame : SameFor peer first second) :
    SameFor peer second first :=
  ⟨hsame.entry.symm, hsame.price.symm, hsame.policy.symm⟩

/-- Assumes: two sessions that look the same to the peer of an event. They still do after the event,
and answer it with the same actions. -/
theorem SameFor.handle {first second : Session} (hsame : SameFor peer first second) {event : Event}
    (hpeer : event.peer = some peer) (now : Millis) :
    SameFor peer (first.handle cbor event now).1 (second.handle cbor event now).1 ∧
      (first.handle cbor event now).2 = (second.handle cbor event now).2 := by
  have hfirst := first.handle_self cbor peer now hpeer
  have hsecond := second.handle_self cbor peer now hpeer
  rw [hsame.entry, hsame.price, hsame.policy] at hfirst
  obtain ⟨-, hprice, hpolicy⟩ := first.handle_frame cbor event now
  obtain ⟨-, hprice', hpolicy'⟩ := second.handle_frame cbor event now
  refine ⟨⟨hfirst.1.trans hsecond.1.symm, ?_, ?_⟩, hfirst.2.trans hsecond.2.symm⟩
  · rw [hprice, hprice', hsame.price]
  · rw [hpolicy, hpolicy', hsame.policy]

/-- An event of another peer makes no difference to a peer. -/
theorem sameFor_handle_other {event : Event} (hpeer : event.peer ≠ some peer) (session : Session)
    (now : Millis) : SameFor peer (session.handle cbor event now).1 session := by
  obtain ⟨hpeers, hprice, hpolicy⟩ := session.handle_frame cbor event now
  exact ⟨hpeers peer hpeer, hprice, hpolicy⟩

theorem SameFor.trans {first second third : Session} (hfirst : SameFor peer first second)
    (hsecond : SameFor peer second third) : SameFor peer first third :=
  ⟨hfirst.entry.trans hsecond.entry, hfirst.price.trans hsecond.price,
    hfirst.policy.trans hsecond.policy⟩

/-- Sessions that look the same to every peer are the same. -/
theorem eq_of_sameFor {first second : Session} (hsame : ∀ peer, SameFor peer first second) :
    first = second := by
  have hany := hsame (Vector.replicate 33 0)
  refine Session.ext (ExtTreeMap.ext_getElem? fun peer ↦ (hsame peer).entry) hany.price hany.policy

/-! ### Two events -/

/-- Assumes: events of two different peers. Either order gives the same session, and each event gets
the same actions in both orders. -/
theorem handle_comm {first second : Event} (hfirst : first.peer = some peer)
    (hsecond : second.peer = some other) (hne : peer ≠ other) (session : Session)
    (firstTime secondTime : Millis) :
    let firstDone := session.handle cbor first firstTime
    let secondDone := session.handle cbor second secondTime
    (firstDone.1.handle cbor second secondTime).1 = (secondDone.1.handle cbor first firstTime).1 ∧
      (firstDone.1.handle cbor second secondTime).2 = secondDone.2 ∧
      (secondDone.1.handle cbor first firstTime).2 = firstDone.2 := by
  intro firstDone secondDone
  have hfirstOther : first.peer ≠ some other := by
    rw [hfirst]
    exact fun heq ↦ hne (Option.some.inj heq)
  have hsecondOther : second.peer ≠ some peer := by
    rw [hsecond]
    exact fun heq ↦ hne (Option.some.inj heq).symm
  have hseen := @sameFor_handle_other cbor other first hfirstOther session firstTime
  have hseen' := @sameFor_handle_other cbor peer second hsecondOther session secondTime
  refine ⟨eq_of_sameFor fun third ↦ ?_, (hseen.handle hsecond secondTime).2,
    (hseen'.handle hfirst firstTime).2⟩
  by_cases hthird : third = peer
  · -- To the first peer, the second event is no event at all.
    subst hthird
    exact (sameFor_handle_other hsecondOther _ secondTime).trans
      (hseen'.handle hfirst firstTime).1.symm
  · by_cases hthird' : third = other
    · subst hthird'
      exact (hseen.handle hsecond secondTime).1.trans
        (sameFor_handle_other hfirstOther _ firstTime).symm
    · have hneither : first.peer ≠ some third := by
        rw [hfirst]
        exact fun heq ↦ hthird (Option.some.inj heq).symm
      have hneither' : second.peer ≠ some third := by
        rw [hsecond]
        exact fun heq ↦ hthird' (Option.some.inj heq).symm
      exact ((sameFor_handle_other hneither' _ secondTime).trans
        (sameFor_handle_other hneither _ firstTime)).trans
          ((sameFor_handle_other hneither _ firstTime).trans
            (sameFor_handle_other hneither' _ secondTime)).symm

/-! ### Any number of peers -/

/-- The events of a run that are about `peer`. -/
def eventsOf (peer : PeerId) (events : List (Event × Millis)) : List (Event × Millis) :=
  events.filter fun input ↦ decide (input.1.peer = some peer)

/-- A run is an interleaving of the peers' histories: each peer's events occur in it in their
order. -/
def Interleaves (history : PeerId → List (Event × Millis)) (events : List (Event × Millis)) :
    Prop :=
  ∀ peer, eventsOf peer events = history peer

/-- Every event of a run with the actions it was answered with. -/
def answers (cbor : Minicbor) (session : Session) (events : List (Event × Millis)) :
    List ((Event × Millis) × List Action) :=
  (Session.machine cbor).observe
    (fun session input ↦ [(input, (session.handle cbor input.1 input.2).2)]) session events

/-- Assumes: two sessions that look the same to `peer`. At the end of a run from the one and of the
peer's own part of it from the other they still do, and the peer got the same answers. -/
theorem SameFor.run {first second : Session} (hsame : SameFor peer first second)
    (events : List (Event × Millis)) :
    SameFor peer ((Session.machine cbor).final first events)
        ((Session.machine cbor).final second (eventsOf peer events)) ∧
      (answers cbor first events).filter (fun answer ↦ decide (answer.1.1.peer = some peer)) =
        answers cbor second (eventsOf peer events) := by
  induction events generalizing first second with
  | nil => exact ⟨hsame, rfl⟩
  | cons input rest ih =>
    by_cases hpeer : input.1.peer = some peer
    · obtain ⟨hnext, hactions⟩ := @SameFor.handle cbor _ _ _ hsame _ hpeer input.2
      obtain ⟨hend, hanswers⟩ := ih hnext
      have hkept : eventsOf peer (input :: rest) = input :: eventsOf peer rest := by
        rw [eventsOf, List.filter_cons_of_pos (by simpa using hpeer)]
        rfl
      rw [hkept]
      refine ⟨hend, ?_⟩
      simp only [answers, Transducer.observe_cons, List.singleton_append] at hanswers ⊢
      rw [List.filter_cons_of_pos (by simpa using hpeer), hactions]
      exact congrArg _ hanswers
    · obtain ⟨hend, hanswers⟩ :=
        ih ((@sameFor_handle_other cbor _ _ hpeer first input.2).trans hsame)
      have hdropped : eventsOf peer (input :: rest) = eventsOf peer rest := by
        rw [eventsOf, List.filter_cons_of_neg (by simpa using hpeer)]
        rfl
      rw [hdropped]
      refine ⟨hend, ?_⟩
      simp only [answers, Transducer.observe_cons, List.singleton_append] at hanswers ⊢
      rw [List.filter_cons_of_neg (by simpa using hpeer)]
      exact hanswers

/-- Peer isolation. An event of a peer emits actions that name the peer and leaves every other
entry as it is; events of two peers commute, with the same actions for each; and along every
interleaving of any peers' histories each peer ends with the entry, and gets the answers, that its
own history alone gives it. -/
theorem peers_isolated (cbor : Minicbor) :
    (∀ (session : Session) (event : Event) (now : Millis) (peer : PeerId),
      event.peer = some peer →
        (∀ action ∈ (session.handle cbor event now).2, action.peer = peer) ∧
        ∀ other, other ≠ peer →
          (session.handle cbor event now).1.peers[other]? = session.peers[other]?) ∧
    (∀ (session : Session) (first second : Event) (firstTime secondTime : Millis)
        (peer other : PeerId), first.peer = some peer → second.peer = some other → peer ≠ other →
      let firstDone := session.handle cbor first firstTime
      let secondDone := session.handle cbor second secondTime
      (firstDone.1.handle cbor second secondTime).1 =
          (secondDone.1.handle cbor first firstTime).1 ∧
        (firstDone.1.handle cbor second secondTime).2 = secondDone.2 ∧
        (secondDone.1.handle cbor first firstTime).2 = firstDone.2) ∧
    ∀ (session : Session) (history : PeerId → List (Event × Millis))
        (events : List (Event × Millis)), Interleaves history events → ∀ peer,
      ((Session.machine cbor).final session events).peers[peer]? =
          ((Session.machine cbor).final session (history peer)).peers[peer]? ∧
        (answers cbor session events).filter (fun answer ↦ decide (answer.1.1.peer = some peer)) =
          answers cbor session (history peer) := by
  refine ⟨fun session event now peer hpeer ↦ ⟨fun action haction ↦ ?_, fun other hother ↦ ?_⟩,
    fun session first second firstTime secondTime peer other hfirst hsecond hne ↦
      handle_comm hfirst hsecond hne session firstTime secondTime,
    fun session history events hinterleaves peer ↦ ?_⟩
  · have hname := session.handle_action_peer cbor haction
    rw [hpeer] at hname
    exact (Option.some.inj hname).symm
  · refine (session.handle_frame cbor event now).1 other fun heq ↦ hother ?_
    rw [hpeer] at heq
    exact (Option.some.inj heq).symm
  · have hrefl : SameFor peer session session := SameFor.refl session
    obtain ⟨hend, hanswers⟩ := hrefl.run events
    rw [hinterleaves peer] at hend hanswers
    exact ⟨hend.entry, hanswers⟩

/-- A second key for concrete runs. -/
def secondPeer : PeerId := Vector.replicate 33 3

/-- One peer pays and is metered while another connects and leaves: each gets what it would get
alone, and the payment and the departure commute. -/
theorem peers_isolated_of_two :
    let session := Session.start ⟨0, 1⟩ MeteringPolicy.default
    let events : List (Event × Millis) :=
      [(.peerConnected samplePeer, 0), (.peerConnected secondPeer, 1),
        (.bootstrapVerified samplePeer 5000 true, 2), (.peerDisconnected secondPeer, 3),
        (.meterSample samplePeer ⟨0, 0⟩, 4), (.meterSample samplePeer ⟨10, 0⟩, 5)]
    (∀ other, other ≠ samplePeer →
      (session.handle Minicbor.derived (.peerConnected samplePeer) 0).1.peers[other]? =
        session.peers[other]?) ∧
    ((session.handle Minicbor.derived (.peerConnected samplePeer) 0).1.handle Minicbor.derived
        (.peerDisconnected secondPeer) 3).2 =
      (session.handle Minicbor.derived (.peerDisconnected secondPeer) 3).2 ∧
    ((Session.machine Minicbor.derived).final session events).peers[samplePeer]? =
      ((Session.machine Minicbor.derived).final session
        (eventsOf samplePeer events)).peers[samplePeer]? := by
  intro session events
  obtain ⟨hframe, hcomm, hrun⟩ := peers_isolated Minicbor.derived
  refine ⟨(hframe session (.peerConnected samplePeer) 0 samplePeer rfl).2, ?_, ?_⟩
  · exact (hcomm session (.peerConnected samplePeer) (.peerDisconnected secondPeer) 0 3 samplePeer
      secondPeer rfl rfl (by decide +kernel)).2.1
  · exact (hrun session (fun peer ↦ eventsOf peer events) events (fun _ ↦ rfl) samplePeer).1

end Tollgate
