import Tollgate.Net.Interleaving

/-!
# Access as it is decided

`Books` follow the decisions in their order: what is enforced when each is carried out in its turn,
and whom the last decision lets through. A peer whose next token is at the wallet is let through
without being active, so this is not read off the session.

A decision `Keeps` the books in order when it takes access where nobody else is let through, gives
it to a peer with an address, and moves a peer that is let through only to a paid address and only
from one that it does not leave open. `Follows` is what that keeps true of the books and the
session, and `effects_follow_decisions` is the outcome: as long as no effect overtakes a conflicting
one, the paid and the metered set are those of the decisions, and with decisions that keep the books
in order exactly the active peers are let through.
-/

set_option autoImplicit false
set_option relaxedAutoImplicit false

namespace Tollgate

open Std Deferred

/-- Every paid address is the current address of an active peer, and every active peer has an
address that is paid, and is metered. -/
structure Driver.Settled (driver : Driver) : Prop where
  sound : driver.FirewallSound
  served : ∀ peer, driver.session.peerPhase peer = some .active →
    ∃ ip, driver.peerIp[peer]? = some ip ∧ ip ∈ driver.paid
  metered : ∀ peer, driver.session.peerPhase peer = some .active → peer ∈ driver.metered

/-- Nobody is active on a new driver, and nothing is paid. -/
theorem Driver.settled_new (price : Price) (announce priceSheet : Bytes) :
    (Driver.new price announce priceSheet).Settled where
  sound := by simp [FirewallSound, new]
  served := by simp [new, Session.peerPhase, Session.new, Session.setPrice]
  metered := by simp [new, Session.peerPhase, Session.new, Session.setPrice]

/-- What is enforced when the decisions are carried out in their order, and the peers that the last
decision lets through. -/
@[ext] structure Books where
  enforced : Enforced
  granted : Finset PeerId

namespace Books

/-- Carry an effect out, and note what it decides about access. -/
def carry (books : Books) (effect : Effect) : Books where
  enforced := books.enforced.carry effect
  granted :=
    match effect.change with
    | .access peer allowed => Enforced.toggle books.granted peer allowed
    | .metering _ _ | .address _ _ | .nothing => books.granted

/-- The books over effects in the order in which they are decided. -/
def machine : Transducer Books Effect Empty where
  step books effect := (books.carry effect, [])

/-- Another peer that is let through has the address of `peer`. -/
def Shared (books : Books) (peer : PeerId) : Prop :=
  ∃ other ∈ books.granted, other ≠ peer ∧ (books.enforced.address peer).isSome = true ∧
    books.enforced.address other = books.enforced.address peer

instance (books : Books) (peer : PeerId) : Decidable (books.Shared peer) :=
  inferInstanceAs (Decidable (∃ _ ∈ books.granted, _))

/-- The effect keeps the books in order: it lets a peer through that has an address, or takes access
at an address where nobody else is let through; and if it moves a peer that is let through, then to
a paid address, and from one where somebody else still is. -/
def Keeps (books : Books) (effect : Effect) : Prop :=
  match effect.change with
  | .access peer true => (books.enforced.address peer).isSome = true
  | .access peer false => ¬ books.Shared peer
  | .address peer (some ip) => peer ∈ books.granted → ip ∈ books.enforced.paid ∧
      (books.enforced.address peer = some ip ∨ books.Shared peer)
  | .address _ none | .metering _ _ | .nothing => True

instance (books : Books) : DecidablePred books.Keeps := by
  intro effect
  unfold Keeps
  split <;> infer_instance

/-! ### The books as a gate -/

/-- The books as a gate: peers at their addresses, those let through, and the paid addresses. -/
def gate (books : Books) : Gate PeerId IpAddr where
  address := books.enforced.address
  active peer := peer ∈ books.granted
  opened := {ip | ip ∈ books.enforced.paid}

variable {books : Books}

theorem shared_iff (peer : PeerId) : books.gate.Shared peer ↔ books.Shared peer := by
  constructor
  · rintro ⟨other, place, hne, hgranted, hother, hpeer⟩
    have hplace : books.enforced.address peer = some place := hpeer
    refine ⟨other, hgranted, hne, by rw [hplace]; rfl, ?_⟩
    rw [hplace]
    exact hother
  · rintro ⟨other, hgranted, hne, hsome, hsame⟩
    obtain ⟨place, hplace⟩ := Option.isSome_iff_exists.mp hsome
    exact ⟨other, place, hne, hgranted, hsame.trans hplace, hplace⟩

theorem mem_toggle {α : Type*} [DecidableEq α] (set : Finset α) (member other : α) (on : Bool) :
    other ∈ Enforced.toggle set member on ↔
      (other = member ∧ on = true) ∨ (other ≠ member ∧ other ∈ set) := by
  unfold Enforced.toggle
  cases on with
  | true =>
    simp only [if_true, Finset.mem_insert]
    tauto
  | false => simp [Finset.mem_erase]

/-- A decision about access is one of the gate. -/
theorem gate_access {effect : Effect} {peer : PeerId} {allowed : Bool}
    (hchange : effect.change = .access peer allowed) :
    (books.carry effect).gate = books.gate.decide peer allowed := by
  have haddress : (books.carry effect).enforced.address = books.enforced.address := by
    simp only [carry, Enforced.carry, hchange, Enforced.after]
    split <;> rfl
  refine Gate.ext haddress ?_ ?_
  · funext other
    refine propext ?_
    show other ∈ (books.carry effect).granted ↔ _
    simp only [carry, hchange, mem_toggle]
    by_cases hother : other = peer
    · rw [hother, Gate.active_decide_self]
      simp
    · rw [Gate.active_decide_of_ne hother]
      simp [hother, gate]
  · ext ip
    show ip ∈ (books.carry effect).enforced.paid ↔ _
    simp only [carry, Enforced.carry, hchange, Enforced.after]
    cases hplace : books.enforced.address peer with
    | none => simp [Gate.decide, gate, hplace]
    | some place =>
      simp only [mem_toggle, Gate.decide, gate, hplace, Set.mem_ofPred_eq, ne_eq,
        Option.some.injEq, eq_comm]

theorem gate_address {effect : Effect} {peer : PeerId} {ip : IpAddr}
    (hchange : effect.change = .address peer (some ip)) :
    (books.carry effect).gate = books.gate.move peer ip := by
  simp only [carry, Enforced.carry, hchange, Enforced.after]
  rfl

theorem gate_forget {effect : Effect} {peer : PeerId}
    (hchange : effect.change = .address peer none) :
    (books.carry effect).gate = books.gate.forget peer := by
  simp only [carry, Enforced.carry, hchange, Enforced.after]
  rfl

theorem gate_metering {effect : Effect} {peer : PeerId} {on : Bool}
    (hchange : effect.change = .metering peer on) : (books.carry effect).gate = books.gate := by
  simp only [carry, Enforced.carry, hchange, Enforced.after]
  rfl

theorem carry_nothing {effect : Effect} (hchange : effect.change = .nothing) :
    books.carry effect = books := by
  simp only [carry, Enforced.carry, hchange, Enforced.after]

/-- Exactly the addresses of the peers that are let through are paid, and each of these has one. -/
structure Agrees (books : Books) : Prop where
  sound : books.gate.Sound
  complete : books.gate.Complete
  located : ∀ peer ∈ books.granted, (books.enforced.address peer).isSome = true

/-- Assumes: an effect that keeps the books in order, and forgets nobody who is let through. -/
theorem Agrees.carry (hagrees : books.Agrees) {effect : Effect} (hkeeps : books.Keeps effect)
    (hforgets : ∀ peer, effect.change = .address peer none → peer ∉ books.granted) :
    (books.carry effect).Agrees := by
  unfold Keeps at hkeeps
  cases hchange : effect.change with
  | access peer allowed =>
    rw [hchange] at hkeeps
    have hgate : (books.carry effect).gate = books.gate.decide peer allowed := gate_access hchange
    have hlocated : ∀ other ∈ (books.carry effect).granted,
        (books.enforced.address other).isSome = true := by
      intro other hother
      simp only [Books.carry, hchange, mem_toggle] at hother
      rcases hother with ⟨rfl, rfl⟩ | ⟨-, hgranted⟩
      · exact hkeeps
      · exact hagrees.located other hgranted
    refine ⟨?_, ?_, fun other hother ↦ ?_⟩
    · rw [hgate]
      exact hagrees.sound.decide allowed
    · rw [hgate]
      cases allowed with
      | true => exact hagrees.complete.allow
      | false =>
        rw [hagrees.complete.deny_iff, shared_iff]
        exact hkeeps
    · have haddress : (books.carry effect).enforced.address = books.enforced.address :=
        congrArg Gate.address hgate
      rw [haddress]
      exact hlocated other hother
  | address peer ip =>
    have hgranted : (books.carry effect).granted = books.granted := by
      simp only [Books.carry, hchange]
    have haddress : (books.carry effect).enforced.address =
        Function.update books.enforced.address peer ip := by
      simp only [Books.carry, Enforced.carry, hchange, Enforced.after]
    cases ip with
    | some ip =>
      rw [hchange] at hkeeps
      refine ⟨?_, ?_, fun other hother ↦ ?_⟩
      · rw [gate_address hchange, hagrees.sound.move_iff]
        rintro ⟨hactive, hunshared, old, -, hold, hne⟩
        rcases (hkeeps hactive).2 with hstays | hshared
        · exact hne (Option.some.inj (hold.symm.trans hstays))
        · exact hunshared ((shared_iff peer).mpr hshared)
      · rw [gate_address hchange, hagrees.complete.move_iff]
        exact fun hactive ↦ (hkeeps hactive).1
      · rw [hgranted] at hother
        rw [haddress]
        by_cases hpeer : other = peer
        · rw [hpeer, Function.update_self]
          rfl
        · rw [Function.update_of_ne hpeer]
          exact hagrees.located other hother
    | none =>
      have habsent : ¬ books.gate.active peer := hforgets peer hchange
      refine ⟨?_, ?_, fun other hother ↦ ?_⟩
      · rw [gate_forget hchange]
        exact hagrees.sound.forget habsent
      · rw [gate_forget hchange, Gate.complete_forget_iff habsent]
        exact hagrees.complete
      · rw [hgranted] at hother
        have hpeer : other ≠ peer := by
          rintro rfl
          exact habsent hother
        rw [haddress, Function.update_of_ne hpeer]
        exact hagrees.located other hother
  | metering peer on =>
    have hgate : (books.carry effect).gate = books.gate := gate_metering hchange
    have hgranted : (books.carry effect).granted = books.granted := by
      simp only [Books.carry, hchange]
    refine ⟨hgate ▸ hagrees.sound, hgate ▸ hagrees.complete, fun other hother ↦ ?_⟩
    have haddress : (books.carry effect).enforced.address = books.enforced.address :=
      congrArg Gate.address hgate
    rw [haddress]
    exact hagrees.located other (hgranted ▸ hother)
  | nothing =>
    rw [carry_nothing hchange]
    exact hagrees

/-- Assumes: effects that keep the books in order and forget nobody. -/
theorem Agrees.run (hagrees : books.Agrees) {effects : List Effect}
    (hkeeps : machine.Along Keeps books effects)
    (hforgets : ∀ effect ∈ effects, ∀ peer, effect.change ≠ .address peer none) :
    (machine.final books effects).Agrees := by
  induction effects generalizing books with
  | nil => exact hagrees
  | cons effect rest ih =>
    refine ih ?_ hkeeps.2 fun later hlater ↦ hforgets later (List.mem_cons_of_mem _ hlater)
    exact hagrees.carry hkeeps.1 fun peer hchange ↦
      absurd hchange (hforgets effect List.mem_cons_self peer)

/-- What the books enforce is what the effects do to what is enforced. -/
theorem enforced_final (effects : List Effect) :
    (machine.final books effects).enforced = carryAll Enforced.carry books.enforced effects := by
  induction effects generalizing books with
  | nil => rfl
  | cons effect rest ih => exact ih

/-! ### The books after the actions of an event -/

/-- The peers that are let through after a list of actions: the last decision about each, or what
was so before. -/
theorem mem_granted_actions (actions : List Action) (peer : PeerId) :
    peer ∈ (machine.final books (actions.map .execute)).granted ↔
      (lastAccess peer actions).elim (peer ∈ books.granted) fun level ↦
        level.allowsDelivery = true := by
  induction actions generalizing books with
  | nil => rfl
  | cons action rest ih =>
    rw [List.map_cons, Transducer.final_cons, ih, lastAccess_cons]
    cases lastAccess peer rest with
    | some level => rfl
    | none =>
      show peer ∈ (books.carry (.execute action)).granted ↔ _
      cases action with
      | setAccess other level =>
        simp only [carry, Effect.change, mem_toggle, Action.accessFor, Option.none_or]
        by_cases hother : other = peer
        · simp [hother]
        · simp [hother, Ne.symm hother]
      | _ => rfl

/-- The peers that are metered after a list of actions. -/
theorem mem_metered_actions (actions : List Action) (peer : PeerId) :
    peer ∈ (machine.final books (actions.map .execute)).enforced.metered ↔
      (lastMetering peer actions).elim (peer ∈ books.enforced.metered) (· = true) := by
  induction actions generalizing books with
  | nil => rfl
  | cons action rest ih =>
    rw [List.map_cons, Transducer.final_cons, ih, lastMetering_cons]
    cases lastMetering peer rest with
    | some on => rfl
    | none =>
      show peer ∈ (books.carry (.execute action)).enforced.metered ↔ _
      cases action with
      | setAccess other level =>
        simp only [carry, Enforced.carry, Effect.change, Enforced.after]
        split <;> rfl
      | startMetering other =>
        simp only [carry, Enforced.carry, Effect.change, Enforced.after, mem_toggle,
          Action.meteringFor, Option.none_or]
        by_cases hother : other = peer
        · simp [hother]
        · simp [hother, Ne.symm hother]
      | stopMetering other =>
        simp only [carry, Enforced.carry, Effect.change, Enforced.after, mem_toggle,
          Action.meteringFor, Option.none_or]
        by_cases hother : other = peer
        · simp [hother]
        · simp [hother, Ne.symm hother]
      | _ => rfl

/-- Actions about other peers decide nothing about a peer. -/
theorem decisions_of_ne {peer : PeerId} {actions : List Action}
    (hother : ∀ action ∈ actions, action.peer ≠ peer) :
    lastAccess peer actions = none ∧ lastMetering peer actions = none := by
  have hnone : actions.filter (Action.about peer) = [] :=
    List.filter_eq_nil_iff.mpr fun action haction ↦ by
      simpa [Action.about] using hother action haction
  constructor
  · rw [← lastAccess_filter_about, hnone, lastAccess_nil]
  · rw [← lastMetering_filter_about, hnone, lastMetering_nil]

/-! ### The books and the session -/

/-- The books follow the session: exactly the paid addresses are those of the peers let through, an
active peer is let through, a peer that is let through is tracked and metered, and it is active or
waits for a verdict. -/
structure Follows (session : Session) (waits : PeerId → Prop) (books : Books) : Prop where
  agrees : books.Agrees
  active : ∀ peer, session.peerPhase peer = some .active → peer ∈ books.granted
  granted : ∀ peer ∈ books.granted, (session.peerPhase peer).isSome = true ∧
    (session.peerPhase peer = some .active ∨ waits peer)
  metered : ∀ peer ∈ books.granted, peer ∈ books.enforced.metered

section Handle

variable {cbor : Minicbor} {session : Session} {waits : PeerId → Prop} {event : Event}
  {now : Millis}

/-- An event as a peer sees it, and what it decides about the peer. -/
theorem handle_peer (peer : PeerId) :
    (session.handle cbor event now).1.peers[peer]? =
        (Entry.step cbor session.price session.policy peer session.peers[peer]?
          (PeerEvent.of cbor peer (event, now))).1 ∧
      lastAccess peer (session.handle cbor event now).2 =
        lastAccess peer (Entry.step cbor session.price session.policy peer session.peers[peer]?
          (PeerEvent.of cbor peer (event, now))).2 ∧
      lastMetering peer (session.handle cbor event now).2 =
        lastMetering peer (Entry.step cbor session.price session.policy peer session.peers[peer]?
          (PeerEvent.of cbor peer (event, now))).2 := by
  refine ⟨session.getElem?_handle cbor peer event now, ?_⟩
  by_cases hpeer : event.peer = some peer
  · rw [(session.handle_self cbor peer now hpeer).2]
    exact ⟨rfl, rfl⟩
  · rw [PeerEvent.of_ne hpeer]
    refine decisions_of_ne fun action haction heq ↦ hpeer ?_
    rw [session.handle_action_peer cbor haction, heq]

/-- A token of a tracked peer is handed to the wallet. -/
theorem verify_of_token {peer : PeerId} {message : BootstrapToken}
    (htracked : (session.peerPhase peer).isSome = true)
    (htoken : PeerEvent.of cbor peer (event, now) = .token message) :
    .verifyBootstrapToken peer message.token ∈ (session.handle cbor event now).2 := by
  have hpeer : event.peer = some peer := by
    by_contra hne
    rw [PeerEvent.of_ne hne] at htoken
    exact absurd htoken (by simp)
  rw [Session.peerPhase, Option.isSome_map] at htracked
  obtain ⟨entry, hentry⟩ := Option.isSome_iff_exists.mp htracked
  rw [(session.handle_self cbor peer now hpeer).2, htoken, hentry]
  exact List.mem_cons_self

/-- Assumes: peers that wait on unless the event is their verdict, and a peer whose token is handed
over that waits. A peer that is let through after an event is tracked, and active or waits. -/
theorem Follows.granted_handle (hfollows : books.Follows session waits) {waiting : PeerId → Prop}
    (hwaits : ∀ peer, waits peer → (∀ amount ok, event ≠ .bootstrapVerified peer amount ok) →
      waiting peer)
    (hverifies : ∀ peer token,
      .verifyBootstrapToken peer token ∈ (session.handle cbor event now).2 → waiting peer)
    {peer : PeerId} (hgranted : peer ∈
      (machine.final books ((session.handle cbor event now).2.map .execute)).granted) :
    ((session.handle cbor event now).1.peerPhase peer).isSome = true ∧
      ((session.handle cbor event now).1.peerPhase peer = some .active ∨ waiting peer) := by
  obtain ⟨hentry, haccess, -⟩ := @handle_peer cbor session event now peer
  rw [mem_granted_actions, haccess] at hgranted
  rw [peerPhase_eq_active_iff, Session.peerPhase, Option.isSome_map, hentry]
  rcases @Entry.access_step cbor session.price session.policy peer session.peers[peer]?
      (PeerEvent.of cbor peer (event, now)) with ⟨hnone, hphase⟩ | ⟨level, hsome, hphase, -⟩
  · rw [hnone] at hgranted
    obtain ⟨htracked, hstands⟩ := hfollows.granted peer hgranted
    have hknown : session.peers[peer]?.isSome = true := by
      rwa [Session.peerPhase, Option.isSome_map] at htracked
    refine ⟨?_, ?_⟩
    · -- An event without a decision tears nobody down.
      rcases @Entry.decisions_step cbor session.price session.policy peer session.peers[peer]?
          (PeerEvent.of cbor peer (event, now)) with
        ⟨-, -, hkept, -⟩ | ⟨level, hsome, -⟩ | ⟨hsome, -⟩
      · rw [Option.isSome_iff_ne_none] at hknown ⊢
        exact fun hgone ↦ hknown (hkept hgone)
      · exact absurd (hnone.symm.trans hsome) (by simp)
      · exact absurd (hnone.symm.trans hsome) (by simp)
    · by_cases htoken : ∃ message, PeerEvent.of cbor peer (event, now) = .token message
      · obtain ⟨message, htoken⟩ := htoken
        exact Or.inr (hverifies peer _ (verify_of_token htracked htoken))
      · refine hstands.imp (fun hactive ↦ hphase.mpr ⟨?_, htoken⟩) fun hwaiting ↦ ?_
        · exact (peerPhase_eq_active_iff session peer).mp hactive
        · refine hwaits peer hwaiting fun amount ok hverdict ↦ ?_
          -- A verdict on a tracked peer decides about its access.
          obtain ⟨entry, hfound⟩ := Option.isSome_iff_exists.mp hknown
          rw [hverdict, PeerEvent.of_bootstrapVerified, hfound] at hnone
          cases ok <;>
            simp [Entry.step, PeerSession.bootstrapVerified, Action.accessFor] at hnone
  · rw [hsome] at hgranted
    have hactive := hphase.mp hgranted
    obtain ⟨entry, hfound, -⟩ := hactive
    exact ⟨by rw [hfound]; rfl, Or.inl (hphase.mp hgranted)⟩

/-- Assumes: actions that keep the books in order, peers that wait on unless the event is their
verdict, and a peer whose token is handed over that waits. The books follow the session on. -/
theorem Follows.handle (hfollows : books.Follows session waits) {waiting : PeerId → Prop}
    (hwaits : ∀ peer, waits peer → (∀ amount ok, event ≠ .bootstrapVerified peer amount ok) →
      waiting peer)
    (hverifies : ∀ peer token,
      .verifyBootstrapToken peer token ∈ (session.handle cbor event now).2 → waiting peer)
    (hkeeps : machine.Along Keeps books
      ((session.handle cbor event now).2.map .execute)) :
    (machine.final books ((session.handle cbor event now).2.map .execute)).Follows
      (session.handle cbor event now).1 waiting := by
  have hforgets : ∀ effect ∈ (session.handle cbor event now).2.map Effect.execute, ∀ peer,
      effect.change ≠ .address peer none := by
    intro effect heffect peer
    obtain ⟨action, -, rfl⟩ := List.mem_map.mp heffect
    exact Running.change_execute_ne action peer none
  refine ⟨hfollows.agrees.run hkeeps hforgets, fun peer hactive ↦ ?_, fun peer hgranted ↦ ?_,
    fun peer hgranted ↦ ?_⟩
  · obtain ⟨hentry, haccess, -⟩ := @handle_peer cbor session event now peer
    rw [peerPhase_eq_active_iff, hentry] at hactive
    rw [mem_granted_actions, haccess]
    rcases @Entry.access_step cbor session.price session.policy peer session.peers[peer]?
        (PeerEvent.of cbor peer (event, now)) with ⟨hnone, hphase⟩ | ⟨level, hsome, hphase, -⟩
    · rw [hnone]
      exact hfollows.active peer ((peerPhase_eq_active_iff session peer).mpr (hphase.mp hactive).1)
    · rw [hsome]
      exact hphase.mpr hactive
  · exact hfollows.granted_handle hwaits hverifies hgranted
  · obtain ⟨-, haccess, hmetering⟩ := @handle_peer cbor session event now peer
    rw [mem_granted_actions, haccess] at hgranted
    rw [mem_metered_actions, hmetering]
    rcases @Entry.decisions_step cbor session.price session.policy peer session.peers[peer]?
        (PeerEvent.of cbor peer (event, now)) with
      ⟨hnone, hunmetered, -⟩ | ⟨level, hsome, hmetered, -⟩ | ⟨hsome, -⟩
    · rw [hnone] at hgranted
      rw [hunmetered]
      exact hfollows.metered peer hgranted
    · rw [hsome] at hgranted
      rw [hmetered]
      exact hgranted
    · rw [hsome] at hgranted
      exact absurd hgranted (by simp [AccessLevel.allowsDelivery])

end Handle

/-- Assumes: peers that wait at least where they did. -/
theorem Follows.mono {session : Session} {waits waiting : PeerId → Prop}
    (hfollows : books.Follows session waits) (hwaits : ∀ peer, waits peer → waiting peer) :
    books.Follows session waiting where
  agrees := hfollows.agrees
  active := hfollows.active
  granted peer hgranted := (hfollows.granted peer hgranted).imp_right fun hstands ↦
    hstands.imp_right (hwaits peer)
  metered := hfollows.metered

/-- The address that a call notes lets nobody through. -/
theorem Follows.noted {session : Session} {waits : PeerId → Prop}
    (hfollows : books.Follows session waits) {call : Started}
    (hkeeps : machine.Along Keeps books (Running.noted call)) :
    (machine.final books (Running.noted call)).Follows session waits := by
  cases call with
  | peerConnected peer ip seenAt now =>
    cases ip with
    | none =>
      have hsame : machine.final books (Running.noted (.peerConnected peer none seenAt now)) =
          books := carry_nothing rfl
      rw [hsame]
      exact hfollows
    | some ip => exact {
        agrees := hfollows.agrees.carry hkeeps.1 fun other hchange ↦
          absurd hchange (by simp [Effect.change])
        active := hfollows.active
        granted := hfollows.granted
        metered := hfollows.metered }
  | _ => exact hfollows

/-- Forgetting a peer that is not let through. -/
theorem Follows.forgetting {session : Session} {waits : PeerId → Prop}
    (hfollows : books.Follows session waits) {peer : PeerId} (habsent : peer ∉ books.granted) :
    (machine.final books (Driver.forgetting peer)).Follows session waits where
  agrees := by
    have hforgot : (books.carry (.forgetIp peer)).Agrees := by
      refine hfollows.agrees.carry trivial fun other hchange ↦ ?_
      obtain ⟨rfl, -⟩ := Change.address.inj hchange
      exact habsent
    show (machine.final (books.carry (.forgetIp peer))
      [.forgetSeen peer, .forgetMetered peer, .forgetQueue peer]).Agrees
    exact hforgot.run ⟨trivial, trivial, trivial, trivial⟩ (by simp [Effect.change])
  active := hfollows.active
  granted := hfollows.granted
  metered other hgranted := by
    have hother : other ≠ peer := by
      rintro rfl
      exact habsent hgranted
    show other ∈ Enforced.toggle books.enforced.metered peer false
    rw [mem_toggle]
    exact Or.inr ⟨hother, hfollows.metered other hgranted⟩

/-- Effects that change nothing leave the books. -/
theorem final_nothing {effects : List Effect}
    (hnothing : ∀ effect ∈ effects, effect.change = .nothing) :
    machine.final books effects = books := by
  induction effects with
  | nil => rfl
  | cons effect rest ih =>
    show machine.final (books.carry effect) rest = books
    rw [carry_nothing (hnothing effect List.mem_cons_self)]
    exact ih fun later hlater ↦ hnothing later (List.mem_cons_of_mem _ hlater)

end Books

/-! ### Turns -/

/-- The event of a call that starts. -/
def Started.event : Started → Event × Millis
  | .peerConnected peer _ _ now => (.peerConnected peer, now)
  | .messageReceived peer bytes _ now => (.messageReceived peer bytes, now)
  | .meter peer counters now => (.meterSample peer counters, now)
  | .peerDisconnected peer now => (.peerDisconnected peer, now)

/-- What a call does after the actions of its event. -/
def Driver.closing (driver : Driver) : Started → List Effect
  | .peerConnected peer _ _ _ => driver.greeting peer
  | .peerDisconnected peer _ => forgetting peer
  | .messageReceived _ _ _ _ | .meter _ _ _ => []

/-- The first turn of a call is its event, the actions of that, and what closes the call. -/
theorem Driver.start_eq (cbor : Minicbor) (driver : Driver) (call : Started) :
    (driver.start cbor call).1.session =
        (driver.session.handle cbor call.event.1 call.event.2).1 ∧
      (driver.start cbor call).2 =
        (driver.session.handle cbor call.event.1 call.event.2).2.map .execute ++
          driver.closing call := by
  cases call with
  | peerConnected peer ip seenAt now => cases ip <;> exact ⟨rfl, rfl⟩
  | peerDisconnected peer now => exact ⟨rfl, rfl⟩
  | _ => exact ⟨rfl, (List.append_nil _).symm⟩

theorem Driver.session_carry (cbor : Minicbor) (driver : Driver) (effect : Effect) :
    (driver.carry cbor effect).session = driver.session := by
  cases effect with
  | locate peer ip => cases ip <;> rfl
  | execute action => exact (driver.execute_frame cbor action).1
  | _ => rfl

namespace Running

/-- A token of the peer is at the wallet or on its way there. -/
def Awaits (running : Running) (peer : PeerId) : Prop :=
  ∃ entry ∈ running.pending, ∃ token, entry.2 = .execute (.verifyBootstrapToken peer token)

variable {cbor : Minicbor} {running : Running} {books : Books}

theorem session_perform (task : ℕ) :
    (running.perform (Driver.carry cbor) task).state.session = running.state.session := by
  unfold Deferred.perform
  split
  · exact Driver.session_carry cbor _ _
  · rfl

/-- A peer goes on waiting when an effect is carried out, unless that is its token. -/
theorem Awaits.perform {peer : PeerId} (hawaits : running.Awaits peer) {task : ℕ}
    (hother : ∀ token, running.next task ≠ some (.execute (.verifyBootstrapToken peer token))) :
    Awaits (running.perform (Driver.carry cbor) task) peer := by
  obtain ⟨entry, hentry, token, hverify⟩ := hawaits
  have hstays : entry ∈ (running.perform (Driver.carry cbor) task).pending ∨
      running.next task = some entry.2 := mem_perform_or_next task hentry
  rcases hstays with hkept | hnext
  · exact ⟨entry, hkept, token, hverify⟩
  · exact absurd (hverify ▸ hnext) (hother token)

/-- A peer goes on waiting when more effects are deferred, and it waits when its token is among
them. -/
theorem Awaits.defer {driver : Driver} {peer : PeerId} (hawaits : running.Awaits peer)
    (task : ℕ) (effects : List Effect) :
    Awaits (Deferred.defer ⟨driver, running.pending⟩ task effects) peer := by
  obtain ⟨entry, hentry, hverify⟩ := hawaits
  exact ⟨entry, List.mem_append_left _ hentry, hverify⟩

theorem awaits_defer {deferred : Running} {task : ℕ} {effects : List Effect} {peer : PeerId}
    {token : Bytes} (hverify : .execute (.verifyBootstrapToken peer token) ∈ effects) :
    Awaits (Deferred.defer deferred task effects) peer :=
  ⟨(task, _), List.mem_append_right _ (List.mem_map.mpr ⟨_, hverify, rfl⟩), token, rfl⟩

/-- Assumes: decisions of a call's first turn that keep the books in order. -/
theorem follows_start (hfollows : books.Follows running.state.session running.Awaits)
    (task : ℕ) (call : Started)
    (hkeeps : Books.machine.Along Books.Keeps books
      (noted call ++ (running.state.start cbor call).2)) :
    (Books.machine.final books (noted call ++ (running.state.start cbor call).2)).Follows
      (running.state.start cbor call).1.session
      (Awaits (Deferred.defer ⟨(running.state.start cbor call).1, running.pending⟩ task
        (running.state.start cbor call).2)) := by
  obtain ⟨hsession, heffects⟩ := running.state.start_eq cbor call
  generalize running.state.start cbor call = started at *
  obtain ⟨driver, effects⟩ := started
  simp only at hsession heffects hkeeps ⊢
  subst heffects
  rw [Transducer.along_append, Transducer.along_append] at hkeeps
  obtain ⟨hnoted, hacts, -⟩ := hkeeps
  rw [Transducer.final_append, Transducer.final_append, hsession]
  set handled := running.state.session.handle cbor call.event.1 call.event.2 with hhandled
  set deferred := Deferred.defer ⟨driver, running.pending⟩ task
    (handled.2.map .execute ++ running.state.closing call) with hdeferred
  set acted := Books.machine.final (Books.machine.final books (noted call))
    (handled.2.map .execute) with hacted
  have hfollowed : acted.Follows handled.1 (Awaits deferred) := by
    refine (hfollows.noted hnoted).handle (fun peer hawaits _ ↦ hawaits.defer task _) ?_ hacts
    exact fun peer token hverify ↦ awaits_defer
      (List.mem_append_left _ (List.mem_map.mpr ⟨_, hverify, rfl⟩))
  cases call with
  | peerConnected peer ip seenAt now =>
    have hgreeting : ∀ effect ∈ running.state.greeting peer, effect.change = .nothing := by
      intro effect heffect
      unfold Driver.greeting at heffect
      split_ifs at heffect
      · rw [List.mem_singleton.mp heffect]
        rfl
      · rcases List.mem_pair.mp heffect with rfl | rfl <;> rfl
    have hsame : Books.machine.final acted
        (running.state.closing (.peerConnected peer ip seenAt now)) = acted :=
      Books.final_nothing hgreeting
    rw [hsame]
    exact hfollowed
  | peerDisconnected peer now =>
    refine hfollowed.forgetting ?_
    have hgone : lastAccess peer handled.2 = some .none := by
      rw [hhandled, Started.event, (Session.handle_self cbor _ peer now rfl).2]
      simp [PeerEvent.of, Event.peer, Entry.step, Action.accessFor]
    rw [hacted, Books.mem_granted_actions, hgone]
    simp [AccessLevel.allowsDelivery]
  | _ => exact hfollowed

/-- Assumes: decisions of a turn that keep the books in order. The books follow the session on. -/
theorem follows_turn (hfollows : books.Follows running.state.session running.Awaits)
    (input : Turn)
    (hkeeps : Books.machine.Along Books.Keeps books (Running.decisions cbor running input)) :
    (Books.machine.final books (Running.decisions cbor running input)).Follows
      (Running.turn cbor running input).state.session
      (Awaits (Running.turn cbor running input)) := by
  cases input with
  | start task call =>
    simp only [Running.turn, Running.decisions] at hkeeps ⊢
    split_ifs at hkeeps ⊢
    · exact follows_start hfollows task call hkeeps
    · exact hfollows
  | proceed task answer answeredAt =>
    simp only [Running.turn, Running.decisions] at hkeeps ⊢
    cases hverdict : Running.verdict running task answer with
    | none =>
      simp only
      rw [session_perform]
      refine hfollows.mono fun peer hawaits ↦ hawaits.perform fun token hnext ↦ ?_
      rw [Running.verdict, hnext] at hverdict
      exact absurd hverdict (by simp)
    | some event =>
      rw [hverdict] at hkeeps
      simp only at hkeeps ⊢
      set done := running.perform (Driver.carry cbor) task with hdone
      have hsession : done.state.session = running.state.session := session_perform task
      rw [← hsession] at hfollows
      refine hfollows.handle (fun peer hawaits hother ↦ ?_) ?_ hkeeps
      · refine Awaits.defer (hawaits.perform fun token hnext ↦ ?_) task _
        -- Only a verdict about the peer takes its token out of the queue.
        rw [Running.verdict, hnext] at hverdict
        exact hother _ _ (Option.some.inj hverdict).symm
      · exact fun peer token hverify ↦ awaits_defer (List.mem_map.mpr ⟨_, hverify, rfl⟩)

/-- Assumes: decisions that keep the books in order. The books follow the session to the end of a
run. -/
theorem follows_final (hfollows : books.Follows running.state.session running.Awaits)
    {inputs : List Turn}
    (hkeeps : Books.machine.Along Books.Keeps books
      ((machine cbor).observe (Running.decisions cbor) running inputs)) :
    (Books.machine.final books
        ((machine cbor).observe (Running.decisions cbor) running inputs)).Follows
      ((machine cbor).final running inputs).state.session
      (Awaits ((machine cbor).final running inputs)) := by
  induction inputs generalizing running books with
  | nil => exact hfollows
  | cons input rest ih =>
    rw [Transducer.observe_cons, Transducer.along_append] at hkeeps
    rw [Transducer.observe_cons, Transducer.final_append]
    exact ih (follows_turn hfollows input hkeeps.1) hkeeps.2

end Running

/-! ### From a settled driver -/

namespace Driver

/-- The peers that are active. -/
def activePeers (driver : Driver) : Finset PeerId :=
  ((driver.session.peers.toList.filter fun entry ↦ decide (entry.2.phase = .active)).map
    Prod.fst).toFinset

theorem mem_activePeers_iff (driver : Driver) (peer : PeerId) :
    peer ∈ driver.activePeers ↔ driver.session.peerPhase peer = some .active := by
  simp only [activePeers, List.mem_toFinset, List.mem_map, List.mem_filter, decide_eq_true_iff,
    Prod.exists, exists_and_right, exists_eq_right]
  constructor
  · rintro ⟨entry, hentry, hactive⟩
    rw [ExtTreeMap.mem_toList_iff_getElem?_eq_some] at hentry
    rw [Session.peerPhase, hentry, Option.map_some, hactive]
  · intro hactive
    rw [Session.peerPhase, Option.map_eq_some_iff] at hactive
    obtain ⟨entry, hentry, hactive⟩ := hactive
    exact ⟨entry, ExtTreeMap.mem_toList_iff_getElem?_eq_some.mpr hentry, hactive⟩

/-- The books of a driver that has nothing pending. -/
def books (driver : Driver) : Books :=
  ⟨driver.enforced, driver.activePeers⟩

/-- Assumes: a settled driver. Its books follow its session. -/
theorem Settled.follows {driver : Driver} (hsettled : driver.Settled) :
    driver.books.Follows driver.session (Running.Awaits ⟨driver, []⟩) where
  agrees :=
    { sound := fun ip hpaid ↦ by
        obtain ⟨peer, haddress, hactive⟩ := hsettled.sound ip hpaid
        exact ⟨peer, haddress, (driver.mem_activePeers_iff peer).mpr hactive⟩
      complete := fun peer ip hgranted haddress ↦ by
        have hactive := (driver.mem_activePeers_iff peer).mp hgranted
        obtain ⟨place, hplace, hpaid⟩ := hsettled.served peer hactive
        have hsame : driver.peerIp[peer]? = some ip := haddress
        rw [hplace] at hsame
        exact Option.some.inj hsame ▸ hpaid
      located := fun peer hgranted ↦ by
        have hactive := (driver.mem_activePeers_iff peer).mp hgranted
        obtain ⟨place, hplace, -⟩ := hsettled.served peer hactive
        exact Option.isSome_iff_exists.mpr ⟨place, hplace⟩ }
  active peer := (driver.mem_activePeers_iff peer).mpr
  granted peer hgranted := by
    have hactive := (driver.mem_activePeers_iff peer).mp hgranted
    exact ⟨by rw [hactive]; rfl, Or.inl hactive⟩
  metered peer hgranted := hsettled.metered peer ((driver.mem_activePeers_iff peer).mp hgranted)

/-- Assumes: books that follow a session in which nobody waits, and that enforce what the driver
does. The driver is settled. -/
theorem settled_of_follows {driver : Driver} {books : Books} {waits : PeerId → Prop}
    (hfollows : books.Follows driver.session waits) (hnobody : ∀ peer, ¬ waits peer)
    (henforced : driver.enforced = books.enforced) : driver.Settled := by
  have haddress (peer : PeerId) : driver.peerIp[peer]? = books.enforced.address peer :=
    congrFun (congrArg Enforced.address henforced) peer
  have hpaid : driver.paid = books.enforced.paid := congrArg Enforced.paid henforced
  have hmetered : driver.metered = books.enforced.metered := congrArg Enforced.metered henforced
  refine ⟨fun ip hip ↦ ?_, fun peer hactive ↦ ?_, fun peer hactive ↦ ?_⟩
  · rw [hpaid] at hip
    obtain ⟨peer, hplace, hgranted⟩ := hfollows.agrees.sound ip hip
    refine ⟨peer, (haddress peer).trans hplace, ?_⟩
    exact (hfollows.granted peer hgranted).2.resolve_right (hnobody peer)
  · have hgranted := hfollows.active peer hactive
    obtain ⟨ip, hplace⟩ := Option.isSome_iff_exists.mp (hfollows.agrees.located peer hgranted)
    refine ⟨ip, (haddress peer).trans hplace, ?_⟩
    rw [hpaid]
    exact hfollows.agrees.complete peer ip hgranted hplace
  · rw [hmetered]
    exact hfollows.metered peer (hfollows.active peer hactive)

end Driver

namespace Running

/-- Assumes: a run of any calls in which no effect is carried out past a conflicting one that was
decided before it, and that leaves no call unfinished. The paid and the metered set are those of
carrying every effect out in the order of the decisions. If besides the driver was settled and the
decisions keep the books in order, it ends settled: no address is open without an active peer, and
every active peer is let through and metered. -/
theorem effects_follow_decisions (cbor : Minicbor) (driver : Driver) (turns : List Turn)
    (hordered : (machine cbor).Along (fun running turn ↦ ¬ running.Races turn) ⟨driver, []⟩ turns)
    (hfinished : ((machine cbor).final ⟨driver, []⟩ turns).pending = []) :
    let decided := (machine cbor).observe (Running.decisions cbor) ⟨driver, []⟩ turns
    let sequential := carryAll (Driver.carry cbor) driver decided
    let ended := ((machine cbor).final ⟨driver, []⟩ turns).state
    (ended.paid = sequential.paid ∧ ended.metered = sequential.metered) ∧
      (driver.Settled → Books.machine.Along Books.Keeps driver.books decided → ended.Settled) := by
  intro decided sequential ended
  have hended : ended.enforced = carryAll Enforced.carry driver.enforced decided :=
    enforced_final hordered hfinished
  have hsequential : sequential.enforced = carryAll Enforced.carry driver.enforced decided :=
    map_carryAll (Driver.enforced_carry cbor) driver _
  refine ⟨?_, fun hsettled hkeeps ↦ ?_⟩
  · have heq : ended.enforced = sequential.enforced := hended.trans hsequential.symm
    exact ⟨congrArg Enforced.paid heq, congrArg Enforced.metered heq⟩
  · refine Driver.settled_of_follows (follows_final hsettled.follows hkeeps) ?_ ?_
    · rintro peer ⟨entry, hentry, -⟩
      rw [hfinished] at hentry
      exact absurd hentry List.not_mem_nil
    · rw [Books.enforced_final]
      exact hended

/-- A peer pays, and is cut off when its credit is spent while its next token comes in: the cut is
decided first and the top-up second. -/
def cutAndTopUp : List Turn :=
  [.start 0 (.peerConnected samplePeer (some Driver.firstIp) 0 0), .proceed 0 none 0,
    .proceed 0 none 0,
    .start 0 (.messageReceived samplePeer sampleToken 1 1), .proceed 0 (some 5) 2,
    .proceed 0 none 2, .proceed 0 none 2, .proceed 0 none 2,
    .start 1 (.meter samplePeer ⟨0, 0⟩ 3), .start 1 (.meter samplePeer ⟨10, 0⟩ 4),
    .start 0 (.messageReceived samplePeer sampleToken 5 5), .proceed 0 (some 5000) 6]

/-- The effects of the cut, then those of the top-up. -/
def inOrder : List Turn :=
  List.replicate 4 (.proceed 1 none 7) ++ List.replicate 3 (.proceed 0 none 8)

/-- The effects of the top-up, then those of the cut. -/
def outOfOrder : List Turn :=
  List.replicate 3 (.proceed 0 none 7) ++ List.replicate 4 (.proceed 1 none 8)

/-- Carried out in their order, the peer is let through and metered. -/
theorem effects_follow_decisions_of_cutAndTopUp :
    let driver := Driver.new ⟨0, 1⟩ [] []
    let turns := cutAndTopUp ++ inOrder
    let ended := (machine Minicbor.derived).final ⟨driver, []⟩ turns
    let sequential := carryAll (Driver.carry Minicbor.derived) driver
      ((machine Minicbor.derived).observe (Running.decisions Minicbor.derived) ⟨driver, []⟩ turns)
    ((ended.state.paid = sequential.paid ∧ ended.state.metered = sequential.metered) ∧
        ended.state.Settled) ∧
      ended.state.session.peerPhase samplePeer = some .active ∧
      Driver.firstIp ∈ ended.state.paid ∧ samplePeer ∈ ended.state.metered := by
  have hordered : (machine Minicbor.derived).Along (fun running turn ↦ ¬ running.Races turn)
      ⟨Driver.new ⟨0, 1⟩ [] [], []⟩ (cutAndTopUp ++ inOrder) := by
    decide +kernel
  have hfinished : ((machine Minicbor.derived).final ⟨Driver.new ⟨0, 1⟩ [] [], []⟩
      (cutAndTopUp ++ inOrder)).pending = [] := by
    decide +kernel
  have hkeeps : Books.machine.Along Books.Keeps (Driver.new ⟨0, 1⟩ [] []).books
      ((machine Minicbor.derived).observe (Running.decisions Minicbor.derived)
        ⟨Driver.new ⟨0, 1⟩ [] [], []⟩ (cutAndTopUp ++ inOrder)) := by
    decide +kernel
  refine ⟨(effects_follow_decisions _ _ _ hordered hfinished).imp_right fun hsettles ↦
    hsettles (Driver.settled_new _ _ _) hkeeps, ?_⟩
  decide +kernel

/-- The metering loop carries its cut out after the top-up that was decided later: the session has
the peer as active, and it is blocked and not metered. -/
theorem effects_overtake_on_topUp :
    let driver := Driver.new ⟨0, 1⟩ [] []
    let turns := cutAndTopUp ++ outOfOrder
    let ended := (machine Minicbor.derived).final ⟨driver, []⟩ turns
    let sequential := carryAll (Driver.carry Minicbor.derived) driver
      ((machine Minicbor.derived).observe (Running.decisions Minicbor.derived) ⟨driver, []⟩ turns)
    ended.pending = [] ∧ ended.state.session.peerPhase samplePeer = some .active ∧
      (Driver.firstIp ∈ sequential.paid ∧ Driver.firstIp ∉ ended.state.paid) ∧
      samplePeer ∈ sequential.metered ∧ samplePeer ∉ ended.state.metered := by
  decide +kernel

-- A peer pays, announces itself from elsewhere and is cut off there, in order and without a race:
-- the address that it left stays open.
example :
    let turns := [.start 0 (.peerConnected samplePeer (some Driver.firstIp) 0 0),
      .proceed 0 none 0, .proceed 0 none 0,
      .start 0 (.messageReceived samplePeer sampleToken 1 1), .proceed 0 (some 5) 2,
      .proceed 0 none 2, .proceed 0 none 2, .proceed 0 none 2,
      .start 0 (.peerConnected samplePeer (some Driver.secondIp) 3 3), .proceed 0 none 3,
      .start 1 (.meter samplePeer ⟨0, 0⟩ 3), .start 1 (.meter samplePeer ⟨10, 0⟩ 4)] ++
        List.replicate 4 (.proceed 1 none 5)
    let start : Running := ⟨Driver.new ⟨0, 1⟩ [] [], []⟩
    let ended := (machine Minicbor.derived).final start turns
    (machine Minicbor.derived).Along (fun running turn ↦ ¬ running.Races turn) start turns ∧
      ended.pending = [] ∧ ended.state.session.peerPhase samplePeer = some .suspended ∧
      Driver.firstIp ∈ ended.state.paid := by
  decide +kernel

end Running

end Tollgate
