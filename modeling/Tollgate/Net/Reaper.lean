import Tollgate.Net.FirewallAgreement

/-!
# The reaper and the money

A sweep of the reaper lists the peers that have been silent for long enough, then looks at the phase
of one after the other and tears down those that are not active. A token is with the wallet between
the message that brought it and its verdict, and other calls go on meanwhile; the reaper's look and
the teardown take the session lock one after the other as well.

The reaper keeps the active peers because they hold paid credit. `reaper_keeps_money` says when that
is enough: if no event leaves credit with a peer that is no longer active and has no token with the
wallet, and no sweep goes over a peer whose token is there.
-/

set_option autoImplicit false
set_option relaxedAutoImplicit false

namespace Tollgate

open Std

/-! ### Credit of one entry -/

namespace Entry

/-- The credit an entry holds. -/
def held (entry : Option PeerSession) : UInt64 :=
  (entry.map PeerSession.balance).getD 0

/-- The event leaves an entry with credit it is not active for. -/
def LeavesCredit (price : Price) (policy : MeteringPolicy) (entry : PeerSession) :
    PeerEvent → Prop
  | .token _ => True
  | .reject => entry.phase = .active ∧ entry.balance ≠ 0
  | .verified _ ok _ => ok = false ∧ entry.balance ≠ 0
  | .sample counters now =>
    entry.phase = .active ∧ entry.lastCounters.isSome = true ∧
      entry.cut counters price policy now = true ∧ entry.balanceAfter counters price now ≠ 0
  | _ => False

variable {cbor : Minicbor} {price : Price} {policy : MeteringPolicy} {peer : PeerId}

/-- An entry with credit that is not active was one before, or the event made it one. -/
theorem leavesCredit_of_step {entry : Option PeerSession} {event : PeerEvent} {next : PeerSession}
    (hnext : (Entry.step cbor price policy peer entry event).1 = some next)
    (hbalance : next.balance ≠ 0) (hphase : next.phase ≠ .active) :
    ∃ before, entry = some before ∧
      ((before.balance ≠ 0 ∧ before.phase ≠ .active) ∨
        LeavesCredit price policy before event) := by
  cases entry with
  | none =>
    cases event with
    | connected =>
      obtain rfl := Option.some.inj hnext
      exact absurd rfl hbalance
    | _ => exact absurd hnext (by simp [Entry.step])
  | some before =>
    refine ⟨before, rfl, ?_⟩
    cases event with
    | disconnected => exact absurd hnext (by simp [Entry.step])
    | token message => exact Or.inr trivial
    | reject =>
      by_cases hactive : before.phase = .active
      · obtain rfl := Option.some.inj hnext
        refine Or.inr ⟨hactive, ?_⟩
        simpa [PeerSession.receiveReject, hactive] using hbalance
      · refine Or.inl ⟨?_, hactive⟩
        obtain rfl := Option.some.inj hnext
        simp only [PeerSession.receiveReject] at hbalance
        split_ifs at hbalance <;> exact hbalance
    | verified amount ok now =>
      obtain rfl := Option.some.inj hnext
      cases ok with
      | true =>
        refine absurd ?_ hphase
        simp only [PeerSession.bootstrapVerified, if_true]
        split_ifs <;> rfl
      | false => exact Or.inr ⟨rfl, hbalance⟩
    | sample counters now =>
      by_cases hactive : before.phase = .active
      · cases hlast : before.lastCounters with
        | none =>
          rw [step_sample_baseline cbor price policy peer hactive hlast] at hnext
          obtain rfl := Option.some.inj hnext
          exact absurd hactive hphase
        | some last =>
          have hread : before.lastCounters.isSome = true := by simp [hlast]
          rw [step_sample_charge cbor price policy peer hactive hread] at hnext
          obtain rfl := Option.some.inj hnext
          refine Or.inr ⟨hactive, hread, ?_, hbalance⟩
          by_contra hcut
          refine hphase ?_
          simp only [PeerSession.chargeSample, hcut, if_false]
          exact hactive
      · rw [step_sample_inactive cbor price policy peer hactive] at hnext
        obtain rfl := Option.some.inj hnext
        exact Or.inl ⟨hbalance, hactive⟩
    | idle =>
      obtain rfl := Option.some.inj hnext
      exact Or.inl ⟨hbalance, hphase⟩
    | connected =>
      obtain rfl := Option.some.inj hnext
      exact Or.inl ⟨hbalance, hphase⟩
    | priceSheet sheet =>
      obtain rfl := Option.some.inj hnext
      exact Or.inl ⟨hbalance, hphase⟩
    | accept message =>
      obtain rfl := Option.some.inj hnext
      exact Or.inl ⟨hbalance, hphase⟩
    | report report =>
      obtain rfl := Option.some.inj hnext
      exact Or.inl ⟨hbalance, hphase⟩

/-- Only a goodbye and a sample take credit. -/
theorem held_le_step {entry : Option PeerSession} {event : PeerEvent}
    (hstays : event ≠ .disconnected) (hsample : ∀ counters now, event ≠ .sample counters now) :
    held entry ≤ held (Entry.step cbor price policy peer entry event).1 := by
  cases entry with
  | none => exact UInt64.zero_le
  | some before =>
    cases event with
    | disconnected => exact absurd rfl hstays
    | sample counters now => exact absurd rfl (hsample counters now)
    | verified amount ok now =>
      cases ok with
      | true =>
        rw [UInt64.le_iff_toNat_le]
        have hadd : before.balance.toNat ≤ (before.balance.saturatingAdd amount).toNat := by
          have hbound := before.balance.toNat_lt
          rw [UInt64.toNat_saturatingAdd]
          omega
        simp only [held, Entry.step, getMut_some, PeerSession.bootstrapVerified, if_true,
          Option.map_some, Option.getD_some]
        split_ifs <;> exact hadd
      | false => exact UInt64.le_refl _
    | reject =>
      simp only [held, Entry.step, getMut_some, PeerSession.receiveReject, Option.map_some,
        Option.getD_some]
      split_ifs <;> exact UInt64.le_refl _
    | _ => exact UInt64.le_refl _

/-- Only an accepted token gives credit. -/
theorem held_step_le {entry : Option PeerSession} {event : PeerEvent}
    (hverified : ∀ amount now, event ≠ .verified amount true now) :
    held (Entry.step cbor price policy peer entry event).1 ≤ held entry := by
  cases entry with
  | none => cases event <;> exact UInt64.le_refl _
  | some before =>
    cases event with
    | disconnected => exact UInt64.zero_le
    | verified amount ok now =>
      cases ok with
      | true => exact absurd rfl (hverified amount now)
      | false => exact UInt64.le_refl _
    | reject =>
      simp only [held, Entry.step, getMut_some, PeerSession.receiveReject, Option.map_some,
        Option.getD_some]
      split_ifs <;> exact UInt64.le_refl _
    | sample counters now =>
      by_cases hactive : before.phase = .active
      · cases hlast : before.lastCounters with
        | none =>
          rw [step_sample_baseline cbor price policy peer hactive hlast]
          exact UInt64.le_refl _
        | some last =>
          have hread : before.lastCounters.isSome = true := by simp [hlast]
          rw [step_sample_charge cbor price policy peer hactive hread]
          show before.balanceAfter counters price now ≤ before.balance
          rw [UInt64.le_iff_toNat_le, PeerSession.toNat_balanceAfter]
          omega
      · rw [step_sample_inactive cbor price policy peer hactive]
        exact UInt64.le_refl _
    | _ => exact UInt64.le_refl _

end Entry

/-! ### The driver with its wallet and its reaper -/

/-- The driver, the peers whose tokens are with the wallet, and the sweep in progress: the idle
peers still to be looked at, and the one that is to be torn down. -/
structure Host where
  driver : Driver
  verifying : List PeerId
  idle : List PeerId
  condemned : Option PeerId

/-- What happens to the driver next. -/
inductive HostStep
  | peerConnected (peer : PeerId) (ip : Option IpAddr) (seenAt now : Millis)
  | messageReceived (peer : PeerId) (bytes : Bytes) (seenAt now : Millis)
  | verified (peer : PeerId) (answer : Option UInt64) (now : Millis)
  | meter (peer : PeerId) (counters : Counters) (now : Millis)
  | peerDisconnected (peer : PeerId) (now : Millis)
  | sweep (nowMs idleMs : UInt64)
  | look
  | tearDown (now : Millis)

/-- The peers whose tokens are handed to the wallet. -/
def handedOver (actions : List Action) : List PeerId :=
  actions.filterMap fun action ↦
    match action with
    | .verifyBootstrapToken peer _ => some peer
    | .send _ _ | .setAccess _ _ | .startMetering _ | .stopMetering _ | .disconnect _ => none

/-- The event is a token. -/
def PeerEvent.isToken : PeerEvent → Bool
  | .token _ => true
  | _ => false

namespace Host

def new (price : Price) (announce priceSheet : Bytes) : Host where
  driver := Driver.new price announce priceSheet
  verifying := []
  idle := []
  condemned := none

variable (cbor : Minicbor) (host : Host)

/-- One step. A verdict comes in for a token that is with the wallet, and a sweep starts when the
last one is through. -/
def step : HostStep → Host
  | .peerConnected peer ip seenAt now =>
    { host with driver := host.driver.peerConnected cbor peer ip seenAt now }
  | .messageReceived peer bytes seenAt now =>
    let handled := (host.driver.touch peer seenAt).handle cbor (.messageReceived peer bytes) now
    { host with
      driver := handled.1.executeAll cbor handled.2
      verifying := host.verifying ++ handedOver handled.2 }
  | .verified peer answer now =>
    if peer ∈ host.verifying then
      let verdict := Driver.verifyToken answer
      { host with
        driver := host.driver.feed cbor (.bootstrapVerified peer verdict.2 verdict.1) now
        verifying := host.verifying.erase peer }
    else host
  | .meter peer counters now => { host with driver := host.driver.meter cbor peer counters now }
  | .peerDisconnected peer now =>
    { host with driver := host.driver.peerDisconnected cbor peer now }
  | .sweep nowMs idleMs =>
    if host.idle = [] ∧ host.condemned = none then
      { host with idle := host.driver.idlePeers nowMs idleMs }
    else host
  | .look =>
    match host.condemned, host.idle with
    | none, peer :: rest =>
      if host.driver.session.peerPhase peer = some .active then { host with idle := rest }
      else { host with idle := rest, condemned := some peer }
    | _, _ => host
  | .tearDown now =>
    match host.condemned with
    | some peer =>
      { host with driver := host.driver.peerDisconnected cbor peer now, condemned := none }
    | none => host

/-- The driver with its wallet and its reaper. -/
def machine : Transducer Host HostStep Empty where
  step host step := (Host.step cbor host step, [])

/-- The entry of a peer. -/
def entry (peer : PeerId) : Option PeerSession :=
  host.driver.session.peers[peer]?

/-- The credit of a peer; nobody has any who is not tracked. -/
def credit (peer : PeerId) : UInt64 :=
  Entry.held (host.entry peer)

/-- The step leaves a peer with credit, not active, and without a token at the wallet: a sample that
suspends it for drift, its own rejection, or a refused token. -/
def Strands : HostStep → Prop
  | .meter peer counters now =>
    peer ∉ host.verifying ∧ ∃ entry ∈ host.entry peer,
      entry.phase = .active ∧ entry.lastCounters.isSome = true ∧
        entry.cut counters host.driver.session.price host.driver.session.policy now = true ∧
        entry.balanceAfter counters host.driver.session.price now ≠ 0
  | .messageReceived peer bytes _ _ =>
    peer ∉ host.verifying ∧ PeerEvent.ofMessage cbor bytes = .reject ∧
      ∃ entry ∈ host.entry peer, entry.phase = .active ∧ entry.balance ≠ 0
  | .verified peer none _ =>
    peer ∈ host.verifying ∧ peer ∉ host.verifying.erase peer ∧ host.credit peer ≠ 0
  | _ => False

/-- The peer leaves of its own, with credit or with a token at the wallet. -/
def Forfeits : HostStep → Prop
  | .peerDisconnected peer _ => host.credit peer ≠ 0 ∨ peer ∈ host.verifying
  | .messageReceived peer bytes _ _ =>
    PeerEvent.ofMessage cbor bytes = .disconnected ∧
      (host.credit peer ≠ 0 ∨ peer ∈ host.verifying)
  | _ => False

/-- A sweep and a token of one peer overlap: a sweep lists a peer whose token is with the wallet, or
a token comes in from a peer that the sweep is not through with. -/
def Overlaps : HostStep → Prop
  | .sweep nowMs idleMs => ∃ peer ∈ host.driver.idlePeers nowMs idleMs, peer ∈ host.verifying
  | .messageReceived peer bytes _ _ =>
    (PeerEvent.ofMessage cbor bytes).isToken = true ∧
      (peer ∈ host.idle ∨ host.condemned = some peer)
  | _ => False

instance : DecidablePred (host.Strands cbor)
  | .verified _ none _ => inferInstanceAs (Decidable (_ ∧ _))
  | .meter _ _ _ | .messageReceived _ _ _ _ => inferInstanceAs (Decidable (_ ∧ _))
  | .verified _ (some _) _ | .peerConnected _ _ _ _ | .peerDisconnected _ _ | .sweep _ _ | .look
  | .tearDown _ => instDecidableFalse

instance : DecidablePred (host.Forfeits cbor)
  | .peerDisconnected _ _ => inferInstanceAs (Decidable (_ ∨ _))
  | .messageReceived _ _ _ _ => inferInstanceAs (Decidable (_ ∧ _))
  | .verified _ _ _ | .meter _ _ _ | .peerConnected _ _ _ _ | .sweep _ _ | .look | .tearDown _ =>
    instDecidableFalse

instance : DecidablePred (host.Overlaps cbor)
  | .sweep _ _ => inferInstanceAs (Decidable (∃ _ ∈ _, _))
  | .messageReceived _ _ _ _ => inferInstanceAs (Decidable (_ ∧ _))
  | .verified _ _ _ | .meter _ _ _ | .peerConnected _ _ _ _ | .peerDisconnected _ _ | .look
  | .tearDown _ => instDecidableFalse

/-- No money is lost in a step: the reaper tears down nobody who has credit or a token at the
wallet; an accepted amount is credited to a tracked peer; and credit goes down at the samples of its
peer alone. -/
structure KeepsMoney (step : HostStep) : Prop where
  reaped : ∀ peer now, step = .tearDown now → host.condemned = some peer →
    host.credit peer = 0 ∧ peer ∉ host.verifying
  credited : ∀ peer amount now, step = .verified peer (some amount) now → peer ∈ host.verifying →
    (host.entry peer).isSome = true ∧
      (Host.step cbor host step).credit peer = (host.credit peer).saturatingAdd amount
  kept : ∀ peer, (∀ counters now, step ≠ .meter peer counters now) →
    host.credit peer ≤ (Host.step cbor host step).credit peer

/-! ### What a step does to one entry -/

/-- The event that a step runs through the session, if any. -/
def heard : HostStep → Option (Event × Millis)
  | .peerConnected peer _ _ now => some (.peerConnected peer, now)
  | .messageReceived peer bytes _ now => some (.messageReceived peer bytes, now)
  | .verified peer answer now =>
    if peer ∈ host.verifying then
      some
        (.bootstrapVerified peer (Driver.verifyToken answer).2 (Driver.verifyToken answer).1, now)
    else none
  | .meter peer counters now => some (.meterSample peer counters, now)
  | .peerDisconnected peer now => some (.peerDisconnected peer, now)
  | .sweep _ _ => none
  | .look => none
  | .tearDown now => host.condemned.map fun peer ↦ (.peerDisconnected peer, now)

/-- A step as the entry of `peer` sees it. -/
def seen (peer : PeerId) (step : HostStep) : PeerEvent :=
  (host.heard step).elim .idle (PeerEvent.of cbor peer)

variable {cbor host}

theorem session_step (step : HostStep) :
    (Host.step cbor host step).driver.session = (host.heard step).elim host.driver.session
      fun input ↦ (host.driver.session.handle cbor input.1 input.2).1 := by
  cases step with
  | peerConnected peer ip seenAt now =>
    have hlocated : (host.driver.locate peer ip).session = host.driver.session := by
      cases ip <;> rfl
    have hfeed : (((host.driver.locate peer ip).touch peer seenAt).feed cbor
        (.peerConnected peer) now).session =
          (host.driver.session.handle cbor (.peerConnected peer) now).1 := by
      rw [Driver.session_feed]
      show ((host.driver.locate peer ip).session.handle cbor _ now).1 = _
      rw [hlocated]
    show (host.driver.peerConnected cbor peer ip seenAt now).session = _
    unfold Driver.peerConnected
    simp only
    split_ifs <;> exact hfeed
  | messageReceived peer bytes seenAt now => exact (Driver.executeAll_frame cbor _ _).1
  | verified peer answer now =>
    simp only [Host.step, heard]
    split_ifs
    · exact Driver.session_feed
    · rfl
  | meter peer counters now => exact Driver.session_feed
  | peerDisconnected peer now => exact Driver.session_feed
  | sweep nowMs idleMs =>
    simp only [Host.step, heard]
    split_ifs <;> rfl
  | look =>
    simp only [Host.step, heard]
    split
    · split_ifs <;> rfl
    · rfl
  | tearDown now =>
    simp only [Host.step, heard]
    cases host.condemned with
    | none => rfl
    | some peer => exact Driver.session_feed

/-- What a step does to an entry. -/
theorem entry_step (peer : PeerId) (step : HostStep) :
    (Host.step cbor host step).entry peer =
      (Entry.step cbor host.driver.session.price host.driver.session.policy peer (host.entry peer)
        (host.seen cbor peer step)).1 := by
  unfold entry seen
  rw [session_step]
  cases host.heard step with
  | none => rfl
  | some input => exact host.driver.session.getElem?_handle cbor peer input.1 input.2

/-- A step as an entry sees it is one of a few things, each with the step it comes from. -/
theorem seen_cases (peer : PeerId) (step : HostStep) :
    (∃ seenAt now bytes, step = .messageReceived peer bytes seenAt now ∧
        host.seen cbor peer step = PeerEvent.ofMessage cbor bytes) ∨
      (∃ answer now, step = .verified peer answer now ∧ peer ∈ host.verifying ∧
        host.seen cbor peer step =
          .verified (Driver.verifyToken answer).2 (Driver.verifyToken answer).1 now) ∨
      (∃ counters now, step = .meter peer counters now ∧
        host.seen cbor peer step = .sample counters now) ∨
      (((∃ now, step = .peerDisconnected peer now) ∨
          ∃ now, step = .tearDown now ∧ host.condemned = some peer) ∧
        host.seen cbor peer step = .disconnected) ∨
      host.seen cbor peer step = .connected ∨ host.seen cbor peer step = .idle := by
  cases step with
  | peerConnected other ip seenAt now =>
    by_cases hpeer : other = peer
    · subst hpeer
      simp [seen, heard]
    · simp [seen, heard, PeerEvent.of, Event.peer, hpeer]
  | messageReceived other bytes seenAt now =>
    by_cases hpeer : other = peer
    · subst hpeer
      simp [seen, heard]
    · simp [seen, heard, PeerEvent.of, Event.peer, hpeer]
  | verified other answer now =>
    by_cases hpeer : other = peer
    · subst hpeer
      by_cases hverifying : other ∈ host.verifying
      · simp [seen, heard, hverifying]
      · simp [seen, heard, hverifying]
    · by_cases hverifying : other ∈ host.verifying
      · simp [seen, heard, hverifying, PeerEvent.of, Event.peer, hpeer]
      · simp [seen, heard, hverifying]
  | meter other counters now =>
    by_cases hpeer : other = peer
    · subst hpeer
      simp [seen, heard]
    · simp [seen, heard, PeerEvent.of, Event.peer, hpeer]
  | peerDisconnected other now =>
    by_cases hpeer : other = peer
    · subst hpeer
      simp [seen, heard, PeerEvent.of, Event.peer]
    · simp [seen, heard, PeerEvent.of, Event.peer, hpeer]
  | sweep nowMs idleMs => simp [seen, heard]
  | look => simp [seen, heard]
  | tearDown now =>
    cases hcondemned : host.condemned with
    | none => simp [seen, heard, hcondemned]
    | some other =>
      by_cases hpeer : other = peer
      · subst hpeer
        simp [seen, heard, hcondemned, PeerEvent.of, Event.peer]
      · simp [seen, heard, hcondemned, PeerEvent.of, Event.peer, hpeer]

/-! ### Tokens at the wallet -/

/-- A message hands over the token of its sender if it is one and the sender is tracked, and nothing
else. -/
theorem handedOver_message (session : Session) (peer : PeerId) (bytes : Bytes) (now : Millis) :
    ((PeerEvent.ofMessage cbor bytes).isToken = true ∧ session.peers[peer]?.isSome = true ∧
        handedOver (session.handle cbor (.messageReceived peer bytes) now).2 = [peer]) ∨
      (((PeerEvent.ofMessage cbor bytes).isToken = false ∨ session.peers[peer]? = none) ∧
        handedOver (session.handle cbor (.messageReceived peer bytes) now).2 = []) := by
  have hactions := (session.handle_self cbor peer now
    (rfl : (Event.messageReceived peer bytes).peer = some peer)).2
  rw [PeerEvent.of_messageReceived] at hactions
  rw [hactions]
  cases htoken : PeerEvent.ofMessage cbor bytes with
  | token message =>
    cases session.peers[peer]? with
    | none => exact Or.inr ⟨Or.inr rfl, rfl⟩
    | some entry => exact Or.inl ⟨rfl, rfl, rfl⟩
  | _ =>
    refine Or.inr ⟨Or.inl rfl, List.filterMap_eq_nil_iff.mpr fun action haction ↦ ?_⟩
    cases action with
    | verifyBootstrapToken other token =>
      obtain ⟨message, hmessage⟩ := Entry.token_of_verify haction
      exact absurd hmessage (by simp)
    | _ => rfl

/-- A token that is at the wallet after a step was there before, or has just come in from a peer
that is tracked. -/
theorem mem_verifying_step {peer : PeerId} {step : HostStep}
    (hafter : peer ∈ (Host.step cbor host step).verifying) :
    peer ∈ host.verifying ∨ ∃ bytes seenAt now, step = .messageReceived peer bytes seenAt now ∧
      (PeerEvent.ofMessage cbor bytes).isToken = true ∧ (host.entry peer).isSome = true := by
  cases step with
  | messageReceived other bytes seenAt now =>
    rcases List.mem_append.mp hafter with hbefore | hnew
    · exact Or.inl hbefore
    · rcases @handedOver_message cbor host.driver.session other bytes now with
        ⟨htoken, htracked, hhanded⟩ | ⟨-, hhanded⟩
      · have hpeer : peer = other := List.mem_singleton.mp (hhanded ▸ hnew)
        rw [hpeer]
        exact Or.inr ⟨bytes, seenAt, now, rfl, htoken, htracked⟩
      · exact absurd (hhanded ▸ hnew) List.not_mem_nil
  | verified other answer now =>
    simp only [Host.step] at hafter
    split_ifs at hafter
    · exact Or.inl (List.mem_of_mem_erase hafter)
    · exact Or.inl hafter
  | sweep nowMs idleMs =>
    simp only [Host.step] at hafter
    split_ifs at hafter <;> exact Or.inl hafter
  | look =>
    simp only [Host.step] at hafter
    split at hafter
    · split_ifs at hafter <;> exact Or.inl hafter
    · exact Or.inl hafter
  | tearDown now =>
    simp only [Host.step] at hafter
    cases hcondemned : host.condemned <;> rw [hcondemned] at hafter <;> exact Or.inl hafter
  | peerConnected other ip seenAt now => exact Or.inl hafter
  | meter other counters now => exact Or.inl hafter
  | peerDisconnected other now => exact Or.inl hafter

/-- A token that is at the wallet stays there until its verdict. -/
theorem mem_verifying_step_of_mem {peer : PeerId} {step : HostStep}
    (hbefore : peer ∈ host.verifying)
    (hverdict : ∀ answer now, step = .verified peer answer now →
      peer ∈ host.verifying.erase peer) :
    peer ∈ (Host.step cbor host step).verifying := by
  cases step with
  | messageReceived other bytes seenAt now => exact List.mem_append_left _ hbefore
  | verified other answer now =>
    simp only [Host.step]
    split_ifs
    · by_cases hpeer : other = peer
      · rw [hpeer] at hverdict ⊢
        exact hverdict answer now rfl
      · exact (List.mem_erase_of_ne fun heq ↦ hpeer heq.symm).mpr hbefore
    · exact hbefore
  | sweep nowMs idleMs =>
    simp only [Host.step]
    split_ifs <;> exact hbefore
  | look =>
    simp only [Host.step]
    split
    · split_ifs <;> exact hbefore
    · exact hbefore
  | tearDown now =>
    simp only [Host.step]
    cases host.condemned <;> exact hbefore
  | peerConnected other ip seenAt now => exact hbefore
  | meter other counters now => exact hbefore
  | peerDisconnected other now => exact hbefore

/-- A peer that the sweep is not through with, it was not through with before, or has just
listed. -/
theorem listed_step {peer : PeerId} {step : HostStep}
    (hafter : peer ∈ (Host.step cbor host step).idle ∨
      (Host.step cbor host step).condemned = some peer) :
    (peer ∈ host.idle ∨ host.condemned = some peer) ∨
      ∃ nowMs idleMs, step = .sweep nowMs idleMs ∧ peer ∈ host.driver.idlePeers nowMs idleMs := by
  cases step with
  | sweep nowMs idleMs =>
    simp only [Host.step] at hafter
    split_ifs at hafter with hdone
    · rcases hafter with hlisted | hcondemned
      · exact Or.inr ⟨nowMs, idleMs, rfl, hlisted⟩
      · exact Or.inl (Or.inr hcondemned)
    · exact Or.inl hafter
  | look =>
    simp only [Host.step] at hafter
    split at hafter
    · rename_i first rest hcondemned hidle
      refine Or.inl (Or.inl ?_)
      rw [hidle]
      split_ifs at hafter
      · rcases hafter with hrest | hcontra
        · exact List.mem_cons_of_mem _ hrest
        · rw [hcondemned] at hcontra
          exact absurd hcontra (by simp)
      · rcases hafter with hrest | hfirst
        · exact List.mem_cons_of_mem _ hrest
        · rw [Option.some.inj hfirst]
          exact List.mem_cons_self
    · exact Or.inl hafter
  | tearDown now =>
    simp only [Host.step] at hafter
    cases hcondemned : host.condemned with
    | none =>
      rw [hcondemned] at hafter
      exact Or.inl (hafter.imp_right fun hcontra ↦ hcondemned.symm.trans hcontra)
    | some other =>
      rw [hcondemned] at hafter
      exact Or.inl (Or.inl (hafter.resolve_right (by simp)))
  | verified other answer now =>
    simp only [Host.step] at hafter
    split_ifs at hafter <;> exact Or.inl hafter
  | messageReceived other bytes seenAt now => exact Or.inl hafter
  | peerConnected other ip seenAt now => exact Or.inl hafter
  | meter other counters now => exact Or.inl hafter
  | peerDisconnected other now => exact Or.inl hafter

/-- A peer is condemned by a look that finds it listed and not active. -/
theorem condemned_step {peer : PeerId} {step : HostStep}
    (hafter : (Host.step cbor host step).condemned = some peer) :
    host.condemned = some peer ∨
      (step = .look ∧ peer ∈ host.idle ∧ host.driver.session.peerPhase peer ≠ some .active) := by
  cases step with
  | look =>
    simp only [Host.step] at hafter
    split at hafter
    · rename_i first rest hcondemned hidle
      split_ifs at hafter with hactive
      · exact Or.inl hafter
      · obtain rfl := Option.some.inj hafter
        refine Or.inr ⟨rfl, ?_, hactive⟩
        rw [hidle]
        exact List.mem_cons_self
    · exact Or.inl hafter
  | sweep nowMs idleMs =>
    simp only [Host.step] at hafter
    split_ifs at hafter <;> exact Or.inl hafter
  | tearDown now =>
    simp only [Host.step] at hafter
    cases hcondemned : host.condemned with
    | none =>
      rw [hcondemned] at hafter
      exact Or.inl (hcondemned.symm.trans hafter)
    | some other =>
      rw [hcondemned] at hafter
      exact absurd hafter (by simp)
  | verified other answer now =>
    simp only [Host.step] at hafter
    split_ifs at hafter <;> exact Or.inl hafter
  | messageReceived other bytes seenAt now => exact Or.inl hafter
  | peerConnected other ip seenAt now => exact Or.inl hafter
  | meter other counters now => exact Or.inl hafter
  | peerDisconnected other now => exact Or.inl hafter

/-! ### What holds between steps -/

/-- What a step has to respect. -/
def Careful (cbor : Minicbor) (host : Host) (step : HostStep) : Prop :=
  ¬ host.Strands cbor step ∧ ¬ host.Forfeits cbor step ∧ ¬ host.Overlaps cbor step

instance : DecidablePred (host.Careful cbor) :=
  fun _ ↦ inferInstanceAs (Decidable (_ ∧ _ ∧ _))

/-- What is true of a peer between steps: its credit is backed by being active or by a token at the
wallet; who has a token there is tracked; and who is listed by the sweep has none, and no credit
once it is condemned. -/
structure Safe (host : Host) (peer : PeerId) : Prop where
  backed : ∀ entry, host.entry peer = some entry → entry.balance ≠ 0 →
    entry.phase = .active ∨ peer ∈ host.verifying
  tracked : peer ∈ host.verifying → (host.entry peer).isSome = true
  undisturbed : peer ∈ host.idle ∨ host.condemned = some peer → peer ∉ host.verifying
  spared : host.condemned = some peer → host.credit peer = 0

variable {peer : PeerId} {step : HostStep}

/-- An entry sees a goodbye when its peer says so, when its connection is closed, and when the
reaper tears it down. -/
theorem goodbye_of_seen (hseen : host.seen cbor peer step = .disconnected) :
    (∃ bytes seenAt now, step = .messageReceived peer bytes seenAt now ∧
        PeerEvent.ofMessage cbor bytes = .disconnected) ∨
      (∃ now, step = .peerDisconnected peer now) ∨
      ∃ now, step = .tearDown now ∧ host.condemned = some peer := by
  rcases @seen_cases cbor host peer step with ⟨seenAt, now, bytes, rfl, hmessage⟩ |
    ⟨_, _, -, -, hother⟩ | ⟨_, _, -, hother⟩ | ⟨hclosed | htorn, -⟩ | hother | hother
  · exact Or.inl ⟨bytes, seenAt, now, rfl, hmessage ▸ hseen⟩
  · exact absurd (hother ▸ hseen) (by simp)
  · exact absurd (hother ▸ hseen) (by simp)
  · exact Or.inr (Or.inl hclosed)
  · exact Or.inr (Or.inr htorn)
  · exact absurd (hother ▸ hseen) (by simp)
  · exact absurd (hother ▸ hseen) (by simp)

/-- An entry sees a sample when its peer is metered. -/
theorem meter_of_seen {counters : Counters} {now : Millis}
    (hseen : host.seen cbor peer step = .sample counters now) :
    ∃ readings time, step = .meter peer readings time := by
  rcases @seen_cases cbor host peer step with ⟨_, _, bytes, -, hmessage⟩ |
    ⟨_, _, -, -, hother⟩ | ⟨readings, time, rfl, -⟩ | ⟨-, hother⟩ | hother | hother
  · exact absurd (hmessage ▸ hseen) ((PeerEvent.ofMessage_ne cbor bytes).1 counters now)
  · exact absurd (hother ▸ hseen) (by simp)
  · exact ⟨readings, time, rfl⟩
  · exact absurd (hother ▸ hseen) (by simp)
  · exact absurd (hother ▸ hseen) (by simp)
  · exact absurd (hother ▸ hseen) (by simp)

/-- An entry sees an accepted token only when it is the peer's own, at the wallet. -/
theorem verifying_of_seen {amount : UInt64} {now : Millis}
    (hseen : host.seen cbor peer step = .verified amount true now) :
    peer ∈ host.verifying := by
  rcases @seen_cases cbor host peer step with ⟨_, _, bytes, -, hmessage⟩ |
    ⟨_, _, -, hverifying, -⟩ | ⟨_, _, -, hother⟩ | ⟨-, hother⟩ | hother | hother
  · exact absurd (hmessage ▸ hseen) ((PeerEvent.ofMessage_ne cbor bytes).2.1 amount true now)
  · exact hverifying
  · exact absurd (hother ▸ hseen) (by simp)
  · exact absurd (hother ▸ hseen) (by simp)
  · exact absurd (hother ▸ hseen) (by simp)
  · exact absurd (hother ▸ hseen) (by simp)

/-- Assumes: a careful step. The entry of a peer with credit or a token at the wallet sees a goodbye
only when the reaper tears it down. -/
theorem condemned_of_goodbye (hcareful : host.Careful cbor step)
    (hseen : host.seen cbor peer step = .disconnected)
    (hmoney : host.credit peer ≠ 0 ∨ peer ∈ host.verifying) : host.condemned = some peer := by
  obtain ⟨-, hforfeits, -⟩ := hcareful
  rcases goodbye_of_seen hseen with ⟨bytes, seenAt, now, rfl, hmessage⟩ | ⟨now, rfl⟩ |
    ⟨now, rfl, hcondemned⟩
  · exact absurd ⟨hmessage, hmoney⟩ hforfeits
  · exact absurd hmoney hforfeits
  · exact hcondemned

/-- Assumes: a careful step. The entry of a peer with a token at the wallet does not see a
goodbye. -/
theorem Safe.not_disconnected (hsafe : host.Safe peer) (hcareful : host.Careful cbor step)
    (hverifying : peer ∈ host.verifying) : host.seen cbor peer step ≠ .disconnected := by
  intro hgone
  have hcondemned := condemned_of_goodbye hcareful hgone (Or.inr hverifying)
  exact hsafe.undisturbed (Or.inr hcondemned) hverifying

/-- Assumes: a careful step. Who has a token at the wallet is tracked after it. -/
theorem Safe.tracked_step (hsafe : host.Safe peer) (hcareful : host.Careful cbor step)
    (hafter : peer ∈ (Host.step cbor host step).verifying) :
    ((Host.step cbor host step).entry peer).isSome = true := by
  rw [entry_step]
  rcases mem_verifying_step hafter with hbefore | ⟨bytes, seenAt, now, rfl, htoken, htracked⟩
  · exact Entry.isSome_step (hsafe.not_disconnected hcareful hbefore) (hsafe.tracked hbefore)
  · refine Entry.isSome_step (fun hgone ↦ ?_) htracked
    have hseen : host.seen cbor peer (.messageReceived peer bytes seenAt now) =
        PeerEvent.ofMessage cbor bytes := PeerEvent.of_messageReceived cbor peer bytes now
    rw [hseen] at hgone
    rw [hgone] at htoken
    exact absurd htoken (by simp [PeerEvent.isToken])

/-- Assumes: a careful step. Nobody the sweep is not through with has a token at the wallet. -/
theorem Safe.undisturbed_step (hsafe : host.Safe peer) (hcareful : host.Careful cbor step)
    (hafter : peer ∈ (Host.step cbor host step).idle ∨
      (Host.step cbor host step).condemned = some peer) :
    peer ∉ (Host.step cbor host step).verifying := by
  obtain ⟨-, -, hoverlaps⟩ := hcareful
  intro hverifying
  rcases mem_verifying_step hverifying with hbefore | ⟨bytes, seenAt, now, rfl, htoken, -⟩
  · rcases listed_step hafter with hlisted | ⟨nowMs, idleMs, rfl, hidle⟩
    · exact hsafe.undisturbed hlisted hbefore
    · exact hoverlaps ⟨peer, hidle, hbefore⟩
  · exact hoverlaps ⟨htoken, hafter⟩

/-- A step that an entry sees as idle leaves its credit. -/
theorem credit_step_of_idle (hidle : host.seen cbor peer step = .idle) :
    (Host.step cbor host step).credit peer = host.credit peer := by
  rw [credit, entry_step, hidle]
  rfl

/-- The condemned peer has no credit, and gets none. -/
theorem Safe.spared_step (hsafe : host.Safe peer)
    (hafter : (Host.step cbor host step).condemned = some peer) :
    (Host.step cbor host step).credit peer = 0 := by
  rcases condemned_step hafter with hbefore | ⟨rfl, hlisted, hphase⟩
  · have hverifying := hsafe.undisturbed (Or.inr hbefore)
    have hle : (Host.step cbor host step).credit peer ≤ host.credit peer := by
      rw [credit, entry_step]
      exact Entry.held_step_le fun amount now hseen ↦ hverifying (verifying_of_seen hseen)
    rw [hsafe.spared hbefore, UInt64.le_iff_toNat_le] at hle
    exact UInt64.toNat_inj.mp (Nat.le_zero.mp hle)
  · have hsame : (Host.step cbor host .look).credit peer = host.credit peer :=
      credit_step_of_idle rfl
    rw [hsame]
    by_contra hcredit
    cases hentry : host.entry peer with
    | none =>
      rw [credit, hentry] at hcredit
      exact hcredit rfl
    | some entry =>
      rw [credit, hentry] at hcredit
      rcases hsafe.backed entry hentry hcredit with hactive | hverifying
      · refine hphase ?_
        have hpeers : host.driver.session.peers[peer]? = some entry := hentry
        rw [Session.peerPhase, hpeers, Option.map_some, hactive]
      · exact hsafe.undisturbed (Or.inl hlisted) hverifying

/-- Assumes: a careful step that makes an entry lose what backs its credit. Then there is a token of
the peer at the wallet. -/
theorem verifying_of_leavesCredit (hcareful : host.Careful cbor step) {entry : PeerSession}
    (hentry : host.entry peer = some entry)
    (hleaves : Entry.LeavesCredit host.driver.session.price host.driver.session.policy entry
      (host.seen cbor peer step)) : peer ∈ (Host.step cbor host step).verifying := by
  obtain ⟨hstrands, -, -⟩ := hcareful
  -- Unless the step is a verdict, a token that was at the wallet is still there.
  have hstays (hno : ∀ answer now, step ≠ .verified peer answer now)
      (hbefore : peer ∈ host.verifying) : peer ∈ (Host.step cbor host step).verifying :=
    mem_verifying_step_of_mem hbefore fun answer now heq ↦ absurd heq (hno answer now)
  rcases @seen_cases cbor host peer step with ⟨seenAt, now, bytes, rfl, hseen⟩ |
    ⟨answer, now, rfl, hbefore, hseen⟩ | ⟨counters, now, rfl, hseen⟩ | ⟨-, hseen⟩ | hseen | hseen
  · rw [hseen] at hleaves
    cases hmessage : PeerEvent.ofMessage cbor bytes with
    | token message =>
      rcases @handedOver_message cbor host.driver.session peer bytes now with
        ⟨-, -, hhanded⟩ | ⟨hno | hno, -⟩
      · refine List.mem_append_right _ ?_
        show peer ∈ handedOver (host.driver.session.handle cbor _ now).2
        rw [hhanded]
        exact List.mem_singleton_self peer
      · rw [hmessage] at hno
        exact absurd hno (by simp [PeerEvent.isToken])
      · have hpeers : host.driver.session.peers[peer]? = some entry := hentry
        rw [hpeers] at hno
        exact absurd hno (by simp)
    | reject =>
      rw [hmessage] at hleaves
      refine hstays (by simp) ?_
      by_contra hverifying
      exact hstrands ⟨hverifying, hmessage, entry, hentry, hleaves⟩
    | sample counters now => exact absurd hmessage ((PeerEvent.ofMessage_ne cbor bytes).1 _ _)
    | verified amount ok now =>
      exact absurd hmessage ((PeerEvent.ofMessage_ne cbor bytes).2.1 _ _ _)
    | _ =>
      rw [hmessage] at hleaves
      exact hleaves.elim
  · rw [hseen] at hleaves
    refine mem_verifying_step_of_mem hbefore fun same time heq ↦ ?_
    obtain ⟨-, rfl, rfl⟩ := HostStep.verified.inj heq
    cases answer with
    | none =>
      by_contra hlast
      refine hstrands ⟨hbefore, hlast, ?_⟩
      rw [credit, hentry]
      exact hleaves.2
    | some amount => exact absurd hleaves.1 (by simp [Driver.verifyToken])
  · rw [hseen] at hleaves
    refine hstays (by simp) ?_
    by_contra hverifying
    exact hstrands ⟨hverifying, entry, hentry, hleaves⟩
  · rw [hseen] at hleaves
    exact hleaves.elim
  · rw [hseen] at hleaves
    exact hleaves.elim
  · rw [hseen] at hleaves
    exact hleaves.elim

/-- A verdict leaves its peer active or with a refused token. -/
theorem phase_step_verified {answer : Option UInt64} {now : Millis} {entry : PeerSession}
    (hverifying : peer ∈ host.verifying) (hanswer : answer.isSome = true)
    (hentry : (Host.step cbor host (.verified peer answer now)).entry peer = some entry) :
    entry.phase = .active := by
  obtain ⟨amount, rfl⟩ := Option.isSome_iff_exists.mp hanswer
  have hseen : host.seen cbor peer (.verified peer (some amount) now) =
      .verified amount true now := by
    simp [seen, heard, hverifying, Driver.verifyToken]
  rw [entry_step, hseen] at hentry
  cases hbefore : host.entry peer with
  | none =>
    rw [hbefore] at hentry
    exact absurd hentry (by simp [Entry.step])
  | some before =>
    rw [hbefore] at hentry
    obtain rfl := Option.some.inj hentry
    simp only [PeerSession.bootstrapVerified, if_true]
    split_ifs <;> rfl

/-- Assumes: a careful step. Credit is backed after it. -/
theorem Safe.backed_step (hsafe : host.Safe peer) (hcareful : host.Careful cbor step)
    {entry : PeerSession} (hentry : (Host.step cbor host step).entry peer = some entry)
    (hbalance : entry.balance ≠ 0) :
    entry.phase = .active ∨ peer ∈ (Host.step cbor host step).verifying := by
  by_contra hneither
  rw [not_or] at hneither
  obtain ⟨hphase, hverifying⟩ := hneither
  have hstep := hentry
  rw [entry_step] at hstep
  obtain ⟨before, hbefore, ⟨hheld, hidle⟩ | hleaves⟩ :=
    Entry.leavesCredit_of_step hstep hbalance hphase
  · -- The credit was backed by a token, so the step must be its verdict.
    have htoken := (hsafe.backed before hbefore hheld).resolve_left hidle
    refine hverifying (mem_verifying_step_of_mem htoken fun answer now heq ↦ ?_)
    subst heq
    cases answer with
    | none =>
      by_contra hlast
      refine hcareful.1 ⟨htoken, hlast, ?_⟩
      rw [credit, hbefore]
      exact hheld
    | some amount => exact absurd (phase_step_verified htoken rfl hentry) hphase
  · exact hverifying (verifying_of_leavesCredit hcareful hbefore hleaves)

/-- Assumes: a careful step. It leaves a safe peer safe. -/
theorem Safe.after (hsafe : host.Safe peer) (hcareful : host.Careful cbor step) :
    (Host.step cbor host step).Safe peer where
  backed _ hentry hbalance := hsafe.backed_step hcareful hentry hbalance
  tracked hafter := hsafe.tracked_step hcareful hafter
  undisturbed hafter := hsafe.undisturbed_step hcareful hafter
  spared hafter := hsafe.spared_step hafter

/-- Assumes: safe peers and a careful step. No money is lost in it. -/
theorem keepsMoney_of_safe (hsafe : ∀ peer, host.Safe peer) (hcareful : host.Careful cbor step) :
    host.KeepsMoney cbor step := by
  constructor
  · intro peer now _ hcondemned
    exact ⟨(hsafe peer).spared hcondemned, (hsafe peer).undisturbed (Or.inr hcondemned)⟩
  · rintro peer amount now rfl hverifying
    have htracked := (hsafe peer).tracked hverifying
    refine ⟨htracked, ?_⟩
    have hseen : host.seen cbor peer (.verified peer (some amount) now) =
        .verified amount true now := by
      simp [seen, heard, hverifying, Driver.verifyToken]
    obtain ⟨entry, hentry⟩ := Option.isSome_iff_exists.mp htracked
    rw [credit, credit, entry_step, hseen, hentry]
    simp only [Entry.held, Entry.step, Entry.getMut_some, PeerSession.bootstrapVerified, if_true,
      Option.map_some, Option.getD_some]
    split_ifs <;> rfl
  · intro peer hnotMeter
    by_cases hgone : host.seen cbor peer step = .disconnected
    · -- Only who has no credit leaves.
      have hnone : host.credit peer = 0 := by
        by_contra hcredit
        have hcondemned := condemned_of_goodbye hcareful hgone (Or.inl hcredit)
        exact hcredit ((hsafe peer).spared hcondemned)
      rw [hnone]
      exact UInt64.zero_le
    · rw [credit, credit, entry_step]
      refine Entry.held_le_step hgone fun counters now hsample ↦ ?_
      obtain ⟨readings, time, hmeter⟩ := meter_of_seen hsample
      exact hnotMeter readings time hmeter

/-- Assumes: a run in which no step strands credit with a peer that is not active, nobody leaves
with credit or with a token at the wallet, and no sweep overlaps with a token of a peer it goes
over. The reaper never tears down a peer with credit or with a token at the wallet; every accepted
amount is credited to a tracked peer; and credit only goes down at the samples of its peer. -/
theorem reaper_keeps_money (cbor : Minicbor) (price : Price) (announce priceSheet : Bytes)
    (steps : List HostStep)
    (hcareful : (machine cbor).Along (Careful cbor) (new price announce priceSheet) steps) :
    (machine cbor).Along (KeepsMoney cbor) (new price announce priceSheet) steps := by
  have hstart : ∀ peer, (new price announce priceSheet).Safe peer := by
    have hnobody (peer : PeerId) : (new price announce priceSheet).entry peer = none := by
      simp [new, entry, Driver.new, Session.new, Session.setPrice]
    intro peer
    constructor
    · intro entry hentry
      rw [hnobody peer] at hentry
      exact absurd hentry (by simp)
    · exact fun hverifying ↦ absurd hverifying List.not_mem_nil
    · exact fun _ ↦ List.not_mem_nil
    · exact fun hcondemned ↦ absurd hcondemned (by simp [new])
  have hsafe := hcareful.with_invariant (fun host ↦ ∀ peer, host.Safe peer)
    (fun host step hsafe hstep peer ↦ (hsafe peer).after hstep) hstart
  exact hsafe.mono fun host step hboth ↦ keepsMoney_of_safe hboth.1 hboth.2

/-- A peer pays, another only announces itself, and a sweep finds both silent: the first is kept and
the second is torn down. -/
theorem reaper_keeps_money_of_two :
    let steps : List HostStep :=
      [.peerConnected samplePeer (some Driver.firstIp) 0 0,
        .messageReceived samplePeer sampleToken 1 1, .verified samplePeer (some 5000) 2,
        .peerConnected secondPeer (some Driver.secondIp) 3 3, .sweep 100000 1000, .look, .look,
        .tearDown 100000]
    (machine Minicbor.derived).Along (KeepsMoney Minicbor.derived) (new ⟨0, 1⟩ [] []) steps ∧
      ((machine Minicbor.derived).final (new ⟨0, 1⟩ [] []) steps).credit samplePeer = 5000 ∧
      ((machine Minicbor.derived).final (new ⟨0, 1⟩ [] []) steps).entry secondPeer = none := by
  refine ⟨reaper_keeps_money Minicbor.derived ⟨0, 1⟩ [] [] _ ?_, ?_⟩
  · decide +kernel
  · decide +kernel

/-- A peer with credit has its next token refused and falls silent. -/
def refusedTopUp : List HostStep :=
  [.peerConnected samplePeer (some Driver.firstIp) 0 0,
    .messageReceived samplePeer sampleToken 1 1, .verified samplePeer (some 5000) 2,
    .messageReceived samplePeer sampleToken 3 3, .verified samplePeer none 4,
    .sweep 100000 1000, .look]

/-- A peer falls silent while its token is at the wallet. -/
def silentAtWallet : List HostStep :=
  [.peerConnected samplePeer (some Driver.firstIp) 0 0,
    .messageReceived samplePeer sampleToken 1 1, .sweep 100000 1000, .look]

/-- The first is torn down with its credit; the second is torn down before its verdict, and the
accepted amount goes to nobody. -/
theorem reaper_discards_money :
    let stranded := (machine Minicbor.derived).final (new ⟨0, 1⟩ [] []) refusedTopUp
    let waiting := (machine Minicbor.derived).final (new ⟨0, 1⟩ [] []) silentAtWallet
    (stranded.condemned = some samplePeer ∧ stranded.credit samplePeer = 5000 ∧
      (Host.step Minicbor.derived stranded (.tearDown 100000)).entry samplePeer = none) ∧
    (waiting.condemned = some samplePeer ∧ samplePeer ∈ waiting.verifying ∧
      ((machine Minicbor.derived).final waiting [.tearDown 100000,
        .verified samplePeer (some 5000) 100001]).credit samplePeer = 0) := by
  decide +kernel

end Host

end Tollgate
