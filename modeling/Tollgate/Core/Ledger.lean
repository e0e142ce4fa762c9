import Tollgate.Core.Billing

/-!
# The balance ledger

The balance of a peer, from the event that starts tracking it on. A verdict that accepts a token
credits its amount, a charged sample deducts what the balance covers of its cost, and nothing else
touches the balance. `LedgerStep` says this of one event and `balance_ledger` of a whole run: as
long as the credits fit the type, the balance and the deductions add up to the credits.
-/

set_option autoImplicit false
set_option relaxedAutoImplicit false

namespace Tollgate

open Std

/-! ### One entry -/

/-- The amount an event credits. -/
def PeerEvent.credit : PeerEvent → ℕ
  | verified amount true _ => amount.toNat
  | _ => 0

namespace Entry

/-- What a charged sample deducts: the part of the cost that the balance covers. -/
def deductions (price : Price) : Option PeerSession → PeerEvent → List ℕ :=
  atCharge fun entry counters now ↦
    min entry.balance.toNat (max (entry.sampleCost counters price now).toInt 0).toNat

variable (cbor : Minicbor) (price : Price) (policy : MeteringPolicy) (peer : PeerId)

/-- Assumes: an entry that an event leaves tracked, and a credit that fits. The balance after it and
the deduction make up the balance before it and the credit. -/
theorem balance_step {entry next : PeerSession} {event : PeerEvent}
    (hnext : (step cbor price policy peer (some entry) event).1 = some next)
    (hfits : entry.balance.toNat + event.credit < 2 ^ 64) :
    next.balance.toNat + (deductions price (some entry) event).sum =
      entry.balance.toNat + event.credit := by
  have hsame (hevent : event.credit = 0) (hbalance : next.balance = entry.balance)
      (hnone : deductions price (some entry) event = []) :
      next.balance.toNat + (deductions price (some entry) event).sum =
        entry.balance.toNat + event.credit := by
    rw [hevent, hbalance, hnone]
    rfl
  cases event with
  | disconnected => exact absurd hnext (by simp [step])
  | idle =>
    obtain rfl := Option.some.inj hnext
    exact hsame rfl rfl rfl
  | connected =>
    obtain rfl := Option.some.inj hnext
    exact hsame rfl rfl rfl
  | token message =>
    obtain rfl := Option.some.inj hnext
    exact hsame rfl rfl rfl
  | reject =>
    obtain rfl := Option.some.inj hnext
    have hbalance : (entry.receiveReject peer).1.balance = entry.balance := by
      unfold PeerSession.receiveReject
      split_ifs <;> rfl
    exact hsame rfl hbalance rfl
  | priceSheet sheet =>
    obtain rfl := Option.some.inj hnext
    exact hsame rfl rfl rfl
  | accept message =>
    obtain rfl := Option.some.inj hnext
    exact hsame rfl rfl rfl
  | report message =>
    obtain rfl := Option.some.inj hnext
    exact hsame rfl rfl rfl
  | verified amount ok now =>
    obtain rfl := Option.some.inj hnext
    cases ok with
    | false => exact hsame rfl rfl rfl
    | true =>
      have hcredit : (entry.bootstrapVerified cbor peer amount true now).1.balance =
          entry.balance.saturatingAdd amount := by
        by_cases hphase : entry.phase = .active
        · simp [PeerSession.bootstrapVerified, hphase]
        · simp [PeerSession.bootstrapVerified, hphase]
      rw [hcredit]
      exact UInt64.toNat_saturatingAdd_of_lt hfits
  | sample counters now =>
    by_cases hphase : entry.phase = .active
    · by_cases hread : entry.lastCounters = none
      · rw [step_sample_baseline cbor price policy peer hphase hread] at hnext
        obtain rfl := Option.some.inj hnext
        exact hsame rfl rfl (if_neg (by simp [hread]))
      · have hsome := Option.isSome_iff_ne_none.mpr hread
        rw [step_sample_charge cbor price policy peer hphase hsome] at hnext
        obtain rfl := Option.some.inj hnext
        have hafter : ((entry.chargeSample cbor peer price policy counters now).1.balance).toNat =
            entry.balance.toNat -
              (PeerSession.chargeOf (entry.sampleCost counters price now)).toNat :=
          entry.toNat_balanceAfter counters price now
        rw [deductions, atCharge_sample _ hphase hsome, hafter, PeerSession.toNat_chargeOf]
        simp only [List.sum_singleton, PeerEvent.credit]
        omega
    · rw [step_sample_inactive cbor price policy peer hphase] at hnext
      obtain rfl := Option.some.inj hnext
      exact hsame rfl rfl (atCharge_of_not _ (Or.inl hphase))

/-- Assumes: an entry that starts from `balance`, is tracked at every event and at the end, and
credits that fit. At the end the balance and the deductions add up to the credits. -/
theorem balance_run {entry : PeerSession} {events : List PeerEvent}
    (htracked : (machine cbor price policy peer).Throughout (fun state ↦ state.isSome = true)
      (some entry) events)
    (hfits : entry.balance.toNat + (events.map PeerEvent.credit).sum < 2 ^ 64) :
    ∃ reached, (machine cbor price policy peer).final (some entry) events = some reached ∧
      reached.balance.toNat +
          ((machine cbor price policy peer).observe (deductions price) (some entry) events).sum =
        entry.balance.toNat + (events.map PeerEvent.credit).sum := by
  induction events generalizing entry with
  | nil => exact ⟨entry, rfl, rfl⟩
  | cons event rest ih =>
    rw [Transducer.throughout_cons, machine_step] at htracked
    obtain ⟨next, hnext⟩ := Option.isSome_iff_exists.mp (htracked.2 [] List.nil_prefix)
    rw [Transducer.final_nil] at hnext
    rw [List.map_cons, List.sum_cons] at hfits ⊢
    have hstep := balance_step cbor price policy peer hnext (by omega)
    rw [hnext] at htracked
    obtain ⟨reached, hfinal, hrun⟩ := ih htracked.2 (by omega)
    refine ⟨reached, ?_, ?_⟩
    · rw [Transducer.final_cons, machine_step, hnext, hfinal]
    · rw [Transducer.observe_cons, machine_step, hnext, List.sum_append]
      omega

end Entry

/-! ### The session -/

/-- The amount an event credits to `peer`: that of an accepted verdict about it. -/
def credit (peer : PeerId) (input : Event × Millis) : ℕ :=
  match input.1 with
  | .bootstrapVerified other amount true => if other = peer then amount.toNat else 0
  | _ => 0

/-- What an event deducts from the balance of `peer`. -/
def Session.deductions (cbor : Minicbor) (peer : PeerId) (session : Session)
    (input : Event × Millis) : List ℕ :=
  Entry.deductions session.price session.peers[peer]? (PeerEvent.of cbor peer input)

/-- What one event may do to the balance of a tracked peer, from `entry` before it to `next` after
it. -/
structure LedgerStep (cbor : Minicbor) (peer : PeerId) (session : Session)
    (input : Event × Millis) (entry next : PeerSession) : Prop where
  balance_eq : next.balance.toNat + (session.deductions cbor peer input).sum =
    entry.balance.toNat + credit peer input
  deducted : ∀ amount ∈ session.deductions cbor peer input, ∃ counters,
    input.1 = .meterSample peer counters ∧ entry.phase = .active ∧
      entry.lastCounters.isSome = true ∧
      amount = min entry.balance.toNat
        (max (entry.sampleCost counters session.price input.2).toInt 0).toNat
  unchanged : (∀ counters, input.1 ≠ .meterSample peer counters) →
    (∀ amount, input.1 ≠ .bootstrapVerified peer amount true) → next.balance = entry.balance
  suspended : ∀ charge ∈ session.charges cbor peer input, 0 < charge.cost → next.balance = 0 →
    next.phase = .suspended

theorem PeerEvent.credit_of (cbor : Minicbor) (peer : PeerId) (input : Event × Millis) :
    (PeerEvent.of cbor peer input).credit = Tollgate.credit peer input := by
  obtain ⟨event, now⟩ := input
  by_cases hpeer : event.peer = some peer
  · cases event with
    | bootstrapVerified other amount ok =>
      obtain rfl : other = peer := Option.some.inj hpeer
      cases ok <;> simp [credit, Tollgate.credit]
    | messageReceived other bytes =>
      obtain rfl : other = peer := Option.some.inj hpeer
      rw [of_messageReceived]
      cases hseen : ofMessage cbor bytes with
      | verified amount ok now =>
        exact absurd hseen ((ofMessage_ne cbor bytes).2.1 amount ok now)
      | _ => rfl
    | _ => simp [of, hpeer, credit, Tollgate.credit]
  · rw [of_ne hpeer]
    cases event with
    | bootstrapVerified other amount ok =>
      have hne : other ≠ peer := fun heq ↦ hpeer (congrArg some heq)
      cases ok <;> simp [credit, Tollgate.credit, hne]
    | _ => rfl

/-- Assumes: a peer tracked before and after an event, and a credit that fits its balance. The
event keeps the ledger. -/
theorem ledgerStep {cbor : Minicbor} {peer : PeerId} {session : Session}
    {input : Event × Millis} {entry next : PeerSession}
    (hentry : session.peers[peer]? = some entry)
    (hnext : (session.handle cbor input.1 input.2).1.peers[peer]? = some next)
    (hfits : entry.balance.toNat + credit peer input < 2 ^ 64) :
    LedgerStep cbor peer session input entry next := by
  have hstep : (Entry.step cbor session.price session.policy peer (some entry)
      (PeerEvent.of cbor peer input)).1 = some next := by
    have hrel := (entrySimulation cbor session.price session.policy peer).step_rel session
      session.peers[peer]? input ⟨rfl, rfl, rfl⟩
    rw [hentry] at hrel
    exact hrel.2.2.symm.trans hnext
  have hbalance := Entry.balance_step cbor session.price session.policy peer hstep
    (by rw [PeerEvent.credit_of]; exact hfits)
  rw [PeerEvent.credit_of] at hbalance
  constructor
  · rw [Session.deductions, hentry]
    exact hbalance
  · intro amount hamount
    rw [Session.deductions, hentry] at hamount
    obtain ⟨counters, now, hseen, hphase, hread, hvalue⟩ := Entry.mem_atCharge hamount
    rw [PeerEvent.of_eq_sample_iff] at hseen
    subst hseen
    exact ⟨counters, rfl, hphase, hread, hvalue⟩
  · intro hsample hverdict
    have hnone : Entry.deductions session.price (some entry) (PeerEvent.of cbor peer input) =
        [] := by
      refine Entry.atCharge_of_not _ (Or.inr fun hthis ↦ ?_)
      obtain ⟨counters, hevent⟩ := (PeerEvent.isSample_of_iff cbor).mp hthis
      exact hsample counters hevent
    have hzero : credit peer input = 0 := by
      obtain ⟨event, now⟩ := input
      cases event with
      | bootstrapVerified other amount ok =>
        cases ok with
        | false => rfl
        | true =>
          refine if_neg fun hpeer ↦ hverdict amount ?_
          rw [hpeer]
      | _ => rfl
    rw [hnone, hzero, List.sum_nil, Nat.add_zero, Nat.add_zero] at hbalance
    exact UInt64.toNat_inj.mp hbalance
  · intro charge hcharge hpositive hzero
    rw [Session.charges, hentry, Entry.charges_eq_atCharge] at hcharge
    obtain ⟨counters, now, hseen, hphase, hread, rfl⟩ := Entry.mem_atCharge hcharge
    rw [hseen,
      Entry.step_sample_charge cbor session.price session.policy peer hphase hread] at hstep
    obtain rfl := Option.some.inj hstep
    have hexhausted : entry.exhausted counters session.price now = true := by
      rw [PeerSession.exhausted, Bool.and_eq_true, decide_eq_true_iff, decide_eq_true_iff]
      exact ⟨hpositive, hzero⟩
    simp [PeerSession.chargeSample, PeerSession.cut, hexhausted]

/-- The credits of a run, as the entry sees them. -/
theorem sum_credit (cbor : Minicbor) (peer : PeerId) (events : List (Event × Millis)) :
    ((events.map (PeerEvent.of cbor peer)).map PeerEvent.credit).sum =
      (events.map (credit peer)).sum := by
  rw [List.map_map]
  congr 1
  exact List.map_congr_left fun input _ ↦ PeerEvent.credit_of cbor peer input

/-- The deductions of a run are those of the one-peer machine. -/
theorem observe_deductions (cbor : Minicbor) (session : Session) (peer : PeerId)
    (events : List (Event × Millis)) :
    (Session.machine cbor).observe (Session.deductions cbor peer) session events =
      (Entry.machine cbor session.price session.policy peer).observe
        (Entry.deductions session.price) session.peers[peer]?
        (events.map (PeerEvent.of cbor peer)) :=
  (entrySimulation cbor session.price session.policy peer).observe _ _
    (fun _ _ _ hentry ↦ by rw [Session.deductions, hentry.2.2, hentry.1]) ⟨rfl, rfl, rfl⟩ events

/-- Assumes: an event that starts tracking `peer`. It connects the peer, and credits nothing. -/
theorem connected_of_tracked {cbor : Minicbor} {session : Session} {peer : PeerId}
    (huntracked : session.peers[peer]? = none) {input : Event × Millis}
    (htracked : (session.handle cbor input.1 input.2).1.peers[peer]?.isSome = true) :
    PeerEvent.of cbor peer input = .connected ∧
      (session.handle cbor input.1 input.2).1.peers[peer]? = some PeerSession.new ∧
      credit peer input = 0 := by
  obtain ⟨joined, hjoined⟩ := Option.isSome_iff_exists.mp htracked
  have hstep := hjoined
  rw [session.getElem?_handle cbor peer, huntracked] at hstep
  obtain ⟨hconnected, rfl⟩ := Entry.step_untracked hstep
  refine ⟨hconnected, hjoined, ?_⟩
  rw [← PeerEvent.credit_of cbor, hconnected]
  rfl

/-- Assumes: an event that starts tracking `peer`, a run after it through which the peer stays
tracked, and credits that fit. The balance at its end. -/
theorem balance_since_tracked {cbor : Minicbor} {session : Session} {peer : PeerId}
    (huntracked : session.peers[peer]? = none) {input : Event × Millis}
    {events : List (Event × Millis)}
    (htracked : (Session.machine cbor).Throughout
      (fun session ↦ session.peers[peer]?.isSome = true)
      (session.handle cbor input.1 input.2).1 events)
    (hfits : (events.map (credit peer)).sum < 2 ^ 64) :
    ∃ entry, ((Session.machine cbor).final session (input :: events)).peers[peer]? = some entry ∧
      entry.balance.toNat +
          ((Session.machine cbor).observe (Session.deductions cbor peer) session
            (input :: events)).sum =
        ((input :: events).map (credit peer)).sum := by
  obtain ⟨hconnected, hjoined, hzero⟩ :=
    connected_of_tracked huntracked (htracked [] List.nil_prefix)
  have hsim := entrySimulation cbor session.price session.policy peer
  have hrel := hsim.step_rel session none input ⟨rfl, rfl, huntracked⟩
  have hstep : (Entry.step cbor session.price session.policy peer none
      (PeerEvent.of cbor peer input)).1 = some PeerSession.new := hrel.2.2.symm.trans hjoined
  have hview := (hsim.throughout (fun session ↦ session.peers[peer]?.isSome = true)
    (fun entry ↦ entry.isSome = true) (fun _ _ hentry ↦ by rw [hentry.2.2]) hrel events).mp htracked
  rw [Entry.machine_step, hstep] at hview
  obtain ⟨reached, hfinal, hbalance⟩ := Entry.balance_run cbor session.price session.policy peer
    hview (by rw [sum_credit]; simpa [PeerSession.new] using hfits)
  rw [sum_credit] at hbalance
  refine ⟨reached, ?_, ?_⟩
  · rw [getElem?_final, huntracked, List.map_cons, Transducer.final_cons, Entry.machine_step, hstep,
      hfinal]
  · rw [observe_deductions, huntracked, List.map_cons, Transducer.observe_cons,
      Entry.machine_step, hstep, hconnected, List.map_cons, List.sum_cons, hzero]
    simpa [Entry.deductions, Entry.atCharge, PeerSession.new] using hbalance

/-- Assumes: an event that starts tracking `peer`, a run after it through which the peer stays
tracked, and credits that add up to less than `2 ^ 64`. At its end the balance and the deductions
add up to the credits, and every event of the run keeps the ledger. -/
theorem balance_ledger {cbor : Minicbor} {session : Session} {peer : PeerId}
    (huntracked : session.peers[peer]? = none) {input : Event × Millis}
    {events : List (Event × Millis)}
    (htracked : (Session.machine cbor).Throughout
      (fun session ↦ session.peers[peer]?.isSome = true)
      (session.handle cbor input.1 input.2).1 events)
    (hfits : (events.map (credit peer)).sum < 2 ^ 64) :
    (∃ entry, ((Session.machine cbor).final session (input :: events)).peers[peer]? = some entry ∧
      entry.balance.toNat +
          ((Session.machine cbor).observe (Session.deductions cbor peer) session
            (input :: events)).sum =
        ((input :: events).map (credit peer)).sum) ∧
      (Session.machine cbor).Along
        (fun session input ↦ ∀ entry next, session.peers[peer]? = some entry →
          (session.handle cbor input.1 input.2).1.peers[peer]? = some next →
          LedgerStep cbor peer session input entry next) session (input :: events) := by
  refine ⟨balance_since_tracked huntracked htracked hfits, fun entry _ hentry ↦ ?_, ?_⟩
  · rw [huntracked] at hentry
    exact absurd hentry (by simp)
  · rw [Transducer.along_iff_forall_cut]
    intro before next after hcut entry reached hentry hreached
    have hbefore : (Session.machine cbor).Throughout
        (fun session ↦ session.peers[peer]?.isSome = true)
        (session.handle cbor input.1 input.2).1 before := fun taken htaken ↦
      htracked taken (htaken.trans ⟨next :: after, hcut.symm⟩)
    rw [hcut, List.map_append, List.map_cons, List.sum_append, List.sum_cons] at hfits
    obtain ⟨shown, hshown, hbalance⟩ := balance_since_tracked huntracked hbefore (by omega)
    have hsame : shown = entry := Option.some.inj (hshown.symm.trans hentry)
    have hzero := (connected_of_tracked huntracked (htracked [] List.nil_prefix)).2.2
    rw [List.map_cons, List.sum_cons, hsame, hzero] at hbalance
    exact ledgerStep hentry hreached (by omega)

/-- A peer that pays, is metered and pays again: what is left is the credits less the charge. -/
theorem balance_ledger_of_topUp :
    ∃ entry, ((Session.machine Minicbor.derived).final
        (Session.start ⟨0, 1⟩ MeteringPolicy.default)
        [(.peerConnected samplePeer, 0), (.bootstrapVerified samplePeer 500 true, 1),
          (.meterSample samplePeer ⟨0, 0⟩, 2), (.meterSample samplePeer ⟨70, 0⟩, 3),
          (.bootstrapVerified samplePeer 40 true, 4)]).peers[samplePeer]? = some entry ∧
      entry.balance.toNat + ((Session.machine Minicbor.derived).observe
        (Session.deductions Minicbor.derived samplePeer)
        (Session.start ⟨0, 1⟩ MeteringPolicy.default)
        [(.peerConnected samplePeer, 0), (.bootstrapVerified samplePeer 500 true, 1),
          (.meterSample samplePeer ⟨0, 0⟩, 2), (.meterSample samplePeer ⟨70, 0⟩, 3),
          (.bootstrapVerified samplePeer 40 true, 4)]).sum = 540 := by
  have hledger := (balance_ledger (by decide +kernel)
    (show (Session.machine Minicbor.derived).Throughout
      (fun session ↦ session.peers[samplePeer]?.isSome = true)
      ((Session.start ⟨0, 1⟩ MeteringPolicy.default).handle Minicbor.derived
        (.peerConnected samplePeer, (0 : Millis)).1 0).1
      [(.bootstrapVerified samplePeer 500 true, 1), (.meterSample samplePeer ⟨0, 0⟩, 2),
        (.meterSample samplePeer ⟨70, 0⟩, 3), (.bootstrapVerified samplePeer 40 true, 4)] by
      decide +kernel) (by decide +kernel)).1
  obtain ⟨entry, hentry, hbalance⟩ := hledger
  exact ⟨entry, hentry, hbalance.trans (by decide +kernel)⟩

end Tollgate
