import Tollgate.Library.Deferred
import Tollgate.Net.FirewallAgreement

/-!
# Decisions and their effects

The session lock orders the decisions, and it is released before their actions are carried out. A
call is then one turn that decides, and one more turn for every effect it has to carry out; turns of
different calls interleave freely. A token waits for the wallet in between, and its verdict is a
decision of its own.

`enforced_final` compares the outcome with the one of carrying every effect out in the order of the
decisions. An effect of one call may overtake a conflicting effect that another call decided on
earlier, and then it is the older decision that stays in force.
-/

set_option autoImplicit false
set_option relaxedAutoImplicit false

namespace Tollgate

open Std Deferred

/-- What a call does beside its event: the address an announce came from, an action of the session,
and the four tables that a departure clears one after the other. -/
inductive Effect
  | locate (peer : PeerId) (ip : Option IpAddr)
  | execute (action : Action)
  | forgetIp (peer : PeerId)
  | forgetSeen (peer : PeerId)
  | forgetMetered (peer : PeerId)
  | forgetQueue (peer : PeerId)
  deriving DecidableEq

/-- A call as it starts. -/
inductive Started
  | peerConnected (peer : PeerId) (ip : Option IpAddr) (seenAt now : Millis)
  | messageReceived (peer : PeerId) (bytes : Bytes) (seenAt now : Millis)
  | meter (peer : PeerId) (counters : Counters) (now : Millis)
  | peerDisconnected (peer : PeerId) (now : Millis)

/-- A turn of a task: it starts a call, or goes on with the one it has. The wallet's answer is there
for a token. -/
inductive Turn
  | start (task : ℕ) (call : Started)
  | proceed (task : ℕ) (answer : Option UInt64) (answeredAt : Millis)

/-- The driver between turns: which effects of which task are still to come, in the order in which
they were decided. -/
abbrev Running : Type := Deferred Driver ℕ Effect

namespace Driver

section Turns

variable (cbor : Minicbor) (driver : Driver)

/-- Carry an effect out. -/
def carry : Effect → Driver
  | .locate peer ip => driver.locate peer ip
  | .execute action => driver.execute cbor action
  | .forgetIp peer => { driver with peerIp := driver.peerIp.erase peer }
  | .forgetSeen peer => { driver with lastSeen := driver.lastSeen.erase peer }
  | .forgetMetered peer => { driver with metered := driver.metered.erase peer }
  | .forgetQueue peer => { driver with outbox := driver.outbox.erase peer }

/-- What a departed peer is forgotten by. -/
def forgetting (peer : PeerId) : List Effect :=
  [.forgetIp peer, .forgetSeen peer, .forgetMetered peer, .forgetQueue peer]

/-- What an announce is answered with. -/
def greeting (peer : PeerId) : List Effect :=
  if driver.priceSheet.isEmpty then [.execute (.send peer driver.announce)]
  else [.execute (.send peer driver.announce), .execute (.send peer driver.priceSheet)]

/-- The first turn of a call: up to the event and the release of the session. -/
def start : Started → Driver × List Effect
  | .peerConnected peer ip seenAt now =>
    let handled := ((driver.locate peer ip).touch peer seenAt).handle cbor (.peerConnected peer) now
    (handled.1, handled.2.map .execute ++ driver.greeting peer)
  | .messageReceived peer bytes seenAt now =>
    let handled := (driver.touch peer seenAt).handle cbor (.messageReceived peer bytes) now
    (handled.1, handled.2.map .execute)
  | .meter peer counters now =>
    let handled := driver.handle cbor (.meterSample peer counters) now
    (handled.1, handled.2.map .execute)
  | .peerDisconnected peer now =>
    let handled := driver.handle cbor (.peerDisconnected peer) now
    (handled.1, handled.2.map .execute ++ forgetting peer)

/-- The call that a start leads to, with the wallet's answer to come. -/
def call (answer : Option UInt64) (answeredAt : Millis) : Started → Call
  | .peerConnected peer ip seenAt now => .peerConnected peer ip seenAt now
  | .messageReceived peer bytes seenAt now =>
    .messageReceived peer bytes seenAt now answer answeredAt
  | .meter peer counters now => .meter peer counters now
  | .peerDisconnected peer now => .peerDisconnected peer now

theorem carryAll_execute (actions : List Action) :
    carryAll (carry cbor) driver (actions.map .execute) = driver.executeAll cbor actions := by
  rw [carryAll, List.foldl_map]
  rfl

/-- Assumes: no token to verify. A call that nothing interrupts is the call of the driver. -/
theorem step_eq_carryAll_start {started : Started} (answer : Option UInt64) (answeredAt : Millis)
    (hplain : ∀ peer bytes seenAt now, started = .messageReceived peer bytes seenAt now →
      ∀ message, PeerEvent.ofMessage cbor bytes ≠ .token message) :
    driver.step cbor (call answer answeredAt started) =
      carryAll (carry cbor) (driver.start cbor started).1 (driver.start cbor started).2 := by
  cases started with
  | peerConnected peer ip seenAt now =>
    simp only [call, step, start, carryAll_append, carryAll_execute, peerConnected, greeting]
    split_ifs <;> rfl
  | messageReceived peer bytes seenAt now =>
    simp only [call, step, start, carryAll_execute]
    rw [messageReceived_eq_feed (hplain peer bytes seenAt now rfl)]
    rfl
  | meter peer counters now =>
    simp only [call, step, start, carryAll_execute]
    rfl
  | peerDisconnected peer now =>
    simp only [call, step, start, carryAll_append, carryAll_execute]
    rfl

end Turns

end Driver

namespace Running

variable (cbor : Minicbor) (running : Running)

/-- The wallet's verdict, if a task waits for one. Its token is the only action of its message, so
nothing of the call is left behind it. -/
def verdict (task : ℕ) (answer : Option UInt64) : Option Event :=
  match running.next task with
  | some (.execute (.verifyBootstrapToken peer _)) =>
    some (.bootstrapVerified peer (Driver.verifyToken answer).2 (Driver.verifyToken answer).1)
  | _ => none

/-- One turn. A task starts a call only when it is done with the last one. -/
def turn : Turn → Running
  | .start task call =>
    if running.queue task = [] then
      let started := running.state.start cbor call
      Deferred.defer ⟨started.1, running.pending⟩ task started.2
    else running
  | .proceed task answer answeredAt =>
    let done := running.perform (Driver.carry cbor) task
    match Running.verdict running task answer with
    | some event =>
      let handled := done.state.handle cbor event answeredAt
      Deferred.defer ⟨handled.1, done.pending⟩ task (handled.2.map .execute)
    | none => done

/-- The driver over turns. -/
def machine : Transducer Running Turn Empty where
  step running turn := (Running.turn cbor running turn, [])

/-- The address that a call notes as it starts. -/
def noted : Started → List Effect
  | .peerConnected peer ip _ _ => [.locate peer ip]
  | .messageReceived _ _ _ _ | .meter _ _ _ | .peerDisconnected _ _ => []

/-- What a turn decides, in the order in which it is to take effect. -/
def decisions : Turn → List Effect
  | .start task call =>
    if running.queue task = [] then noted call ++ (running.state.start cbor call).2 else []
  | .proceed task answer answeredAt =>
    match Running.verdict running task answer with
    | some event =>
      let done := running.perform (Driver.carry cbor) task
      (done.state.handle cbor event answeredAt).2.map .execute
    | none => []

end Running

/-! ### What is enforced -/

/-- What of the driver decides who is let through and who is metered. -/
@[ext] structure Enforced where
  address : PeerId → Option IpAddr
  paid : Finset IpAddr
  metered : Finset PeerId

/-- What an effect changes about that, if anything. -/
inductive Change
  | access (peer : PeerId) (allowed : Bool)
  | metering (peer : PeerId) (on : Bool)
  | address (peer : PeerId) (ip : Option IpAddr)
  | nothing
  deriving DecidableEq

def Effect.change : Effect → Change
  | .locate peer (some ip) => .address peer (some ip)
  | .locate _ none => .nothing
  | .execute (.setAccess peer level) => .access peer level.allowsDelivery
  | .execute (.startMetering peer) => .metering peer true
  | .execute (.stopMetering peer) => .metering peer false
  | .execute (.send _ _) | .execute (.disconnect _) | .execute (.verifyBootstrapToken _ _) =>
    .nothing
  | .forgetIp peer => .address peer none
  | .forgetMetered peer => .metering peer false
  | .forgetSeen _ | .forgetQueue _ => .nothing

namespace Enforced

/-- Put an element in a set or take it out. -/
def toggle {α : Type*} [DecidableEq α] (set : Finset α) (member : α) (on : Bool) : Finset α :=
  if on then insert member set else set.erase member

/-- Two elements are put in or taken out in either order, and so is one element twice the same
way. -/
theorem toggle_comm {α : Type*} [DecidableEq α] (set : Finset α) {first second : α}
    {on also : Bool} (hfree : first = second → on = also) :
    toggle (toggle set first on) second also = toggle (toggle set second also) first on := by
  ext member
  unfold toggle
  by_cases hsame : first = second
  · obtain rfl := hfree hsame
    rw [hsame]
  · cases on <;> cases also <;>
      simp only [if_true, Bool.false_eq_true, if_false, Finset.mem_insert, Finset.mem_erase] <;>
      grind

/-- Make a change. Access is enforced at the address that the peer has now. -/
def after (enforced : Enforced) : Change → Enforced
  | .access peer allowed =>
    match enforced.address peer with
    | some ip => { enforced with paid := toggle enforced.paid ip allowed }
    | none => enforced
  | .metering peer on => { enforced with metered := toggle enforced.metered peer on }
  | .address peer ip => { enforced with address := Function.update enforced.address peer ip }
  | .nothing => enforced

def carry (enforced : Enforced) (effect : Effect) : Enforced :=
  enforced.after effect.change

/-- Two changes that depend on their order: opposite decisions about one address or one peer's
metering, and a decision about the access of a peer that changes its address. -/
def Conflicts (address : PeerId → Option IpAddr) : Change → Change → Prop
  | .access peer allowed, .access other allowedToo =>
    allowed ≠ allowedToo ∧ (address peer).isSome = true ∧ address peer = address other
  | .metering peer on, .metering other onToo => peer = other ∧ on ≠ onToo
  | .address peer ip, .address other ipToo => peer = other ∧ ip ≠ ipToo
  | .access peer _, .address other ip => peer = other ∧ address peer ≠ ip
  | .address other ip, .access peer _ => peer = other ∧ address peer ≠ ip
  | _, _ => False

instance (address : PeerId → Option IpAddr) (first second : Change) :
    Decidable (Conflicts address first second) := by
  cases first <;> cases second <;> first | exact instDecidableAnd | exact instDecidableFalse

variable {enforced : Enforced}

@[simp] theorem after_access_of_some {peer : PeerId} {ip : IpAddr}
    (hip : enforced.address peer = some ip) (allowed : Bool) :
    enforced.after (.access peer allowed) =
      { enforced with paid := toggle enforced.paid ip allowed } := by
  simp only [after, hip]

@[simp] theorem after_access_of_none {peer : PeerId} (hnowhere : enforced.address peer = none)
    (allowed : Bool) : enforced.after (.access peer allowed) = enforced := by
  simp only [after, hnowhere]

/-- Decisions about access and about something else than addresses do not see each other. -/
theorem access_metering_comm (peer other : PeerId) (allowed on : Bool) :
    (enforced.after (.access peer allowed)).after (.metering other on) =
      (enforced.after (.metering other on)).after (.access peer allowed) := by
  simp only [after]
  cases enforced.address peer <;> rfl

/-- Assumes: two decisions about access that agree, or that are about different addresses. -/
theorem access_access_comm {peer other : PeerId} {allowed allowedToo : Bool}
    (hfree : ¬ Conflicts enforced.address (.access peer allowed) (.access other allowedToo)) :
    (enforced.after (.access peer allowed)).after (.access other allowedToo) =
      (enforced.after (.access other allowedToo)).after (.access peer allowed) := by
  cases hpeer : enforced.address peer with
  | none =>
    rw [after_access_of_none hpeer]
    cases hother : enforced.address other with
    | none => rw [after_access_of_none hother, after_access_of_none hpeer]
    | some place =>
      rw [after_access_of_some hother, after_access_of_none]
      exact hpeer
  | some ip =>
    rw [after_access_of_some hpeer]
    cases hother : enforced.address other with
    | none =>
      rw [after_access_of_none hother, after_access_of_none, after_access_of_some hpeer]
      exact hother
    | some place =>
      have hsame : ip = place → allowed = allowedToo := by
        intro heq
        by_contra hne
        refine hfree ⟨hne, ?_, ?_⟩
        · rw [hpeer]
          rfl
        · rw [hpeer, hother, heq]
      rw [after_access_of_some hother, after_access_of_some, after_access_of_some,
        toggle_comm enforced.paid hsame]
      · exact hpeer
      · exact hother

/-- Assumes: a peer that has the address already, if it is the one that gets it. -/
theorem access_address_comm {peer other : PeerId} {ip : Option IpAddr}
    (hfree : peer = other → enforced.address peer = ip) (allowed : Bool) :
    (enforced.after (.access peer allowed)).after (.address other ip) =
      (enforced.after (.address other ip)).after (.access peer allowed) := by
  have hstays : Function.update enforced.address other ip peer = enforced.address peer := by
    by_cases hsame : peer = other
    · rw [← hsame, Function.update_self, hfree hsame]
    · rw [Function.update_of_ne hsame]
  cases hpeer : enforced.address peer with
  | none =>
    rw [after_access_of_none hpeer, after_access_of_none]
    exact hstays.trans hpeer
  | some place =>
    rw [after_access_of_some hpeer, after_access_of_some]
    · rfl
    · exact hstays.trans hpeer

/-- Assumes: changes that do not conflict. Their order makes no difference. -/
theorem after_comm {first second : Change}
    (hfree : ¬ Conflicts enforced.address first second) :
    (enforced.after first).after second = (enforced.after second).after first := by
  cases first with
  | nothing => cases second <;> rfl
  | metering peer on =>
    cases second with
    | metering other onToo =>
      have hsame : peer = other → on = onToo := by
        intro heq
        by_contra hne
        exact hfree ⟨heq, hne⟩
      simp only [after, toggle_comm enforced.metered hsame]
    | access other allowed => exact (access_metering_comm other peer allowed on).symm
    | address other ip => rfl
    | nothing => rfl
  | access peer allowed =>
    cases second with
    | access other allowedToo => exact access_access_comm hfree
    | metering other on => exact access_metering_comm peer other allowed on
    | address other ip =>
      refine access_address_comm (fun heq ↦ ?_) allowed
      by_contra hne
      exact hfree ⟨heq, hne⟩
    | nothing => rfl
  | address peer ip =>
    cases second with
    | access other allowed =>
      refine (access_address_comm (fun heq ↦ ?_) allowed).symm
      by_contra hne
      exact hfree ⟨heq, hne⟩
    | metering other on => rfl
    | address other ipToo =>
      by_cases hsame : peer = other
      · have hip : ip = ipToo := by
          by_contra hne
          exact hfree ⟨hsame, hne⟩
        rw [hsame, hip]
      · simp only [after, Function.update_comm hsame]
    | nothing => rfl

/-- Assumes: an effect that gives nobody an address. It leaves a later effect that it does not
conflict with as free of conflicts as that was. -/
theorem not_conflicts_after {earlier passed later : Change}
    (hclears : ∀ peer ip, earlier ≠ .address peer (some ip))
    (hfree : ¬ Conflicts enforced.address earlier later)
    (hpassed : ¬ Conflicts enforced.address passed later) :
    ¬ Conflicts (enforced.after earlier).address passed later := by
  have hsame : (∀ peer, earlier ≠ .address peer none) →
      (enforced.after earlier).address = enforced.address := by
    intro hnone
    cases earlier with
    | access peer allowed => cases hpeer : enforced.address peer <;> simp [hpeer]
    | address peer ip =>
      cases ip with
      | none => exact absurd rfl (hnone peer)
      | some ip => exact absurd rfl (hclears peer ip)
    | _ => rfl
  by_cases hforgets : ∃ gone, earlier = .address gone none
  · obtain ⟨gone, rfl⟩ := hforgets
    have haddress (peer : PeerId) : (enforced.after (.address gone none)).address peer =
        if peer = gone then none else enforced.address peer := Function.update_apply _ _ _ _
    cases passed <;> cases later <;> simp only [Conflicts, haddress] at hfree hpassed ⊢ <;> grind
  · rw [hsame fun peer heq ↦ hforgets ⟨peer, heq⟩]
    exact hpassed

/-- Assumes: effects that give nobody an address and do not conflict with `effect`. It may overtake
them. -/
theorem overtakes_of_free {effect : Effect} {before : List Effect}
    (hclears : ∀ earlier ∈ before, ∀ peer ip, earlier.change ≠ .address peer (some ip))
    (hfree : ∀ earlier ∈ before,
      ¬ Conflicts enforced.address earlier.change effect.change) :
    Overtakes carry effect enforced before := by
  induction before generalizing enforced with
  | nil => trivial
  | cons earlier rest ih =>
    have hfirst := hfree earlier List.mem_cons_self
    refine ⟨after_comm hfirst, ih ?_ ?_⟩
    · exact fun later hlater ↦ hclears later (List.mem_cons_of_mem _ hlater)
    · intro later hlater
      exact not_conflicts_after (hclears earlier List.mem_cons_self) hfirst
        (hfree later (List.mem_cons_of_mem _ hlater))

end Enforced

/-- What a driver enforces. -/
def Driver.enforced (driver : Driver) : Enforced where
  address peer := driver.peerIp[peer]?
  paid := driver.paid
  metered := driver.metered

/-- What an effect does to what is enforced, it does by its change. -/
theorem Driver.enforced_carry (cbor : Minicbor) (driver : Driver) (effect : Effect) :
    (driver.carry cbor effect).enforced = driver.enforced.carry effect := by
  cases effect with
  | locate peer ip =>
    cases ip with
    | none => rfl
    | some ip =>
      refine Enforced.ext (Function.eq_update_iff.mpr ⟨?_, fun other hother ↦ ?_⟩) rfl rfl
      · exact ExtTreeMap.getElem?_insert_self
      · show (driver.peerIp.insert peer ip)[other]? = _
        rw [ExtTreeMap.getElem?_insert, if_neg (by simpa using hother.symm)]
        rfl
  | execute action =>
    cases action with
    | setAccess peer level =>
      have haddress : driver.enforced.address peer = driver.peerIp[peer]? := rfl
      simp only [carry, execute, Enforced.carry, Effect.change, Enforced.after, haddress]
      cases driver.peerIp[peer]? with
      | none => rfl
      | some ip => cases level.allowsDelivery <;> simp [allow, deny, enforced, Enforced.toggle]
    | _ => rfl
  | forgetIp peer =>
    refine Enforced.ext (Function.eq_update_iff.mpr ⟨?_, fun other hother ↦ ?_⟩) rfl rfl
    · exact ExtTreeMap.getElem?_erase_self
    · show (driver.peerIp.erase peer)[other]? = _
      rw [ExtTreeMap.getElem?_erase, if_neg (by simpa using hother.symm)]
      rfl
  | _ => rfl

/-- The event of a call enforces nothing yet, beyond the address it notes. -/
theorem Driver.enforced_start (cbor : Minicbor) (driver : Driver) (call : Started) :
    (driver.start cbor call).1.enforced =
      carryAll Enforced.carry driver.enforced (Running.noted call) := by
  cases call with
  | peerConnected peer ip seenAt now => exact driver.enforced_carry cbor (.locate peer ip)
  | _ => rfl

/-! ### Runs -/

namespace Running

/-- The turn carries an effect out past a conflicting one that was decided before it and is still
to come. -/
def Races (running : Running) : Turn → Prop
  | .start task call =>
    running.queue task = [] ∧ ∃ effect ∈ noted call, ∃ entry ∈ running.pending,
      Enforced.Conflicts running.state.enforced.address entry.2.change effect.change
  | .proceed task _ _ =>
    ∃ effect ∈ running.next task, ∃ entry ∈ running.ahead task,
      Enforced.Conflicts running.state.enforced.address entry.2.change effect.change

instance (running : Running) : DecidablePred running.Races
  | .start _ _ => inferInstanceAs (Decidable (_ ∧ _))
  | .proceed _ _ _ => inferInstanceAs (Decidable (∃ _ ∈ _, _))

/-- Nothing that is still to come gives a peer an address. -/
def Clears (running : Running) : Prop :=
  ∀ entry ∈ running.pending, ∀ peer ip, entry.2.change ≠ .address peer (some ip)

/-- What will be enforced once everything decided is carried out in its order. -/
def dueEnforced (running : Running) : Enforced :=
  (running.map Driver.enforced).due Enforced.carry

variable {cbor : Minicbor} {running : Running}

theorem change_execute_ne (action : Action) (peer : PeerId) (ip : Option IpAddr) :
    (Effect.execute action).change ≠ .address peer ip := by
  cases action <;> simp [Effect.change]

/-- No call leaves it to a later turn to note an address. -/
theorem clears_start (driver : Driver) (call : Started) :
    ∀ effect ∈ (driver.start cbor call).2, ∀ peer ip,
      effect.change ≠ .address peer (some ip) := by
  have hactions (actions : List Action) :
      ∀ effect ∈ actions.map Effect.execute, ∀ peer ip,
        effect.change ≠ .address peer (some ip) := by
    intro effect heffect peer ip
    obtain ⟨action, -, rfl⟩ := List.mem_map.mp heffect
    exact change_execute_ne action peer (some ip)
  cases call with
  | peerConnected peer ip seenAt now =>
    intro effect heffect
    rcases List.mem_append.mp heffect with hdecided | hgreeting
    · exact hactions _ effect hdecided
    · unfold Driver.greeting at hgreeting
      split_ifs at hgreeting
      · obtain rfl := List.mem_singleton.mp hgreeting
        exact fun peer ip ↦ change_execute_ne _ peer (some ip)
      · rcases List.mem_pair.mp hgreeting with rfl | rfl
        · exact fun peer ip ↦ change_execute_ne _ peer (some ip)
        · exact fun peer ip ↦ change_execute_ne _ peer (some ip)
  | messageReceived peer bytes seenAt now => exact hactions _
  | meter peer counters now => exact hactions _
  | peerDisconnected peer now =>
    intro effect heffect
    rcases List.mem_append.mp heffect with hdecided | hforgetting
    · exact hactions _ effect hdecided
    · simp only [Driver.forgetting, List.mem_cons, List.not_mem_nil, or_false] at hforgetting
      rcases hforgetting with rfl | rfl | rfl | rfl <;> simp [Effect.change]

/-- Assumes: nothing pending gives a peer an address. What is deferred behind it may not either. -/
theorem Clears.defer {driver : Driver} {effects : List Effect} (hclears : running.Clears)
    (heffects : ∀ effect ∈ effects, ∀ peer ip, effect.change ≠ .address peer (some ip))
    (task : ℕ) : Clears (Deferred.defer ⟨driver, running.pending⟩ task effects) := by
  intro entry hentry
  rcases List.mem_append.mp hentry with hbefore | hdeferred
  · exact hclears entry hbefore
  · obtain ⟨effect, heffect, rfl⟩ := List.mem_map.mp hdeferred
    exact heffects effect heffect

theorem Clears.perform (hclears : running.Clears) (task : ℕ) :
    Clears (running.perform (Driver.carry cbor) task) :=
  fun entry hentry ↦ hclears entry (mem_pending_of_perform hentry)

theorem Clears.turn (hclears : running.Clears) (input : Turn) :
    Clears (Running.turn cbor running input) := by
  cases input with
  | start task call =>
    simp only [Running.turn]
    split_ifs
    · exact hclears.defer (clears_start running.state call) task
    · exact hclears
  | proceed task answer answeredAt =>
    simp only [Running.turn]
    cases Running.verdict running task answer with
    | none => exact hclears.perform task
    | some event =>
      refine (hclears.perform task).defer (fun effect heffect ↦ ?_) task
      obtain ⟨action, -, rfl⟩ := List.mem_map.mp heffect
      exact fun peer ip ↦ change_execute_ne action peer (some ip)

/-- Assumes: a task whose next effect does not race. Carrying it out leaves what is due as it is. -/
theorem dueEnforced_perform (hclears : running.Clears) {task : ℕ} {answer : Option UInt64}
    {answeredAt : Millis} (hordered : ¬ running.Races (.proceed task answer answeredAt)) :
    dueEnforced (running.perform (Driver.carry cbor) task) = running.dueEnforced := by
  unfold dueEnforced
  rw [map_perform (Driver.enforced_carry cbor)]
  refine due_perform fun effect hnext ↦ Enforced.overtakes_of_free ?_ ?_
  · intro earlier hearlier
    obtain ⟨entry, hentry, rfl⟩ := List.mem_map.mp hearlier
    exact hclears entry (List.takeWhile_subset _ hentry)
  · intro earlier hearlier hconflicts
    obtain ⟨entry, hentry, rfl⟩ := List.mem_map.mp hearlier
    exact hordered ⟨effect, hnext, entry, hentry, hconflicts⟩

/-- Assumes: a call whose address does not race. Its event changes what is due by that address
alone. -/
theorem dueEnforced_start (hclears : running.Clears) {task : ℕ} {call : Started}
    (hidle : running.queue task = []) (hordered : ¬ running.Races (.start task call)) :
    dueEnforced ⟨(running.state.start cbor call).1, running.pending⟩ =
      carryAll Enforced.carry running.dueEnforced (noted call) := by
  have hnoted : ∀ effect ∈ noted call, Overtakes Enforced.carry effect running.state.enforced
      (running.pending.map Prod.snd) := by
    intro effect heffect
    refine Enforced.overtakes_of_free ?_ ?_
    · intro earlier hearlier
      obtain ⟨entry, hentry, rfl⟩ := List.mem_map.mp hearlier
      exact hclears entry hentry
    · intro earlier hearlier hconflicts
      obtain ⟨entry, hentry, rfl⟩ := List.mem_map.mp hearlier
      exact hordered ⟨hidle, effect, heffect, entry, hentry, hconflicts⟩
  have hstart := running.state.enforced_start cbor call
  unfold dueEnforced Deferred.map
  rw [hstart]
  cases call with
  | peerConnected peer ip seenAt now =>
    have hovertakes := hnoted (.locate peer ip) List.mem_cons_self
    exact @due_immediate _ _ _ _ (running.map Driver.enforced) _ hovertakes
  | _ => rfl

theorem dueEnforced_defer (running : Running) (task : ℕ) (effects : List Effect) :
    dueEnforced (Deferred.defer running task effects) =
      carryAll Enforced.carry running.dueEnforced effects :=
  due_defer (running.map Driver.enforced) task effects

/-- Assumes: a turn that does not race. What is due changes by what the turn decides, in its
order. -/
theorem dueEnforced_turn (hclears : running.Clears) {input : Turn}
    (hordered : ¬ running.Races input) :
    dueEnforced (Running.turn cbor running input) =
      carryAll Enforced.carry running.dueEnforced (Running.decisions cbor running input) := by
  cases input with
  | start task call =>
    simp only [Running.turn, Running.decisions]
    split_ifs with hidle
    · rw [carryAll_append, ← @dueEnforced_start cbor running hclears task call hidle hordered]
      exact dueEnforced_defer _ task _
    · rfl
  | proceed task answer answeredAt =>
    have hperform := @dueEnforced_perform cbor running hclears task answer answeredAt hordered
    simp only [Running.turn, Running.decisions]
    cases Running.verdict running task answer with
    | none => exact hperform
    | some event =>
      rw [← hperform]
      exact dueEnforced_defer _ task _

/-- Assumes: a run in which no turn races. What is due at its end is what its decisions give, in
their order. -/
theorem dueEnforced_final (hclears : running.Clears) {inputs : List Turn}
    (hordered : (machine cbor).Along (fun running input ↦ ¬ running.Races input) running inputs) :
    dueEnforced ((machine cbor).final running inputs) =
      carryAll Enforced.carry running.dueEnforced
        ((machine cbor).observe (Running.decisions cbor) running inputs) := by
  induction inputs generalizing running with
  | nil => rfl
  | cons input rest ih =>
    rw [Transducer.final_cons, Transducer.observe_cons, carryAll_append,
      ← dueEnforced_turn hclears hordered.1]
    exact ih (hclears.turn input) hordered.2

/-- Assumes: a run in which no turn races, and that leaves nothing pending. What is enforced at its
end is what its decisions give, in their order. -/
theorem enforced_final {driver : Driver} {inputs : List Turn}
    (hordered : (machine cbor).Along (fun running input ↦ ¬ running.Races input) ⟨driver, []⟩
      inputs)
    (hfinished : ((machine cbor).final ⟨driver, []⟩ inputs).pending = []) :
    ((machine cbor).final ⟨driver, []⟩ inputs).state.enforced =
      carryAll Enforced.carry driver.enforced
        ((machine cbor).observe (Running.decisions cbor) ⟨driver, []⟩ inputs) := by
  have hclears : Clears ⟨driver, []⟩ := fun entry hentry ↦ absurd hentry List.not_mem_nil
  have hdue := dueEnforced_final hclears hordered
  have hend : dueEnforced ((machine cbor).final ⟨driver, []⟩ inputs) =
      ((machine cbor).final ⟨driver, []⟩ inputs).state.enforced := by
    unfold dueEnforced Deferred.map due
    rw [hfinished]
    rfl
  rw [← hend, hdue]
  rfl

end Running

end Tollgate
