import Tollgate.Library.Tenancy
import Tollgate.Library.Transducer
import Tollgate.Net.SessionManager

/-!
# One paid session for a gateway

`handle_gateway_connected` looks whether the gateway has a session, connects, spawns a tracker and
writes the entry; only the first and the last of these steps hold a lock. Here any number of calls
take them one by one, in between those of other calls, of `handle_disconnect` and of `stop`.

Two calls for one gateway that both look before either has written both pay, and the entry of the
first is overwritten together with the only handle of its tracker. `one_paid_session_per_gateway`
excludes all of that for runs in which no call looks while another one for its gateway is under way:
for every gateway what happens is then a history of a place for one tenant.
-/

set_option autoImplicit false
set_option relaxedAutoImplicit false

namespace Tollgate

open Std

/-! ### Calls, step by step -/

/-- How far a call has come: past the check, connected, with its tracker, or returned. -/
inductive ConnectStage
  | checked
  | connected (client : V1Client) (spent : List UpstreamPayment)
  | tracking (client : V1Client) (spent : List UpstreamPayment) (tracker : ℕ)
  | returned

/-- With a tracker that no session has yet. -/
def ConnectStage.isTracking : ConnectStage → Bool
  | .tracking _ _ _ => true
  | .checked | .connected _ _ | .returned => false

/-- A call of `handle_gateway_connected`. -/
structure ConnectCall where
  interfaceName : String
  gatewayIp : String
  stage : ConnectStage

/-- Past its check and not returned. -/
def ConnectCall.isOpen (call : ConnectCall) : Bool :=
  match call.stage with
  | .returned => false
  | .checked | .connected _ _ | .tracking _ _ _ => true

/-- The manager and all the calls so far. -/
structure Connects where
  manager : SessionManager
  calls : ExtTreeMap ℕ ConnectCall

/-- One step of a call, or a disconnect or the stop as a whole: they hold the lock throughout. -/
inductive ConnectStep
  | check (call : ℕ) (interfaceName gatewayIp : String)
  | connect (call : ℕ) (replies : ConnectReplies)
  | spawn (call : ℕ)
  | insert (call : ℕ)
  | disconnect (interfaceName : String)
  | stop

/-- What can be seen of a run: a call that finds no session and goes on, a call that returns, with
what it paid, and a session that is removed. -/
inductive ConnectEvent
  | checked (call : ℕ) (gatewayIp : String)
  | returned (call : ℕ) (gatewayIp : String) (result : Except SessionManagerError Unit)
    (spent : List UpstreamPayment)
  | removed (gatewayIp : String)
  deriving DecidableEq

def ConnectEvent.gatewayIp : ConnectEvent → String
  | .checked _ gatewayIp | .returned _ gatewayIp _ _ | .removed gatewayIp => gatewayIp

namespace Connects

/-- No calls yet, and a manager without sessions. -/
def start (clientConfig : V1ClientConfig) : Connects :=
  ⟨SessionManager.new clientConfig, ∅⟩

def setStage (state : Connects) (call : ℕ) (entry : ConnectCall) (stage : ConnectStage) :
    Connects :=
  { state with calls := state.calls.insert call { entry with stage := stage } }

/-- One step. A step that its call is not ready for does nothing. -/
def step (state : Connects) : ConnectStep → Connects × List ConnectEvent
  | .check call interfaceName gatewayIp =>
    match state.calls[call]? with
    | some _ => (state, [])
    | none =>
      if state.manager.sessions.contains gatewayIp then
        (state.setStage call ⟨interfaceName, gatewayIp, .checked⟩ .returned,
          [.returned call gatewayIp (.error (.sessionExists gatewayIp)) []])
      else
        (state.setStage call ⟨interfaceName, gatewayIp, .checked⟩ .checked,
          [.checked call gatewayIp])
  | .connect call replies =>
    match state.calls[call]? with
    | some ⟨interfaceName, gatewayIp, .checked⟩ =>
      match state.manager.connectClient gatewayIp replies with
      | (.ok client, spent) =>
        (state.setStage call ⟨interfaceName, gatewayIp, .checked⟩ (.connected client spent), [])
      | (.error error, spent) =>
        (state.setStage call ⟨interfaceName, gatewayIp, .checked⟩ .returned,
          [.returned call gatewayIp (.error (.client error)) spent])
    | _ => (state, [])
  | .spawn call =>
    match state.calls[call]? with
    | some ⟨interfaceName, gatewayIp, .connected client spent⟩ =>
      (setStage { state with manager := state.manager.spawnUsageTracker gatewayIp } call
        ⟨interfaceName, gatewayIp, .connected client spent⟩
        (.tracking client spent state.manager.trackers.length), [])
    | _ => (state, [])
  | .insert call =>
    match state.calls[call]? with
    | some ⟨interfaceName, gatewayIp, .tracking client spent tracker⟩ =>
      (setStage
        { state with
          manager := state.manager.insertSession interfaceName gatewayIp client tracker }
        call ⟨interfaceName, gatewayIp, .tracking client spent tracker⟩ .returned,
        [.returned call gatewayIp (.ok ()) spent])
    | _ => (state, [])
  | .disconnect interfaceName =>
    ({ state with manager := state.manager.handleDisconnect interfaceName },
      (state.manager.gatewaysOn interfaceName).map .removed)
  | .stop =>
    ({ state with manager := state.manager.stop }, state.manager.sessions.keys.map .removed)

def machine : Transducer Connects ConnectStep ConnectEvent where
  step := step

/-- A call under way for a gateway: past its check and not returned. -/
def InFlight (state : Connects) (call : ℕ) (gatewayIp : String) : Prop :=
  ∃ entry, state.calls[call]? = some entry ∧ entry.gatewayIp = gatewayIp ∧ entry.isOpen = true

/-- A check while another call for the same gateway is under way. -/
def Overlaps (state : Connects) : ConnectStep → Prop
  | .check _ _ gatewayIp => ∃ other, state.InFlight other gatewayIp
  | .connect _ _ | .spawn _ | .insert _ | .disconnect _ | .stop => False

/-- The steps of a call in a row are `handle_gateway_connected` as a whole. -/
theorem final_call_alone (state : Connects) {call : ℕ} (hcall : state.calls[call]? = none)
    (interfaceName gatewayIp : String) (replies : ConnectReplies) :
    (machine.final state [.check call interfaceName gatewayIp, .connect call replies, .spawn call,
      .insert call]).manager =
      (state.manager.handleGatewayConnected interfaceName gatewayIp replies).2 := by
  rw [SessionManager.handleGatewayConnected]
  split_ifs with hcontains
  · simp [machine, step, hcall, hcontains, setStage]
  · rcases hconnect : state.manager.connectClient gatewayIp replies with ⟨error | client, spent⟩
    · simp [machine, step, hcall, hcontains, setStage, hconnect]
    · simp [machine, step, hcall, hcontains, setStage, hconnect]

/-! ### What a run should show -/

/-- A call that paid and returned `Ok` for a gateway. -/
def paysAndReturnsOk (gatewayIp : String) : ConnectEvent → Bool
  | .returned _ other (.ok ()) spent => other = gatewayIp ∧ spent ≠ []
  | .returned _ _ (.error _) _ | .checked _ _ | .removed _ => false

/-- One paid session for a gateway. Between two removals at most one call pays and returns `Ok`.
When one that returns `Ok` passes its check nobody else is under way, and from there until its
session is removed all that any call for the gateway does is to return `SessionExists` without
paying. -/
structure OnePaidSession (events : List ConnectEvent) : Prop where
  once : ∀ gatewayIp segment, segment <:+: events → .removed gatewayIp ∉ segment →
    segment.countP (paysAndReturnsOk gatewayIp) ≤ 1
  alone : ∀ gatewayIp call before flight spent after,
    events = before ++ .checked call gatewayIp ::
      (flight ++ .returned call gatewayIp (.ok ()) spent :: after) →
    ∀ other, .checked other gatewayIp ∈ before →
      ∃ result spent, .returned other gatewayIp result spent ∈ before
  refused : ∀ gatewayIp call before flight spent live after,
    events = before ++ .checked call gatewayIp ::
      (flight ++ .returned call gatewayIp (.ok ()) spent :: (live ++ after)) →
    .checked call gatewayIp ∉ flight → .removed gatewayIp ∉ live →
    ∀ event ∈ flight ++ live, event.gatewayIp = gatewayIp →
      ∃ other, event = .returned other gatewayIp (.error (.sessionExists gatewayIp)) []

/-- Every tracker that was spawned belongs to a session in the map, or it has been stopped, or the
call that spawned it is about to write its session. -/
def NoOrphans (state : Connects) : Prop :=
  ∀ tracker < state.manager.trackers.length,
    state.manager.IsStopped tracker ∨
    (∃ (gatewayIp : String) (session : UpstreamSessionState),
      state.manager.sessions[gatewayIp]? = some session ∧ session.tracker = tracker) ∨
    ∃ (call : ℕ) (interfaceName gatewayIp : String) (client : V1Client)
      (spent : List UpstreamPayment),
      state.calls[call]? = some ⟨interfaceName, gatewayIp, .tracking client spent tracker⟩

/-! ### A gateway as a place for one call -/

/-- The part of the events that is about one gateway. -/
def view (gatewayIp : String) : ConnectEvent → Option (Tenancy.Event ℕ)
  | .checked call other => if other = gatewayIp then some (.enters call) else none
  | .returned call other result _ =>
    if other = gatewayIp then
      match result with
      | .ok () => some (.settles call)
      | .error (.sessionExists _) => some (.isRefused call)
      | .error (.noSession _) | .error (.client _) => some (.leaves call)
    else none
  | .removed other => if other = gatewayIp then some .isVacated else none

/-- How a gateway stands: whether it has a session, and which calls are under way. -/
def Stands (state : Connects) (gatewayIp : String) : Tenancy.Phase ℕ → Prop
  | .vacant => gatewayIp ∉ state.manager.sessions ∧ ∀ call, ¬ state.InFlight call gatewayIp
  | .entering call =>
    gatewayIp ∉ state.manager.sessions ∧ ∀ other, state.InFlight other gatewayIp ↔ other = call
  | .settled _ => gatewayIp ∈ state.manager.sessions ∧ ∀ call, ¬ state.InFlight call gatewayIp

theorem inFlight_setStage (state : Connects) (call : ℕ) (entry : ConnectCall)
    (stage : ConnectStage) (other : ℕ) (gatewayIp : String) :
    (state.setStage call entry stage).InFlight other gatewayIp ↔
      if other = call then
        entry.gatewayIp = gatewayIp ∧ ConnectCall.isOpen { entry with stage := stage } = true
      else state.InFlight other gatewayIp := by
  simp only [InFlight, setStage, ExtTreeMap.getElem?_insert, Std.compare_eq_iff_eq]
  by_cases hsame : other = call
  · simp [hsame]
  · simp [hsame, Ne.symm hsame]

/-- What a step that overlaps with no other call can do. -/
inductive Moves (state : Connects) : Connects → List ConnectEvent → Prop
  | rests : Moves state state []
  | refuses (call : ℕ) (interfaceName gatewayIp : String) (hnew : state.calls[call]? = none)
    (hsession : gatewayIp ∈ state.manager.sessions) :
    Moves state (state.setStage call ⟨interfaceName, gatewayIp, .checked⟩ .returned)
      [.returned call gatewayIp (.error (.sessionExists gatewayIp)) []]
  | checks (call : ℕ) (interfaceName gatewayIp : String) (hnew : state.calls[call]? = none)
    (hsession : gatewayIp ∉ state.manager.sessions)
    (halone : ∀ other, ¬ state.InFlight other gatewayIp) :
    Moves state (state.setStage call ⟨interfaceName, gatewayIp, .checked⟩ .checked)
      [.checked call gatewayIp]
  | connects (call : ℕ) (interfaceName gatewayIp : String) (client : V1Client)
    (spent : List UpstreamPayment)
    (hcall : state.calls[call]? = some ⟨interfaceName, gatewayIp, .checked⟩) :
    Moves state
      (state.setStage call ⟨interfaceName, gatewayIp, .checked⟩ (.connected client spent)) []
  | fails (call : ℕ) (interfaceName gatewayIp : String) (error : V1ClientError)
    (spent : List UpstreamPayment)
    (hcall : state.calls[call]? = some ⟨interfaceName, gatewayIp, .checked⟩) :
    Moves state (state.setStage call ⟨interfaceName, gatewayIp, .checked⟩ .returned)
      [.returned call gatewayIp (.error (.client error)) spent]
  | spawns (call : ℕ) (interfaceName gatewayIp : String) (client : V1Client)
    (spent : List UpstreamPayment)
    (hcall : state.calls[call]? = some ⟨interfaceName, gatewayIp, .connected client spent⟩) :
    Moves state
      (setStage { state with manager := state.manager.spawnUsageTracker gatewayIp } call
        ⟨interfaceName, gatewayIp, .connected client spent⟩
        (.tracking client spent state.manager.trackers.length)) []
  | inserts (call : ℕ) (interfaceName gatewayIp : String) (client : V1Client)
    (spent : List UpstreamPayment) (tracker : ℕ)
    (hcall : state.calls[call]? = some ⟨interfaceName, gatewayIp, .tracking client spent tracker⟩) :
    Moves state
      (setStage
        { state with
          manager := state.manager.insertSession interfaceName gatewayIp client tracker }
        call ⟨interfaceName, gatewayIp, .tracking client spent tracker⟩ .returned)
      [.returned call gatewayIp (.ok ()) spent]
  | removes (gatewayIps : List String) (cancelled : Bool) (hnodup : gatewayIps.Nodup)
    (hsessions : ∀ gatewayIp ∈ gatewayIps, gatewayIp ∈ state.manager.sessions) :
    Moves state
      { state with
        manager := gatewayIps.foldl SessionManager.removeSession
          { state.manager with cancelled := cancelled } }
      (gatewayIps.map .removed)

/-- Assumes: a step that overlaps with no other call. It is one of the moves. -/
theorem step_moves (state : Connects) (step : ConnectStep) (halone : ¬ state.Overlaps step) :
    Moves state (state.step step).1 (state.step step).2 := by
  cases step with
  | check call interfaceName gatewayIp =>
    cases hcall : state.calls[call]? with
    | some entry =>
      simp only [Connects.step, hcall]
      exact .rests
    | none =>
      simp only [Connects.step, hcall]
      split_ifs with hcontains
      · exact .refuses call interfaceName gatewayIp hcall (ExtTreeMap.contains_iff_mem.mp hcontains)
      · refine .checks call interfaceName gatewayIp hcall ?_ ?_
        · exact fun hmem ↦ hcontains (ExtTreeMap.contains_iff_mem.mpr hmem)
        · exact fun other hother ↦ halone ⟨other, hother⟩
  | connect call replies =>
    rcases hcall : state.calls[call]? with
      - | ⟨interfaceName, gatewayIp, - | ⟨client, spent⟩ | ⟨client, spent, tracker⟩ | -⟩
    case some.checked =>
      simp only [Connects.step, hcall]
      rcases state.manager.connectClient gatewayIp replies with ⟨error | client, spent⟩
      · exact .fails call interfaceName gatewayIp error spent hcall
      · exact .connects call interfaceName gatewayIp client spent hcall
    all_goals
      simp only [Connects.step, hcall]
      exact .rests
  | spawn call =>
    rcases hcall : state.calls[call]? with
      - | ⟨interfaceName, gatewayIp, - | ⟨client, spent⟩ | ⟨client, spent, tracker⟩ | -⟩
    case some.connected =>
      simp only [Connects.step, hcall]
      exact .spawns call interfaceName gatewayIp client spent hcall
    all_goals
      simp only [Connects.step, hcall]
      exact .rests
  | insert call =>
    rcases hcall : state.calls[call]? with
      - | ⟨interfaceName, gatewayIp, - | ⟨client, spent⟩ | ⟨client, spent, tracker⟩ | -⟩
    case some.tracking =>
      simp only [Connects.step, hcall]
      exact .inserts call interfaceName gatewayIp client spent tracker hcall
    all_goals
      simp only [Connects.step, hcall]
      exact .rests
  | disconnect interfaceName =>
    refine .removes (state.manager.gatewaysOn interfaceName) state.manager.cancelled
      (state.manager.nodup_gatewaysOn interfaceName) fun gatewayIp hgateway ↦ ?_
    obtain ⟨session, hsession, -⟩ := SessionManager.mem_gatewaysOn.mp hgateway
    exact ExtTreeMap.mem_iff_isSome_getElem?.mpr (by rw [hsession]; rfl)
  | stop =>
    refine .removes state.manager.sessions.keys true ExtTreeMap.nodup_keys fun gatewayIp hkey ↦ ?_
    exact ExtTreeMap.mem_keys.mp hkey

section Stands

variable {state next : Connects} {gatewayIp : String} {phase : Tenancy.Phase ℕ}

/-- Assumes: a move that changes neither whether a gateway has a session nor which calls for it are
under way. The gateway stands as before. -/
theorem Stands.frame (hstands : state.Stands gatewayIp phase)
    (hsession : gatewayIp ∈ next.manager.sessions ↔ gatewayIp ∈ state.manager.sessions)
    (hflight : ∀ call, next.InFlight call gatewayIp ↔ state.InFlight call gatewayIp) :
    next.Stands gatewayIp phase := by
  cases phase with
  | vacant => simpa only [Stands, hsession, hflight] using hstands
  | entering tenant => simpa only [Stands, hsession, hflight] using hstands
  | settled tenant => simpa only [Stands, hsession, hflight] using hstands

theorem Stands.eq_entering (hstands : state.Stands gatewayIp phase) {call : ℕ}
    (hflight : state.InFlight call gatewayIp) : phase = .entering call := by
  cases phase with
  | vacant => exact absurd hflight (hstands.2 call)
  | entering tenant => rw [(hstands.2 call).mp hflight]
  | settled tenant => exact absurd hflight (hstands.2 call)

theorem Stands.eq_settled (hstands : state.Stands gatewayIp phase)
    (hsession : gatewayIp ∈ state.manager.sessions) : ∃ tenant, phase = .settled tenant := by
  cases phase with
  | vacant => exact absurd hsession hstands.1
  | entering tenant => exact absurd hsession hstands.1
  | settled tenant => exact ⟨tenant, rfl⟩

theorem Stands.eq_vacant (hstands : state.Stands gatewayIp phase)
    (hsession : gatewayIp ∉ state.manager.sessions)
    (hflight : ∀ call, ¬ state.InFlight call gatewayIp) : phase = .vacant := by
  cases phase with
  | vacant => rfl
  | entering tenant => exact absurd ((hstands.2 tenant).mpr rfl) (hflight tenant)
  | settled tenant => exact absurd hstands.1 hsession

/-- Assumes: the calls go on with a stage of the same kind. The same calls are under way. -/
theorem inFlight_setStage_of_isOpen {call : ℕ} {entry : ConnectCall}
    (hcall : state.calls[call]? = some entry) (hopen : entry.isOpen = true) {stage : ConnectStage}
    (hstage : ConnectCall.isOpen { entry with stage := stage } = true) (manager : SessionManager)
    (other : ℕ) :
    (setStage { state with manager := manager } call entry stage).InFlight other gatewayIp ↔
      state.InFlight other gatewayIp := by
  rw [inFlight_setStage]
  split_ifs with hsame
  · simp [hsame, InFlight, hcall, hopen, hstage]
  · rfl

/-- The events of a removal that are about one gateway. -/
theorem filterMap_view_removed {gatewayIps : List String} (hnodup : gatewayIps.Nodup)
    (gatewayIp : String) :
    (gatewayIps.map ConnectEvent.removed).filterMap (view gatewayIp) =
      if gatewayIp ∈ gatewayIps then [.isVacated] else [] := by
  induction gatewayIps with
  | nil => rfl
  | cons first rest ih =>
    rw [List.nodup_cons] at hnodup
    rw [List.map_cons, List.filterMap_cons, ih hnodup.2]
    by_cases hfirst : first = gatewayIp
    · subst hfirst
      simp [view, hnodup.1]
    · simp [view, hfirst, Ne.symm hfirst]

/-- Assumes: a call that returns, where no other one for its gateway is under way. Then none is. -/
theorem not_inFlight_setStage_returned {call : ℕ} {entry : ConnectCall}
    (honly : ∀ other, state.InFlight other entry.gatewayIp → other = call)
    (manager : SessionManager) (other : ℕ) :
    ¬ (setStage { state with manager := manager } call entry .returned).InFlight other
      entry.gatewayIp := by
  rw [inFlight_setStage]
  split_ifs with hsame
  · simp [ConnectCall.isOpen]
  · exact fun hother ↦ hsame (honly other hother)

/-- Assumes: a call for one gateway. What it does has no effect on the calls for another. -/
theorem inFlight_setStage_of_ne {call : ℕ} {entry : ConnectCall} (hne : entry.gatewayIp ≠ gatewayIp)
    (hcall : ¬ state.InFlight call gatewayIp) (stage : ConnectStage) (manager : SessionManager)
    (other : ℕ) :
    (setStage { state with manager := manager } call entry stage).InFlight other gatewayIp ↔
      state.InFlight other gatewayIp := by
  rw [inFlight_setStage]
  split_ifs with hsame
  · simp [hne, hsame, hcall]
  · rfl

theorem not_inFlight_of_none {call : ℕ} (hcall : state.calls[call]? = none) (gatewayIp : String) :
    ¬ state.InFlight call gatewayIp := by
  simp [InFlight, hcall]

theorem not_inFlight_of_ne {call : ℕ} {entry : ConnectCall}
    (hcall : state.calls[call]? = some entry) (hne : entry.gatewayIp ≠ gatewayIp) :
    ¬ state.InFlight call gatewayIp := by
  simp [InFlight, hcall, hne]

/-- Every move is, for every gateway, a turn of a place for one tenant, or none. -/
theorem Moves.stands {events : List ConnectEvent} (hmoves : Moves state next events)
    (hstands : state.Stands gatewayIp phase) :
    ∃ after, Tenancy.History phase (events.filterMap (view gatewayIp)) after ∧
      next.Stands gatewayIp after := by
  cases hmoves with
  | rests => exact ⟨phase, .nil phase, hstands⟩
  | refuses call interfaceName other hnew hsession =>
    have hflight (any : ℕ) : (state.setStage call ⟨interfaceName, other, .checked⟩
        .returned).InFlight any gatewayIp ↔ state.InFlight any gatewayIp := by
      rw [inFlight_setStage]
      split_ifs with hsame
      · simp [ConnectCall.isOpen, hsame, not_inFlight_of_none hnew]
      · rfl
    refine ⟨phase, ?_, hstands.frame Iff.rfl hflight⟩
    by_cases hother : other = gatewayIp
    · subst hother
      obtain ⟨tenant, rfl⟩ := hstands.eq_settled hsession
      simpa [view] using Tenancy.History.single (.refuse tenant call)
    · simpa [view, hother] using Tenancy.History.nil phase
  | checks call interfaceName other hnew hsession halone =>
    by_cases hother : other = gatewayIp
    · subst hother
      obtain rfl := hstands.eq_vacant hsession halone
      refine ⟨.entering call, ?_, hsession, fun any ↦ ?_⟩
      · simpa [view] using Tenancy.History.single (.enter call)
      · rw [inFlight_setStage]
        simp [ConnectCall.isOpen, halone]
    · refine ⟨phase, ?_, hstands.frame Iff.rfl ?_⟩
      · simpa [view, hother] using Tenancy.History.nil phase
      · exact inFlight_setStage_of_ne hother (not_inFlight_of_none hnew gatewayIp) _ state.manager
  | connects call interfaceName other client spent hcall =>
    refine ⟨phase, .nil phase, hstands.frame Iff.rfl ?_⟩
    exact inFlight_setStage_of_isOpen hcall rfl rfl state.manager
  | fails call interfaceName other error spent hcall =>
    by_cases hother : other = gatewayIp
    · subst hother
      obtain rfl := hstands.eq_entering ⟨_, hcall, rfl, rfl⟩
      refine ⟨.vacant, ?_, hstands.1, ?_⟩
      · simpa [view] using Tenancy.History.single (.leave call)
      · exact not_inFlight_setStage_returned (fun any ↦ (hstands.2 any).mp) state.manager
    · refine ⟨phase, ?_, hstands.frame Iff.rfl ?_⟩
      · simpa [view, hother] using Tenancy.History.nil phase
      · exact inFlight_setStage_of_ne hother (not_inFlight_of_ne hcall hother) _ state.manager
  | spawns call interfaceName other client spent hcall =>
    refine ⟨phase, .nil phase, hstands.frame Iff.rfl ?_⟩
    exact inFlight_setStage_of_isOpen hcall rfl rfl _
  | inserts call interfaceName other client spent tracker hcall =>
    by_cases hother : other = gatewayIp
    · subst hother
      obtain rfl := hstands.eq_entering ⟨_, hcall, rfl, rfl⟩
      refine ⟨.settled call, ?_, ?_, ?_⟩
      · simpa [view] using Tenancy.History.single (.settle call)
      · exact (SessionManager.mem_insertSession _ _ _ _ _ _).mpr (.inl rfl)
      · exact not_inFlight_setStage_returned (fun any ↦ (hstands.2 any).mp) _
    · refine ⟨phase, ?_, hstands.frame ?_ ?_⟩
      · simpa [view, hother] using Tenancy.History.nil phase
      · exact (SessionManager.mem_insertSession _ _ _ _ _ _).trans
          (or_iff_right (Ne.symm hother))
      · exact inFlight_setStage_of_ne hother (not_inFlight_of_ne hcall hother) _ _
  | removes gatewayIps cancelled hnodup hsessions =>
    rw [filterMap_view_removed hnodup]
    split_ifs with hmem
    · obtain ⟨tenant, rfl⟩ := hstands.eq_settled (hsessions gatewayIp hmem)
      refine ⟨.vacant, .single (.vacate tenant), ?_, hstands.2⟩
      rw [SessionManager.mem_foldl_removeSession]
      exact fun hboth ↦ hboth.1 hmem
    · refine ⟨phase, .nil phase, hstands.frame ?_ fun _ ↦ Iff.rfl⟩
      rw [SessionManager.mem_foldl_removeSession]
      exact and_iff_right hmem

end Stands

/-! ### Who holds a tracker -/

/-- No tracker is orphaned, and whoever holds one holds one that was spawned. -/
structure Tracked (state : Connects) : Prop where
  noOrphans : state.NoOrphans
  of_session : ∀ (gatewayIp : String) (session : UpstreamSessionState),
    state.manager.sessions[gatewayIp]? = some session →
      session.tracker < state.manager.trackers.length
  of_call : ∀ (call : ℕ) (interfaceName gatewayIp : String) (client : V1Client)
    (spent : List UpstreamPayment) (tracker : ℕ),
    state.calls[call]? = some ⟨interfaceName, gatewayIp, .tracking client spent tracker⟩ →
      tracker < state.manager.trackers.length

section Tracked

variable {state next : Connects}

theorem getElem?_setStage (state : Connects) (call : ℕ) (entry : ConnectCall)
    (stage : ConnectStage) (other : ℕ) :
    (state.setStage call entry stage).calls[other]? =
      if other = call then some { entry with stage := stage } else state.calls[other]? := by
  simp only [setStage, ExtTreeMap.getElem?_insert, Std.compare_eq_iff_eq, @eq_comm _ call]

/-- Assumes: a call that holds no tracker and goes on without one. All are held as before. -/
theorem Tracked.setStage (htracked : state.Tracked) {call : ℕ} (entry : ConnectCall)
    {stage : ConnectStage} (hstage : stage.isTracking = false)
    (hcall : ∀ old, state.calls[call]? = some old → old.stage.isTracking = false) :
    (state.setStage call entry stage).Tracked := by
  refine ⟨fun tracker htracker ↦ ?_, htracked.of_session, ?_⟩
  · rcases htracked.noOrphans tracker htracker with
      hstopped | hsession | ⟨other, interfaceName, gatewayIp, client, spent, hother⟩
    · exact .inl hstopped
    · exact .inr (.inl hsession)
    · refine .inr (.inr ⟨other, interfaceName, gatewayIp, client, spent, ?_⟩)
      rw [getElem?_setStage, if_neg, hother]
      rintro rfl
      exact absurd (hcall _ hother) (by simp [ConnectStage.isTracking])
  · intro other interfaceName gatewayIp client spent tracker hother
    rw [getElem?_setStage] at hother
    split_ifs at hother with hsame
    · obtain ⟨-, -, rfl⟩ := ConnectCall.mk.inj (Option.some.inj hother)
      simp [ConnectStage.isTracking] at hstage
    · exact htracked.of_call other interfaceName gatewayIp client spent tracker hother

/-- Assumes: a call that is connected. The tracker it spawns is held by the call. -/
theorem Tracked.spawn (htracked : state.Tracked) {call : ℕ} {interfaceName gatewayIp : String}
    {client : V1Client} {spent : List UpstreamPayment}
    (hcall : state.calls[call]? = some ⟨interfaceName, gatewayIp, .connected client spent⟩) :
    (Connects.setStage { state with manager := state.manager.spawnUsageTracker gatewayIp } call
      ⟨interfaceName, gatewayIp, .connected client spent⟩
      (.tracking client spent state.manager.trackers.length)).Tracked := by
  have hlength : (state.manager.spawnUsageTracker gatewayIp).trackers.length =
      state.manager.trackers.length + 1 := by
    simp [SessionManager.spawnUsageTracker]
  refine ⟨fun tracker htracker ↦ ?_, fun other session hsession ↦ ?_, ?_⟩
  · rcases Nat.lt_succ_iff_lt_or_eq.mp (hlength ▸ htracker) with hold | rfl
    · rcases htracked.noOrphans tracker hold with
        ⟨task, htask, hends⟩ | hsession | ⟨other, name, ip, owner, paid, hother⟩
      · refine .inl ⟨task, ?_, hends⟩
        show (state.manager.trackers ++ [_])[tracker]? = some task
        rw [List.getElem?_append_left hold, htask]
      · exact .inr (.inl hsession)
      · refine .inr (.inr ⟨other, name, ip, owner, paid, ?_⟩)
        rw [getElem?_setStage, if_neg, hother]
        rintro rfl
        rw [hcall] at hother
        simp at hother
    · refine .inr (.inr ⟨call, interfaceName, gatewayIp, client, spent, ?_⟩)
      rw [getElem?_setStage, if_pos rfl]
  · refine Nat.lt_of_lt_of_le (htracked.of_session other session hsession) ?_
    exact (Nat.le_succ _).trans hlength.ge
  · intro other name ip owner paid tracker hother
    refine Nat.lt_of_lt_of_le ?_ hlength.ge
    rw [getElem?_setStage] at hother
    split_ifs at hother with hsame
    · obtain ⟨-, -, hstage⟩ := ConnectCall.mk.inj (Option.some.inj hother)
      obtain ⟨-, -, rfl⟩ := ConnectStage.tracking.inj hstage
      exact Nat.lt_succ_self _
    · exact Nat.lt_succ_of_lt (htracked.of_call other name ip owner paid tracker hother)

/-- Assumes: a call with a tracker, for a gateway without a session. The session it writes takes
the tracker over, and no other session goes. -/
theorem Tracked.insert (htracked : state.Tracked) {call : ℕ} {interfaceName gatewayIp : String}
    {client : V1Client} {spent : List UpstreamPayment} {tracker : ℕ}
    (hcall : state.calls[call]? =
      some ⟨interfaceName, gatewayIp, .tracking client spent tracker⟩)
    (hsession : gatewayIp ∉ state.manager.sessions) :
    (Connects.setStage
      { state with
        manager := state.manager.insertSession interfaceName gatewayIp client tracker }
      call ⟨interfaceName, gatewayIp, .tracking client spent tracker⟩ .returned).Tracked := by
  have hlookup := state.manager.getElem?_insertSession interfaceName gatewayIp client tracker
  refine ⟨fun held hheld ↦ ?_, fun other session hother ↦ ?_, ?_⟩
  · rcases htracked.noOrphans held hheld with
      hstopped | ⟨other, session, hother, hown⟩ | ⟨other, name, ip, owner, paid, hother⟩
    · exact .inl hstopped
    · refine .inr (.inl ⟨other, session, ?_, hown⟩)
      refine (hlookup other).trans ?_
      rw [if_neg, hother]
      rintro rfl
      rw [ExtTreeMap.getElem?_eq_none hsession] at hother
      exact Option.some_ne_none _ hother.symm
    · by_cases hsame : other = call
      · subst hsame
        rw [hcall] at hother
        obtain ⟨-, -, hstage⟩ := ConnectCall.mk.inj (Option.some.inj hother)
        obtain ⟨-, -, rfl⟩ := ConnectStage.tracking.inj hstage
        exact .inr (.inl ⟨gatewayIp, _, (hlookup gatewayIp).trans (if_pos rfl), rfl⟩)
      · refine .inr (.inr ⟨other, name, ip, owner, paid, ?_⟩)
        rw [getElem?_setStage, if_neg hsame, hother]
  · have hother' := (hlookup other).symm.trans hother
    by_cases hsame : other = gatewayIp
    · rw [if_pos hsame] at hother'
      obtain rfl := Option.some.inj hother'
      exact htracked.of_call call _ _ _ _ _ hcall
    · rw [if_neg hsame] at hother'
      exact htracked.of_session other session hother'
  · intro other name ip owner paid held hother
    rw [getElem?_setStage] at hother
    split_ifs at hother with hsame
    · simp at hother
    · exact htracked.of_call other name ip owner paid held hother

/-- Sessions that are removed take their trackers along. -/
theorem Tracked.remove (htracked : state.Tracked) (gatewayIps : List String) (cancelled : Bool) :
    Tracked { state with
      manager := gatewayIps.foldl SessionManager.removeSession
        { state.manager with cancelled := cancelled } } := by
  have hlength := SessionManager.length_trackers_foldl_removeSession
    { state.manager with cancelled := cancelled } gatewayIps
  have hlookup := SessionManager.getElem?_foldl_removeSession
    { state.manager with cancelled := cancelled } gatewayIps
  refine ⟨fun tracker htracker ↦ ?_, fun gatewayIp session hsession ↦ ?_, ?_⟩
  · rcases htracked.noOrphans tracker (hlength ▸ htracker) with
      ⟨task, htask, hends⟩ | ⟨gatewayIp, session, hsession, rfl⟩ | hcall
    · refine .inl (SessionManager.IsStopped.foldl_removeSession ?_ gatewayIps)
      exact ⟨task, htask, hends⟩
    · by_cases hmem : gatewayIp ∈ gatewayIps
      · refine .inl (SessionManager.isStopped_foldl_removeSession ?_ ?_ hmem)
        · exact hsession
        · exact htracked.of_session gatewayIp session hsession
      · refine .inr (.inl ⟨gatewayIp, session, ?_, rfl⟩)
        rw [hlookup, if_neg hmem]
        exact hsession
    · exact .inr (.inr hcall)
  · rw [hlookup] at hsession
    split_ifs at hsession
    exact (htracked.of_session gatewayIp session hsession).trans_eq hlength.symm
  · intro call interfaceName gatewayIp client spent tracker hcall
    exact (htracked.of_call call _ _ _ _ tracker hcall).trans_eq hlength.symm

/-- Assumes: gateways that each stand as a place for one call. A move leaves no tracker to
itself. -/
theorem Moves.tracked {events : List ConnectEvent} (hmoves : Moves state next events)
    (hstands : ∀ gatewayIp, ∃ phase, state.Stands gatewayIp phase) (htracked : state.Tracked) :
    next.Tracked := by
  cases hmoves with
  | rests => exact htracked
  | refuses call interfaceName gatewayIp hnew hsession =>
    exact htracked.setStage _ rfl (by simp [hnew])
  | checks call interfaceName gatewayIp hnew hsession halone =>
    exact htracked.setStage _ rfl (by simp [hnew])
  | connects call interfaceName gatewayIp client spent hcall =>
    exact htracked.setStage _ rfl (by simp [hcall, ConnectStage.isTracking])
  | fails call interfaceName gatewayIp error spent hcall =>
    exact htracked.setStage _ rfl (by simp [hcall, ConnectStage.isTracking])
  | spawns call interfaceName gatewayIp client spent hcall => exact htracked.spawn hcall
  | inserts call interfaceName gatewayIp client spent tracker hcall =>
    obtain ⟨phase, hphase⟩ := hstands gatewayIp
    obtain rfl := hphase.eq_entering ⟨_, hcall, rfl, rfl⟩
    exact htracked.insert hcall hphase.1
  | removes gatewayIps cancelled hnodup hsessions => exact htracked.remove gatewayIps cancelled

end Tracked

/-! ### Runs -/

/-- A refusal names its gateway, and nothing was paid. -/
def RefusesUnpaid : ConnectEvent → Prop
  | .returned _ gatewayIp (.error (.sessionExists other)) spent => other = gatewayIp ∧ spent = []
  | .returned _ _ (.ok ()) _ | .returned _ _ (.error (.noSession _)) _
  | .returned _ _ (.error (.client _)) _ | .checked _ _ | .removed _ => True

theorem Moves.refusesUnpaid {state next : Connects} {events : List ConnectEvent}
    (hmoves : Moves state next events) : ∀ event ∈ events, RefusesUnpaid event := by
  cases hmoves with
  | removes gatewayIps cancelled hnodup hsessions => simp [RefusesUnpaid]
  | _ => simp [RefusesUnpaid]

/-- Assumes: a run in which no call checks while another one for its gateway is under way. For every
gateway it is a history of a place for one tenant, and refusals cost nothing. -/
theorem history_run (gatewayIp : String) {state : Connects} {phase : Tenancy.Phase ℕ}
    (hstands : state.Stands gatewayIp phase) {steps : List ConnectStep}
    (hturns : machine.Along (fun state step ↦ ¬ state.Overlaps step) state steps) :
    (∃ after, Tenancy.History phase
        ((machine.outputs state steps).filterMap (view gatewayIp)) after) ∧
      ∀ event ∈ machine.outputs state steps, RefusesUnpaid event := by
  induction steps generalizing state phase with
  | nil => exact ⟨⟨phase, .nil phase⟩, fun event hevent ↦ absurd hevent List.not_mem_nil⟩
  | cons step rest ih =>
    have hmoves := step_moves state step hturns.1
    obtain ⟨middle, hfirst, hnext⟩ := hmoves.stands hstands
    obtain ⟨⟨after, hrest⟩, hrefuses⟩ := ih hnext hturns.2
    rw [Transducer.outputs_cons, List.filterMap_append]
    exact ⟨⟨after, hfirst.append hrest⟩,
      List.forall_mem_append.mpr ⟨hmoves.refusesUnpaid, hrefuses⟩⟩

theorem stands_start (clientConfig : V1ClientConfig) (gatewayIp : String) :
    (start clientConfig).Stands gatewayIp .vacant := by
  simp [Stands, start, SessionManager.new, InFlight]

theorem tracked_start (clientConfig : V1ClientConfig) : (start clientConfig).Tracked := by
  refine ⟨fun tracker htracker ↦ ?_, fun gatewayIp session hsession ↦ ?_, ?_⟩
  · exact absurd htracker (Nat.not_lt_zero tracker)
  · simp [start, SessionManager.new] at hsession
  · simp [start]

/-- Assumes: a run in which no call checks while another one for its gateway is under way. Every
tracker is held by somebody at its end. -/
theorem tracked_final (clientConfig : V1ClientConfig) {steps : List ConnectStep}
    (hturns : machine.Along (fun state step ↦ ¬ state.Overlaps step) (start clientConfig) steps) :
    (machine.final (start clientConfig) steps).Tracked := by
  refine (hturns.final_invariant
    (fun state ↦ (∀ gatewayIp, ∃ phase, state.Stands gatewayIp phase) ∧ state.Tracked) ?_
    ⟨fun gatewayIp ↦ ⟨.vacant, stands_start clientConfig gatewayIp⟩,
      tracked_start clientConfig⟩).2
  rintro state step ⟨hstands, htracked⟩ halone
  have hmoves := step_moves state step halone
  refine ⟨fun gatewayIp ↦ ?_, hmoves.tracked hstands htracked⟩
  obtain ⟨phase, hphase⟩ := hstands gatewayIp
  obtain ⟨after, -, hafter⟩ := hmoves.stands hphase
  exact ⟨after, hafter⟩

/-- The events that a turn of a gateway can be seen in. -/
def Shows (gatewayIp : String) (event : ConnectEvent) : Tenancy.Event ℕ → Prop
  | .enters call => event = .checked call gatewayIp
  | .leaves call => ∃ error spent, event = .returned call gatewayIp (.error error) spent
  | .settles call => ∃ spent, event = .returned call gatewayIp (.ok ()) spent
  | .isRefused call =>
    ∃ other spent, event = .returned call gatewayIp (.error (.sessionExists other)) spent
  | .isVacated => event = .removed gatewayIp

section History

variable {gatewayIp : String} {events : List ConnectEvent} {last : Tenancy.Phase ℕ}

@[simp] theorem view_checked_self (call : ℕ) (gatewayIp : String) :
    view gatewayIp (.checked call gatewayIp) = some (.enters call) :=
  if_pos rfl

@[simp] theorem view_returned_ok_self (call : ℕ) (gatewayIp : String)
    (spent : List UpstreamPayment) :
    view gatewayIp (.returned call gatewayIp (.ok ()) spent) = some (.settles call) :=
  if_pos rfl

theorem shows_of_view {event : ConnectEvent} {turn : Tenancy.Event ℕ}
    (hview : view gatewayIp event = some turn) : Shows gatewayIp event turn := by
  cases event with
  | checked call other =>
    simp only [view, Option.ite_none_right_eq_some, Option.some.injEq] at hview
    obtain ⟨rfl, rfl⟩ := hview
    rfl
  | returned call other result spent =>
    rcases result with (ip | ip | error) | _
    all_goals
      simp only [view, Option.ite_none_right_eq_some, Option.some.injEq] at hview
      obtain ⟨rfl, rfl⟩ := hview
    · exact ⟨ip, spent, rfl⟩
    · exact ⟨.noSession ip, spent, rfl⟩
    · exact ⟨.client error, spent, rfl⟩
    · exact ⟨spent, rfl⟩
  | removed other =>
    simp only [view, Option.ite_none_right_eq_some, Option.some.injEq] at hview
    obtain ⟨rfl, rfl⟩ := hview
    rfl

theorem isSome_view (event : ConnectEvent) : (view event.gatewayIp event).isSome = true := by
  cases event with
  | checked call other => simp [view, ConnectEvent.gatewayIp]
  | returned call other result spent =>
    rcases result with (ip | ip | error) | _
    all_goals simp [view, ConnectEvent.gatewayIp]
  | removed other => simp [view, ConnectEvent.gatewayIp]

/-- A turn that is seen was shown by an event. -/
theorem exists_shows {turn : Tenancy.Event ℕ} (hturn : turn ∈ events.filterMap (view gatewayIp)) :
    ∃ event ∈ events, Shows gatewayIp event turn := by
  obtain ⟨event, hevent, hview⟩ := List.mem_filterMap.mp hturn
  exact ⟨event, hevent, shows_of_view hview⟩

theorem isVacated_notMem (hstays : .removed gatewayIp ∉ events) :
    .isVacated ∉ events.filterMap (view gatewayIp) := by
  intro hturn
  obtain ⟨event, hevent, rfl⟩ := exists_shows hturn
  exact hstays hevent

/-- Assumes: a history without a removal. At most one call pays and returns `Ok`. -/
theorem countP_paysAndReturnsOk_le_one {phase : Tenancy.Phase ℕ}
    (hhistory : Tenancy.History phase (events.filterMap (view gatewayIp)) last)
    (hstays : .removed gatewayIp ∉ events) :
    events.countP (paysAndReturnsOk gatewayIp) ≤ 1 := by
  refine Nat.le_trans ?_ (hhistory.countP_isSettling_le_one (isVacated_notMem hstays))
  rw [List.countP_filterMap]
  refine List.countP_mono_left fun event _ hpays ↦ ?_
  rcases event with ⟨call, other⟩ | ⟨call, other, error | _, spent⟩ | other
  · exact absurd hpays Bool.false_ne_true
  · exact absurd hpays Bool.false_ne_true
  · rw [paysAndReturnsOk, decide_eq_true_eq] at hpays
    simp [view, hpays.1, Tenancy.Event.isSettling]
  · exact absurd hpays Bool.false_ne_true

/-- Assumes: events that are, for every gateway, a history of a place for one tenant, with refusals
that cost nothing. They show one paid session. -/
theorem onePaidSession_of_history
    (hhistory : ∀ gatewayIp, ∃ last,
      Tenancy.History .vacant (events.filterMap (view gatewayIp)) last)
    (hrefuses : ∀ event ∈ events, RefusesUnpaid event) : OnePaidSession events := by
  refine ⟨?_, ?_, ?_⟩
  · rintro gatewayIp segment ⟨before, after, rfl⟩ hstays
    obtain ⟨last, hlast⟩ := hhistory gatewayIp
    rw [List.filterMap_append, List.filterMap_append] at hlast
    obtain ⟨middle, hfirst, -⟩ := hlast.split
    obtain ⟨phase, -, hsegment⟩ := hfirst.split
    exact countP_paysAndReturnsOk_le_one hsegment hstays
  · rintro gatewayIp call before flight spent after rfl other hother
    obtain ⟨last, hlast⟩ := hhistory gatewayIp
    rw [List.filterMap_append] at hlast
    obtain ⟨middle, hbefore, hrest⟩ := hlast.split
    rw [List.filterMap_cons_some (view_checked_self call gatewayIp)] at hrest
    -- The call enters, so that nobody else is entering.
    cases hrest with
    | cons hturn _ =>
      cases hturn
      have hentered : .enters other ∈ before.filterMap (view gatewayIp) :=
        List.mem_filterMap.mpr ⟨_, hother, view_checked_self other gatewayIp⟩
      rcases hbefore.left_or_settled hentered with hentering | hleft | hsettled
      · cases hentering
      · obtain ⟨event, hevent, error, spent, rfl⟩ := exists_shows hleft
        exact ⟨_, spent, hevent⟩
      · obtain ⟨event, hevent, spent, rfl⟩ := exists_shows hsettled
        exact ⟨_, spent, hevent⟩
  · rintro gatewayIp call before flight spent live after rfl honce hstays event hevent hgateway
    obtain ⟨last, hlast⟩ := hhistory gatewayIp
    rw [List.filterMap_append] at hlast
    obtain ⟨middle, -, hrest⟩ := hlast.split
    rw [List.filterMap_cons_some (view_checked_self call gatewayIp), List.filterMap_append,
      List.filterMap_cons_some (view_returned_ok_self call gatewayIp spent),
      List.filterMap_append] at hrest
    have honce' : .enters call ∉ flight.filterMap (view gatewayIp) := by
      intro hturn
      obtain ⟨again, hagain, rfl⟩ := exists_shows hturn
      exact honce hagain
    cases hrest with
    | cons hturn hrest =>
      cases hturn
      obtain ⟨hflight, hsettled⟩ := hrest.eq_nil_of_settles honce'
      obtain ⟨_, hlive, -⟩ := hsettled.split
      obtain ⟨turn, hview⟩ := Option.isSome_iff_exists.mp (isSome_view event)
      rw [hgateway] at hview
      have hturn : turn ∈ live.filterMap (view gatewayIp) := by
        rcases List.mem_append.mp hevent with hevent | hevent
        · have hmem : turn ∈ flight.filterMap (view gatewayIp) :=
            List.mem_filterMap.mpr ⟨event, hevent, hview⟩
          rw [hflight] at hmem
          exact absurd hmem List.not_mem_nil
        · exact List.mem_filterMap.mpr ⟨event, hevent, hview⟩
      obtain ⟨other, rfl⟩ := hlive.isRefused_of_not_vacated (isVacated_notMem hstays) turn hturn
      obtain ⟨ip, paid, rfl⟩ := shows_of_view hview
      obtain ⟨rfl, rfl⟩ : ip = gatewayIp ∧ paid = [] := by
        refine hrefuses (.returned other gatewayIp (.error (.sessionExists ip)) paid) ?_
        rcases List.mem_append.mp hevent with hevent | hevent
        · simp [hevent]
        · simp [hevent]
      exact ⟨other, rfl⟩

end History

/-- Assumes: no call checks while another one for its gateway is under way. In every such run of any
number of calls, disconnects and the stop a gateway has one paid session at a time, and no tracker
is left to itself. -/
theorem one_paid_session_per_gateway (clientConfig : V1ClientConfig) (steps : List ConnectStep)
    (hturns : machine.Along (fun state step ↦ ¬ state.Overlaps step) (start clientConfig) steps) :
    OnePaidSession (machine.outputs (start clientConfig) steps) ∧
      machine.Throughout NoOrphans (start clientConfig) steps := by
  constructor
  · refine onePaidSession_of_history (fun gatewayIp ↦ ?_) ?_
    · exact (history_run gatewayIp (stands_start clientConfig gatewayIp) hturns).1
    · exact (history_run "" (stands_start clientConfig "") hturns).2
  · rintro before ⟨after, rfl⟩
    rw [Transducer.along_append] at hturns
    exact (tracked_final clientConfig hturns.1).noOrphans

/-! ### Two calls for one gateway -/

instance decidableOverlaps (state : Connects) : DecidablePred state.Overlaps
  | .check _ _ gatewayIp =>
    decidable_of_iff (∃ entry ∈ state.calls.toList,
      entry.2.gatewayIp = gatewayIp ∧ entry.2.isOpen = true) (by
        simp only [Overlaps, InFlight, Prod.exists, ExtTreeMap.mem_toList_iff_getElem?_eq_some])
  | .connect _ _ | .spawn _ | .insert _ | .disconnect _ | .stop => instDecidableFalse

/-- What a call does past its check. -/
def goOn (call : ℕ) : List ConnectStep :=
  [.connect call sampleReplies, .spawn call, .insert call]

/-- A call in the middle of one for another gateway, one that comes too late, one after the
interface was down, and the stop. -/
def inTurn : List ConnectStep :=
  [.check 0 "eth0" "192.168.1.1", .check 1 "wwan" "10.0.0.1"] ++ goOn 1 ++ goOn 0 ++
    [.check 2 "eth0" "192.168.1.1", .disconnect "eth0", .check 3 "eth0" "192.168.1.1"] ++
    goOn 3 ++ [.stop]

theorem one_paid_session_per_gateway_in_turn :
    (OnePaidSession (machine.outputs (start sampleClientConfig) inTurn) ∧
      machine.Throughout NoOrphans (start sampleClientConfig) inTurn) ∧
    machine.outputs (start sampleClientConfig) inTurn =
      [.checked 0 "192.168.1.1", .checked 1 "10.0.0.1",
        .returned 1 "10.0.0.1" (.ok ()) [.token 1], .returned 0 "192.168.1.1" (.ok ()) [.token 1],
        .returned 2 "192.168.1.1" (.error (.sessionExists "192.168.1.1")) [],
        .removed "192.168.1.1", .checked 3 "192.168.1.1",
        .returned 3 "192.168.1.1" (.ok ()) [.token 1], .removed "10.0.0.1",
        .removed "192.168.1.1"] := by
  refine ⟨one_paid_session_per_gateway sampleClientConfig inTurn ?_, ?_⟩
  · decide +kernel
  · decide +kernel

/-- Two calls that both check before either goes on. -/
def overlapping : List ConnectStep :=
  [.check 0 "eth0" "192.168.1.1", .check 1 "eth0" "192.168.1.1"] ++ goOn 0 ++ goOn 1

/-- Both calls pay and return `Ok`, and the tracker of the first runs on without a session. -/
theorem overlapping_calls_pay_twice :
    ¬ OnePaidSession (machine.outputs (start sampleClientConfig) overlapping) ∧
      ¬ machine.Throughout NoOrphans (start sampleClientConfig) overlapping := by
  constructor
  · have houtputs : machine.outputs (start sampleClientConfig) overlapping =
        [.checked 0 "192.168.1.1", .checked 1 "192.168.1.1",
          .returned 0 "192.168.1.1" (.ok ()) [.token 1],
          .returned 1 "192.168.1.1" (.ok ()) [.token 1]] := by
      decide +kernel
    rw [houtputs]
    intro hone
    exact absurd (hone.once "192.168.1.1" _ List.infix_rfl (by decide)) (by decide)
  · intro hheld
    have htrackers : (machine.final (start sampleClientConfig) overlapping).manager.trackers =
        [⟨"192.168.1.1", false, false⟩, ⟨"192.168.1.1", false, false⟩] := by
      decide +kernel
    have hsessions : ∀ entry ∈
        (machine.final (start sampleClientConfig) overlapping).manager.sessions.toList,
        entry.2.tracker ≠ 0 := by
      decide +kernel
    have hcalls : ∀ entry ∈
        (machine.final (start sampleClientConfig) overlapping).calls.toList,
        entry.2.stage.isTracking = false := by
      decide +kernel
    rcases hheld overlapping List.prefix_rfl 0 (by rw [htrackers]; decide) with
      ⟨task, htask, hends⟩ | ⟨gatewayIp, session, hsession, hown⟩ | ⟨call, _, _, _, _, hcall⟩
    · rw [htrackers] at htask
      obtain rfl := Option.some.inj htask
      exact absurd hends (by decide)
    · exact hsessions _ (ExtTreeMap.mem_toList_iff_getElem?_eq_some.mpr hsession) hown
    · have hnone := hcalls _ (ExtTreeMap.mem_toList_iff_getElem?_eq_some.mpr hcall)
      simp [ConnectStage.isTracking] at hnone

end Connects

end Tollgate
