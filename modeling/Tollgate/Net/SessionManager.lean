import Tollgate.Net.UpstreamClient

/-!
# Sessions with upstream gateways

`v1_compat/session_manager.rs`: a map from gateway IPs to sessions. A gateway that is found gets a
client that connects and pays, a usage tracker, and an entry. An interface that goes down takes all
the entries made through it along, and `stop` takes all there are; both stop the trackers of what
they remove.

The trackers that were ever spawned are part of the state, in the order of their start, because the
manager itself forgets them with their sessions. Renewals change neither which gateways have an
entry nor which tracker it holds and are left to a module of their own.
-/

set_option autoImplicit false
set_option relaxedAutoImplicit false

namespace Tollgate

open Std

/-- A task that `spawn_usage_tracker` has started, and whether its token was cancelled and its
handle aborted. -/
structure UsageTracker where
  gatewayIp : String
  cancelled : Bool
  aborted : Bool
  deriving DecidableEq, Repr

/-- `UpstreamSessionState`, with its tracker by number. -/
structure UpstreamSessionState where
  gatewayIp : String
  interfaceName : String
  client : V1Client
  tracker : ℕ
  totalSpentSats : UInt64
  paymentCount : UInt32

/-- `SessionManagerError`. -/
inductive SessionManagerError
  | sessionExists (gatewayIp : String)
  | noSession (gatewayIp : String)
  | client (error : V1ClientError)
  deriving DecidableEq, Repr

/-- `SessionManager`, with every tracker that was spawned. -/
structure SessionManager where
  clientConfig : V1ClientConfig
  sessions : ExtTreeMap String UpstreamSessionState
  trackers : List UsageTracker
  cancelled : Bool

namespace SessionManager

/-- `SessionManager::new`. -/
def new (clientConfig : V1ClientConfig) : SessionManager :=
  ⟨clientConfig, ∅, [], false⟩

variable (manager : SessionManager)

/-! ### Connecting a gateway -/

/-- `spawn_usage_tracker`; the new task has the number of those before it. -/
def spawnUsageTracker (gatewayIp : String) : SessionManager :=
  { manager with trackers := manager.trackers ++ [⟨gatewayIp, false, false⟩] }

/-- The entry that `handle_gateway_connected` writes. -/
def insertSession (interfaceName gatewayIp : String) (client : V1Client) (tracker : ℕ) :
    SessionManager :=
  { manager with
    sessions := manager.sessions.insert gatewayIp
      { gatewayIp := gatewayIp
        interfaceName := interfaceName
        client := client
        tracker := tracker
        totalSpentSats := 0
        paymentCount := if client.session.isSome then 1 else 0 } }

/-- The attempt of `handle_gateway_connected` to connect, and what it paid. -/
def connectClient (gatewayIp : String) (replies : ConnectReplies) :
    Except V1ClientError V1Client × List UpstreamPayment :=
  ((V1Client.new manager.clientConfig gatewayIp).connect replies).run.run []

/-- `handle_gateway_connected` without anything in between its steps. -/
def handleGatewayConnected (interfaceName gatewayIp : String) (replies : ConnectReplies) :
    Except SessionManagerError Unit × SessionManager :=
  if manager.sessions.contains gatewayIp then (.error (.sessionExists gatewayIp), manager)
  else
    match (manager.connectClient gatewayIp replies).1 with
    | .error error => (.error (.client error), manager)
    | .ok client =>
      (.ok (), (manager.spawnUsageTracker gatewayIp).insertSession interfaceName gatewayIp client
        manager.trackers.length)

theorem getElem?_insertSession (interfaceName gatewayIp : String) (client : V1Client)
    (tracker : ℕ) (other : String) :
    (manager.insertSession interfaceName gatewayIp client tracker).sessions[other]? =
      if other = gatewayIp then
        some ⟨gatewayIp, interfaceName, client, tracker, 0,
          if client.session.isSome then 1 else 0⟩
      else manager.sessions[other]? := by
  simp only [insertSession, ExtTreeMap.getElem?_insert, Std.compare_eq_iff_eq,
    @eq_comm _ gatewayIp]

theorem mem_insertSession (interfaceName gatewayIp : String) (client : V1Client) (tracker : ℕ)
    (other : String) :
    other ∈ (manager.insertSession interfaceName gatewayIp client tracker).sessions ↔
      other = gatewayIp ∨ other ∈ manager.sessions := by
  simp only [insertSession, ExtTreeMap.mem_insert, Std.compare_eq_iff_eq, @eq_comm _ gatewayIp]

/-- A gateway that is connected gets an entry if it had none, and no other entry changes. -/
theorem handleGatewayConnected_cases (interfaceName gatewayIp : String)
    (replies : ConnectReplies) :
    (manager.handleGatewayConnected interfaceName gatewayIp replies).2 = manager ∨
    manager.sessions[gatewayIp]? = none ∧ ∃ client,
      (manager.handleGatewayConnected interfaceName gatewayIp replies).2 =
        (manager.spawnUsageTracker gatewayIp).insertSession interfaceName gatewayIp client
          manager.trackers.length := by
  rw [handleGatewayConnected]
  split_ifs with hcontains
  · exact .inl rfl
  · split
    · exact .inl rfl
    · refine .inr ⟨?_, _, rfl⟩
      refine ExtTreeMap.getElem?_eq_none fun hmem ↦ hcontains ?_
      exact ExtTreeMap.contains_iff_mem.mpr hmem

/-! ### Removing sessions -/

/-- The end of a session: its entry goes, its token is cancelled and its task aborted. -/
def removeSession (gatewayIp : String) : SessionManager :=
  match manager.sessions[gatewayIp]? with
  | none => manager
  | some session =>
    { manager with
      sessions := manager.sessions.erase gatewayIp
      trackers := manager.trackers.modify session.tracker fun tracker ↦
        { tracker with cancelled := true, aborted := true } }

/-- The gateways with a session that went through an interface. -/
def gatewaysOn (interfaceName : String) : List String :=
  (manager.sessions.toList.filter fun entry ↦ entry.2.interfaceName = interfaceName).map Prod.fst

/-- `handle_disconnect`. -/
def handleDisconnect (interfaceName : String) : SessionManager :=
  (manager.gatewaysOn interfaceName).foldl removeSession manager

/-- `SessionManager::stop`. -/
def stop : SessionManager :=
  manager.sessions.keys.foldl removeSession { manager with cancelled := true }

/-- A tracker whose token was cancelled or whose task was aborted. -/
def IsStopped (tracker : ℕ) : Prop :=
  ∃ task, manager.trackers[tracker]? = some task ∧ (task.cancelled = true ∨ task.aborted = true)

variable {manager}

theorem mem_gatewaysOn {interfaceName gatewayIp : String} :
    gatewayIp ∈ manager.gatewaysOn interfaceName ↔
      ∃ session, manager.sessions[gatewayIp]? = some session ∧
        session.interfaceName = interfaceName := by
  simp only [gatewaysOn, List.mem_map, List.mem_filter, Prod.exists, exists_and_right,
    exists_eq_right, decide_eq_true_eq, ExtTreeMap.mem_toList_iff_getElem?_eq_some]

variable (manager)

theorem nodup_gatewaysOn (interfaceName : String) : (manager.gatewaysOn interfaceName).Nodup := by
  have hkeys : (manager.sessions.toList.map Prod.fst).Nodup := by
    rw [ExtTreeMap.map_fst_toList_eq_keys]
    exact ExtTreeMap.nodup_keys
  exact hkeys.sublist (List.filter_sublist.map Prod.fst)

theorem getElem?_removeSession (gatewayIp other : String) :
    (manager.removeSession gatewayIp).sessions[other]? =
      if other = gatewayIp then none else manager.sessions[other]? := by
  rw [removeSession]
  split
  · next hnone =>
    split_ifs with hsame
    · rw [hsame, hnone]
    · rfl
  · simp only [ExtTreeMap.getElem?_erase, Std.compare_eq_iff_eq, @eq_comm _ gatewayIp]

/-- Exactly the listed gateways lose their sessions. -/
theorem getElem?_foldl_removeSession (gatewayIps : List String) (other : String) :
    (gatewayIps.foldl removeSession manager).sessions[other]? =
      if other ∈ gatewayIps then none else manager.sessions[other]? := by
  induction gatewayIps generalizing manager with
  | nil => simp
  | cons gatewayIp rest ih =>
    rw [List.foldl_cons, ih, getElem?_removeSession]
    by_cases hrest : other ∈ rest
    · simp [hrest]
    · simp [hrest]

theorem mem_foldl_removeSession (gatewayIps : List String) (other : String) :
    other ∈ (gatewayIps.foldl removeSession manager).sessions ↔
      other ∉ gatewayIps ∧ other ∈ manager.sessions := by
  rw [ExtTreeMap.mem_iff_isSome_getElem?, getElem?_foldl_removeSession,
    ExtTreeMap.mem_iff_isSome_getElem?]
  split_ifs with hmem
  · simp [hmem]
  · simp [hmem]

/-- An interface that goes down takes along the sessions made through it, and no others. -/
theorem getElem?_handleDisconnect (interfaceName gatewayIp : String) :
    (manager.handleDisconnect interfaceName).sessions[gatewayIp]? =
      manager.sessions[gatewayIp]?.filter fun session ↦
        session.interfaceName ≠ interfaceName := by
  rw [handleDisconnect, getElem?_foldl_removeSession]
  simp only [mem_gatewaysOn]
  cases hsession : manager.sessions[gatewayIp]? with
  | none => simp
  | some session =>
    by_cases hname : session.interfaceName = interfaceName
    · simp [Option.filter, hname]
    · simp [Option.filter, hname]

theorem getElem?_stop (gatewayIp : String) : manager.stop.sessions[gatewayIp]? = none := by
  rw [stop, getElem?_foldl_removeSession]
  split_ifs with hkey
  · rfl
  · exact ExtTreeMap.getElem?_eq_none fun hmem ↦ hkey (ExtTreeMap.mem_keys.mpr hmem)

@[simp] theorem length_trackers_removeSession (gatewayIp : String) :
    (manager.removeSession gatewayIp).trackers.length = manager.trackers.length := by
  rw [removeSession]
  split
  · rfl
  · exact List.length_modify _ _ _

@[simp] theorem length_trackers_foldl_removeSession (gatewayIps : List String) :
    (gatewayIps.foldl removeSession manager).trackers.length = manager.trackers.length := by
  induction gatewayIps generalizing manager with
  | nil => rfl
  | cons gatewayIp rest ih => rw [List.foldl_cons, ih, length_trackers_removeSession]

variable {manager} {tracker : ℕ}

theorem IsStopped.removeSession (hstopped : manager.IsStopped tracker) (gatewayIp : String) :
    (manager.removeSession gatewayIp).IsStopped tracker := by
  obtain ⟨task, htask, hends⟩ := hstopped
  rw [SessionManager.removeSession]
  split
  · exact ⟨task, htask, hends⟩
  · next session _ =>
    simp only [IsStopped, List.getElem?_modify, htask]
    by_cases hsame : session.tracker = tracker
    · simp [hsame]
    · simpa [hsame] using hends

theorem IsStopped.foldl_removeSession (hstopped : manager.IsStopped tracker)
    (gatewayIps : List String) : (gatewayIps.foldl SessionManager.removeSession manager).IsStopped
      tracker := by
  induction gatewayIps generalizing manager with
  | nil => exact hstopped
  | cons gatewayIp rest ih => exact ih (hstopped.removeSession gatewayIp)

/-- Assumes: a session with a tracker that was spawned. Removing it stops the tracker. -/
theorem isStopped_removeSession {gatewayIp : String} {session : UpstreamSessionState}
    (hsession : manager.sessions[gatewayIp]? = some session)
    (hspawned : session.tracker < manager.trackers.length) :
    (manager.removeSession gatewayIp).IsStopped session.tracker := by
  rw [removeSession, hsession]
  simp [IsStopped, List.getElem?_eq_getElem hspawned]

/-- Assumes: a session with a tracker that was spawned. Removing it with others stops the
tracker. -/
theorem isStopped_foldl_removeSession {gatewayIp : String} {session : UpstreamSessionState}
    (hsession : manager.sessions[gatewayIp]? = some session)
    (hspawned : session.tracker < manager.trackers.length) {gatewayIps : List String}
    (hmem : gatewayIp ∈ gatewayIps) :
    (gatewayIps.foldl removeSession manager).IsStopped session.tracker := by
  induction gatewayIps generalizing manager with
  | nil => exact absurd hmem List.not_mem_nil
  | cons first rest ih =>
    rw [List.foldl_cons]
    by_cases hfirst : gatewayIp = first
    · exact (isStopped_removeSession (hfirst ▸ hsession) hspawned).foldl_removeSession rest
    · refine ih ?_ ?_ (List.mem_of_ne_of_mem hfirst hmem)
      · rw [getElem?_removeSession, if_neg hfirst, hsession]
      · rwa [length_trackers_removeSession]

end SessionManager

end Tollgate
