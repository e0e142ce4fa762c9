import Tollgate.Net.PaidSessions
import Tollgate.Net.Renewal

/-!
# What the session manager says it has paid

`process_renewal` and `get_active_sessions` of `v1_compat/session_manager.rs`, beside the steps of
`handle_gateway_connected`, in any order. Next to the manager the state keeps, for each gateway, the
tokens that it has accepted since its session was created.

The manager counts every attempt to connect or to renew that returns `Ok`, also one that paid
nothing, and never adds to `total_spent_sats`. A new entry is wrong as soon as it is written:
`accounts_exact_iff`.
-/

set_option autoImplicit false
set_option relaxedAutoImplicit false

namespace Tollgate

open Std

/-- The amount of a token. -/
def UpstreamPayment.tokenAmount : UpstreamPayment → Option UInt64
  | .token amount => some amount
  | .invoice _ => none

/-- The tokens that the gateway accepted in an attempt: an attempt that ends well has sent no token
that was refused. -/
def acceptedTokens {α : Type} (result : Except V1ClientError α) (paid : List UpstreamPayment) :
    List UInt64 :=
  match result with
  | .ok _ => paid.filterMap UpstreamPayment.tokenAmount
  | .error _ => []

/-- What `SessionInfo` says about a session, but for its age. -/
structure SessionInfo where
  gatewayIp : String
  interfaceName : String
  totalAllotment : UInt64
  metric : String
  totalSpentSats : UInt64
  paymentCount : UInt32
  deriving DecidableEq, Repr

def UpstreamSessionState.info (session : UpstreamSessionState) : SessionInfo where
  gatewayIp := session.gatewayIp
  interfaceName := session.interfaceName
  totalAllotment := (session.client.session.map V1Session.totalAllotment).getD 0
  metric := (session.client.session.map V1Session.metric).getD ""
  totalSpentSats := session.totalSpentSats
  paymentCount := session.paymentCount

/-- `get_active_sessions`. -/
def SessionManager.getActiveSessions (manager : SessionManager) : List SessionInfo :=
  manager.sessions.toList.map fun entry ↦ entry.2.info

theorem SessionManager.mem_getActiveSessions {manager : SessionManager} {info : SessionInfo} :
    info ∈ manager.getActiveSessions ↔
      ∃ (gatewayIp : String) (session : UpstreamSessionState),
        manager.sessions[gatewayIp]? = some session ∧ session.info = info := by
  simp only [getActiveSessions, List.mem_map, Prod.exists,
    ExtTreeMap.mem_toList_iff_getElem?_eq_some]

/-- `RenewalRequest`, as far as it decides anything. -/
structure RenewalRequest where
  gatewayIp : String
  currentAllotment : UInt64

/-- The calls on a manager, when each gateway's client last tried to renew, and the tokens that each
gateway has accepted since its session was created. -/
structure Accounts where
  connects : Connects
  lastPaymentAttempts : ExtTreeMap String ℕ
  accepted : ExtTreeMap String (List UInt64)

/-- A step of the calls that make and end sessions, or a renewal request: `process_renewal` holds
the lock throughout. -/
inductive AccountStep
  | connects (step : ConnectStep)
  | renewal (request : RenewalRequest) (connect : ConnectReplies) (renew : RenewReplies)

namespace Accounts

def start (clientConfig : V1ClientConfig) : Accounts :=
  ⟨Connects.start clientConfig, ∅, ∅⟩

/-- Write a session back. -/
def putSession (accounts : Accounts) (gatewayIp : String) (session : UpstreamSessionState) :
    Accounts :=
  { accounts with
    connects.manager.sessions := accounts.connects.manager.sessions.insert gatewayIp session }

/-- The gateway accepted some more tokens. -/
def accept (accounts : Accounts) (gatewayIp : String) (tokens : List UInt64) : Accounts :=
  { accounts with
    accepted := accounts.accepted.insert gatewayIp
      (accounts.accepted[gatewayIp]?.getD [] ++ tokens) }

/-- `process_renewal`. -/
def processRenewal (accounts : Accounts) (request : RenewalRequest) (connect : ConnectReplies)
    (renew : RenewReplies) : Accounts :=
  match accounts.connects.manager.sessions[request.gatewayIp]? with
  | none => accounts
  | some session =>
    if request.currentAllotment = 0 then
      match (session.client.connect connect).run.run [] with
      | (.ok client, paid) =>
        (accounts.putSession request.gatewayIp
          { session with client := client, paymentCount := session.paymentCount + 1 }).accept
          request.gatewayIp (acceptedTokens (.ok client) paid)
      | (.error _, _) => accounts
    else
      let outcome := session.client.renew accounts.lastPaymentAttempts[request.gatewayIp]? renew
      let attempted :=
        { accounts with
          lastPaymentAttempts := accounts.lastPaymentAttempts.alter request.gatewayIp
            fun _ ↦ outcome.lastPaymentAttempt }
      match outcome.result with
      | .ok () =>
        (attempted.putSession request.gatewayIp
          { session with
            client := outcome.client, paymentCount := session.paymentCount + 1 }).accept
          request.gatewayIp (acceptedTokens outcome.result outcome.paid)
      | .error _ => attempted.putSession request.gatewayIp { session with client := outcome.client }

/-- One step. The entry that a call writes starts a new account, with what its client paid. -/
def step (accounts : Accounts) : AccountStep → Accounts
  | .connects step =>
    let next := { accounts with connects := (accounts.connects.step step).1 }
    match step with
    | .insert call =>
      match accounts.connects.calls[call]? with
      | some ⟨_, gatewayIp, .tracking client spent _⟩ =>
        { next with
          lastPaymentAttempts := accounts.lastPaymentAttempts.erase gatewayIp
          accepted := accounts.accepted.insert gatewayIp (acceptedTokens (.ok client) spent) }
      | _ => next
    | .check _ _ _ | .connect _ _ | .spawn _ | .disconnect _ | .stop => next
  | .renewal request connect renew => accounts.processRenewal request connect renew

def machine : Transducer Accounts AccountStep Empty where
  step accounts step := (accounts.step step, [])

/-- What is shown of each gateway is the number and the sum of the tokens that it accepted. -/
def Exact (accounts : Accounts) : Prop :=
  ∀ info ∈ accounts.connects.manager.getActiveSessions,
    info.paymentCount.toNat = (accounts.accepted[info.gatewayIp]?.getD []).length ∧
      info.totalSpentSats.toNat =
        ((accounts.accepted[info.gatewayIp]?.getD []).map UInt64.toNat).sum

instance (accounts : Accounts) : Decidable accounts.Exact :=
  inferInstanceAs (Decidable (∀ info ∈ accounts.connects.manager.getActiveSessions, _ ∧ _))

/-- The step writes the entry of a new session. -/
def Stores (accounts : Accounts) : AccountStep → Prop
  | .connects (.insert call) => ∃ entry, accounts.connects.calls[call]? = some entry ∧
      entry.stage.isTracking = true
  | .connects (.check _ _ _) | .connects (.connect _ _) | .connects (.spawn _)
  | .connects (.disconnect _) | .connects .stop | .renewal _ _ _ => False

end Accounts

/-! ### What a call has paid by the time it writes its entry -/

/-- A session, and at most one token, for more than nothing. -/
def PaidFor (client : V1Client) (spent : List UpstreamPayment) : Prop :=
  client.session.isSome = true ∧
    (spent.filterMap UpstreamPayment.tokenAmount = [] ∨
      ∃ amount, 0 < amount.toNat ∧ spent.filterMap UpstreamPayment.tokenAmount = [amount])

theorem paidFor_connect {client connected : V1Client} {replies : ConnectReplies}
    {spent : List UpstreamPayment}
    (hconnect : (client.connect replies).run.run [] = (.ok connected, spent)) :
    PaidFor connected spent := by
  have houtcome := client.connect_outcome replies
  rw [hconnect] at houtcome
  generalize houtput : (Except.ok connected, spent) = output at houtcome
  cases houtcome with
  | fails error hcause => exact absurd (congrArg Prod.fst houtput) (by simp)
  | attaches session hsold =>
    obtain ⟨hclient, rfl⟩ := Prod.mk.inj houtput
    rw [Except.ok.inj hclient]
    exact ⟨rfl, Or.inl rfl⟩
  | invoices session amount hsold =>
    obtain ⟨hclient, rfl⟩ := Prod.mk.inj houtput
    rw [Except.ok.inj hclient]
    exact ⟨rfl, Or.inl rfl⟩
  | pays ad pricing balance hlooks had hselected hbudget hbalance hprice haffordable hissued =>
    obtain ⟨hclient, rfl⟩ := Prod.mk.inj houtput
    cases hpayment : replies.payment with
    | error error =>
      rw [hpayment] at hclient
      exact absurd hclient (by simp)
    | ok event =>
      rw [hpayment] at hclient
      rw [Except.ok.inj hclient]
      refine ⟨rfl, Or.inr ⟨_, ?_, rfl⟩⟩
      rw [(toNat_payment hprice haffordable).1]
      refine Nat.mul_pos (one_le_paymentSteps _ _ _ _) (Nat.pos_of_ne_zero fun hzero ↦ hprice ?_)
      exact UInt64.toNat_inj.mp hzero

/-- What is known of a call at its stage. -/
def ConnectStage.Paid : ConnectStage → Prop
  | .connected client spent | .tracking client spent _ => PaidFor client spent
  | .checked | .returned => True

namespace Connects

/-- Every call that has connected has paid as an attempt to connect does. -/
def PaidCalls (state : Connects) : Prop :=
  ∀ (call : ℕ) (entry : ConnectCall), state.calls[call]? = some entry → entry.stage.Paid

theorem PaidCalls.setStage {state : Connects} (hpaid : state.PaidCalls) (call : ℕ)
    (entry : ConnectCall) {stage : ConnectStage} (hstage : stage.Paid) :
    (state.setStage call entry stage).PaidCalls := by
  intro other next hnext
  simp only [Connects.setStage, ExtTreeMap.getElem?_insert, Std.compare_eq_iff_eq] at hnext
  split_ifs at hnext with hsame
  · rw [← Option.some.inj hnext]
    exact hstage
  · exact hpaid other next hnext

theorem paidCalls_step {state : Connects} (hpaid : state.PaidCalls) (step : ConnectStep) :
    (state.step step).1.PaidCalls := by
  cases step with
  | check call interfaceName gatewayIp =>
    simp only [Connects.step]
    split
    · exact hpaid
    · split_ifs
      · exact hpaid.setStage _ _ trivial
      · exact hpaid.setStage _ _ trivial
  | connect call replies =>
    simp only [Connects.step]
    split
    · split
      · next hconnect => exact hpaid.setStage _ _ (paidFor_connect hconnect)
      · exact hpaid.setStage _ _ trivial
    · exact hpaid
  | spawn call =>
    simp only [Connects.step]
    split
    · next _ gatewayIp _ _ hcall =>
      have hspawned : ({ state with
          manager := state.manager.spawnUsageTracker gatewayIp } : Connects).PaidCalls := hpaid
      exact hspawned.setStage _ _ (hpaid call _ hcall)
    · exact hpaid
  | insert call =>
    simp only [Connects.step]
    split
    · next interfaceName gatewayIp client spent tracker hcall =>
      have hinserted : ({ state with
          manager := state.manager.insertSession interfaceName gatewayIp client tracker } :
          Connects).PaidCalls := hpaid
      exact hinserted.setStage _ _ trivial
    · exact hpaid
  | disconnect interfaceName => exact hpaid
  | stop => exact hpaid

/-- Only the step that writes an entry makes a session. -/
theorem sessions_step {state : Connects} (hnone : ∀ gatewayIp : String,
      state.manager.sessions[gatewayIp]? = none) (step : ConnectStep)
    (hstores : ∀ call, step = .insert call → ∀ entry, state.calls[call]? = some entry →
      entry.stage.isTracking = false) (gatewayIp : String) :
    (state.step step).1.manager.sessions[gatewayIp]? = none := by
  cases step with
  | check call interfaceName other =>
    simp only [Connects.step]
    split
    · exact hnone gatewayIp
    · split_ifs
      · exact hnone gatewayIp
      · exact hnone gatewayIp
  | connect call replies =>
    simp only [Connects.step]
    split
    · split
      · exact hnone gatewayIp
      · exact hnone gatewayIp
    · exact hnone gatewayIp
  | spawn call =>
    simp only [Connects.step]
    split
    · exact hnone gatewayIp
    · exact hnone gatewayIp
  | insert call =>
    simp only [Connects.step]
    split
    · next hcall => exact absurd (hstores call rfl _ hcall) (by simp [ConnectStage.isTracking])
    · exact hnone gatewayIp
  | disconnect interfaceName =>
    simp only [Connects.step, SessionManager.getElem?_handleDisconnect, hnone gatewayIp]
    rfl
  | stop => exact SessionManager.getElem?_stop _ gatewayIp

end Connects

/-! ### Whole runs -/

namespace Accounts

/-- No session yet, and calls that have paid as attempts to connect do. -/
structure Fresh (accounts : Accounts) : Prop where
  none : ∀ gatewayIp : String, accounts.connects.manager.sessions[gatewayIp]? = none
  paid : accounts.connects.PaidCalls

theorem fresh_start (clientConfig : V1ClientConfig) : (start clientConfig).Fresh := by
  refine ⟨fun gatewayIp ↦ ?_, fun call entry hentry ↦ ?_⟩
  · simp [start, Connects.start, SessionManager.new]
  · simp [start, Connects.start] at hentry

/-- Without sessions there is nothing to be wrong. -/
theorem Fresh.exact {accounts : Accounts} (hfresh : accounts.Fresh) : accounts.Exact := by
  intro info hinfo
  obtain ⟨gatewayIp, session, hsession, -⟩ := SessionManager.mem_getActiveSessions.mp hinfo
  rw [hfresh.none gatewayIp] at hsession
  exact absurd hsession (by simp)

theorem Fresh.step {accounts : Accounts} (hfresh : accounts.Fresh) {step : AccountStep}
    (hstores : ¬ accounts.Stores step) : (accounts.step step).Fresh := by
  cases step with
  | connects step =>
    have hnone := Connects.sessions_step hfresh.none step fun call hstep entry hentry ↦ by
      rw [← Bool.not_eq_true]
      intro htracking
      subst hstep
      exact hstores ⟨entry, hentry, htracking⟩
    have hpaid := Connects.paidCalls_step hfresh.paid step
    cases step with
    | insert call =>
      simp only [Accounts.step]
      split
      · exact ⟨hnone, hpaid⟩
      · exact ⟨hnone, hpaid⟩
    | _ => exact ⟨hnone, hpaid⟩
  | renewal request connect renew =>
    have hsame : accounts.step (.renewal request connect renew) = accounts := by
      simp only [Accounts.step, processRenewal, hfresh.none request.gatewayIp]
    rw [hsame]
    exact hfresh

/-- The step that writes an entry, and the call that it belongs to. -/
theorem Stores.exists_call {accounts : Accounts} {step : AccountStep}
    (hstores : accounts.Stores step) :
    ∃ call interfaceName gatewayIp client spent tracker, step = .connects (.insert call) ∧
      accounts.connects.calls[call]? =
        some (ConnectCall.mk interfaceName gatewayIp (.tracking client spent tracker)) := by
  cases step with
  | renewal request connect renew => exact absurd hstores id
  | connects step =>
    cases step with
    | insert call =>
      obtain ⟨⟨interfaceName, gatewayIp, stage⟩, hcall, htracking⟩ := hstores
      cases stage with
      | tracking client spent tracker =>
        exact ⟨call, interfaceName, gatewayIp, client, spent, tracker, rfl, hcall⟩
      | _ => exact absurd htracking (by simp [ConnectStage.isTracking])
    | _ => exact absurd hstores id

/-- A new entry is wrong: it counts one payment and no sats, and no token was sent, or one that was
worth something. -/
theorem Fresh.not_exact_of_stores {accounts : Accounts} (hfresh : accounts.Fresh)
    {step : AccountStep} (hstores : accounts.Stores step) : ¬ (accounts.step step).Exact := by
  intro hexact
  obtain ⟨call, interfaceName, gatewayIp, client, spent, tracker, rfl, hcall⟩ :=
    hstores.exists_call
  obtain ⟨hsession, htokens⟩ := hfresh.paid call _ hcall
  have hentry : (accounts.step (.connects (.insert call))).connects.manager.sessions[gatewayIp]? =
      some ⟨gatewayIp, interfaceName, client, tracker, 0, 1⟩ := by
    simp only [Accounts.step, Connects.step, hcall, Connects.setStage,
      SessionManager.getElem?_insertSession, if_true, hsession]
  have haccepted : (accounts.step (.connects (.insert call))).accepted[gatewayIp]? =
      some (spent.filterMap UpstreamPayment.tokenAmount) := by
    simp only [Accounts.step, hcall, ExtTreeMap.getElem?_insert_self, acceptedTokens]
  obtain ⟨hcount, hspent⟩ := hexact _
    (SessionManager.mem_getActiveSessions.mpr ⟨gatewayIp, _, hentry, rfl⟩)
  simp only [UpstreamSessionState.info, haccepted, Option.getD_some] at hcount hspent
  rcases htokens with hnone | ⟨amount, hamount, hone⟩
  · rw [hnone] at hcount
    exact absurd hcount (by decide)
  · rw [hone] at hspent
    simp only [List.map_cons, List.map_nil, List.sum_cons, List.sum_nil, UInt64.toNat_zero]
      at hspent
    omega

/-- Payment accounting is exact in every state of a run exactly when no entry of a session is ever
written in it. -/
theorem accounts_exact_iff (clientConfig : V1ClientConfig) (steps : List AccountStep) :
    machine.Throughout Exact (start clientConfig) steps ↔
      machine.Along (fun accounts step ↦ ¬ accounts.Stores step) (start clientConfig) steps := by
  have hstart := fresh_start clientConfig
  generalize start clientConfig = accounts at hstart ⊢
  induction steps generalizing accounts with
  | nil => exact iff_of_true ((machine.throughout_nil _ _).mpr hstart.exact) trivial
  | cons step rest ih =>
    rw [Transducer.throughout_cons, Transducer.along_cons, and_iff_right hstart.exact]
    by_cases hstores : accounts.Stores step
    · refine iff_of_false (fun hrest ↦ ?_) fun hboth ↦ hboth.1 hstores
      exact hstart.not_exact_of_stores hstores (hrest [] List.nil_prefix)
    · rw [and_iff_right hstores]
      exact ih _ (hstart.step hstores)

/-- A gateway is paid one sat, and two renewals that come in the same second pay another one. -/
def sampleRun : List AccountStep :=
  [.connects (.check 0 "eth0" "192.168.1.1"), .connects (.connect 0 sampleReplies),
    .connects (.spawn 0), .connects (.insert 0),
    .renewal ⟨"192.168.1.1", 60000⟩ sampleReplies ⟨0, .ok 9, .ok "cashuB", .ok (some 60000)⟩,
    .renewal ⟨"192.168.1.1", 60000⟩ sampleReplies ⟨1, .ok 8, .ok "cashuB", .ok (some 60000)⟩]

/-- Two tokens of one sat are accepted; what is shown is three payments and no sats. -/
theorem payments_miscounted :
    ¬ machine.Throughout Exact (start sampleClientConfig) sampleRun ∧
      (machine.final (start sampleClientConfig) sampleRun).accepted["192.168.1.1"]? =
        some [1, 1] ∧
      (machine.final (start sampleClientConfig) sampleRun).connects.manager.getActiveSessions =
        [⟨"192.168.1.1", "eth0", 60000, "milliseconds", 0, 3⟩] := by
  refine ⟨fun hexact ↦ ?_, ?_, ?_⟩
  · have hlast := hexact sampleRun (List.prefix_refl sampleRun)
    exact absurd hlast (by decide +kernel)
  · decide +kernel
  · decide +kernel

end Accounts

end Tollgate
