import Tollgate.Library.Streak
import Tollgate.Library.Transducer
import Tollgate.Net.SessionManager

/-!
# Looking out for gateways

`v1_compat/crowsnest.rs`: scan after scan, every configured gateway is probed in turn. One that
turns out to be a TollGate is handed to the session manager; one whose probes fail three times in a
row is disconnected. The failures are counted by gateway, but the manager is told to disconnect the
interface, which all the gateways share.

`sessions_end_for_own_failures_iff` says for which runs a session ends only by the failures of its
own gateway: those in which no gateway gives up its connection while another one has a session.
-/

set_option autoImplicit false
set_option relaxedAutoImplicit false

namespace Tollgate

open Std

/-- What `probe_gateway` returns: a TollGate, with what an attempt to connect to it is told from
outside; a host that is none; or an error. -/
inductive ProbeResult
  | found (replies : ConnectReplies)
  | notTollGate
  | failed

/-- One turn of the inner loop of `Crowsnest::run`. -/
structure Probe where
  gatewayIp : String
  result : ProbeResult

def Probe.hasFailed (probe : Probe) : Bool :=
  match probe.result with
  | .failed => true
  | .found _ | .notTollGate => false

/-- What the loop reads of its `CrowsnestConfig`. -/
structure CrowsnestConfig where
  gatewayIps : List String
  interfaceName : String

/-- The probes of a number of scans, each with a result for every gateway. -/
def CrowsnestConfig.probes (config : CrowsnestConfig)
    (scans : List (Vector ProbeResult config.gatewayIps.length)) : List Probe :=
  scans.flatMap fun scan ↦ List.zipWith Probe.mk config.gatewayIps scan.toList

/-- `DISCONNECT_AFTER_CONSECUTIVE_FAILURES`. -/
def disconnectAfterConsecutiveFailures : ℕ := 3

/-- The state of `Crowsnest::run`, with its handler. -/
structure Crowsnest where
  failureCounts : ExtTreeMap String ℕ
  manager : SessionManager

namespace Crowsnest

/-- The loop before its first scan, with a manager that has no sessions. -/
def start (clientConfig : V1ClientConfig) : Crowsnest :=
  ⟨∅, SessionManager.new clientConfig⟩

/-- The failures counted for a gateway. -/
def failures (nest : Crowsnest) (gatewayIp : String) : ℕ :=
  nest.failureCounts[gatewayIp]?.getD 0

/-- One turn of the inner loop; its outputs are the gateways that lose their sessions. -/
def step (interfaceName : String) (nest : Crowsnest) (probe : Probe) : Crowsnest × List String :=
  match probe.result with
  | .found replies =>
    ({ failureCounts := nest.failureCounts.insert probe.gatewayIp 0
       manager := (nest.manager.handleGatewayConnected interfaceName probe.gatewayIp replies).2 },
      [])
  | .notTollGate =>
    ({ nest with failureCounts := nest.failureCounts.insert probe.gatewayIp 0 }, [])
  | .failed =>
    let count := nest.failures probe.gatewayIp + 1
    if disconnectAfterConsecutiveFailures ≤ count then
      ({ failureCounts := nest.failureCounts.insert probe.gatewayIp 0
         manager := nest.manager.handleDisconnect interfaceName },
        nest.manager.gatewaysOn interfaceName)
    else ({ nest with failureCounts := nest.failureCounts.insert probe.gatewayIp count }, [])

/-- `Crowsnest::run`, probe by probe. -/
def machine (interfaceName : String) : Transducer Crowsnest Probe String where
  step := step interfaceName

/-! ### What a session may end by -/

/-- How many failed probes of a gateway in a row a list of probes ends with. -/
def failedInARow (gatewayIp : String) (probes : List Probe) : ℕ :=
  Streak.after 0 ((probes.filter fun probe ↦ probe.gatewayIp = gatewayIp).map Probe.hasFailed)

/-- A session ends only after enough failed probes in a row of its own gateway, and it stays as it
is as long as its gateway answers. -/
structure OwnFailures (interfaceName : String) (nest : Crowsnest) (probes : List Probe) :
    Prop where
  removed : ∀ before probe after, probes = before ++ probe :: after →
    ∀ gatewayIp ∈ ((machine interfaceName).final nest before |>.step interfaceName probe).2,
      disconnectAfterConsecutiveFailures ≤ failedInARow gatewayIp (before ++ [probe])
  kept : ∀ before between after gatewayIp session, probes = before ++ between ++ after →
    ((machine interfaceName).final nest before).manager.sessions[gatewayIp]? = some session →
    (∀ probe ∈ between, probe.gatewayIp = gatewayIp → probe.hasFailed = false) →
      ((machine interfaceName).final nest (before ++ between)).manager.sessions[gatewayIp]? =
        some session

/-- A probe that disconnects the interface while a gateway other than the probed one has a session
through it. -/
def TearsDownOthers (interfaceName : String) (nest : Crowsnest) (probe : Probe) : Prop :=
  probe.hasFailed = true ∧
    disconnectAfterConsecutiveFailures ≤ nest.failures probe.gatewayIp + 1 ∧
    ∃ gatewayIp ∈ nest.manager.gatewaysOn interfaceName, gatewayIp ≠ probe.gatewayIp

theorem failedInARow_concat (gatewayIp : String) (probes : List Probe) (probe : Probe) :
    failedInARow gatewayIp (probes ++ [probe]) =
      if probe.gatewayIp = gatewayIp then
        Streak.next (failedInARow gatewayIp probes) probe.hasFailed
      else failedInARow gatewayIp probes := by
  rw [failedInARow, List.filter_append, List.map_append, Streak.after_append]
  by_cases hsame : probe.gatewayIp = gatewayIp
  · simp [hsame, failedInARow, Streak.after]
  · simp [hsame, failedInARow, Streak.after]

/-! ### Counting -/

/-- What the counts say of the probes so far: never more failures than there were in a row, always
fewer than it takes to disconnect, and exactly those in a row for a gateway with a session. -/
structure Counts (interfaceName : String) (probes : List Probe) (nest : Crowsnest) : Prop where
  le_failedInARow : ∀ gatewayIp, nest.failures gatewayIp ≤ failedInARow gatewayIp probes
  lt_disconnect : ∀ gatewayIp, nest.failures gatewayIp < disconnectAfterConsecutiveFailures
  of_session : ∀ gatewayIp session, nest.manager.sessions[gatewayIp]? = some session →
    session.interfaceName = interfaceName ∧
      nest.failures gatewayIp = failedInARow gatewayIp probes

theorem failures_insert (counts : ExtTreeMap String ℕ) (manager : SessionManager)
    (gatewayIp other : String) (count : ℕ) :
    failures ⟨counts.insert gatewayIp count, manager⟩ other =
      if gatewayIp = other then count else failures ⟨counts, manager⟩ other := by
  simp only [failures, ExtTreeMap.getElem?_insert, Std.compare_eq_iff_eq]
  split_ifs
  · rfl
  · rfl

theorem counts_start (interfaceName : String) (clientConfig : V1ClientConfig) :
    Counts interfaceName [] (start clientConfig) := by
  refine ⟨fun _ ↦ ?_, fun _ ↦ ?_, fun gatewayIp session hsession ↦ ?_⟩
  · simp [failures, start]
  · simp [failures, start, disconnectAfterConsecutiveFailures]
  · simp [start, SessionManager.new] at hsession

variable {interfaceName : String} {history : List Probe} {nest : Crowsnest}

/-- Assumes: counts that fit the probes so far, and a probe that did not fail. They fit with the
count of its gateway back at zero, if a session that is new belongs to this gateway. -/
theorem Counts.reset (hcounts : Counts interfaceName history nest) {probe : Probe}
    (hanswer : probe.hasFailed = false) (manager : SessionManager)
    (hmanager : ∀ gatewayIp session, manager.sessions[gatewayIp]? = some session →
      nest.manager.sessions[gatewayIp]? = some session ∨
        gatewayIp = probe.gatewayIp ∧ session.interfaceName = interfaceName) :
    Counts interfaceName (history ++ [probe])
      ⟨nest.failureCounts.insert probe.gatewayIp 0, manager⟩ := by
  have hfailures (gatewayIp : String) :
      failures ⟨nest.failureCounts, manager⟩ gatewayIp = nest.failures gatewayIp := rfl
  refine ⟨fun gatewayIp ↦ ?_, fun gatewayIp ↦ ?_, fun gatewayIp session hsession ↦ ?_⟩
  · rw [failures_insert, failedInARow_concat, hfailures]
    split_ifs with hsame
    · exact Nat.zero_le _
    · exact hcounts.le_failedInARow gatewayIp
  · rw [failures_insert, hfailures]
    split_ifs with hsame
    · decide
    · exact hcounts.lt_disconnect gatewayIp
  · rw [failures_insert, failedInARow_concat, hfailures]
    rcases hmanager gatewayIp session hsession with hold | ⟨rfl, hname⟩
    · obtain ⟨hname, hcount⟩ := hcounts.of_session gatewayIp session hold
      refine ⟨hname, ?_⟩
      split_ifs with hsame
      · rw [hanswer]
        rfl
      · exact hcount
    · refine ⟨hname, ?_⟩
      rw [if_pos rfl, if_pos rfl, hanswer]
      rfl

/-- Assumes: counts that fit the probes so far. They fit after one more. -/
theorem Counts.step (hcounts : Counts interfaceName history nest) (probe : Probe) :
    Counts interfaceName (history ++ [probe]) (nest.step interfaceName probe).1 := by
  cases hresult : probe.result with
  | found replies =>
    have hanswer : probe.hasFailed = false := by rw [Probe.hasFailed, hresult]
    rw [Crowsnest.step, hresult]
    refine hcounts.reset hanswer _ fun gatewayIp session hsession ↦ ?_
    rcases nest.manager.handleGatewayConnected_cases interfaceName probe.gatewayIp replies with
      hsame | ⟨-, client, hnew⟩
    · exact .inl (hsame ▸ hsession)
    · rw [hnew, SessionManager.getElem?_insertSession] at hsession
      by_cases hgateway : gatewayIp = probe.gatewayIp
      · rw [if_pos hgateway] at hsession
        obtain rfl := Option.some.inj hsession
        exact .inr ⟨hgateway, rfl⟩
      · rw [if_neg hgateway] at hsession
        exact .inl hsession
  | notTollGate =>
    have hanswer : probe.hasFailed = false := by rw [Probe.hasFailed, hresult]
    rw [Crowsnest.step, hresult]
    exact hcounts.reset hanswer nest.manager fun _ _ hsession ↦ .inl hsession
  | failed =>
    have hfailed : probe.hasFailed = true := by rw [Probe.hasFailed, hresult]
    have hfailures (manager : SessionManager) (gatewayIp : String) :
        failures ⟨nest.failureCounts, manager⟩ gatewayIp = nest.failures gatewayIp := rfl
    have hle := hcounts.le_failedInARow probe.gatewayIp
    simp only [Crowsnest.step, hresult]
    split_ifs with hlimit
    · -- Every session went through the interface, so that none is left.
      refine ⟨fun gatewayIp ↦ ?_, fun gatewayIp ↦ ?_, fun gatewayIp session hsession ↦ ?_⟩
      · rw [failures_insert, failedInARow_concat, hfailures]
        split_ifs with hsame
        · exact Nat.zero_le _
        · exact hcounts.le_failedInARow gatewayIp
      · rw [failures_insert, hfailures]
        split_ifs with hsame
        · decide
        · exact hcounts.lt_disconnect gatewayIp
      · rw [SessionManager.getElem?_handleDisconnect, Option.filter_eq_some_iff] at hsession
        have hname := (hcounts.of_session gatewayIp session hsession.1).1
        simp [hname] at hsession
    · refine ⟨fun gatewayIp ↦ ?_, fun gatewayIp ↦ ?_, fun gatewayIp session hsession ↦ ?_⟩
      · rw [failures_insert, failedInARow_concat, hfailures, hfailed]
        split_ifs with hsame
        · rw [← hsame]
          exact Nat.succ_le_succ hle
        · exact hcounts.le_failedInARow gatewayIp
      · rw [failures_insert, hfailures]
        split_ifs with hsame
        · exact Nat.not_le.mp hlimit
        · exact hcounts.lt_disconnect gatewayIp
      · obtain ⟨hname, hcount⟩ := hcounts.of_session gatewayIp session hsession
        refine ⟨hname, ?_⟩
        rw [failures_insert, failedInARow_concat, hfailures, hfailed]
        split_ifs with hsame
        · rw [hsame, hcount]
          rfl
        · exact hcount

/-- The counts fit the probes of every run. -/
theorem counts_final (interfaceName : String) (clientConfig : V1ClientConfig)
    (probes : List Probe) :
    Counts interfaceName probes ((machine interfaceName).final (start clientConfig) probes) := by
  induction probes using List.reverseRecOn with
  | nil => exact counts_start interfaceName clientConfig
  | append_singleton probes probe ih =>
    rw [Transducer.final_append]
    exact ih.step probe

/-! ### Whose session ends -/

/-- What a probe removes: nothing, unless it is the last failure that it takes to disconnect. -/
theorem mem_removed_iff (nest : Crowsnest) (probe : Probe) (gatewayIp : String) :
    gatewayIp ∈ (nest.step interfaceName probe).2 ↔
      probe.hasFailed = true ∧
        disconnectAfterConsecutiveFailures ≤ nest.failures probe.gatewayIp + 1 ∧
        gatewayIp ∈ nest.manager.gatewaysOn interfaceName := by
  cases hresult : probe.result with
  | found replies => simp [step, hresult, Probe.hasFailed]
  | notTollGate => simp [step, hresult, Probe.hasFailed]
  | failed =>
    simp only [step, hresult, Probe.hasFailed]
    split_ifs with hlimit
    · simp [hlimit]
    · simp [hlimit]

/-- Assumes: counts that fit the probes so far. A probe removes only sessions with enough failures
of their own exactly if it tears down no others. -/
theorem Counts.removed_iff (hcounts : Counts interfaceName history nest) (probe : Probe) :
    (∀ gatewayIp ∈ (nest.step interfaceName probe).2,
      disconnectAfterConsecutiveFailures ≤ failedInARow gatewayIp (history ++ [probe])) ↔
    ¬ nest.TearsDownOthers interfaceName probe := by
  constructor
  · rintro hremoved ⟨hfailed, hlimit, gatewayIp, hother, hne⟩
    have hown := hremoved gatewayIp ((mem_removed_iff nest probe gatewayIp).mpr
      ⟨hfailed, hlimit, hother⟩)
    rw [failedInARow_concat, if_neg (Ne.symm hne)] at hown
    obtain ⟨session, hsession, -⟩ := SessionManager.mem_gatewaysOn.mp hother
    rw [← (hcounts.of_session gatewayIp session hsession).2] at hown
    exact absurd hown (Nat.not_le.mpr (hcounts.lt_disconnect gatewayIp))
  · intro hothers gatewayIp hgateway
    obtain ⟨hfailed, hlimit, hon⟩ := (mem_removed_iff nest probe gatewayIp).mp hgateway
    have hsame : gatewayIp = probe.gatewayIp := by
      by_contra hne
      exact hothers ⟨hfailed, hlimit, gatewayIp, hon, hne⟩
    rw [failedInARow_concat, if_pos hsame.symm, hfailed, hsame]
    exact hlimit.trans (Nat.succ_le_succ (hcounts.le_failedInARow probe.gatewayIp))

/-- Assumes: counts that fit the probes so far, a gateway with a session, and a probe that tears
down no others and is no failure of this gateway. The session stays as it is. -/
theorem Counts.kept (hcounts : Counts interfaceName history nest) {probe : Probe}
    (hothers : ¬ nest.TearsDownOthers interfaceName probe) {gatewayIp : String}
    {session : UpstreamSessionState}
    (hsession : nest.manager.sessions[gatewayIp]? = some session)
    (hanswers : probe.gatewayIp = gatewayIp → probe.hasFailed = false) :
    (nest.step interfaceName probe).1.manager.sessions[gatewayIp]? = some session := by
  cases hresult : probe.result with
  | found replies =>
    simp only [Crowsnest.step, hresult]
    rcases nest.manager.handleGatewayConnected_cases interfaceName probe.gatewayIp replies with
      hsame | ⟨hnone, client, hnew⟩
    · rw [hsame, hsession]
    · have hne : gatewayIp ≠ probe.gatewayIp := by
        intro hgateway
        rw [← hgateway, hsession] at hnone
        exact Option.some_ne_none _ hnone
      rw [hnew, SessionManager.getElem?_insertSession, if_neg hne]
      exact hsession
  | notTollGate =>
    simp only [Crowsnest.step, hresult]
    exact hsession
  | failed =>
    have hfailed : probe.hasFailed = true := by rw [Probe.hasFailed, hresult]
    simp only [Crowsnest.step, hresult]
    split_ifs with hlimit
    · refine absurd ⟨hfailed, hlimit, gatewayIp, ?_, fun hsame ↦ ?_⟩ hothers
      · refine SessionManager.mem_gatewaysOn.mpr ⟨session, hsession, ?_⟩
        exact (hcounts.of_session gatewayIp session hsession).1
      · rw [hanswers hsame.symm] at hfailed
        exact Bool.false_ne_true hfailed
    · exact hsession

/-- For any gateways and any outcomes of their probes, a session ends only by the failures of its
own gateway exactly if no gateway is disconnected while another one has a session. -/
theorem sessions_end_for_own_failures_iff (config : CrowsnestConfig)
    (clientConfig : V1ClientConfig)
    (scans : List (Vector ProbeResult config.gatewayIps.length)) :
    OwnFailures config.interfaceName (start clientConfig) (config.probes scans) ↔
      (machine config.interfaceName).Along
        (fun nest probe ↦ ¬ nest.TearsDownOthers config.interfaceName probe)
        (start clientConfig) (config.probes scans) := by
  have hcounts := counts_final config.interfaceName clientConfig
  rw [Transducer.along_iff_forall_cut]
  constructor
  · intro hown before probe after hcut
    exact ((hcounts before).removed_iff probe).mp (hown.removed before probe after hcut)
  · intro hothers
    refine ⟨fun before probe after hcut ↦ ?_, ?_⟩
    · exact ((hcounts before).removed_iff probe).mpr (hothers before probe after hcut)
    · intro before between after gatewayIp session hcut hsession hanswers
      -- From the right, because what a probe leaves depends on everything in front of it.
      induction between using List.reverseRecOn generalizing after with
      | nil => rwa [List.append_nil]
      | append_singleton between probe ih =>
        have hcut' : config.probes scans = before ++ between ++ probe :: after := by
          rw [hcut, List.append_assoc, List.append_assoc, List.append_assoc]
          rfl
        have hbetween := ih (probe :: after) hcut' fun other hother ↦
          hanswers other (List.mem_append_left _ hother)
        rw [← List.append_assoc, Transducer.final_append]
        refine (hcounts (before ++ between)).kept ?_ hbetween ?_
        · exact hothers (before ++ between) probe after hcut'
        · exact hanswers probe (List.mem_append_right _ List.mem_cons_self)

/-! ### Two gateways -/

/-- Two gateways behind the default interface. -/
def sampleConfig : CrowsnestConfig :=
  ⟨["192.168.1.1", "192.168.2.1"], "eth0"⟩

/-- Three scans in which the first gateway answers and the second does not. -/
def sampleScans : List (Vector ProbeResult sampleConfig.gatewayIps.length) :=
  List.replicate 3 ⟨#[.found sampleReplies, .failed], rfl⟩

/-- The first gateway answers every probe, and loses the session it was paid for to the failures of
the second. -/
theorem answering_gateway_loses_session :
    ¬ OwnFailures sampleConfig.interfaceName (start sampleClientConfig)
      (sampleConfig.probes sampleScans) := by
  intro hown
  have hremoved : "192.168.1.1" ∈ ((machine "eth0").final (start sampleClientConfig)
      (sampleConfig.probes sampleScans).dropLast |>.step "eth0" ⟨"192.168.2.1", .failed⟩).2 := by
    decide +kernel
  have hfailed : failedInARow "192.168.1.1" (sampleConfig.probes sampleScans) = 0 := by
    decide +kernel
  have hlimit := hown.removed (sampleConfig.probes sampleScans).dropLast
    ⟨"192.168.2.1", .failed⟩ [] rfl "192.168.1.1" hremoved
  have hprobes : (sampleConfig.probes sampleScans).dropLast ++ [⟨"192.168.2.1", .failed⟩] =
      sampleConfig.probes sampleScans := rfl
  rw [hprobes, hfailed] at hlimit
  exact absurd hlimit (by decide)

end Crowsnest

end Tollgate
