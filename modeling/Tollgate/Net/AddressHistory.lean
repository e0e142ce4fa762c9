import Tollgate.Net.Enforcement

/-!
# What opens and shuts an address

Access is decided about peers and enforced at addresses, so what happens to one address depends on
which peers have it when something is decided about them. `Driver.Admits` and `Driver.Shuts` say for
each call which addresses it opens and which it shuts, and an address is a latch between the two
(`Driver.mem_paid_step`).
-/

set_option autoImplicit false
set_option relaxedAutoImplicit false

namespace Gate

variable {Key Address : Type*} [DecidableEq Key] {gate : Gate Key Address}

theorem mem_opened_drop {key : Key} {place : Address} :
    place ∈ (gate.drop key).opened ↔ place ∈ gate.opened ∧ gate.address key ≠ some place := by
  have hforget : place ∈ (gate.drop key).opened ↔ place ∈ (gate.decide key false).opened := Iff.rfl
  rw [hforget]
  by_cases hkey : gate.address key = some place
  · rw [mem_opened_decide_self hkey]
    simp [hkey]
  · rw [mem_opened_decide_other hkey]
    simp [hkey]

/-- Dropping keys shuts the addresses that they have. -/
theorem mem_opened_dropAll {keys : List Key} {place : Address} :
    place ∈ (keys.foldl Gate.drop gate).opened ↔
      place ∈ gate.opened ∧ ∀ key ∈ keys, gate.address key ≠ some place := by
  induction keys generalizing gate with
  | nil => simp
  | cons first rest ih =>
    rw [List.foldl_cons, ih, mem_opened_drop, List.forall_mem_cons, and_assoc]
    refine and_congr_right fun _ ↦ and_congr_right fun hfirst ↦ ?_
    refine forall₂_congr fun key _ ↦ ?_
    have haddress (hne : key ≠ first) : (gate.drop first).address key = gate.address key :=
      address_forget_of_ne hne
    by_cases hkey : key = first
    · have hforgot : (gate.drop first).address first = none := address_forget_self
      rw [hkey, hforgot]
      simp [hfirst]
    · rw [haddress hkey]

end Gate

namespace Tollgate

namespace Driver

/-! ### One call -/

/-- The call opens an address: it is an accepted token of a tracked peer that has the address. -/
def Admits (cbor : Minicbor) (driver : Driver) (ip : IpAddr) : Call → Prop
  | .messageReceived peer bytes _ _ answer _ =>
    driver.peerIp[peer]? = some ip ∧ driver.MessageAdmits cbor peer bytes answer
  | .peerConnected _ _ _ _ | .meter _ _ _ | .peerDisconnected _ _ | .reapIdle _ _ _ => False

/-- The call shuts an address: the first announce of a peer from there, a message that revokes, a
sample that suspends, or the end of a peer that has the address. -/
def Shuts (cbor : Minicbor) (driver : Driver) (ip : IpAddr) : Call → Prop
  | .peerConnected peer place _ _ =>
    driver.session.peerPhase peer = none ∧ place.or driver.peerIp[peer]? = some ip
  | .messageReceived peer bytes _ _ answer _ =>
    driver.peerIp[peer]? = some ip ∧ driver.MessageRevokes cbor peer bytes answer
  | .meter peer counters now =>
    driver.peerIp[peer]? = some ip ∧ driver.MeterCuts peer counters now
  | .peerDisconnected peer _ => driver.peerIp[peer]? = some ip
  | .reapIdle nowMs idleMs _ =>
    ∃ peer ∈ driver.reaped nowMs idleMs, driver.peerIp[peer]? = some ip

section Step

variable {cbor : Minicbor} {driver : Driver} {peer : PeerId} {ip : IpAddr}

theorem mem_decide {gate : Gate PeerId IpAddr} {allowed : Bool} :
    ip ∈ (gate.decide peer allowed).opened ↔
      (gate.address peer = some ip ∧ allowed = true) ∨
        (ip ∈ gate.opened ∧ gate.address peer ≠ some ip) := by
  rw [and_comm (a := ip ∈ gate.opened)]
  exact Iff.rfl

/-- What is open after a call was opened by it, or was open and is not shut. -/
theorem mem_paid_step (call : Call) :
    ip ∈ (driver.step cbor call).paid ↔
      driver.Admits cbor ip call ∨ (ip ∈ driver.paid ∧ ¬ driver.Shuts cbor ip call) := by
  have hopened : ∀ {gate : Gate PeerId IpAddr}, (driver.step cbor call).gate = gate →
      (ip ∈ (driver.step cbor call).paid ↔ ip ∈ gate.opened) := by
    rintro gate rfl
    exact Iff.rfl
  have hpaid : ip ∈ driver.gate.opened ↔ ip ∈ driver.paid := Iff.rfl
  have haddress : driver.gate.address = fun peer ↦ driver.peerIp[peer]? := rfl
  cases call with
  | peerConnected peer place seenAt now =>
    have hmoved : ∀ moved : Gate PeerId IpAddr,
        moved = place.elim driver.gate (driver.gate.move peer) →
        (ip ∈ moved.opened ↔ ip ∈ driver.paid) ∧
          moved.address peer = place.or driver.peerIp[peer]? := by
      rintro moved rfl
      cases place with
      | none => exact ⟨Iff.rfl, rfl⟩
      | some place => exact ⟨Iff.rfl, Gate.address_move_self place⟩
    obtain ⟨hkept, hplace⟩ := hmoved _ rfl
    rw [hopened (gate_peerConnected place)]
    simp only [Admits, Shuts, false_or]
    split_ifs with hnew
    · rw [mem_decide, hkept, hplace]
      simp [hnew]
    · rw [hkept]
      simp [hnew]
  | messageReceived peer bytes seenAt now answer answeredAt =>
    simp only [Admits, Shuts]
    by_cases hadmits : driver.MessageAdmits cbor peer bytes answer
    · have hnot := not_revokes_of_admits hadmits
      obtain ⟨message, htoken, htracked, haccepted⟩ := hadmits
      have hgate := @gate_token cbor driver peer now seenAt bytes message htoken htracked answer
        answeredAt
      rw [hopened hgate, haccepted, mem_decide, hpaid, haddress]
      have hagain : driver.MessageAdmits cbor peer bytes answer :=
        ⟨message, htoken, htracked, haccepted⟩
      by_cases hplace : driver.peerIp[peer]? = some ip <;> simp [hagain, hnot, hplace]
    · rcases @gate_messageReceived cbor driver peer now seenAt bytes answer answeredAt with
        ⟨hrevokes, hgate⟩ | ⟨hcontra, -⟩ | ⟨hkeeps, hgate⟩
      · rw [hopened hgate, mem_decide, hpaid, haddress]
        simp [hrevokes, hadmits]
      · exact absurd hcontra hadmits
      · rw [hopened hgate, hpaid]
        simp [hkeeps, hadmits]
  | meter peer counters now =>
    rw [hopened (gate_meter counters)]
    simp only [Admits, Shuts, false_or]
    split_ifs with hcuts
    · rw [mem_decide, hpaid, haddress]
      simp [hcuts]
    · rw [hpaid]
      simp [hcuts]
  | peerDisconnected peer now =>
    rw [hopened gate_peerDisconnected, Gate.mem_opened_drop, hpaid, haddress]
    simp [Admits, Shuts]
  | reapIdle nowMs idleMs now =>
    rw [hopened (gate_reapIdle nowMs idleMs), Gate.mem_opened_dropAll, hpaid, haddress]
    simp [Admits, Shuts]

end Step

end Driver

end Tollgate
