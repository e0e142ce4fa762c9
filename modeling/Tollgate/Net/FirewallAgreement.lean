import Tollgate.Core.Isolation
import Tollgate.Net.Enforcement

/-!
# What the firewall lets through

The driver decides about keys and its firewall enforces by address. `firewallSound_iff` says when no
address stays open without an active peer behind it, `payingPeers_iff` when every active peer's
address is open. Both are the driver's readings of what a gate keyed by address can promise.
-/

set_option autoImplicit false
set_option relaxedAutoImplicit false

namespace Tollgate

open Std

namespace Driver

/-! ### Soundness -/

/-- Every paid address is the current address of a peer that is active. -/
def FirewallSound (driver : Driver) : Prop :=
  ∀ ip ∈ driver.paid, ∃ peer, driver.peerIp[peer]? = some ip ∧
    driver.session.peerPhase peer = some .active

/-- An active peer announces itself from another address, and nobody else is active at the paid one
it leaves. -/
def AbandonsAddress (driver : Driver) (call : Call) : Prop :=
  ∃ peer ip old seenAt now, call = .peerConnected peer (some ip) seenAt now ∧
    driver.session.peerPhase peer = some .active ∧
    driver.peerIp[peer]? = some old ∧ old ≠ ip ∧ old ∈ driver.paid ∧
    ∀ other, other ≠ peer → driver.session.peerPhase other = some .active →
      driver.peerIp[other]? ≠ some old

theorem abandonsAddress_iff (driver : Driver) (peer : PeerId) (ip : IpAddr) (seenAt now : Millis) :
    driver.AbandonsAddress (.peerConnected peer (some ip) seenAt now) ↔
      driver.gate.Abandons peer ip := by
  constructor
  · rintro ⟨same, place, old, _, _, hcall, hactive, hold, hne, hpaid, hnobody⟩
    obtain ⟨rfl, hplace, -, -⟩ := Call.peerConnected.inj hcall
    obtain rfl := Option.some.inj hplace
    refine ⟨hactive, ?_, old, hpaid, hold, hne⟩
    rintro ⟨other, there, hother, hactiveOther, hthere, hsame⟩
    have hwhere : driver.peerIp[peer]? = some there := hsame
    rw [hold] at hwhere
    obtain rfl := Option.some.inj hwhere
    exact hnobody other hother hactiveOther hthere
  · rintro ⟨hactive, hunshared, old, hpaid, hold, hne⟩
    refine ⟨peer, ip, old, seenAt, now, rfl, hactive, hold, hne, hpaid, ?_⟩
    exact fun other hother hactiveOther hthere ↦
      hunshared ⟨other, old, hother, hactiveOther, hthere, hold⟩

variable {cbor : Minicbor} {driver : Driver}

/-- Assumes: a sound firewall. A call keeps it sound exactly when no active peer abandons its
address in it. -/
theorem firewallSound_step (hsound : driver.FirewallSound) (call : Call) :
    (driver.step cbor call).FirewallSound ↔ ¬ driver.AbandonsAddress call := by
  have hgate : driver.gate.Sound := hsound
  have hquiet {call : Call} (hafter : (driver.step cbor call).gate.Sound)
      (hcall : ∀ peer ip seenAt now, call ≠ .peerConnected peer ip seenAt now) :
      (driver.step cbor call).FirewallSound ↔ ¬ driver.AbandonsAddress call := by
    refine iff_of_true hafter ?_
    rintro ⟨peer, ip, _, seenAt, now, hconnected, -⟩
    exact hcall peer (some ip) seenAt now hconnected
  cases call with
  | peerConnected peer ip seenAt now =>
    have hafter : (driver.step cbor (.peerConnected peer ip seenAt now)).gate = _ :=
      gate_peerConnected ip
    show (driver.step cbor (.peerConnected peer ip seenAt now)).gate.Sound ↔ _
    rw [hafter]
    cases ip with
    | none =>
      refine iff_of_true ?_ ?_
      · rw [Option.elim_none]
        split_ifs
        · exact hgate.decide false
        · exact hgate
      · rintro ⟨_, _, _, _, _, hcall, -⟩
        obtain ⟨-, hip, -⟩ := Call.peerConnected.inj hcall
        exact absurd hip (by simp)
    | some ip =>
      rw [Option.elim_some, abandonsAddress_iff]
      split_ifs with huntracked
      · -- A peer that nobody tracked was not active, so it leaves no address behind.
        have hactive : ¬ driver.gate.Abandons peer ip := by
          rintro ⟨hactive, -⟩
          have hphase : driver.session.peerPhase peer = some .active := hactive
          rw [huntracked] at hphase
          exact absurd hphase (by simp)
        exact iff_of_true (((hgate.move_iff ip).mpr hactive).decide false) hactive
      · exact hgate.move_iff ip
  | messageReceived peer bytes seenAt now answer answeredAt =>
    refine hquiet ?_ (by simp)
    rcases @gate_messageReceived cbor driver peer now seenAt bytes answer answeredAt with
      ⟨-, hafter⟩ | ⟨-, hafter⟩ | ⟨-, hafter⟩
    · exact hafter ▸ hgate.decide false
    · exact hafter ▸ hgate.decide true
    · exact hafter ▸ hgate
  | meter peer counters now =>
    refine hquiet ?_ (by simp)
    have hafter : (driver.step cbor (.meter peer counters now)).gate = _ := gate_meter counters
    rw [hafter]
    split_ifs
    · exact hgate.decide false
    · exact hgate
  | peerDisconnected peer now =>
    refine hquiet ?_ (by simp)
    have hafter : (driver.step cbor (.peerDisconnected peer now)).gate = _ := gate_peerDisconnected
    rw [hafter]
    exact hgate.drop
  | reapIdle nowMs idleMs now =>
    refine hquiet ?_ (by simp)
    have hafter : (driver.step cbor (.reapIdle nowMs idleMs now)).gate = _ :=
      gate_reapIdle nowMs idleMs
    rw [hafter]
    exact hgate.dropAll _

/-- For every sequence of calls on a new driver: after every call each paid address is the current
address of an active peer, if and only if no active peer ever announces itself from another address
while it is the only active peer at the paid one it leaves. -/
theorem firewallSound_iff (cbor : Minicbor) (price : Price) (announce priceSheet : Bytes)
    (calls : List Call) :
    (machine cbor).Throughout FirewallSound (new price announce priceSheet) calls ↔
      (machine cbor).Along (fun driver call ↦ ¬ driver.AbandonsAddress call)
        (new price announce priceSheet) calls :=
  (machine cbor).throughout_iff_along (fun _ call hsound ↦ firewallSound_step hsound call)
    (by simp [FirewallSound, new]) calls

/-- Two addresses for concrete runs. -/
def firstIp : IpAddr := .v4 #v[10, 0, 0, 1]

def secondIp : IpAddr := .v4 #v[10, 0, 0, 2]

/-- A peer pays from one address and announces itself from another: the first stays open, and nobody
is active there. -/
theorem firewallSound_fails_on_move :
    ¬ ((machine Minicbor.derived).final (new ⟨0, 1⟩ [] [])
      [.peerConnected samplePeer (some firstIp) 0 0,
        .messageReceived samplePeer sampleToken 1 1 (some 5000) 2,
        .peerConnected samplePeer (some secondIp) 3 3]).FirewallSound := by
  set moved := (machine Minicbor.derived).final (new ⟨0, 1⟩ [] [])
    [.peerConnected samplePeer (some firstIp) 0 0,
      .messageReceived samplePeer sampleToken 1 1 (some 5000) 2,
      .peerConnected samplePeer (some secondIp) 3 3] with hmoved
  have hpaid : firstIp ∈ moved.paid := by
    rw [hmoved]
    decide +kernel
  have hbook : moved.peerIp.toList = [(samplePeer, secondIp)] := by
    rw [hmoved]
    decide +kernel
  intro hsound
  obtain ⟨peer, haddress, -⟩ := hsound firstIp hpaid
  have hmem := ExtTreeMap.mem_toList_iff_getElem?_eq_some.mpr haddress
  rw [hbook, List.mem_singleton] at hmem
  have hsame : firstIp = secondIp := congrArg Prod.snd hmem
  exact absurd hsame (by decide)

/-! ### Completeness -/

/-- The current address of every active peer is paid. -/
def PayingPeersServed (driver : Driver) : Prop :=
  ∀ peer ip, driver.session.peerPhase peer = some .active → driver.peerIp[peer]? = some ip →
    ip ∈ driver.paid

/-- The call takes the access of `peer`: its first announce, a message or a sample that revokes it,
its departure, or a sweep that reaps it. -/
def Revokes (cbor : Minicbor) (driver : Driver) (peer : PeerId) : Call → Prop
  | .peerConnected other _ _ _ => other = peer ∧ driver.session.peerPhase other = none
  | .messageReceived other bytes _ _ answer _ =>
    other = peer ∧ driver.MessageRevokes cbor other bytes answer
  | .meter other counters now => other = peer ∧ driver.MeterCuts other counters now
  | .peerDisconnected other _ => other = peer
  | .reapIdle nowMs idleMs _ => peer ∈ driver.reaped nowMs idleMs

/-- The address of `peer` during a call: the one an announce brings, or the one on file. -/
def addressIn (driver : Driver) (peer : PeerId) : Call → Option IpAddr
  | .peerConnected other ip _ _ =>
    if other = peer then ip.or driver.peerIp[peer]? else driver.peerIp[peer]?
  | .messageReceived _ _ _ _ _ _ | .meter _ _ _ | .peerDisconnected _ _ | .reapIdle _ _ _ =>
    driver.peerIp[peer]?

/-- A peer loses its access at an address where another peer is active. -/
def CutsNeighbour (cbor : Minicbor) (driver : Driver) (call : Call) : Prop :=
  ∃ peer other ip, driver.Revokes cbor peer call ∧ other ≠ peer ∧
    driver.session.peerPhase other = some .active ∧ driver.peerIp[other]? = some ip ∧
    driver.addressIn peer call = some ip

/-- An active peer announces itself from an address that is not paid. -/
def MovesUnpaid (driver : Driver) (call : Call) : Prop :=
  ∃ peer ip seenAt now, call = .peerConnected peer (some ip) seenAt now ∧
    driver.session.peerPhase peer = some .active ∧ ip ∉ driver.paid

/-- Assumes: a call that is no announce and takes the access of one peer at most, at the address on
file. It cuts a neighbour exactly when that peer's address is shared. -/
theorem cutsNeighbour_iff {call : Call} {peer : PeerId} {revokes : Prop}
    (hrevokes : ∀ other, driver.Revokes cbor other call ↔ peer = other ∧ revokes)
    (haddress : ∀ other, driver.addressIn other call = driver.peerIp[other]?) :
    driver.CutsNeighbour cbor call ↔ revokes ∧ driver.gate.Shared peer := by
  constructor
  · rintro ⟨cut, other, ip, hcut, hne, hactive, hother, hsame⟩
    obtain ⟨rfl, hdone⟩ := (hrevokes cut).mp hcut
    rw [haddress] at hsame
    exact ⟨hdone, other, ip, hne, hactive, hother, hsame⟩
  · rintro ⟨hdone, other, ip, hne, hactive, hother, hsame⟩
    refine ⟨peer, other, ip, (hrevokes peer).mpr ⟨rfl, hdone⟩, hne, hactive, hother, ?_⟩
    rw [haddress]
    exact hsame

/-- Assumes: a call that is no announce. No peer moves in it. -/
theorem not_movesUnpaid {call : Call}
    (hcall : ∀ peer ip seenAt now, call ≠ .peerConnected peer ip seenAt now) :
    ¬ driver.MovesUnpaid call := by
  rintro ⟨peer, ip, seenAt, now, hconnected, -⟩
  exact hcall peer (some ip) seenAt now hconnected

/-- Assumes: every active peer is served. An announce keeps it so exactly when it neither cuts a
neighbour nor moves an active peer to an unpaid address. -/
theorem payingPeers_peerConnected (hserved : driver.PayingPeersServed) (peer : PeerId)
    (ip : Option IpAddr) (seenAt now : Millis) :
    (driver.peerConnected cbor peer ip seenAt now).PayingPeersServed ↔
      ¬ driver.CutsNeighbour cbor (.peerConnected peer ip seenAt now) ∧
        ¬ driver.MovesUnpaid (.peerConnected peer ip seenAt now) := by
  have hgate : driver.gate.Complete := hserved
  show (driver.peerConnected cbor peer ip seenAt now).gate.Complete ↔ _
  rw [gate_peerConnected ip]
  have hmoves : driver.MovesUnpaid (.peerConnected peer ip seenAt now) ↔
      driver.gate.active peer ∧ ∃ place, ip = some place ∧ place ∉ driver.paid := by
    constructor
    · rintro ⟨same, place, _, _, hcall, hactive, hunpaid⟩
      obtain ⟨rfl, rfl, -, -⟩ := Call.peerConnected.inj hcall
      exact ⟨hactive, place, rfl, hunpaid⟩
    · rintro ⟨hactive, place, rfl, hunpaid⟩
      exact ⟨peer, place, seenAt, now, rfl, hactive, hunpaid⟩
  set located := ip.elim driver.gate (driver.gate.move peer) with hlocated
  have hother {other : PeerId} (hne : other ≠ peer) :
      located.address other = driver.peerIp[other]? := by
    rw [hlocated]
    cases ip with
    | none => rfl
    | some place => exact Gate.address_move_of_ne hne place
  have hself : located.address peer = ip.or driver.peerIp[peer]? := by
    rw [hlocated]
    cases ip with
    | none => rfl
    | some place => exact Gate.address_move_self place
  have hactive : located.active = driver.gate.active := by
    rw [hlocated]
    cases ip <;> rfl
  have hcuts : driver.CutsNeighbour cbor (.peerConnected peer ip seenAt now) ↔
      driver.session.peerPhase peer = none ∧ located.Shared peer := by
    constructor
    · rintro ⟨cut, other, place, ⟨rfl, hnew⟩, hne, hpaying, hthere, hsame⟩
      rw [addressIn, if_pos rfl] at hsame
      refine ⟨hnew, other, place, hne, ?_, ?_, ?_⟩
      · rw [hactive]
        exact hpaying
      · rw [hother hne, hthere]
      · rw [hself, hsame]
    · rintro ⟨hnew, other, place, hne, hpaying, hthere, hsame⟩
      rw [hactive] at hpaying
      rw [hother hne] at hthere
      rw [hself] at hsame
      refine ⟨peer, other, place, ⟨rfl, hnew⟩, hne, hpaying, hthere, ?_⟩
      rw [addressIn, if_pos rfl, hsame]
  rw [hmoves, hcuts]
  split_ifs with hnew
  · -- A first announce: the peer was not active, and is blocked at the address it brings.
    have hinactive : ¬ driver.gate.active peer := by
      intro hphase
      have hphase : driver.session.peerPhase peer = some .active := hphase
      rw [hnew] at hphase
      exact absurd hphase (by simp)
    have hcomplete : located.Complete := by
      rw [hlocated]
      cases ip with
      | none => exact hgate
      | some place => exact (hgate.move_iff place).mpr fun hpaying ↦ absurd hpaying hinactive
    rw [hcomplete.deny_iff]
    tauto
  · rw [hlocated]
    cases ip with
    | none => simpa [hnew] using hgate
    | some place =>
      rw [Option.elim_some, hgate.move_iff place]
      have hopened : place ∈ driver.gate.opened ↔ place ∈ driver.paid := Iff.rfl
      rw [hopened]
      simp [hnew]

/-- Assumes: every active peer is served. A call keeps it so exactly when it neither cuts a
neighbour nor moves an active peer to an unpaid address. -/
theorem payingPeers_step (hserved : driver.PayingPeersServed) (call : Call) :
    (driver.step cbor call).PayingPeersServed ↔
      ¬ driver.CutsNeighbour cbor call ∧ ¬ driver.MovesUnpaid call := by
  have hgate : driver.gate.Complete := hserved
  cases call with
  | peerConnected peer ip seenAt now => exact payingPeers_peerConnected hserved peer ip seenAt now
  | messageReceived peer bytes seenAt now answer answeredAt =>
    rw [and_iff_left (not_movesUnpaid (by simp)),
      cutsNeighbour_iff (fun other ↦ Iff.rfl) (fun other ↦ rfl)]
    show (driver.messageReceived cbor peer bytes seenAt now answer answeredAt).gate.Complete ↔ _
    rcases @gate_messageReceived cbor driver peer now seenAt bytes answer answeredAt with
      ⟨hrevokes, hafter⟩ | ⟨hadmits, hafter⟩ | ⟨hquiet, hafter⟩
    · rw [hafter, hgate.deny_iff, and_iff_right hrevokes]
    · rw [hafter]
      exact iff_of_true hgate.allow fun hboth ↦ not_revokes_of_admits hadmits hboth.1
    · rw [hafter]
      exact iff_of_true hgate fun hboth ↦ hquiet hboth.1
  | meter peer counters now =>
    rw [and_iff_left (not_movesUnpaid (by simp)),
      cutsNeighbour_iff (fun other ↦ Iff.rfl) (fun other ↦ rfl)]
    show (driver.meter cbor peer counters now).gate.Complete ↔ _
    rw [gate_meter counters]
    split_ifs with hcuts
    · rw [hgate.deny_iff, and_iff_right hcuts]
    · exact iff_of_true hgate fun hboth ↦ hcuts hboth.1
  | peerDisconnected peer now =>
    have hrevokes (other : PeerId) : driver.Revokes cbor other (.peerDisconnected peer now) ↔
        peer = other ∧ True := (and_true _).symm.to_iff
    rw [and_iff_left (not_movesUnpaid (by simp)), cutsNeighbour_iff hrevokes (fun other ↦ rfl),
      true_and]
    show (driver.peerDisconnected cbor peer now).gate.Complete ↔ _
    rw [gate_peerDisconnected, hgate.drop_iff]
  | reapIdle nowMs idleMs now =>
    rw [and_iff_left (not_movesUnpaid (by simp))]
    show (driver.reapIdle cbor nowMs idleMs now).gate.Complete ↔ _
    have hinactive : ∀ peer ∈ driver.reaped nowMs idleMs, ¬ driver.gate.active peer := by
      intro peer hpeer
      have hphase : driver.session.peerPhase peer ≠ some .active :=
        of_decide_eq_true (List.mem_filter.mp hpeer).2
      exact hphase
    rw [gate_reapIdle, hgate.dropAll_iff hinactive]
    constructor
    · rintro hnone ⟨peer, other, ip, hreaped, hne, hpaying, hthere, hsame⟩
      exact hnone peer hreaped ⟨other, ip, hne, hpaying, hthere, hsame⟩
    · rintro hnone peer hreaped ⟨other, ip, hne, hpaying, hthere, hsame⟩
      exact hnone ⟨peer, other, ip, hreaped, hne, hpaying, hthere, hsame⟩

/-- For every sequence of calls on a new driver: after every call the current address of each active
peer is paid, if and only if no call takes a peer's access at an address where another peer is
active, and no active peer announces itself from an address that is not paid. -/
theorem payingPeers_iff (cbor : Minicbor) (price : Price) (announce priceSheet : Bytes)
    (calls : List Call) :
    (machine cbor).Throughout PayingPeersServed (new price announce priceSheet) calls ↔
      (machine cbor).Along
        (fun driver call ↦ ¬ driver.CutsNeighbour cbor call ∧ ¬ driver.MovesUnpaid call)
        (new price announce priceSheet) calls := by
  refine (machine cbor).throughout_iff_along (fun _ call hserved ↦ payingPeers_step hserved call)
    ?_ calls
  intro peer ip hactive
  exact absurd hactive (by simp [new, Session.peerPhase, Session.new, Session.setPrice])

/-- A peer pays, and another one announces itself from the same address for the first time: the
first is active and blocked. -/
theorem payingPeers_fails_on_sharedAddress :
    ¬ ((machine Minicbor.derived).final (new ⟨0, 1⟩ [] [])
      [.peerConnected samplePeer (some firstIp) 0 0,
        .messageReceived samplePeer sampleToken 1 1 (some 5000) 2,
        .peerConnected secondPeer (some firstIp) 3 3]).PayingPeersServed := by
  intro hserved
  exact absurd (hserved samplePeer firstIp (by decide +kernel) (by decide +kernel))
    (by decide +kernel)

end Driver

end Tollgate
