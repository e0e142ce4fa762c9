import Tollgate.Core.Delivery
import Tollgate.Library.OneShot

/-!
# Settling once

A delivery ends in one settlement and one refund, and the two add up to the deposit. `PaysOnce` says
so of a run of any machine that pays out under a grant; the engine and both drivers around it are
held to it. For the engine by itself it holds exactly as long as no reading is taken after the
settlement: the progress branch asks for the guard and not for the phase, so a late reading puts a
settled engine back into `delivering`, and the next report settles again.
-/

set_option autoImplicit false
set_option relaxedAutoImplicit false

namespace Tollgate

/-! ### Payouts -/

/-- Money leaving the deposit: burned, or given back. -/
inductive Payout
  | settle (nonce amountMillis : UInt64)
  | refund (nonce amountMillis : UInt64)
  deriving DecidableEq, Repr

/-- The two payouts that close a grant: they carry its nonce, add up to its deposit, and burn no
more than its money cap. -/
structure ClosesGrant (grant : Grant) (payouts : List Payout) : Prop where
  exists_amounts : ∃ burned change,
    payouts = [.settle grant.nonce burned, .refund grant.nonce change] ∧
      burned.toNat + change.toNat = grant.depositMillis.toNat ∧
      burned ≤ grant.depositMillis ∧
      ∀ cap, grant.caps.maxCostMillis = some cap → burned ≤ cap

/-- A run pays nothing out, or one step of it closes the grant and no other step pays anything. -/
def PaysOnce {State Input Output : Type*} (machine : Transducer State Input Output)
    (payout : Output → Option Payout) (grant : Option Grant) (state : State)
    (inputs : List Input) : Prop :=
  (machine.outputs state inputs).filterMap payout = [] ∨
    ∃ granted before input after, grant = some granted ∧ inputs = before ++ input :: after ∧
      (machine.outputs state inputs).filterMap payout =
        (machine.step (machine.final state before) input).2.filterMap payout ∧
      ClosesGrant granted ((machine.step (machine.final state before) input).2.filterMap payout)

/-- The payouts of a run, step by step. -/
theorem filterMap_outputs {State Input Output β : Type*} (machine : Transducer State Input Output)
    (payout : Output → Option β) (state : State) (inputs : List Input) :
    (machine.outputs state inputs).filterMap payout =
      machine.observe (fun state input ↦ (machine.step state input).2.filterMap payout) state
        inputs := by
  induction inputs generalizing state with
  | nil => rfl
  | cons input rest ih =>
    rw [Transducer.outputs_cons, Transducer.observe_cons, List.filterMap_append, ih]

namespace DeliveryEngine

theorem toNat_settlement (grant : Grant) (finalCostMillis : UInt64) :
    (settlement grant finalCostMillis).toNat =
      min (min finalCostMillis.toNat grant.depositMillis.toNat)
        (grant.caps.maxCostMillis.getD UInt64.maxWord).toNat := by
  simp only [settlement, UInt64.toNat_min]

/-- What a final cost burns stays within the deposit and within the money cap. -/
theorem closesGrant_settlement (grant : Grant) (finalCostMillis : UInt64) :
    ClosesGrant grant
      [.settle grant.nonce (settlement grant finalCostMillis),
        .refund grant.nonce (grant.depositMillis - settlement grant finalCostMillis)] := by
  have hvalue := toNat_settlement grant finalCostMillis
  have hdeposit : settlement grant finalCostMillis ≤ grant.depositMillis := by
    rw [UInt64.le_iff_toNat_le, hvalue]
    omega
  refine ⟨_, _, rfl, ?_, hdeposit, fun cap hcap ↦ ?_⟩
  · rw [UInt64.toNat_sub_of_le _ _ hdeposit]
    have hle := UInt64.le_iff_toNat_le.mp hdeposit
    omega
  · rw [hcap, Option.getD_some] at hvalue
    rw [UInt64.le_iff_toNat_le, hvalue]
    omega

/-! ### One step of a granted engine -/

/-- The engine holds `grant` and has not settled it. -/
def Live (grant : Grant) (engine : DeliveryEngine) : Prop :=
  (engine.phase = .granted ∨ engine.phase = .delivering) ∧
    ∃ guard, engine.guard = some guard ∧ guard.grant = grant

/-- The engine has settled. -/
def Done (engine : DeliveryEngine) : Prop :=
  engine.phase = .done

instance (engine : DeliveryEngine) : Decidable engine.Done :=
  inferInstanceAs (Decidable (_ = _))

/-- The payouts among the engine's actions. -/
def payout : DeliveryAction → Option Payout
  | .settleDelivery nonce amountMillis => some (.settle nonce amountMillis)
  | .refundChange nonce amountMillis => some (.refund nonce amountMillis)
  | .stopDelivery _ | .alarm _ _ => none

variable {grant : Grant} {engine : DeliveryEngine}

theorem Live.phase_ne (hlive : engine.Live grant) :
    engine.phase ≠ .idle ∧ engine.phase ≠ .done := by
  rcases hlive.1 with hphase | hphase <;> simp [hphase]

/-- A fresh grant makes the engine live under it. -/
theorem live_grantIssued (grant : Grant) :
    (new.handle (.grantIssued grant)).1.Live grant :=
  ⟨Or.inl rfl, BudgetGuard.new grant, rfl, rfl⟩

/-- Recovery makes the engine live under the grant of the journal. -/
theorem live_resume (grant : Grant) (last : Progress) : (resume grant last).Live grant := by
  refine ⟨?_, _, rfl, BudgetGuard.apply_grant _ _⟩
  simp only [resume]
  split_ifs
  · exact Or.inl rfl
  · exact Or.inr rfl

/-- Settling a granted engine closes it and closes the grant. -/
theorem Live.settle (hlive : engine.Live grant) (finalCostMillis : UInt64) :
    (engine.settleFromTotals finalCostMillis).1.Done ∧
      ClosesGrant grant ((engine.settleFromTotals finalCostMillis).2.filterMap payout) := by
  obtain ⟨-, guard, hguard, rfl⟩ := hlive
  simp only [settleFromTotals, hguard, Done, true_and]
  exact closesGrant_settlement guard.grant finalCostMillis

/-- A reading never pays, and leaves a granted engine granted. -/
theorem Live.progress (hlive : engine.Live grant) (progress : Progress) :
    (engine.handle (.progressObserved progress)).1.Live grant ∧
      (engine.handle (.progressObserved progress)).2.filterMap payout = [] := by
  obtain ⟨hphase, guard, hguard, hgrant⟩ := hlive
  have hsame : (guard.apply progress).1.grant = grant := by
    rw [BudgetGuard.apply_grant, hgrant]
  simp only [handle, hguard]
  generalize guard.apply progress = applied at hsame ⊢
  obtain ⟨next, outcome⟩ := applied
  match outcome with
  | .error reason => exact ⟨⟨hphase, next, rfl, hsame⟩, rfl⟩
  | .ok (some kind) => exact ⟨⟨Or.inr rfl, next, rfl, hsame⟩, rfl⟩
  | .ok none => exact ⟨⟨Or.inr rfl, next, rfl, hsame⟩, rfl⟩

/-- A terminal report settles a granted engine. -/
theorem Live.terminal (hlive : engine.Live grant) (report : TerminalReport) :
    (engine.handle (.terminalObserved report)).1.Done ∧
      ClosesGrant grant ((engine.handle (.terminalObserved report)).2.filterMap payout) := by
  have hsettle := hlive.settle report.costMillisTotal
  rcases hlive.1 with hphase | hphase <;>
    simp only [handle, hphase] <;> exact hsettle

/-- A tick settles a granted engine from the expiry of its lease on, and does nothing before. -/
theorem Live.tick (hlive : engine.Live grant) (now : Millis) :
    (engine.handle (.tick now) = (engine, []) ∧ ¬ grant.lease.expiresAt ≤ now) ∨
      ((engine.handle (.tick now)).1.Done ∧ grant.lease.expiresAt ≤ now ∧
        ClosesGrant grant ((engine.handle (.tick now)).2.filterMap payout)) := by
  obtain ⟨hphase, guard, hguard, hgrant⟩ := id hlive
  have hhandle : engine.handle (.tick now) =
      if grant.lease.expiresAt ≤ now then
        engine.settleFromTotals guard.journalled.costMillisTotal
      else (engine, []) := by
    rw [← hgrant]
    rcases hphase with hphase | hphase <;> simp only [handle, hguard, hphase]
  by_cases hexpired : grant.lease.expiresAt ≤ now
  · rw [if_pos hexpired] at hhandle
    rw [hhandle]
    have hsettle := hlive.settle guard.journalled.costMillisTotal
    exact Or.inr ⟨hsettle.1, hexpired, hsettle.2⟩
  · rw [if_neg hexpired] at hhandle
    exact Or.inl ⟨hhandle, hexpired⟩

/-- A revocation asks a granted engine's agent to stop and changes nothing else. -/
theorem Live.revoke (hlive : engine.Live grant) (now : Millis) :
    engine.handle (.revokeRequested now) = (engine, [.stopDelivery engine.nonce]) := by
  rcases hlive.1 with hphase | hphase <;> simp only [handle, hphase]

/-- What any event does to a granted engine: it stays granted and pays nothing, or it closes both
itself and the grant. -/
theorem Live.handle (hlive : engine.Live grant) (event : DeliveryEvent) :
    ((engine.handle event).1.Live grant ∧ (engine.handle event).2.filterMap payout = []) ∨
      ((engine.handle event).1.Done ∧
        ClosesGrant grant ((engine.handle event).2.filterMap payout)) := by
  cases event with
  | grantIssued other =>
    left
    rcases hlive.1 with hphase | hphase <;>
      simp only [DeliveryEngine.handle, hphase] <;> exact ⟨hlive, rfl⟩
  | progressObserved progress => exact Or.inl (hlive.progress progress)
  | terminalObserved report => exact Or.inr (hlive.terminal report)
  | revokeRequested now =>
    left
    rw [hlive.revoke now]
    exact ⟨hlive, rfl⟩
  | tick now =>
    rcases hlive.tick now with ⟨hsame, -⟩ | ⟨hdone, -, hcloses⟩
    · left
      rw [hsame]
      exact ⟨hlive, rfl⟩
    · exact Or.inr ⟨hdone, hcloses⟩

/-! ### A settled engine -/

/-- A reading that the guard accepts reaches an engine that has settled. -/
def Reopens (engine : DeliveryEngine) (event : DeliveryEvent) : Prop :=
  engine.Done ∧ ∃ guard progress, engine.guard = some guard ∧
    event = .progressObserved progress ∧ guard.nonMonotonic progress = false

/-- Anything but an accepted reading leaves a settled engine settled, with an alarm at most. -/
theorem Done.handle (hdone : engine.Done) {event : DeliveryEvent}
    (hkept : ¬ engine.Reopens event) :
    (engine.handle event).1.Done ∧
      ∀ action ∈ (engine.handle event).2, ∃ nonce reason, action = .alarm nonce reason := by
  have hphase : engine.phase = .done := hdone
  cases event with
  | progressObserved progress =>
    cases hguard : engine.guard with
    | none =>
      simp only [DeliveryEngine.handle, hguard]
      exact ⟨hdone, by simp⟩
    | some guard =>
      have hrefused : guard.nonMonotonic progress = true := by
        by_contra haccepted
        exact hkept ⟨hdone, guard, progress, hguard, rfl, by simpa using haccepted⟩
      simp only [DeliveryEngine.handle, hguard, BudgetGuard.apply, hrefused, if_true]
      exact ⟨hdone, by simp⟩
  | tick now =>
    cases hguard : engine.guard with
    | none =>
      simp only [DeliveryEngine.handle, hguard]
      exact ⟨hdone, by simp⟩
    | some guard =>
      simp only [DeliveryEngine.handle, hguard, hphase]
      exact ⟨hdone, by simp⟩
  | _ =>
    simp only [DeliveryEngine.handle, hphase]
    exact ⟨hdone, by simp⟩

/-- An accepted reading takes a settled engine back to delivering. -/
theorem phase_of_reopens {event : DeliveryEvent} (hreopens : engine.Reopens event) :
    (engine.handle event).1.phase = .delivering := by
  obtain ⟨-, guard, progress, hguard, rfl, haccepted⟩ := hreopens
  simp only [DeliveryEngine.handle, hguard, BudgetGuard.apply, haccepted]
  cases { guard with last := progress : BudgetGuard }.exhausted <;> rfl

/-! ### Runs -/

/-- A run keeps a settled engine settled, and only alarms come after the settlement. -/
def DoneIsFinal (engine : DeliveryEngine) (events : List DeliveryEvent) : Prop :=
  ∀ before after, before ++ after <+: events → (machine.final engine before).Done →
    (machine.final engine (before ++ after)).Done ∧
      ∀ action ∈ machine.outputs (machine.final engine before) after,
        ∃ nonce reason, action = .alarm nonce reason

/-- A granted engine closes as long as nothing reopens it. -/
theorem closing (grant : Grant) :
    machine.Closing (Live grant) Done (fun engine event ↦ ¬ engine.Reopens event)
      (fun engine event ↦ (engine.handle event).2.filterMap payout) where
  stays := by
    intro engine event hdone hkept
    obtain ⟨hnext, halarms⟩ := hdone.handle hkept
    refine ⟨hnext, List.filterMap_eq_nil_iff.mpr fun action haction ↦ ?_⟩
    obtain ⟨nonce, reason, rfl⟩ := halarms action haction
    rfl
  closes := by
    intro engine event hlive _
    exact (hlive.handle event).imp id And.left

/-- Assumes: a run in which nothing reopens the engine. What is settled stays settled. -/
theorem doneIsFinal_of_along {engine : DeliveryEngine} {events : List DeliveryEvent}
    (halong : machine.Along (fun engine event ↦ ¬ engine.Reopens event) engine events) :
    engine.DoneIsFinal events := by
  intro before after hprefix hdone
  obtain ⟨later, rfl⟩ := hprefix
  rw [Transducer.along_append, Transducer.along_append] at halong
  have hafter := halong.1.2
  rw [Transducer.final_append]
  generalize machine.final engine before = reached at hdone hafter
  clear halong
  induction after generalizing reached with
  | nil => exact ⟨hdone, by simp⟩
  | cons event rest ih =>
    obtain ⟨hnext, halarms⟩ := hdone.handle hafter.1
    obtain ⟨hend, hlater⟩ := ih _ hnext hafter.2
    refine ⟨hend, fun action haction ↦ ?_⟩
    rw [Transducer.outputs_cons] at haction
    rcases List.mem_append.mp haction with haction | haction
    · exact halarms action haction
    · exact hlater action haction

/-- Assumes: a granted engine and a run in which nothing reopens it. The run pays once. -/
theorem paysOnce_of_live {grant : Grant} {engine : DeliveryEngine} (hlive : engine.Live grant)
    {events : List DeliveryEvent}
    (halong : machine.Along (fun engine event ↦ ¬ engine.Reopens event) engine events) :
    PaysOnce machine payout (some grant) engine events := by
  have hpayouts := filterMap_outputs machine payout engine events
  rcases (closing grant).run hlive halong with ⟨-, hnothing⟩ | ⟨before, event, after, hthere⟩
  · exact Or.inl (hpayouts.trans hnothing)
  · obtain ⟨hcut, hbefore, -, hdone, hshown⟩ := hthere
    refine Or.inr ⟨grant, before, event, after, rfl, hcut, hpayouts.trans hshown, ?_⟩
    rcases hbefore.handle event with ⟨hstill, -⟩ | ⟨-, hcloses⟩
    · exact absurd hdone hstill.phase_ne.2
    · exact hcloses

/-- The first grant of a run. -/
def firstGrant (events : List DeliveryEvent) : Option Grant :=
  events.findSome? fun
    | .grantIssued grant => some grant
    | .progressObserved _ | .terminalObserved _ | .revokeRequested _ | .tick _ => none

/-- Without a grant an engine stays new and pays nothing. -/
theorem handle_new {event : DeliveryEvent} (hnone : firstGrant [event] = none) :
    (new.handle event).1 = new ∧ (new.handle event).2.filterMap payout = [] := by
  cases event with
  | grantIssued grant => exact absurd hnone (by simp [firstGrant])
  | _ => exact ⟨rfl, rfl⟩

/-- What the engine promises over a run from `new`: it settles and refunds at most once, in one
step, under the first grant, and it is then done for good. -/
def SettlesOnce (events : List DeliveryEvent) : Prop :=
  PaysOnce machine payout (firstGrant events) new events ∧ new.DoneIsFinal events

/-- Assumes: a run from `new` in which nothing reopens the engine. It pays once. -/
theorem paysOnce_of_new {events : List DeliveryEvent}
    (halong : machine.Along (fun engine event ↦ ¬ engine.Reopens event) new events) :
    PaysOnce machine payout (firstGrant events) new events := by
  induction events with
  | nil => exact Or.inl rfl
  | cons event rest ih =>
    by_cases hgrant : ∃ grant, event = .grantIssued grant
    · obtain ⟨grant, rfl⟩ := hgrant
      -- From the grant on the engine is live, and the grant is the first one.
      rcases paysOnce_of_live (live_grantIssued grant) halong.2 with hnothing | hthere
      · exact Or.inl hnothing
      · obtain ⟨granted, before, input, after, hsome, hcut, hpayouts, hcloses⟩ := hthere
        refine Or.inr ⟨granted, .grantIssued grant :: before, input, after, hsome, ?_, hpayouts,
          hcloses⟩
        rw [hcut, List.cons_append]
    · have hnone : firstGrant [event] = none := by
        cases event with
        | grantIssued grant => exact absurd ⟨grant, rfl⟩ hgrant
        | _ => rfl
      obtain ⟨hnew, hsilent⟩ := handle_new hnone
      have hfirst : firstGrant (event :: rest) = firstGrant rest := by
        cases event with
        | grantIssued grant => exact absurd ⟨grant, rfl⟩ hgrant
        | _ => rfl
      have hsame : (machine.outputs new (event :: rest)).filterMap payout =
          (machine.outputs new rest).filterMap payout := by
        rw [Transducer.outputs_cons, List.filterMap_append, machine_step, hsilent, hnew,
          List.nil_append]
      have hrest := halong.2
      rw [machine_step, hnew] at hrest
      rw [hfirst]
      rcases ih hrest with
        hnothing | ⟨granted, before, input, after, hsome, hcut, hpayouts, hcloses⟩
      · exact Or.inl (hsame.trans hnothing)
      · have hfinal : machine.final new (event :: before) = machine.final new before := by
          rw [Transducer.final_cons, machine_step, hnew]
        refine Or.inr ⟨granted, event :: before, input, after, hsome, ?_, ?_, ?_⟩
        · rw [hcut, List.cons_append]
        · rw [hfinal]
          exact hsame.trans hpayouts
        · rw [hfinal]
          exact hcloses

/-- For every run from `new`: the engine settles at most once and is then done for good exactly when
no reading that the guard accepts arrives after the settlement. -/
theorem settlesOnce_iff (events : List DeliveryEvent) :
    SettlesOnce events ↔
      machine.Along (fun engine event ↦ ¬ engine.Reopens event) new events := by
  constructor
  · intro honce
    rw [Transducer.along_iff_forall_cut]
    intro before event after hcut hreopens
    have hprefix : before ++ [event] <+: events :=
      ⟨after, by rw [hcut, List.append_assoc, List.singleton_append]⟩
    obtain ⟨hstill, -⟩ := honce.2 before [event] hprefix hreopens.1
    rw [Transducer.final_append, Done] at hstill
    exact absurd ((phase_of_reopens hreopens).symm.trans hstill) (by simp)
  · exact fun halong ↦ ⟨paysOnce_of_new halong, doneIsFinal_of_along halong⟩

/-- A grant of a thousand with a money cap, for concrete runs. -/
def sampleGrant : Grant where
  nonce := 7
  depositMillis := 1000
  caps := ⟨none, some 600, some 800⟩
  lease := ⟨100000⟩

/-- A final report of a cost of 300. -/
def sampleTerminal : TerminalReport where
  kind := .completed
  unitsTotal := 0
  secondsTotal := 30
  costMillisTotal := 300
  observedAt := 30000
  receipt := none

/-- A poll that was under way when the final report arrived delivers its reading after it, and a
repeated final report settles the deposit a second time. -/
theorem settlesOnce_fails_on_lateReading :
    ¬ SettlesOnce [.grantIssued sampleGrant, .terminalObserved sampleTerminal,
      .progressObserved ⟨0, 30, 300, 30000⟩, .terminalObserved sampleTerminal] := by
  rintro ⟨hpays, -⟩
  have hpayouts : (machine.outputs new [.grantIssued sampleGrant, .terminalObserved sampleTerminal,
      .progressObserved ⟨0, 30, 300, 30000⟩, .terminalObserved sampleTerminal]).filterMap payout =
      [.settle 7 300, .refund 7 700, .settle 7 300, .refund 7 700] := by
    decide +kernel
  rcases hpays with hnothing | ⟨granted, before, input, after, -, -, hstep, hcloses⟩
  · rw [hpayouts] at hnothing
    exact absurd hnothing (by simp)
  · obtain ⟨burned, change, htwo, -⟩ := hcloses.exists_amounts
    rw [hpayouts, htwo] at hstep
    exact absurd hstep (by simp)

end DeliveryEngine

end Tollgate
