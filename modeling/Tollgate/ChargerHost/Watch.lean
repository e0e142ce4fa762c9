import Tollgate.ChargerHost.Journal

/-!
# The journal on a watch

The charger driver has no meter. A reading is the whole seconds from the acknowledgement in force to
its own time, at the price, so the journal depends on nothing but the times that come in: those of
the acknowledgements, of the readings, and of the last reading before a crash. `Watch` keeps this
record, and by `Watched.along_iff` the driver goes forward exactly when no reading counts fewer
seconds than the one before it. A repeated acknowledgement takes the watch back, and so does a time
that comes in late.
-/

set_option autoImplicit false
set_option relaxedAutoImplicit false

namespace Tollgate

/-- A time on the watch: of an acknowledgement, of a reading, of a reading after the settlement; and
a crash. -/
inductive Stamp
  | acked (time : Millis)
  | read (time : Millis)
  | late (time : Millis)
  | crashed
  deriving DecidableEq

/-- The time from which seconds are counted, the seconds of the last reading, and its time. -/
structure Watch where
  acked : Option Millis
  seconds : UInt64
  readAt : Millis
  deriving DecidableEq

namespace Watch

/-- The whole seconds on the watch: none before the first acknowledgement. -/
def elapsed (watch : Watch) (now : Millis) : UInt64 :=
  watch.acked.elim 0 fun acked ↦ Millis.since now acked / 1000

/-- After a crash the seconds of the last reading are counted back from its time. The product wraps
where the source's does in a release build. -/
def step (watch : Watch) : Stamp → Watch
  | .acked time => { watch with acked := some time }
  | .read time | .late time => { watch with seconds := watch.elapsed time, readAt := time }
  | .crashed => { watch with acked := some (watch.readAt.saturatingSub (watch.seconds * 1000)) }

/-- The watch over the times that come in. -/
def machine : Transducer Watch Stamp Empty where
  step watch stamp := (watch.step stamp, [])

/-- A reading counts no fewer seconds than the last one, and as many after the settlement. -/
def Forward (watch : Watch) : Stamp → Prop
  | .read time => watch.seconds ≤ watch.elapsed time
  | .late time => watch.elapsed time = watch.seconds
  | .acked _ | .crashed => True

instance (watch : Watch) : DecidablePred watch.Forward
  | .read time => inferInstanceAs (Decidable (watch.seconds ≤ watch.elapsed time))
  | .late time => inferInstanceAs (Decidable (watch.elapsed time = watch.seconds))
  | .acked _ | .crashed => instDecidableTrue

/-- The watch of a session that opens. -/
def opened (openedAt : Millis) : Watch := ⟨none, 0, openedAt⟩

/-- The watch of a session that resumes from a journal. -/
def resumed (last : Progress) : Watch :=
  step ⟨none, last.secondsTotal, last.observedAt⟩ .crashed

/-- The last reading at a price. -/
def progress (watch : Watch) (price : PriceVector) : Progress :=
  ⟨0, watch.seconds, watch.seconds.saturatingMul price.perSecondMillis, watch.readAt⟩

/-- The journal goes forward exactly when the seconds do. -/
theorem noDecrease_progress_iff (price : PriceVector) (earlier later : Watch) :
    (earlier.progress price).NoDecrease (later.progress price) ↔
      earlier.seconds ≤ later.seconds := by
  refine ⟨fun hback ↦ hback.seconds_le, fun hle ↦ ⟨UInt64.le_refl _, hle, ?_⟩⟩
  rw [UInt64.le_iff_toNat_le] at hle ⊢
  simp only [progress, UInt64.toNat_saturatingMul]
  have hcost := Nat.mul_le_mul_right price.perSecondMillis.toNat hle
  omega

theorem totals_progress_iff (price : PriceVector) (earlier later : Watch) :
    (later.progress price).totals = (earlier.progress price).totals ↔
      later.seconds = earlier.seconds := by
  rw [Progress.totals_eq_iff]
  constructor
  · exact fun hsame ↦ hsame.2.1
  · exact fun hsame ↦ ⟨rfl, hsame, by rw [progress, progress, hsame]⟩

end Watch

namespace ChargerDriver

/-- The times of a turn: that of an acknowledgement, and that of a reading that the driver takes. -/
def stamps (driver : ChargerDriver) : Turn → List Stamp
  | .call (.handleMessage (.grantAck receivedAt)) => [.acked receivedAt]
  | .call (.handleMessage (.done receivedAt _)) | .call (.handleMessage (.aborted receivedAt _)) =>
    if driver.pendingStop.isSome then []
    else if driver.engine.Done then [.late receivedAt]
    else [.read receivedAt]
  | .call (.tick now) =>
    if driver.engine.Done ∨ driver.pendingStop.isSome = true then [] else [.read now]
  | .call (.revoke _) => []
  | .crash => [.crashed]

/-- The driver counts from where the watch does, and its journal is the last reading of the
watch. -/
structure Watched (driver : ChargerDriver) (watch : Watch) : Prop where
  acked : driver.ackedAt = watch.acked
  last : driver.last = watch.progress driver.price

variable {driver : ChargerDriver} {watch : Watch}

/-- A reading of the driver is one of the watch. -/
theorem Watched.synthesize (hwatched : driver.Watched watch) (now : Millis) :
    driver.synthesize now = (watch.step (.read now)).progress driver.price := by
  have hseconds : (driver.synthesize now).secondsTotal = watch.elapsed now := by
    unfold ChargerDriver.synthesize Watch.elapsed
    rw [hwatched.acked]
    cases watch.acked <;> rfl
  rw [driver.synthesize_eq, hseconds]
  rfl

/-- The reading that a call journals is the one that the watch takes. -/
theorem Watched.journals_getD (hwatched : driver.Watched watch) (call : Call) :
    (driver.journals call).getD driver.last =
      (Watch.machine.final watch (driver.stamps (.call call))).progress driver.price := by
  have hreport (receivedAt : Millis) :
      (if driver.pendingStop.isSome then none
          else some (driver.synthesize receivedAt)).getD driver.last =
        (Watch.machine.final watch (if driver.pendingStop.isSome then []
          else if driver.engine.Done then [.late receivedAt]
          else [.read receivedAt])).progress driver.price := by
    split_ifs
    · exact hwatched.last
    · exact hwatched.synthesize receivedAt
    · exact hwatched.synthesize receivedAt
  cases call with
  | handleMessage inbound =>
    cases inbound with
    | grantAck receivedAt => exact hwatched.last
    | done receivedAt raw => exact hreport receivedAt
    | aborted receivedAt raw => exact hreport receivedAt
  | tick now =>
    simp only [journals, stamps]
    split_ifs
    · exact hwatched.last
    · exact hwatched.synthesize now
  | revoke now => exact hwatched.last

/-- A call counts from where the watch does. -/
theorem Watched.acked_step (hwatched : driver.Watched watch) (call : Call) :
    (machine.step driver call).1.ackedAt =
      (Watch.machine.final watch (driver.stamps (.call call))).acked := by
  rw [driver.ackedAt_step, hwatched.acked]
  cases call with
  | handleMessage inbound =>
    cases inbound with
    | grantAck receivedAt => rfl
    | done receivedAt raw =>
      simp only [stamps]
      split_ifs <;> rfl
    | aborted receivedAt raw =>
      simp only [stamps]
      split_ifs <;> rfl
  | tick now =>
    simp only [stamps]
    split_ifs <;> rfl
  | revoke now => rfl

/-- Every turn moves the driver as its times move the watch. -/
theorem Watched.step (hwatched : driver.Watched watch) (turn : Turn) :
    (recoverable.step driver turn).1.Watched
      (Watch.machine.final watch (driver.stamps turn)) := by
  cases turn with
  | call call =>
    refine ⟨hwatched.acked_step call, ?_⟩
    show (machine.step driver call).1.last = Watch.progress _ (machine.step driver call).1.price
    rw [driver.last_step call, hwatched.journals_getD call, (driver.step_frame call).2.1]
  | crash =>
    refine ⟨?_, hwatched.last⟩
    show some (driver.last.observedAt.saturatingSub (driver.last.secondsTotal * 1000)) = _
    rw [hwatched.last]
    rfl

/-- A turn goes forward exactly when its times do. -/
theorem Watched.goesForward_iff (hwatched : driver.Watched watch) (turn : Turn) :
    driver.GoesForward turn ↔ Watch.machine.Along Watch.Forward watch (driver.stamps turn) := by
  have hback (now : Millis) : driver.last.NoDecrease (driver.synthesize now) ↔
      watch.seconds ≤ watch.elapsed now := by
    rw [hwatched.last, hwatched.synthesize now, Watch.noDecrease_progress_iff]
    rfl
  have hnews (now : Millis) : (driver.synthesize now).totals = driver.last.totals ↔
      watch.elapsed now = watch.seconds := by
    rw [hwatched.last, hwatched.synthesize now, Watch.totals_progress_iff]
    rfl
  have hreport (receivedAt : Millis) :
      (∀ reading ∈ (if driver.pendingStop.isSome then none
          else some (driver.synthesize receivedAt) : Option Progress),
        driver.last.NoDecrease reading ∧
          (driver.engine.Done → reading.totals = driver.last.totals)) ↔
        Watch.machine.Along Watch.Forward watch (if driver.pendingStop.isSome then []
          else if driver.engine.Done then [.late receivedAt] else [.read receivedAt]) := by
    split_ifs with hpending hdone
    · simp
    · simp only [Option.mem_def, Option.some.injEq, forall_eq', hback, hnews, hdone, forall_const,
        Transducer.along_cons, Transducer.along_nil, and_true, Watch.Forward]
      refine ⟨fun hboth ↦ hboth.2, fun hsame ↦ ⟨?_, hsame⟩⟩
      rw [hsame]
      exact UInt64.le_refl _
    · simp only [Option.mem_def, Option.some.injEq, forall_eq', hback, hdone, false_implies,
        and_true, Transducer.along_cons, Transducer.along_nil, Watch.Forward]
  cases turn with
  | crash => exact iff_of_true trivial ⟨trivial, trivial⟩
  | call call =>
    cases call with
    | handleMessage inbound =>
      cases inbound with
      | grantAck receivedAt =>
        exact iff_of_true (fun reading hreading ↦ absurd hreading (by simp [journals]))
          ⟨trivial, trivial⟩
      | done receivedAt raw => exact hreport receivedAt
      | aborted receivedAt raw => exact hreport receivedAt
    | tick now =>
      simp only [GoesForward, journals, stamps]
      split_ifs with hsilent
      · simp
      · have hopen : ¬ driver.engine.Done := fun hdone ↦ hsilent (Or.inl hdone)
        simp only [Option.mem_def, Option.some.injEq, forall_eq', hback, hopen, false_implies,
          and_true, Transducer.along_cons, Transducer.along_nil, Watch.Forward]
    | revoke now =>
      exact iff_of_true (fun reading hreading ↦ absurd hreading (by simp [journals])) trivial

/-- The turns go forward along a run exactly when their times do.
Assumes: a driver that goes by a watch. -/
theorem Watched.along_iff (hwatched : driver.Watched watch) (turns : List Turn) :
    recoverable.Along GoesForward driver turns ↔
      Watch.machine.Along Watch.Forward watch (recoverable.observe stamps driver turns) := by
  have hshadow : Transducer.Shadow recoverable Watch.machine stamps (fun _ _ ↦ True) Watched :=
    fun driver watch turn hwatched _ ↦ hwatched.step turn
  refine hshadow.along (fun driver watch turn hwatched _ ↦ hwatched.goesForward_iff turn) hwatched
    ?_
  exact (recoverable.along_iff_forall_cut _ _ _).mpr fun _ _ _ _ ↦ trivial

theorem watched_open (device : String) (grant : Grant) (price : PriceVector) (openedAt : Millis) :
    (ChargerDriver.open device grant price openedAt).1.Watched (Watch.opened openedAt) where
  acked := rfl
  last := by
    show (⟨0, 0, 0, openedAt⟩ : Progress) =
      ⟨0, 0, (0 : UInt64).saturatingMul price.perSecondMillis, openedAt⟩
    rw [UInt64.zero_saturatingMul]

/-- Assumes: a journal of a charger driver at the price. -/
theorem watched_resume (device : String) (grant : Grant) (price : PriceVector) {last : Progress}
    (hunits : last.unitsTotal = 0)
    (hcost : last.costMillisTotal = last.secondsTotal.saturatingMul price.perSecondMillis) :
    (resume device grant price last).Watched (Watch.resumed last) where
  acked := rfl
  last := by
    obtain ⟨units, seconds, cost, observedAt⟩ := last
    simp only at hunits hcost
    subst hunits hcost
    rfl

end ChargerDriver

end Tollgate
