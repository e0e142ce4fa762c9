import Tollgate.Library.Streak
import Tollgate.Library.Transducer
import Tollgate.Net.Merchant

/-!
# The health of the mints

`MintHealthTracker` of `v1_compat/mint_health.rs`. It keeps a status and a counter of successes for
each mint, and a mint that was marked unreachable is reachable again after as many successes as the
threshold says. `Tied` relates both maps to the marks made so far: the status is `Healthy`, and the
counter of a mint that is not reachable is the streak of its successes (`tied_step`).
-/

set_option autoImplicit false
set_option relaxedAutoImplicit false

namespace Tollgate

open Std

/-! ### The tracker -/

/-- `DEFAULT_RECOVERY_THRESHOLD`. -/
def defaultRecoveryThreshold : UInt8 := 3

/-- `MintHealthTracker`, without the client that probes the mints. -/
structure MintHealthTracker where
  reachable : ExtTreeMap String Bool
  consecutiveSuccesses : ExtTreeMap String UInt8
  recoveryThreshold : UInt8

/-- What a probe or a payment says of a mint. -/
inductive MintMark
  | reachable (mintUrl : String)
  | unreachable (mintUrl : String)
  deriving DecidableEq, Repr

/-- The mint that a mark is about. -/
def MintMark.mintUrl : MintMark → String
  | reachable mintUrl | unreachable mintUrl => mintUrl

namespace MintHealthTracker

/-- A tracker with a threshold. The mints that it is given start out reachable. -/
def start (mintUrls : List String) (recoveryThreshold : UInt8) : MintHealthTracker where
  reachable := mintUrls.foldl (fun statuses mintUrl ↦ statuses.insert mintUrl true) ∅
  consecutiveSuccesses := mintUrls.foldl (fun counters mintUrl ↦ counters.insert mintUrl 0) ∅
  recoveryThreshold := recoveryThreshold

/-- `MintHealthTracker::new`. -/
def new (mintUrls : List String) : MintHealthTracker :=
  start mintUrls defaultRecoveryThreshold

variable (tracker : MintHealthTracker) (mintUrl : String)

/-- `is_reachable`. -/
def isReachable : Bool :=
  tracker.reachable[mintUrl]?.getD false

/-- The counter of a mint, zero if there is none. -/
def successes : UInt8 :=
  tracker.consecutiveSuccesses[mintUrl]?.getD 0

/-- `mark_unreachable`. -/
def markUnreachable : MintHealthTracker :=
  { tracker with
    reachable := tracker.reachable.insert mintUrl false
    consecutiveSuccesses := tracker.consecutiveSuccesses.insert mintUrl 0 }

/-- `mark_reachable`. A mint that is reachable is not counted. -/
def markReachable : MintHealthTracker :=
  if tracker.isReachable mintUrl then tracker
  else
    let count := tracker.successes mintUrl + 1
    let counted := tracker.consecutiveSuccesses.insert mintUrl count
    if tracker.recoveryThreshold ≤ count then
      { tracker with
        reachable := tracker.reachable.insert mintUrl true
        consecutiveSuccesses := counted.insert mintUrl 0 }
    else { tracker with consecutiveSuccesses := counted }

/-- `get_reachable_mints`. -/
def getReachableMints (allMints : List AcceptedMint) : List AcceptedMint :=
  allMints.filter fun mint ↦ tracker.reachable[mint.url]?.getD false

/-- One call. -/
def mark : MintMark → MintHealthTracker
  | .reachable mintUrl => tracker.markReachable mintUrl
  | .unreachable mintUrl => tracker.markUnreachable mintUrl

/-- The tracker over a run of calls. -/
def machine : Transducer MintHealthTracker MintMark Empty where
  step tracker call := (tracker.mark call, [])

end MintHealthTracker

/-! ### The history of a mint -/

/-- A mark as it concerns one mint. -/
def MintMark.about (mintUrl : String) : MintMark → Option Bool
  | reachable marked => if marked = mintUrl then some true else none
  | unreachable marked => if marked = mintUrl then some false else none

/-- The marks of a mint, in order. -/
def marksOf (mintUrl : String) (marks : List MintMark) : List Bool :=
  marks.filterMap (MintMark.about mintUrl)

/-- How often a mint has been marked reachable since it was last marked unreachable, or since the
start if it never was. -/
def successesSince (mintUrl : String) (marks : List MintMark) : ℕ :=
  ((marksOf mintUrl marks).reverse.takeWhile id).length

/-- The mint was configured and has never been marked unreachable, or it has been marked reachable
often enough since. -/
def Healthy (mintUrls : List String) (threshold : ℕ) (mintUrl : String) (marks : List MintMark) :
    Prop :=
  (mintUrl ∈ mintUrls ∧ false ∉ marksOf mintUrl marks) ∨ threshold ≤ successesSince mintUrl marks

instance (mintUrls : List String) (threshold : ℕ) (mintUrl : String) (marks : List MintMark) :
    Decidable (Healthy mintUrls threshold mintUrl marks) :=
  inferInstanceAs (Decidable (_ ∨ _))

section History

variable {mintUrls : List String} {threshold : ℕ} {mintUrl : String} {marks : List MintMark}

theorem marksOf_concat (mintUrl : String) (marks : List MintMark) (call : MintMark) :
    marksOf mintUrl (marks ++ [call]) =
      marksOf mintUrl marks ++ (call.about mintUrl).toList := by
  rw [marksOf, List.filterMap_append]
  cases habout : call.about mintUrl <;> simp [marksOf, habout]

theorem successesSince_concat (mintUrl : String) (marks : List MintMark) (call : MintMark) :
    successesSince mintUrl (marks ++ [call]) =
      (call.about mintUrl).toList.foldl Streak.next (successesSince mintUrl marks) := by
  simp only [successesSince, ← Streak.after_eq_length_takeWhile, marksOf_concat,
    Streak.after_append]
  rfl

/-- Marks of other mints do not matter. -/
theorem healthy_concat_of_none {call : MintMark} (hother : call.about mintUrl = none) :
    Healthy mintUrls threshold mintUrl (marks ++ [call]) ↔
      Healthy mintUrls threshold mintUrl marks := by
  simp [Healthy, marksOf_concat, successesSince_concat, hother]

/-- Assumes: a threshold. A mint that was just marked unreachable is not healthy. -/
theorem not_healthy_concat (hthreshold : 1 ≤ threshold) {call : MintMark}
    (hcall : call.about mintUrl = some false) :
    ¬ Healthy mintUrls threshold mintUrl (marks ++ [call]) := by
  have hsince : successesSince mintUrl (marks ++ [call]) = 0 := by
    rw [successesSince_concat, hcall]
    rfl
  rintro (⟨-, hnever⟩ | hoften)
  · exact hnever (by simp [marksOf_concat, hcall])
  · omega

/-- A mint that was just marked reachable is healthy if it was or if this was the success that it
lacked. -/
theorem healthy_concat_iff {call : MintMark} (hcall : call.about mintUrl = some true) :
    Healthy mintUrls threshold mintUrl (marks ++ [call]) ↔
      Healthy mintUrls threshold mintUrl marks ∨
        threshold ≤ successesSince mintUrl marks + 1 := by
  have hsince : successesSince mintUrl (marks ++ [call]) = successesSince mintUrl marks + 1 := by
    rw [successesSince_concat, hcall]
    rfl
  have hnever : false ∉ marksOf mintUrl (marks ++ [call]) ↔ false ∉ marksOf mintUrl marks := by
    simp [marksOf_concat, hcall]
  rw [Healthy, Healthy, hsince, hnever]
  constructor
  · rintro (hleft | hright)
    · exact .inl (.inl hleft)
    · exact .inr hright
  · rintro ((hleft | hright) | hnow)
    · exact .inl hleft
    · exact .inr (by omega)
    · exact .inr hnow

end History

/-! ### The tracker follows the history -/

namespace MintHealthTracker

/-- The maps of a tracker against the marks made so far, for one mint. -/
structure Tied (mintUrls : List String) (threshold : UInt8) (mintUrl : String)
    (marks : List MintMark) (tracker : MintHealthTracker) : Prop where
  threshold_eq : tracker.recoveryThreshold = threshold
  reachable_iff : tracker.isReachable mintUrl = true ↔
    Healthy mintUrls threshold.toNat mintUrl marks
  successes_eq : (tracker.successes mintUrl).toNat =
    if Healthy mintUrls threshold.toNat mintUrl marks then 0 else successesSince mintUrl marks

theorem getElem?_foldl_insert {Value : Type} (value : Value) (mintUrls : List String)
    (map : ExtTreeMap String Value) (mintUrl : String) :
    (mintUrls.foldl (fun map configured ↦ map.insert configured value) map)[mintUrl]? =
      if mintUrl ∈ mintUrls then some value else map[mintUrl]? := by
  induction mintUrls generalizing map with
  | nil => rfl
  | cons configured rest ih =>
    rw [List.foldl_cons, ih, ExtTreeMap.getElem?_insert]
    by_cases hrest : mintUrl ∈ rest
    · simp [hrest]
    · by_cases hfirst : mintUrl = configured
      · subst hfirst
        simp [hrest]
      · have hne : ¬ compare configured mintUrl = .eq :=
          fun heq ↦ hfirst (LawfulEqCmp.eq_of_compare heq).symm
        simp [hrest, hfirst, hne]

/-- At the start the configured mints are reachable, and nothing is counted. -/
theorem tied_start {threshold : UInt8} (hthreshold : 1 ≤ threshold.toNat) (mintUrls : List String)
    (mintUrl : String) : Tied mintUrls threshold mintUrl [] (start mintUrls threshold) where
  threshold_eq := rfl
  reachable_iff := by
    have hsince : successesSince mintUrl [] = 0 := rfl
    rw [isReachable, start, getElem?_foldl_insert, Healthy, hsince]
    by_cases hconfigured : mintUrl ∈ mintUrls
    · simp [hconfigured, marksOf]
    · simp [hconfigured]
      omega
  successes_eq := by
    have hcount : (start mintUrls threshold).successes mintUrl = 0 := by
      rw [successes, start, getElem?_foldl_insert]
      split_ifs <;> simp
    rw [hcount]
    split_ifs <;> rfl

section Step

variable {mintUrls : List String} {threshold : UInt8} {mintUrl : String} {marks : List MintMark}
  {tracker : MintHealthTracker}

theorem getElem?_insert_of_ne {Value : Type} (map : ExtTreeMap String Value) {marked other : String}
    (hne : marked ≠ other) (value : Value) : (map.insert marked value)[other]? = map[other]? := by
  rw [ExtTreeMap.getElem?_insert]
  exact if_neg fun heq ↦ hne (LawfulEqCmp.eq_of_compare heq)

/-- A call for one mint leaves the status and the counter of every other mint alone. -/
theorem mark_of_ne {call : MintMark} (hother : call.mintUrl ≠ mintUrl) :
    (tracker.mark call).isReachable mintUrl = tracker.isReachable mintUrl ∧
      (tracker.mark call).successes mintUrl = tracker.successes mintUrl := by
  cases call with
  | unreachable marked =>
    have hne : marked ≠ mintUrl := hother
    simp only [mark, markUnreachable, isReachable, successes, getElem?_insert_of_ne _ hne,
      and_self]
  | reachable marked =>
    have hne : marked ≠ mintUrl := hother
    simp only [mark, markReachable]
    split_ifs
    · exact ⟨rfl, rfl⟩
    · simp only [isReachable, successes, getElem?_insert_of_ne _ hne, and_self]
    · simp only [isReachable, successes, getElem?_insert_of_ne _ hne, and_self]

theorem threshold_mark (call : MintMark) :
    (tracker.mark call).recoveryThreshold = tracker.recoveryThreshold := by
  cases call with
  | unreachable marked => rfl
  | reachable marked =>
    simp only [mark, markReachable]
    split_ifs <;> rfl

/-- The counter of a mint that is not reachable is below the threshold. -/
theorem Tied.successes_lt (htied : Tied mintUrls threshold mintUrl marks tracker)
    (hdown : tracker.isReachable mintUrl = false) :
    (tracker.successes mintUrl).toNat = successesSince mintUrl marks ∧
      successesSince mintUrl marks < threshold.toNat := by
  have hill : ¬ Healthy mintUrls threshold.toNat mintUrl marks := by
    rw [← htied.reachable_iff, hdown]
    decide
  refine ⟨by rw [htied.successes_eq, if_neg hill], ?_⟩
  exact Nat.not_le.mp fun hoften ↦ hill (.inr hoften)

/-- Assumes: a threshold. One call keeps the maps tied to the history. -/
theorem tied_step (hthreshold : 1 ≤ threshold.toNat)
    (htied : Tied mintUrls threshold mintUrl marks tracker) (call : MintMark) :
    Tied mintUrls threshold mintUrl (marks ++ [call]) (tracker.mark call) := by
  have hkept : (tracker.mark call).recoveryThreshold = threshold :=
    (threshold_mark call).trans htied.threshold_eq
  by_cases hother : call.mintUrl ≠ mintUrl
  · have hnone : call.about mintUrl = none := by
      cases call <;> exact if_neg hother
    obtain ⟨hstatus, hcounter⟩ := mark_of_ne hother
    have hsince : successesSince mintUrl (marks ++ [call]) = successesSince mintUrl marks := by
      rw [successesSince_concat, hnone]
      rfl
    refine ⟨hkept, ?_, ?_⟩
    · rw [hstatus, htied.reachable_iff, healthy_concat_of_none hnone]
    · simp only [hcounter, htied.successes_eq, healthy_concat_of_none hnone, hsince]
  · rw [not_not] at hother
    cases call with
    | unreachable marked =>
      obtain rfl : marked = mintUrl := hother
      have hill : ¬ Healthy mintUrls threshold.toNat marked
          (marks ++ [MintMark.unreachable marked]) :=
        not_healthy_concat hthreshold (if_pos rfl)
      have hsince : successesSince marked (marks ++ [MintMark.unreachable marked]) = 0 := by
        rw [successesSince_concat, MintMark.about, if_pos rfl]
        rfl
      refine ⟨hkept, iff_of_false ?_ hill, ?_⟩
      · simp [mark, markUnreachable, isReachable]
      · rw [if_neg hill, hsince]
        simp [mark, markUnreachable, successes]
    | reachable marked =>
      obtain rfl : marked = mintUrl := hother
      have hhealthy : Healthy mintUrls threshold.toNat marked
          (marks ++ [MintMark.reachable marked]) ↔ _ :=
        healthy_concat_iff (if_pos rfl)
      cases hup : tracker.isReachable marked with
      | true =>
        have hwell := htied.reachable_iff.mp hup
        have hsame : tracker.mark (.reachable marked) = tracker := if_pos hup
        rw [hsame]
        refine ⟨htied.threshold_eq, iff_of_true hup (hhealthy.mpr (.inl hwell)), ?_⟩
        rw [htied.successes_eq, if_pos hwell, if_pos (hhealthy.mpr (.inl hwell))]
      | false =>
        obtain ⟨hcount, hbelow⟩ := htied.successes_lt hup
        have hill : ¬ Healthy mintUrls threshold.toNat marked marks :=
          fun hwell ↦ absurd (htied.reachable_iff.mpr hwell) (by simp [hup])
        have hnext : (tracker.successes marked + 1).toNat = successesSince marked marks + 1 := by
          have hword := threshold.toNat_lt
          rw [UInt8.toNat_add, hcount]
          exact Nat.mod_eq_of_lt (by simp; omega)
        have hsince : successesSince marked (marks ++ [MintMark.reachable marked]) =
            successesSince marked marks + 1 := by
          rw [successesSince_concat, MintMark.about, if_pos rfl]
          rfl
        have hcall : tracker.mark (.reachable marked) =
            if tracker.recoveryThreshold ≤ tracker.successes marked + 1 then
              { tracker with
                reachable := tracker.reachable.insert marked true
                consecutiveSuccesses := (tracker.consecutiveSuccesses.insert marked
                  (tracker.successes marked + 1)).insert marked 0 }
            else
              { tracker with
                consecutiveSuccesses := tracker.consecutiveSuccesses.insert marked
                  (tracker.successes marked + 1) } :=
          if_neg (by simp [hup])
        have hlimit : tracker.recoveryThreshold ≤ tracker.successes marked + 1 ↔
            threshold.toNat ≤ successesSince marked marks + 1 := by
          rw [UInt8.le_iff_toNat_le, htied.threshold_eq, hnext]
        by_cases hoften : threshold.toNat ≤ successesSince marked marks + 1
        · rw [if_pos (hlimit.mpr hoften)] at hcall
          refine ⟨hkept, ?_, ?_⟩
          · rw [hcall]
            exact iff_of_true (by simp [isReachable]) (hhealthy.mpr (.inr hoften))
          · rw [hcall, if_pos (hhealthy.mpr (.inr hoften))]
            simp [successes]
        · rw [if_neg fun hle ↦ hoften (hlimit.mp hle)] at hcall
          have hstill :
              ¬ Healthy mintUrls threshold.toNat marked (marks ++ [MintMark.reachable marked]) := by
            rw [hhealthy]
            exact not_or.mpr ⟨hill, hoften⟩
          refine ⟨hkept, ?_, ?_⟩
          · rw [hcall]
            exact iff_of_false (by simpa [isReachable] using hup) hstill
          · rw [if_neg hstill, hsince, hcall]
            simpa [successes] using hnext

end Step

/-- Assumes: a threshold. After any run of calls the maps are tied to the history. -/
theorem tied_final {threshold : UInt8} (hthreshold : 1 ≤ threshold.toNat) (mintUrls : List String)
    (mintUrl : String) (marks : List MintMark) :
    Tied mintUrls threshold mintUrl marks (machine.final (start mintUrls threshold) marks) := by
  induction marks using List.reverseRecOn with
  | nil => exact tied_start hthreshold mintUrls mintUrl
  | append_singleton marks call ih =>
    rw [Transducer.final_append]
    exact tied_step hthreshold ih call

/-- What the tracker shows after a run of calls, and what one more call can do. -/
structure FollowsHistory (mintUrls : List String) (threshold : UInt8) (marks : List MintMark)
    (tracker : MintHealthTracker) : Prop where
  reachable_iff : ∀ mintUrl, tracker.isReachable mintUrl = true ↔
    Healthy mintUrls threshold.toNat mintUrl marks
  /-- No counter is above the threshold, not even the one that a call has just raised. -/
  counter_le : ∀ mintUrl, tracker.successes mintUrl ≤ threshold ∧
    (tracker.isReachable mintUrl = false →
      (tracker.successes mintUrl).toNat + 1 ≤ threshold.toNat)
  others_kept : ∀ (call : MintMark) mintUrl, call.mintUrl ≠ mintUrl →
    (tracker.mark call).isReachable mintUrl = tracker.isReachable mintUrl
  listed : ∀ allMints, tracker.getReachableMints allMints =
    allMints.filter fun mint ↦ decide (Healthy mintUrls threshold.toNat mint.url marks)

/-- Assumes: a threshold of at least one. For all configured mints and every run of calls, the
tracker shows what the history of each mint says. -/
theorem health_follows_history {threshold : UInt8} (hthreshold : 1 ≤ threshold)
    (mintUrls : List String) (marks : List MintMark) :
    FollowsHistory mintUrls threshold marks (machine.final (start mintUrls threshold) marks) := by
  have htied := tied_final (UInt8.le_iff_toNat_le.mp hthreshold) mintUrls
  refine ⟨fun mintUrl ↦ (htied mintUrl marks).reachable_iff, fun mintUrl ↦ ?_,
    fun call mintUrl hother ↦ (mark_of_ne hother).1, fun allMints ↦ ?_⟩
  · have hcounter := htied mintUrl marks
    refine ⟨?_, fun hdown ↦ ?_⟩
    · rw [UInt8.le_iff_toNat_le, hcounter.successes_eq]
      split_ifs with hhealthy
      · exact Nat.zero_le _
      · exact Nat.le_of_not_le fun hoften ↦ hhealthy (.inr hoften)
    · obtain ⟨hcount, hbelow⟩ := hcounter.successes_lt hdown
      omega
  · refine List.filter_congr fun mint _ ↦ ?_
    rw [Bool.eq_iff_iff, decide_eq_true_iff]
    exact (htied mint.url marks).reachable_iff

/-- A configured mint that fails and is then found reachable three times, with the threshold of
`new`. -/
theorem health_follows_history_of_recovery :
    FollowsHistory ["http://a.test", "http://b.test"] defaultRecoveryThreshold
      [.unreachable "http://a.test", .reachable "http://a.test", .reachable "http://a.test",
        .reachable "http://a.test"]
      (machine.final (new ["http://a.test", "http://b.test"])
        [.unreachable "http://a.test", .reachable "http://a.test", .reachable "http://a.test",
          .reachable "http://a.test"]) :=
  health_follows_history (by decide) _ _

end MintHealthTracker

end Tollgate
