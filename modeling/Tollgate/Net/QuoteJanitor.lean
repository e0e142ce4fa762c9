import Tollgate.Net.LightningQuotes

/-!
# What the janitor forgets

`list_stale` and `list_paid_unprocessed` of `v1_compat/ln_quotes.rs`. The rule on the age of a quote
looks at whether it is being processed or granted, but not at whether it is paid, and the rule on
its expiry looks at none of the three. `stale_spares_paid_iff` says when no quote that somebody has
paid for, or that is being worked on, is listed before its session is granted.
-/

set_option autoImplicit false
set_option relaxedAutoImplicit false

namespace Tollgate

open Std

namespace LightningQuoteRecord

/-- The cached state says that the invoice was paid. -/
def isPaid (record : LightningQuoteRecord) : Bool :=
  decide (record.cachedState = some .paid) || decide (record.cachedState = some .issued)

/-- The filter of `list_paid_unprocessed`. -/
def isPaidUnprocessed (record : LightningQuoteRecord) : Bool :=
  !record.processing && !record.sessionGranted && record.isPaid

/-- The customer waits for its session: it has paid, or its quote is being processed. -/
def isAwaited (record : LightningQuoteRecord) : Bool :=
  !record.sessionGranted && (record.processing || record.isPaid)

/-- An ungranted record is listed for its age unless it is being processed, and for its expiry in
any case. -/
theorem isStale_of_ungranted {record : LightningQuoteRecord}
    (hungranted : record.sessionGranted = false) (maxAgeSecs now : Int64) :
    record.isStale maxAgeSecs now = true ↔
      (record.processing = false ∧ maxAgeSecs < now - record.createdAt) ∨
        (0 < record.expiry ∧ record.expiry + 300 < now) := by
  simp [isStale, hungranted]

end LightningQuoteRecord

namespace QuoteStore

variable (store : QuoteStore)

/-- `list_paid_unprocessed`. -/
def listPaidUnprocessed : List LightningQuoteRecord :=
  store.values.filter LightningQuoteRecord.isPaidUnprocessed

/-- The ungranted records with their processing mark set. -/
def listProcessing : List LightningQuoteRecord :=
  store.values.filter fun record ↦ record.processing && !record.sessionGranted

/-- No record that `list_stale` returns is one that a customer waits for. -/
structure SparesPaid (maxAgeSecs now : Int64) : Prop where
  awaited : ∀ record ∈ store.listStale maxAgeSecs now, record.isAwaited = false
  paid : (store.listStale maxAgeSecs now).Disjoint store.listPaidUnprocessed
  processing : (store.listStale maxAgeSecs now).Disjoint store.listProcessing

/-- The invoice of no record that a customer waits for has expired for five minutes, and none that
is not being processed is over the age. -/
def NoneOverdue (maxAgeSecs now : Int64) : Prop :=
  ∀ record ∈ store.values, record.isAwaited = true →
    (record.expiry ≤ 0 ∨ now ≤ record.expiry + 300) ∧
      (record.processing = true ∨ now - record.createdAt ≤ maxAgeSecs)

instance (maxAgeSecs now : Int64) : Decidable (store.NoneOverdue maxAgeSecs now) :=
  inferInstanceAs (Decidable (∀ record ∈ store.values, _ → _))

variable {store}

theorem isAwaited_of_listed {record : LightningQuoteRecord} :
    (record ∈ store.listPaidUnprocessed → record.isAwaited = true) ∧
      (record ∈ store.listProcessing → record.isAwaited = true) := by
  constructor
  · intro hpaid
    have hkept := (List.mem_filter.mp hpaid).2
    simp only [LightningQuoteRecord.isPaidUnprocessed, Bool.and_eq_true, Bool.not_eq_true'] at hkept
    simp [LightningQuoteRecord.isAwaited, hkept]
  · intro hprocessing
    have hkept := (List.mem_filter.mp hprocessing).2
    simp only [Bool.and_eq_true, Bool.not_eq_true'] at hkept
    simp [LightningQuoteRecord.isAwaited, hkept]

/-- Paid quotes outlive the janitor exactly when none that a customer waits for is overdue. -/
theorem stale_spares_paid_iff (store : QuoteStore) (maxAgeSecs now : Int64) :
    store.SparesPaid maxAgeSecs now ↔ store.NoneOverdue maxAgeSecs now := by
  have hstale (record : LightningQuoteRecord) (hawaited : record.isAwaited = true) :
      record.isStale maxAgeSecs now = false ↔
        (record.expiry ≤ 0 ∨ now ≤ record.expiry + 300) ∧
          (record.processing = true ∨ now - record.createdAt ≤ maxAgeSecs) := by
    have hungranted : record.sessionGranted = false := by
      simp only [LightningQuoteRecord.isAwaited, Bool.and_eq_true, Bool.not_eq_true'] at hawaited
      exact hawaited.1
    rw [← Bool.not_eq_true, LightningQuoteRecord.isStale_of_ungranted hungranted, not_or, and_comm,
      not_and_or, not_and_or, Bool.not_eq_false, Int64.not_lt, Int64.not_lt, Int64.not_lt]
  constructor
  · intro hspares record hmem hawaited
    rw [← hstale record hawaited]
    by_contra hlisted
    have hfalse := hspares.awaited record
      (List.mem_filter.mpr ⟨hmem, (Bool.not_eq_false _).mp hlisted⟩)
    exact absurd (hawaited.symm.trans hfalse) (by decide)
  · intro hnone
    have hawaited : ∀ record ∈ store.listStale maxAgeSecs now, record.isAwaited = false := by
      intro record hlisted
      obtain ⟨hmem, hkept⟩ := List.mem_filter.mp hlisted
      by_contra hwaits
      have hwaits : record.isAwaited = true := (Bool.not_eq_false _).mp hwaits
      have hfalse := (hstale record hwaits).mpr (hnone record hmem hwaits)
      exact absurd (hkept.symm.trans hfalse) (by decide)
    refine ⟨hawaited, fun record hlisted hpaid ↦ ?_, fun record hlisted hprocessing ↦ ?_⟩
    · have hwaits := isAwaited_of_listed.1 hpaid
      exact absurd (hwaits.symm.trans (hawaited record hlisted)) (by decide)
    · have hwaits := isAwaited_of_listed.2 hprocessing
      exact absurd (hwaits.symm.trans (hawaited record hlisted)) (by decide)

/-- A quote that was paid, and whose tokens are being minted, six minutes after its invoice
expired. -/
def expiredWhilePaid : QuoteStore :=
  (∅ : QuoteStore).insert "quote"
    { Quotes.sampleRecord with expiry := 2000, processing := true, cachedState := some .paid }

theorem paid_quote_listed_as_stale : ¬ expiredWhilePaid.SparesPaid 1800 2360 := by
  intro hspares
  have hawaited := hspares.awaited
  exact absurd hawaited (by decide +kernel)

end QuoteStore

end Tollgate
