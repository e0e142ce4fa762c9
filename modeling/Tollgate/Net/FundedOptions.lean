import Tollgate.Net.Renewal

/-!
# Options within the purse

`select_compatible_with_funds` of `v1_compat/pricing.rs`: the first option that the balance pays
for, or how much is missing. The product of steps and price is one of 64 bits, so that an option
that costs more than that can pass for a cheap one. And what is missing is told for the option with
the lowest price per step, which need not be the cheapest purchase when it has the higher minimum.
-/

set_option autoImplicit false
set_option relaxedAutoImplicit false

namespace Tollgate

/-- The errors of `PricingError` that are returned here. -/
inductive FundsError
  | noCompatibleMint
  | insufficientFunds (required available : UInt64)
  deriving DecidableEq, Repr

/-- What an option has to fit: our mints, our unit and the time or data that we want. -/
structure PurchaseTerms where
  ourMintUrls : List String
  ourUnit : String
  preferredAllotment : UInt64
  stepSize : UInt64

namespace PurchaseTerms

variable (terms : PurchaseTerms)

/-- The options that we have a mint for, in our unit. -/
def compatible (upstreamOptions : List PricingOption) : List PricingOption :=
  upstreamOptions.filter fun option ↦
    option.mintUrl ∈ terms.ourMintUrls ∧ option.unit = terms.ourUnit

/-- The steps to buy: as many as preferred, and at least the minimum. -/
def steps (option : PricingOption) : UInt64 :=
  let effectiveStepSize := if terms.stepSize = 0 then 1 else terms.stepSize
  max (max (terms.preferredAllotment / effectiveStepSize) 1) option.minSteps

/-- What they cost, in the arithmetic of 64 bits. -/
def wordCost (option : PricingOption) : UInt64 :=
  terms.steps option * option.pricePerStep

/-- `select_compatible_with_funds`. -/
def selectCompatibleWithFunds (upstreamOptions : List PricingOption) (balanceSats : UInt64) :
    Except FundsError PricingOption :=
  match (terms.compatible upstreamOptions).find?
      fun option ↦ terms.wordCost option ≤ balanceSats with
  | some option => .ok option
  | none =>
    match (terms.compatible upstreamOptions).argmin fun option ↦ option.pricePerStep.toNat with
    | none => .error .noCompatibleMint
    | some cheapest => .error (.insufficientFunds (terms.wordCost cheapest) balanceSats)

/-- What an option costs, over the natural numbers. -/
def cost (option : PricingOption) : ℕ :=
  max (max (terms.preferredAllotment.toNat / max terms.stepSize.toNat 1) 1) option.minSteps.toNat *
    option.pricePerStep.toNat

/-- The costs of the compatible options. -/
def costs (upstreamOptions : List PricingOption) : Set ℕ :=
  { amount | ∃ option ∈ terms.compatible upstreamOptions, terms.cost option = amount }

/-- The selection respects the purse. -/
structure RespectsPurse (upstreamOptions : List PricingOption) (balanceSats : UInt64) : Prop where
  ok_iff : ∀ option, terms.selectCompatibleWithFunds upstreamOptions balanceSats = .ok option ↔
    (terms.compatible upstreamOptions).find? (fun other ↦ terms.cost other ≤ balanceSats.toNat) =
      some option
  incompatible_iff : terms.selectCompatibleWithFunds upstreamOptions balanceSats =
    .error .noCompatibleMint ↔ terms.compatible upstreamOptions = []
  /-- What is said to be missing is the least cost of all, and is enough for the same call. -/
  required_least : ∀ required available,
    terms.selectCompatibleWithFunds upstreamOptions balanceSats =
      .error (.insufficientFunds required available) →
    IsLeast (terms.costs upstreamOptions) required.toNat ∧
      ∃ option, terms.selectCompatibleWithFunds upstreamOptions required = .ok option

/-! ### When it does -/

variable {terms} {upstreamOptions : List PricingOption} {balanceSats : UInt64}

theorem toNat_wordCost (option : PricingOption) :
    (terms.wordCost option).toNat = terms.cost option % 2 ^ 64 := by
  have hstep : (if terms.stepSize = 0 then 1 else terms.stepSize : UInt64).toNat =
      max terms.stepSize.toNat 1 := by
    split_ifs with hzero
    · rw [hzero]
      rfl
    · have hpos : terms.stepSize.toNat ≠ 0 := fun heq ↦ hzero (UInt64.toNat_inj.mp heq)
      omega
  have hone : (1 : UInt64).toNat = 1 := rfl
  rw [wordCost, UInt64.toNat_mul, steps, toNat_max_word, toNat_max_word, UInt64.toNat_div, hstep,
    hone, cost]

/-- An option that the balance pays for is found to be one. -/
theorem wordCost_le_of_cost_le {option : PricingOption}
    (hpays : terms.cost option ≤ balanceSats.toNat) : terms.wordCost option ≤ balanceSats := by
  rw [UInt64.le_iff_toNat_le, toNat_wordCost]
  exact (Nat.mod_le _ _).trans hpays

/-- Assumes: a test that is passed whenever another one is. Both find the same exactly when nothing
ahead of what the stricter one finds passes the other. -/
theorem find?_eq_find?_iff {α : Type*} {strict lenient : α → Bool}
    (himplies : ∀ item, strict item = true → lenient item = true) (items : List α) :
    items.find? lenient = items.find? strict ↔
      ∀ item ∈ items.takeWhile (fun item ↦ !strict item), lenient item = false := by
  induction items with
  | nil => simp
  | cons item rest ih =>
    cases hstrict : strict item with
    | true => simp [hstrict, himplies item hstrict]
    | false =>
      cases hlenient : lenient item with
      | true =>
        refine iff_of_false ?_ ?_
        · rw [List.find?_cons_of_pos hlenient, List.find?_cons_of_neg (by simp [hstrict])]
          intro hfound
          have hpassed := List.find?_some hfound.symm
          rw [hstrict] at hpassed
          exact absurd hpassed (by decide)
        · rw [List.takeWhile_cons_of_pos (by simp [hstrict])]
          exact fun hall ↦ absurd (hall item List.mem_cons_self) (by simp [hlenient])
      | false =>
        rw [List.find?_cons_of_neg (by simp [hlenient]), List.find?_cons_of_neg (by simp [hstrict]),
          ih, List.takeWhile_cons_of_pos (by simp [hstrict]), List.forall_mem_cons]
        exact (and_iff_right hlenient).symm

/-- Options are returned as they are found. -/
theorem select_eq_ok_iff (option : PricingOption) :
    terms.selectCompatibleWithFunds upstreamOptions balanceSats = .ok option ↔
      (terms.compatible upstreamOptions).find? (fun other ↦ terms.wordCost other ≤ balanceSats) =
        some option := by
  unfold selectCompatibleWithFunds
  split
  · next found hfound => rw [hfound, Except.ok.injEq, Option.some.injEq]
  · next hnone =>
    rw [hnone]
    split <;> simp

/-- Without a compatible option there is no mint, and the other way round. -/
theorem select_incompatible_iff :
    terms.selectCompatibleWithFunds upstreamOptions balanceSats = .error .noCompatibleMint ↔
      terms.compatible upstreamOptions = [] := by
  unfold selectCompatibleWithFunds
  constructor
  · intro hnone
    split at hnone
    · exact absurd hnone (by simp)
    · split at hnone
      · next hargmin => exact List.argmin_eq_none.mp hargmin
      · exact absurd hnone (by simp)
  · intro hempty
    rw [hempty]
    rfl

/-- What is missing is told when no option is found, for the first of those with the lowest
price. -/
theorem select_insufficient_iff (required available : UInt64) :
    terms.selectCompatibleWithFunds upstreamOptions balanceSats =
        .error (.insufficientFunds required available) ↔
      (terms.compatible upstreamOptions).find? (fun other ↦ terms.wordCost other ≤ balanceSats) =
          none ∧ available = balanceSats ∧
        ∃ cheapest, (terms.compatible upstreamOptions).argmin
          (fun option ↦ option.pricePerStep.toNat) = some cheapest ∧
            required = terms.wordCost cheapest := by
  unfold selectCompatibleWithFunds
  split
  · next found hfound => simp [hfound]
  · next hnone =>
    rw [and_iff_right hnone]
    split
    · next hargmin => simp [hargmin]
    · next cheapest hargmin =>
      simp only [Except.error.injEq, FundsError.insufficientFunds.injEq, hargmin, Option.some.injEq,
        exists_eq_left']
      exact ⟨fun heq ↦ ⟨heq.2.symm, heq.1.symm⟩, fun heq ↦ ⟨heq.2.symm, heq.1.symm⟩⟩

/-- With the least cost in the purse an option is found. -/
theorem select_of_least {required : UInt64}
    (hleast : IsLeast (terms.costs upstreamOptions) required.toNat) :
    ∃ option, terms.selectCompatibleWithFunds upstreamOptions required = .ok option := by
  obtain ⟨option, hoption, hcost⟩ := hleast.1
  have hpays : terms.wordCost option ≤ required := wordCost_le_of_cost_le hcost.le
  have hfound : ((terms.compatible upstreamOptions).find?
      fun other ↦ terms.wordCost other ≤ required).isSome = true :=
    List.find?_isSome.mpr ⟨option, hoption, decide_eq_true hpays⟩
  obtain ⟨found, hfound⟩ := Option.isSome_iff_exists.mp hfound
  exact ⟨found, (select_eq_ok_iff found).mpr hfound⟩

/-- For all terms, options and balances: the selection respects the purse exactly when no option
ahead of the first that the balance pays for has a cost that wraps to the balance or less, and, if
it pays for none, the cost of the first option with the lowest price per step, modulo `2 ^ 64`, is
the least cost of all. -/
theorem respectsPurse_iff (terms : PurchaseTerms) (upstreamOptions : List PricingOption)
    (balanceSats : UInt64) :
    terms.RespectsPurse upstreamOptions balanceSats ↔
      (∀ option ∈ (terms.compatible upstreamOptions).takeWhile
          (fun option ↦ !decide (terms.cost option ≤ balanceSats.toNat)),
        balanceSats.toNat < terms.cost option % 2 ^ 64) ∧
      ((∀ option ∈ terms.compatible upstreamOptions, balanceSats.toNat < terms.cost option) →
        ∀ cheapest, (terms.compatible upstreamOptions).argmin
            (fun option ↦ option.pricePerStep.toNat) = some cheapest →
          IsLeast (terms.costs upstreamOptions) (terms.cost cheapest % 2 ^ 64)) := by
  have hsame : (terms.compatible upstreamOptions).find?
        (fun other ↦ terms.wordCost other ≤ balanceSats) =
      (terms.compatible upstreamOptions).find?
        (fun other ↦ terms.cost other ≤ balanceSats.toNat) ↔
      ∀ option ∈ (terms.compatible upstreamOptions).takeWhile
          (fun option ↦ !decide (terms.cost option ≤ balanceSats.toNat)),
        balanceSats.toNat < terms.cost option % 2 ^ 64 := by
    rw [find?_eq_find?_iff fun option hpays ↦
      decide_eq_true (wordCost_le_of_cost_le (of_decide_eq_true hpays))]
    refine forall₂_congr fun option _ ↦ ?_
    rw [decide_eq_false_iff_not, UInt64.le_iff_toNat_le, toNat_wordCost, Nat.not_le]
  constructor
  · intro hrespects
    have hfinds := hsame.mp (Option.ext fun option ↦ by
      rw [← select_eq_ok_iff, hrespects.ok_iff])
    refine ⟨hfinds, fun hpoor cheapest hcheapest ↦ ?_⟩
    have hnone : (terms.compatible upstreamOptions).find?
        (fun other ↦ terms.wordCost other ≤ balanceSats) = none := by
      rw [hsame.mpr hfinds, List.find?_eq_none]
      intro option hoption
      simpa using hpoor option hoption
    have hshort := (select_insufficient_iff (terms.wordCost cheapest) balanceSats).mpr
      ⟨hnone, rfl, cheapest, hcheapest, rfl⟩
    rw [← toNat_wordCost]
    exact (hrespects.required_least _ _ hshort).1
  · rintro ⟨hfinds, hleast⟩
    have hfound := hsame.mpr hfinds
    refine ⟨fun option ↦ by rw [select_eq_ok_iff, hfound], select_incompatible_iff,
      fun required available hshort ↦ ?_⟩
    obtain ⟨hnone, -, cheapest, hcheapest, rfl⟩ := (select_insufficient_iff _ _).mp hshort
    have hpoor (option : PricingOption) (hoption : option ∈ terms.compatible upstreamOptions) :
        balanceSats.toNat < terms.cost option := by
      rw [hfound, List.find?_eq_none] at hnone
      simpa using hnone option hoption
    have hmissing := hleast hpoor cheapest hcheapest
    rw [← toNat_wordCost] at hmissing
    exact ⟨hmissing, select_of_least hmissing⟩

/-- Our mint and unit, and a step of 60. -/
def sampleTerms : PurchaseTerms where
  ourMintUrls := ["https://mint.a"]
  ourUnit := "sat"
  preferredAllotment := 60
  stepSize := 60

/-- One option costs ten for a minimum of ten steps, the other two for a single one: what is said to
be missing is ten. And an option of two steps for `2 ^ 63` each is chosen with nothing in the
purse. -/
theorem cheaper_purchase_missed :
    ¬ sampleTerms.RespectsPurse
        [⟨"cashu", 1, "sat", "https://mint.a", 10⟩, ⟨"cashu", 2, "sat", "https://mint.a", 1⟩] 1 ∧
      ¬ sampleTerms.RespectsPurse [⟨"cashu", 2 ^ 63, "sat", "https://mint.a", 2⟩] 0 := by
  constructor
  · intro hrespects
    have hleast := (hrespects.required_least 10 1 (by decide +kernel)).1
    have htwo : (2 : ℕ) ∈ sampleTerms.costs
        [⟨"cashu", 1, "sat", "https://mint.a", 10⟩, ⟨"cashu", 2, "sat", "https://mint.a", 1⟩] :=
      ⟨⟨"cashu", 2, "sat", "https://mint.a", 1⟩, by decide +kernel, rfl⟩
    have hten := hleast.2 htwo
    exact absurd hten (by decide)
  · intro hrespects
    have hfound := (hrespects.ok_iff ⟨"cashu", 2 ^ 63, "sat", "https://mint.a", 2⟩).mp
      (by decide +kernel)
    exact absurd hfound (by decide +kernel)

end PurchaseTerms

end Tollgate
