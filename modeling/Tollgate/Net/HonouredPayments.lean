import Tollgate.Net.Merchant
import Tollgate.Net.Renewal

/-!
# What the client pays and what the server honours

`V1Client::connect` and `renew` against `calculate_allotment` of the server whose advertisement the
client has read. The client raises the steps it prefers to the minimum and then lowers them to what
it can afford, so that a balance below the minimum is spent on a payment that the server refuses.
The server looks the mint up by its URL alone and takes the first, the client takes the cheapest of
its own unit. And a limit of zero on the price, which is to mean no limit, is a limit.
-/

set_option autoImplicit false
set_option relaxedAutoImplicit false

namespace Tollgate

open Std

namespace V1ServerConfig

variable {Keys : Type} (server : V1ServerConfig Keys)

/-- What the client reads of the advertisement. -/
def advertised : TollGateAdvertisement :=
  ⟨some server.metric, some server.stepSize, server.reachable.map AcceptedMint.offer⟩

variable {server}

theorem ofEvent_eq_advertised {event : NostrEvent}
    (htags : event.tags = server.advertisement.tags) :
    TollGateAdvertisement.ofEvent event = server.advertised := by
  obtain ⟨hmetric, hstepSize, hoptions⟩ := ofEvent_advertisement htags
  rw [TollGateAdvertisement.ofEvent, hmetric, hstepSize, hoptions]
  rfl

theorem mem_acceptedMints_of_reachable {mint : AcceptedMint} (hmint : mint ∈ server.reachable) :
    mint ∈ server.acceptedMints := by
  unfold reachable at hmint
  cases htracker : server.mintHealth with
  | none =>
    rw [htracker] at hmint
    exact hmint
  | some tracker =>
    rw [htracker] at hmint
    exact List.mem_of_mem_filter hmint

variable {ourMintUrls : List String} {ourUnit : String}

/-- The offer that is chosen is that of an accepted mint. -/
theorem exists_mint_of_selected {pricing : PricingOption}
    (hselected : selectCheapestCompatible server.advertised.pricingOptions ourMintUrls ourUnit =
      .ok pricing) : ∃ mint ∈ server.acceptedMints, pricing = mint.offer := by
  unfold selectCheapestCompatible at hselected
  simp only at hselected
  split at hselected
  · exact absurd hselected (by simp)
  · next option hargmin =>
    obtain rfl := Except.ok.inj hselected
    have hmem := List.mem_of_mem_filter (List.argmin_mem (Option.mem_def.mpr hargmin))
    obtain ⟨mint, hmint, rfl⟩ := List.mem_map.mp hmem
    exact ⟨mint, mem_acceptedMints_of_reachable hmint, rfl⟩

/-- An offer is chosen when a reachable mint is one of ours, in our unit. -/
theorem exists_selected_iff :
    (∃ pricing, selectCheapestCompatible server.advertised.pricingOptions ourMintUrls ourUnit =
        .ok pricing) ↔
      ∃ mint ∈ server.reachable, mint.url ∈ ourMintUrls ∧ mint.unit = ourUnit := by
  unfold selectCheapestCompatible advertised
  simp only
  split
  · next hargmin =>
    rw [List.argmin_eq_none, List.filter_eq_nil_iff] at hargmin
    refine iff_of_false (by simp) fun hexists ↦ ?_
    obtain ⟨mint, hmint, hours⟩ := hexists
    exact hargmin mint.offer (List.mem_map_of_mem hmint) (decide_eq_true hours)
  · next option hargmin =>
    refine iff_of_true ⟨option, rfl⟩ ?_
    have hmem := List.argmin_mem (Option.mem_def.mpr hargmin)
    obtain ⟨hmem, hours⟩ := List.mem_filter.mp hmem
    obtain ⟨mint, hmint, rfl⟩ := List.mem_map.mp hmem
    exact ⟨mint, hmint, of_decide_eq_true hours⟩

end V1ServerConfig

/-! ### Payments that are honoured -/

section Honoured

variable {Keys : Type} (server : V1ServerConfig Keys)

/-- The payment is within the balance, and the server grants for it what the offer says: the steps
that it pays for, and not nothing. -/
def Honours (pricing : PricingOption) (balance amount : UInt64) : Prop :=
  amount.toNat ≤ balance.toNat ∧
    ∃ allotment, server.calculateAllotment amount pricing.mintUrl = .ok allotment ∧
      allotment.toNat =
        amount.toNat / pricing.pricePerStep.toNat * server.stepSize.toNat ∧
      0 < allotment.toNat

/-- The balance is enough for a step of the offer, a step is not empty, and the server knows a mint
with the URL of the offer. If the first such is the one that makes the offer, its minimum can be
afforded and fits. If it is another, the steps that it sells for the payment meet its minimum, and
last as long as the steps that the client is after. -/
def Covered (config : V1ClientConfig) (pricing : PricingOption) (balance : UInt64) : Prop :=
  let price := pricing.pricePerStep.toNat
  let size := server.stepSize.toNat
  price ≤ balance.toNat ∧ 0 < size ∧
    ∃ first, (server.acceptedMints.find? fun mint ↦ decide (mint.url = pricing.mintUrl)) =
        some first ∧
      (first.offer = pricing →
        pricing.minSteps.toNat * price ≤ balance.toNat ∧
          pricing.minSteps.toNat * size < 2 ^ 64) ∧
      (first.offer ≠ pricing →
        let wanted := max (config.preferredAllotment.toNat / size) pricing.minSteps.toNat
        let steps := max (min wanted (balance.toNat / price)) 1
        let sold := steps * price / first.pricePerStep.toNat
        first.minSteps.toNat ≤ sold ∧ steps * size < 2 ^ 64 ∧
          sold * size % 2 ^ 64 = steps * size)

variable {server}

/-- A balance that is enough for a step buys one. -/
theorem div_ne_zero_of_affordable {price balance : UInt64} (hprice : 0 < price.toNat)
    (henough : price.toNat ≤ balance.toNat) : balance / price ≠ 0 := by
  intro hzero
  have hquotient := congrArg UInt64.toNat hzero
  rw [UInt64.toNat_div, UInt64.toNat_zero] at hquotient
  exact absurd hquotient (Nat.div_pos henough hprice).ne'

/-- The steps to pay for, over the integers. -/
theorem toNat_paymentSteps (config : V1ClientConfig) {pricing : PricingOption}
    {stepSize : UInt64} (hprice : 0 < pricing.pricePerStep.toNat) (hsize : 0 < stepSize.toNat)
    (balance : UInt64) :
    (paymentSteps config pricing stepSize balance).toNat =
      max (min (max (config.preferredAllotment.toNat / stepSize.toNat) pricing.minSteps.toNat)
        (balance.toNat / pricing.pricePerStep.toNat)) 1 := by
  have hpriced : pricing.pricePerStep ≠ 0 := fun hzero ↦ by simp [hzero] at hprice
  have hsized : stepSize ≠ 0 := fun hzero ↦ by simp [hzero] at hsize
  simp only [paymentSteps, hpriced, hsized, if_false, toNat_max_word, toNat_min_word,
    UInt64.toNat_div]
  rfl

/-- The steps to pay for meet the minimum and fit, exactly when the minimum can be afforded and
fits. -/
theorem steps_fit_iff {preferred minimum price size balance : ℕ} (hprice : 0 < price)
    (hbalance : price ≤ balance) (hpreferred : preferred < 2 ^ 64) (hsize : size < 2 ^ 64) :
    minimum ≤ max (min (max (preferred / size) minimum) (balance / price)) 1 ∧
        max (min (max (preferred / size) minimum) (balance / price)) 1 * size < 2 ^ 64 ↔
      minimum * price ≤ balance ∧ minimum * size < 2 ^ 64 := by
  have hone : 1 ≤ balance / price := Nat.div_pos hbalance hprice
  rw [← Nat.le_div_iff_mul_le hprice]
  constructor
  · rintro ⟨hmin, hfits⟩
    exact ⟨by omega, (Nat.mul_le_mul_right size hmin).trans_lt hfits⟩
  · rintro ⟨hmin, hfits⟩
    refine ⟨by omega, ?_⟩
    have hle : max (min (max (preferred / size) minimum) (balance / price)) 1 ≤
        max (max (preferred / size) minimum) 1 := max_le_max (min_le_left _ _) le_rfl
    refine (Nat.mul_le_mul_right size hle).trans_lt ?_
    rw [max_mul, max_mul, Nat.one_mul]
    exact max_lt (max_lt ((Nat.div_mul_le_self _ _).trans_lt hpreferred) hfits) hsize

/-- What the server makes of a payment for which it finds a mint with a price. -/
theorem calculateAllotment_eq_ok_iff {amount allotment : UInt64} {mintUrl : String}
    {first : AcceptedMint}
    (hfirst : (server.acceptedMints.find? fun mint ↦ decide (mint.url = mintUrl)) = some first)
    (hprice : first.pricePerStep ≠ 0) :
    server.calculateAllotment amount mintUrl = .ok allotment ↔
      first.minSteps.toNat ≤ amount.toNat / first.pricePerStep.toNat ∧
        allotment.toNat =
          amount.toNat / first.pricePerStep.toNat * server.stepSize.toNat % 2 ^ 64 := by
  rw [V1ServerConfig.calculateAllotment, hfirst]
  simp only [hprice, if_false]
  have hsteps : amount / first.pricePerStep < first.minSteps ↔
      amount.toNat / first.pricePerStep.toNat < first.minSteps.toNat := by
    rw [UInt64.lt_iff_toNat_lt, UInt64.toNat_div]
  have hproduct : (amount / first.pricePerStep * server.stepSize).toNat =
      amount.toNat / first.pricePerStep.toNat * server.stepSize.toNat % 2 ^ 64 := by
    rw [UInt64.toNat_mul, UInt64.toNat_div]
  split_ifs with hfew
  · exact iff_of_false (by simp) fun hboth ↦ absurd (hsteps.mp hfew) (Nat.not_lt.mpr hboth.1)
  · rw [Except.ok.injEq, and_iff_right (Nat.not_lt.mp fun hless ↦ hfew (hsteps.mpr hless)),
      ← hproduct]
    exact ⟨fun heq ↦ heq ▸ rfl, fun heq ↦ UInt64.toNat_inj.mp heq.symm⟩

theorem toNat_price_pos {mint : AcceptedMint}
    (hprices : ∀ mint ∈ server.acceptedMints, 1 ≤ mint.pricePerStep)
    (hmint : mint ∈ server.acceptedMints) : 0 < mint.pricePerStep.toNat :=
  UInt64.le_iff_toNat_le.mp (hprices mint hmint)

/-- Assumes: a price that the balance is enough for, and the mint that the server finds, with a
price too. The payment is honoured when the mint's minimum is met and what it sells for the payment
lasts as long as what is paid for. -/
theorem honours_iff_sold {config : V1ClientConfig} {pricing : PricingOption} {balance : UInt64}
    {first : AcceptedMint} (hpositive : 0 < pricing.pricePerStep.toNat)
    (hbalance : pricing.pricePerStep.toNat ≤ balance.toNat)
    (hfirst : (server.acceptedMints.find? fun mint ↦ decide (mint.url = pricing.mintUrl)) =
      some first) (hfirstPrice : first.pricePerStep ≠ 0) :
    Honours server pricing balance
        (paymentSteps config pricing server.stepSize balance * pricing.pricePerStep) ↔
      0 < server.stepSize.toNat ∧
        let steps := (paymentSteps config pricing server.stepSize balance).toNat
        let sold := steps * pricing.pricePerStep.toNat / first.pricePerStep.toNat
        first.minSteps.toNat ≤ sold ∧ steps * server.stepSize.toNat < 2 ^ 64 ∧
          sold * server.stepSize.toNat % 2 ^ 64 = steps * server.stepSize.toNat := by
  have hprice : pricing.pricePerStep ≠ 0 := fun hzero ↦ by simp [hzero] at hpositive
  have haffordable := div_ne_zero_of_affordable hpositive hbalance
  obtain ⟨hpayment, hwithin⟩ :
      (paymentSteps config pricing server.stepSize balance * pricing.pricePerStep).toNat =
          (paymentSteps config pricing server.stepSize balance).toNat *
            pricing.pricePerStep.toNat ∧ _ :=
    toNat_payment hprice haffordable
  have hone := one_le_paymentSteps config pricing server.stepSize balance
  generalize paymentSteps config pricing server.stepSize balance = steps at *
  have hbought : steps.toNat * pricing.pricePerStep.toNat / pricing.pricePerStep.toNat =
      steps.toNat := Nat.mul_div_cancel _ hpositive
  unfold Honours
  rw [hpayment, hbought]
  constructor
  · rintro ⟨-, allotment, hallotment, hexact, hsome⟩
    obtain ⟨hmin, hmade⟩ := (calculateAllotment_eq_ok_iff hfirst hfirstPrice).mp hallotment
    rw [hpayment] at hmin hmade
    refine ⟨?_, hmin, hexact ▸ allotment.toNat_lt, hmade.symm.trans hexact⟩
    rw [hexact] at hsome
    exact Nat.pos_of_mul_pos_left hsome
  · rintro ⟨hsize, hmin, hfits, hlasts⟩
    have hword := UInt64.toNat_ofNat_of_lt' hfits
    refine ⟨hwithin, UInt64.ofNat (steps.toNat * server.stepSize.toNat), ?_, hword, ?_⟩
    · rw [calculateAllotment_eq_ok_iff hfirst hfirstPrice, hpayment, hword]
      exact ⟨hmin, hlasts.symm⟩
    · rw [hword]
      exact Nat.mul_pos hone hsize

/-- A payment of more than the balance is not honoured: one step is paid for in any case. -/
theorem not_honours_of_poor {config : V1ClientConfig} {pricing : PricingOption} {balance : UInt64}
    (hprice : pricing.pricePerStep ≠ 0)
    (hpoor : balance.toNat < pricing.pricePerStep.toNat) :
    ¬ Honours server pricing balance
      (paymentSteps config pricing server.stepSize balance * pricing.pricePerStep) := by
  rintro ⟨hwithin, -⟩
  have hone : paymentSteps config pricing server.stepSize balance = 1 := by
    refine UInt64.toNat_inj.mp ?_
    rw [paymentSteps, toNat_max_word, if_neg hprice, toNat_min_word, UInt64.toNat_div,
      Nat.div_eq_of_lt hpoor, Nat.min_zero]
    rfl
  rw [hone, UInt64.one_mul] at hwithin
  exact absurd hwithin (Nat.not_le.mpr hpoor)

/-- Assumes: prices of at least one. A payment for an offer of the server is honoured exactly when
the offer is covered. -/
theorem honours_iff_covered (hprices : ∀ mint ∈ server.acceptedMints, 1 ≤ mint.pricePerStep)
    {config : V1ClientConfig} {pricing : PricingOption}
    (hselected : selectCheapestCompatible server.advertised.pricingOptions config.ourMintUrls
      config.unit = .ok pricing) (balance : UInt64) :
    Honours server pricing balance
        (paymentSteps config pricing server.stepSize balance * pricing.pricePerStep) ↔
      Covered server config pricing balance := by
  obtain ⟨mint, hmint, rfl⟩ := V1ServerConfig.exists_mint_of_selected hselected
  have hpositive : 0 < mint.offer.pricePerStep.toNat := toNat_price_pos hprices hmint
  have hprice : mint.offer.pricePerStep ≠ 0 := fun hzero ↦ by simp [hzero] at hpositive
  obtain ⟨first, hfirst⟩ : ∃ first, (server.acceptedMints.find? fun other ↦
      decide (other.url = mint.offer.mintUrl)) = some first := by
    refine Option.isSome_iff_exists.mp (List.find?_isSome.mpr ⟨mint, hmint, ?_⟩)
    exact decide_eq_true rfl
  have hfirstPrice : first.pricePerStep ≠ 0 := by
    intro hzero
    have hsold := toNat_price_pos hprices (List.mem_of_find?_eq_some hfirst)
    simp [hzero] at hsold
  by_cases hbalance : mint.offer.pricePerStep.toNat ≤ balance.toNat
  · rw [honours_iff_sold hpositive hbalance hfirst hfirstPrice, Covered,
      and_iff_right hbalance]
    refine and_congr_right fun hsize ↦ ?_
    simp only [hfirst, Option.some.injEq, exists_eq_left',
      toNat_paymentSteps config hpositive hsize]
    by_cases hsame : first.offer = mint.offer
    · have hpriced : first.pricePerStep = mint.offer.pricePerStep :=
        congrArg PricingOption.pricePerStep hsame
      have hminimum : first.minSteps = mint.offer.minSteps :=
        congrArg PricingOption.minSteps hsame
      rw [hpriced, hminimum, Nat.mul_div_cancel _ hpositive]
      simp only [hsame, ne_eq, not_true_eq_false, false_implies, and_true, true_implies]
      rw [← steps_fit_iff hpositive hbalance config.preferredAllotment.toNat_lt
        server.stepSize.toNat_lt]
      refine and_congr_right fun _ ↦ and_iff_left_of_imp Nat.mod_eq_of_lt
    · simp only [hsame, ne_eq, not_false_eq_true, false_implies, true_and, true_implies]
  · refine iff_of_false (not_honours_of_poor hprice (Nat.not_le.mp hbalance)) fun hcovered ↦ ?_
    exact hbalance hcovered.1

end Honoured

/-! ### Attempts and renewals -/

/-- The same answers, with the advertisement of a server. -/
def ConnectReplies.reading {Keys : Type} (replies : ConnectReplies) (server : V1ServerConfig Keys) :
    ConnectReplies :=
  { replies with advertisement := .ok server.advertised }

/-- A limit of zero, for both metrics: the price of a unit exceeds it as soon as it is above
zero. -/
def V1ClientConfig.ZeroLimits (config : V1ClientConfig) : Prop :=
  (∀ price stepSize, config.exceedsPerMs price stepSize = decide (0 < price)) ∧
    ∀ price stepSize, config.exceedsPerByte price stepSize = decide (0 < price)

/-- A renewal comes too soon after the last. -/
def RenewReplies.TooSoon (replies : RenewReplies) (lastPaymentAttempt : Option ℕ) : Prop :=
  (lastPaymentAttempt.any fun last ↦ replies.now - last < minPaymentInterval) = true

section Attempts

variable {Keys : Type} (server : V1ServerConfig Keys) (client : V1Client)

/-- The session is on the terms of the server. -/
def V1Session.Terms (session : V1Session) : Prop :=
  selectCheapestCompatible server.advertised.pricingOptions client.config.ourMintUrls
      client.config.unit = .ok session.selectedPricing ∧
    session.stepSize = server.stepSize

/-- Every token that an attempt to connect sends is honoured, and one that fails without sending a
token has spent nothing. -/
def ConnectHonoured (replies : ConnectReplies) : Prop :=
  (∀ amount, .token amount ∈ ((client.connect (replies.reading server)).run.run []).2 →
    ∃ pricing balance,
      selectCheapestCompatible server.advertised.pricingOptions client.config.ourMintUrls
        client.config.unit = .ok pricing ∧
      replies.balance = .ok balance ∧ Honours server pricing balance amount) ∧
  ∀ error, ((client.connect (replies.reading server)).run.run []).1 = .error error →
    (∀ amount, .token amount ∉ ((client.connect (replies.reading server)).run.run []).2) →
    ((client.connect (replies.reading server)).run.run []).2 = []

/-- When there is no session to attach to and an offer within the budget, the balance is enough for
a step and the wallet issues the token, the offer is covered. -/
def ConnectCovered (replies : ConnectReplies) : Prop :=
  replies.LooksAround → replies.Issues → ∀ pricing balance,
    selectCheapestCompatible server.advertised.pricingOptions client.config.ourMintUrls
      client.config.unit = .ok pricing →
    validateBudget client.config pricing server.stepSize server.metric = .ok () →
    replies.balance = .ok balance → pricing.pricePerStep.toNat ≤ balance.toNat →
    Covered server client.config pricing balance

/-- Every token that a renewal sends is honoured, and one that fails without sending a token has
spent nothing. -/
def RenewHonoured (session : V1Session) (lastPaymentAttempt : Option ℕ) (replies : RenewReplies) :
    Prop :=
  (∀ amount, .token amount ∈ (client.renew lastPaymentAttempt replies).paid →
    ∃ balance, replies.balance = .ok balance ∧
      Honours server session.selectedPricing balance amount) ∧
  ∀ error, (client.renew lastPaymentAttempt replies).result = .error error →
    (∀ amount, .token amount ∉ (client.renew lastPaymentAttempt replies).paid) →
    (client.renew lastPaymentAttempt replies).paid = []

/-- When a renewal does not come too soon and the wallet issues the token, the offer is covered. -/
def RenewCovered (session : V1Session) (lastPaymentAttempt : Option ℕ) (replies : RenewReplies) :
    Prop :=
  ¬ replies.TooSoon lastPaymentAttempt → (∃ token, replies.token = .ok token) →
    ∀ balance, replies.balance = .ok balance →
      Covered server client.config session.selectedPricing balance

/-- No attempt to connect is given up because of the price. -/
def NeverTooExpensive (replies : ConnectReplies) : Prop :=
  ∀ error, ((client.connect (replies.reading server)).run.run []).1 = .error error →
    error.isPriceTooHigh = false

variable {server} {client}

/-- The session of an attempt to connect is on the terms of the server. -/
theorem terms_connect {connected : V1Client} {replies : ConnectReplies}
    (hconnect : ((client.connect (replies.reading server)).run.run []).1 = .ok connected) :
    ∃ session, connected.session = some session ∧ session.Terms server connected := by
  obtain ⟨hconfig, session, hsession, hread, hselected, hstepSize⟩ :=
    V1Client.connect_soldBy hconnect
  have had : server.advertised = session.advertisement := Except.ok.inj hread
  refine ⟨session, hsession, ?_, ?_⟩
  · rw [hconfig, had]
    exact hselected
  · rw [hstepSize, ← had]
    rfl

/-- A renewal does nothing, fails before it pays, or pays. -/
theorem renew_paid (session : V1Session) (hsession : client.session = some session)
    (lastPaymentAttempt : Option ℕ) (replies : RenewReplies) :
    ((client.renew lastPaymentAttempt replies).paid = [] ∧
      (replies.TooSoon lastPaymentAttempt ∨ (∀ balance, replies.balance ≠ .ok balance) ∨
        ∀ token, replies.token ≠ .ok token)) ∨
    ∃ balance token, ¬ replies.TooSoon lastPaymentAttempt ∧ replies.balance = .ok balance ∧
      replies.token = .ok token ∧
      (client.renew lastPaymentAttempt replies).paid =
        [.token (paymentSteps client.config session.selectedPricing session.stepSize balance *
          session.selectedPricing.pricePerStep)] := by
  unfold V1Client.renew RenewReplies.TooSoon
  by_cases hsoon :
    (lastPaymentAttempt.any fun last ↦ replies.now - last < minPaymentInterval) = true
  · rw [if_pos hsoon]
    exact .inl ⟨rfl, .inl hsoon⟩
  · rw [if_neg hsoon, V1Client.payAgain, hsession]
    cases hbalance : replies.balance with
    | error error => exact .inl ⟨rfl, .inr (.inl fun balance ↦ by simp)⟩
    | ok balance =>
      cases htoken : replies.token with
      | error error => exact .inl ⟨rfl, .inr (.inr fun token ↦ by simp)⟩
      | ok token =>
        refine .inr ⟨balance, token, hsoon, rfl, rfl, ?_⟩
        cases replies.payment with
        | error error => rfl
        | ok event => rfl

/-- Assumes: prices of at least one. What an attempt to connect pays is honoured exactly when the
offer that it pays for is covered. -/
theorem connectHonoured_iff (hprices : ∀ mint ∈ server.acceptedMints, 1 ≤ mint.pricePerStep)
    (replies : ConnectReplies) :
    ConnectHonoured server client replies ↔ ConnectCovered server client replies := by
  constructor
  · rintro ⟨hhonoured, -⟩ hlooks hissued pricing balance hselected hbudget hbalance henough
    obtain ⟨mint, hmint, rfl⟩ := V1ServerConfig.exists_mint_of_selected hselected
    have hpositive : 0 < mint.offer.pricePerStep.toNat := toNat_price_pos hprices hmint
    have hprice : mint.offer.pricePerStep ≠ 0 := fun hzero ↦ by simp [hzero] at hpositive
    have haffordable := div_ne_zero_of_affordable hpositive henough
    have hpaid : ((client.connect (replies.reading server)).run.run []).2 = _ :=
      V1Client.connect_pays hlooks rfl hselected hbudget hbalance hprice haffordable hissued
    obtain ⟨pricing, funds, hchosen, hfunds, hserved⟩ :=
      hhonoured _ (by rw [hpaid]; exact List.mem_singleton_self _)
    obtain rfl := Except.ok.inj (hselected.symm.trans hchosen)
    obtain rfl := Except.ok.inj (hbalance.symm.trans hfunds)
    exact (honours_iff_covered hprices hselected balance).mp hserved
  · intro hcovered
    unfold ConnectHonoured
    have houtcome := client.connect_outcome (replies.reading server)
    generalize (client.connect (replies.reading server)).run.run [] = output at houtcome
    cases houtcome with
    | fails error hcause => exact ⟨fun amount hmem ↦ absurd hmem (by simp), fun _ _ _ ↦ rfl⟩
    | attaches session hsold => exact ⟨fun amount hmem ↦ absurd hmem (by simp), fun _ _ _ ↦ rfl⟩
    | invoices session amount hsold =>
      exact ⟨fun amount hmem ↦ absurd hmem (by simp), fun error hfail ↦ absurd hfail (by simp)⟩
    | pays ad pricing balance hlooks had hselected hbudget hbalance hprice haffordable hissued =>
      obtain rfl : server.advertised = ad := Except.ok.inj had
      refine ⟨fun amount hmem ↦ ⟨pricing, balance, hselected, hbalance, ?_⟩,
        fun error _ hnone ↦ absurd (List.mem_singleton_self _) (hnone _)⟩
      obtain rfl := UpstreamPayment.token.inj (List.mem_singleton.mp hmem)
      refine (honours_iff_covered hprices hselected balance).mpr
        (hcovered hlooks hissued pricing balance hselected hbudget hbalance ?_)
      by_contra hless
      refine haffordable (UInt64.toNat_inj.mp ?_)
      rw [UInt64.toNat_div, Nat.div_eq_of_lt (Nat.not_le.mp hless)]
      rfl

/-- Assumes: the same, and a session on the terms of the server. What a renewal pays is honoured
exactly when the offer is covered. -/
theorem renewHonoured_iff (hprices : ∀ mint ∈ server.acceptedMints, 1 ≤ mint.pricePerStep)
    {session : V1Session} (hsession : client.session = some session)
    (hterms : session.Terms server client) (lastPaymentAttempt : Option ℕ)
    (replies : RenewReplies) :
    RenewHonoured server client session lastPaymentAttempt replies ↔
      RenewCovered server client session lastPaymentAttempt replies := by
  obtain ⟨hselected, hstepSize⟩ := hterms
  unfold RenewHonoured RenewCovered
  rcases renew_paid session hsession lastPaymentAttempt replies with
    ⟨hpaid, hcause⟩ | ⟨balance, token, hsoon, hbalance, htoken, hpaid⟩
  · refine iff_of_true ⟨fun amount hmem ↦ ?_, fun _ _ _ ↦ hpaid⟩
      fun hlate hissued balance hfunds ↦ ?_
    · rw [hpaid] at hmem
      exact absurd hmem (by simp)
    · obtain ⟨token, htoken⟩ := hissued
      rcases hcause with hsoon | hnone | hnone
      · exact absurd hsoon hlate
      · exact absurd hfunds (hnone balance)
      · exact absurd htoken (hnone token)
  · rw [hpaid, hstepSize]
    constructor
    · rintro ⟨hhonoured, -⟩ - - funds hfunds
      obtain rfl := Except.ok.inj (hbalance.symm.trans hfunds)
      obtain ⟨funds, hfunds, hserved⟩ := hhonoured _ (List.mem_singleton_self _)
      obtain rfl := Except.ok.inj (hbalance.symm.trans hfunds)
      exact (honours_iff_covered hprices hselected balance).mp hserved
    · intro hcovered
      refine ⟨fun amount hmem ↦ ⟨balance, hbalance, ?_⟩,
        fun error _ hnone ↦ absurd (List.mem_singleton_self _) (hnone _)⟩
      obtain rfl := UpstreamPayment.token.inj (List.mem_singleton.mp hmem)
      exact (honours_iff_covered hprices hselected balance).mpr
        (hcovered hsoon ⟨token, htoken⟩ balance hbalance)

/-- Assumes: prices of at least one, limits of zero. The attempt is given up because of the price
exactly when it gets as far as to look at one. -/
theorem neverTooExpensive_iff (hprices : ∀ mint ∈ server.acceptedMints, 1 ≤ mint.pricePerStep)
    (hzero : client.config.ZeroLimits) (replies : ConnectReplies) :
    NeverTooExpensive server client replies ↔
      ¬ (replies.LooksAround ∧
        (∃ mint ∈ server.reachable,
          mint.url ∈ client.config.ourMintUrls ∧ mint.unit = client.config.unit) ∧
        (server.metric = "milliseconds" ∨ server.metric = "bytes")) := by
  obtain ⟨hperMs, hperByte⟩ := hzero
  rw [← V1ServerConfig.exists_selected_iff]
  constructor
  · rintro hnever ⟨hlooks, ⟨pricing, hselected⟩, hmetric⟩
    obtain ⟨mint, hmint, rfl⟩ := V1ServerConfig.exists_mint_of_selected hselected
    have hpositive : 0 < mint.offer.pricePerStep := hprices mint hmint
    obtain ⟨unitName, hbudget⟩ : ∃ unitName,
        validateBudget client.config mint.offer server.stepSize server.metric =
          .error (.priceTooHigh unitName) := by
      unfold validateBudget
      rcases hmetric with hmetric | hmetric
      · exact ⟨"millisecond", by simp [hmetric, hperMs, hpositive]⟩
      · exact ⟨"byte", by simp [hmetric, hperByte, hpositive]⟩
    have hover : ((client.connect (replies.reading server)).run.run []).1 = _ :=
      V1Client.connect_over_budget hlooks rfl hselected hbudget
    exact absurd (hnever _ hover) (by simp [V1ClientError.isPriceTooHigh])
  · intro hnowhere error herror
    have houtcome := client.connect_outcome (replies.reading server)
    generalize (client.connect (replies.reading server)).run.run [] = output at houtcome herror
    cases houtcome with
    | fails cause hcause =>
      obtain rfl := Except.error.inj herror
      by_contra hhigh
      obtain ⟨hlooks, ad, pricing, unitName, had, hselected, hbudget⟩ :=
        hcause (Bool.eq_true_of_not_eq_false hhigh)
      obtain rfl : server.advertised = ad := Except.ok.inj had
      refine hnowhere ⟨hlooks, ⟨pricing, hselected⟩, ?_⟩
      by_contra hmetric
      obtain ⟨hms, hbytes⟩ := not_or.mp hmetric
      have hother : validateBudget client.config pricing server.stepSize server.metric =
          .error (.unsupportedMetric server.metric) := by
        rw [validateBudget, if_neg hms, if_neg hbytes]
      have hsame := hother.symm.trans hbudget
      exact absurd hsame (by simp)
    | attaches session hsold => exact absurd herror (by simp)
    | invoices session amount hsold => exact absurd herror (by simp)
    | pays ad pricing balance hlooks had hselected hbudget hbalance hprice haffordable hissued =>
      cases hpayment : (replies.reading server).payment with
      | error cause =>
        rw [hpayment] at herror
        obtain rfl := Except.error.inj herror
        rfl
      | ok event =>
        rw [hpayment] at herror
        exact absurd herror (by simp)

end Attempts

/-- A client of the mint that is in reach, with limits of zero for bytes and milliseconds. -/
def unlimitedConfig : V1ClientConfig :=
  { sampleClientConfig with
    exceedsPerMs := fun price _ ↦ decide (0 < price)
    exceedsPerByte := fun price _ ↦ decide (0 < price) }

end Tollgate
