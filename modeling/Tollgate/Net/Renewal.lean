import Tollgate.Net.UpstreamClient

/-!
# Renewing a session

`V1Client::renew`: a renewal that comes less than five seconds after the last attempt returns
without doing anything. Otherwise it pays for as many steps as `connect` would, with a token in any
case.

`V1Client.connect_outcome` says everything that an attempt to connect can come to, and what it has
paid by then.
-/

set_option autoImplicit false
set_option relaxedAutoImplicit false

namespace Tollgate

/-- What one renewal is told from outside: the time, in nanoseconds of the monotonic clock, the
wallet's answers and the gateway's. -/
structure RenewReplies where
  now : ℕ
  balance : Except String UInt64
  token : Except String String
  payment : Except V1HttpError (Option UInt64)

/-- `MIN_PAYMENT_INTERVAL`. -/
def minPaymentInterval : ℕ := 5000000000

/-- The number of steps to pay for: as many as preferred and at least the minimum, if that can be
afforded, and at least one. -/
def paymentSteps (config : V1ClientConfig) (pricing : PricingOption) (stepSize balance : UInt64) :
    UInt64 :=
  let preferredSteps := if stepSize = 0 then 1 else config.preferredAllotment / stepSize
  let maxAffordable := if pricing.pricePerStep = 0 then 0 else balance / pricing.pricePerStep
  max (min (max preferredSteps pricing.minSteps) maxAffordable) 1

theorem toNat_max_word (first second : UInt64) :
    (max first second).toNat = max first.toNat second.toNat := by
  show (if first ≤ second then second else first).toNat = _
  simp only [UInt64.le_iff_toNat_le]
  split_ifs with hle
  · exact (max_eq_right hle).symm
  · exact (max_eq_left (Nat.le_of_not_le hle)).symm

theorem toNat_min_word (first second : UInt64) :
    (min first second).toNat = min first.toNat second.toNat := by
  show (if first ≤ second then first else second).toNat = _
  simp only [UInt64.le_iff_toNat_le]
  split_ifs with hle
  · exact (min_eq_left hle).symm
  · exact (min_eq_right (Nat.le_of_not_le hle)).symm

/-- At least one step is paid for. -/
theorem one_le_paymentSteps (config : V1ClientConfig) (pricing : PricingOption)
    (stepSize balance : UInt64) : 1 ≤ (paymentSteps config pricing stepSize balance).toNat := by
  rw [paymentSteps, toNat_max_word]
  exact le_max_right _ _

section Affordable

variable {config : V1ClientConfig} {pricing : PricingOption} {stepSize balance : UInt64}
  (hprice : pricing.pricePerStep ≠ 0) (haffordable : balance / pricing.pricePerStep ≠ 0)

include hprice haffordable

/-- Assumes: a balance that is enough for a step. The steps to pay for can be afforded. -/
theorem paymentSteps_le :
    (paymentSteps config pricing stepSize balance).toNat ≤
      balance.toNat / pricing.pricePerStep.toNat := by
  have hone : 1 ≤ balance.toNat / pricing.pricePerStep.toNat := by
    rw [← UInt64.toNat_div]
    exact Nat.one_le_iff_ne_zero.mpr fun hzero ↦ haffordable (UInt64.toNat_inj.mp hzero)
  simp only [paymentSteps, hprice, if_false, toNat_max_word, toNat_min_word, UInt64.toNat_div]
  exact max_le (min_le_right _ _) hone

/-- Assumes: the same. The payment is the steps times the price, over the integers, and no more than
the balance. -/
theorem toNat_payment :
    (paymentSteps config pricing stepSize balance * pricing.pricePerStep).toNat =
        (paymentSteps config pricing stepSize balance).toNat * pricing.pricePerStep.toNat ∧
      (paymentSteps config pricing stepSize balance).toNat * pricing.pricePerStep.toNat ≤
        balance.toNat := by
  have hle : (paymentSteps config pricing stepSize balance).toNat * pricing.pricePerStep.toNat ≤
      balance.toNat :=
    (Nat.mul_le_mul_right _ (paymentSteps_le hprice haffordable)).trans (Nat.div_mul_le_self _ _)
  refine ⟨?_, hle⟩
  rw [UInt64.toNat_mul]
  exact Nat.mod_eq_of_lt (hle.trans_lt balance.toNat_lt)

end Affordable

/-- The payment of `renew`, once it is not too soon for it. -/
def V1Client.payAgain (client : V1Client) (replies : RenewReplies) : Attempt V1Client := do
  match client.session with
  | none => throw .noSession
  | some session =>
    let balance ← orFail .wallet replies.balance
    let steps := paymentSteps client.config session.selectedPricing session.stepSize balance
    let paymentAmount := steps * session.selectedPricing.pricePerStep
    let _ ← orFail .wallet replies.token
    modify (· ++ [.token paymentAmount])
    let event ← orFail .http replies.payment
    return { client with
      session := some
        { session with
          totalAllotment := event.getD 0
          sessionEvent := some event } }

/-- What a renewal returns, and what it leaves behind. -/
structure RenewOutcome where
  result : Except V1ClientError Unit
  client : V1Client
  lastPaymentAttempt : Option ℕ
  paid : List UpstreamPayment

/-- `V1Client::renew`. -/
def V1Client.renew (client : V1Client) (lastPaymentAttempt : Option ℕ) (replies : RenewReplies) :
    RenewOutcome :=
  if lastPaymentAttempt.any fun last ↦ replies.now - last < minPaymentInterval then
    ⟨.ok (), client, lastPaymentAttempt, []⟩
  else
    match (client.payAgain replies).run.run [] with
    | (.ok renewed, paid) => ⟨.ok (), renewed, some replies.now, paid⟩
    | (.error error, paid) => ⟨.error error, client, some replies.now, paid⟩

/-! ### What an attempt to connect can come to -/

/-- The session that a payment opens. -/
def V1Client.opened (client : V1Client) (ad : TollGateAdvertisement) (pricing : PricingOption)
    (event : Option UInt64) : V1Client :=
  { client with
    session := some
      { advertisement := ad
        selectedPricing := pricing
        sessionEvent := some event
        totalAllotment := event.getD 0
        metric := ad.metric.getD "milliseconds"
        stepSize := ad.stepSize.getD 60000 } }

/-- The gateway knows of no session to attach to. -/
def ConnectReplies.LooksAround (replies : ConnectReplies) : Prop :=
  ∃ used allotment, replies.usage = .ok (used, allotment) ∧ ¬ 0 < allotment

/-- The wallet issues the token that it is asked for. -/
def ConnectReplies.Issues (replies : ConnectReplies) : Prop :=
  ∃ token, replies.token = .ok token

/-- The error says that the price is too high. -/
def V1ClientError.isPriceTooHigh : V1ClientError → Bool
  | .pricing (.priceTooHigh _) => true
  | .pricing .noCompatibleMint | .pricing (.unsupportedMetric _) => false
  | .http _ | .wallet _ | .noSession | .lnPaymentTimeout _ | .unexpected _ => false

/-- There is no session to attach to, and the offer that is chosen is over the budget. -/
def V1Client.OverBudget (client : V1Client) (replies : ConnectReplies) : Prop :=
  replies.LooksAround ∧ ∃ ad pricing unitName, replies.advertisement = .ok ad ∧
    selectCheapestCompatible ad.pricingOptions client.config.ourMintUrls client.config.unit =
      .ok pricing ∧
    validateBudget client.config pricing (ad.stepSize.getD 60000)
      (ad.metric.getD "milliseconds") = .error (.priceTooHigh unitName)

/-- The session is on the terms of the advertisement and of the offer that is chosen. -/
def V1Session.SoldBy (client : V1Client) (replies : ConnectReplies) (session : V1Session) : Prop :=
  replies.advertisement = .ok session.advertisement ∧
    selectCheapestCompatible session.advertisement.pricingOptions client.config.ourMintUrls
      client.config.unit = .ok session.selectedPricing ∧
    session.stepSize = session.advertisement.stepSize.getD 60000

/-- An attempt fails before it pays, attaches to a session that there is, has an invoice settled, or
sends a token: for an offer that was chosen and is within the budget, and one that the balance is
enough for. -/
inductive ConnectOutcome (client : V1Client) (replies : ConnectReplies) :
    Except V1ClientError V1Client × List UpstreamPayment → Prop
  | fails (error : V1ClientError)
    (hcause : error.isPriceTooHigh = true → client.OverBudget replies) :
    ConnectOutcome client replies (.error error, [])
  | attaches (session : V1Session) (hsold : session.SoldBy client replies) :
    ConnectOutcome client replies (.ok { client with session := some session }, [])
  | invoices (session : V1Session) (amount : UInt64) (hsold : session.SoldBy client replies) :
    ConnectOutcome client replies
      (.ok { client with session := some session }, [.invoice amount])
  | pays (ad : TollGateAdvertisement) (pricing : PricingOption) (balance : UInt64)
    (hlooks : replies.LooksAround) (had : replies.advertisement = .ok ad)
    (hselected : selectCheapestCompatible ad.pricingOptions client.config.ourMintUrls
      client.config.unit = .ok pricing)
    (hbudget : validateBudget client.config pricing (ad.stepSize.getD 60000)
      (ad.metric.getD "milliseconds") = .ok ())
    (hbalance : replies.balance = .ok balance) (hprice : pricing.pricePerStep ≠ 0)
    (haffordable : balance / pricing.pricePerStep ≠ 0) (hissued : replies.Issues) :
    ConnectOutcome client replies
      ((match replies.payment with
        | .ok event => .ok (client.opened ad pricing event)
        | .error error => .error (.http error)),
        [.token (paymentSteps client.config pricing (ad.stepSize.getD 60000) balance *
          pricing.pricePerStep)])

namespace Attempt

variable {ε α β : Type} (paid : List UpstreamPayment)

@[simp] theorem run_pure (value : α) : (pure value : Attempt α).run.run paid = (.ok value, paid) :=
  rfl

@[simp] theorem run_throw (error : V1ClientError) :
    (throw error : Attempt α).run.run paid = (.error error, paid) :=
  rfl

@[simp] theorem run_orFail_ok (fault : ε → V1ClientError) (value : α) (next : α → Attempt β) :
    (orFail fault (.ok value) >>= next).run.run paid = (next value).run.run paid :=
  rfl

@[simp] theorem run_orFail_error (fault : ε → V1ClientError) (cause : ε) (next : α → Attempt β) :
    (orFail fault (.error cause) >>= next).run.run paid = (.error (fault cause), paid) :=
  rfl

@[simp] theorem run_modify (payment : UpstreamPayment) (next : Attempt β) :
    ((modify (· ++ [payment]) : Attempt Unit) >>= fun _ ↦ next).run.run paid =
      next.run.run (paid ++ [payment]) :=
  rfl

end Attempt

theorem selectCheapestCompatible_error {options : List PricingOption} {ourMintUrls : List String}
    {ourUnit : String} {error : PricingError}
    (herror : selectCheapestCompatible options ourMintUrls ourUnit = .error error) :
    error = .noCompatibleMint := by
  unfold selectCheapestCompatible at herror
  simp only at herror
  split at herror
  · exact (Except.error.inj herror).symm
  · exact absurd herror (by simp)

theorem awaitInvoice_error {statuses : List (Except V1HttpError LnInvoiceStatus)}
    {error : V1ClientError} (herror : awaitInvoice statuses = .error error) :
    error.isPriceTooHigh = false := by
  fun_induction awaitInvoice statuses with
  | case1 =>
    rw [← Except.error.inj herror]
    rfl
  | case2 cause rest =>
    rw [← Except.error.inj herror]
    rfl
  | case3 status rest hissued allotment hallotment => exact absurd herror (by simp)
  | case4 status rest hissued hallotment ih => exact ih herror
  | case5 status rest hissued ih => exact ih herror

/-- The detour by an invoice fails, or the invoice is settled. -/
theorem V1Client.connectViaLightning_outcome (client : V1Client) (replies : ConnectReplies)
    {ad : TollGateAdvertisement} {pricing : PricingOption} (had : replies.advertisement = .ok ad)
    (hselected : selectCheapestCompatible ad.pricingOptions client.config.ourMintUrls
      client.config.unit = .ok pricing) (steps : UInt64) :
    ConnectOutcome client replies
      ((client.connectViaLightning replies ad pricing steps).run.run []) := by
  unfold V1Client.connectViaLightning
  cases replies.invoice with
  | error error => exact .fails _ (by simp [V1ClientError.isPriceTooHigh])
  | ok status =>
    rw [Attempt.run_orFail_ok]
    cases status.quote with
    | none => exact .fails _ (by simp [V1ClientError.isPriceTooHigh])
    | some quote =>
      cases hawait : awaitInvoice replies.statuses with
      | error error => exact .fails _ (by simp [awaitInvoice_error hawait])
      | ok allotment => exact .invoices _ _ ⟨had, hselected, rfl⟩

theorem V1Client.connect_outcome (client : V1Client) (replies : ConnectReplies) :
    ConnectOutcome client replies ((client.connect replies).run.run []) := by
  unfold V1Client.connect
  cases husage : replies.usage with
  | error error => exact .fails _ (by simp [V1ClientError.isPriceTooHigh])
  | ok usage =>
    rw [Attempt.run_orFail_ok]
    obtain ⟨used, allotment⟩ := usage
    cases had : replies.advertisement with
    | error error =>
      by_cases hattach : 0 < allotment
      · simp only [hattach, if_true]
        exact .fails _ (by simp [V1ClientError.isPriceTooHigh])
      · simp only [hattach, if_false]
        exact .fails _ (by simp [V1ClientError.isPriceTooHigh])
    | ok ad =>
      cases hselected : selectCheapestCompatible ad.pricingOptions client.config.ourMintUrls
          client.config.unit with
      | error error =>
        have hnone := selectCheapestCompatible_error hselected
        by_cases hattach : 0 < allotment
        · simp only [hattach, if_true, Attempt.run_orFail_ok, hselected]
          exact .fails _ (by simp [V1ClientError.isPriceTooHigh, hnone])
        · simp only [hattach, if_false, Attempt.run_orFail_ok, hselected]
          exact .fails _ (by simp [V1ClientError.isPriceTooHigh, hnone])
      | ok pricing =>
        by_cases hattach : 0 < allotment
        · simp only [hattach, if_true, Attempt.run_orFail_ok, hselected]
          exact .attaches _ ⟨had, hselected, rfl⟩
        · simp only [hattach, if_false, Attempt.run_orFail_ok, hselected]
          cases hbudget : validateBudget client.config pricing (ad.stepSize.getD 60000)
              (ad.metric.getD "milliseconds") with
          | error error =>
            refine .fails _ fun hhigh ↦ ⟨⟨used, allotment, husage, hattach⟩, ad, pricing, ?_⟩
            cases error with
            | priceTooHigh unitName => exact ⟨unitName, had, hselected, hbudget⟩
            | _ => exact absurd hhigh (by simp [V1ClientError.isPriceTooHigh])
          | ok _ =>
            rw [Attempt.run_orFail_ok]
            cases hbalance : replies.balance with
            | error error => exact .fails _ (by simp [V1ClientError.isPriceTooHigh])
            | ok balance =>
              rw [Attempt.run_orFail_ok]
              by_cases hprice : pricing.pricePerStep = 0
              · simp only [hprice, if_true, true_or]
                exact client.connectViaLightning_outcome replies had hselected _
              · by_cases haffordable : balance / pricing.pricePerStep = 0
                · simp only [hprice, if_false, haffordable, true_or, if_true]
                  exact client.connectViaLightning_outcome replies had hselected _
                · have hfunds : balance ≠ 0 := by
                    intro hzero
                    exact haffordable (by rw [hzero, UInt64.zero_div])
                  simp only [hprice, if_false, haffordable, hfunds, or_self]
                  cases htoken : replies.token with
                  | error error => exact .fails _ (by simp [V1ClientError.isPriceTooHigh])
                  | ok token =>
                    rw [Attempt.run_orFail_ok, Attempt.run_modify]
                    have hpays := ConnectOutcome.pays ad pricing balance
                      ⟨used, allotment, husage, hattach⟩ had hselected hbudget hbalance hprice
                      haffordable ⟨token, htoken⟩
                    simp only [paymentSteps, hprice, if_false] at hpays
                    cases hpayment : replies.payment with
                    | error error =>
                      rw [hpayment] at hpays
                      exact hpays
                    | ok event =>
                      rw [hpayment] at hpays
                      exact hpays

/-- The session that an attempt leads to is on the terms of the advertisement. -/
theorem V1Client.connect_soldBy {client connected : V1Client} {replies : ConnectReplies}
    (hconnect : ((client.connect replies).run.run []).1 = .ok connected) :
    connected.config = client.config ∧
      ∃ session, connected.session = some session ∧ session.SoldBy client replies := by
  have houtcome := client.connect_outcome replies
  generalize (client.connect replies).run.run [] = output at hconnect houtcome
  cases houtcome with
  | fails error hcause => exact absurd hconnect (by simp)
  | attaches session hsold =>
    rw [← Except.ok.inj hconnect]
    exact ⟨rfl, session, rfl, hsold⟩
  | invoices session amount hsold =>
    rw [← Except.ok.inj hconnect]
    exact ⟨rfl, session, rfl, hsold⟩
  | pays ad pricing balance hlooks had hselected hbudget hbalance hprice haffordable hissued =>
    cases hpayment : replies.payment with
    | error error =>
      rw [hpayment] at hconnect
      exact absurd hconnect (by simp)
    | ok event =>
      rw [hpayment] at hconnect
      rw [← Except.ok.inj hconnect]
      exact ⟨rfl, _, rfl, had, hselected, rfl⟩

/-- Assumes: no session to attach to, an offer that is chosen and within the budget, a balance that
is enough for it and a wallet that issues the token. The attempt pays. -/
theorem V1Client.connect_pays {client : V1Client} {replies : ConnectReplies}
    {ad : TollGateAdvertisement} {pricing : PricingOption} {balance : UInt64}
    (hlooks : replies.LooksAround) (had : replies.advertisement = .ok ad)
    (hselected : selectCheapestCompatible ad.pricingOptions client.config.ourMintUrls
      client.config.unit = .ok pricing)
    (hbudget : validateBudget client.config pricing (ad.stepSize.getD 60000)
      (ad.metric.getD "milliseconds") = .ok ())
    (hbalance : replies.balance = .ok balance) (hprice : pricing.pricePerStep ≠ 0)
    (haffordable : balance / pricing.pricePerStep ≠ 0) (hissued : replies.Issues) :
    ((client.connect replies).run.run []).2 =
      [.token (paymentSteps client.config pricing (ad.stepSize.getD 60000) balance *
        pricing.pricePerStep)] := by
  obtain ⟨used, allotment, husage, hnone⟩ := hlooks
  obtain ⟨token, htoken⟩ := hissued
  have hfunds : balance ≠ 0 := by
    intro hzero
    exact haffordable (by rw [hzero, UInt64.zero_div])
  unfold V1Client.connect
  simp only [husage, Attempt.run_orFail_ok, hnone, if_false, had, hselected, hbudget, hbalance,
    hprice, haffordable, hfunds, or_self, htoken, Attempt.run_modify, paymentSteps]
  cases replies.payment with
  | error error => rfl
  | ok event => rfl

/-- Assumes: no session to attach to, and an offer that is chosen. An offer over the budget ends the
attempt. -/
theorem V1Client.connect_over_budget {client : V1Client} {replies : ConnectReplies}
    {ad : TollGateAdvertisement} {pricing : PricingOption} {error : PricingError}
    (hlooks : replies.LooksAround) (had : replies.advertisement = .ok ad)
    (hselected : selectCheapestCompatible ad.pricingOptions client.config.ourMintUrls
      client.config.unit = .ok pricing)
    (hbudget : validateBudget client.config pricing (ad.stepSize.getD 60000)
      (ad.metric.getD "milliseconds") = .error error) :
    ((client.connect replies).run.run []).1 = .error (.pricing error) := by
  obtain ⟨used, allotment, husage, hnone⟩ := hlooks
  unfold V1Client.connect
  simp only [husage, Attempt.run_orFail_ok, hnone, if_false, had, hselected, hbudget]
  rfl

end Tollgate
