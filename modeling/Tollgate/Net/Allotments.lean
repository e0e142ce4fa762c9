import Tollgate.Net.HonouredPayments
import Tollgate.Net.SessionReceipt

/-!
# What a payment buys

From a token to an allotment in three steps: `decode_cashu_amount` adds the amounts of the proofs,
`calculate_allotment` sells the steps that the sum is enough for, and `add_allotment` puts them on
top of what the session has. All three are in 64 bits and none of them looks for an overflow.

Each step is exact as long as its own result fits. Beyond that a payer gets less for more:
`sells_monotonically_iff` says that the sale is monotone only when no amount at all that can be paid
takes the product over the edge.
-/

set_option autoImplicit false
set_option relaxedAutoImplicit false

namespace Tollgate

open Json

/-! ### Adding up a token -/

/-- A whole number that is not negative, of any size. -/
def Json.asNat : Json → Option ℕ
  | number value => if 0 ≤ value then some value.toNat else none
  | null | bool _ | decimal _ | string _ | array _ | object _ => none

/-- The amounts that the proofs of a token state, of any size. -/
def statedAmounts (json : Json) : List ℕ :=
  let entries := ((json.get "token").bind asArray).getD []
  (entries.filterMap fun entry ↦ (entry.get "proofs").bind asArray).flatten.filterMap fun proof ↦
    (proof.get "amount").bind asNat

/-- A number as one of 64 bits, if it is one. -/
def narrow (value : ℕ) : Option UInt64 :=
  if value < 2 ^ 64 then some (UInt64.ofNat value) else none

theorem asU64_eq (json : Json) : json.asU64 = json.asNat.bind narrow := by
  cases json with
  | number value =>
    by_cases hvalue : 0 ≤ value
    · simp [asU64, asNat, narrow, hvalue]
    · simp [asU64, asNat, hvalue]
  | _ => rfl

theorem proofAmounts_eq (json : Json) :
    proofAmounts json = (statedAmounts json).filterMap narrow := by
  simp only [proofAmounts, statedAmounts, List.filterMap_filterMap]
  congr 1
  funext proof
  cases proof.get "amount" with
  | none => rfl
  | some amount => exact asU64_eq amount

/-- The sum is exact as long as it fits. -/
theorem toNat_sum_narrow {amounts : List ℕ} (hfits : amounts.sum < 2 ^ 64) :
    (amounts.filterMap narrow).sum.toNat = amounts.sum := by
  induction amounts with
  | nil => rfl
  | cons amount rest ih =>
    rw [List.sum_cons] at hfits
    have hnarrow : narrow amount = some (UInt64.ofNat amount) := if_pos (by omega)
    have hamount : (UInt64.ofNat amount).toNat = amount :=
      UInt64.toNat_ofNat_of_lt' (show amount < 2 ^ 64 by omega)
    rw [List.filterMap_cons_some hnarrow, List.sum_cons, List.sum_cons, UInt64.toNat_add, hamount,
      ih (by omega), Nat.mod_eq_of_lt hfits]

namespace TokenReader

variable (reader : TokenReader)

/-- The JSON of a token, as far as it is read. -/
def readJson (token : String) : Option Json := do
  let payload ← (stripStart "cashuA" token).or (stripStart "cashua" token)
  let decoded ← reader.decode payload
  reader.fromSlice decoded

theorem decodeCashuAmount_eq (token : String) :
    reader.decodeCashuAmount token =
      (reader.readJson token).map fun json ↦ ((statedAmounts json).filterMap narrow).sum := by
  simp only [decodeCashuAmount, readJson, ← proofAmounts_eq]
  cases (stripStart "cashuA" token).or (stripStart "cashua" token) with
  | none => rfl
  | some payload =>
    cases hdecoded : reader.decode payload with
    | none => simp [hdecoded]
    | some decoded => cases hread : reader.fromSlice decoded <;> simp [hdecoded, hread]

/-- What a token is taken for is the sum of what its proofs state. -/
def AddsUp (token : String) : Prop :=
  ∀ json amount, reader.readJson token = some json → reader.decodeCashuAmount token = some amount →
    amount.toNat = (statedAmounts json).sum

/-- A token is added up exactly as long as the sum fits. -/
theorem addsUp_iff (token : String) :
    reader.AddsUp token ↔
      ∀ json, reader.readJson token = some json → (statedAmounts json).sum < 2 ^ 64 := by
  constructor
  · intro hadds json hjson
    have hamount : reader.decodeCashuAmount token =
        some ((statedAmounts json).filterMap narrow).sum := by
      rw [decodeCashuAmount_eq, hjson, Option.map_some]
    exact hadds json _ hjson hamount ▸ UInt64.toNat_lt _
  · intro hfits json amount hjson hamount
    rw [decodeCashuAmount_eq, hjson, Option.map_some, Option.some.injEq] at hamount
    rw [← hamount]
    exact toNat_sum_narrow (hfits json hjson)

end TokenReader

/-! ### Selling steps -/

/-- Multiples of a size below the modulus, reduced, rise all the way just when no multiple of the
modulus is passed. -/
theorem mul_mod_monotone_iff {low high size modulus : ℕ} (hrange : low ≤ high)
    (hsize : size < modulus) :
    (∀ less more, low ≤ less → less ≤ more → more ≤ high →
        less * size % modulus ≤ more * size % modulus) ↔
      low * size / modulus = high * size / modulus := by
  constructor
  · intro hrises
    induction high, hrange using Nat.le_induction with
    | base => rfl
    | succ high hlow ih =>
      have hstep := hrises high (high + 1) hlow (Nat.le_succ high) le_rfl
      rw [ih fun less more hless hmore hhigh ↦
        hrises less more hless hmore (Nat.le_succ_of_le hhigh)]
      -- one more step goes over the edge at most once, and then falls
      have hless := Nat.div_add_mod (high * size) modulus
      have hmore := Nat.div_add_mod ((high + 1) * size) modulus
      have hbelow := Nat.mod_lt ((high + 1) * size) (Nat.zero_lt_of_lt hsize)
      have hgrows : high * size / modulus ≤ (high + 1) * size / modulus :=
        Nat.div_le_div_right (Nat.mul_le_mul_right size (Nat.le_succ high))
      rw [Nat.succ_mul] at *
      by_contra hcrosses
      have hnext : high * size / modulus + 1 ≤ (high * size + size) / modulus := by omega
      have hjump := Nat.mul_le_mul_left modulus hnext
      rw [Nat.mul_add, Nat.mul_one] at hjump
      omega
  · intro hsame less more hless hmore hhigh
    have hquotient (steps : ℕ) (hfrom : low ≤ steps) (hto : steps ≤ high) :
        steps * size / modulus = low * size / modulus :=
      le_antisymm
        ((Nat.div_le_div_right (Nat.mul_le_mul_right size hto)).trans_eq hsame.symm)
        (Nat.div_le_div_right (Nat.mul_le_mul_right size hfrom))
    have hfirst := Nat.div_add_mod (less * size) modulus
    have hsecond := Nat.div_add_mod (more * size) modulus
    rw [hquotient less hless (hmore.trans hhigh)] at hfirst
    rw [hquotient more (hless.trans hmore) hhigh] at hsecond
    have hproduct := Nat.mul_le_mul_right size hmore
    omega

namespace V1ServerConfig

variable {Keys : Type} (server : V1ServerConfig Keys)

/-- What an amount buys from a mint, over the natural numbers. -/
def exactAllotment (mint : AcceptedMint) (amount : UInt64) : ℕ :=
  amount.toNat / mint.pricePerStep.toNat * server.stepSize.toNat

/-- What is sold for an amount is what it buys from the mint. -/
def SellsExactly (mint : AcceptedMint) (amount : UInt64) : Prop :=
  ∀ allotment, server.calculateAllotment amount mint.url = .ok allotment →
    allotment.toNat = server.exactAllotment mint amount

/-- Who gets something for an amount gets at least as much for a larger one. -/
def SellsMonotonically (mintUrl : String) : Prop :=
  ∀ less more allotment, less ≤ more → server.calculateAllotment less mintUrl = .ok allotment →
    ∃ larger, server.calculateAllotment more mintUrl = .ok larger ∧ allotment ≤ larger

/-- The product of steps and step size fits, or there are too few steps to sell any. Here `first` is
the mint that is found under the URL, and where it has another price than the mint asked for, the
steps that it sells have to be worth the same by accident. -/
def ProductFits (mint first : AcceptedMint) (amount : UInt64) : Prop :=
  if first.pricePerStep = 0 then server.exactAllotment mint amount = server.stepSize.toNat
  else amount.toNat / first.pricePerStep.toNat < first.minSteps.toNat ∨
    server.exactAllotment first amount % 2 ^ 64 = server.exactAllotment mint amount

/-- No amount of 64 bits takes the product over another multiple of `2 ^ 64` than the lowest amount
that is accepted. -/
def NeverCrosses (first : AcceptedMint) : Prop :=
  let most := (2 ^ 64 - 1) / first.pricePerStep.toNat
  first.pricePerStep = 0 ∨ most < first.minSteps.toNat ∨
    first.minSteps.toNat * server.stepSize.toNat / 2 ^ 64 = most * server.stepSize.toNat / 2 ^ 64

variable {server} {mint first : AcceptedMint}

/-- The mint itself is found: what it sells fits, or is refused. -/
theorem productFits_self_iff (hprice : mint.pricePerStep ≠ 0) (amount : UInt64) :
    server.ProductFits mint mint amount ↔
      amount.toNat / mint.pricePerStep.toNat < mint.minSteps.toNat ∨
        server.exactAllotment mint amount < 2 ^ 64 := by
  rw [ProductFits, if_neg hprice, Nat.mod_eq_iff_lt (by norm_num)]

section Found

variable {mintUrl : String}
  (hfirst : (server.acceptedMints.find? fun other ↦ decide (other.url = mintUrl)) = some first)

include hfirst

theorem calculateAllotment_of_free (hfree : first.pricePerStep = 0) (amount : UInt64) :
    server.calculateAllotment amount mintUrl = .ok server.stepSize := by
  rw [calculateAllotment, hfirst]
  exact if_pos hfree

/-- The sale is monotone just when no amount crosses a multiple of `2 ^ 64`. -/
theorem sells_monotonically_iff :
    server.SellsMonotonically mintUrl ↔ server.NeverCrosses first := by
  by_cases hfree : first.pricePerStep = 0
  · refine iff_of_true (fun less more allotment hle hless ↦ ?_) (Or.inl hfree)
    rw [calculateAllotment_of_free hfirst hfree, Except.ok.injEq] at hless
    exact ⟨server.stepSize, calculateAllotment_of_free hfirst hfree more, hless ▸ UInt64.le_refl _⟩
  have hpositive : 0 < first.pricePerStep.toNat :=
    Nat.pos_of_ne_zero fun hzero ↦ hfree (UInt64.toNat_inj.mp hzero)
  have hmost (amount : UInt64) :
      amount.toNat / first.pricePerStep.toNat ≤ (2 ^ 64 - 1) / first.pricePerStep.toNat :=
    Nat.div_le_div_right (Nat.le_sub_one_of_lt amount.toNat_lt)
  rw [NeverCrosses, or_iff_right hfree]
  by_cases hnever : (2 ^ 64 - 1) / first.pricePerStep.toNat < first.minSteps.toNat
  · refine iff_of_true (fun less more allotment hle hless ↦ ?_) (Or.inl hnever)
    obtain ⟨hmin, -⟩ := (calculateAllotment_eq_ok_iff hfirst hfree).mp hless
    exact absurd (hmin.trans (hmost less)) (Nat.not_le.mpr hnever)
  rw [or_iff_right hnever, ← mul_mod_monotone_iff (Nat.not_lt.mp hnever) server.stepSize.toNat_lt]
  constructor
  · intro hsells less more hless hmore hhigh
    -- the amounts that buy just so many steps
    have hbuys (steps : ℕ) (hsteps : steps ≤ (2 ^ 64 - 1) / first.pricePerStep.toNat) :
        ∃ amount : UInt64, amount.toNat = steps * first.pricePerStep.toNat ∧
          amount.toNat / first.pricePerStep.toNat = steps := by
      have hfits : steps * first.pricePerStep.toNat < 2 ^ 64 := by
        have hproduct := (Nat.le_div_iff_mul_le hpositive).mp hsteps
        omega
      have hword := UInt64.toNat_ofNat_of_lt' hfits
      refine ⟨UInt64.ofNat (steps * first.pricePerStep.toNat), hword, ?_⟩
      rw [hword, Nat.mul_div_cancel _ hpositive]
    obtain ⟨little, hlittle, hfew⟩ := hbuys less (hmore.trans hhigh)
    obtain ⟨much, hmuch, hmany⟩ := hbuys more hhigh
    have hword (steps : ℕ) :
        (UInt64.ofNat (steps * server.stepSize.toNat)).toNat =
          steps * server.stepSize.toNat % 2 ^ 64 := UInt64.toNat_ofNat'
    obtain ⟨larger, hlarger, hle⟩ := hsells little much
      (UInt64.ofNat (less * server.stepSize.toNat))
      (UInt64.le_iff_toNat_le.mpr
        (hlittle ▸ hmuch ▸ Nat.mul_le_mul_right first.pricePerStep.toNat hmore))
      ((calculateAllotment_eq_ok_iff hfirst hfree).mpr ⟨hfew ▸ hless, by rw [hword, hfew]⟩)
    obtain ⟨-, hsold⟩ := (calculateAllotment_eq_ok_iff hfirst hfree).mp hlarger
    rw [UInt64.le_iff_toNat_le, hword, hsold, hmany] at hle
    exact hle
  · intro hrises less more allotment hle hless
    obtain ⟨hmin, hsold⟩ := (calculateAllotment_eq_ok_iff hfirst hfree).mp hless
    have hsteps : less.toNat / first.pricePerStep.toNat ≤ more.toNat / first.pricePerStep.toNat :=
      Nat.div_le_div_right (UInt64.le_iff_toNat_le.mp hle)
    have hword :
        (UInt64.ofNat (more.toNat / first.pricePerStep.toNat * server.stepSize.toNat)).toNat =
          more.toNat / first.pricePerStep.toNat * server.stepSize.toNat % 2 ^ 64 :=
      UInt64.toNat_ofNat'
    refine ⟨_, (calculateAllotment_eq_ok_iff hfirst hfree).mpr ⟨hmin.trans hsteps, hword⟩, ?_⟩
    rw [UInt64.le_iff_toNat_le, hword, hsold]
    exact hrises _ _ hmin hsteps (hmost more)

end Found

/-- What is sold is what is bought just when the product fits. -/
theorem sellsExactly_iff
    (hfirst : (server.acceptedMints.find? fun other ↦ decide (other.url = mint.url)) = some first)
    (amount : UInt64) :
    server.SellsExactly mint amount ↔ server.ProductFits mint first amount := by
  unfold SellsExactly ProductFits
  split_ifs with hfree
  · rw [calculateAllotment_of_free hfirst hfree]
    simp [eq_comm]
  · simp only [calculateAllotment_eq_ok_iff hfirst hfree]
    constructor
    · intro hexact
      refine (Nat.lt_or_ge _ _).imp_right fun hmin ↦ ?_
      have hword : (UInt64.ofNat (server.exactAllotment first amount)).toNat =
          server.exactAllotment first amount % 2 ^ 64 := UInt64.toNat_ofNat'
      rw [← hexact _ ⟨hmin, hword⟩, hword]
    · rintro hfits allotment ⟨hmin, hsold⟩
      rcases hfits with hrefused | hsame
      · exact absurd hmin (Nat.not_le.mpr hrefused)
      · exact hsold.trans hsame

end V1ServerConfig

/-! ### Putting it on the session -/

/-- `SessionStore`, the trait. -/
structure SessionStore (Store : Type) where
  get : Store → String → Except String (Option CustomerSession)
  insert : Store → CustomerSession → Store × Except String Unit
  update : Store → String → CustomerSession → Store × Except String Unit

namespace SessionStore

variable {Store : Type} (sessions : SessionStore Store)

/-- What is written is what is read. -/
structure Keeps : Prop where
  get_insert : ∀ store session, (sessions.insert store session).2 = .ok () →
    sessions.get (sessions.insert store session).1 session.macAddress = .ok (some session)
  get_update : ∀ store mac session, (sessions.update store mac session).2 = .ok () →
    sessions.get (sessions.update store mac session).1 mac = .ok (some session)

/-- `add_allotment`, so many seconds after 1970. -/
def addAllotment (store : Store) (nowSecs : UInt64) (mac metric : String) (allotment : UInt64) :
    Store × Except String CustomerSession :=
  match sessions.get store mac with
  | .error message => (store, .error message)
  | .ok (some existing) =>
    let session : CustomerSession :=
      { existing with allotment := existing.allotment + allotment, startTime := nowSecs.toInt64 }
    let updated := sessions.update store mac session
    (updated.1, updated.2.map fun _ ↦ session)
  | .ok none =>
    let session : CustomerSession := ⟨mac, nowSecs.toInt64, metric, allotment⟩
    let inserted := sessions.insert store session
    (inserted.1, inserted.2.map fun _ ↦ session)

/-- What a session has, nothing where there is none. -/
def allotmentOf (store : Store) (mac : String) : ℕ :=
  match sessions.get store mac with
  | .ok (some session) => session.allotment.toNat
  | .ok none | .error _ => 0

/-- Assumes: a store that keeps what is written. The session has the sum in 64 bits, and so has the
store. -/
theorem toNat_addAllotment (hkeeps : sessions.Keeps) {store : Store} {nowSecs allotment : UInt64}
    {mac metric : String} {session : CustomerSession}
    (hadded : (sessions.addAllotment store nowSecs mac metric allotment).2 = .ok session) :
    session.allotment.toNat = (sessions.allotmentOf store mac + allotment.toNat) % 2 ^ 64 ∧
      sessions.allotmentOf (sessions.addAllotment store nowSecs mac metric allotment).1 mac =
        session.allotment.toNat := by
  unfold addAllotment at hadded ⊢
  cases hget : sessions.get store mac with
  | error message => simp [hget] at hadded
  | ok found =>
    cases found with
    | none =>
      have hheld : sessions.allotmentOf store mac = 0 := by rw [allotmentOf, hget]
      simp only [hget] at hadded ⊢
      cases hinserted : (sessions.insert store ⟨mac, nowSecs.toInt64, metric, allotment⟩).2 with
      | error message => simp [hinserted, Except.map] at hadded
      | ok done =>
        rw [hinserted] at hadded
        obtain rfl := Except.ok.inj hadded
        refine ⟨?_, ?_⟩
        · rw [hheld, Nat.zero_add, Nat.mod_eq_of_lt allotment.toNat_lt]
        · rw [allotmentOf, hkeeps.get_insert store _ hinserted]
    | some existing =>
      have hheld : sessions.allotmentOf store mac = existing.allotment.toNat := by
        rw [allotmentOf, hget]
      simp only [hget] at hadded ⊢
      cases hupdated : (sessions.update store mac { existing with
          allotment := existing.allotment + allotment, startTime := nowSecs.toInt64 }).2 with
      | error message => simp [hupdated, Except.map] at hadded
      | ok done =>
        rw [hupdated] at hadded
        obtain rfl := Except.ok.inj hadded
        refine ⟨?_, ?_⟩
        · rw [hheld]
          exact UInt64.toNat_add _ _
        · rw [allotmentOf, hkeeps.get_update store mac _ hupdated]

/-- Assumes: the same. The sum is exact just when it fits. -/
theorem addAllotment_exact_iff (hkeeps : sessions.Keeps) {store : Store}
    {nowSecs allotment : UInt64} {mac metric : String} {session : CustomerSession}
    (hadded : (sessions.addAllotment store nowSecs mac metric allotment).2 = .ok session) :
    (session.allotment.toNat = sessions.allotmentOf store mac + allotment.toNat ∧
        sessions.allotmentOf (sessions.addAllotment store nowSecs mac metric allotment).1 mac =
          sessions.allotmentOf store mac + allotment.toNat) ↔
      sessions.allotmentOf store mac + allotment.toNat < 2 ^ 64 := by
  obtain ⟨hsum, hheld⟩ := sessions.toNat_addAllotment hkeeps hadded
  rw [hheld, and_self, hsum, Nat.mod_eq_iff_lt (by norm_num)]

end SessionStore

/-! ### From the token to the session -/

/-- Assumes: a store that keeps what is written, and an accepted mint with a price. A token is added
up exactly just when the sum of what its proofs state fits. What is sold for an amount is exact just
when the product fits or the steps are too few, which for the mint that is found under its own URL
is all there is to say. The sale is monotone just when no amount crosses a multiple of `2 ^ 64`. And
what is put on a session is exact just when the new sum fits. -/
theorem allotments_exact_iff {Keys Store : Type} (server : V1ServerConfig Keys)
    (reader : TokenReader) (sessions : SessionStore Store) (hkeeps : sessions.Keeps)
    {mint : AcceptedMint} (hmint : mint ∈ server.acceptedMints) (hprice : mint.pricePerStep ≠ 0) :
    (∀ token, reader.AddsUp token ↔
      ∀ json, reader.readJson token = some json → (statedAmounts json).sum < 2 ^ 64) ∧
    (∃ first ∈ server.acceptedMints,
      (server.acceptedMints.find? fun other ↦ decide (other.url = mint.url)) = some first ∧
      (∀ amount, server.SellsExactly mint amount ↔ server.ProductFits mint first amount) ∧
      (first = mint → ∀ amount, server.SellsExactly mint amount ↔
        amount.toNat / mint.pricePerStep.toNat < mint.minSteps.toNat ∨
          server.exactAllotment mint amount < 2 ^ 64) ∧
      (server.SellsMonotonically mint.url ↔ server.NeverCrosses first)) ∧
    (∀ store nowSecs mac metric allotment session,
      (sessions.addAllotment store nowSecs mac metric allotment).2 = .ok session →
        (session.allotment.toNat = sessions.allotmentOf store mac + allotment.toNat ∧
            sessions.allotmentOf (sessions.addAllotment store nowSecs mac metric allotment).1 mac =
              sessions.allotmentOf store mac + allotment.toNat ↔
          sessions.allotmentOf store mac + allotment.toNat < 2 ^ 64)) := by
  refine ⟨reader.addsUp_iff, ?_, fun store nowSecs mac metric allotment session hadded ↦
    sessions.addAllotment_exact_iff hkeeps hadded⟩
  have hfound : (server.acceptedMints.find? fun other ↦ decide (other.url = mint.url)).isSome := by
    rw [List.find?_isSome]
    exact ⟨mint, hmint, decide_eq_true rfl⟩
  obtain ⟨first, hfirst⟩ := Option.isSome_iff_exists.mp hfound
  refine ⟨first, List.mem_of_find?_eq_some hfirst, hfirst, server.sellsExactly_iff hfirst, ?_,
    V1ServerConfig.sells_monotonically_iff hfirst⟩
  rintro rfl amount
  rw [V1ServerConfig.sellsExactly_iff hfirst, V1ServerConfig.productFits_self_iff hprice]

/-- A store of sessions by their address, that takes everything. -/
def sampleSessions : SessionStore (List (String × CustomerSession)) where
  get store mac := .ok (store.lookup mac)
  insert store session := ((session.macAddress, session) :: store, .ok ())
  update store mac session := ((mac, session) :: store, .ok ())

theorem sampleSessions_keeps : sampleSessions.Keeps where
  get_insert store session _ := by simp [sampleSessions]
  get_update store mac session _ := by simp [sampleSessions]

/-- A proof of the largest amount there is and one of one more, in base64. -/
def hugePayload : String :=
  "eyJ0b2tlbiI6W3sibWludCI6Imh0dHBzOi8vbWludC5leGFtcGxlIiwicHJvb2ZzIjpbeyJhbW91bnQiOjE4NDQ2NzQ0" ++
  "MDczNzA5NTUxNjE1fSx7ImFtb3VudCI6MX1dfV19"

def hugePayloadText : String :=
  "\x7b\"token\":[\x7b\"mint\":\"https://mint.example\",\"proofs\":[\x7b\"amount\":" ++
  "18446744073709551615\x7d,\x7b\"amount\":1\x7d]\x7d]\x7d"

def hugePayloadJson : Json :=
  .object [("token", .array [.object [("mint", .string "https://mint.example"),
    ("proofs", .array [.object [("amount", .number 18446744073709551615)],
      .object [("amount", .number 1)]])]])]

/-- The engines and the reader as they are on this token. -/
def hugeReader : TokenReader where
  urlSafeNoPad payload := if payload = hugePayload then some (asBytes hugePayloadText) else none
  standard _ := none
  fromSlice decoded :=
    if decoded = asBytes hugePayloadText then some hugePayloadJson else none

theorem hugeReader_readJson :
    hugeReader.readJson ("cashuA" ++ hugePayload) = some hugePayloadJson := by
  simp [TokenReader.readJson, TokenReader.decode, stripStart_append, hugeReader]

/-- Steps of a minute at one sat each are sold exactly as far as the minutes fit. -/
theorem allotments_exact_of_sample :
    sampleServer.SellsExactly ⟨"https://mint.example", 1, "sat", 2⟩ 307445734561825 ∧
      (sampleSessions.addAllotment [] 1700000000 "aa:bb:cc:dd:ee:ff" "milliseconds" 120000).2 =
        .ok sampleSession ∧
      sampleSession.allotment.toNat = 120000 := by
  obtain ⟨-, ⟨first, -, hfirst, -, hself, -⟩, hadds⟩ := allotments_exact_iff sampleServer hugeReader
    sampleSessions sampleSessions_keeps
    (show ⟨"https://mint.example", 1, "sat", 2⟩ ∈ sampleServer.acceptedMints by decide) (by decide)
  have hfirst' : first = ⟨"https://mint.example", 1, "sat", 2⟩ :=
    Option.some.inj (hfirst.symm.trans (by decide))
  have hadded : (sampleSessions.addAllotment [] 1700000000 "aa:bb:cc:dd:ee:ff" "milliseconds"
      120000).2 = .ok sampleSession := rfl
  refine ⟨(hself hfirst' 307445734561825).mpr (Or.inr (by decide)), hadded, ?_⟩
  exact ((hadds [] _ _ _ _ _ hadded).mpr (by decide)).1

/-- The two proofs come to nothing. One sat more than can be sold exactly buys eight seconds. And
one millisecond on top of the longest session there is leaves nothing. -/
theorem more_bought_less :
    ¬ hugeReader.AddsUp ("cashuA" ++ hugePayload) ∧
      ¬ sampleServer.SellsExactly ⟨"https://mint.example", 1, "sat", 2⟩ 307445734561826 ∧
      ¬ sampleServer.SellsMonotonically "https://mint.example" ∧
      sampleSessions.allotmentOf
        (sampleSessions.addAllotment [("aa:bb:cc:dd:ee:ff",
            ⟨"aa:bb:cc:dd:ee:ff", 1700000000, "milliseconds", 2 ^ 64 - 1⟩)] 1700000060
          "aa:bb:cc:dd:ee:ff" "milliseconds" 1).1 "aa:bb:cc:dd:ee:ff" = 0 := by
  refine ⟨fun hadds ↦ ?_, fun hexact ↦ ?_, fun hmonotone ↦ ?_, by decide +kernel⟩
  · have hamount : hugeReader.decodeCashuAmount ("cashuA" ++ hugePayload) = some 0 := by
      rw [TokenReader.decodeCashuAmount_eq, hugeReader_readJson]
      decide
    exact absurd (hadds _ _ hugeReader_readJson hamount) (by decide)
  · exact absurd (hexact 8384 (by decide)) (by decide)
  · obtain ⟨larger, hlarger, hle⟩ := hmonotone 307445734561825 307445734561826
      18446744073709500000 (by decide) (by decide)
    have hsold : sampleServer.calculateAllotment 307445734561826 "https://mint.example" =
        .ok 8384 := by
      decide
    obtain rfl := Except.ok.inj (hsold.symm.trans hlarger)
    exact absurd hle (by decide)

end Tollgate
