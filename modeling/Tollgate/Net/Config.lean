import Tollgate.Net.Consume
import Tollgate.Net.Enforcement
import Tollgate.Net.Wallet
import Tollgate.Protocol.Product

/-!
# The configured node

`config.rs` and the part of `main.rs` that puts a driver together: the price sheet is made of every
configured product and every accepted mint, the price the session charges is taken from the first
product. `BootstrapWallet.verify` is the wallet's answer to one token with nothing else going on, by
either of its two ways to a verdict.

`advertisedTerms_iff` says for which configurations, and for which tokens, what the sheet advertises
is what the session, the wallet and a consumer go by.
-/

set_option autoImplicit false
set_option relaxedAutoImplicit false

namespace Tollgate

def defaultPricingScale : UInt32 := 1000

def defaultMinIntervalMs : UInt32 := 5000

def defaultMaxIntervalMs : UInt32 := 60000

/-! ### Configuration -/

/-- A single static product offer. -/
structure ProductConfig where
  pricingScale : UInt32
  pricePerSecond : Int64
  pricePerUnit : Int64
  deriving DecidableEq, Repr

/-- What the node's configuration says about what it sells. -/
structure Config where
  mints : List String
  products : List ProductConfig
  unit : String
  deriving DecidableEq, Repr

namespace ProductConfig

variable (product : ProductConfig)

/-- The scale a product is advertised with. -/
def scale : UInt32 :=
  if product.pricingScale = 0 then defaultPricingScale else product.pricingScale

/-- The rate of a product. -/
def price : Price :=
  ⟨product.pricePerSecond, product.pricePerUnit⟩

/-- The rate of a product at each mint. -/
def prices (mints : List String) : List MintPrice :=
  mints.map fun url ↦ ⟨url, product.pricePerSecond, product.pricePerUnit, "sat"⟩

end ProductConfig

/-- The rate a mint option names. -/
def MintOption.price (option : MintOption) : Price :=
  ⟨option.pricePerSecond, option.pricePerUnit⟩

section Sheet

variable (sort : List MintPrice → List MintPrice) (sha256 : Bytes → Digest)

/-- A price as it stands on the sheet. -/
def MintPrice.offer (price : MintPrice) : MintOption :=
  ⟨optionId price.mintUrl price.mintUnit sha256, price.mintUrl, price.pricePerSecond,
    price.pricePerUnit, price.mintUnit⟩

/-- A product as it stands on the sheet. -/
def ProductConfig.entry (mints : List String) (product : ProductConfig) : ProductEntry :=
  let prices := product.prices mints
  ⟨productId sort product.scale prices [] sha256, [], product.scale,
    prices.map (MintPrice.offer sha256)⟩

namespace Config

variable (config : Config)

/-- The price sheet this node advertises: one offer for each product, priced at every mint. -/
def priceSheet : PriceSheet :=
  PriceSheet.new (config.products.map (ProductConfig.entry sort sha256 config.mints))
    ⟨defaultMinIntervalMs, defaultMaxIntervalMs⟩

/-- One price for all peers, taken from the first configured product. -/
def sessionPrice : Price :=
  (config.products.head?.map ProductConfig.price).getD Price.default

/-- The node's announce. -/
def announce (publicKey : PublicKey) : Announce :=
  Announce.new protocolVersion publicKey config.unit 0

/-- The driver as `main` builds it. -/
def driver (cbor : Minicbor) (publicKey : PublicKey) : Driver :=
  Driver.new config.sessionPrice (cbor.encodeAnnounce (config.announce publicKey))
    (cbor.encodePriceSheet (config.priceSheet sort sha256))

end Config

end Sheet

/-! ### One token at the wallet -/

/-- The wallets of a repository: what they make of a token, by its mint. -/
structure WalletRepository where
  getWallet : String → Except String Unit
  receive : String → Except String UInt64

namespace BootstrapWallet

variable (crates : Crates) (wallet : BootstrapWallet) (walletRepo : Option WalletRepository)
  (text : String) (response : MintResponse)

/-- The worth of a token, in sats, once it is verified. With a repository the mint swaps the proofs,
without one it is asked about them. -/
def verifiedSat : Except String UInt64 := do
  let token ← parseToken crates text
  wallet.checkLocal token
  match walletRepo with
  | some repo =>
    match crates.mintUrl token with
    | some url =>
      match repo.getWallet url with
      | .ok _ =>
        match repo.receive text with
        | .ok amountSat => .ok amountSat
        | .error error => .error ("token rejected by mint: " ++ error)
      | .error error => .error ("no wallet for mint " ++ url ++ ": " ++ error)
    | none => .error "token has no mint URL"
  | none =>
    let amountSat ← wallet.appraise crates token
    checkProofsUnspent response
    .ok amountSat

/-- What the wallet credits for a token. -/
def verify : Except String UInt64 :=
  (wallet.verifiedSat crates walletRepo text response).map fun amountSat ↦ amountSat * 1000

end BootstrapWallet

/-- A call of `verify` that nothing comes between, step by step. -/
def verifySteps (text : String) (response : MintResponse) (written : String → Bool) :
    List WalletStep :=
  [.verify 0 text, .checkLocal 0, .checkMint 0 response, .insert 0, .persist 0 written]

/-- The steps of one call with nothing in between return what `verify` says. -/
theorem outputs_verifySteps (crates : Crates) (wallet : BootstrapWallet) (text : String)
    (response : MintResponse) (written : String → Bool) :
    (Wallets.machine crates).outputs ⟨wallet, ∅⟩ (verifySteps text response written) =
      [⟨text, wallet.verify crates none text response⟩] := by
  unfold BootstrapWallet.verify BootstrapWallet.verifiedSat
  simp only [verifySteps, Transducer.outputs, Transducer.observe, Wallets.machine]
  cases hparse : BootstrapWallet.parseToken crates text with
  | error error => simp [Wallets.step, Wallets.resume, hparse, Except.map, bind, Except.bind]
  | ok token =>
    cases hlocal : wallet.checkLocal token with
    | error error =>
      simp [Wallets.step, Wallets.resume, hparse, hlocal, Except.map, bind, Except.bind, pure,
        Except.pure]
    | ok _ =>
      cases hvalue : wallet.appraise crates token with
      | error error =>
        simp [Wallets.step, Wallets.resume, hparse, hlocal, hvalue, Except.map, bind, Except.bind,
          pure, Except.pure]
      | ok amountSat =>
        cases hmint : BootstrapWallet.checkProofsUnspent response <;>
          simp [Wallets.step, Wallets.resume, hparse, hlocal, hvalue, hmint, Except.map, bind,
            Except.bind, pure, Except.pure]

/-! ### Advertised and charged terms -/

section Terms

variable (sort : List MintPrice → List MintPrice) (sha256 : Bytes → Digest) (cbor : Minicbor)
  (publicKey : PublicKey) (config : Config) (amountSat : UInt64)

/-- The sheet says what is charged, when a token of `amountSat` is verified with `answer`: every
option carries the session's price, a consumer derives that price from it, and the provider credits
and the consumer records the amount in the scale of every product, for a first token and for one
after a cut-off. So each option sells as many units for the token as it says. -/
structure AdvertisedTerms (answer : Except String UInt64) : Prop where
  offered : ∀ product ∈ (config.priceSheet sort sha256).products, ∀ option ∈ product.mintOptions,
    option.price = (config.driver sort sha256 cbor publicKey).session.price
  derived : priceFromSheet (some (config.priceSheet sort sha256)) =
    (config.driver sort sha256 cbor publicKey).session.price
  credited : ∀ product ∈ (config.priceSheet sort sha256).products, ∃ balance,
    answer = .ok balance ∧ balance.toNat = amountSat.toNat * product.pricingScale.toNat
  recorded : ∀ product ∈ (config.priceSheet sort sha256).products, ∀ opts messages raw,
    opts.amountSat = amountSat →
      (Consumer.start cbor opts messages raw).paidScaled.toNat =
        amountSat.toNat * product.pricingScale.toNat
  toppedUp : ∀ product ∈ (config.priceSheet sort sha256).products, ∀ opts consumer,
    opts.topupSat = amountSat →
      (Consumer.afterTopUp opts consumer true true).paidScaled.toNat =
        amountSat.toNat * product.pricingScale.toNat
  buys : ∀ product ∈ (config.priceSheet sort sha256).products, ∀ option ∈ product.mintOptions,
    ∀ balance, answer = .ok balance →
      (balance.toNat : ℤ) / (config.driver sort sha256 cbor publicKey).session.price.perUnit.toInt =
        (amountSat.toNat * product.pricingScale.toNat : ℕ) / option.pricePerUnit.toInt

/-- The configuration has one price and the scale that wallet and consumer go by: with mints, every
product costs what the first one does; without, the first one is free; and unless the token is worth
nothing, every product has the default scale and the token's worth fits in it. -/
structure UniformTerms : Prop where
  priced : config.mints ≠ [] → ∀ product ∈ config.products, product.price = config.sessionPrice
  free : config.mints = [] → config.sessionPrice = Price.default
  scaled : amountSat = 0 ∨ ∀ product ∈ config.products,
    product.scale = 1000 ∧ amountSat.toNat * 1000 < 2 ^ 64

variable {sort sha256 config amountSat}

theorem mem_priceSheet {entry : ProductEntry} :
    entry ∈ (config.priceSheet sort sha256).products ↔
      ∃ product ∈ config.products, product.entry sort sha256 config.mints = entry := by
  rw [Config.priceSheet, PriceSheet.new, List.mem_map]

/-- Every option of a product carries the product's price. -/
theorem ProductConfig.price_of_mem {product : ProductConfig} {mints : List String}
    {option : MintOption} (hoption : option ∈ (product.entry sort sha256 mints).mintOptions) :
    option.price = product.price := by
  simp only [ProductConfig.entry, ProductConfig.prices, List.map_map, List.mem_map] at hoption
  obtain ⟨url, -, rfl⟩ := hoption
  rfl

/-- What a consumer derives from the sheet. -/
theorem priceFromSheet_priceSheet :
    priceFromSheet (some (config.priceSheet sort sha256)) =
      if config.mints = [] then Price.default else config.sessionPrice := by
  rcases config with ⟨mints, products, unit⟩
  cases products with
  | nil => simp [priceFromSheet, Config.priceSheet, Config.sessionPrice, PriceSheet.new]
  | cons product rest =>
    cases mints with
    | nil => rfl
    | cons url others => rfl

/-- The wallet multiplies with wrapping and the consumer with saturation; both agree with a scale
only if it is theirs and nothing overflows. -/
theorem scaled_iff {scale : UInt32} :
    (amountSat * 1000).toNat = amountSat.toNat * scale.toNat ∧
        (amountSat.saturatingMul pricingScale).toNat = amountSat.toNat * scale.toNat ↔
      amountSat = 0 ∨ (scale = 1000 ∧ amountSat.toNat * 1000 < 2 ^ 64) := by
  have hwrapped : (amountSat * 1000).toNat = amountSat.toNat * 1000 % 2 ^ 64 :=
    UInt64.toNat_mul amountSat 1000
  have hsaturated : (amountSat.saturatingMul pricingScale).toNat =
      min (amountSat.toNat * 1000) (2 ^ 64 - 1) := UInt64.toNat_saturatingMul amountSat 1000
  have hscale : scale = 1000 ↔ scale.toNat = 1000 := UInt32.toNat_inj.symm
  rw [hwrapped, hsaturated, hscale, UInt64.eq_zero_iff_toNat]
  constructor
  · rintro ⟨hwallet, hconsumer⟩
    by_cases hfits : amountSat.toNat * 1000 < 2 ^ 64
    · have heq : amountSat.toNat * 1000 = amountSat.toNat * scale.toNat := by omega
      rcases Nat.eq_zero_or_pos amountSat.toNat with hzero | hpos
      · exact .inl hzero
      · exact .inr ⟨(Nat.eq_of_mul_eq_mul_left hpos heq).symm, hfits⟩
    · -- The saturated product is odd, the wrapped one is not.
      omega
  · rintro (hzero | ⟨hthousand, hfits⟩)
    · simp [hzero]
    · rw [hthousand]
      omega

/-- With a mint, every price of the configuration stands on the sheet. -/
theorem offered_iff :
    (∀ product ∈ (config.priceSheet sort sha256).products, ∀ option ∈ product.mintOptions,
        option.price = config.sessionPrice) ↔
      (config.mints ≠ [] → ∀ product ∈ config.products, product.price = config.sessionPrice) := by
  constructor
  · intro hoffered hmints product hproduct
    obtain ⟨url, others, hurl⟩ := List.exists_cons_of_ne_nil hmints
    refine (hoffered (product.entry sort sha256 config.mints) (mem_priceSheet.mpr
      ⟨product, hproduct, rfl⟩) (MintPrice.offer sha256 ⟨url, product.pricePerSecond,
        product.pricePerUnit, "sat"⟩) ?_)
    simp [ProductConfig.entry, ProductConfig.prices, hurl]
  · intro hpriced entry hentry option hoption
    obtain ⟨product, hproduct, rfl⟩ := mem_priceSheet.mp hentry
    have hmints : config.mints ≠ [] := by
      rintro hnone
      simp [ProductConfig.entry, ProductConfig.prices, hnone] at hoption
    rw [ProductConfig.price_of_mem hoption]
    exact hpriced hmints product hproduct

/-- Assumes: a token of `amountSat`, verified in either way. The sheet says what is charged exactly
if the configuration has one price and the default scale, and the token's worth fits in it. -/
theorem advertisedTerms_iff (crates : Crates) (wallet : BootstrapWallet)
    (walletRepo : Option WalletRepository) (text : String) (response : MintResponse)
    (hverified : wallet.verifiedSat crates walletRepo text response = .ok amountSat) :
    AdvertisedTerms sort sha256 cbor publicKey config amountSat
        (wallet.verify crates walletRepo text response) ↔
      UniformTerms config amountSat := by
  have hanswer : wallet.verify crates walletRepo text response = .ok (amountSat * 1000) := by
    rw [BootstrapWallet.verify, hverified]
    rfl
  rw [hanswer]
  constructor
  · intro hterms
    refine ⟨offered_iff.mp hterms.offered, ?_, ?_⟩
    · intro hmints
      have hderived := hterms.derived
      rw [priceFromSheet_priceSheet, if_pos hmints] at hderived
      exact hderived.symm
    · rw [or_iff_not_imp_left]
      intro hworth product hproduct
      have hentry := mem_priceSheet.mpr
        ⟨product, hproduct, (rfl : product.entry sort sha256 config.mints = _)⟩
      obtain ⟨balance, hbalance, hcredited⟩ := hterms.credited _ hentry
      have hrecorded := hterms.recorded _ hentry ⟨amountSat, 0, 0, false⟩ [] 0 rfl
      rw [← Except.ok.inj hbalance] at hcredited
      exact (scaled_iff.mp ⟨hcredited, hrecorded⟩).resolve_left hworth
  · intro huniform
    have hscaled {entry : ProductEntry}
        (hentry : entry ∈ (config.priceSheet sort sha256).products) :
        (amountSat * 1000).toNat = amountSat.toNat * entry.pricingScale.toNat ∧
          (amountSat.saturatingMul pricingScale).toNat =
            amountSat.toNat * entry.pricingScale.toNat := by
      obtain ⟨product, hproduct, rfl⟩ := mem_priceSheet.mp hentry
      exact scaled_iff.mpr (huniform.scaled.imp_right fun hall ↦ hall product hproduct)
    have hoffered : ∀ entry ∈ (config.priceSheet sort sha256).products,
        ∀ option ∈ entry.mintOptions, option.price = config.sessionPrice :=
      offered_iff.mpr huniform.priced
    refine ⟨hoffered, ?_, ?_, ?_, ?_, ?_⟩
    · rw [priceFromSheet_priceSheet]
      split_ifs with hmints
      · exact (huniform.free hmints).symm
      · rfl
    · exact fun entry hentry ↦ ⟨amountSat * 1000, rfl, (hscaled hentry).1⟩
    · rintro entry hentry opts messages raw rfl
      exact (hscaled hentry).2
    · rintro entry hentry opts consumer rfl
      exact (hscaled hentry).2
    · intro entry hentry option hoption balance hbalance
      have hunit : option.pricePerUnit = config.sessionPrice.perUnit :=
        congrArg Price.perUnit (hoffered entry hentry option hoption)
      rw [← Except.ok.inj hbalance, (hscaled hentry).1, hunit]
      rfl

end Terms

/-- One product at one mint, in the default scale. -/
def sampleConfig (pricingScale : UInt32) : Config :=
  ⟨["https://testnut.cashu.space"], [⟨pricingScale, 0, 1⟩], "bytes"⟩

def sampleVerifier : BootstrapWallet :=
  BootstrapWallet.withSpentFile ["https://testnut.cashu.space/"] (some [])

/-- A token of one sat, sold by a node with one product in the scale it gets by default. -/
theorem advertisedTerms_default_scale :
    AdvertisedTerms (List.insertionSort MintPrice.urlLe) (fun _ ↦ Vector.replicate 32 0)
      Minicbor.derived (Vector.replicate 33 2) (sampleConfig 0) 1
      (sampleVerifier.verify Wallets.sampleCrates none Wallets.sampleText
        (.states ["UNSPENT"])) := by
  have hverified : sampleVerifier.verifiedSat Wallets.sampleCrates none Wallets.sampleText
      (.states ["UNSPENT"]) = .ok 1 := by
    decide +kernel
  refine (advertisedTerms_iff _ _ Wallets.sampleCrates sampleVerifier none _ _ hverified).mpr ?_
  refine ⟨fun _ ↦ ?_, fun hmints ↦ absurd hmints (by decide), .inr ?_⟩
  · decide
  · decide

/-- The same node with a product whose prices are in whole sats: the sheet says one unit for the
token, the wallet credits a thousand. -/
theorem advertisedTerms_fails_on_scale :
    (sampleVerifier.verify Wallets.sampleCrates none Wallets.sampleText
        (.states ["UNSPENT"])).toOption = some 1000 ∧
      ¬ AdvertisedTerms (List.insertionSort MintPrice.urlLe) (fun _ ↦ Vector.replicate 32 0)
        Minicbor.derived (Vector.replicate 33 2) (sampleConfig 1) 1
        (sampleVerifier.verify Wallets.sampleCrates none Wallets.sampleText
          (.states ["UNSPENT"])) := by
  have hanswer : (sampleVerifier.verify Wallets.sampleCrates none Wallets.sampleText
      (.states ["UNSPENT"])).toOption = some 1000 := by
    decide +kernel
  refine ⟨hanswer, fun hterms ↦ ?_⟩
  obtain ⟨balance, hbalance, hcredited⟩ := hterms.credited _ List.mem_cons_self
  rw [hbalance] at hanswer
  rw [Option.some.inj hanswer] at hcredited
  exact absurd hcredited (by decide)

end Tollgate
