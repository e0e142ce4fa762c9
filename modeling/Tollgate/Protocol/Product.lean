import Tollgate.Library.Cbor
import Tollgate.Library.Ties
import Tollgate.Protocol.Message

/-!
# Product fingerprints

`product.rs`: a product is named by the hash of a fixed byte layout of its prices, sorted by the
bytes of their mint's URL. The hash function comes from the `sha2` crate and the sorting algorithm
from the standard library; both are parameters, the second with the contract that `sort_unstable_by`
documents (`SortsByUrl`). What is hashed is `productPreimage`.

The URL does not decide between several prices of one mint, and what is hashed then depends on the
order in which they happen to end up. `productPreimage_orderFree_iff` says when it does not.
-/

set_option autoImplicit false
set_option relaxedAutoImplicit false

namespace Tollgate

/-- Per-mint pricing for a product. -/
structure MintPrice where
  mintUrl : String
  pricePerSecond : Int64
  pricePerUnit : Int64
  mintUnit : String
  deriving DecidableEq, Repr

/-! ### The layout -/

/-- The UTF-8 bytes of a string. -/
def asBytes (text : String) : Bytes :=
  text.toByteArray.data.toList

/-- A number cast to 32 bits, most significant byte first. -/
def beU32 (n : ℕ) : Bytes :=
  Cbor.bigEndian 4 n

/-- A signed number in two's complement, most significant byte first. -/
def beI64 (n : Int64) : Bytes :=
  Cbor.bigEndian 8 n.toUInt64.toNat

/-- The comparison prices are sorted by. -/
def MintPrice.urlLe (first second : MintPrice) : Prop :=
  asBytes first.mintUrl ≤ asBytes second.mintUrl

instance MintPrice.decidableUrlLe : DecidableRel MintPrice.urlLe := fun first second ↦
  inferInstanceAs (Decidable (asBytes first.mintUrl ≤ asBytes second.mintUrl))

/-- What a price adds to the hash. -/
def MintPrice.hashed (price : MintPrice) : Bytes :=
  let url := asBytes price.mintUrl
  let unit := asBytes price.mintUnit
  beU32 url.length ++ (url ++ (beI64 price.pricePerSecond ++ (beI64 price.pricePerUnit ++
    (beU32 unit.length ++ unit))))

/-- The contract of `sort_unstable_by` with that comparison: the same prices, in order. -/
structure SortsByUrl (sort : List MintPrice → List MintPrice) : Prop where
  perm : ∀ prices, (sort prices).Perm prices
  sorted : ∀ prices, (sort prices).Pairwise MintPrice.urlLe

section Layout

variable (sort : List MintPrice → List MintPrice) (pricingScale : UInt32) (prices : List MintPrice)
  (extensions : Bytes)

/-- The bytes fed to the hash. -/
def productPreimage : Bytes :=
  asBytes "tollgate/product-id/v1" ++ (beU32 pricingScale.toNat ++ (beU32 (sort prices).length ++
    ((sort prices).flatMap MintPrice.hashed ++ (beU32 extensions.length ++ extensions))))

def productId (sha256 : Bytes → Digest) : Digest :=
  sha256 (productPreimage sort pricingScale prices extensions)

/-- The bytes that name a mint option. -/
def optionPreimage (mintUrl mintUnit : String) : Bytes :=
  let url := asBytes mintUrl
  let unit := asBytes mintUnit
  asBytes "tollgate/option-id/v1" ++ (beU32 url.length ++ (url ++ (beU32 unit.length ++ unit)))

def optionId (mintUrl mintUnit : String) (sha256 : Bytes → Digest) : Digest :=
  sha256 (optionPreimage mintUrl mintUnit)

/-- What is hashed is the same for every order in which the prices are declared and whichever way
they are sorted. -/
def OrderFree : Prop :=
  ∀ sort other, SortsByUrl sort → SortsByUrl other → ∀ declared : List MintPrice,
    declared.Perm prices → productPreimage sort pricingScale declared extensions =
      productPreimage other pricingScale prices extensions

end Layout

/-! ### Sorted prices -/

instance MintPrice.totalUrlLe : Std.Total MintPrice.urlLe :=
  ⟨fun first second ↦ List.le_total (asBytes first.mintUrl) (asBytes second.mintUrl)⟩

instance MintPrice.transUrlLe : IsTrans MintPrice MintPrice.urlLe :=
  ⟨fun _ _ _ hfirst hsecond ↦ List.le_trans hfirst hsecond⟩

/-- One algorithm that meets the contract. -/
theorem sortsByUrl_insertionSort : SortsByUrl (List.insertionSort MintPrice.urlLe) where
  perm := List.perm_insertionSort MintPrice.urlLe
  sorted := List.pairwise_insertionSort MintPrice.urlLe

/-- Only the prices in the middle of the layout can depend on how they are sorted. -/
theorem productPreimage_eq_iff {sort other : List MintPrice → List MintPrice}
    {pricingScale : UInt32} {first second : List MintPrice} {extensions : Bytes}
    (hlength : (sort first).length = (other second).length) :
    productPreimage sort pricingScale first extensions =
        productPreimage other pricingScale second extensions ↔
      (sort first).flatMap MintPrice.hashed = (other second).flatMap MintPrice.hashed := by
  rw [productPreimage, productPreimage, hlength, List.append_cancel_left_eq,
    List.append_cancel_left_eq, List.append_cancel_left_eq, List.append_cancel_right_eq]

/-- The layout is free of the order exactly if all sorted arrangements of the prices write alike. -/
theorem orderFree_iff_sortFree {pricingScale : UInt32} {prices : List MintPrice}
    {extensions : Bytes} :
    OrderFree pricingScale prices extensions ↔
      Ties.SortFree MintPrice.urlLe MintPrice.hashed prices := by
  constructor
  · intro hfree first second hfirst hsecond hsorted hsorted'
    have hsort := sortsByUrl_insertionSort
    have halike := (hfree _ _ hsort hsort first hfirst).trans
      (hfree _ _ hsort hsort second hsecond).symm
    have hkept := hsorted.insertionSort_eq
    have hkept' := hsorted'.insertionSort_eq
    have hlength : (first.insertionSort MintPrice.urlLe).length =
        (second.insertionSort MintPrice.urlLe).length := by
      rw [hkept, hkept', hfirst.length_eq, hsecond.length_eq]
    rwa [productPreimage_eq_iff hlength, hkept, hkept'] at halike
  · intro hfree sort other hsort hother declared hdeclared
    have hfirst := (hsort.perm declared).trans hdeclared
    have hsecond := hother.perm prices
    rw [productPreimage_eq_iff (hfirst.length_eq.trans hsecond.length_eq.symm)]
    exact hfree _ _ hfirst hsecond (hsort.sorted declared) (hother.sorted prices)

/-! ### Prices of one mint -/

theorem asBytes_injective {first second : String} (heq : asBytes first = asBytes second) :
    first = second :=
  String.toByteArray_inj.mp (ByteArray.ext (Array.toList_inj.mp heq))

theorem beI64_injective {first second : Int64} (heq : beI64 first = beI64 second) :
    first = second := by
  have hbound (n : Int64) : n.toUInt64.toNat < 256 ^ 8 := n.toUInt64.toNat_lt
  have hmod := Cbor.mod_eq_of_bigEndian_eq heq
  rw [Nat.mod_eq_of_lt (hbound first), Nat.mod_eq_of_lt (hbound second)] at hmod
  exact Int64.toBitVec_inj.mp (congrArg UInt64.toBitVec (UInt64.toNat_inj.mp hmod))

/-- The sort ties exactly the prices of one mint. -/
theorem urlLe_antisymm_iff {first second : MintPrice} :
    first.urlLe second ∧ second.urlLe first ↔ first.mintUrl = second.mintUrl := by
  constructor
  · rintro ⟨hle, hge⟩
    exact asBytes_injective (List.le_antisymm hle hge)
  · intro hurl
    unfold MintPrice.urlLe
    rw [hurl]
    exact ⟨List.le_refl _, List.le_refl _⟩

/-- Assumes: prices of one mint, and more bytes behind each. The same bytes come from the same
prices, and from units whose lengths agree in their last 32 bits. -/
theorem hashed_append_inj {first second : MintPrice} (hurl : first.mintUrl = second.mintUrl)
    {rest rest' : Bytes} (heq : first.hashed ++ rest = second.hashed ++ rest') :
    first.pricePerSecond = second.pricePerSecond ∧ first.pricePerUnit = second.pricePerUnit ∧
      (asBytes first.mintUnit).length % 2 ^ 32 = (asBytes second.mintUnit).length % 2 ^ 32 ∧
      asBytes first.mintUnit ++ rest = asBytes second.mintUnit ++ rest' := by
  unfold MintPrice.hashed at heq
  simp only [hurl, List.append_assoc, List.append_cancel_left_eq] at heq
  obtain ⟨hsecond, heq⟩ := List.append_inj heq (by simp [beI64])
  obtain ⟨hunit, heq⟩ := List.append_inj heq (by simp [beI64])
  obtain ⟨hlength, heq⟩ := List.append_inj heq (by simp [beU32])
  exact ⟨beI64_injective hsecond, beI64_injective hunit, Cbor.mod_eq_of_bigEndian_eq hlength, heq⟩

namespace MintPrice

/-- The two prices can change places in the layout. Prices that differ can do so only if the lengths
of their units differ by a multiple of `2 ^ 32`. -/
def Interchangeable (first second : MintPrice) : Prop :=
  first = second ∨
    ((asBytes first.mintUnit).length ≠ (asBytes second.mintUnit).length ∧
      (asBytes first.mintUnit).length % 2 ^ 32 = (asBytes second.mintUnit).length % 2 ^ 32 ∧
      first.hashed ++ second.hashed = second.hashed ++ first.hashed)

/-- Assumes: prices of one mint. -/
theorem interchangeable_iff {first second : MintPrice} (hurl : first.mintUrl = second.mintUrl) :
    first.Interchangeable second ↔
      first.hashed ++ second.hashed = second.hashed ++ first.hashed := by
  constructor
  · rintro (rfl | ⟨-, -, hcommute⟩)
    · rfl
    · exact hcommute
  · intro hcommute
    obtain ⟨hsecond, hprice, hmod, hrest⟩ := hashed_append_inj hurl hcommute
    by_cases hlength : (asBytes first.mintUnit).length = (asBytes second.mintUnit).length
    · obtain ⟨hunit, -⟩ := List.append_inj hrest hlength
      left
      cases first
      cases second
      simp only [mk.injEq] at *
      exact ⟨hurl, hsecond, hprice, asBytes_injective hunit⟩
    · exact .inr ⟨hlength, hmod, hcommute⟩

end MintPrice

/-! ### Declaration order -/

/-- What is hashed for a product does not depend on the order its prices are declared in, nor on how
they are sorted, exactly if any two prices of one mint are the same (or their units are four
gibibytes or more apart in length and the two prices are written alike in either order). -/
theorem productPreimage_orderFree_iff (pricingScale : UInt32) (prices : List MintPrice)
    (extensions : Bytes) :
    OrderFree pricingScale prices extensions ↔
      ∀ first ∈ prices, ∀ second ∈ prices, first.mintUrl = second.mintUrl →
        first.Interchangeable second := by
  rw [orderFree_iff_sortFree, Ties.sortFree_iff]
  constructor
  · intro hties first hfirst second hsecond hurl
    obtain ⟨hle, hge⟩ := urlLe_antisymm_iff.mpr hurl
    rw [MintPrice.interchangeable_iff hurl]
    exact hties first hfirst second hsecond hle hge
  · intro hprices first hfirst second hsecond hle hge
    have hurl := urlLe_antisymm_iff.mp ⟨hle, hge⟩
    exact (MintPrice.interchangeable_iff hurl).mp (hprices first hfirst second hsecond hurl)

/-- Two prices of one mint, in two units. -/
def sampleTie : List MintPrice :=
  [⟨"https://mint", 10, 1, "sat"⟩, ⟨"https://mint", 10, 1, "msat"⟩]

/-- Declared in the other order, the product has another fingerprint under a sort that keeps ties as
they come. -/
theorem productPreimage_orderFree_fails :
    productPreimage (List.insertionSort MintPrice.urlLe) 1000 sampleTie [] ≠
        productPreimage (List.insertionSort MintPrice.urlLe) 1000 sampleTie.reverse [] ∧
      ¬ OrderFree 1000 sampleTie [] := by
  have hdiffer : productPreimage (List.insertionSort MintPrice.urlLe) 1000 sampleTie [] ≠
      productPreimage (List.insertionSort MintPrice.urlLe) 1000 sampleTie.reverse [] := by
    decide +kernel
  refine ⟨hdiffer, fun hfree ↦ hdiffer ?_⟩
  exact (hfree _ _ sortsByUrl_insertionSort sortsByUrl_insertionSort _
    (List.reverse_perm sampleTie)).symm

end Tollgate
