import Tollgate.Protocol.Product

/-!
# Fingerprints are unambiguous

What is hashed for a product can be read back: every field of variable length has its length in
front of it, and lengths below `2 ^ 32` survive their cast to 32 bits. So equal preimages come from
the same scale, the same extensions and the same sorted prices; with one price for each mint there
is only one sorted arrangement, and equal preimages are exactly products that agree up to the order
of their prices. The tags of products and of mint options part right after `tollgate/`.
-/

set_option autoImplicit false
set_option relaxedAutoImplicit false

namespace Tollgate

/-! ### Lengths below 32 bits -/

/-- A length that the cast to 32 bits keeps. -/
def Short (bytes : Bytes) : Prop :=
  bytes.length < 2 ^ 32

instance decidableShort (bytes : Bytes) : Decidable (Short bytes) :=
  inferInstanceAs (Decidable (bytes.length < 2 ^ 32))

/-- Both texts of a price have such a length. -/
def MintPrice.Short (price : MintPrice) : Prop :=
  Tollgate.Short (asBytes price.mintUrl) ∧ Tollgate.Short (asBytes price.mintUnit)

instance MintPrice.decidableShort : DecidablePred MintPrice.Short := fun price ↦
  inferInstanceAs (Decidable (Tollgate.Short (asBytes price.mintUrl) ∧
    Tollgate.Short (asBytes price.mintUnit)))

/-- A product with one price for each mint, whose lists and texts are shorter than `2 ^ 32`. -/
structure Plain (prices : List MintPrice) (extensions : Bytes) : Prop where
  count : prices.length < 2 ^ 32
  texts : ∀ price ∈ prices, price.Short
  extensions : Short extensions
  distinct : (prices.map MintPrice.mintUrl).Nodup

theorem beU32_inj {m n : ℕ} (hm : m < 2 ^ 32) (hn : n < 2 ^ 32) (heq : beU32 m = beU32 n) :
    m = n := by
  have hmod : m % 2 ^ 32 = n % 2 ^ 32 := Cbor.mod_eq_of_bigEndian_eq heq
  rwa [Nat.mod_eq_of_lt hm, Nat.mod_eq_of_lt hn] at hmod

/-- A text behind its length ends where it ends. -/
theorem prefixed_append_inj {first second rest rest' : Bytes} (hfirst : Short first)
    (hsecond : Short second)
    (heq : beU32 first.length ++ (first ++ rest) = beU32 second.length ++ (second ++ rest')) :
    first = second ∧ rest = rest' := by
  obtain ⟨hlength, hbody⟩ := List.append_inj heq (by simp [beU32])
  exact List.append_inj hbody (beU32_inj hfirst hsecond hlength)

/-- The same without anything behind it. -/
theorem prefixed_inj {first second : Bytes} (hfirst : Short first) (hsecond : Short second)
    (heq : beU32 first.length ++ first = beU32 second.length ++ second) : first = second := by
  have hempty : beU32 first.length ++ (first ++ []) = beU32 second.length ++ (second ++ []) := by
    rwa [List.append_nil, List.append_nil]
  exact (prefixed_append_inj hfirst hsecond hempty).1

/-! ### Reading a product back -/

/-- A price ends where it ends. -/
theorem MintPrice.hashed_selfDelimiting {prices : List MintPrice}
    (hshort : ∀ price ∈ prices, price.Short) :
    Ties.SelfDelimiting MintPrice.hashed prices := by
  intro first hfirst second hsecond rest rest' heq
  obtain ⟨hurl, hunit⟩ := hshort first hfirst
  obtain ⟨hurl', hunit'⟩ := hshort second hsecond
  have hsame : first.mintUrl = second.mintUrl := by
    unfold MintPrice.hashed at heq
    simp only [List.append_assoc] at heq
    exact asBytes_injective (prefixed_append_inj hurl hurl' heq).1
  obtain ⟨hper, hprice, hmod, hrest⟩ := hashed_append_inj hsame heq
  rw [Nat.mod_eq_of_lt hunit, Nat.mod_eq_of_lt hunit'] at hmod
  obtain ⟨hunits, hrest⟩ := List.append_inj hrest hmod
  refine ⟨?_, hrest⟩
  cases first
  cases second
  simp only [mk.injEq] at *
  exact ⟨hsame, hper, hprice, asBytes_injective hunits⟩

variable {sort other : List MintPrice → List MintPrice} {pricingScale pricingScale' : UInt32}
  {first second : List MintPrice} {extensions extensions' : Bytes}

/-- Assumes: lists and texts shorter than `2 ^ 32`. Equal preimages come from the same scale, the
same extensions and the same sorted prices. -/
theorem productPreimage_parses (hsort : SortsByUrl sort) (hother : SortsByUrl other)
    (hfirst : Plain first extensions) (hsecond : Plain second extensions')
    (heq : productPreimage sort pricingScale first extensions =
      productPreimage other pricingScale' second extensions') :
    pricingScale = pricingScale' ∧ sort first = other second ∧ extensions = extensions' := by
  rw [productPreimage, productPreimage, List.append_cancel_left_eq] at heq
  obtain ⟨hscale, heq⟩ := List.append_inj heq (by simp [beU32])
  obtain ⟨hcount, heq⟩ := List.append_inj heq (by simp [beU32])
  have hlengths : (sort first).length = (other second).length := by
    apply beU32_inj _ _ hcount
    · rw [(hsort.perm first).length_eq]
      exact hfirst.count
    · rw [(hother.perm second).length_eq]
      exact hsecond.count
  have hshort : ∀ price ∈ sort first ++ other second, price.Short := by
    intro price hprice
    rcases List.mem_append.mp hprice with hin | hin
    · exact hfirst.texts price ((hsort.perm first).mem_iff.mp hin)
    · exact hsecond.texts price ((hother.perm second).mem_iff.mp hin)
  obtain ⟨hprices, hrest⟩ :=
    Ties.flatMap_append_inj (MintPrice.hashed_selfDelimiting hshort) hlengths heq
  refine ⟨?_, hprices, prefixed_inj hfirst.extensions hsecond.extensions hrest⟩
  exact UInt32.toNat_inj.mp (beU32_inj pricingScale.toNat_lt pricingScale'.toNat_lt hscale)

/-- Assumes: one price for each mint. The order of declaration and the sort do not show. -/
theorem productPreimage_eq_of_perm (hsort : SortsByUrl sort) (hother : SortsByUrl other)
    (hdistinct : (second.map MintPrice.mintUrl).Nodup)
    (hperm : first.Perm second) :
    productPreimage sort pricingScale first extensions =
      productPreimage other pricingScale second extensions := by
  have hfree : OrderFree pricingScale second extensions := by
    rw [orderFree_iff_sortFree, Ties.sortFree_iff]
    intro one hone another hanother hle hge
    have hurl := urlLe_antisymm_iff.mp ⟨hle, hge⟩
    rw [List.inj_on_of_nodup_map hdistinct hone hanother hurl]
  exact hfree sort other hsort hother first hperm

/-- The same product: one scale, the same extensions, and the same prices in some order. -/
def SameProduct (pricingScale pricingScale' : UInt32) (first second : List MintPrice)
    (extensions extensions' : Bytes) : Prop :=
  pricingScale = pricingScale' ∧ extensions = extensions' ∧ first.Perm second

theorem productPreimage_eq_iff_sameProduct (hsort : SortsByUrl sort) (hother : SortsByUrl other)
    (hfirst : Plain first extensions) (hsecond : Plain second extensions') :
    productPreimage sort pricingScale first extensions =
        productPreimage other pricingScale' second extensions' ↔
      SameProduct pricingScale pricingScale' first second extensions extensions' := by
  constructor
  · intro heq
    obtain ⟨hscale, hsorted, hextensions⟩ :=
      productPreimage_parses hsort hother hfirst hsecond heq
    refine ⟨hscale, hextensions, (hsort.perm first).symm.trans ?_⟩
    rw [hsorted]
    exact hother.perm second
  · rintro ⟨rfl, rfl, hperm⟩
    exact productPreimage_eq_of_perm hsort hother hsecond.distinct hperm

/-! ### Mint options -/

theorem optionPreimage_inj {url unit url' unit' : String} (hurl : Short (asBytes url))
    (hurl' : Short (asBytes url')) (hunit : Short (asBytes unit)) (hunit' : Short (asBytes unit'))
    (heq : optionPreimage url unit = optionPreimage url' unit') : url = url' ∧ unit = unit' := by
  unfold optionPreimage at heq
  rw [List.append_cancel_left_eq] at heq
  obtain ⟨hurls, hrest⟩ := prefixed_append_inj hurl hurl' heq
  exact ⟨asBytes_injective hurls, asBytes_injective (prefixed_inj hunit hunit' hrest)⟩

/-- The byte behind `tollgate/` tells products from mint options. -/
theorem productPreimage_ne_optionPreimage (url unit : String) :
    productPreimage sort pricingScale first extensions ≠ optionPreimage url unit := by
  intro heq
  have hbyte := congrArg (fun bytes : Bytes ↦ bytes[9]?) heq
  have hproduct (rest : Bytes) :
      (asBytes "tollgate/product-id/v1" ++ rest)[9]? = some 112 := by
    rw [List.getElem?_append_left (by decide +kernel)]
    decide +kernel
  have hoption (rest : Bytes) : (asBytes "tollgate/option-id/v1" ++ rest)[9]? = some 111 := by
    rw [List.getElem?_append_left (by decide +kernel)]
    decide +kernel
  simp only [productPreimage, optionPreimage, hproduct, hoption] at hbyte
  exact absurd hbyte (by decide)

/-! ### All fingerprints -/

/-- Assumes: any two algorithms that sort by the bytes of the URL. Two products with short lists and
texts and one price for each mint have the same preimage exactly if they are the same product; two
mint options with short texts have the same preimage only if they are the same option; no product
shares its preimage with an option. Where the hash does not collide on the two preimages, two
products have one id only if they are the same product. -/
theorem fingerprints_unambiguous (hsort : SortsByUrl sort) (hother : SortsByUrl other) :
    (∀ (scale scale' : UInt32) (prices prices' : List MintPrice) (extensions extensions' : Bytes),
      Plain prices extensions → Plain prices' extensions' →
        (productPreimage sort scale prices extensions =
            productPreimage other scale' prices' extensions' ↔
          scale = scale' ∧ extensions = extensions' ∧ prices.Perm prices')) ∧
    (∀ url unit url' unit' : String, Short (asBytes url) → Short (asBytes unit) →
      Short (asBytes url') → Short (asBytes unit') →
        optionPreimage url unit = optionPreimage url' unit' → url = url' ∧ unit = unit') ∧
    (∀ (scale : UInt32) (prices : List MintPrice) (extensions : Bytes) (url unit : String),
      productPreimage sort scale prices extensions ≠ optionPreimage url unit) ∧
    (∀ (sha256 : Bytes → Digest) (scale scale' : UInt32) (prices prices' : List MintPrice)
      (extensions extensions' : Bytes), Plain prices extensions → Plain prices' extensions' →
      (sha256 (productPreimage sort scale prices extensions) =
          sha256 (productPreimage other scale' prices' extensions') →
        productPreimage sort scale prices extensions =
          productPreimage other scale' prices' extensions') →
      ¬ SameProduct scale scale' prices prices' extensions extensions' →
        productId sort scale prices extensions sha256 ≠
          productId other scale' prices' extensions' sha256) := by
  refine ⟨?_, ?_, ?_, ?_⟩
  · intro scale scale' prices prices' extensions extensions' hprices hprices'
    exact productPreimage_eq_iff_sameProduct hsort hother hprices hprices'
  · intro url unit url' unit' hurl hunit hurl' hunit' heq
    exact optionPreimage_inj hurl hurl' hunit hunit' heq
  · intro scale prices extensions url unit
    exact productPreimage_ne_optionPreimage url unit
  · intro sha256 scale scale' prices prices' extensions extensions' hprices hprices' hcollision
      hchanged hid
    apply hchanged
    rw [← productPreimage_eq_iff_sameProduct hsort hother hprices hprices']
    exact hcollision hid

/-- Two mints, in either order, have one preimage. -/
theorem fingerprints_unambiguous_two_mints :
    productPreimage (List.insertionSort MintPrice.urlLe) 1000
        [⟨"https://mint-a", 10, 1, "sat"⟩, ⟨"https://mint-b", 20, 2, "sat"⟩] [] =
      productPreimage (List.insertionSort MintPrice.urlLe) 1000
        [⟨"https://mint-b", 20, 2, "sat"⟩, ⟨"https://mint-a", 10, 1, "sat"⟩] [] := by
  have hfirst : Plain [⟨"https://mint-a", 10, 1, "sat"⟩, ⟨"https://mint-b", 20, 2, "sat"⟩] [] :=
    ⟨by decide +kernel, by decide +kernel, by decide +kernel, by decide +kernel⟩
  have hsecond : Plain [⟨"https://mint-b", 20, 2, "sat"⟩, ⟨"https://mint-a", 10, 1, "sat"⟩] [] :=
    ⟨by decide +kernel, by decide +kernel, by decide +kernel, by decide +kernel⟩
  have hswap := List.Perm.swap (⟨"https://mint-b", 20, 2, "sat"⟩ : MintPrice)
    ⟨"https://mint-a", 10, 1, "sat"⟩ []
  exact ((fingerprints_unambiguous sortsByUrl_insertionSort sortsByUrl_insertionSort).1 1000 1000
    _ _ [] [] hfirst hsecond).mpr ⟨rfl, rfl, hswap⟩

end Tollgate
