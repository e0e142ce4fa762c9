import Tollgate.Net.Config

/-!
# What the mint vouches for

`check_proofs_unspent` of `wallet.rs` against NUT-07. The wallet sends the `C` of each proof where
the mint looks states up by `Y = hash_to_curve(secret)`, and it accepts any response in which no
state is other than `UNSPENT`: it neither counts the states nor looks at which `Y` they are for.

A response is kept with the `Y` of each of its states here; `CheckState.read` forgets it, as the
wallet does. `hash_to_curve` is the cashu crate's, and the wallet does not call it.
-/

set_option autoImplicit false
set_option relaxedAutoImplicit false

namespace Tollgate

open Std

/-- One entry of the `states` of a response. -/
structure ProofState where
  y : Option String
  state : Option String
  deriving DecidableEq

/-- The answer to `POST /v1/checkstate`. -/
inductive CheckState
  | unreachable
  | failure
  | notJson
  | noStates
  | states (states : List ProofState)
  deriving DecidableEq

namespace CheckState

/-- What the wallet reads of an answer: the texts of the states, empty where there is none. -/
def read : CheckState → MintResponse
  | unreachable => .unreachable
  | failure => .failure
  | notJson => .notJson
  | noStates => .noStates
  | states entries => .states (entries.map fun entry ↦ entry.state.getD "")

/-- The entries of an answer. -/
def entries : CheckState → List ProofState
  | states entries => entries
  | unreachable | failure | notJson | noStates => []

/-- The answer says that a `Y` is unspent. -/
def Vouches (response : CheckState) (y : String) : Prop :=
  ∃ entry ∈ response.entries, entry.y = some y ∧ entry.state = some "UNSPENT"

/-- The answer has a state for each proof of a token, and says of each proof's own `Y` that it is
unspent. -/
def Covers (hashToCurve : String → String) (response : CheckState) (token : Token) : Prop :=
  token.proofs.length ≤ response.entries.length ∧
    ∀ proof ∈ token.proofs, response.Vouches (hashToCurve proof.secret)

instance (response : CheckState) (y : String) : Decidable (response.Vouches y) :=
  inferInstanceAs (Decidable (∃ entry ∈ response.entries, _ ∧ _))

instance (hashToCurve : String → String) (response : CheckState) (token : Token) :
    Decidable (response.Covers hashToCurve token) :=
  inferInstanceAs (Decidable (_ ∧ ∀ proof ∈ token.proofs, _))

end CheckState

/-! ### A mint that follows NUT-07 -/

/-- The secrets of the proofs that a mint has seen spent, or that are being spent. -/
structure Mint where
  spent : List String
  pending : List String

namespace Mint

variable (hashToCurve : String → String) (mint : Mint)

/-- The state of a `Y`; one that the mint has never seen is unspent. -/
def stateOf (y : String) : String :=
  if y ∈ mint.spent.map hashToCurve then "SPENT"
  else if y ∈ mint.pending.map hashToCurve then "PENDING"
  else "UNSPENT"

/-- One state for each `Y`, in their order. -/
def checkstate (ys : List String) : CheckState :=
  .states (ys.map fun y ↦ ⟨some y, some (mint.stateOf hashToCurve y)⟩)

/-- The mint's answer to what the wallet asks about a token. -/
def answer (crates : Crates) (text : String) : CheckState :=
  mint.checkstate hashToCurve ((crates.parse text).elim [] tokenProofYs)

end Mint

/-! ### Accepting a token -/

namespace BootstrapWallet

variable (crates : Crates) (wallet : BootstrapWallet) (text : String)

/-- The token passes everything that is checked before the mint is asked. -/
def Presentable : Prop :=
  ∃ token amountSat, parseToken crates text = .ok token ∧ wallet.checkLocal token = .ok () ∧
    wallet.appraise crates token = .ok amountSat

variable {crates wallet text}

/-- No state of the response is other than `UNSPENT`. -/
theorem checkProofsUnspent_eq_ok_iff {response : CheckState} :
    checkProofsUnspent response.read = .ok () ↔
      ∃ entries, response = .states entries ∧ ∀ entry ∈ entries, entry.state = some "UNSPENT" := by
  cases response with
  | states entries =>
    simp only [CheckState.read, checkProofsUnspent, CheckState.states.injEq, exists_eq_left']
    cases hother : (entries.map fun entry ↦ entry.state.getD "").find? fun state ↦
        decide (state ≠ "UNSPENT") with
    | some state =>
      refine iff_of_false (by simp) fun hall ↦ ?_
      obtain ⟨entry, hentry, hstate⟩ := List.mem_map.mp (List.mem_of_find?_eq_some hother)
      have hunlike := List.find?_some hother
      rw [← hstate, hall entry hentry] at hunlike
      exact absurd hunlike (by decide)
    | none =>
      refine iff_of_true rfl fun entry hentry ↦ ?_
      have hunspent := List.find?_eq_none.mp hother _ (List.mem_map_of_mem hentry)
      simp only [ne_eq, decide_not, Bool.not_eq_true', decide_eq_false_iff_not, not_not]
        at hunspent
      cases hstate : entry.state with
      | none =>
        rw [hstate] at hunspent
        exact absurd hunspent (by decide)
      | some state =>
        rw [hstate] at hunspent
        exact congrArg some hunspent
  | _ => simp [CheckState.read, checkProofsUnspent]

/-- A token is accepted when it passes everything before the mint is asked and the response has no
other state. -/
theorem verify_eq_ok_iff {response : CheckState} :
    (∃ amount, wallet.verify crates none text response.read = .ok amount) ↔
      wallet.Presentable crates text ∧ checkProofsUnspent response.read = .ok () := by
  unfold verify verifiedSat Presentable
  cases parseToken crates text with
  | error error => simp [bind, Except.bind, Except.map]
  | ok token =>
    cases hlocal : wallet.checkLocal token with
    | error error => simp [hlocal, bind, Except.bind, Except.map]
    | ok _ =>
      cases hvalue : wallet.appraise crates token with
      | error error => simp [hlocal, hvalue, bind, Except.bind, Except.map]
      | ok amountSat =>
        cases checkProofsUnspent response.read with
        | error error => simp [hlocal, hvalue, bind, Except.bind, Except.map]
        | ok _ => simp [hlocal, hvalue, bind, Except.bind, Except.map]

/-- A presentable token is one that parses, and has proofs. -/
theorem Presentable.exists_token (hpresentable : wallet.Presentable crates text) :
    ∃ token, crates.parse text = some token ∧ token.proofs ≠ [] := by
  obtain ⟨token, amountSat, hparse, -, -⟩ := hpresentable
  unfold parseToken at hparse
  cases htoken : crates.parse text with
  | none =>
    rw [htoken] at hparse
    exact absurd hparse (by simp)
  | some parsed =>
    rw [htoken] at hparse
    simp only at hparse
    split_ifs at hparse with hnone
    refine ⟨parsed, rfl, fun hempty ↦ hnone ?_⟩
    cases parsed with
    | tokenV3 entries => simpa [tokenProofYs, Token.proofs] using hempty
    | tokenV4 entries => simpa [tokenProofYs, Token.proofs] using hempty

end BootstrapWallet

/-- The wallet asks about as many texts as the token has proofs. -/
theorem length_tokenProofYs (token : Token) :
    (tokenProofYs token).length = token.proofs.length := by
  cases token with
  | tokenV3 entries => simp [tokenProofYs, Token.proofs, List.length_flatMap, List.length_flatten]
  | tokenV4 entries => simp [tokenProofYs, Token.proofs, List.length_flatMap, List.length_flatten]

/-- A call that returns an error has put nothing in the spent set. -/
theorem spentYvalues_of_error {crates : Crates} {wallet : BootstrapWallet} {text : String}
    {response : MintResponse} {error : String}
    (herror : wallet.verify crates none text response = .error error) (written : String → Bool) :
    ((Wallets.machine crates).final ⟨wallet, ∅⟩
      (verifySteps text response written)).wallet.spentYvalues = wallet.spentYvalues := by
  unfold BootstrapWallet.verify BootstrapWallet.verifiedSat at herror
  simp only [verifySteps, Transducer.final, Wallets.machine]
  cases hparse : BootstrapWallet.parseToken crates text with
  | error error => simp [Wallets.step, Wallets.resume, hparse, bind, Except.bind]
  | ok token =>
    cases hlocal : wallet.checkLocal token with
    | error error =>
      simp [Wallets.step, Wallets.resume, hparse, hlocal, bind, Except.bind, pure, Except.pure]
    | ok _ =>
      cases hvalue : wallet.appraise crates token with
      | error error =>
        simp [Wallets.step, Wallets.resume, hparse, hlocal, hvalue, bind, Except.bind, pure,
          Except.pure]
      | ok amountSat =>
        cases hmint : BootstrapWallet.checkProofsUnspent response with
        | error error =>
          simp [Wallets.step, Wallets.resume, hparse, hlocal, hvalue, hmint, bind, Except.bind,
            pure, Except.pure]
        | ok _ =>
          simp [hparse, hlocal, hvalue, hmint, Except.map, bind, Except.bind] at herror

/-! ### Whether the mint has vouched for what is accepted -/

section Vouched

variable (crates : Crates) (hashToCurve : String → String) (wallet : BootstrapWallet)
  (text : String)

/-- A token that parses is accepted only if the response covers it, and is refused otherwise with
the spent set as it was. -/
structure Vouched (response : CheckState) : Prop where
  accepted : ∀ token amount, crates.parse text = some token →
    wallet.verify crates none text response.read = .ok amount → response.Covers hashToCurve token
  refused : ∀ token, crates.parse text = some token → ¬ response.Covers hashToCurve token →
    (∃ error, wallet.verify crates none text response.read = .error error) ∧
      ∀ written, ((Wallets.machine crates).final ⟨wallet, ∅⟩
        (verifySteps text response.read written)).wallet.spentYvalues = wallet.spentYvalues

variable {crates hashToCurve wallet text}

/-- What is refused is refused with the spent set as it was, so that acceptance decides. -/
theorem vouched_iff {response : CheckState} :
    Vouched crates hashToCurve wallet text response ↔
      (wallet.Presentable crates text →
        BootstrapWallet.checkProofsUnspent response.read = .ok () →
        ∀ token, crates.parse text = some token → response.Covers hashToCurve token) := by
  constructor
  · intro hvouched hpresentable hunspent token htoken
    obtain ⟨amount, hok⟩ := BootstrapWallet.verify_eq_ok_iff.mpr ⟨hpresentable, hunspent⟩
    exact hvouched.accepted token amount htoken hok
  · intro hcovers
    have haccepted (token : Token) (amount : UInt64) (htoken : crates.parse text = some token)
        (hok : wallet.verify crates none text response.read = .ok amount) :
        response.Covers hashToCurve token := by
      obtain ⟨hpresentable, hunspent⟩ := BootstrapWallet.verify_eq_ok_iff.mp ⟨amount, hok⟩
      exact hcovers hpresentable hunspent token htoken
    refine ⟨haccepted, fun token htoken hnot ↦ ?_⟩
    cases hverify : wallet.verify crates none text response.read with
    | error error => exact ⟨⟨error, rfl⟩, spentYvalues_of_error hverify⟩
    | ok amount => exact absurd (haccepted token amount htoken hverify) hnot

/-- A response without states is accepted and covers no token. -/
theorem not_vouched_empty (hpresentable : wallet.Presentable crates text) :
    ¬ Vouched crates hashToCurve wallet text (.states []) := by
  intro hvouched
  obtain ⟨token, htoken, hproofs⟩ := hpresentable.exists_token
  have hcovers := vouched_iff.mp hvouched hpresentable rfl token htoken
  exact hproofs (List.eq_nil_of_length_eq_zero (Nat.le_zero.mp hcovers.1))

/-- Assumes: a token that parses. A mint's answer covers it when each proof's own `Y` is among what
the wallet asks about and no state is other than `UNSPENT`. -/
theorem covers_answer_iff {token : Token} (htoken : crates.parse text = some token) {mint : Mint}
    (hunspent : BootstrapWallet.checkProofsUnspent (mint.answer hashToCurve crates text).read =
      .ok ()) :
    (mint.answer hashToCurve crates text).Covers hashToCurve token ↔
      ∀ proof ∈ token.proofs, hashToCurve proof.secret ∈ tokenProofYs token := by
  have hanswer : mint.answer hashToCurve crates text = .states ((tokenProofYs token).map fun y ↦
      ⟨some y, some (mint.stateOf hashToCurve y)⟩) := by
    rw [Mint.answer, htoken]
    rfl
  rw [BootstrapWallet.checkProofsUnspent_eq_ok_iff, hanswer] at hunspent
  obtain ⟨entries, hentries, hall⟩ := hunspent
  obtain rfl := CheckState.states.inj hentries
  have hlength : token.proofs.length ≤ ((tokenProofYs token).map fun y ↦
      (⟨some y, some (mint.stateOf hashToCurve y)⟩ : ProofState)).length := by
    rw [List.length_map, length_tokenProofYs]
  rw [hanswer, CheckState.Covers, CheckState.entries, and_iff_right hlength]
  refine forall₂_congr fun proof _ ↦ ?_
  constructor
  · rintro ⟨entry, hentry, hown, -⟩
    obtain ⟨y, hy, rfl⟩ := List.mem_map.mp hentry
    rwa [← Option.some.inj hown]
  · intro hasked
    have hentry := List.mem_map_of_mem (f := fun y ↦
      (⟨some y, some (mint.stateOf hashToCurve y)⟩ : ProofState)) hasked
    exact ⟨_, hentry, rfl, hall _ hentry⟩

end Vouched

/-- For every token: whatever mint that follows NUT-07 is asked, it has vouched for what is accepted
exactly when the token does not get as far or each proof's own `Y` is among the `C`s of the token;
and whatever the response, exactly when the token does not get as far. -/
theorem mint_vouches_iff (crates : Crates) (hashToCurve : String → String)
    (wallet : BootstrapWallet) (text : String) :
    ((∀ mint : Mint, Vouched crates hashToCurve wallet text (mint.answer hashToCurve crates text)) ↔
      ¬ wallet.Presentable crates text ∨
        ∀ token, crates.parse text = some token →
          ∀ proof ∈ token.proofs, hashToCurve proof.secret ∈ tokenProofYs token) ∧
    ((∀ response, Vouched crates hashToCurve wallet text response) ↔
      ¬ wallet.Presentable crates text) := by
  refine ⟨⟨fun hall ↦ ?_, fun hcondition mint ↦ vouched_iff.mpr ?_⟩,
    ⟨fun hall hpresentable ↦ ?_, fun hnot response ↦ vouched_iff.mpr ?_⟩⟩
  · by_cases hpresentable : wallet.Presentable crates text
    · refine Or.inr fun token htoken ↦ ?_
      -- A mint that has seen nothing finds every text unspent.
      have hfresh : BootstrapWallet.checkProofsUnspent
          ((⟨[], []⟩ : Mint).answer hashToCurve crates text).read = .ok () := by
        rw [BootstrapWallet.checkProofsUnspent_eq_ok_iff]
        refine ⟨_, rfl, fun entry hentry ↦ ?_⟩
        obtain ⟨y, -, rfl⟩ := List.mem_map.mp hentry
        simp [Mint.stateOf]
      rw [← covers_answer_iff htoken hfresh]
      exact vouched_iff.mp (hall ⟨[], []⟩) hpresentable hfresh token htoken
    · exact Or.inl hpresentable
  · intro hpresentable hunspent token htoken
    rw [covers_answer_iff htoken hunspent]
    exact hcondition.resolve_left (not_not.mpr hpresentable) token htoken
  · exact not_vouched_empty hpresentable (hall (.states []))
  · exact fun hpresentable ↦ absurd hpresentable hnot

/-- `hash_to_curve` on the secret of the sample token. -/
def sampleHashToCurve (secret : String) : String :=
  if secret = "95535745b463368d595d0ea2d53cf054b6dcfae6468e9e47e5075ae79df6e287" then
    "0268cee2852330f81aeadbe6553aacb8c2f1d019027d919f7824505c986d213ee3"
  else ""

/-- The mint has seen the sample token spent, and the wallet accepts it; and it accepts the token on
a response without any states. -/
theorem spent_token_accepted :
    ¬ Vouched Wallets.sampleCrates sampleHashToCurve
      (BootstrapWallet.withSpentFile ["https://testnut.cashu.space/"] none) Wallets.sampleText
      ((⟨["95535745b463368d595d0ea2d53cf054b6dcfae6468e9e47e5075ae79df6e287"], []⟩ : Mint).answer
        sampleHashToCurve Wallets.sampleCrates Wallets.sampleText) ∧
    ¬ Vouched Wallets.sampleCrates sampleHashToCurve
      (BootstrapWallet.withSpentFile ["https://testnut.cashu.space/"] none) Wallets.sampleText
      (.states []) := by
  have hparse : Wallets.sampleCrates.parse Wallets.sampleText = some Wallets.sampleCashu := by
    simp [Wallets.sampleCrates]
  constructor
  · intro hvouched
    have hcovers := hvouched.accepted Wallets.sampleCashu 1000 hparse (by decide +kernel)
    exact absurd hcovers (by decide +kernel)
  · intro hvouched
    have hcovers := hvouched.accepted Wallets.sampleCashu 1000 hparse (by decide +kernel)
    exact absurd hcovers (by decide +kernel)

end Tollgate
