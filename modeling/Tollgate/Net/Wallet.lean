import Tollgate.Library.Claims
import Tollgate.Library.Transducer
import Tollgate.Protocol.Message

/-!
# The bootstrap wallet

`wallet.rs` without a wallet repository: `verify` parses a token, looks its proofs up in the local
spent set, asks the mint about them, puts them in the spent set, appends them to the spent file and
returns what the token is worth. The set is locked for the look and for the insertion, and not in
between, so the steps of different calls interleave.

The cashu and url crates are the parameter `Crates`. A proof is identified by its secret; the wallet
keys its set by the proof's `C`, which the sender supplies.
-/

set_option autoImplicit false
set_option relaxedAutoImplicit false

namespace Tollgate

open Std

/-! ### Tokens -/

/-- One proof of a token: the secret that identifies it, the mint's signature on it, and what it is
worth. -/
structure Proof where
  secret : String
  c : PublicKey
  amount : UInt64

/-- A parsed token, in one of its two serialisations: the proofs of each of its entries. -/
inductive Token
  | tokenV3 (entries : List (List Proof))
  | tokenV4 (entries : List (List Proof))

/-- Every proof of a token. -/
def Token.proofs : Token → List Proof
  | .tokenV3 entries => entries.flatten
  | .tokenV4 entries => entries.flatten

/-- The secrets of a token's proofs. -/
def Token.secrets (token : Token) : List String :=
  token.proofs.map Proof.secret

/-- What the proofs of a token are worth together. -/
def Token.worth (token : Token) : ℕ :=
  (token.proofs.map fun proof ↦ proof.amount.toNat).sum

/-- A digit of a key's text. -/
def hexDigit (digit : ℕ) : Char :=
  "0123456789abcdef".toList.getD digit '0'

/-- A key as text: two digits a byte. -/
def keyText (key : PublicKey) : String :=
  String.ofList (key.toList.flatMap fun byte ↦
    [hexDigit (byte.toNat / 16), hexDigit (byte.toNat % 16)])

/-- The `C` of every proof, as text. -/
def tokenProofYs (token : Token) : List String :=
  match token with
  | .tokenV3 entries => entries.flatMap fun proofs ↦ proofs.map fun proof ↦ keyText proof.c
  | .tokenV4 entries => entries.flatMap fun proofs ↦ proofs.map fun proof ↦ keyText proof.c

/-- A parsed address of a mint. -/
structure Url where
  scheme : String
  host : Option String
  port : Option UInt16
  path : String

/-- What the wallet uses of the cashu and url crates. -/
structure Crates where
  parse : String → Option Token
  mintUrl : Token → Option String
  value : Token → Option UInt64
  parseUrl : String → Option Url

/-- A token's value is what its proofs are worth together. -/
def Crates.Sums (crates : Crates) : Prop :=
  ∀ token amount, crates.value token = some amount → amount.toNat = token.worth

/-- A text without the slashes at its end. -/
def trimSlashes (text : String) : String :=
  String.ofList (text.toList.reverse.dropWhile fun char ↦ decide (char = '/')).reverse

/-- The characters that count as white space. -/
def isWhiteSpace (char : Char) : Bool :=
  decide (0x09 ≤ char.toNat ∧ char.toNat ≤ 0x0d) ||
    decide (0x2000 ≤ char.toNat ∧ char.toNat ≤ 0x200a) ||
    decide (char.toNat ∈ [0x20, 0x85, 0xa0, 0x1680, 0x2028, 0x2029, 0x202f, 0x205f, 0x3000])

/-- A text without the white space around it. -/
def trim (text : String) : String :=
  String.ofList ((text.toList.dropWhile isWhiteSpace).reverse.dropWhile isWhiteSpace).reverse

/-- A text without white space at its ends is left as it is. -/
theorem trim_eq_self {text : String} {first last : Char} {middle : List Char}
    (htext : text.toList = first :: (middle ++ [last])) (hfirst : isWhiteSpace first = false)
    (hlast : isWhiteSpace last = false) : trim text = text := by
  have hopens : ¬ isWhiteSpace first = true := by simp [hfirst]
  have hends : ¬ isWhiteSpace last = true := by simp [hlast]
  rw [trim, htext, List.dropWhile_cons_of_neg hopens, ← List.cons_append, List.reverse_append,
    List.reverse_singleton, List.singleton_append, List.dropWhile_cons_of_neg hends,
    ← List.singleton_append, ← List.reverse_singleton, ← List.reverse_append,
    List.reverse_reverse, List.cons_append, ← htext, String.ofList_toList]

/-- One spelling for each mint: no slash at the end, the host in lower case, no default port. The
host of a parsed address is ASCII. -/
def normalizeMintUrl (crates : Crates) (url : String) : String :=
  let trimmed := trimSlashes url
  match crates.parseUrl trimmed with
  | some parsed =>
    let host := (parsed.host.getD "").toLower
    let path := trimSlashes parsed.path
    match parsed.port with
    | some port =>
      if (parsed.scheme = "https" ∧ port = 443) ∨ (parsed.scheme = "http" ∧ port = 80) then
        parsed.scheme ++ "://" ++ host ++ path
      else parsed.scheme ++ "://" ++ host ++ ":" ++ toString port.toNat ++ path
    | none => parsed.scheme ++ "://" ++ host ++ path
  | none => trimmed

/-! ### The wallet -/

/-- What the mint says about the proofs it is asked about. -/
inductive MintResponse
  | unreachable
  | failure
  | notJson
  | noStates
  | states (states : List String)

/-- The accepted mints, the spent set, and the lines of the spent file if there is one. -/
structure BootstrapWallet where
  acceptedMints : List String
  spentYvalues : Finset String
  spentFile : Option (List String)

namespace BootstrapWallet

variable (crates : Crates) (wallet : BootstrapWallet)

/-- The spent set that a file's lines give. -/
def loadSpentFile (lines : List String) : Finset String :=
  ((lines.map trim).filter fun line ↦ decide (line ≠ "")).toFinset

/-- A wallet that starts with the spent file it finds. -/
def withSpentFile (mintUrls : List String) (spentFile : Option (List String)) :
    BootstrapWallet where
  acceptedMints := mintUrls
  spentYvalues := spentFile.elim ∅ loadSpentFile
  spentFile := spentFile

/-- Append to the spent file the lines that it takes; a line that it does not take is dropped
silently. -/
def persistYvalues (ys : List String) (written : String → Bool) : BootstrapWallet :=
  { wallet with spentFile := wallet.spentFile.map fun lines ↦ lines ++ ys.filter written }

/-- Put proofs in the spent set. -/
def insertYvalues (ys : List String) : BootstrapWallet :=
  { wallet with spentYvalues := wallet.spentYvalues ∪ ys.toFinset }

/-- A token with at least one proof. -/
def parseToken (text : String) : Except String Token :=
  match crates.parse text with
  | some token =>
    if tokenProofYs token = [] then .error "token contains no proofs" else .ok token
  | none => .error "invalid Cashu token"

/-- No proof of the token is in the spent set. -/
def checkLocal (token : Token) : Except String Unit :=
  match (tokenProofYs token).find? fun y ↦ decide (y ∈ wallet.spentYvalues) with
  | some y => .error ("proof already spent locally (double-spend detected): " ++ y)
  | none => .ok ()

/-- The token is of an accepted mint; its value. Without a list of mints every mint is. -/
def appraise (token : Token) : Except String UInt64 :=
  match crates.mintUrl token with
  | some url =>
    if wallet.acceptedMints ≠ [] ∧
        ∀ mint ∈ wallet.acceptedMints,
          normalizeMintUrl crates mint ≠ normalizeMintUrl crates url then
      .error ("mint " ++ url ++ " not accepted")
    else
      match crates.value token with
      | some amount => .ok amount
      | none => .error "could not sum token value"
  | none => .error "token has no mint URL"

/-- Every state that the mint names is `UNSPENT`. -/
def checkProofsUnspent : MintResponse → Except String Unit
  | .unreachable => .error "mint check-state request failed"
  | .failure => .error "mint returned error"
  | .notJson => .error "mint response not JSON"
  | .noStates => .error "mint response missing 'states'"
  | .states states =>
    match states.find? fun state ↦ decide (state ≠ "UNSPENT") with
    | some state => .error ("one or more proofs are already spent (state: " ++ state ++ ")")
    | none => .ok ()

end BootstrapWallet

/-! ### Calls in flight -/

/-- How far a call has come, with the value of its token once it is known. -/
inductive Stage
  | parsed
  | checked
  | cleared (amountSat : UInt64)
  | inserted (amountSat : UInt64)
  deriving DecidableEq

/-- The token has been looked up and not yet inserted. -/
def Stage.uncommitted : Stage → Bool
  | .checked | .cleared _ => true
  | .parsed | .inserted _ => false

/-- The token has been inserted. -/
def Stage.committed : Stage → Bool
  | .inserted _ => true
  | .parsed | .checked | .cleared _ => false

/-- A call of `verify` in flight. -/
structure Verification where
  text : String
  token : Token
  stage : Stage

/-- The wallet and the calls on it. -/
structure Wallets where
  wallet : BootstrapWallet
  calls : ExtTreeMap ℕ Verification

/-- What a call was given and what it returned. -/
structure Returned where
  text : String
  result : Except String UInt64

/-- One step of one call, with what it hears from outside, or a restart of the process. -/
inductive WalletStep
  | verify (call : ℕ) (text : String)
  | checkLocal (call : ℕ)
  | checkMint (call : ℕ) (response : MintResponse)
  | insert (call : ℕ)
  | persist (call : ℕ) (written : String → Bool)
  | restart

namespace Wallets

variable (crates : Crates) (wallets : Wallets)

/-- A call goes on, or returns its error. -/
def resume (call : ℕ) (text : String) (outcome : Except String Verification) :
    Wallets × List Returned :=
  match outcome with
  | .ok next => ({ wallets with calls := wallets.calls.insert call next }, [])
  | .error error => ({ wallets with calls := wallets.calls.erase call }, [⟨text, .error error⟩])

/-- One step. A step that its call is not ready for does nothing. -/
def step : WalletStep → Wallets × List Returned
  | .verify call text =>
    match wallets.calls[call]? with
    | none =>
      wallets.resume call text do
        let token ← BootstrapWallet.parseToken crates text
        pure ⟨text, token, .parsed⟩
    | some _ => (wallets, [])
  | .checkLocal call =>
    match wallets.calls[call]? with
    | some ⟨text, token, .parsed⟩ =>
      wallets.resume call text do
        wallets.wallet.checkLocal token
        pure ⟨text, token, .checked⟩
    | _ => (wallets, [])
  | .checkMint call response =>
    match wallets.calls[call]? with
    | some ⟨text, token, .checked⟩ =>
      wallets.resume call text do
        let amountSat ← wallets.wallet.appraise crates token
        BootstrapWallet.checkProofsUnspent response
        pure ⟨text, token, .cleared amountSat⟩
    | _ => (wallets, [])
  | .insert call =>
    match wallets.calls[call]? with
    | some ⟨text, token, .cleared amountSat⟩ =>
      (⟨wallets.wallet.insertYvalues (tokenProofYs token),
        wallets.calls.insert call ⟨text, token, .inserted amountSat⟩⟩, [])
    | _ => (wallets, [])
  | .persist call written =>
    match wallets.calls[call]? with
    | some ⟨text, token, .inserted amountSat⟩ =>
      (⟨wallets.wallet.persistYvalues (tokenProofYs token) written, wallets.calls.erase call⟩,
        [⟨text, .ok (amountSat * 1000)⟩])
    | _ => (wallets, [])
  | .restart =>
    (⟨BootstrapWallet.withSpentFile wallets.wallet.acceptedMints wallets.wallet.spentFile, ∅⟩, [])

/-- The calls on a wallet as a machine over their steps; what it emits is what they return. -/
def machine : Transducer Wallets WalletStep Returned where
  step := Wallets.step crates

end Wallets

/-- The token that a call was paid for. -/
def Returned.credited (crates : Crates) (returned : Returned) : Option Token :=
  match returned.result with
  | .ok _ => crates.parse returned.text
  | .error _ => none

/-- The amount that a call returned. -/
def Returned.amount (returned : Returned) : ℕ :=
  match returned.result with
  | .ok amount => amount.toNat
  | .error _ => 0

/-- The tokens that calls were paid for. -/
def creditedTokens (crates : Crates) (returned : List Returned) : List Token :=
  returned.filterMap (Returned.credited crates)

/-- The secrets of every proof that was paid for, as often as it was. -/
def creditedSecrets (crates : Crates) (returned : List Returned) : List String :=
  (creditedTokens crates returned).flatMap Token.secrets

/-- The tokens that a run hands to the wallet. -/
def presented (crates : Crates) (steps : List WalletStep) : List Token :=
  steps.filterMap fun step ↦
    match step with
    | .verify _ text => crates.parse text
    | _ => none

namespace Wallets

/-- The call looks its token up while another call that has looked up one of the same `C`s has not
yet inserted it. -/
def Races (wallets : Wallets) : WalletStep → Prop
  | .checkLocal call =>
    ∃ own ∈ wallets.calls[call]?, own.stage = .parsed ∧ ∃ entry ∈ wallets.calls.toList,
      entry.2.stage.uncommitted = true ∧
        ∃ y ∈ tokenProofYs entry.2.token, y ∈ tokenProofYs own.token
  | _ => False

instance (wallets : Wallets) : DecidablePred wallets.Races
  | .checkLocal _ => inferInstanceAs (Decidable (∃ _ ∈ _, _))
  | .verify _ _ | .checkMint _ _ | .insert _ | .persist _ _ | .restart => instDecidableFalse

/-! ### The calls as claims on keys -/

/-- The calls as claims on the texts of their `C`s, over the tokens paid for so far. -/
def claims (wallets : Wallets) (past : List Token) : Claims ℕ String where
  recorded := {y | y ∈ wallets.wallet.spentYvalues}
  settled := {y | ∃ token ∈ past, y ∈ tokenProofYs token}
  claim call := {y | ∃ own, wallets.calls[call]? = some own ∧ own.stage ≠ .parsed ∧
    y ∈ tokenProofYs own.token}
  committed := {call | ∃ own, wallets.calls[call]? = some own ∧ own.stage.committed = true}

section Claims

variable {wallets : Wallets} {past : List Token} {call : ℕ}

theorem getElem?_insert_call (calls : ExtTreeMap ℕ Verification) (call : ℕ) (next : Verification)
    (other : ℕ) : (calls.insert call next)[other]? =
      if other = call then some next else calls[other]? := by
  rw [ExtTreeMap.getElem?_insert]
  simp only [Nat.compare_eq_eq, @eq_comm _ other call]

theorem getElem?_erase_call (calls : ExtTreeMap ℕ Verification) (call other : ℕ) :
    (calls.erase call)[other]? = if other = call then none else calls[other]? := by
  rw [ExtTreeMap.getElem?_erase]
  simp only [Nat.compare_eq_eq, @eq_comm _ other call]

/-- A call that returns drops its claim. -/
theorem claims_erase (wallet : BootstrapWallet)
    (hspent : wallet.spentYvalues = wallets.wallet.spentYvalues) :
    (⟨wallet, wallets.calls.erase call⟩ : Wallets).claims past =
      (wallets.claims past).take call ∅ := by
  refine Claims.ext ?_ rfl ?_ ?_
  · simp only [claims, hspent]
    rfl
  · funext other
    by_cases hother : other = call
    · simp [claims, Claims.take, getElem?_erase_call, hother]
    · simp [claims, Claims.take, getElem?_erase_call, hother]
  · ext other
    by_cases hother : other = call
    · simp [claims, Claims.take, getElem?_erase_call, hother]
    · simp [claims, Claims.take, getElem?_erase_call, hother]

/-- A call that goes on, and has not inserted its token, claims the token it has looked up. -/
theorem claims_insert {next : Verification} (huncommitted : next.stage.committed = false) :
    (⟨wallets.wallet, wallets.calls.insert call next⟩ : Wallets).claims past =
      (wallets.claims past).take call
        {y | next.stage ≠ .parsed ∧ y ∈ tokenProofYs next.token} := by
  refine Claims.ext rfl rfl ?_ ?_
  · funext other
    by_cases hother : other = call
    · simp [claims, Claims.take, getElem?_insert_call, hother]
    · simp [claims, Claims.take, getElem?_insert_call, hother]
  · ext other
    by_cases hother : other = call
    · simp [claims, Claims.take, getElem?_insert_call, hother, huncommitted]
    · simp [claims, Claims.take, getElem?_insert_call, hother]

/-- Assumes: a call that has looked its token up. The mint's answer leaves its claim as it is. -/
theorem claims_cleared {text : String} {token : Token}
    (hown : wallets.calls[call]? = some ⟨text, token, .checked⟩) (amountSat : UInt64) :
    (⟨wallets.wallet, wallets.calls.insert call ⟨text, token, .cleared amountSat⟩⟩ :
      Wallets).claims past = wallets.claims past := by
  refine Claims.ext rfl rfl ?_ ?_
  · funext other
    by_cases hother : other = call
    · simp [claims, getElem?_insert_call, hother, hown]
    · simp [claims, getElem?_insert_call, hother]
  · ext other
    by_cases hother : other = call
    · simp [claims, getElem?_insert_call, hother, hown, Stage.committed]
    · simp [claims, getElem?_insert_call, hother]

/-- Assumes: a call that the mint has answered. Its insertion commits it. -/
theorem claims_inserted {text : String} {token : Token} {amountSat : UInt64}
    (hown : wallets.calls[call]? = some ⟨text, token, .cleared amountSat⟩) :
    (⟨wallets.wallet.insertYvalues (tokenProofYs token),
      wallets.calls.insert call ⟨text, token, .inserted amountSat⟩⟩ : Wallets).claims past =
        (wallets.claims past).commit call := by
  refine Claims.ext ?_ rfl ?_ ?_
  · ext y
    simp [claims, Claims.commit, BootstrapWallet.insertYvalues, hown]
  · funext other
    by_cases hother : other = call
    · simp [claims, Claims.commit, getElem?_insert_call, hother, hown]
    · simp [claims, Claims.commit, getElem?_insert_call, hother]
  · ext other
    by_cases hother : other = call
    · simp [claims, Claims.commit, getElem?_insert_call, hother, Stage.committed]
    · simp [claims, Claims.commit, getElem?_insert_call, hother]

/-- Assumes: a call that has inserted its token. It settles when it is paid for. -/
theorem claims_persisted {text : String} {token : Token} {amountSat : UInt64}
    (hown : wallets.calls[call]? = some ⟨text, token, .inserted amountSat⟩)
    (written : String → Bool) :
    (⟨wallets.wallet.persistYvalues (tokenProofYs token) written, wallets.calls.erase call⟩ :
      Wallets).claims (past ++ [token]) = (wallets.claims past).settle call := by
  have herase := @claims_erase wallets past call
    (wallets.wallet.persistYvalues (tokenProofYs token) written) rfl
  have hrecorded := congrArg Claims.recorded herase
  have hclaim := congrArg Claims.claim herase
  have hcommitted := congrArg Claims.committed herase
  refine Claims.ext hrecorded ?_ hclaim hcommitted
  ext y
  simp [claims, Claims.settle, hown, or_and_right, exists_or]

end Claims

/-! ### One step -/

section Step

variable {crates : Crates} {tokens : List Token}

theorem parse_of_parseToken {text : String} {token : Token}
    (hok : BootstrapWallet.parseToken crates text = .ok token) :
    crates.parse text = some token := by
  unfold BootstrapWallet.parseToken at hok
  cases hparse : crates.parse text with
  | none =>
    rw [hparse] at hok
    exact absurd hok (by simp)
  | some parsed =>
    rw [hparse] at hok
    simp only at hok
    split_ifs at hok
    rw [Except.ok.inj hok]

theorem fresh_of_checkLocal {wallet : BootstrapWallet} {token : Token}
    (hok : wallet.checkLocal token = .ok ()) :
    ∀ y ∈ tokenProofYs token, y ∉ wallet.spentYvalues := by
  unfold BootstrapWallet.checkLocal at hok
  split at hok
  · exact absurd hok (by simp)
  · rename_i hnone
    intro y hy
    simpa using List.find?_eq_none.mp hnone y hy

theorem value_of_appraise {wallet : BootstrapWallet} {token : Token} {amountSat : UInt64}
    (hok : wallet.appraise crates token = .ok amountSat) :
    crates.value token = some amountSat := by
  unfold BootstrapWallet.appraise at hok
  cases hurl : crates.mintUrl token with
  | none =>
    rw [hurl] at hok
    exact absurd hok (by simp)
  | some url =>
    rw [hurl] at hok
    simp only at hok
    split_ifs at hok
    cases hvalue : crates.value token with
    | none =>
      rw [hvalue] at hok
      exact absurd hok (by simp)
    | some amount =>
      rw [hvalue] at hok
      rw [Except.ok.inj hok]

/-- What is true of a call in flight: it was given its token, and it has its token's value. -/
def Known (crates : Crates) (tokens : List Token) (own : Verification) : Prop :=
  crates.parse own.text = some own.token ∧ own.token ∈ tokens ∧
    ∀ amountSat, own.stage = .cleared amountSat ∨ own.stage = .inserted amountSat →
      crates.value own.token = some amountSat

/-- What holds between steps, over the tokens paid for so far: the claims are sound, no secret was
paid for twice, and a wallet that is durable has on file what was paid for. -/
structure Guarded (crates : Crates) (tokens : List Token) (durable : Prop) (wallets : Wallets)
    (past : List Token) : Prop where
  sound : (wallets.claims past).Sound
  known : ∀ (call : ℕ) own, wallets.calls[call]? = some own → Known crates tokens own
  offered : ∀ token ∈ past, token ∈ tokens
  filed : durable → ∃ lines, wallets.wallet.spentFile = some lines ∧
    ∀ token ∈ past, ∀ y ∈ tokenProofYs token, y ∈ lines
  distinct : (past.flatMap Token.secrets).Nodup

/-- Nobody is paid more than the proofs of the token are worth. -/
def Fair (crates : Crates) (returned : List Returned) : Prop :=
  ∀ one ∈ returned, one.amount ≤ 1000 * (one.credited crates).elim 0 Token.worth

variable {durable : Prop} {wallets : Wallets} {past : List Token} {call : ℕ}

/-- Assumes: a call that goes on soundly. -/
theorem Guarded.insert (hguarded : Guarded crates tokens durable wallets past)
    {wallet : BootstrapWallet} (hfile : wallet.spentFile = wallets.wallet.spentFile)
    {next : Verification}
    (hsound : ((⟨wallet, wallets.calls.insert call next⟩ : Wallets).claims past).Sound)
    (hknown : Known crates tokens next) :
    Guarded crates tokens durable ⟨wallet, wallets.calls.insert call next⟩ past := by
  refine ⟨hsound, ?_, hguarded.offered, ?_, hguarded.distinct⟩
  · intro other own hown
    rw [getElem?_insert_call] at hown
    split_ifs at hown
    · rw [← Option.some.inj hown]
      exact hknown
    · exact hguarded.known other own hown
  · intro hdurable
    rw [hfile]
    exact hguarded.filed hdurable

/-- A call that fails changes nothing about what was paid for. -/
theorem Guarded.erase (hguarded : Guarded crates tokens durable wallets past) :
    Guarded crates tokens durable ⟨wallets.wallet, wallets.calls.erase call⟩ past := by
  refine ⟨?_, ?_, hguarded.offered, hguarded.filed, hguarded.distinct⟩
  · rw [claims_erase wallets.wallet rfl]
    exact hguarded.sound.release
  · intro other own hown
    rw [getElem?_erase_call] at hown
    split_ifs at hown
    exact hguarded.known other own hown

/-- Assumes: a call that goes on soundly if it goes on. -/
theorem Guarded.resume (hguarded : Guarded crates tokens durable wallets past) {text : String}
    {outcome : Except String Verification}
    (hok : ∀ next, outcome = .ok next →
      ((⟨wallets.wallet, wallets.calls.insert call next⟩ : Wallets).claims past).Sound ∧
        Known crates tokens next) :
    Guarded crates tokens durable (wallets.resume call text outcome).1
        (past ++ creditedTokens crates (wallets.resume call text outcome).2) ∧
      Fair crates (wallets.resume call text outcome).2 := by
  cases outcome with
  | error error =>
    constructor
    · show Guarded crates tokens durable _ (past ++ [])
      rw [List.append_nil]
      exact hguarded.erase
    · intro one hone
      obtain rfl := List.mem_singleton.mp hone
      exact Nat.zero_le _
  | ok next =>
    constructor
    · show Guarded crates tokens durable _ (past ++ [])
      rw [List.append_nil]
      exact hguarded.insert rfl (hok next rfl).1 (hok next rfl).2
    · exact fun one hone ↦ absurd hone List.not_mem_nil

/-- Proofs of one secret have one `C`, and no token has a proof twice. -/
structure Honest (tokens : List Token) : Prop where
  same_c : ∀ first ∈ tokens, ∀ second ∈ tokens, ∀ proof ∈ first.proofs, ∀ other ∈ second.proofs,
    proof.secret = other.secret → proof.c = other.c
  nodup : ∀ token ∈ tokens, token.secrets.Nodup

theorem tokenProofYs_eq (token : Token) :
    tokenProofYs token = token.proofs.map fun proof ↦ keyText proof.c := by
  cases token <;> simp [tokenProofYs, Token.proofs, List.map_flatten, List.flatMap_def]

/-- Assumes: tokens with one `C` for a secret, and two of them that share no `C`. They share no
secret. -/
theorem Honest.secrets_disjoint (hhonest : Honest tokens) {first second : Token}
    (hfirst : first ∈ tokens) (hsecond : second ∈ tokens)
    (hys : ∀ y ∈ tokenProofYs first, y ∉ tokenProofYs second) :
    first.secrets.Disjoint second.secrets := by
  intro secret hmem hmem'
  obtain ⟨proof, hproof, rfl⟩ := List.mem_map.mp hmem
  obtain ⟨other, hother, hsame⟩ := List.mem_map.mp hmem'
  have hc := hhonest.same_c first hfirst second hsecond proof hproof other hother hsame.symm
  apply hys (keyText proof.c)
  · rw [tokenProofYs_eq]
    exact List.mem_map_of_mem hproof
  · rw [tokenProofYs_eq, hc]
    exact List.mem_map_of_mem hother

/-- Assumes: a wallet on honest tokens, and an append that succeeds if the wallet is durable. A call
that has inserted its token may be paid for. -/
theorem Guarded.persist (hsums : crates.Sums) (hhonest : Honest tokens)
    (hguarded : Guarded crates tokens durable wallets past) {text : String} {token : Token}
    {amountSat : UInt64} (hown : wallets.calls[call]? = some ⟨text, token, .inserted amountSat⟩)
    {written : String → Bool} (hwritten : durable → ∀ y, written y = true) :
    Guarded crates tokens durable
        ⟨wallets.wallet.persistYvalues (tokenProofYs token) written, wallets.calls.erase call⟩
        (past ++ creditedTokens crates [⟨text, .ok (amountSat * 1000)⟩]) ∧
      Fair crates [⟨text, .ok (amountSat * 1000)⟩] := by
  obtain ⟨hparse, htoken, hvalue⟩ := hguarded.known call _ hown
  have hcredited : creditedTokens crates [⟨text, .ok (amountSat * 1000)⟩] = [token] := by
    simp only [creditedTokens, Returned.credited, List.filterMap_cons, hparse, List.filterMap_nil]
  have hcommitted : call ∈ (wallets.claims past).committed := ⟨_, hown, rfl⟩
  have hclaim : ∀ y ∈ tokenProofYs token, y ∈ (wallets.claims past).claim call :=
    fun y hy ↦ ⟨_, hown, by simp, hy⟩
  constructor
  · rw [hcredited]
    refine ⟨?_, ?_, ?_, ?_, ?_⟩
    · rw [claims_persisted hown]
      exact hguarded.sound.settle hcommitted
    · intro other own hother
      rw [getElem?_erase_call] at hother
      split_ifs at hother
      exact hguarded.known other own hother
    · intro later hlater
      rcases List.mem_append.mp hlater with hpast | hnew
      · exact hguarded.offered later hpast
      · rw [List.mem_singleton.mp hnew]
        exact htoken
    · intro hdurable
      obtain ⟨lines, hlines, hon⟩ := hguarded.filed hdurable
      refine ⟨lines ++ (tokenProofYs token).filter written, ?_, ?_⟩
      · simp only [BootstrapWallet.persistYvalues, hlines, Option.map_some]
      · intro later hlater y hy
        rcases List.mem_append.mp hlater with hpast | hnew
        · exact List.mem_append_left _ (hon later hpast y hy)
        · rw [List.mem_singleton.mp hnew] at hy
          exact List.mem_append_right _ (List.mem_filter.mpr ⟨hy, hwritten hdurable y⟩)
    · -- A secret paid for before would have left its `C` with the settled ones.
      rw [List.flatMap_append, List.flatMap_singleton]
      refine List.Nodup.append hguarded.distinct (hhonest.nodup token htoken) ?_
      intro secret hpast hnew
      obtain ⟨earlier, hearlier, hsecret⟩ := List.mem_flatMap.mp hpast
      refine hhonest.secrets_disjoint htoken (hguarded.offered earlier hearlier) ?_ hnew hsecret
      intro y hy hsettled
      exact Set.disjoint_left.mp (hguarded.sound.apart call) (hclaim y hy)
        ⟨earlier, hearlier, hsettled⟩
  · intro one hone
    obtain rfl := List.mem_singleton.mp hone
    have hworth := hsums token amountSat (hvalue amountSat (Or.inr rfl))
    simp only [Returned.amount, Returned.credited, hparse, Option.elim_some, ← hworth,
      UInt64.toNat_mul]
    refine (Nat.mod_le _ _).trans ?_
    rw [mul_comm]
    rfl

/-! A key's text has no white space, so a line of the spent file is read back as it was written. -/

theorem isWhiteSpace_hexDigit (digit : ℕ) : isWhiteSpace (hexDigit digit) = false := by
  have hall : ("0123456789abcdef".toList.all fun char ↦ !isWhiteSpace char) = true := by decide
  unfold hexDigit
  rw [List.getD_eq_getElem?_getD]
  cases hdigit : "0123456789abcdef".toList[digit]? with
  | none => decide
  | some char => simpa using List.all_eq_true.mp hall char (List.mem_of_getElem? hdigit)

theorem dropWhile_eq_self {chars : List Char} (hnone : ∀ char ∈ chars, isWhiteSpace char = false) :
    chars.dropWhile isWhiteSpace = chars := by
  cases chars with
  | nil => rfl
  | cons first rest => rw [List.dropWhile_cons, hnone first List.mem_cons_self]; rfl

theorem trim_keyText (key : PublicKey) : trim (keyText key) = keyText key := by
  have hnone : ∀ char ∈ (keyText key).toList, isWhiteSpace char = false := by
    intro char hchar
    rw [keyText, String.toList_ofList] at hchar
    obtain ⟨byte, -, hbyte⟩ := List.mem_flatMap.mp hchar
    rcases List.mem_pair.mp hbyte with rfl | rfl
    · exact isWhiteSpace_hexDigit _
    · exact isWhiteSpace_hexDigit _
  have hreversed : ∀ char ∈ (keyText key).toList.reverse, isWhiteSpace char = false :=
    fun char hchar ↦ hnone char (List.mem_reverse.mp hchar)
  rw [trim, dropWhile_eq_self hnone, dropWhile_eq_self hreversed, List.reverse_reverse,
    String.ofList_toList]

theorem keyText_ne_empty (key : PublicKey) : keyText key ≠ "" := by
  intro hempty
  have hlength : (keyText key).toList.length = 66 := by
    rw [keyText, String.toList_ofList, List.length_flatMap]
    simp
  rw [hempty] at hlength
  exact absurd hlength (by decide)

/-- Assumes: a durable wallet. A restart leaves in the spent set what was paid for. -/
theorem Guarded.restart (hguarded : Guarded crates tokens durable wallets past)
    (hdurable : durable) :
    Guarded crates tokens durable
      ⟨BootstrapWallet.withSpentFile wallets.wallet.acceptedMints wallets.wallet.spentFile, ∅⟩
      past := by
  obtain ⟨lines, hlines, hon⟩ := hguarded.filed hdurable
  refine ⟨?_, ?_, hguarded.offered, fun _ ↦ ⟨lines, hlines, hon⟩, hguarded.distinct⟩
  · have hreset : (⟨BootstrapWallet.withSpentFile wallets.wallet.acceptedMints
        wallets.wallet.spentFile, ∅⟩ : Wallets).claims past =
          (wallets.claims past).reset {y | y ∈ BootstrapWallet.loadSpentFile lines} := by
      refine Claims.ext ?_ rfl ?_ ?_
      · simp [claims, Claims.reset, BootstrapWallet.withSpentFile, hlines]
      · funext call
        simp [claims, Claims.reset]
      · simp [claims, Claims.reset]
    rw [hreset]
    refine Claims.reset_sound ?_
    rintro y ⟨token, htoken, hy⟩
    have hline := hon token htoken y hy
    rw [tokenProofYs_eq] at hy
    obtain ⟨proof, -, rfl⟩ := List.mem_map.mp hy
    show keyText proof.c ∈ BootstrapWallet.loadSpentFile lines
    simp only [BootstrapWallet.loadSpentFile, List.mem_toFinset, List.mem_filter, List.mem_map,
      decide_eq_true_eq]
    exact ⟨⟨_, hline, trim_keyText proof.c⟩, keyText_ne_empty proof.c⟩
  · intro call own hown
    simp at hown

/-- A step that does nothing. -/
theorem Guarded.idle (hguarded : Guarded crates tokens durable wallets past) :
    Guarded crates tokens durable wallets (past ++ creditedTokens crates []) ∧ Fair crates [] := by
  refine ⟨?_, fun one hone ↦ absurd hone List.not_mem_nil⟩
  show Guarded crates tokens durable wallets (past ++ [])
  rw [List.append_nil]
  exact hguarded

/-- Assumes: a call that nobody races. What it has looked up, it may claim. -/
theorem Guarded.checkLocal (hguarded : Guarded crates tokens durable wallets past) {text : String}
    {token : Token} (hown : wallets.calls[call]? = some ⟨text, token, .parsed⟩)
    (hrace : ¬ wallets.Races (.checkLocal call)) (hok : wallets.wallet.checkLocal token = .ok ()) :
    ((⟨wallets.wallet, wallets.calls.insert call ⟨text, token, .checked⟩⟩ :
      Wallets).claims past).Sound := by
  rw [claims_insert rfl]
  refine hguarded.sound.take ?_ ?_
  · rw [Set.disjoint_left]
    rintro y ⟨-, hy⟩
    exact fresh_of_checkLocal hok y hy
  · intro other hother huncommitted
    rw [Set.disjoint_left]
    rintro y ⟨-, hy⟩ ⟨held, hheld, hstage, hy'⟩
    -- Another call that holds this key has looked it up and not inserted it.
    refine hrace ⟨_, hown, rfl, (other, held), ?_, ?_, y, hy', hy⟩
    · exact ExtTreeMap.mem_toList_iff_getElem?_eq_some.mpr hheld
    · show held.stage.uncommitted = true
      cases hheldStage : held.stage with
      | parsed => exact absurd hheldStage hstage
      | inserted amountSat =>
        refine absurd ⟨held, hheld, ?_⟩ huncommitted
        rw [hheldStage]
        rfl
      | checked => rfl
      | cleared amountSat => rfl

/-- Assumes: honest tokens, calls that nobody races, and a wallet that is durable if it restarts.
One step keeps what is guarded, over what was paid for in it too. -/
theorem Guarded.step (hsums : crates.Sums) (hhonest : Honest tokens)
    (hguarded : Guarded crates tokens durable wallets past) {input : WalletStep}
    (hrace : ¬ wallets.Races input)
    (hoffered : ∀ token ∈ presented crates [input], token ∈ tokens)
    (hrestart : input = .restart → durable)
    (hwritten : durable → ∀ call written, input = .persist call written → ∀ y, written y = true) :
    Guarded crates tokens durable (wallets.step crates input).1
        (past ++ creditedTokens crates (wallets.step crates input).2) ∧
      Fair crates (wallets.step crates input).2 := by
  cases input with
  | verify call text =>
    simp only [Wallets.step]
    cases hown : wallets.calls[call]? with
    | some own => exact hguarded.idle
    | none =>
      refine hguarded.resume fun next hnext ↦ ?_
      cases hparse : BootstrapWallet.parseToken crates text with
      | error error =>
        rw [hparse] at hnext
        exact absurd hnext (by simp [bind, Except.bind])
      | ok token =>
        rw [hparse] at hnext
        obtain rfl := Except.ok.inj hnext
        refine ⟨?_, parse_of_parseToken hparse, hoffered token ?_, by simp⟩
        · rw [claims_insert rfl]
          have hempty : {y | Stage.parsed ≠ Stage.parsed ∧ y ∈ tokenProofYs token} = ∅ := by simp
          rw [hempty]
          exact hguarded.sound.release
        · simp [presented, parse_of_parseToken hparse]
  | checkLocal call =>
    simp only [Wallets.step]
    split
    · rename_i text token hown
      refine hguarded.resume fun next hnext ↦ ?_
      cases hlocal : wallets.wallet.checkLocal token with
      | error error =>
        rw [hlocal] at hnext
        exact absurd hnext (by simp [bind, Except.bind])
      | ok _ =>
        rw [hlocal] at hnext
        obtain rfl := Except.ok.inj hnext
        obtain ⟨hparse, htoken, -⟩ := hguarded.known call _ hown
        exact ⟨hguarded.checkLocal hown hrace hlocal, hparse, htoken, by simp⟩
    · exact hguarded.idle
  | checkMint call response =>
    simp only [Wallets.step]
    split
    · rename_i text token hown
      refine hguarded.resume fun next hnext ↦ ?_
      cases hvalue : wallets.wallet.appraise crates token with
      | error error =>
        rw [hvalue] at hnext
        exact absurd hnext (by simp [bind, Except.bind])
      | ok amountSat =>
        rw [hvalue] at hnext
        cases hmint : BootstrapWallet.checkProofsUnspent response with
        | error error =>
          rw [hmint] at hnext
          exact absurd hnext (by simp [bind, Except.bind])
        | ok _ =>
          rw [hmint] at hnext
          obtain rfl := Except.ok.inj hnext
          obtain ⟨hparse, htoken, -⟩ := hguarded.known call _ hown
          refine ⟨?_, hparse, htoken, ?_⟩
          · rw [claims_cleared hown]
            exact hguarded.sound
          · rintro amount (hamount | hamount)
            · rw [← Stage.cleared.inj hamount]
              exact value_of_appraise hvalue
            · exact absurd hamount (by simp)
    · exact hguarded.idle
  | insert call =>
    simp only [Wallets.step]
    split
    · rename_i text token amountSat hown
      obtain ⟨hparse, htoken, hvalue⟩ := hguarded.known call _ hown
      have hinserted : Guarded crates tokens durable
          ⟨wallets.wallet.insertYvalues (tokenProofYs token),
            wallets.calls.insert call ⟨text, token, .inserted amountSat⟩⟩ past := by
        apply hguarded.insert
        · rfl
        · rw [claims_inserted hown]
          exact hguarded.sound.commit
        · refine ⟨hparse, htoken, ?_⟩
          simpa using hvalue
      exact hinserted.idle
    · exact hguarded.idle
  | persist call written =>
    simp only [Wallets.step]
    split
    · rename_i text token amountSat hown
      exact hguarded.persist hsums hhonest hown fun hdurable ↦ hwritten hdurable call written rfl
    · exact hguarded.idle
  | restart => exact (hguarded.restart (hrestart rfl)).idle

/-- Assumes: a run on honest tokens in which nobody races, with a wallet that is durable if it
restarts. What is guarded stays guarded to the end of it. -/
theorem Guarded.run (hsums : crates.Sums) (hhonest : Honest tokens)
    (hguarded : Guarded crates tokens durable wallets past) {steps : List WalletStep}
    (hrace : (machine crates).Along (fun wallets step ↦ ¬ wallets.Races step) wallets steps)
    (hoffered : ∀ token ∈ presented crates steps, token ∈ tokens)
    (hrestart : .restart ∈ steps → durable)
    (hwritten : durable → ∀ call written, .persist call written ∈ steps → ∀ y, written y = true) :
    Guarded crates tokens durable ((machine crates).final wallets steps)
        (past ++ creditedTokens crates ((machine crates).outputs wallets steps)) ∧
      Fair crates ((machine crates).outputs wallets steps) := by
  induction steps generalizing wallets past with
  | nil => exact hguarded.idle
  | cons step rest ih =>
    have hsplit : presented crates (step :: rest) =
        presented crates [step] ++ presented crates rest := by
      rw [presented, ← List.singleton_append, List.filterMap_append]
      rfl
    rw [hsplit] at hoffered
    obtain ⟨hnext, hfair⟩ := hguarded.step hsums hhonest hrace.1
      (fun token htoken ↦ hoffered token (List.mem_append_left _ htoken))
      (fun heq ↦ hrestart (heq ▸ List.mem_cons_self))
      (fun hdurable call written heq ↦ hwritten hdurable call written (heq ▸ List.mem_cons_self))
    obtain ⟨hend, hfairEnd⟩ := ih hnext hrace.2
      (fun token htoken ↦ hoffered token (List.mem_append_right _ htoken))
      (fun hmem ↦ hrestart (List.mem_cons_of_mem _ hmem))
      (fun hdurable call written hmem ↦
        hwritten hdurable call written (List.mem_cons_of_mem _ hmem))
    have houtputs : (machine crates).outputs wallets (step :: rest) =
        (wallets.step crates step).2 ++
          (machine crates).outputs (wallets.step crates step).1 rest := rfl
    rw [houtputs]
    constructor
    · rw [creditedTokens, List.filterMap_append, ← List.append_assoc]
      exact hend
    · intro one hone
      rcases List.mem_append.mp hone with hnow | hlater
      · exact hfair one hnow
      · exact hfairEnd one hlater

/-- What fair returns add up to. -/
theorem Fair.sum_le {returned : List Returned} (hfair : Fair crates returned) :
    (returned.map Returned.amount).sum ≤
      1000 * ((creditedTokens crates returned).map Token.worth).sum := by
  induction returned with
  | nil => exact Nat.zero_le _
  | cons one rest ih =>
    have hone := hfair one List.mem_cons_self
    have hrest := ih fun later hlater ↦ hfair later (List.mem_cons_of_mem _ hlater)
    cases hcredited : one.credited crates with
    | none =>
      rw [creditedTokens, List.filterMap_cons_none hcredited, List.map_cons, List.sum_cons]
      rw [hcredited, Option.elim_none] at hone
      exact (Nat.add_le_add hone hrest).trans (by simp [creditedTokens])
    | some token =>
      rw [creditedTokens, List.filterMap_cons_some hcredited, List.map_cons, List.sum_cons,
        List.map_cons, List.sum_cons, Nat.mul_add]
      rw [hcredited, Option.elim_some] at hone
      exact Nat.add_le_add hone hrest

end Step

/-- Assumes: tokens with one `C` for each secret and no proof twice in one token; no call looks its
token up while another that looked up one of the same `C`s has yet to insert it; and, if the process
restarts, a spent file whose appends all succeeded. For every such run of calls, no proof is paid
for twice, and together the calls return at most what the proofs paid for are worth. -/
theorem proofs_credited_once (crates : Crates) (hsums : crates.Sums) (wallet : BootstrapWallet)
    (steps : List WalletStep) (hhonest : Honest (presented crates steps))
    (hrace : (machine crates).Along (fun wallets step ↦ ¬ wallets.Races step) ⟨wallet, ∅⟩ steps)
    (hdurable : .restart ∈ steps → wallet.spentFile.isSome = true ∧
      ∀ call written, .persist call written ∈ steps → ∀ y, written y = true) :
    let returned := (machine crates).outputs ⟨wallet, ∅⟩ steps
    (creditedSecrets crates returned).Nodup ∧
      (returned.map Returned.amount).sum ≤
        1000 * ((creditedTokens crates returned).map Token.worth).sum := by
  have hstart : Guarded crates (presented crates steps) (.restart ∈ steps) ⟨wallet, ∅⟩ [] := by
    refine ⟨⟨?_, ?_, ?_, ?_⟩, ?_, ?_, ?_, ?_⟩
    · simp [claims]
    · simp [claims]
    · simp [claims]
    · simp [claims]
    · simp
    · simp
    · intro hrestart
      obtain ⟨lines, hlines⟩ := Option.isSome_iff_exists.mp (hdurable hrestart).1
      exact ⟨lines, hlines, by simp⟩
    · exact List.nodup_nil
  obtain ⟨hend, hfair⟩ := hstart.run hsums hhonest hrace (fun _ htoken ↦ htoken)
    (fun hrestart ↦ hrestart) fun hrestart ↦ (hdurable hrestart).2
  exact ⟨hend.distinct, hfair.sum_le⟩

/-- A token of one proof, worth one sat, as the wallet's own tests have it. -/
def sampleText : String :=
  "cashuBo2FteBtodHRwczovL3Rlc3RudXQuY2FzaHUuc3BhY2VhdWNzYXRhdIGiYWlIAYhKdLsvxe5hcIGkYWEBYXN4" ++
  "QDk1NTM1NzQ1YjQ2MzM2OGQ1OTVkMGVhMmQ1M2NmMDU0YjZkY2ZhZTY0NjhlOWU0N2U1MDc1YWU3OWRmNmUyODdhY1gh" ++
  "A03QgEalpQeCViTFYVixs-4tTxGmV0Dl-hKTQ8jLyG1ZYWSjYWVYIKlCWsnyOJRBHT_0xffz67uTQUWhk336QvZbnEQW" ++
  "6OUZYXNYIA88wEUIkwoL1RKs6j41AgtMZLp2e3JrlpZyU1o2M3TJYXJYILoalwd76VtIosztMCjHmQzbNUVKCM4VjvV0" ++
  "2fSkG19-"

def sampleCashu : Token :=
  .tokenV4 [[{
    secret := "95535745b463368d595d0ea2d53cf054b6dcfae6468e9e47e5075ae79df6e287"
    c := #v[3, 77, 208, 128, 70, 165, 165, 7, 130, 86, 36, 197, 97, 88, 177, 179, 238, 45, 79, 17,
      166, 87, 64, 229, 250, 18, 147, 67, 200, 203, 200, 109, 89]
    amount := 1 }]]

/-- The crates as they are on that token: values are checked sums. -/
def sampleCrates : Crates where
  parse text := if text = sampleText then some sampleCashu else none
  mintUrl _ := some "https://testnut.cashu.space"
  value token := if token.worth < 2 ^ 64 then some (UInt64.ofNat token.worth) else none
  parseUrl text :=
    if text = "https://testnut.cashu.space" then
      some ⟨"https", some "testnut.cashu.space", none, "/"⟩
    else none

theorem sampleCrates_sums : sampleCrates.Sums := by
  intro token amount hvalue
  simp only [sampleCrates] at hvalue
  split_ifs at hvalue with hfits
  rw [← Option.some.inj hvalue]
  exact UInt64.toNat_ofNat_of_lt' hfits

/-- The steps of one call on the token, as long as nothing stops it. -/
def sampleCall (call : ℕ) : List WalletStep :=
  [.verify call sampleText, .checkLocal call, .checkMint call (.states ["UNSPENT"]), .insert call,
    .persist call fun _ ↦ true]

/-- The token is handed in, the process restarts, and the token is handed in again: it is paid for
once. -/
theorem proofs_credited_once_across_restart :
    let returned := (machine sampleCrates).outputs
      ⟨BootstrapWallet.withSpentFile ["https://testnut.cashu.space/"] (some []), ∅⟩
      (sampleCall 0 ++ [.restart] ++ sampleCall 1)
    ((creditedSecrets sampleCrates returned).Nodup ∧
        (returned.map Returned.amount).sum ≤
          1000 * ((creditedTokens sampleCrates returned).map Token.worth).sum) ∧
      returned.map Returned.amount = [1000, 0] := by
  have hhonest : Honest (presented sampleCrates
      (sampleCall 0 ++ [WalletStep.restart] ++ sampleCall 1)) := by
    have hpresented : presented sampleCrates
        (sampleCall 0 ++ [WalletStep.restart] ++ sampleCall 1) = [sampleCashu, sampleCashu] := by
      simp [presented, sampleCall, sampleCrates]
    rw [hpresented]
    constructor
    · simp [sampleCashu, Token.proofs]
    · simp [sampleCashu, Token.proofs, Token.secrets]
  have hrace : (machine sampleCrates).Along (fun wallets step ↦ ¬ wallets.Races step)
      ⟨BootstrapWallet.withSpentFile ["https://testnut.cashu.space/"] (some []), ∅⟩
      (sampleCall 0 ++ [WalletStep.restart] ++ sampleCall 1) := by
    decide +kernel
  refine ⟨proofs_credited_once sampleCrates sampleCrates_sums _ _ hhonest hrace ?_, ?_⟩
  · refine fun _ ↦ ⟨rfl, fun call written hmem y ↦ ?_⟩
    simp only [sampleCall, List.cons_append, List.nil_append, List.mem_cons, List.not_mem_nil,
      or_false, reduceCtorEq, false_or, WalletStep.persist.injEq] at hmem
    rcases hmem with ⟨-, rfl⟩ | ⟨-, rfl⟩ <;> rfl
  · decide +kernel

/-- Two calls on the token look it up before either has inserted it: both are paid for it. -/
theorem proof_credited_twice_on_race :
    let returned := (machine sampleCrates).outputs
      ⟨BootstrapWallet.withSpentFile ["https://testnut.cashu.space/"] (some []), ∅⟩
      [.verify 0 sampleText, .verify 1 sampleText, .checkLocal 0, .checkLocal 1,
        .checkMint 0 (.states ["UNSPENT"]), .checkMint 1 (.states ["UNSPENT"]),
        .insert 0, .insert 1, .persist 0 fun _ ↦ true, .persist 1 fun _ ↦ true]
    ¬ (creditedSecrets sampleCrates returned).Nodup ∧
      returned.map Returned.amount = [1000, 1000] := by
  decide +kernel

end Wallets

end Tollgate
