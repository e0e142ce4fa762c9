import Tollgate.Library.LineLog
import Tollgate.Library.Utf8
import Tollgate.Net.Calendar
import Tollgate.Net.Wallet
import Tollgate.Protocol.Product

/-!
# Recovering a token

`recovery.rs`: a token that an upstream gate did not accept is offered to the wallet, and if the
wallet does not take it, it goes into a file, as one line in hexadecimal digits.

The wallet's `receive_token` verifies the token and does nothing else: it asks the mint about the
proofs and leaves them where they are. It also logs the first twenty bytes of the token's text,
which stops the call if they end inside a character. What a line of the file says is its own as long
as the texts around the token do not end it.
-/

set_option autoImplicit false
set_option relaxedAutoImplicit false

namespace Tollgate

open Utf8

/-! ### The wallet's side -/

/-- `CdkWallet`: the address of its mint and its own proofs. -/
structure CdkWallet where
  mintUrl : String
  proofs : List Proof

/-- What a wallet can ask its mint: the states of proofs (NUT-07), or new proofs for old ones
(NUT-03), after which the old ones are spent. -/
inductive MintRequest
  | checkState (url : String) (ys : List String)
  | swap (inputs : List Proof)

/-- What the proofs of a wallet are worth together. -/
def CdkWallet.worth (wallet : CdkWallet) : ℕ :=
  (wallet.proofs.map fun proof ↦ proof.amount.toNat).sum

namespace CdkWallet

variable (wallet : CdkWallet) (crates : Crates)

/-- `verify_token`, when the mint answers with the response. -/
def verifyToken (response : MintResponse) (tokenStr : String) :
    Except String UInt64 × List MintRequest :=
  match crates.parse tokenStr with
  | none => (.error "invalid Cashu token", [])
  | some token =>
    match crates.mintUrl token with
    | none => (.error "token has no mint URL", [])
    | some tokenMint =>
      if trimSlashes tokenMint ≠ trimSlashes wallet.mintUrl then
        (.error ("token mint " ++ tokenMint ++ " does not match wallet mint " ++ wallet.mintUrl),
          [])
      else
        match crates.value token with
        | none => (.error "could not sum token value", [])
        | some amountSat =>
          if tokenProofYs token = [] then (.error "token contains no proofs", [])
          else
            ((BootstrapWallet.checkProofsUnspent response).map fun _ ↦ amountSat,
              [.checkState (trimSlashes tokenMint ++ "/v1/checkstate") (tokenProofYs token)])

/-- The token is one of the wallet's mint, with a value and with proofs, and the mint says of none
of them that it is anything but unspent. -/
def Verifies (response : MintResponse) (tokenStr : String) : Prop :=
  ∃ token ∈ crates.parse tokenStr,
    (∃ tokenMint ∈ crates.mintUrl token, trimSlashes tokenMint = trimSlashes wallet.mintUrl) ∧
      (crates.value token).isSome = true ∧ tokenProofYs token ≠ [] ∧
        ∃ states, response = .states states ∧ ∀ state ∈ states, state = "UNSPENT"

/-- The log of the first twenty bytes ends inside a character. -/
def SplitsCharacter (text : List Char) : Prop :=
  isCharBoundary text (min (encode text).length 20) = false

instance decidableSplitsCharacter : DecidablePred SplitsCharacter := fun text ↦
  inferInstanceAs (Decidable (isCharBoundary text (min (encode text).length 20) = false))

/-- `receive_token`: nothing if it panics, else its result and what it asked the mint. The text is
sliced only if the log takes the line. -/
def receiveToken (infoEnabled : Bool) (response : MintResponse) (token : Bytes) :
    Option (Except String UInt64 × List MintRequest) :=
  let tokenStr := fromUtf8Lossy token
  if infoEnabled = true ∧ SplitsCharacter tokenStr then none
  else some (wallet.verifyToken crates response (String.ofList tokenStr))

end CdkWallet

/-! ### The file's side -/

/-- `hex_encode`. -/
def hexEncode (bytes : Bytes) : List Char :=
  bytes.flatMap fun byte ↦ [hexDigit (byte.toNat / 16), hexDigit (byte.toNat % 16)]

/-- A path, as text, and the directory it is in. -/
structure PathBuf where
  text : String
  parent : Option String

/-- What the file system does: the errors of making the directory and of opening the file, and how
many bytes of the line go into the file before an error stops the write. -/
structure Disk where
  createDirAll : Option String
  openFile : Option String
  writeAll : Option (ℕ × String)

/-- The text of an entry up to the end of its line. -/
def recoveryEntry (now : UInt64) (token : Bytes) (mintUrl error : String) : String :=
  formatRfc3339 now.toNat ++ " | mint=" ++ mintUrl ++ " | error=" ++ error ++ " | token=" ++
    String.ofList (hexEncode token)

/-- The directory is made if the path has one. -/
def createParent (disk : Disk) (path : PathBuf) : Except String Unit :=
  match path.parent with
  | none => .ok ()
  | some parent =>
    if parent = "" then .ok ()
    else
      match disk.createDirAll with
      | some ioErr => .error ioErr
      | none => .ok ()

/-- `write_recovery_entry`: the result and the file afterwards, if there is one. -/
def writeRecoveryEntry (disk : Disk) (path : PathBuf) (now : UInt64) (token : Bytes)
    (mintUrl error : String) (file : Option Bytes) : Except String Unit × Option Bytes :=
  let line := asBytes (recoveryEntry now token mintUrl error ++ "\n")
  match createParent disk path with
  | .error ioErr => (.error ioErr, file)
  | .ok () =>
    match disk.openFile with
    | some ioErr => (.error ioErr, file)
    | none =>
      match disk.writeAll with
      | some (written, ioErr) => (.error ioErr, some (file.getD [] ++ line.take written))
      | none => (.ok (), some (file.getD [] ++ line))

/-! ### The recovery -/

/-- `RecoveryResult`. -/
inductive RecoveryResult
  | autoRecovered (amount : UInt64)
  | savedToFile (path : String)
  | failed (msg : String)

/-- What a recovery is called with. -/
structure RecoveryCall where
  token : Bytes
  mintUrl : String
  error : String
  recoveryFile : PathBuf

/-- What the outside has for a recovery: whether the log takes its lines, the mint's answer, the
time and the file system. -/
structure Outside where
  infoEnabled : Bool
  response : MintResponse
  now : UInt64
  disk : Disk

/-- What a recovery leaves: its result, unless it panicked, what the mint was asked, the wallet and
the file. -/
structure Recovered where
  result : Option RecoveryResult
  requests : List MintRequest
  wallet : CdkWallet
  file : Option Bytes

/-- `recover_failed_token`. -/
def recoverFailedToken (crates : Crates) (outside : Outside) (wallet : CdkWallet)
    (file : Option Bytes) (call : RecoveryCall) : Recovered :=
  match wallet.receiveToken crates outside.infoEnabled outside.response call.token with
  | none => ⟨none, [], wallet, file⟩
  | some (.ok amount, requests) => ⟨some (.autoRecovered amount), requests, wallet, file⟩
  | some (.error _, requests) =>
    match writeRecoveryEntry outside.disk call.recoveryFile outside.now call.token call.mintUrl
        call.error file with
    | (.ok (), written) => ⟨some (.savedToFile call.recoveryFile.text), requests, wallet, written⟩
    | (.error ioErr, written) =>
      ⟨some (.failed ("Recovery failed: auto-reclaim rejected, file write failed: " ++ ioErr)),
        requests, wallet, written⟩

/-! ### What a recovery should do -/

/-- The byte that ends a line. -/
def lineFeed : UInt8 :=
  asciiByte '\n'

/-- The lines of the file; without a file there are none. -/
def fileLines (file : Option Bytes) : List Bytes :=
  LineLog.lines lineFeed (file.getD [])

/-- The value of a hexadecimal digit. -/
def hexValue (byte : UInt8) : Option ℕ :=
  let code := byte.toNat
  if 48 ≤ code ∧ code ≤ 57 then some (code - 48)
  else if 97 ≤ code ∧ code ≤ 102 then some (code - 87)
  else none

/-- The bytes that hexadecimal digits stand for. -/
def decodeHex : Bytes → Option Bytes
  | [] => some []
  | [_] => none
  | high :: low :: rest => do
    let first ← hexValue high
    let second ← hexValue low
    let more ← decodeHex rest
    pure (UInt8.ofNat (first * 16 + second) :: more)

/-- A hexadecimal digit. -/
def isHex (byte : UInt8) : Bool :=
  (hexValue byte).isSome

/-- The token of a line: what the digits at its end stand for. -/
def decodeEntry (entry : Bytes) : Option Bytes :=
  decodeHex (entry.rtakeWhile isHex)

/-- The call returns; what it calls recovered is in the wallet, by a swap; and what it calls saved
is one more line of the file, with the token in it. -/
def KeepsToken (crates : Crates) (outside : Outside) (wallet : CdkWallet) (file : Option Bytes)
    (call : RecoveryCall) : Prop :=
  let recovered := recoverFailedToken crates outside wallet file call
  match recovered.result with
  | none => False
  | some (.autoRecovered amount) =>
    recovered.wallet.worth = wallet.worth + amount.toNat ∧
      ∃ token ∈ crates.parse (String.ofList (fromUtf8Lossy call.token)),
        MintRequest.swap token.proofs ∈ recovered.requests
  | some (.savedToFile _) =>
    ∃ entry, fileLines recovered.file = fileLines file ++ [entry] ∧
      decodeEntry entry = some call.token
  | some (.failed _) => True

/-- The file system takes the line. -/
def Disk.Saves (disk : Disk) (path : PathBuf) : Prop :=
  ((∃ parent ∈ path.parent, parent ≠ "") → disk.createDirAll = none) ∧
    disk.openFile = none ∧ disk.writeAll = none

/-! ### The wallet only asks -/

section Wallet

variable (wallet : CdkWallet) (crates : Crates) (response : MintResponse) (tokenStr : String)

theorem checkProofsUnspent_ok_iff :
    BootstrapWallet.checkProofsUnspent response = .ok () ↔
      ∃ states, response = .states states ∧ ∀ state ∈ states, state = "UNSPENT" := by
  cases response with
  | states states =>
    simp only [BootstrapWallet.checkProofsUnspent, MintResponse.states.injEq, exists_eq_left']
    split
    · rename_i state hfound
      refine iff_of_false (by simp) fun hall ↦ ?_
      have hstate : state ≠ "UNSPENT" := by simpa using List.find?_some hfound
      exact hstate (hall state (List.mem_of_find?_eq_some hfound))
    · rename_i hnone
      simpa using hnone
  | unreachable => simp [BootstrapWallet.checkProofsUnspent]
  | failure => simp [BootstrapWallet.checkProofsUnspent]
  | notJson => simp [BootstrapWallet.checkProofsUnspent]
  | noStates => simp [BootstrapWallet.checkProofsUnspent]

/-- When a verification succeeds. -/
theorem verifyToken_ok_iff :
    (∃ amount, (wallet.verifyToken crates response tokenStr).1 = .ok amount) ↔
      wallet.Verifies crates response tokenStr := by
  unfold CdkWallet.verifyToken CdkWallet.Verifies
  cases hparse : crates.parse tokenStr with
  | none => simp
  | some token =>
    cases hmint : crates.mintUrl token with
    | none => simp [hmint]
    | some tokenMint =>
      by_cases hsame : trimSlashes tokenMint = trimSlashes wallet.mintUrl
      · cases hvalue : crates.value token with
        | none => simp [hmint, hsame, hvalue]
        | some amountSat =>
          by_cases hproofs : tokenProofYs token = []
          · simp [hmint, hsame, hvalue, hproofs]
          · simp only [hmint, hsame, hvalue, hproofs, ← checkProofsUnspent_ok_iff]
            cases BootstrapWallet.checkProofsUnspent response with
            | ok done =>
              simpa [Except.map, hvalue, hproofs] using ⟨tokenMint, hmint, hsame⟩
            | error error => simp [Except.map]
      · simp [hmint, hsame]

/-- A verification swaps nothing. -/
theorem swap_notMem_verifyToken (inputs : List Proof) :
    MintRequest.swap inputs ∉ (wallet.verifyToken crates response tokenStr).2 := by
  unfold CdkWallet.verifyToken
  split
  · exact List.not_mem_nil
  · split
    · exact List.not_mem_nil
    · split
      · exact List.not_mem_nil
      · split
        · exact List.not_mem_nil
        · split
          · exact List.not_mem_nil
          · simp

end Wallet

/-! ### The file's new line -/

theorem asBytes_eq (text : String) : asBytes text = encode text.toList := by
  rw [asBytes, ← String.utf8Encode_toList, List.utf8Encode, List.data_toByteArray]
  rfl

theorem isAscii_hexDigit {digit : ℕ} (hdigit : digit < 16) : IsAscii (hexDigit digit) := by
  revert digit
  decide

theorem hexValue_hexDigit {digit : ℕ} (hdigit : digit < 16) :
    hexValue (asciiByte (hexDigit digit)) = some digit := by
  revert digit
  decide

theorem isAscii_of_mem_hexEncode {bytes : Bytes} {char : Char} (hchar : char ∈ hexEncode bytes) :
    IsAscii char := by
  obtain ⟨byte, _, hdigit⟩ := List.mem_flatMap.mp hchar
  have hbyte := byte.toNat_lt
  simp only [List.mem_cons, List.not_mem_nil, or_false] at hdigit
  rcases hdigit with rfl | rfl
  · exact isAscii_hexDigit (by omega)
  · exact isAscii_hexDigit (by omega)

theorem newline_notMem_hexEncode (bytes : Bytes) : '\n' ∉ hexEncode bytes := by
  have hdigits : ∀ digit < 16, hexDigit digit ≠ '\n' := by decide
  intro hmem
  obtain ⟨byte, _, hdigit⟩ := List.mem_flatMap.mp hmem
  have hbyte := byte.toNat_lt
  simp only [List.mem_cons, List.not_mem_nil, or_false] at hdigit
  rcases hdigit with hdigit | hdigit
  · exact hdigits _ (by omega) hdigit.symm
  · exact hdigits _ (by omega) hdigit.symm

/-- The digits of bytes, as bytes. -/
theorem encode_hexEncode_cons (byte : UInt8) (rest : Bytes) :
    encode (hexEncode (byte :: rest)) =
      asciiByte (hexDigit (byte.toNat / 16)) :: asciiByte (hexDigit (byte.toNat % 16)) ::
        encode (hexEncode rest) := by
  rw [encode_ascii fun char ↦ isAscii_of_mem_hexEncode,
    encode_ascii fun char ↦ isAscii_of_mem_hexEncode]
  rfl

theorem decodeHex_hexEncode (bytes : Bytes) :
    decodeHex (encode (hexEncode bytes)) = some bytes := by
  induction bytes with
  | nil => rfl
  | cons byte rest ih =>
    have hbyte := byte.toNat_lt
    have hjoin : UInt8.ofNat (byte.toNat / 16 * 16 + byte.toNat % 16) = byte := by
      rw [Nat.div_add_mod', UInt8.ofNat_toNat]
    rw [encode_hexEncode_cons, decodeHex, hexValue_hexDigit (by omega),
      hexValue_hexDigit (by omega), ih]
    simp only [Option.bind_eq_bind, Option.bind_some, hjoin]
    rfl

theorem isHex_of_mem {bytes : Bytes} {byte : UInt8} (hbyte : byte ∈ encode (hexEncode bytes)) :
    isHex byte = true := by
  induction bytes with
  | nil => exact absurd hbyte List.not_mem_nil
  | cons first rest ih =>
    have hfirst := first.toNat_lt
    rw [encode_hexEncode_cons] at hbyte
    rcases List.mem_cons.mp hbyte with rfl | hbyte
    · rw [isHex, hexValue_hexDigit (by omega)]
      rfl
    · rcases List.mem_cons.mp hbyte with rfl | hrest
      · rw [isHex, hexValue_hexDigit (by omega)]
        rfl
      · exact ih hrest

section Line

variable (now : UInt64) (token : Bytes) (mintUrl error : String)

/-- An entry as bytes: a part that starts with the date and ends with the equals sign, and the
digits. -/
theorem asBytes_recoveryEntry :
    asBytes (recoveryEntry now token mintUrl error) =
      encode (formatRfc3339 now.toNat ++ " | mint=" ++ mintUrl ++ " | error=" ++ error ++
        " | token").toList ++ asciiByte '=' :: encode (hexEncode token) := by
  rw [asBytes_eq, recoveryEntry]
  simp only [String.toList_append, String.toList_ofList, encode_append, List.append_assoc]
  rfl

/-- The token of an entry is the one it was written for, whatever the other texts say. -/
theorem decodeEntry_recoveryEntry :
    decodeEntry (asBytes (recoveryEntry now token mintUrl error)) = some token := by
  have hequals : ¬ isHex (asciiByte '=') = true := by decide
  rw [asBytes_recoveryEntry, decodeEntry, List.rtakeWhile, List.reverse_append,
    List.reverse_cons, List.append_assoc, List.takeWhile_append_of_pos fun byte hbyte ↦
      isHex_of_mem (List.mem_reverse.mp hbyte), List.singleton_append,
    List.takeWhile_cons_of_neg hequals, List.append_nil, List.reverse_reverse]
  exact decodeHex_hexEncode token

theorem lineFeed_mem_recoveryEntry_iff :
    lineFeed ∈ asBytes (recoveryEntry now token mintUrl error) ↔
      '\n' ∈ mintUrl.toList ∨ '\n' ∈ error.toList := by
  rw [asBytes_eq, lineFeed, mem_encode_iff (by decide), recoveryEntry]
  simp [newline_notMem_formatRfc3339, newline_notMem_hexEncode]

theorem formatRfc3339_ne_nil (secs : ℕ) : (formatRfc3339 secs).toList ≠ [] := by
  simp [formatRfc3339]

/-- An entry starts with the date. -/
theorem exists_head_recoveryEntry :
    ∃ symbol ∈ (asBytes (recoveryEntry now token mintUrl error)).head?, symbol ≠ lineFeed := by
  obtain ⟨first, rest, hdate⟩ := List.exists_cons_of_ne_nil (formatRfc3339_ne_nil now.toNat)
  obtain ⟨symbol, others, hsymbol⟩ :=
    List.exists_cons_of_ne_nil (String.utf8EncodeChar_ne_nil (c := first))
  refine ⟨symbol, ?_, fun hfeed ↦ newline_notMem_formatRfc3339 now.toNat ?_⟩
  · rw [asBytes_eq, recoveryEntry]
    simp [hdate, encode, hsymbol]
  · rw [← mem_encode_iff (by decide), hdate, encode, List.flatMap_cons, hsymbol]
    exact hfeed ▸ List.mem_cons_self

/-- When the file has one more line than before, with the token in it. -/
theorem saved_iff (file : Option Bytes) :
    (∃ entry, fileLines (some (file.getD [] ++
        asBytes (recoveryEntry now token mintUrl error ++ "\n"))) = fileLines file ++ [entry] ∧
      decodeEntry entry = some token) ↔
        LineLog.Ended lineFeed (file.getD []) ∧ '\n' ∉ mintUrl.toList ∧ '\n' ∉ error.toList := by
  obtain ⟨symbol, hstart, hsymbol⟩ := exists_head_recoveryEntry now token mintUrl error
  have hline : asBytes (recoveryEntry now token mintUrl error ++ "\n") =
      asBytes (recoveryEntry now token mintUrl error) ++ [lineFeed] := by
    rw [asBytes_eq, asBytes_eq, String.toList_append, encode_append]
    rfl
  have hwritten (entry : Bytes) :
      fileLines (some (file.getD [] ++ asBytes (recoveryEntry now token mintUrl error ++ "\n"))) =
        fileLines file ++ [entry] ↔ LineLog.Ended lineFeed (file.getD []) ∧
          lineFeed ∉ asBytes (recoveryEntry now token mintUrl error) ∧
            entry = asBytes (recoveryEntry now token mintUrl error) := by
    rw [fileLines, fileLines, Option.getD_some, hline]
    exact LineLog.lines_append_line_iff hstart hsymbol
  rw [← not_or, ← lineFeed_mem_recoveryEntry_iff now token mintUrl error]
  constructor
  · rintro ⟨entry, hentry, _⟩
    obtain ⟨hended, hfeed, _⟩ := (hwritten entry).mp hentry
    exact ⟨hended, hfeed⟩
  · rintro ⟨hended, hfeed⟩
    exact ⟨_, (hwritten _).mpr ⟨hended, hfeed, rfl⟩,
      decodeEntry_recoveryEntry now token mintUrl error⟩

/-- What a write leaves, and when it succeeds. -/
theorem writeRecoveryEntry_cases (disk : Disk) (path : PathBuf) (file : Option Bytes) :
    (disk.Saves path ∧ writeRecoveryEntry disk path now token mintUrl error file =
        (.ok (), some (file.getD [] ++ asBytes (recoveryEntry now token mintUrl error ++ "\n")))) ∨
      (¬ disk.Saves path ∧ ∃ ioErr written,
        writeRecoveryEntry disk path now token mintUrl error file = (.error ioErr, written)) := by
  unfold writeRecoveryEntry createParent Disk.Saves
  cases hopen : disk.openFile with
  | some ioErr =>
    refine Or.inr ⟨by simp, ?_⟩
    split
    · exact ⟨_, _, rfl⟩
    · exact ⟨_, _, rfl⟩
  | none =>
    cases hwrite : disk.writeAll with
    | some stopped =>
      refine Or.inr ⟨by simp, ?_⟩
      split
      · exact ⟨_, _, rfl⟩
      · exact ⟨_, _, rfl⟩
    | none =>
      cases hparent : path.parent with
      | none => exact Or.inl ⟨by simp, rfl⟩
      | some parent =>
        by_cases hempty : parent = ""
        · exact Or.inl ⟨by simp [hempty], by simp [hempty]⟩
        · cases hdir : disk.createDirAll with
          | none => exact Or.inl ⟨by simp, by simp [hempty]⟩
          | some ioErr => exact Or.inr ⟨by simp [hempty], ioErr, file, by simp [hempty]⟩

end Line

/-! ### When a recovery keeps the token -/

section Recovery

variable (crates : Crates) (outside : Outside) (wallet : CdkWallet) (file : Option Bytes)
  (call : RecoveryCall)

/-- A recovery keeps the token just when it goes into the file or is reported lost: the log does not
stop the call, the wallet does not call the token recovered, and if the line is written, it is a
line of its own. -/
theorem keepsToken_iff :
    KeepsToken crates outside wallet file call ↔
      ¬ (outside.infoEnabled = true ∧ CdkWallet.SplitsCharacter (fromUtf8Lossy call.token)) ∧
        ¬ wallet.Verifies crates outside.response (String.ofList (fromUtf8Lossy call.token)) ∧
          (outside.disk.Saves call.recoveryFile →
            LineLog.Ended lineFeed (file.getD []) ∧
              '\n' ∉ call.mintUrl.toList ∧ '\n' ∉ call.error.toList) := by
  by_cases hsplits : outside.infoEnabled = true ∧
      CdkWallet.SplitsCharacter (fromUtf8Lossy call.token)
  · simp [KeepsToken, recoverFailedToken, CdkWallet.receiveToken, hsplits]
  · rw [← verifyToken_ok_iff]
    have hswap := swap_notMem_verifyToken wallet crates outside.response
      (String.ofList (fromUtf8Lossy call.token))
    unfold KeepsToken recoverFailedToken CdkWallet.receiveToken
    rw [if_neg hsplits]
    cases hverified : wallet.verifyToken crates outside.response
      (String.ofList (fromUtf8Lossy call.token)) with
    | mk outcome requests =>
      rw [hverified] at hswap
      cases outcome with
      | ok amount => simp [hswap]
      | error error =>
        rcases writeRecoveryEntry_cases outside.now call.token call.mintUrl call.error outside.disk
          call.recoveryFile file with ⟨hsaves, hwritten⟩ | ⟨hfails, ioErr, written, hwritten⟩
        · simp only [hwritten, saved_iff, hsaves, hsplits]
          simp
        · simp [hwritten, hfails, hsplits]

end Recovery

/-! ### Tokens that are lost -/

/-- A token of one proof. -/
def oneProofToken : Token :=
  .tokenV4 [[⟨"secret", Vector.replicate 33 2, 8⟩]]

/-- Crates that know the text of one token. -/
def oneTokenCrates : Crates where
  parse text := if text = "cashuBone" then some oneProofToken else none
  mintUrl _ := some "https://mint.example/"
  value _ := some 8
  parseUrl _ := none

/-- A mint that calls the proof unspent, a file system without errors, and the log as it is by
default. -/
def quietOutside : Outside where
  infoEnabled := true
  response := .states ["UNSPENT"]
  now := 0
  disk := ⟨none, none, none⟩

/-- A wallet of that mint without proofs. -/
def emptyWallet : CdkWallet where
  mintUrl := "https://mint.example"
  proofs := []

/-- A call to recover a token, with the text of an error. -/
def recoveryOf (token : Bytes) (error : String) : RecoveryCall where
  token := token
  mintUrl := "https://mint.example"
  error := error
  recoveryFile := ⟨"/etc/tollgate/tokens-to-recover.txt", some "/etc/tollgate"⟩

/-- The token is called recovered and stays where it is; a token in which the twentieth byte is in
the middle of a character stops the call; an error of two lines makes two lines of the entry. -/
theorem token_lost :
    ¬ KeepsToken oneTokenCrates quietOutside emptyWallet none
        (recoveryOf (encode "cashuBone".toList) "refused") ∧
      ¬ KeepsToken oneTokenCrates quietOutside emptyWallet none
        (recoveryOf (List.replicate 19 0x61 ++ [0xc3, 0xa9]) "refused") ∧
        ¬ KeepsToken oneTokenCrates quietOutside emptyWallet none
          (recoveryOf [0x61] "status 500\nbody") := by
  refine ⟨fun hkeeps ↦ ?_, fun hkeeps ↦ ?_, fun hkeeps ↦ ?_⟩
  · have hworth : emptyWallet.worth = emptyWallet.worth + 8 := hkeeps.1
    exact absurd hworth (by decide)
  · exact hkeeps
  · have hsaved := (saved_iff 0 [0x61] "https://mint.example" "status 500\nbody" none).mp hkeeps
    exact hsaved.2.2 (by decide)

end Tollgate
