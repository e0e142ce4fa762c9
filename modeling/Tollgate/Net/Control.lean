import Tollgate.Library.Text
import Tollgate.Net.HttpBodies
import Tollgate.Net.Status

/-!
# The control socket

`control_server.rs`, and its client `control.rs`. A connection sends lines and is answered lines; a
line is a command as a JSON message, or else a command in plain text. Between two lines the node
goes on, so `ControlServer.machine` puts the lines of a connection beside the inputs of the node.

`serde_json` reads and writes the records of the socket; it is the parameter `ControlJson`, and
`ControlJson.Documented` says what is relied on: of a record and of an object something is written,
and it is one line with braces around it.

`ControlServer.answers_lines` is what a connection reads: one line for each line that it sent and
that is not blank, in their order, and each is what the line is processed to with the status of the
node at that moment.
-/

set_option autoImplicit false
set_option relaxedAutoImplicit false

namespace Tollgate

open Text Status

/-! ### Messages -/

/-- `CLIMessage`. -/
structure CliMessage where
  command : String
  args : Option (List String)
  flags : Option (List (String × String))

/-- `CLIResponse`. -/
structure CliResponse where
  success : Bool
  message : Option String
  data : Option Json
  error : Option String

namespace CliResponse

def ok (data : Json) : CliResponse :=
  ⟨true, none, some data, none⟩

def failed (message : String) : CliResponse :=
  ⟨false, none, none, some message⟩

end CliResponse

/-- What `serde_json` makes of the records of the socket: `from_str` and `to_string` for them,
`to_value` for a status, and the text of a value. -/
structure ControlJson where
  readMessage : String → Option CliMessage
  writeResponse : CliResponse → Option String
  statusValue : NodeStatus → Except String Json
  writeStatus : NodeStatus → Option String
  readStatus : String → Option NodeStatus
  print : Json → String

/-- A text in braces, on one line. -/
def ObjectLine (text : String) : Prop :=
  ∃ inside, text.toList = '\x7b' :: (inside ++ ['\x7d']) ∧ '\n' ∉ inside

/-- A record can be written, on one line, and so can an object. -/
structure ControlJson.Documented (json : ControlJson) : Prop where
  responses : ∀ response, ∃ text, json.writeResponse response = some text ∧ ObjectLine text
  statuses : ∀ status, ∃ text, json.writeStatus status = some text ∧ ObjectLine text
  objects : ∀ members, ObjectLine (json.print (.object members))

/-! ### The server -/

/-- What the server is built from: the crates, the version and the features of the program, and the
configuration as a value, if it can be made one. -/
structure ControlServer where
  cbor : Minicbor
  json : ControlJson
  version : String
  features : List String
  config : Except String Json

/-- A connection: the node, and whether the lines of the client are still read. -/
structure Connection where
  inner : Inner
  live : Bool

namespace ControlServer

variable (server : ControlServer)

/-- A command with one subcommand, which may be left out. -/
def subcommand (name known : String) (sub : Option String) (answer : CliResponse) : CliResponse :=
  match sub with
  | none => answer
  | some other =>
    if other = known then answer
    else .failed ("unknown " ++ name ++ " subcommand: " ++ other)

/-- `route`, with the status of the node. -/
def route (message : CliMessage) (status : NodeStatus) : CliResponse :=
  let sub := (message.args.getD []).head?
  if message.command = "status" then
    match server.json.statusValue status with
    | .ok value => .ok value
    | .error error => .failed ("serialize status: " ++ error)
  else if message.command = "version" then
    .ok (.object [("version", .string server.version),
      ("features", .array (server.features.map .string))])
  else if message.command = "health" then .ok (.object [("ok", .bool true)])
  else if message.command = "wallet" then
    subcommand "wallet" "balance" sub (.ok (.object [("balance", .number 0),
      ("note", .string "wallet balance not available in current architecture")]))
  else if message.command = "config" then
    subcommand "config" "get" sub
      (match server.config with
      | .ok value => .ok value
      | .error error => .failed ("serialize config: " ++ error))
  else .failed ("unknown command: " ++ message.command)

/-- `process_line`, with the status of the node: the empty text is no reply, and nothing is a reply
that could not be written. -/
def processLine (line : List Char) (status : NodeStatus) : Option String :=
  let trimmed := trim (String.ofList line)
  if trimmed = "" then some ""
  else
    match server.json.readMessage trimmed with
    | some message => server.json.writeResponse (server.route message status)
    | none =>
      if trimmed = "status" then server.json.writeStatus status
      else some (server.json.print (.object [("error", .string ("unknown command: " ++ trimmed))]))

/-- A line of the connection, its end, or anything else that happens to the node. -/
inductive Input
  | line (text : List Char) (now : Millis)
  | hangUp
  | node (input : Inner.Input)

/-- `handle`: what is written to a connection, line by line. A reply that could not be written ends
the connection. -/
def machine : Transducer Connection Input String where
  step connection
    | .node input =>
      (⟨((Inner.machine server.cbor).step connection.inner input).1, connection.live⟩, [])
    | .hangUp => (⟨connection.inner, false⟩, [])
    | .line text now =>
      if connection.live = true then
        match server.processLine text (connection.inner.status server.cbor now) with
        | some response => (connection, if response = "" then [] else [response])
        | none => (⟨connection.inner, false⟩, [])
      else (connection, [])

/-- What a connection is sent: every response on a line of its own. -/
def written (responses : List String) : List Char :=
  ofLines (responses.map String.toList)

end ControlServer

/-! ### The client -/

/-- Why a client makes nothing of an answer. -/
inductive QueryError
  | empty
  | parse
  deriving DecidableEq, Repr

/-- `query`, from the line that is read. -/
def query (json : ControlJson) (line : List Char) : Except QueryError NodeStatus :=
  let line := trim (String.ofList line)
  if line = "" then .error .empty
  else
    match json.readStatus line with
    | some status => .ok status
    | none => .error .parse

/-! ### One line -/

namespace ObjectLine

variable {text : String} (htext : ObjectLine text)

include htext

theorem ne_empty : text ≠ "" := by
  rintro rfl
  obtain ⟨inside, hinside, -⟩ := htext
  simp at hinside

theorem trim_eq : trim text = text := by
  obtain ⟨inside, hinside, -⟩ := htext
  exact trim_eq_self hinside (by decide) (by decide)

theorem newline_notMem : '\n' ∉ text.toList := by
  obtain ⟨inside, hinside, hnewline⟩ := htext
  simpa [hinside] using hnewline

/-- It does not end in a carriage return. -/
theorem stripCr_eq : stripCr text.toList = text.toList := by
  obtain ⟨inside, hinside, -⟩ := htext
  rw [hinside, ← List.cons_append, stripCr, stripSuffix, List.reverse_append,
    List.reverse_singleton, List.reverse_singleton, List.singleton_append,
    stripPrefix_cons_of_ne (by decide)]
  rfl

end ObjectLine

/-! ### What a connection reads -/

namespace ControlServer

/-- A line that is not blank, with what had happened to the node by then. -/
structure Question where
  line : List Char
  now : Millis
  before : List Inner.Input

/-- The lines that a client has sent before the connection ended. -/
def questions (before : List Inner.Input) : List Input → List Question
  | [] | .hangUp :: _ => []
  | .node input :: rest => questions (before ++ [input]) rest
  | .line text now :: rest =>
    if trim (String.ofList text) = "" then questions before rest
    else ⟨text, now, before⟩ :: questions before rest

variable (server : ControlServer) (inner : Inner)

/-- The status of the node at that moment. -/
def Question.status (question : Question) : NodeStatus :=
  ((Inner.machine server.cbor).final inner question.before).status server.cbor question.now

/-- A line answers another: it is what that line is processed to. Asked for the status in plain
text, a client is told what is read of the status as it is written; asked by a message, it is sent
the response with the value of the status. -/
structure Answers (question : Question) (line : List Char) : Prop where
  processed : server.processLine question.line (question.status server inner) =
    some (String.ofList line)
  plain : trim (String.ofList question.line) = "status" →
    server.json.readMessage "status" = none →
    ∀ status, (server.json.writeStatus (question.status server inner)).bind
        server.json.readStatus = some status →
      query server.json line = .ok status
  message : ∀ message value,
    server.json.readMessage (trim (String.ofList question.line)) = some message →
    message.command = "status" →
    server.json.statusValue (question.status server inner) = .ok value →
      server.json.writeResponse (.ok value) = some (String.ofList line)

/-- What a line that is not blank is processed to, as a line. -/
def Processed (question : Question) (response : String) : Prop :=
  server.processLine question.line (question.status server inner) = some response ∧
    ObjectLine response

variable {server inner}

/-- Every line that is not blank has a reply. -/
theorem processLine_of_not_blank (hjson : server.json.Documented) {line : List Char}
    (hline : trim (String.ofList line) ≠ "") (status : NodeStatus) :
    ∃ response, server.processLine line status = some response ∧ ObjectLine response := by
  simp only [processLine, if_neg hline]
  cases server.json.readMessage (trim (String.ofList line)) with
  | some message => exact hjson.responses _
  | none =>
    simp only
    split_ifs
    · exact hjson.statuses _
    · exact ⟨_, rfl, hjson.objects _⟩

/-- After the connection has ended nothing is written. -/
theorem outputs_of_ended (inner : Inner) (inputs : List Input) :
    server.machine.outputs ⟨inner, false⟩ inputs = [] := by
  induction inputs generalizing inner with
  | nil => rfl
  | cons input rest ih =>
    rw [Transducer.outputs_cons]
    cases input with
    | line text now => exact ih inner
    | hangUp => exact ih inner
    | node input => exact ih _

/-- What is written is the replies to the lines that are not blank. -/
theorem processed_outputs (hjson : server.json.Documented) (before : List Inner.Input)
    (inputs : List Input) :
    List.Forall₂ (server.Processed inner) (questions before inputs)
      (server.machine.outputs ⟨(Inner.machine server.cbor).final inner before, true⟩ inputs) := by
  induction inputs generalizing before with
  | nil => exact List.Forall₂.nil
  | cons input rest ih =>
    rw [Transducer.outputs_cons]
    cases input with
    | hangUp =>
      simp only [machine, List.nil_append]
      rw [← machine, outputs_of_ended]
      exact List.Forall₂.nil
    | node input =>
      have hrest := ih (before ++ [input])
      rw [Transducer.final_append] at hrest
      exact hrest
    | line text now =>
      by_cases hblank : trim (String.ofList text) = ""
      · simpa [questions, machine, processLine, hblank] using ih before
      · obtain ⟨response, hresponse, hline⟩ := processLine_of_not_blank hjson hblank
          (((Inner.machine server.cbor).final inner before).status server.cbor now)
        simp only [questions, if_neg hblank, machine, if_true, hresponse, if_neg hline.ne_empty]
        exact List.Forall₂.cons ⟨hresponse, hline⟩ (ih before)

theorem lines_written {responses : List String}
    (hresponses : ∀ response ∈ responses, ObjectLine response) :
    lines (written responses) = responses.map String.toList := by
  rw [written, lines_ofLines, List.map_map]
  · exact List.map_congr_left fun response hmem ↦ (hresponses response hmem).stripCr_eq
  · exact List.forall_mem_map.mpr fun response hmem ↦ (hresponses response hmem).newline_notMem

theorem Processed.answers {question : Question} {response : String}
    (hprocessed : server.Processed inner question response) :
    server.Answers inner question response.toList := by
  obtain ⟨hresponse, hline⟩ := hprocessed
  refine ⟨by rw [String.ofList_toList]; exact hresponse, fun hplain hnone status hstatus ↦ ?_,
    fun message value hmessage hcommand hvalue ↦ ?_⟩
  · simp only [processLine, hplain, hnone] at hresponse
    rw [if_neg (by decide), if_pos trivial] at hresponse
    rw [hresponse, Option.bind_some] at hstatus
    simp only [query, String.ofList_toList, hline.trim_eq, if_neg hline.ne_empty, hstatus]
  · have hblank : trim (String.ofList question.line) ≠ "" := by
      intro hblank
      simp only [processLine, if_pos hblank, Option.some.injEq] at hresponse
      exact hline.ne_empty hresponse.symm
    simp only [processLine, if_neg hblank, hmessage, route, if_pos hcommand, hvalue] at hresponse
    rw [String.ofList_toList, hresponse]

/-- For every run of a node and every connection to its control socket, the lines of the connection
among whatever else happens: the connection reads one line for each line that is not blank and was
sent before its end, in their order. Each is what the line is processed to with the status of the
node at that moment, which the connection has no part in. Assumes: what `serde_json` writes is as
documented. -/
theorem answers_lines (hjson : server.json.Documented) (inner : Inner) (inputs : List Input) :
    List.Forall₂ (server.Answers inner) (questions [] inputs)
      (lines (written (server.machine.outputs ⟨inner, true⟩ inputs))) := by
  have hprocessed : List.Forall₂ (server.Processed inner) (questions [] inputs)
      (server.machine.outputs ⟨inner, true⟩ inputs) :=
    processed_outputs hjson [] inputs
  have hboth : List.Forall₂
      (fun response question ↦ ObjectLine response ∧
        server.Answers inner question response.toList)
      (server.machine.outputs ⟨inner, true⟩ inputs) (questions [] inputs) :=
    (hprocessed.imp fun _ _ hanswer ↦ ⟨hanswer.2, hanswer.answers⟩).flip
  obtain ⟨hlines, hanswers⟩ := (List.forall₂_and_left _ _).mp hboth
  rw [lines_written hlines, List.forall₂_map_right_iff]
  exact hanswers.flip

/-! ### A node that hears of an upstream -/

def sampleKey : PublicKey :=
  Vector.replicate 33 2

def sampleInner : Inner :=
  .new sampleKey "bytes" ⟨0, 1⟩ [] []

/-- A minute of the loop of an upstream. -/
def sampleEvent : ConsumeEvent :=
  ⟨"03ab", ⟨2, 3⟩, 5000, some ⟨60000, 1000, 20⟩, false, some (1 / 4)⟩

/-- The row of that upstream, two seconds later. -/
def sampleRow : Status.PeerStatus where
  pubkey := "03ab"
  ip := some "http://192.168.1.1:2121"
  state := "Active"
  delivered := 20
  received := 1000
  ourPrice := ⟨0, 1⟩
  theirPrice := ⟨2, 3⟩
  theirBalance := 0
  ourBalance := 5000
  meteredSecs := 60
  idleMs := 2000
  drift := some (1 / 4)

/-- The status with some rows. -/
def sampleStatus (peers : List Status.PeerStatus) : NodeStatus :=
  ⟨keyText sampleKey, "bytes", peers, .default⟩

/-- The text of the status with the texts of its rows. -/
def sampleText (rows : String) : String :=
  "\x7b" ++ ("\"pubkey\":\"" ++ keyText sampleKey ++ "\",\"unit\":\"bytes\",\"peers\":[" ++ rows ++
    "],\"pricing\":\x7b\"products\":[],\"min_interval_ms\":0,\"max_interval_ms\":0\x7d") ++ "\x7d"

def sampleRowText : String :=
  "\x7b" ++ ("\"pubkey\":\"03ab\",\"ip\":\"http://192.168.1.1:2121\",\"state\":\"Active\"," ++
    "\"delivered\":20,\"received\":1000," ++
    "\"our_price\":\x7b\"price_per_second\":0,\"price_per_unit\":1\x7d," ++
    "\"their_price\":\x7b\"price_per_second\":2,\"price_per_unit\":3\x7d," ++
    "\"their_balance\":0,\"our_balance\":5000,\"metered_secs\":60,\"idle_ms\":2000," ++
    "\"drift\":0.25") ++ "\x7d"

/-- The value of the status a second before, with its members sorted. -/
def sampleValue : Json :=
  .object [
    ("peers", .array [.object [("delivered", .number 20), ("drift", .decimal "0.25"),
      ("idle_ms", .number 1000), ("ip", .string "http://192.168.1.1:2121"),
      ("metered_secs", .number 60), ("our_balance", .number 5000),
      ("our_price", .object [("price_per_second", .number 0), ("price_per_unit", .number 1)]),
      ("pubkey", .string "03ab"), ("received", .number 1000), ("state", .string "Active"),
      ("their_balance", .number 0),
      ("their_price", .object [("price_per_second", .number 2), ("price_per_unit", .number 3)])]]),
    ("pricing", .object [("max_interval_ms", .number 0), ("min_interval_ms", .number 0),
      ("products", .array [])]),
    ("pubkey", .string (keyText sampleKey)), ("unit", .string "bytes")]

/-- The response with that value. -/
def sampleResponse : String :=
  "\x7b" ++ ("\"success\":true,\"message\":null,\"data\":\x7b\"peers\":[\x7b\"delivered\":20," ++
    "\"drift\":0.25,\"idle_ms\":1000,\"ip\":\"http://192.168.1.1:2121\"," ++
    "\"metered_secs\":60,\"our_balance\":5000," ++
    "\"our_price\":\x7b\"price_per_second\":0,\"price_per_unit\":1\x7d," ++
    "\"pubkey\":\"03ab\",\"received\":1000,\"state\":\"Active\",\"their_balance\":0," ++
    "\"their_price\":\x7b\"price_per_second\":2,\"price_per_unit\":3\x7d\x7d]," ++
    "\"pricing\":\x7b\"max_interval_ms\":0,\"min_interval_ms\":0,\"products\":[]\x7d," ++
    "\"pubkey\":\"" ++ keyText sampleKey ++ "\",\"unit\":\"bytes\"\x7d,\"error\":null") ++ "\x7d"

def sampleRefusal : String :=
  "\x7b" ++ "\"error\":\"unknown command: reboot\"" ++ "\x7d"

/-- What a status is written as: without its row, or with it. -/
def sampleWrite (status : NodeStatus) : String :=
  match status.peers with
  | [] => sampleText ""
  | _ :: _ => sampleText sampleRowText

/-- What the texts of the two statuses stand for. -/
def sampleRead (text : String) : Option NodeStatus :=
  if text = sampleText "" then some (sampleStatus [])
  else if text = sampleText sampleRowText then some (sampleStatus [sampleRow])
  else none

/-- What the records of the sample are read from, and written as. -/
def sampleJson : ControlJson where
  readMessage text :=
    if text = "\x7b\"command\":\"status\"\x7d" then some ⟨"status", none, none⟩ else none
  writeResponse _ := some sampleResponse
  statusValue _ := .ok sampleValue
  writeStatus status := some (sampleWrite status)
  readStatus := sampleRead
  print _ := sampleRefusal

def sampleControl : ControlServer :=
  ⟨.derived, sampleJson, "0.1.0", [], .error "unsupported type"⟩

theorem objectLine_braces {inside : String} (hinside : '\n' ∉ inside.toList) :
    ObjectLine ("\x7b" ++ inside ++ "\x7d") :=
  ⟨inside.toList, by simp, hinside⟩

theorem newline_notMem_sampleKey : '\n' ∉ (keyText sampleKey).toList := by
  rw [keyText, String.toList_ofList]
  exact newline_notMem_hexEncode _

theorem objectLine_sampleText : ObjectLine (sampleText "") :=
  objectLine_braces (by simp [newline_notMem_sampleKey])

theorem newline_notMem_append {first second : String} (hfirst : '\n' ∉ first.toList)
    (hsecond : '\n' ∉ second.toList) : '\n' ∉ (first ++ second).toList := by
  rw [String.toList_append, List.mem_append]
  exact fun hmem ↦ hmem.elim hfirst hsecond

theorem objectLine_rowText : ObjectLine sampleRowText := by
  refine objectLine_braces ?_
  refine newline_notMem_append (newline_notMem_append (newline_notMem_append
    (newline_notMem_append (newline_notMem_append ?_ ?_) ?_) ?_) ?_) ?_ <;> decide

theorem objectLine_sampleRowText : ObjectLine (sampleText sampleRowText) :=
  objectLine_braces (by simp [newline_notMem_sampleKey, objectLine_rowText.newline_notMem])

theorem objectLine_sampleResponse : ObjectLine sampleResponse := by
  refine objectLine_braces (newline_notMem_append (newline_notMem_append ?_
    newline_notMem_sampleKey) (by decide))
  refine newline_notMem_append (newline_notMem_append (newline_notMem_append
    (newline_notMem_append (newline_notMem_append (newline_notMem_append (newline_notMem_append
      ?_ ?_) ?_) ?_) ?_) ?_) ?_) ?_ <;> decide

theorem objectLine_sampleRefusal : ObjectLine sampleRefusal :=
  objectLine_braces (by simp)

theorem sampleJson_documented : sampleJson.Documented where
  responses _ := ⟨sampleResponse, rfl, objectLine_sampleResponse⟩
  statuses status := by
    refine ⟨sampleWrite status, rfl, ?_⟩
    unfold sampleWrite
    split
    · exact objectLine_sampleText
    · exact objectLine_sampleRowText
  objects _ := objectLine_sampleRefusal

/-- The upstream, as an input of the node. -/
def sampleHeard : Inner.Input :=
  .recordUpstream "http://192.168.1.1:2121" sampleEvent 1000

def sampleLines : List Input :=
  [.line "status".toList 0, .node sampleHeard, .line " ".toList 1500,
    .line "\x7b\"command\":\"status\"\x7d".toList 2000, .line "reboot".toList 2500,
    .line " status".toList 3000, .hangUp, .line "status".toList 4000]

theorem questions_sampleLines :
    questions [] sampleLines = [⟨"status".toList, 0, []⟩,
      ⟨"\x7b\"command\":\"status\"\x7d".toList, 2000, [sampleHeard]⟩,
      ⟨"reboot".toList, 2500, [sampleHeard]⟩, ⟨" status".toList, 3000, [sampleHeard]⟩] := rfl

theorem status_before :
    Question.status sampleControl sampleInner ⟨"status".toList, 0, []⟩ = sampleStatus [] := rfl

theorem status_after :
    Question.status sampleControl sampleInner ⟨" status".toList, 3000, [sampleHeard]⟩ =
      sampleStatus [sampleRow] := rfl

theorem sampleRead_quiet : sampleRead (sampleWrite (sampleStatus [])) = some (sampleStatus []) := by
  have hwrite : sampleWrite (sampleStatus []) = sampleText "" := rfl
  rw [hwrite, sampleRead, if_pos rfl]

theorem sampleRead_row :
    sampleRead (sampleWrite (sampleStatus [sampleRow])) = some (sampleStatus [sampleRow]) := by
  have hwrite : sampleWrite (sampleStatus [sampleRow]) = sampleText sampleRowText := rfl
  have hother : sampleText sampleRowText ≠ sampleText "" := by
    intro hsame
    have hrows := congrArg String.toList hsame
    simp only [sampleText, String.toList_append, List.append_cancel_left_eq,
      List.append_cancel_right_eq] at hrows
    exact objectLine_rowText.ne_empty (String.toList_injective hrows)
  rw [hwrite, sampleRead, if_neg hother, if_pos rfl]

/-- Four of the lines are answered: the status before the upstream is heard of, the status with its
row by a message, a refusal, and the status with its row in plain text. -/
theorem answers_upstream :
    ∃ first second third last,
      lines (written (sampleControl.machine.outputs ⟨sampleInner, true⟩ sampleLines)) =
        [first, second, third, last] ∧
      query sampleJson first = .ok (sampleStatus []) ∧
      String.ofList second = sampleResponse ∧
      String.ofList third = sampleRefusal ∧
      query sampleJson last = .ok (sampleStatus [sampleRow]) := by
  have hanswers := @answers_lines sampleControl sampleJson_documented sampleInner sampleLines
  rw [questions_sampleLines] at hanswers
  obtain ⟨first, fromSecond, hfirst, hfromSecond, hlines⟩ :=
    List.forall₂_cons_left_iff.mp hanswers
  obtain ⟨second, fromThird, hsecond, hfromThird, rfl⟩ := List.forall₂_cons_left_iff.mp hfromSecond
  obtain ⟨third, fromLast, hthird, hfromLast, rfl⟩ := List.forall₂_cons_left_iff.mp hfromThird
  obtain ⟨last, rest, hlast, hrest, rfl⟩ := List.forall₂_cons_left_iff.mp hfromLast
  obtain rfl := List.forall₂_nil_left_iff.mp hrest
  refine ⟨first, second, third, last, hlines, ?_, ?_, ?_, ?_⟩
  · refine hfirst.plain (by decide) (by decide) _ ?_
    rw [status_before]
    change (some (sampleWrite (sampleStatus []))).bind sampleRead = _
    rw [Option.bind_some, sampleRead_quiet]
  · have hmessage := hsecond.message ⟨"status", none, none⟩ sampleValue
      (by simp only [sampleControl, sampleJson]; exact if_pos (by decide)) rfl rfl
    exact (Option.some.inj hmessage).symm
  · have hline : trim (String.ofList "reboot".toList) = "reboot" := by decide
    have hprocessed := hthird.processed
    simp only [processLine, hline] at hprocessed
    exact (Option.some.inj hprocessed).symm
  · refine hlast.plain (by decide) (by decide) _ ?_
    rw [status_after]
    change (some (sampleWrite (sampleStatus [sampleRow]))).bind sampleRead = _
    rw [Option.bind_some, sampleRead_row]

end ControlServer

end Tollgate
