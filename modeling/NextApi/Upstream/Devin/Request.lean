import NextApi.Json.Codec
import NextApi.Protocol.Ir
import NextApi.Text.Lines

/-!
# From Responses requests to Devin messages

A request for a Devin upstream is made of the body of a Responses request. The items of the input
are folded into messages of three kinds, neighbouring items of the assistant into one; the official
client is imitated with its head prompt and a first message about the environment. All ids are drawn
from a seed, so that the requests of one session have the same.

A request is the list of its numbered fields (`Wire`), before they are turned into bytes. The head
prompt is a file (`CliPrompt`), and the environment and the fingerprint are given.
-/

set_option autoImplicit false

namespace NextApi.Devin

open Json

/-! ### Ids -/

class Sha256 where
  digest : String → Vector UInt8 32

/-- `{b:02x}` for every byte. -/
def hexDigits (bytes : List UInt8) : List Char :=
  bytes.flatMap fun b ↦ [Nat.digitChar (b.toNat / 16), Nat.digitChar (b.toNat % 16)]

def adjectives : List String :=
  ["amber", "ancient", "autumn", "bold", "brave", "bright", "calm", "clever", "crimson", "crystal",
    "curious", "dancing", "dawn", "diamond", "distant", "eager", "emerald", "fabled", "fancy",
    "gentle", "glorious", "golden", "happy", "hidden", "humble", "ivory", "joyful", "keen",
    "lively", "lucky", "lunar", "mellow", "misty", "noble", "proud", "quiet", "rapid", "rusty",
    "silent", "silver", "sleepy", "spring", "starry", "steady", "sunny", "velvet", "vivid", "wild"]

def nouns : List String :=
  ["anchor", "archive", "aurora", "badger", "beacon", "blossom", "breeze", "brook", "canyon",
    "cascade", "citadel", "comet", "compass", "coral", "crane", "creek", "delta", "dolphin",
    "ember", "falcon", "fjord", "forest", "fountain", "galaxy", "harbor", "horizon", "island",
    "jasper", "lantern", "marsh", "meadow", "meteor", "orchestra", "orchid", "otter", "pebble",
    "pillow", "quill", "raven", "river", "savanna", "solstice", "summit", "thicket", "thunder",
    "valley", "willow", "zephyr"]

section Ids

variable [Sha256]

/-- The bytes of an id. -/
def idBytes (seed : String) : List UInt8 := (Sha256.digest seed).toList.take 16

def detUuid (seed : String) : String :=
  let hex := hexDigits (idBytes seed)
  String.ofList (hex.take 8 ++ ['-'] ++ (hex.drop 8).take 4 ++ ['-'] ++ (hex.drop 12).take 4 ++
    ['-'] ++ (hex.drop 16).take 4 ++ ['-'] ++ hex.drop 20)

def codename (seed : String) : String :=
  let d := Sha256.digest seed
  adjectives.getD (d[0].toNat % adjectives.length) "" ++ "-" ++
    nouns.getD (d[1].toNat % nouns.length) ""

end Ids

/-! ### The environment -/

/-- What a request reads of the process and the clock. -/
structure Environment where
  os : String
  osVersion : String
  hostname : String
  arch : String
  date : String
  weekday : String
  datetime : String
  gatewayVersion : String

inductive SystemInfoSpec where
  | default
  | off
  | template (t : String)
  deriving DecidableEq, Inhabited

/-- `trim().is_empty()`. -/
def isBlank (s : String) : Bool := (Text.trim s.toList).isEmpty

def systemInfoSpec (extra : Value) : SystemInfoSpec :=
  match extra.get? "system_info" with
  | none => .default
  | some v =>
    if v.asBool = some false then .off
    else if v.asStr.any isBlank then .off
    else
      match v.asStr with
      | some s => .template s
      | none =>
        (((v.get? "template").bind Value.asStr).filter fun t ↦ !isBlank t).elim .default .template

/-- The first letter as a capital. -/
def cap : List Char → List Char
  | [] => []
  | first :: rest => first.toUpper :: rest

def modelDisplayName (uid : String) : Option String :=
  if "swe-".toList.isPrefixOf uid.toList then
    match ((uid.toList.drop 4).splitOn '-').filter fun p ↦ !p.isEmpty with
    | [] => none
    | major :: rest =>
      if major.all Char.isDigit then
        let (minor, tiers) :=
          match rest with
          | p :: tiers => if p.all Char.isDigit then ('.' :: p, tiers) else ([], rest)
          | [] => ([], [])
        some (String.ofList ("SWE-".toList ++ major ++ minor ++
          tiers.flatMap fun tier ↦ ' ' :: cap tier))
      else none
  else none

/-- The head prompt of the official client. -/
class CliPrompt where
  text : List Char

/-- The last place where a text has another one. -/
def rfind (needle text : List Char) : Option ℕ :=
  (List.range (text.length + 1)).reverse.find? fun i ↦ needle.isPrefixOf (text.drop i)

def renderCliPrompt [CliPrompt] (modelUid : String) : String :=
  match modelDisplayName modelUid with
  | none => String.ofList CliPrompt.text
  | some name =>
    match rfind "You are powered by ".toList CliPrompt.text with
    | some idx =>
      String.ofList (CliPrompt.text.take idx ++ "You are powered by ".toList ++ name.toList ++
        ['.'] ++ (CliPrompt.text.drop idx).dropWhile fun ch ↦ ch != '\n')
    | none => String.ofList CliPrompt.text

def defaultSystemInfo : String :=
  "<system_info>\nThe following information is automatically generated context about your " ++
    "current environment.\nCurrent workspace directories:\n  \x7bcwd\x7d (cwd)\n\nPlatform: " ++
    "\x7bplatform\x7d\nOS Version: \x7bos_version\x7d\nToday's date: \x7bweekday\x7d, " ++
    "\x7bdate\x7d\n</system_info>"

def builtinVars (env : Environment) (modelUid : String) : List (String × String) :=
  [("cwd", "/workspace"), ("platform", env.os), ("os_version", env.osVersion), ("date", env.date),
    ("weekday", env.weekday), ("datetime", env.datetime), ("hostname", env.hostname),
    ("arch", env.arch), ("model", modelUid),
    ("model_display", (modelDisplayName modelUid).getD modelUid),
    ("gateway_version", env.gatewayVersion)]

/-- Replaces the known names between braces. -/
def renderVars (vars : List (String × String)) (template : List Char) : List Char :=
  match _h : template.dropWhile fun ch ↦ ch != '\x7b' with
  | [] => template
  | opening :: after =>
    let before := template.takeWhile fun ch ↦ ch != '\x7b'
    match _hname : after.dropWhile fun ch ↦ ch != '\x7d' with
    | [] => template
    | closing :: rest =>
      let name := after.takeWhile fun ch ↦ ch != '\x7d'
      let key := Ir.toAsciiLowercase (String.ofList (Text.trim name))
      before ++ ((vars.find? fun var ↦ decide (var.1 = key)).elim
        (opening :: name ++ [closing]) fun var ↦ var.2.toList) ++ renderVars vars rest
termination_by template.length
decreasing_by
  have hafter := (List.dropWhile_sublist (l := template) fun ch ↦ ch != '\x7b').length_le
  have hrest := (List.dropWhile_sublist (l := after) fun ch ↦ ch != '\x7d').length_le
  rw [_h, List.length_cons] at hafter
  rw [_hname, List.length_cons] at hrest
  omega

/-- Replaces the value of a name, or adds it. -/
def setVar (vars : List (String × String)) (var : String × String) : List (String × String) :=
  match vars with
  | [] => [var]
  | (key, v) :: rest => if key = var.1 then (key, var.2) :: rest else (key, v) :: setVar rest var

def renderSystemInfo (env : Environment) (spec : SystemInfoSpec) (modelUid : String)
    (callerVars : List (String × String)) : Option String :=
  let render (template : String) : String :=
    String.ofList (renderVars (callerVars.foldl setVar (builtinVars env modelUid)) template.toList)
  match spec with
  | .off => none
  | .default => some (render defaultSystemInfo)
  | .template t => some (render t)

structure RequestOptions where
  cliEmulation : Bool
  systemInfo : SystemInfoSpec
  vars : List (String × String) := []

def RequestOptions.fromExtra (extra : Value) : RequestOptions where
  cliEmulation := decide ((extra.get? "cli_emulation").bind Value.asBool ≠ some false)
  systemInfo := systemInfoSpec extra

/-! ### Messages -/

structure Tc where
  callId : String
  name : String
  args : String
  deriving DecidableEq, Inhabited

inductive Msg where
  | user (text : String)
  | assistant (text thinking : String) (calls : List Tc)
  | tool (callId text : String)
  deriving DecidableEq, Inhabited

/-- A member that is a text. -/
def textAt (v : Value) (key : String) : Option String := (v.get? key).bind Value.asStr

def partText (p : Value) : Option String :=
  let ty := (textAt p "type").getD ""
  if ty ∈ ["input_text", "output_text", "text", "summary_text"] then textAt p "text"
  else if ty ∈ ["input_image", "output_image", "image_url", "input_file"] then
    some "[图片/文件已省略：Devin 上游不支持多模态输入]"
  else none

def contentText : Value → String
  | .str s => s
  | .arr parts => "\n".intercalate (parts.filterMap partText)
  | _ => ""

def reasoningText (item : Value) : String :=
  "\n".intercalate (["summary", "content"].flatMap fun key ↦
    (((item.get? key).bind Value.asArray).getD []).filterMap fun p ↦
      (textAt p "text").filter fun t ↦ decide (t ≠ ""))

/-- A message of the assistant that is going on. -/
structure Pending where
  text : String := ""
  thinking : String := ""
  calls : List Tc := []

structure Folding where
  out : List Msg := []
  pending : Option Pending := none

namespace Folding

def flush (st : Folding) : Folding :=
  match st.pending with
  | some p => { out := st.out ++ [.assistant p.text p.thinking p.calls] }
  | none => st

/-- Adds to the message of the assistant, which begins with it if there is none. -/
def extend (st : Folding) (add : Pending → Pending) : Folding :=
  { st with pending := some (add (st.pending.getD {})) }

def push (st : Folding) (msg : Msg) : Folding := { st with out := st.out ++ [msg] }

variable [SerdeJson]

def readItem (st : Folding) (item : Value) : Folding :=
  let ty := (textAt item "type").getD "message"
  if ty = "message" ∨ ty = "" then
    let text := contentText ((item.get? "content").getD .null)
    if (textAt item "role").getD "user" = "assistant" then
      st.extend fun p ↦ { p with text := p.text ++ text }
    else st.flush.push (.user text)
  else if ty = "reasoning" then
    let think := reasoningText item
    if think = "" then st else st.extend fun p ↦ { p with thinking := p.thinking ++ think }
  else if ty = "function_call" then
    let tc : Tc :=
      { callId := (((item.get? "call_id").or (item.get? "id")).bind Value.asStr).getD ""
        name := (textAt item "name").getD ""
        args := (textAt item "arguments").getD "\x7b\x7d" }
    st.extend fun p ↦ { p with calls := p.calls ++ [tc] }
  else if ty = "function_call_output" then
    let text :=
      match (item.get? "output").getD .null with
      | .str s => s
      | other => SerdeJson.toText other
    st.flush.push (.tool ((textAt item "call_id").getD "") text)
  else st

end Folding

def inputToMessages [SerdeJson] : Value → Except String (List Msg)
  | .str s => .ok [.user s]
  | .arr items => .ok (items.foldl Folding.readItem {}).flush.out
  | _ => .error "input 既非字符串也非数组"

/-! ### Fields -/

/-- The value of a field, before it is turned into bytes. -/
inductive Wire where
  | uint (n : ℕ)
  | double (x : Dyadic)
  | str (s : String)
  | msg (fields : List (ℕ × Wire))
  deriving Inhabited

/-- The fields of a message in the order in which they are put. -/
abbrev Fields := List (ℕ × Wire)

/-- The first field of a number. -/
def Fields.get? (fields : Fields) (number : ℕ) : Option Wire :=
  (fields.find? fun field ↦ decide (field.1 = number)).map Prod.snd

/-- All fields of a number. -/
def Fields.getAll (fields : Fields) (number : ℕ) : List Wire :=
  (fields.filter fun field ↦ decide (field.1 = number)).map Prod.snd

section Requests

variable [SerdeJson] [Sha256] [CliPrompt]

omit [SerdeJson] [CliPrompt] in
def encodeMessage (msg : Msg) (idx : ℕ) (seed : String) : Fields :=
  (1, .str (detUuid (seed ++ ":msg:" ++ toString idx))) ::
    match msg with
    | .user text => [(2, .uint 1), (3, .str text)]
    | .assistant text thinking calls =>
      (2, .uint 2) :: (if text = "" then [] else [(3, .str text)]) ++
        (if thinking = "" then [] else [(11, .str thinking)]) ++
        calls.map fun c ↦ (6, .msg [(1, .str c.callId), (2, .str c.name), (3, .str c.args)])
    | .tool callId text => [(2, .uint 4), (3, .str text), (7, .str callId)]

def metadataFields (env : Environment) (token fingerprint : String) : Fields :=
  [(1, .str "devin-cli"), (2, .str "3000.11.1"), (3, .str token), (4, .str "en"), (5, .str env.os),
    (7, .str "3000.11.1"), (12, .str "chisel"), (28, .str "chisel"), (31, .str fingerprint)]

/-- The defaults are those of the official client: 1.0 and the double of 0.95. -/
def completionFields (body : Value) : Fields :=
  [(1, .uint 1), (2, .uint (((body.get? "max_output_tokens").bind Value.asU64).getD 128000)),
    (3, .uint 400), (5, .double (((body.get? "temperature").bind Value.asF64).getD (.ofInt 1))),
    (7, .uint 40),
    (8, .double (((body.get? "top_p").bind Value.asF64).getD
      (.ofIntWithPrec 8556839292003942 53)))]

def toolFields (t : Value) : Option Fields :=
  if textAt t "type" = some "function" then
    let f := (t.get? "function").getD t
    (textAt f "name").map fun name ↦
      let params := (f.get? "parameters").getD
        (.object [("type", .str "object"), ("properties", .object [])])
      (1, .str name) :: ((textAt f "description").map fun desc ↦ (2, Wire.str desc)).toList ++
        [(3, .str (SerdeJson.toText params))]
  else none

def promptText (body : Value) (modelUid : String) (opts : RequestOptions) : String :=
  let callerPrompt := ((textAt body "instructions").map fun s ↦
    String.ofList (Text.trim s.toList)).filter fun s ↦ decide (s ≠ "")
  if opts.cliEmulation then
    match callerPrompt with
    | some extra => renderCliPrompt modelUid ++ "\n\n" ++ extra
    | none => renderCliPrompt modelUid
  else callerPrompt.getD "You are Devin, an interactive command line agent from Cognition."

/-- The seed of all ids. -/
def sessionSeed (body : Value) (modelUid : String) : String :=
  modelUid ++ ":" ++ SerdeJson.toText ((body.get? "input").getD .null)

/-- The message about the environment, if there is to be one. -/
def systemInfoMessage (env : Environment) (modelUid : String) (opts : RequestOptions) :
    Option Msg :=
  if opts.cliEmulation then
    (renderSystemInfo env opts.systemInfo modelUid opts.vars).map Msg.user
  else none

def isAssistant : Msg → Bool
  | .assistant _ _ _ => true
  | _ => false

def buildChatRequestEx (env : Environment) (fingerprint : String) (body : Value)
    (modelUid token : String) (opts : RequestOptions) : Except String Fields :=
  let seed := sessionSeed body modelUid
  (inputToMessages ((body.get? "input").getD .null)).map fun messages ↦
    let messages := (systemInfoMessage env modelUid opts).toList ++ messages
    let tools := (((body.get? "tools").bind Value.asArray).getD []).filterMap toolFields
    [(1, .msg (metadataFields env token fingerprint)), (2, .str (promptText body modelUid opts))] ++
      (messages.zipIdx.map fun entry ↦ (3, .msg (encodeMessage entry.1 entry.2 seed))) ++
      [(7, .uint 5), (8, .msg (completionFields body))] ++
      (tools.map fun fields ↦ (10, .msg fields)) ++
      [(15, .msg [(1, .str (detUuid (seed ++ ":traj"))),
          (2, .uint ((messages.filter isAssistant).length + 1)), (3, .uint 4)]),
        (16, .str (detUuid (seed ++ ":exec"))), (20, .uint 1), (21, .str modelUid),
        (28, .str (codename seed))]

end Requests

end NextApi.Devin
