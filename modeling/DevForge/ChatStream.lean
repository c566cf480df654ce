import DevForge.RunStream
import DevForge.SortedMap
import Mathlib.Data.List.DropRight

/-!
# Turns of a language model

A chat completion is read as one JSON value, or as a stream of bytes whose `data:` lines hold pieces
of it. The accumulator of the stream keeps unfinished characters and lines, concatenates the content,
and merges the pieces of the tool calls by their index.
-/

set_option autoImplicit false

namespace DevForge.ChatStream
open WakeGate (Json)
open WakeGate.Json (asStr)
open ToolArguments (digits)

/-- The library that reads and writes JSON. -/
structure Serde where
  fromStr : String → Option Json
  print : Json → String
  empty : fromStr "\x7b\x7d" = some (.obj [])
  blank : ∀ s, trim s = "" → fromStr s = none

structure ToolCallRequest where
  id : String
  name : String
  arguments : Json

structure AssistantTurn where
  content : String
  toolCalls : List ToolCallRequest
  finishReason : String

/-! ## The members of a completion -/

/-- The pointer `/choices/0`. -/
def choice (v : Json) : Option Json :=
  (v.get "choices").bind (fun c => match c with
    | .arr vs => vs.head?
    | c => c.get "0")

def finishText (v : Json) : Option String := (choice v).bind (fun c => (c.get "finish_reason").bind asStr)

/-- The message of a choice. -/
def message (v : Json) : Option Json := (choice v).bind (fun c => c.get "message")

/-- The piece of a message in a stream. -/
def delta (v : Json) : Option Json := (choice v).bind (fun c => (c.get "delta").or (c.get "message"))

def contentField (m : Option Json) : Option Json := m.bind (fun m => m.get "content")

def callsField (m : Option Json) : List Json :=
  match m.bind (fun m => m.get "tool_calls") with
  | some (.arr vs) => vs
  | _ => []

def idText (tc : Json) : Option String := (tc.get "id").bind asStr

def functionField (tc : Json) (key : String) : Option Json := (tc.get "function").bind (fun f => f.get key)

def nameText (tc : Json) : Option String := (functionField tc "name").bind asStr

def argumentsField (tc : Json) : Option Json := functionField tc "arguments"

def asU64 : Json → Option ℕ
  | .num text => (digits text.toList).filter (fun n => n < 2^64)
  | _ => none

/-! ## The whole message -/

section
variable (S : Serde)

/-- `from_str` of a text, or an empty object. -/
def argumentsOf (text : String) : Json := (S.fromStr text).getD (.obj [])

def callAt (i : ℕ) : String := "call_"++toString i

def wholeCall (tc : Json) (i : ℕ) : Option ToolCallRequest :=
  let name := (nameText tc).getD ""
  if name = "" then none
  else some ⟨(idText tc).getD (callAt i),name,argumentsOf S (((argumentsField tc).bind asStr).getD "\x7b\x7d")⟩

def turnFromCompletion (data : Json) : AssistantTurn where
  content := ((contentField (message data)).bind asStr).getD ""
  toolCalls := (callsField (message data)).zipIdx.filterMap (fun p => wholeCall S p.1 p.2)
  finishReason := (finishText data).getD "stop"

/-! ## The accumulator -/

structure PartialCall where
  id : String
  name : String
  args : String
deriving DecidableEq, Repr

def PartialCall.default : PartialCall := ⟨"","",""⟩

structure Accumulator where
  bytes : List UInt8
  line : List Char
  content : String
  calls : SortedMap ℕ PartialCall
  finish : Option String
  error : Option String
  done : Bool
  /-- The pieces of content that `push_bytes` has returned. -/
  shown : List String

def Accumulator.new : Accumulator := ⟨[],[],"",SortedMap.empty,none,none,false,[]⟩

/-- What the arguments of a piece add. -/
def argText : Option Json → String
  | some (.str a) => a
  | some (.obj ms) => S.print (.obj ms)
  | _ => ""

def mergeName (name : Option String) (c : PartialCall) : String :=
  match name with
  | none => c.name
  | some name =>
    if c.name = "" then name
    else if name ≠ "" && !name.toList.isSuffixOf c.name.toList && c.args = "" then c.name++name
    else c.name

def mergeInto (tc : Json) (c : PartialCall) : PartialCall where
  id := if (idText tc).getD "" ≠ "" && c.id = "" then (idText tc).getD "" else c.id
  name := mergeName (nameText tc) c
  args := c.args++argText S (argumentsField tc)

/-- An index whose call has another id is replaced by a new one. -/
def freeIndex (id : String) (calls : SortedMap ℕ PartialCall) (index : ℕ) : ℕ :=
  match calls.get index with
  | none => index
  | some existing =>
    if id ≠ "" && existing.id ≠ "" && existing.id ≠ id then
      max ((calls.lastKey.map (· + 1)).getD 0) (index+1)
    else index

def pieceIndex (pos : ℕ) (tc : Json) : ℕ := ((tc.get "index").bind asU64).getD pos

def mergeCall (calls : SortedMap ℕ PartialCall) (p : ℕ × Json) : SortedMap ℕ PartialCall :=
  calls.alter (freeIndex ((idText p.2).getD "") calls p.1) (fun c => mergeInto S p.2 (c.getD PartialCall.default))

/-- The pieces of tool calls in a value of the stream, with their indices. -/
def pieces (v : Json) : List (ℕ × Json) :=
  (callsField (delta v)).zipIdx.map (fun p => (pieceIndex p.2 p.1,p.1))

def deltaText (v : Json) : String := ((contentField (delta v)).bind asStr).getD ""

/-- A value that holds no error. -/
def receiveDelta (v : Json) (a : Accumulator) : Accumulator :=
  { a with
    finish := (finishText v).or a.finish
    content := a.content++deltaText v
    shown := if deltaText v = "" then a.shown else a.shown++[deltaText v]
    calls := (pieces v).foldl (mergeCall S) a.calls }

def receive (v : Json) (a : Accumulator) : Accumulator :=
  match v.get "error" with
  | some e => { a with error := some (((e.get "message").bind asStr).getD (S.print e)) }
  | none => receiveDelta S v a

def isBreak (c : Char) : Bool := c = '\n' || c = Char.ofNat 13

/-- `trim_end_matches(['\n', '\r'])`. -/
def trimBreaks (line : List Char) : List Char := line.rdropWhile isBreak

def doneText : String := "[DONE]"

/-- The data of a line. -/
def lineData (line : List Char) : Option String :=
  if "data:".toList.isPrefixOf (trimBreaks line) then some (trim (String.ofList ((trimBreaks line).drop 5))) else none

/-- The value in a line. -/
def payload (line : List Char) : Option Json :=
  (lineData line).bind (fun data => if data = "" || data = doneText then none else S.fromStr data)

def handleLine (a : Accumulator) (line : List Char) : Accumulator :=
  if lineData line = some doneText then { a with done := true }
  else match payload S line with
    | some v => receive S v a
    | none => a

def pushStr (chunk : List Char) (a : Accumulator) : Accumulator :=
  let lines := (a.line++chunk).splitOn '\n'
  lines.dropLast.foldl (handleLine S) { a with line := lines.getLast?.getD [] }

/-! ## Characters -/

/-- The bytes may follow the first byte of a character. -/
def continues (a b : UInt8) : Bool :=
  if a = 0xE0 then 0xA0 ≤ b && b ≤ 0xBF
  else if a = 0xED then 0x80 ≤ b && b ≤ 0x9F
  else if a = 0xF0 then 0x90 ≤ b && b ≤ 0xBF
  else if a = 0xF4 then 0x80 ≤ b && b ≤ 0x8F
  else 0x80 ≤ b && b ≤ 0xBF

/-- The beginning of a character. -/
def incomplete : List UInt8 → Bool
  | [a] => 0xC2 ≤ a && a ≤ 0xF4
  | [a,b] => 0xE0 ≤ a && a ≤ 0xF4 && continues a b
  | [a,b,c] => 0xF0 ≤ a && a ≤ 0xF4 && continues a b && 0x80 ≤ c && c ≤ 0xBF
  | _ => false

/-- `str::from_utf8`: the text and the beginning of a character after it, if there is nothing else. -/
def fromUtf8 (bs : List UInt8) : Option (List Char × List UInt8) :=
  let r := RunStream.decodeBytes [] bs
  if RunStream.bytes r.2++r.1 = bs && (r.1 = [] || incomplete r.1) then some (r.2,r.1) else none

/-- The first character, with the number of its bytes. -/
def firstChar (bs : List UInt8) : Option (Char × ℕ) :=
  [1,2,3,4].findSome? (fun n => (RunStream.decodeChar (bs.take n)).map (fun c => (c,n)))

/-- The bytes of the longest beginning of a character. -/
def badBytes (bs : List UInt8) : ℕ := ([3,2].find? (fun n => incomplete (bs.take n))).getD 1

/-- `from_utf8_lossy`, for so many bytes at most. -/
def fromUtf8Lossy : ℕ → List UInt8 → List Char
  | 0, _ => []
  | n+1, bs =>
    if bs = [] then []
    else match firstChar bs with
      | some (c,k) => c::fromUtf8Lossy n (bs.drop k)
      | none => RunStream.replacement::fromUtf8Lossy n (bs.drop (badBytes bs))

def pushBytes (a : Accumulator) (chunk : List UInt8) : Accumulator :=
  let bs := a.bytes++chunk
  match fromUtf8 bs with
  | some (text,rest) => pushStr S text { a with bytes := rest }
  | none => pushStr S (fromUtf8Lossy bs.length bs) { a with bytes := [] }

/-! ## The end of the stream -/

def finishedCall (i : ℕ) (c : PartialCall) : ToolCallRequest where
  id := if c.id = "" then callAt i else c.id
  name := c.name
  arguments := if trim c.args = "" then .obj [] else argumentsOf S c.args

def finishedCalls (calls : SortedMap ℕ PartialCall) : List ToolCallRequest :=
  (calls.entries.zipIdx.filter (fun p => p.1.2.name ≠ "")).map (fun p => finishedCall S p.2 p.1.2)

def finish (a : Accumulator) : AssistantTurn :=
  let a := if a.line.isEmpty then a else handleLine S { a with line := [] } a.line
  let toolCalls := finishedCalls S a.calls
  ⟨a.content,toolCalls,a.finish.getD (if toolCalls.isEmpty then "stop" else "tool_calls")⟩

end

end DevForge.ChatStream
