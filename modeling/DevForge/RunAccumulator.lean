import DevForge.ToolArguments
import Mathlib.Algebra.GroupWithZero.Nat

/-!
# What the web client accumulates of a run

One event after the other: the reply, the tool calls, the reflections, the plan and the
streamed text, with the calls of the handlers. What the client does besides, once the run is
over, stands outside.
-/

set_option autoImplicit false

namespace DevForge.RunAccumulator
open WakeGate (Json)

/-- `JSON.parse`, and the conversions `String(…)` and `Number(…)` of a value, a number being
kept as the text that it is printed as. -/
structure Js where
  parse : String → Option Json
  string : Json → String
  number : Json → String

/-! ## Values of the language -/

def jsWhitespace (c : Char) : Bool :=
  (isWhitespace c && c.toNat ≠ 0x85) || c.toNat = 0xFEFF

def jsTrim (s : String) : String := trimBy jsWhitespace s

def truthy : Option Json → Bool
  | some (.bool b) => b
  | some (.num t) => !(["0","-0","0.0","-0.0"].contains t)
  | some (.str s) => s ≠ ""
  | some (.arr _) => true
  | some (.obj _) => true
  | _ => false

/-- `===`; two objects that were parsed apart are never the same. -/
def strictEq : Option Json → Option Json → Bool
  | none, none => true
  | some .null, some .null => true
  | some (.bool a), some (.bool b) => a = b
  | some (.num a), some (.num b) => a = b
  | some (.str a), some (.str b) => a = b
  | _, _ => false

def isArray : Option Json → Bool
  | some (.arr _) => true
  | _ => false

def elements : Option Json → List Json
  | some (.arr vs) => vs
  | _ => []

/-- `String(v || otherwise)`. -/
def Js.stringOr (js : Js) (v : Option Json) (otherwise : String) : String :=
  if truthy v then v.elim otherwise js.string else otherwise

/-- `v ? String(v) : undefined`. -/
def Js.stringOf (js : Js) (v : Option Json) : Option String :=
  if truthy v then v.map js.string else none

/-- `Number(v || 0)`. -/
def Js.numberOr0 (js : Js) (v : Option Json) : String := if truthy v then v.elim "0" js.number else "0"

/-- Units of UTF-16. -/
def utf16Length (s : String) : ℕ := (s.toList.map (fun c => if c.toNat < 0x10000 then 1 else 2)).sum

/-- `slice(0, n)`; half a pair is no character. -/
def utf16Take : ℕ → List Char → List Char
  | _, [] => []
  | n, c::cs =>
    if (if c.toNat < 0x10000 then 1 else 2) ≤ n then
      c::utf16Take (n-(if c.toNat < 0x10000 then 1 else 2)) cs
    else []

/-! ## The accumulator -/

structure AgentReflection where
  label : String
  detail : String
  round : String
  seq : ℕ
deriving DecidableEq, Repr

structure AgentPlan where
  title : String
  summary : Option String
  steps : List String
deriving DecidableEq, Repr

inductive HandlerCall
  | runStarted (run message : String)
  | ack (text : String)
  | thinking (label round : String) (detail : Option String)
  | delta (text round : String)
  | deltaReset (round : String)
  | milestone (label : String) (status : String)
  | toolStart (call : Json)
  | toolDone (call : Json) (ok : Bool)
  | plan (plan : AgentPlan)

/-- The run, and what was seen of it. -/
structure Seen where
  runUuid : Option String
  reply : String
  provider : Option String
  toolCalls : List Json
  liveTools : List Json
  reflections : List AgentReflection
  plan : Option AgentPlan
  streamError : Option String
  executedPlan : Bool
  roundText : List (String × String)
  seq : ℕ
  calls : List HandlerCall

def Seen.start (runUuid : Option String) : Seen := ⟨runUuid,"",none,[],[],[],none,none,false,[],0,[]⟩

def Seen.handler (c : HandlerCall) (s : Seen) : Seen := { s with calls := s.calls++[c] }

def Seen.textOf (round : String) (s : Seen) : String := (s.roundText.lookup round).getD ""

def setText (round text : String) : List (String × String) → List (String × String)
  | [] => [(round,text)]
  | e::es => if e.1 = round then (round,text)::es else e::setText round text es

def Seen.reflect (label detail round : String) (s : Seen) : Seen :=
  { s with reflections := s.reflections++[⟨label,detail,round,s.seq⟩], seq := s.seq+1 }

/-! ## Tool calls -/

/-- A field that is undefined is left out. -/
def withField (key : String) (v : Option Json) (call : Json) : Json :=
  match v with
  | some v => call.insert key v
  | none => call

def seqField (n : ℕ) : Json := .num (toString n)

/-- `{ ...v }` of an object or an array. -/
def spread : Json → Json
  | .arr vs => .obj (vs.zipIdx.map (fun e => (toString e.2,e.1)))
  | v => v

def nonemptyString (v : Option Json) : Option Json :=
  match v with
  | some (.str s) => if s ≠ "" then some (.str s) else none
  | _ => none

def isObject : Json → Bool
  | .obj _ => true
  | .arr _ => true
  | _ => false

def normalizeToolCalls (raw : List Json) : List Json :=
  (raw.filter isObject).map (fun t =>
    let call := (spread t).remove "id"
    withField "call_id" ((nonemptyString (call.get "call_id")).or (nonemptyString (t.get "id"))) call)

def planFromToolCalls (js : Js) : List Json → Option AgentPlan
  | [] => none
  | t::ts =>
    let raw := (t.get "result").bind (fun r => r.get "plan")
    if !strictEq (t.get "name") (some (.str "propose_plan")) then planFromToolCalls js ts
    else if !truthy (raw.bind (fun p => p.get "title")) ||
      (elements (raw.bind (fun p => p.get "steps"))).isEmpty then planFromToolCalls js ts
    else raw.map (fun p => ⟨js.stringOr (p.get "title") "",js.stringOf (p.get "summary"),
      (elements (p.get "steps")).map js.string⟩)

/-- The call that a result completes, the last one first. -/
def completes (call t : Json) : Bool :=
  if truthy (call.get "call_id") && truthy (t.get "call_id") then
    strictEq (t.get "call_id") (call.get "call_id")
  else strictEq (t.get "name") (call.get "name") && !truthy (t.get "result")

def lastIndex (p : Json → Bool) (l : List Json) : Option ℕ :=
  (l.zipIdx.reverse.find? (fun e => p e.1)).map Prod.snd

def toolCall (js : Js) (payload : Json) : Json :=
  let arguments := if truthy (payload.get "arguments") then payload.get "arguments" else some (.obj [])
  withField "label" ((js.stringOf (payload.get "label")).map .str)
    (withField "arguments" arguments
      ((withField "call_id" ((js.stringOf (payload.get "id")).map .str) (.obj [])).insert "name"
        (.str (js.stringOr (payload.get "name") "?"))))

def toolDone (js : Js) (payload : Json) (s : Seen) : Seen :=
  let ok := !strictEq (payload.get "ok") (some (.bool false))
  let result := if truthy (payload.get "result") then payload.get "result" else some (.obj [("ok",.bool ok)])
  let elapsed := match payload.get "elapsed_ms" with
    | some (.num t) => some (.num t)
    | _ => none
  let call := withField "elapsed_ms" elapsed (withField "summary"
    ((js.stringOf (payload.get "summary")).map .str) (withField "result" result (toolCall js payload)))
  match lastIndex (completes call) s.liveTools with
  | some i =>
    let prev := (s.liveTools[i]?).getD .null
    let call := withField "seq" (prev.get "seq")
      (withField "label" ((call.get "label").or (prev.get "label")) call)
    ({ s with liveTools := s.liveTools.set i call }).handler (.toolDone call ok)
  | none =>
    let call := call.insert "seq" (seqField s.seq)
    ({ s with liveTools := s.liveTools++[call], seq := s.seq+1 }).handler (.toolDone call ok)

/-! ## Events -/

def thinking (js : Js) (payload : Json) (s : Seen) : Seen :=
  let label := js.stringOr (payload.get "label") "Réflexion…"
  let detail := (js.stringOf (payload.get "detail")).getD ""
  let round := js.numberOr0 (payload.get "round")
  (if jsTrim detail ≠ "" then s.reflect label detail round else s).handler
    (.thinking label round (if detail ≠ "" then some detail else none))

def delta (js : Js) (payload : Json) (s : Seen) : Seen :=
  let text := match payload.get "text" with
    | some .null => ""
    | some v => js.string v
    | none => ""
  let round := js.numberOr0 (payload.get "round")
  ({ s with roundText := setText round (s.textOf round++text) s.roundText }).handler (.delta text round)

def deltaReset (js : Js) (payload : Json) (s : Seen) : Seen :=
  let round := js.numberOr0 (payload.get "round")
  let text := jsTrim (s.textOf round)
  let s := { s with roundText := s.roundText.filter (fun e => e.1 ≠ round) }
  let label := if utf16Length text > 120 then String.ofList (utf16Take 120 text.toList)++"…" else text
  (if text ≠ "" then s.reflect label text round else s).handler (.deltaReset round)

def milestone (js : Js) (payload : Json) (s : Seen) : Seen :=
  let label := js.stringOr (payload.get "label") ""
  match payload.get "status" with
  | some (.str status) =>
    if status = "running" ∨ status = "done" ∨ status = "failed" then s.handler (.milestone label status)
    else s.handler (.thinking (if label ≠ "" then label else "Nouvel essai…")
      (js.numberOr0 (payload.get "round")) none)
  | _ => s.handler (.thinking (if label ≠ "" then label else "Nouvel essai…")
      (js.numberOr0 (payload.get "round")) none)

def replied (js : Js) (payload : Json) (s : Seen) : Seen :=
  let toolCalls := if isArray (payload.get "tool_calls") then
      normalizeToolCalls (elements (payload.get "tool_calls"))
    else s.liveTools
  { s with
    reply := js.stringOr (payload.get "content") ""
    executedPlan := strictEq (payload.get "executed_plan") (some (.bool true))
    provider := js.stringOf (payload.get "provider")
    toolCalls := toolCalls
    plan := s.plan.or (planFromToolCalls js toolCalls) }

/-- The part of `onEvent` that follows the cursor. -/
def Seen.payload (js : Js) (event : String) (payload : Json) (s : Seen) : Seen :=
  let type := js.stringOr (payload.get "type") event
  if type = "run_started" then
    ({ s with runUuid := (js.stringOf (payload.get "run_uuid")).or s.runUuid }).handler
      (.runStarted (js.stringOr (payload.get "run_uuid") "") (js.stringOr (payload.get "message_uuid") ""))
  else if type = "ack" then s.handler (.ack (js.stringOr (payload.get "text") ""))
  else if type = "thinking" then thinking js payload s
  else if type = "delta" then delta js payload s
  else if type = "delta_reset" then deltaReset js payload s
  else if type = "milestone" then milestone js payload s
  else if type = "tool_start" then
    let call := (toolCall js payload).insert "seq" (seqField s.seq)
    ({ s with liveTools := s.liveTools++[call], seq := s.seq+1 }).handler (.toolStart call)
  else if type = "tool_done" then toolDone js payload s
  else if type = "plan" then
    let plan : AgentPlan := ⟨js.stringOr (payload.get "title") "Plan",js.stringOf (payload.get "summary"),
      (elements (payload.get "steps")).map js.string⟩
    ({ s with plan := some plan }).handler (.plan plan)
  else if type = "reply" then replied js payload s
  else if type = "error" then
    { s with streamError := some (js.stringOr (payload.get "message") "Erreur agent") }
  else if event = "tool" ∧ truthy (payload.get "name") = true then
    ({ s with liveTools := s.liveTools++[payload] }).handler
      (.toolDone payload (!strictEq ((payload.get "result").bind (fun r => r.get "ok")) (some (.bool false))))
  else s

/-- An event whose data is not JSON is ignored. -/
def Seen.receive (js : Js) (event data : String) (s : Seen) : Seen :=
  match js.parse data with
  | some payload => s.payload js event payload
  | none => s

structure RunCursor where
  lastSeq : ℕ
  done : Bool
  status : Option String
deriving DecidableEq, Repr

structure Accumulator where
  cursor : RunCursor
  seen : Seen

def createRunAccumulator (runUuid : Option String) (after : ℕ) : Accumulator :=
  ⟨⟨after,false,none⟩,Seen.start runUuid⟩

/-- The number nearest to an integer among those of 53 bits; a tie goes to the even one. -/
def toDouble (n : ℕ) : ℕ :=
  let unit := 2^(n.log2-52)
  let low := n/unit
  let half := 2*(n%unit)
  unit*(if half < unit ∨ (half = unit ∧ low%2 = 0) then low else low+1)

/-- `Number(id)` of a text of digits. -/
def sequenceOf (id : String) : Option ℕ :=
  if id ≠ "" ∧ id.toList.all Char.isDigit = true then
    some (toDouble (id.toList.foldl (fun n c => 10*n+(c.toNat-48)) 0))
  else none

def Accumulator.onEvent (js : Js) (event data : String) (id : Option String) (a : Accumulator) :
    Accumulator :=
  if event = "done" then
    { a with cursor := { a.cursor with
        done := true
        status := (js.parse data).elim a.cursor.status
          (fun v => (js.stringOf (v.get "status")).filter (· ≠ "")) } }
  else match id.bind sequenceOf with
    | some n =>
      if n ≤ a.cursor.lastSeq then a
      else ⟨{ a.cursor with lastSeq := n },a.seen.receive js event data⟩
    | none => ⟨a.cursor,a.seen.receive js event data⟩

end DevForge.RunAccumulator
