import DevForge.ClosedParts
import DevForge.JsonText
import DevForge.RunAccumulator
import DevForge.StreamDecoder
import DevForge.Transition

/-!
# Following a run from the web client

The server writes events as blocks of lines; the client reads bytes, in pieces cut anywhere,
and connects again after the last number it has seen until the run is done.
-/

set_option autoImplicit false

namespace DevForge.RunStream
open JsonText RunAccumulator Transition
open WakeGate (Json)

/-! ## The server -/

/-- Payloads are objects. -/
structure RunEvent where
  seq : ℕ
  payload : List (String × Json)
  numbers : MembersOk payload

def RunEvent.data (e : RunEvent) : List Char := text (.obj e.payload)

/-- `event: done`, with the status of the run. -/
def doneData (status : String) : List Char := text (.obj [("status",.str status)])

inductive Frame
  | event (e : RunEvent)
  | done (status : String)
  /-- A comment, every fifteen seconds. -/
  | keepAlive

/-- An event up to its data. -/
def RunEvent.head (e : RunEvent) : List Char :=
  "id: ".toList++(toString e.seq).toList++"\nevent: message\ndata:".toList

def Frame.block : Frame → List Char
  | .event e => e.head++ ' '::e.data
  | .done status => "event: done\ndata: ".toList++doneData status
  | .keepAlive => [':']

def Frame.event? : Frame → Option RunEvent
  | .event e => some e
  | _ => none

/-- The text that `sse_from` sends. -/
def sseText (fs : List Frame) : List Char := ClosedParts.encode '\n' (fs.map Frame.block)

def bytes (cs : List Char) : List UInt8 := cs.flatMap String.utf8EncodeChar

/-! ## The parser -/

structure Block where
  event : String
  data : String
  id : Option String
deriving DecidableEq, Repr

def trimList (cs : List Char) : List Char :=
  ((cs.dropWhile jsWhitespace).reverse.dropWhile jsWhitespace).reverse

structure Fields where
  event : List Char
  data : List (List Char)
  id : Option (List Char)

def Fields.line (f : Fields) (line : List Char) : Fields :=
  if "event:".toList.isPrefixOf line then { f with event := trimList (line.drop 6) }
  else if "data:".toList.isPrefixOf line then
    { f with data := f.data++[(line.drop 5).dropWhile jsWhitespace] }
  else if "id:".toList.isPrefixOf line then { f with id := some (trimList (line.drop 3)) }
  else f

def Fields.block (f : Fields) : Option Block :=
  if f.data.isEmpty then none
  else some ⟨String.ofList f.event,String.ofList (List.intercalate ['\n'] f.data),f.id.map String.ofList⟩

def parseSseBlock (block : List Char) : Option Block :=
  ((block.splitOn '\n').foldl Fields.line ⟨"message".toList,[],none⟩).block

/-- `replace(/\r\n?/g, '\n')`. -/
def lineFeeds : List Char → List Char
  | [] => []
  | c::cs =>
    if c = Char.ofNat 13 then
      match cs with
      | d::ds => if d = '\n' then '\n'::lineFeeds ds else '\n'::lineFeeds (d::ds)
      | [] => ['\n']
    else c::lineFeeds cs

def decodeChar (bs : List UInt8) : Option Char :=
  (ByteArray.utf8DecodeChar? bs.toByteArray 0).filter (fun c => c.utf8Size = bs.length)

def replacement : Char := Char.ofNat 0xFFFD

/-- `decoder.decode(value, { stream: true })`. -/
def decodeBytes : List UInt8 → List UInt8 → List UInt8 × List Char :=
  StreamDecoder.decode decodeChar replacement 4

structure Parser where
  pending : List UInt8
  buf : List Char

def receiveBlock (js : Js) (a : Accumulator) (part : List Char) : Accumulator :=
  match parseSseBlock (trimList part) with
  | some b => a.onEvent js b.event b.data b.id
  | none => a

/-- `push` of decoded text. -/
def push (js : Js) (chunk : List Char) (s : List Char × Accumulator) : List Char × Accumulator :=
  let r := ClosedParts.scan '\n' [] (s.1++lineFeeds chunk)
  (r.2,r.1.foldl (receiveBlock js) s.2)

/-- `flush`: the text that is left counts as a part. -/
def flush (js : Js) (s : List Char × Accumulator) : Accumulator :=
  if trimList s.1 = [] then s.2
  else
    let r := ClosedParts.scan '\n' [] (s.1++['\n','\n'])
    (r.1++[r.2]).foldl (receiveBlock js) s.2

/-- The reads of `readInto`. -/
def readChunks (js : Js) : List (List UInt8) → Parser → Accumulator → Parser × Accumulator
  | [], p, a => (p,a)
  | chunk::chunks, p, a =>
    let d := decodeBytes p.pending chunk
    let s := push js d.2 (p.buf,a)
    readChunks js chunks ⟨d.1,s.1⟩ s.2

/-- `readInto`: without a clean end, what is left is dropped. -/
def readInto (js : Js) (chunks : List (List UInt8)) (clean : Bool) (a : Accumulator) : Accumulator :=
  let r := readChunks js chunks ⟨[],[]⟩ a
  if clean then flush js (push js (StreamDecoder.finish replacement r.1.pending) (r.1.buf,r.2)) else r.2

/-! ## Connections -/

inductive Connection
  /-- No answer, or a refusal that may pass. -/
  | failed
  /-- 401, 403, 404 or an abort. -/
  | fatal
  /-- What the server has to send, the pieces that arrive, and how the stream ends. -/
  | body (frames : List Frame) (chunks : List (List UInt8)) (clean : Bool)

inductive Ending | done | thrown
deriving DecidableEq, Repr

structure Follow where
  acc : Accumulator
  failures : ℕ
  ending : Option Ending

def Follow.start (acc : Accumulator) : Follow := ⟨acc,0,if acc.cursor.done then some .done else none⟩

/-- After a connection. -/
def Follow.after (maxFailures : ℕ) (acc : Accumulator) (s : Follow) : Follow :=
  let failures := if s.acc.cursor.lastSeq < acc.cursor.lastSeq then 1 else s.failures+1
  ⟨acc,failures,if acc.cursor.done then some .done else if maxFailures < failures then some .thrown
    else none⟩

/-- One round of `followRunInto`. -/
def step (js : Js) (maxFailures : ℕ) (s : Follow) (c : Connection) : Follow :=
  if s.ending.isSome then s
  else match c with
    | .fatal => { s with ending := some .thrown }
    | .failed => s.after maxFailures s.acc
    | .body _ chunks clean => s.after maxFailures (readInto js chunks clean s.acc)

/-! ## The property -/

/-- The connection serves the events above the cursor, then the end of the run; what arrives
is a beginning of it. -/
def Serves (es : List RunEvent) (s : Follow) : Connection → Prop
  | .body frames chunks _ => s.ending = none → ∃ fs status, frames = fs++[.done status] ∧
      (∀ f ∈ fs, ∀ st, f ≠ .done st) ∧
      fs.filterMap Frame.event? = es.filter (fun e => s.acc.cursor.lastSeq < e.seq) ∧
      chunks.flatten <+: bytes (sseText frames)
  | _ => True

/-- One delivery of every event, without interruption. -/
def deliver (js : Js) (es : List RunEvent) (a : Accumulator) : Accumulator :=
  es.foldl (fun a e => a.onEvent js "message" (String.ofList e.data) (some (toString e.seq))) a

/-! ## The condition -/

/-- So many bytes end inside the data of an event. -/
def Frame.cut : Frame → ℕ → Bool
  | .event e, n => (bytes e.head).length ≤ n && n < (bytes (Frame.event e).block).length
  | _, _ => false

def cutsData : List Frame → ℕ → Bool
  | [], _ => false
  | f::fs, n =>
    if (bytes (f.block++['\n','\n'])).length ≤ n then
      cutsData fs (n-(bytes (f.block++['\n','\n'])).length)
    else f.cut n

/-- A stream that ends without an error does not end inside the data of an event. -/
def Whole (s : Follow) : Connection → Prop
  | .body frames chunks clean => s.ending = none → clean = true →
    cutsData frames chunks.flatten.length = false
  | _ => True

end DevForge.RunStream
