import DevForge.StreamedTurns

/-!
# What is shown of a stream

The bytes of a stream may be cut anywhere. What is shown while they arrive is the content of the
turn, but for the content of a last line that no newline ends: it is read when the turn is
finished, and shown to nobody.
-/

set_option autoImplicit false

namespace DevForge.ChunkedDeltas
open WakeGate (Json)
open ChatStream StreamedTurns
open RunStream (bytes)

section
variable (S : Serde)

/-- The content in a line. -/
def lineText (line : List Char) : String :=
  match payload S line with
  | some v => if (v.get "error").isSome then "" else deltaText v
  | none => ""

/-- What follows the last newline. -/
def lastLine (text : List Char) : List Char := (text.splitOn '\n').getLast?.getD []

def received (parts : List (List UInt8)) : Accumulator := parts.foldl (pushBytes S) Accumulator.new

/-- The text and the turn are those of the uncut stream, and the text is the content of a turn
without tool calls. -/
structure SameForEveryCut (text : List Char) : Prop where
  shown : ∀ parts, parts.flatten = bytes text →
    joined (received S parts).shown = joined (received S [bytes text]).shown
  turn : ∀ parts, parts.flatten = bytes text → finish S (received S parts) = finish S (received S [bytes text])
  content : ∀ parts, parts.flatten = bytes text → (finish S (received S parts)).toolCalls = [] →
    joined (received S parts).shown = (finish S (received S parts)).content

theorem joined_append (l m : List String) : joined (l++m) = joined l++joined m := by
  induction l with
  | nil => simp [joined]
  | cons s l ih => rw [List.cons_append, joined, ih, joined, String.append_assoc]

theorem receive_text (v : Json) (a : Accumulator) :
    joined (receive S v a).shown = joined a.shown++(if (v.get "error").isSome then "" else deltaText v) ∧
      (receive S v a).content = a.content++(if (v.get "error").isSome then "" else deltaText v) := by
  unfold receive
  cases v.get "error" with
  | some e => simp
  | none =>
    by_cases ht : deltaText v = ""
    · simp [receiveDelta, ht]
    · simp [receiveDelta, ht, joined_append, joined]

theorem handleLine_text (a : Accumulator) (line : List Char) :
    joined (handleLine S a line).shown = joined a.shown++lineText S line ∧
      (handleLine S a line).content = a.content++lineText S line := by
  unfold handleLine
  split
  · next hdone =>
    have hnone : payload S line = none := by simp [payload, hdone]
    simp [lineText, hnone]
  · cases hv : payload S line with
    | none => simp [lineText, hv]
    | some v =>
      have htext : lineText S line = if (v.get "error").isSome then "" else deltaText v := by rw [lineText, hv]
      rw [htext]
      exact receive_text S v a

/-- What is shown of the lines that have ended is their content. -/
theorem foldl_shown (lines : List (List Char)) (a : Accumulator) (h : joined a.shown = a.content) :
    joined (lines.foldl (handleLine S) a).shown = (lines.foldl (handleLine S) a).content := by
  induction lines generalizing a with
  | nil => exact h
  | cons line lines ih =>
    have hline := handleLine_text S a line
    exact ih _ (by rw [hline.1, hline.2, h])

theorem received_eq {text : List Char} {parts : List (List UInt8)} (h : parts.flatten = bytes text) :
    received S parts = keep (lastLine text) [] ((text.splitOn '\n').dropLast.foldl (handleLine S) Accumulator.new) := by
  rw [received, pushBytes_all S parts text Accumulator.new h (Or.inl rfl) List.not_mem_nil, pushStr_eq]
  rfl

theorem finish_content (a : Accumulator) : (finish S a).content = a.content++lineText S a.line := by
  have hnil : lineText S [] = "" := by rw [lineText, payload_nil]
  unfold finish
  dsimp only
  split
  · next hempty => rw [List.isEmpty_iff.mp hempty, hnil, String.append_empty]
  · exact (handleLine_text S { a with line := [] } a.line).2

/-- What is shown of a turn without tool calls is its content if and only if the last line brings none. -/
theorem same_for_every_cut_iff (text : List Char) : SameForEveryCut S text ↔
    ((finish S (received S [bytes text])).toolCalls = [] → lineText S (lastLine text) = "") := by
  have hsame : ∀ parts, parts.flatten = bytes text → received S parts = received S [bytes text] := by
    intro parts h
    rw [received_eq S h, received_eq S (List.flatten_singleton)]
  have hshown : joined (received S [bytes text]).shown = (received S [bytes text]).content := by
    rw [received_eq S List.flatten_singleton]
    exact foldl_shown S _ _ rfl
  have hline : (received S [bytes text]).line = lastLine text := by
    rw [received_eq S List.flatten_singleton]
    rfl
  have hcontent : (finish S (received S [bytes text])).content =
      joined (received S [bytes text]).shown++lineText S (lastLine text) := by
    rw [finish_content, hline, hshown]
  constructor
  · intro h hcalls
    have heq := h.content [bytes text] List.flatten_singleton hcalls
    rw [hcontent] at heq
    exact String.append_eq_left_iff.mp heq.symm
  · intro h
    refine ⟨fun parts hparts => by rw [hsame parts hparts],fun parts hparts => by rw [hsame parts hparts],?_⟩
    intro parts hparts hcalls
    rw [hsame parts hparts] at hcalls ⊢
    rw [hcontent, h hcalls, String.append_empty]

end

def hello : List (String × Json) := [("choices",.arr [.obj [("delta",.obj [("content",.str "hello")])]])]

def helloSerde : Serde := serdeOf [.obj hello] (by
  intro v hv
  obtain rfl := List.mem_singleton.mp hv
  exact trim_printed_ne _)

/-- A stream that ends without a newline: its content is in the turn and not shown. -/
theorem last_line_not_shown : ¬SameForEveryCut helloSerde (lineOf (.obj hello)) := by
  have hread : helloSerde.fromStr (printed (.obj hello)) = some (.obj hello) :=
    serdeOf_reads _ (printed_cons_ne _ _) (List.find?_cons_of_pos (decide_eq_true rfl))
  have hline : '\n' ∉ lineOf (.obj hello) := by
    apply line_unbroken
    simp [hello, JsonText.NumbersOk, JsonText.MembersOk, JsonText.ListOk]
  have hone : (lineOf (.obj hello)).splitOn '\n' = [lineOf (.obj hello)] := List.splitOn_eq_singleton hline
  have hlast : lastLine (lineOf (.obj hello)) = lineOf (.obj hello) := by
    rw [lastLine, hone]
    rfl
  have hreceived : received helloSerde [bytes (lineOf (.obj hello))] = keep (lineOf (.obj hello)) [] Accumulator.new := by
    rw [received_eq helloSerde List.flatten_singleton, hlast, hone]
    rfl
  have hturn : finish helloSerde (received helloSerde [bytes (lineOf (.obj hello))]) = ⟨"hello",[],"stop"⟩ := by
    have hdone : lineData (lineOf (.obj hello)) ≠ some doneText := by
      rw [lineData_line]
      exact fun h => printed_head hello doneText (by decide) (Option.some.inj h)
    have hhandled : handleLine helloSerde (keep [] [] Accumulator.new) (lineOf (.obj hello)) =
        receive helloSerde (.obj hello) (keep [] [] Accumulator.new) := by
      rw [handleLine, if_neg hdone, payload_line hread]
    have hlines : finish helloSerde (keep (lineOf (.obj hello)) [] Accumulator.new) =
        finish helloSerde (handleLine helloSerde (keep [] [] Accumulator.new) (lineOf (.obj hello))) := rfl
    rw [hreceived, hlines, hhandled]
    rfl
  intro h
  have hcontent := h.content [bytes (lineOf (.obj hello))] List.flatten_singleton (by rw [hturn])
  rw [hturn, hreceived] at hcontent
  exact absurd hcontent (by decide)

end DevForge.ChunkedDeltas
