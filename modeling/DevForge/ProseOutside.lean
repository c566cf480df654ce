import DevForge.SpecLifecycle

/-!
# The prose of a reply outside its JSON

What is kept of a reply, character by character, beside the characters that
stand outside all brackets when a closing bracket without an opening one is
ignored. Lines that begin or end a code block are left out of both.
-/

set_option autoImplicit false

namespace DevForge.ProseOutside
open DraftFiles (startsWith)
open SpecLifecycle

def isFence (line : List Char) : Bool := startsWith (trim (String.ofList line)) "```"

/-- The lines other than the fences, each with its end. -/
def content (text : String) : List Char :=
  ((Dotenv.lines text.toList).filter (fun line => !isFence line)).flatMap (·++['\n'])

def isOpener (c : Char) : Bool := c = '{' || c = '['

def isCloser (c : Char) : Bool := c = '}' || c = ']'

/-! ## What is kept -/

theorem stripJsonishChar_eq (p : List Char × ℤ) (c : Char) : stripJsonishChar p c =
    if isOpener c then (p.1,p.2+1)
    else if isCloser c then (p.1,max (p.2-1) (-2^31))
    else if p.2 = 0 then (p.1++[c],p.2)
    else p := rfl

theorem stripJsonishLine_eq (p : List Char × ℤ) (line : List Char) :
    stripJsonishLine p line = if isFence line then p else (line++['
']).foldl stripJsonishChar p := by
  have hbreak : ∀ q : List Char × ℤ, stripJsonishChar q '
' = if q.2 = 0 then (q.1++['
'],q.2) else q :=
    fun _ => rfl
  rw [List.foldl_append, List.foldl_cons, List.foldl_nil, hbreak]
  rfl

/-- The text left is that of one pass over the content. -/
theorem stripJsonish_eq (text : String) :
    stripJsonish text = ((content text).foldl stripJsonishChar ([],0)).1 := by
  have hlines : ∀ (ls : List (List Char)) (p : List Char × ℤ), ls.foldl stripJsonishLine p =
      ((ls.filter (fun line => !isFence line)).flatMap (·++['\n'])).foldl stripJsonishChar p := by
    intro ls
    induction ls with
    | nil => exact fun _ => rfl
    | cons line ls ih =>
      intro p
      rw [List.foldl_cons, stripJsonishLine_eq, ih]
      cases hf : isFence line with
      | true => simp [hf]
      | false => simp [hf,List.foldl_append]
  rw [stripJsonish, hlines]
  rfl

/-! ## What stands outside -/

structure Outside where
  kept : List Char
  /-- The brackets that are open. -/
  opened : ℕ
  /-- The closing brackets that had none to close. -/
  unmatched : ℕ

def Outside.read (o : Outside) (c : Char) : Outside :=
  if isOpener c then { o with opened := o.opened+1 }
  else if isCloser c then
    if o.opened = 0 then { o with unmatched := o.unmatched+1 } else { o with opened := o.opened-1 }
  else if o.opened = 0 then { o with kept := o.kept++[c] }
  else o

def outside (cs : List Char) : Outside := cs.foldl Outside.read ⟨[],0,0⟩

theorem outside_concat (cs : List Char) (c : Char) : outside (cs++[c]) = (outside cs).read c := by
  rw [outside, List.foldl_append]
  rfl

def stripped (cs : List Char) : List Char × ℤ := cs.foldl stripJsonishChar ([],0)

theorem stripped_concat (cs : List Char) (c : Char) : stripped (cs++[c]) = stripJsonishChar (stripped cs) c := by
  rw [stripped, List.foldl_append]
  rfl

/-- The depth counts the open brackets less the unmatched ones, of which it counts 2³¹ at most. -/
theorem stripped_depth (cs : List Char) :
    (stripped cs).2 = (outside cs).opened-(min (outside cs).unmatched (2^31) : ℕ) := by
  induction cs using List.reverseRecOn with
  | nil => rfl
  | append_singleton cs c ih =>
    rw [stripped_concat, outside_concat, stripJsonishChar_eq, Outside.read]
    by_cases ho : isOpener c = true
    · rw [if_pos ho, if_pos ho]
      dsimp only
      omega
    · rw [if_neg ho, if_neg ho]
      by_cases hc : isCloser c = true
      · rw [if_pos hc, if_pos hc]
        split
        · dsimp only
          omega
        · dsimp only
          omega
      · rw [if_neg hc, if_neg hc]
        split
        · split
          · exact ih
          · exact ih
        · split
          · exact ih
          · exact ih

/-- The two depths are zero together. -/
theorem depth_zero_iff (cs : List Char) : ((stripped cs).2 = 0 ↔ (outside cs).opened = 0) ↔
    ((outside cs).unmatched = 0 ∨
      ((outside cs).opened ≠ 0 ∧ (outside cs).opened ≠ min (outside cs).unmatched (2^31))) := by
  rw [stripped_depth]
  constructor
  · intro h
    by_cases hu : (outside cs).unmatched = 0
    · exact Or.inl hu
    · right
      constructor
      · intro ho
        have := h.mpr ho
        omega
      · intro ho
        have := h.mp (by omega)
        omega
  · rintro (hu | ⟨ho,hm⟩)
    · rw [hu]
      constructor <;> intro h <;> omega
    · constructor <;> intro h <;> omega

theorem kept_concat_bracket {c : Char} (h : isOpener c = true ∨ isCloser c = true) (cs : List Char) :
    (stripped (cs++[c])).1 = (stripped cs).1 ∧ (outside (cs++[c])).kept = (outside cs).kept := by
  rw [stripped_concat, outside_concat, stripJsonishChar_eq, Outside.read]
  by_cases ho : isOpener c = true
  · rw [if_pos ho, if_pos ho]
    exact ⟨rfl,rfl⟩
  · rw [if_neg ho, if_neg ho, if_pos (h.resolve_left ho), if_pos (h.resolve_left ho)]
    constructor
    · rfl
    · split <;> rfl

theorem kept_concat_other {c : Char} (ho : isOpener c = false) (hc : isCloser c = false) (cs : List Char) :
    (stripped (cs++[c])).1 = (if (stripped cs).2 = 0 then (stripped cs).1++[c] else (stripped cs).1) ∧
      (outside (cs++[c])).kept = if (outside cs).opened = 0 then (outside cs).kept++[c] else (outside cs).kept := by
  rw [stripped_concat, outside_concat, stripJsonishChar_eq, Outside.read]
  simp only [ho, hc, Bool.false_eq_true, if_false]
  constructor
  · split <;> rfl
  · split <;> rfl

/-! ## When they agree -/

/-- At every place of the text, what was kept so far is what stood outside so far. -/
def ProseKept (text : String) : Prop :=
  ∀ seen rest, content text = seen++rest → (stripped seen).1 = (outside seen).kept

/-- At every character other than a bracket no closing bracket before it was unmatched, or brackets
are open there, but not as many as there were unmatched. -/
def Undisturbed (text : String) : Prop :=
  ∀ seen c rest, content text = seen++c::rest → isOpener c = false → isCloser c = false →
    (outside seen).unmatched = 0 ∨
      ((outside seen).opened ≠ 0 ∧ (outside seen).opened ≠ min (outside seen).unmatched (2^31))

theorem proseKept_iff (text : String) : ProseKept text ↔ Undisturbed text := by
  constructor
  · intro h seen c rest hsplit ho hc
    rw [← depth_zero_iff]
    have hbefore := h seen (c::rest) hsplit
    have hafter := h (seen++[c]) rest (by rw [hsplit, List.append_assoc]; rfl)
    rw [(kept_concat_other ho hc seen).1, (kept_concat_other ho hc seen).2, hbefore] at hafter
    by_cases hd : (stripped seen).2 = 0
    · by_cases hz : (outside seen).opened = 0
      · exact iff_of_true hd hz
      · rw [if_pos hd, if_neg hz] at hafter
        simp at hafter
    · by_cases hz : (outside seen).opened = 0
      · rw [if_neg hd, if_pos hz] at hafter
        simp at hafter
      · exact iff_of_false hd hz
  · intro h seen
    induction seen using List.reverseRecOn with
    | nil => exact fun _ _ => rfl
    | append_singleton seen c ih =>
      intro rest hsplit
      have hsplit' : content text = seen++c::rest := by rw [hsplit, List.append_assoc]; rfl
      have hbefore := ih (c::rest) hsplit'
      by_cases hb : isOpener c = true ∨ isCloser c = true
      · rw [(kept_concat_bracket hb seen).1, (kept_concat_bracket hb seen).2, hbefore]
      · have ho : isOpener c = false := by simpa using fun ho => hb (Or.inl ho)
        have hc : isCloser c = false := by simpa using fun hc => hb (Or.inr hc)
        have hzero := (depth_zero_iff seen).mpr (h seen c rest hsplit' ho hc)
        rw [(kept_concat_other ho hc seen).1, (kept_concat_other ho hc seen).2, hbefore]
        by_cases hz : (outside seen).opened = 0
        · rw [if_pos hz, if_pos (hzero.mpr hz)]
        · rw [if_neg hz, if_neg (fun hd => hz (hzero.mp hd))]

theorem stripJsonish_of_undisturbed {text : String} (h : Undisturbed text) :
    stripJsonish text = (outside (content text)).kept := by
  rw [stripJsonish_eq]
  exact (proseKept_iff text).mpr h (content text) [] (List.append_nil _).symm

theorem unmatched_append (cs rest : List Char) : (outside cs).unmatched ≤ (outside (cs++rest)).unmatched := by
  induction rest using List.reverseRecOn with
  | nil => rw [List.append_nil]
  | append_singleton rest c ih =>
    rw [← List.append_assoc, outside_concat, Outside.read]
    split
    · exact ih
    · split
      · split
        · dsimp only
          omega
        · exact ih
      · split
        · exact ih
        · exact ih

/-- Brackets that are opened and never closed do no harm. -/
theorem undisturbed_of_matched {text : String} (h : (outside (content text)).unmatched = 0) : Undisturbed text := by
  intro seen c rest hsplit _ _
  left
  have hle := unmatched_append seen (c::rest)
  rw [← hsplit, h] at hle
  omega

theorem negligible_of_example {L : Letters} {reply : String} (h : Undisturbed (trim reply))
    (he : replyIsExampleToolJson L reply = true) :
    (outside (content (trim reply))).kept.countP L.isAlphabetic < 30 := by
  rw [← stripJsonish_of_undisturbed h]
  unfold replyIsExampleToolJson at he
  dsimp only at he
  split at he
  · cases he
  · split at he
    · cases he
    · simpa using he

/-- The characters outside all brackets are kept, place by place, exactly when none stands where the
unmatched brackets throw the count off; then a reply taken for an example has no other text. -/
theorem prose_outside_iff (L : Letters) (text : String) :
    (ProseKept text ↔ Undisturbed text) ∧
      (Undisturbed text → stripJsonish text = (outside (content text)).kept) ∧
      (Undisturbed (trim text) → replyIsExampleToolJson L text = true →
        (outside (content (trim text))).kept.countP L.isAlphabetic < 30) :=
  ⟨proseKept_iff text,stripJsonish_of_undisturbed,negligible_of_example⟩

def asciiLetters : Letters := ⟨Char.isAlpha,Char.toLower⟩

/-- One bracket too many after the call, then the answer. -/
def answer : String := "\x7b\x22name\x22\x7d\x7d Le formulaire de contact est en ligne."

/-- The answer is taken for an example although its prose is long enough. -/
theorem answer_swallowed :
    replyIsExampleToolJson asciiLetters answer = true ∧
      ¬(outside (content (trim answer))).kept.countP asciiLetters.isAlphabetic < 30 ∧
      ¬ProseKept (trim answer) := by
  have hexample : replyIsExampleToolJson asciiLetters answer = true := by decide +kernel
  have hlong : ¬(outside (content (trim answer))).kept.countP asciiLetters.isAlphabetic < 30 := by decide +kernel
  exact ⟨hexample,hlong,fun h => hlong (negligible_of_example ((proseKept_iff _).mp h) hexample)⟩

end DevForge.ProseOutside
