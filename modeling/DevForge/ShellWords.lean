import Mathlib.Data.List.Basic
import Mathlib.Data.Option.Basic

/-!
# Words of a POSIX shell

A text is read one character after the other: blanks end a word, single quotes and backslashes
keep what follows, and a bare character that the shell would expand or take as an operator
makes the text unreadable. A piece writes a text if reading it only adds that text to the word
at hand, wherever the piece stands.
-/

set_option autoImplicit false

namespace ShellWords

def quote : Char := Char.ofNat 39

def backslash : Char := Char.ofNat 92

def blanks : List Char := [' ','\t','\n']

def blank (c : Char) : Bool := blanks.contains c

/-- Bare, these are operators, expansions, patterns or comments. -/
def specials : List Char := Char.ofNat 34::"|&;<>()$`*?[]#~!%^\x7b\x7d".toList

def special (c : Char) : Bool := specials.contains c

/-- Where the reader is, with the word at hand if there is one. -/
inductive Place where
  | bare (word : Option (List Char))
  | escaped (word : Option (List Char))
  | quoted (word : List Char)

def read : Place → List Char → Option (List (List Char))
  | .bare w, [] => some w.toList
  | .escaped _, [] => none
  | .quoted _, [] => none
  | .bare w, c::cs =>
    if blank c then (read (.bare none) cs).map (w.toList++·)
    else if c = quote then read (.quoted (w.getD [])) cs
    else if c = backslash then read (.escaped w) cs
    else if special c then none
    else read (.bare (some (w.getD []++[c]))) cs
  | .escaped w, c::cs =>
    -- a backslash before a line feed joins two lines
    if c = '\n' then read (.bare w) cs else read (.bare (some (w.getD []++[c]))) cs
  | .quoted w, c::cs => if c = quote then read (.bare (some w)) cs else read (.quoted (w++[c])) cs

def split (text : List Char) : Option (List (List Char)) := read (.bare none) text

/-! ## Pieces -/

/-- Reading the piece adds the text to the word at hand, or starts a word with it. -/
def Writes (piece text : List Char) : Prop :=
  ∀ w cs, read (.bare w) (piece++cs) = read (.bare (some (w.getD []++text))) cs

theorem Writes.ne_nil {p s : List Char} (h : Writes p s) : p ≠ [] := by
  rintro rfl
  have hnone := h none []
  simp [read] at hnone

theorem Writes.append {p q s t : List Char} (hp : Writes p s) (hq : Writes q t) : Writes (p++q) (s++t) := by
  intro w cs
  rw [List.append_assoc, hp, hq, Option.getD_some, List.append_assoc]

/-- A character that stands for itself outside quotes. -/
def Bare (c : Char) : Prop := blank c = false ∧ c ≠ quote ∧ c ≠ backslash ∧ special c = false

/-- Characters that no shell character satisfies are bare. -/
theorem bare_of {p : Char → Bool} (hp : ((quote::backslash::(blanks++specials)).all fun x => !p x) = true)
    {c : Char} (h : p c = true) : Bare c := by
  have hnot : c ∉ quote::backslash::(blanks++specials) := by
    intro hc
    have := List.all_eq_true.mp hp c hc
    simp [h] at this
  simp only [List.mem_cons, List.mem_append, not_or] at hnot
  obtain ⟨hquote,hback,hblank,hspecial⟩ := hnot
  exact ⟨by simpa [blank] using hblank,hquote,hback,by simpa [special] using hspecial⟩

theorem writes_char {c : Char} (h : Bare c) : Writes [c] [c] := by
  intro w cs
  obtain ⟨hblank,hquote,hback,hspecial⟩ := h
  simp [read, hblank, hquote, hback, hspecial]

theorem writes_bare {s : List Char} (hne : s ≠ []) (h : ∀ c ∈ s, Bare c) : Writes s s := by
  induction s with
  | nil => exact absurd rfl hne
  | cons c s ih =>
    have hc := writes_char (h c List.mem_cons_self)
    by_cases hs : s = []
    · rw [hs]
      exact hc
    · exact hc.append (ih hs (fun c' hc' => h c' (List.mem_cons_of_mem c hc')))

/-- Every quote of the text is written outside the quotes. -/
def spliceQuotes (s : List Char) : List Char :=
  s.flatMap (fun c => if c = quote then [quote,backslash,quote,quote] else [c])

def inQuotes (s : List Char) : List Char := quote::(spliceQuotes s++[quote])

theorem read_splice (s w cs : List Char) :
    read (.quoted w) (spliceQuotes s++quote::cs) = read (.bare (some (w++s))) cs := by
  induction s generalizing w with
  | nil => simp [spliceQuotes, read]
  | cons c s ih =>
    have hsplice : spliceQuotes (c::s) =
        (if c = quote then [quote,backslash,quote,quote] else [c])++spliceQuotes s := rfl
    rw [hsplice]
    by_cases hc : c = quote
    · -- out of the quotes, the escaped quote, and in again
      have hblank : blank quote = false ∧ blank backslash = false := by decide
      have hback : backslash ≠ quote := by decide
      have hline : quote ≠ '\n' := by decide
      have hagain := ih (w++[quote])
      simp [read, hc, hblank, hback, hline, hagain]
    · have hnext := ih (w++[c])
      simp [read, hc, hnext]

theorem writes_inQuotes (s : List Char) : Writes (inQuotes s) s := by
  intro w cs
  have hblank : blank quote = false := by decide
  rw [inQuotes, List.cons_append, List.append_assoc, List.singleton_append, read,
    if_neg (by simp [hblank]), if_pos rfl, read_splice]

/-! ## Lists of words -/

/-- The words of a list, after the word at hand. -/
theorem read_rest (f : List Char → List Char) (l : List (List Char)) (hf : ∀ s ∈ l, f s ≠ [] → Writes (f s) s)
    (w : Option (List Char)) : read (.bare w) (l.flatMap (fun s => ' '::f s)) =
      some (w.toList++l.filter (fun s => !(f s).isEmpty)) := by
  induction l generalizing w with
  | nil => simp [read]
  | cons s l ih =>
    have hrest := ih (fun t ht => hf t (List.mem_cons_of_mem s ht))
    have hblank : blank ' ' = true := by decide
    rw [List.flatMap_cons, List.cons_append, read, if_pos hblank]
    by_cases hs : f s = []
    · simp [hs, hrest none]
    · rw [hf s List.mem_cons_self hs, hrest]
      simp [hs]

theorem intercalate_cons (x : List Char) (xs : List (List Char)) :
    [' '].intercalate (x::xs) = x++xs.flatMap (' '::·) := by
  induction xs generalizing x with
  | nil => simp
  | cons y ys ih => rw [List.intercalate_cons_cons, ih y, List.flatMap_cons, List.append_assoc, List.cons_append,
      List.nil_append, List.cons_append]

/-- Written words that are joined by blanks are read back, those written as nothing are lost. -/
theorem split_join {f : List Char → List Char} {l : List (List Char)} (hf : ∀ s ∈ l, f s ≠ [] → Writes (f s) s) :
    split ([' '].intercalate (l.map f)) = some (l.filter (fun s => !(f s).isEmpty)) := by
  cases l with
  | nil => simp [split, read]
  | cons s l =>
    have hrest := read_rest f l (fun t ht => hf t (List.mem_cons_of_mem s ht))
    rw [split, List.map_cons, intercalate_cons, List.flatMap_map]
    by_cases hs : f s = []
    · simp [hs, hrest none]
    · rw [hf s List.mem_cons_self hs, hrest]
      simp [hs]

end ShellWords
