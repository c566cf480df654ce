import DevForge.ToolArguments
import Mathlib.Data.Bool.AllAny

/-!
# JSON on one line

The compact text of a value, as the server writes it: control characters are escaped, so that
a value is one line of text.
-/

set_option autoImplicit false

namespace DevForge.JsonText
open WakeGate (Json)

def quoteMark : Char := Char.ofNat 34

def backslash : Char := Char.ofNat 92

def hexDigit (n : ℕ) : Char := if n < 10 then Char.ofNat (48+n) else Char.ofNat (87+n)

def escape (c : Char) : List Char :=
  if c = quoteMark then [backslash,quoteMark]
  else if c = backslash then [backslash,backslash]
  else if c.toNat = 8 then [backslash,'b']
  else if c.toNat = 9 then [backslash,'t']
  else if c.toNat = 10 then [backslash,'n']
  else if c.toNat = 12 then [backslash,'f']
  else if c.toNat = 13 then [backslash,'r']
  else if c.toNat < 32 then [backslash,'u','0','0',hexDigit (c.toNat/16),hexDigit (c.toNat%16)]
  else [c]

def quoted (s : String) : List Char := quoteMark::(s.toList.flatMap escape++[quoteMark])

mutual

def text : Json → List Char
  | .null => "null".toList
  | .bool b => if b then "true".toList else "false".toList
  | .num t => t.toList
  | .str s => quoted s
  | .arr vs => '['::(listText vs++[']'])
  | .obj ms => '{'::(membersText ms++['}'])

def listText : List Json → List Char
  | [] => []
  | v::vs => text v++(if vs.isEmpty then [] else ','::listText vs)

def membersText : List (String × Json) → List Char
  | [] => []
  | (k,v)::ms => quoted k++ ':'::text v++(if ms.isEmpty then [] else ','::membersText ms)

end

/-- The characters of numbers. -/
def numberChar (c : Char) : Bool := c.isDigit || c ∈ ['-','+','.','e','E']

mutual

/-- The numbers are texts of numbers. -/
def NumbersOk : Json → Prop
  | .num t => ∀ c ∈ t.toList, numberChar c = true
  | .arr vs => ListOk vs
  | .obj ms => MembersOk ms
  | _ => True

def ListOk : List Json → Prop
  | [] => True
  | v::vs => NumbersOk v ∧ ListOk vs

def MembersOk : List (String × Json) → Prop
  | [] => True
  | (_,v)::ms => NumbersOk v ∧ MembersOk ms

end

/-! ## One line -/

/-- Neither a line feed nor a carriage return. -/
def inLine (c : Char) : Prop := c ≠ Char.ofNat 10 ∧ c ≠ Char.ofNat 13

instance (c : Char) : Decidable (inLine c) := by
  unfold inLine
  infer_instance

theorem inLine_of_ge {c : Char} (h : 32 ≤ c.toNat) : inLine c := by
  constructor
  · rintro rfl
    exact absurd h (by decide)
  · rintro rfl
    exact absurd h (by decide)

theorem hexDigit_inLine (n : ℕ) (h : n < 16) : inLine (hexDigit n) := by
  have hall : ∀ m < 16, inLine (hexDigit m) := by decide
  exact hall n h

theorem inLine_of_all (cs : List Char) (h : (cs.all fun c => decide (inLine c)) = true) : ∀ x ∈ cs, inLine x :=
  List.all_iff_forall_prop.mp h

/-- A character is written as itself, by a letter, or by its code. -/
theorem escape_cases (c : Char) :
    (∃ e ∈ [quoteMark,backslash,'b','t','n','f','r'], escape c = [backslash,e]) ∨
    c.toNat < 32 ∧ escape c = [backslash,'u','0','0',hexDigit (c.toNat/16),hexDigit (c.toNat%16)] ∨
    32 ≤ c.toNat ∧ c ≠ quoteMark ∧ c ≠ backslash ∧ escape c = [c] := by
  unfold escape
  by_cases hq : c = quoteMark
  · exact .inl ⟨quoteMark,by decide,if_pos hq⟩
  rw [if_neg hq]
  by_cases hs : c = backslash
  · exact .inl ⟨backslash,by decide,if_pos hs⟩
  rw [if_neg hs]
  by_cases hb : c.toNat = 8
  · exact .inl ⟨'b',by decide,if_pos hb⟩
  rw [if_neg hb]
  by_cases ht : c.toNat = 9
  · exact .inl ⟨'t',by decide,if_pos ht⟩
  rw [if_neg ht]
  by_cases hn : c.toNat = 10
  · exact .inl ⟨'n',by decide,if_pos hn⟩
  rw [if_neg hn]
  by_cases hf : c.toNat = 12
  · exact .inl ⟨'f',by decide,if_pos hf⟩
  rw [if_neg hf]
  by_cases hr : c.toNat = 13
  · exact .inl ⟨'r',by decide,if_pos hr⟩
  rw [if_neg hr]
  by_cases hlt : c.toNat < 32
  · exact .inr (.inl ⟨hlt,if_pos hlt⟩)
  · exact .inr (.inr ⟨by omega,hq,hs,if_neg hlt⟩)

theorem escape_inLine (c : Char) : ∀ x ∈ escape c, inLine x := by
  intro x hx
  obtain ⟨e,he,hform⟩ | ⟨hlt,hform⟩ | ⟨hge,-,-,hform⟩ := escape_cases c
  · rw [hform, List.mem_pair] at hx
    obtain rfl | rfl := hx
    · decide
    · exact inLine_of_all [quoteMark,backslash,'b','t','n','f','r'] rfl x he
  · rw [hform] at hx
    have hplain : ∀ y ∈ [backslash,'u','0','0'], inLine y := inLine_of_all _ rfl
    obtain hx | hx := List.mem_append.mp (show x ∈ [backslash,'u','0','0']++[hexDigit (c.toNat/16),hexDigit (c.toNat%16)] from hx)
    · exact hplain x hx
    · obtain rfl | rfl := List.mem_pair.mp hx
      · exact hexDigit_inLine _ (by omega)
      · exact hexDigit_inLine _ (by omega)
  · rw [hform] at hx
    rw [List.mem_singleton.mp hx]
    exact inLine_of_ge hge

theorem quoted_inLine (s : String) : ∀ x ∈ quoted s, inLine x := by
  intro x hx
  have hquote : inLine quoteMark := by decide
  rcases List.mem_cons.mp hx with rfl | hx
  · exact hquote
  · rcases List.mem_append.mp hx with hx | hx
    · obtain ⟨c,-,hc⟩ := List.mem_flatMap.mp hx
      exact escape_inLine c x hc
    · rw [List.mem_singleton.mp hx]
      exact hquote

theorem numberChar_inLine {c : Char} (h : numberChar c = true) : inLine c := by
  constructor
  · rintro rfl
    exact absurd h (by decide)
  · rintro rfl
    exact absurd h (by decide)

mutual

theorem text_inLine : ∀ (v : Json), NumbersOk v → ∀ x ∈ text v, inLine x
  | .null, _ => by
    simp only [text]
    exact inLine_of_all _ rfl
  | .bool b, _ => by
    simp only [text]
    cases b <;> exact inLine_of_all _ rfl
  | .num t, h => fun x hx => numberChar_inLine (h x hx)
  | .str s, _ => quoted_inLine s
  | .arr vs, h => by
    intro x hx
    rcases List.mem_cons.mp hx with rfl | hx
    · decide
    · rcases List.mem_append.mp hx with hx | hx
      · exact listText_inLine vs h x hx
      · rw [List.mem_singleton.mp hx]
        decide
  | .obj ms, h => by
    intro x hx
    rcases List.mem_cons.mp hx with rfl | hx
    · decide
    · rcases List.mem_append.mp hx with hx | hx
      · exact membersText_inLine ms h x hx
      · rw [List.mem_singleton.mp hx]
        decide

theorem listText_inLine : ∀ (vs : List Json), ListOk vs → ∀ x ∈ listText vs, inLine x
  | [], _ => by simp [listText]
  | v::vs, h => by
    intro x hx
    rcases List.mem_append.mp hx with hx | hx
    · exact text_inLine v h.1 x hx
    · split at hx
      · simp at hx
      · rcases List.mem_cons.mp hx with rfl | hx
        · decide
        · exact listText_inLine vs h.2 x hx

theorem membersText_inLine : ∀ (ms : List (String × Json)), MembersOk ms →
    ∀ x ∈ membersText ms, inLine x
  | [], _ => by simp [membersText]
  | (k,v)::ms, h => by
    intro x hx
    rcases List.mem_append.mp hx with hx | hx
    · rcases List.mem_append.mp hx with hx | hx
      · exact quoted_inLine k x hx
      · rcases List.mem_cons.mp hx with rfl | hx
        · decide
        · exact text_inLine v h.1 x hx
    · split at hx
      · simp at hx
      · rcases List.mem_cons.mp hx with rfl | hx
        · decide
        · exact membersText_inLine ms h.2 x hx

end

end DevForge.JsonText
