import Mathlib.Data.List.Basic

/-!
# The grammar of JSON texts

The texts of RFC 8259 with blanks between the tokens, over characters.
-/

set_option autoImplicit false

namespace JsonGrammar

def quotationMark : Char := Char.ofNat 34

def reverseSolidus : Char := Char.ofNat 92

def Blank (cs : List Char) : Prop := ∀ c ∈ cs, c.toNat = 32 ∨ c.toNat = 9 ∨ c.toNat = 10 ∨ c.toNat = 13

def isHex (c : Char) : Bool := c.isDigit || 'a' ≤ c && c ≤ 'f' || 'A' ≤ c && c ≤ 'F'

/-- How a character of a string is written. -/
inductive Written : List Char → Prop
  | plain (c : Char) : 32 ≤ c.toNat → c ≠ quotationMark → c ≠ reverseSolidus → Written [c]
  | escaped (c : Char) : c ∈ [quotationMark,reverseSolidus,'/','b','f','n','r','t'] → Written [reverseSolidus,c]
  | coded (a b c d : Char) : isHex a = true → isHex b = true → isHex c = true → isHex d = true →
      Written [reverseSolidus,'u',a,b,c,d]

inductive Characters : List Char → Prop
  | nil : Characters []
  | cons {cs ds : List Char} : Written cs → Characters ds → Characters (cs++ds)

def Text (cs : List Char) : Prop := ∃ ds, Characters ds ∧ cs = quotationMark::(ds++[quotationMark])

def Digits (cs : List Char) : Prop := cs ≠ [] ∧ ∀ c ∈ cs, c.isDigit = true

/-- No zero stands in front of other digits. -/
def Natural (cs : List Char) : Prop := Digits cs ∧ (cs.head? = some '0' → cs = ['0'])

inductive Fraction : List Char → Prop
  | none : Fraction []
  | some {ds : List Char} : Digits ds → Fraction ('.'::ds)

inductive Exponent : List Char → Prop
  | none : Exponent []
  | some (e : Char) {sign ds : List Char} : e ∈ ['e','E'] → sign ∈ [[],['+'],['-']] → Digits ds →
      Exponent (e::(sign++ds))

def Number (cs : List Char) : Prop :=
  ∃ sign int frac exp, sign ∈ [[],['-']] ∧ Natural int ∧ Fraction frac ∧ Exponent exp ∧ cs = sign++int++frac++exp

mutual

inductive Value : List Char → Prop
  | null : Value "null".toList
  | true : Value "true".toList
  | false : Value "false".toList
  | number {cs : List Char} : Number cs → Value cs
  | text {cs : List Char} : Text cs → Value cs
  | emptyArray {cs : List Char} : Blank cs → Value ('['::(cs++[']']))
  | array {cs : List Char} : Elements cs → Value ('['::(cs++[']']))
  | emptyObject {cs : List Char} : Blank cs → Value ('{'::(cs++['}']))
  | object {cs : List Char} : Members cs → Value ('{'::(cs++['}']))

/-- A value between blanks. -/
inductive Element : List Char → Prop
  | between {l cs r : List Char} : Blank l → Value cs → Blank r → Element (l++cs++r)

inductive Elements : List Char → Prop
  | one {cs : List Char} : Element cs → Elements cs
  | cons {cs ds : List Char} : Element cs → Elements ds → Elements (cs++ ','::ds)

inductive Member : List Char → Prop
  | named {l cs r ds : List Char} : Blank l → Text cs → Blank r → Element ds → Member (l++cs++r++ ':'::ds)

inductive Members : List Char → Prop
  | one {cs : List Char} : Member cs → Members cs
  | cons {cs ds : List Char} : Member cs → Members ds → Members (cs++ ','::ds)

end

theorem blank_nil : Blank [] := fun _ h => absurd h List.not_mem_nil

theorem Value.element {cs : List Char} (h : Value cs) : Element cs := by
  have hb : Element ([]++cs++[]) := .between blank_nil h blank_nil
  rwa [List.nil_append, List.append_nil] at hb

theorem Text.member {cs ds : List Char} (h : Text cs) (hd : Value ds) : Member (cs++ ':'::ds) := by
  have hb : Member ([]++cs++[]++ ':'::ds) := .named blank_nil h blank_nil hd.element
  rwa [List.nil_append, List.append_nil] at hb

/-- A natural number is written in its digits. -/
theorem Natural.number {cs : List Char} (h : Natural cs) : Number cs :=
  ⟨[],cs,[],[],by simp,h,.none,.none,by simp⟩

/-! ## Decimal digits -/

theorem toDigits_head {n : ℕ} (h : 0 < n) : (Nat.toDigits 10 n).head? ≠ some '0' := by
  induction n using Nat.strongRecOn with
  | ind n ih =>
    by_cases hlt : n < 10
    · rw [Nat.toDigits_of_lt_base hlt, List.head?_cons, ne_eq, Option.some_inj, Nat.digitChar_eq_zero]
      omega
    · rw [Nat.toDigits_of_base_le (by decide) (by omega), List.head?_append_of_ne_nil _ Nat.toDigits_ne_nil]
      exact ih (n/10) (by omega) (by omega)

theorem natural_toDigits (n : ℕ) : Natural (Nat.toDigits 10 n) := by
  constructor
  · exact ⟨Nat.toDigits_ne_nil,fun c hc => Nat.isDigit_of_mem_toDigits (by decide) (by decide) hc⟩
  · intro h
    by_cases hn : 0 < n
    · exact absurd h (toDigits_head hn)
    · rw [Nat.eq_zero_of_not_pos hn, Nat.toDigits_zero]

end JsonGrammar
