import Mathlib.Data.Char
import Mathlib.Data.List.Lex
import Mathlib.Tactic.IntervalCases

/-!
# Numbers of a fixed width

A number written with leading zeros to a fixed width: the order of the texts
is that of the numbers.
-/

set_option autoImplicit false

namespace FixedDigits

def digit (d : ℕ) : Char := Char.ofNat (48+d)

def pad : ℕ → ℕ → List Char
  | 0, _ => []
  | w+1, n => pad w (n/10)++[digit (n%10)]

@[simp] theorem pad_length (w n : ℕ) : (pad w n).length = w := by
  induction w generalizing n with
  | zero => rfl
  | succ w ih => simp [pad, ih]

theorem isDigit_of_mem_toString (n : ℕ) : ∀ c ∈ (toString n).toList, c.isDigit = true := by
  intro c hc
  have h : (toString n).toList = Nat.toDigits 10 n := Nat.toList_repr
  rw [h] at hc
  exact Nat.isDigit_of_mem_toDigits (by decide) (by decide) hc

theorem digit_toNat {d : ℕ} (h : d < 10) : (digit d).toNat = 48+d := by
  interval_cases d <;> rfl

theorem digit_lt {a b : ℕ} (h : a < b) (hb : b < 10) : digit a < digit b := by
  rw [Char.lt_def, UInt32.lt_iff_toNat_lt, Char.toNat_val, Char.toNat_val,
    digit_toNat (by omega), digit_toNat hb]
  omega

/-- What follows texts of one length does not change their order. -/
theorem lt_append {l m : List Char} (r t : List Char) (hlen : l.length = m.length) (h : l < m) :
    l++r < m++t := by
  induction l generalizing m with
  | nil =>
    cases m with
    | nil => exact absurd h (lt_irrefl _)
    | cons b m => simp at hlen
  | cons a l ih =>
    cases m with
    | nil => simp at hlen
    | cons b m =>
      simp only [List.length_cons, Nat.add_right_cancel_iff] at hlen
      rw [List.cons_lt_cons_iff] at h
      rw [List.cons_append, List.cons_append, List.cons_lt_cons_iff]
      rcases h with h | ⟨rfl,h⟩
      · exact Or.inl h
      · exact Or.inr ⟨rfl,ih hlen h⟩

theorem pad_lt {w a b : ℕ} (h : a < b) (hb : b < 10^w) : pad w a < pad w b := by
  induction w generalizing a b with
  | zero =>
    rw [pow_zero] at hb
    omega
  | succ w ih =>
    have hdiv : b/10 < 10^w := by
      rw [pow_succ] at hb
      omega
    rw [pad, pad]
    by_cases hlt : a/10 < b/10
    · exact lt_append _ _ (by simp) (ih hlt hdiv)
    · have he : a/10 = b/10 := by omega
      have hmod : a%10 < b%10 := by omega
      rw [he]
      apply List.append_left_lt
      rw [List.cons_lt_cons_iff]
      exact Or.inl (digit_lt hmod (by omega))

theorem pad_inj {w a b : ℕ} (ha : a < 10^w) (hb : b < 10^w) (h : pad w a = pad w b) : a = b := by
  rcases lt_trichotomy a b with hlt | heq | hgt
  · exact absurd h (pad_lt hlt hb).ne
  · exact heq
  · exact absurd h (pad_lt hgt ha).ne'

end FixedDigits
