import Mathlib.Algebra.Group.Int.Defs
import Mathlib.Algebra.Group.Nat.Defs
import Mathlib.Data.Int.Order.Basic

/-!
# Values that the SQL statements work on

Identifiers are only compared for equality, instants only for order. Texts
are trimmed by the program (Unicode white space) or by SQL (blanks).
-/

set_option autoImplicit false

namespace DevForge

abbrev Uuid := ℕ
abbrev Instant := ℕ

/-- `COALESCE(logs, '') || note`. -/
def appendLogs (logs : Option String) (note : String) : Option String :=
  some (logs.getD ""++note)

/-- `COALESCE(a, b)`. -/
def coalesce {β : Type*} (a b : Option β) : Option β := a.or b

def isWhitespace (c : Char) : Bool :=
  let n := c.toNat
  (9 ≤ n && n ≤ 13) || n ∈ [0x20,0x85,0xA0,0x1680,0x2028,0x2029,0x202F,0x205F,0x3000] ||
    (0x2000 ≤ n && n ≤ 0x200A)

def trimBy (p : Char → Bool) (s : String) : String :=
  String.ofList ((s.toList.dropWhile p).reverse.dropWhile p).reverse

/-- `str::trim`. -/
def trim (s : String) : String := trimBy isWhitespace s

theorem trimBy_of_plain {p : Char → Bool} {s : String} (h : ∀ c ∈ s.toList, p c = false) : trimBy p s = s := by
  have hdrop : ∀ cs : List Char, (∀ c ∈ cs, p c = false) → cs.dropWhile p = cs := by
    intro cs hcs
    cases cs with
    | nil => rfl
    | cons c cs => exact List.dropWhile_cons_of_neg (by simp [hcs c List.mem_cons_self])
  rw [trimBy, hdrop _ h, hdrop _ (fun c hc => h c (List.mem_reverse.mp hc)), List.reverse_reverse, String.ofList_toList]

theorem trim_of_plain {s : String} (h : ∀ c ∈ s.toList, isWhitespace c = false) : trim s = s := trimBy_of_plain h

def toAsciiLowercase (s : String) : String := String.ofList (s.toList.map Char.toLower)

/-- `TRIM(s)`. -/
def sqlTrim (s : String) : String := trimBy (· = ' ') s

/-- `NULLIF(s, '')`. -/
def nullIfEmpty (s : String) : Option String := if s = "" then none else some s

/-- The `as i32` of a 64-bit integer. -/
def asI32 (n : ℤ) : ℤ := Int.bmod n (2^32)

theorem toString_inj {m n : ℕ} (h : toString m = toString n) : m = n := by
  have hd : ∀ k : ℕ, (toString k).toList = Nat.toDigits 10 k := fun k => Nat.toList_repr
  have hl := congrArg String.toList h
  rw [hd, hd] at hl
  simpa using congrArg (fun l => Nat.ofDigitChars 10 l 0) hl

theorem asI32_of_range (n : ℤ) (hl : -2^31 ≤ n) (hu : n < 2^31) : asI32 n = n := by
  unfold asI32
  rw [Int.bmod_eq_of_le] <;> omega

end DevForge
