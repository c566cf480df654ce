import Mathlib.Data.List.Basic
import Mathlib.Data.UInt

/-!
# Bytes in base 64

Three bytes are four characters of the standard alphabet; the last group is filled with `=`.
The reader takes the canonical text alone: whole groups, the padding only at the end and no
bits behind the last byte.
-/

set_option autoImplicit false

namespace Base64

/-! ## The alphabet -/

def pad : Char := '='

def digit (n : ℕ) : Char :=
  if n < 26 then Char.ofNat (65+n) else if n < 52 then Char.ofNat (71+n) else if n < 62 then Char.ofNat (n-4)
  else if n = 62 then '+' else '/'

def value (c : Char) : Option ℕ :=
  if 65 ≤ c.toNat ∧ c.toNat ≤ 90 then some (c.toNat-65)
  else if 97 ≤ c.toNat ∧ c.toNat ≤ 122 then some (c.toNat-71)
  else if 48 ≤ c.toNat ∧ c.toNat ≤ 57 then some (c.toNat+4)
  else if c = '+' then some 62 else if c = '/' then some 63 else none

theorem value_digit {n : ℕ} (h : n < 64) : value (digit n) = some n := by
  have hall : ∀ i : Fin 64, value (digit i) = some i.val := by decide
  exact hall ⟨n,h⟩

theorem digit_ne {n : ℕ} (h : n < 64) {c : Char} (hc : value c = none) : digit n ≠ c := by
  intro heq
  rw [← heq, value_digit h] at hc
  cases hc

/-! ## Groups -/

/-- The characters of three bytes. -/
def digits (a b c : ℕ) : List Char := [digit (a/4),digit (a%4*16+b/16),digit (b%16*4+c/64),digit (c%64)]

def encode : List UInt8 → List Char
  | [] => []
  | [a] => (digits a.toNat 0 0).take 2++[pad,pad]
  | [a,b] => (digits a.toNat b.toNat 0).take 3++[pad]
  | a::b::c::rest => digits a.toNat b.toNat c.toNat++encode rest

def byte (n : ℕ) : UInt8 := UInt8.ofNat n

def group (a b c d : Char) : Option (List UInt8) := do
  let x ← value a
  let y ← value b
  let z ← value c
  let w ← value d
  return [byte (x*4+y/16),byte (y%16*16+z/4),byte (z%4*64+w)]

/-- The last group, with its padding. -/
def lastGroup (a b c d : Char) : Option (List UInt8) :=
  if d ≠ pad then group a b c d
  else if c ≠ pad then do
    let x ← value a
    let y ← value b
    let z ← value c
    if z%4 = 0 then some [byte (x*4+y/16),byte (y%16*16+z/4)] else none
  else do
    let x ← value a
    let y ← value b
    if y%16 = 0 then some [byte (x*4+y/16)] else none

def decode : List Char → Option (List UInt8)
  | [] => some []
  | a::b::c::d::rest => if rest.isEmpty then lastGroup a b c d else do return (← group a b c d)++(← decode rest)
  | _ => none

theorem byte_toNat {n : ℕ} (a : UInt8) (h : n = a.toNat) : byte n = a := by
  rw [byte, h, UInt8.ofNat_toNat]

/-- The group of three bytes gives them back. -/
theorem group_digits (a b c : UInt8) :
    group (digit (a.toNat/4)) (digit (a.toNat%4*16+b.toNat/16)) (digit (b.toNat%16*4+c.toNat/64)) (digit (c.toNat%64)) =
      some [a,b,c] := by
  have ha := a.toNat_lt
  have hb := b.toNat_lt
  have hc := c.toNat_lt
  rw [group, value_digit (by omega), value_digit (by omega), value_digit (by omega), value_digit (by omega)]
  simp only [Option.bind_eq_bind, Option.bind_some]
  rw [byte_toNat a (by omega), byte_toNat b (by omega), byte_toNat c (by omega)]
  rfl

theorem value_pad : value pad = none := by decide

theorem lastGroup_one (a : UInt8) :
    lastGroup (digit (a.toNat/4)) (digit (a.toNat%4*16+0/16)) pad pad = some [a] := by
  have ha := a.toNat_lt
  rw [lastGroup, if_neg (by simp), if_neg (by simp), value_digit (by omega), value_digit (by omega)]
  simp only [Option.bind_eq_bind, Option.bind_some]
  rw [if_pos (by omega), byte_toNat a (by omega)]

theorem lastGroup_two (a b : UInt8) :
    lastGroup (digit (a.toNat/4)) (digit (a.toNat%4*16+b.toNat/16)) (digit (b.toNat%16*4+0/64)) pad = some [a,b] := by
  have ha := a.toNat_lt
  have hb := b.toNat_lt
  rw [lastGroup, if_neg (by simp), if_pos (digit_ne (by omega) value_pad), value_digit (by omega), value_digit (by omega),
    value_digit (by omega)]
  simp only [Option.bind_eq_bind, Option.bind_some]
  rw [if_pos (by omega), byte_toNat a (by omega), byte_toNat b (by omega)]

theorem lastGroup_three (a b c : UInt8) :
    lastGroup (digit (a.toNat/4)) (digit (a.toNat%4*16+b.toNat/16)) (digit (b.toNat%16*4+c.toNat/64)) (digit (c.toNat%64)) =
      some [a,b,c] := by
  rw [lastGroup, if_pos (digit_ne (Nat.mod_lt _ (by decide)) value_pad), group_digits]

theorem decode_cons (a b c d : Char) {rest : List Char} (h : rest ≠ []) :
    decode (a::b::c::d::rest) = (group a b c d).bind (fun bs => (decode rest).map (bs++·)) := by
  rw [decode, if_neg (by simpa using h)]
  cases group a b c d with
  | none => rfl
  | some bs => cases decode rest <;> rfl

theorem encode_ne_nil {bs : List UInt8} (h : bs ≠ []) : encode bs ≠ [] := by
  cases bs using encode.fun_cases with
  | case1 => exact absurd rfl h
  | case2 a => simp [encode]
  | case3 a b => simp [encode]
  | case4 a b c rest => simp [encode, digits]

theorem decode_encode (bs : List UInt8) : decode (encode bs) = some bs := by
  induction bs using encode.induct with
  | case1 => rfl
  | case2 a => exact lastGroup_one a
  | case3 a b => exact lastGroup_two a b
  | case4 a b c rest ih =>
    by_cases h : rest = []
    · subst h
      exact lastGroup_three a b c
    · rw [encode, digits, List.cons_append, List.cons_append, List.cons_append, List.cons_append, List.nil_append,
        decode_cons _ _ _ _ (encode_ne_nil h), group_digits, ih]
      rfl

/-! ## The text -/

theorem not_mem_encode {c : Char} (hc : value c = none) (hpad : c ≠ pad) (bs : List UInt8) : c ∉ encode bs := by
  have hdigits : ∀ x y z : ℕ, x < 256 → y < 256 → z < 256 → c ∉ digits x y z := by
    intro x y z hx hy hz hmem
    simp only [digits, List.mem_cons, List.not_mem_nil, or_false] at hmem
    rcases hmem with h | h | h | h
    · exact digit_ne (by omega) hc h.symm
    · exact digit_ne (by omega) hc h.symm
    · exact digit_ne (by omega) hc h.symm
    · exact digit_ne (by omega) hc h.symm
  induction bs using encode.induct with
  | case1 => simp [encode]
  | case2 a =>
    have ha := a.toNat_lt
    intro h
    rcases List.mem_append.mp h with h | h
    · exact hdigits _ _ _ ha (by decide) (by decide) (List.mem_of_mem_take h)
    · simp [hpad] at h
  | case3 a b =>
    have ha := a.toNat_lt
    have hb := b.toNat_lt
    intro h
    rcases List.mem_append.mp h with h | h
    · exact hdigits _ _ _ ha hb (by decide) (List.mem_of_mem_take h)
    · simp [hpad] at h
  | case4 a b c rest ih =>
    have ha := a.toNat_lt
    have hb := b.toNat_lt
    have hc := c.toNat_lt
    intro h
    rcases List.mem_append.mp h with h | h
    · exact hdigits _ _ _ ha hb hc h
    · exact ih h

theorem group_length {a b c d : Char} {bs : List UInt8} (h : group a b c d = some bs) : bs.length = 3 := by
  simp only [group, Option.bind_eq_bind, Option.bind_eq_some_iff] at h
  obtain ⟨x,-,y,-,z,-,w,-,h⟩ := h
  rw [← Option.some.inj h]
  rfl

theorem lastGroup_length {a b c d : Char} {bs : List UInt8} (h : lastGroup a b c d = some bs) : bs.length ≤ 3 := by
  unfold lastGroup at h
  split at h
  · exact (group_length h).le
  split at h
  · simp only [Option.bind_eq_bind, Option.bind_eq_some_iff] at h
    obtain ⟨x,-,y,-,z,-,h⟩ := h
    split at h
    · rw [← Option.some.inj h]
      simp
    · cases h
  · simp only [Option.bind_eq_bind, Option.bind_eq_some_iff] at h
    obtain ⟨x,-,y,-,h⟩ := h
    split at h
    · rw [← Option.some.inj h]
      simp
    · cases h

/-- The bytes are fewer than the characters. -/
theorem decode_length {cs : List Char} {bs : List UInt8} (h : decode cs = some bs) : bs.length ≤ cs.length := by
  induction cs using decode.induct generalizing bs with
  | case1 => simp [← Option.some.inj h]
  | case2 a b c d rest hrest =>
    rw [decode, if_pos hrest] at h
    have := lastGroup_length h
    simp only [List.length_cons]
    omega
  | case3 a b c d rest hrest ih =>
    rw [decode_cons a b c d (by simpa using hrest), Option.bind_eq_some_iff] at h
    obtain ⟨gs,hgs,h⟩ := h
    obtain ⟨rs,hrs,h⟩ := Option.map_eq_some_iff.mp h
    have hg := group_length hgs
    have hr := ih hrs
    rw [← h]
    simp only [List.length_append, List.length_cons]
    omega
  | case4 cs hne hshort =>
    rw [decode] at h
    · cases h
    · exact hne
    · exact hshort

end Base64
