import Mathlib.Data.Nat.Bitwise

/-!
# Blocks of addresses

An address of a given width is a number. A block holds the addresses that
share their first bits with its base, and a test of a high field under a mask
is a test of these bits.
-/

set_option autoImplicit false

namespace Cidr

structure Block where
  base : ℕ
  len : ℕ
  deriving DecidableEq, Repr

/-- The bits of a `w`-bit address that a block fixes. -/
def Block.network (w : ℕ) (b : Block) (n : ℕ) : ℕ := n/2^(w-b.len)

def Block.contains (w : ℕ) (b : Block) (n : ℕ) : Bool := b.network w n = b.network w b.base

@[simp] theorem contains_iff (w : ℕ) (b : Block) (n : ℕ) :
    b.contains w n ↔ n/2^(w-b.len) = b.base/2^(w-b.len) :=
  decide_eq_true_iff

/-- Only the high bits of a field are left under a mask without low bits. -/
theorem and_high (n m k : ℕ) (hm : m%2^k = 0) : n &&& m = ((n/2^k) &&& (m/2^k))*2^k := by
  have hd : (n &&& m)/2^k = (n/2^k) &&& (m/2^k) := Nat.and_div_two_pow
  have hr : (n &&& m)%2^k = 0 := by
    rw [Nat.and_mod_two_pow, hm, Nat.and_zero]
  have h := Nat.div_add_mod (n &&& m) (2^k)
  rw [hd, hr, Nat.add_zero, Nat.mul_comm] at h
  exact h.symm

/-- A masked field of an address in the block is that of the base. -/
theorem and_high_eq (n m k v : ℕ) (hm : m%2^k = 0) (h : n/2^k = v/2^k) : n &&& m = v &&& m := by
  rw [and_high n m k hm, and_high v m k hm, h]

end Cidr
