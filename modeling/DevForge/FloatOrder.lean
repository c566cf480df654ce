import Mathlib.Data.Prod.Lex
import Mathlib.Data.Int.Order.Basic

/-!
# The order of double precision numbers

The comparison of two numbers, neither of them NaN, is the comparison of their
ranks in a linear order: the sign and the kind first, then the exponent, then the
mantissa.
-/

set_option autoImplicit false

namespace FloatOrder
open Float.Model

abbrev Rank := ℤ ×ₗ ℤ ×ₗ ℤ

def rank : UnpackedFloat → Rank
  | .infinity .negative => toLex (-2,toLex (0,0))
  | .finite .negative m e _ => toLex (-1,toLex (-e,-m))
  | .zero _ => toLex (0,toLex (0,0))
  | .notANumber => toLex (0,toLex (0,0))
  | .finite .positive m e _ => toLex (1,toLex (e,m))
  | .infinity .positive => toLex (2,toLex (0,0))

theorem rank_lt (k l : ℤ) (e f : ℤ) (m n : ℤ) :
    (toLex (k,toLex (e,m)) : Rank) < toLex (l,toLex (f,n)) ↔ k < l ∨ k = l ∧ (e < f ∨ e = f ∧ m < n) := by
  simp only [Prod.Lex.toLex_lt_toLex]

theorem then_eq_lt (e f : ℤ) (m n : ℕ) :
    (compare e f).then (compare m n) = .lt ↔ e < f ∨ e = f ∧ m < n := by
  rw [Ordering.then_eq_lt,compare_lt_iff_lt,compare_lt_iff_lt,compare_eq_iff_eq]

theorem then_eq_gt (e f : ℤ) (m n : ℕ) :
    (compare e f).then (compare m n) = .gt ↔ f < e ∨ e = f ∧ n < m := by
  rw [Ordering.then_eq_gt,compare_gt_iff_gt,compare_gt_iff_gt,compare_eq_iff_eq]

theorem lt_iff_of_compare {a b : UnpackedFloat} {o : Ordering} {k e m l f n : ℤ} (hcompare : a.compare b = some o)
    (ha : rank a = toLex (k,toLex (e,m))) (hb : rank b = toLex (l,toLex (f,n)))
    (h : o = .lt ↔ k < l ∨ k = l ∧ (e < f ∨ e = f ∧ m < n)) : a.lt b = true ↔ rank a < rank b := by
  rw [UnpackedFloat.lt, hcompare, ha, hb, rank_lt, ← h]
  cases o <;> decide

theorem lt_iff_rank {a b : UnpackedFloat} (ha : a.isNaN = false) (hb : b.isNaN = false) :
    a.lt b = true ↔ rank a < rank b := by
  cases a with
  | notANumber => exact absurd ha (by decide)
  | infinity s =>
    cases b with
    | notANumber => exact absurd hb (by decide)
    | infinity t => cases s <;> cases t <;> exact lt_iff_of_compare rfl rfl rfl (by decide)
    | zero t => cases s <;> exact lt_iff_of_compare rfl rfl rfl (by decide)
    | finite t n f _ => cases s <;> cases t <;> exact lt_iff_of_compare rfl rfl rfl (by simp)
  | zero s =>
    cases b with
    | notANumber => exact absurd hb (by decide)
    | infinity t => cases t <;> exact lt_iff_of_compare rfl rfl rfl (by decide)
    | zero t => exact lt_iff_of_compare rfl rfl rfl (by decide)
    | finite t n f _ => cases t <;> exact lt_iff_of_compare rfl rfl rfl (by simp)
  | finite s m e _ =>
    cases b with
    | notANumber => exact absurd hb (by decide)
    | infinity t => cases s <;> cases t <;> exact lt_iff_of_compare rfl rfl rfl (by simp)
    | zero t => cases s <;> exact lt_iff_of_compare rfl rfl rfl (by simp)
    | finite t n f _ =>
      cases s with
      | negative =>
        cases t with
        | negative => exact lt_iff_of_compare rfl rfl rfl (by simp [Ordering.swap_eq_lt,then_eq_gt])
        | positive => exact lt_iff_of_compare rfl rfl rfl (by simp)
      | positive =>
        cases t with
        | negative => exact lt_iff_of_compare rfl rfl rfl (by simp)
        | positive => exact lt_iff_of_compare rfl rfl rfl (by simp [then_eq_lt])

def value (x : Float) : Rank := rank x.toModel.unpack

theorem lt_iff_value {x y : Float} (hx : x.isNaN = false) (hy : y.isNaN = false) :
    x < y ↔ value x < value y := by
  have h : x < y ↔ x.toModel.unpack.lt y.toModel.unpack = true := by
    change x.lt y = true ↔ _
    simp only [Float.lt,decide_eq_true_eq]
    exact Iff.rfl
  rw [h]
  exact lt_iff_rank hx hy

end FloatOrder
