import Mathlib.Data.Fintype.Basic

/-!
# Records that are read, changed and written back whole

A record is seen through the values of its fields. A copy that was read
earlier is changed in some fields and written over the record. When the copy
still agrees with the record off these fields, the write is an update of these
fields alone, and no other update is lost.
-/

set_option autoImplicit false

namespace WriteBack

variable {σ ι : Type*} {β : ι → Type*} (value : σ → (i : ι) → β i)

/-- The fields in `p` from the new values, the others from the old ones. -/
def merge (p : ι → Bool) (new old : (i : ι) → β i) : (i : ι) → β i :=
  fun i => if p i then new i else old i

def AgreeOff (p : ι → Bool) (a b : σ) : Prop := ∀ i, p i = false → value a i = value b i

instance [Fintype ι] [∀ i, DecidableEq (β i)] (p : ι → Bool) (a b : σ) :
    Decidable (AgreeOff value p a b) := by
  unfold AgreeOff
  infer_instance

variable {value}

theorem AgreeOff.trans {p : ι → Bool} {a b c : σ} (hab : AgreeOff value p a b)
    (hbc : AgreeOff value p b c) : AgreeOff value p a c :=
  fun i hi => (hab i hi).trans (hbc i hi)

/-- Agreement off fewer fields is agreement off more. -/
theorem AgreeOff.mono {p q : ι → Bool} {a b : σ} (h : AgreeOff value p a b)
    (hpq : ∀ i, p i → q i) : AgreeOff value q a b := by
  intro i hi
  refine h i ?_
  by_contra hp
  simp [hpq i (by simpa using hp)] at hi

theorem AgreeOff.merge_eq {p : ι → Bool} {a b : σ} (h : AgreeOff value p a b) :
    merge p (value a) (value b) = value a := by
  funext i
  unfold merge
  cases hp : p i with
  | true => rfl
  | false => exact (h i hp).symm

/-- A copy that agrees with the record off `p` is written back by an operation
that changes no field off `p`: the record becomes the merge. -/
theorem write_back {p : ι → Bool} {new copy row : σ} (hf : AgreeOff value p new copy)
    (hr : AgreeOff value p copy row) : merge p (value new) (value row) = value new :=
  (hf.trans hr).merge_eq

end WriteBack
