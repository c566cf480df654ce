import Mathlib.Data.Int.Order.Basic
import Mathlib.Data.List.Infix

/-!
# Windows of an increasing log

A log lists items in increasing order of a number. A reader that has received
the items of a window, numbered after `a` up to `b`, and receives next an
initial part of what stands above `b`, has received a larger window.
-/

set_option autoImplicit false

namespace EventLog

variable {α : Type*} (seq : α → ℤ)

def Increasing (l : List α) : Prop := l.Pairwise (fun x y => seq x < seq y)

def above (a : ℤ) (l : List α) : List α := l.filter (fun x => a < seq x)

def window (a b : ℤ) (l : List α) : List α := l.filter (fun x => a < seq x ∧ seq x ≤ b)

/-- The number that a reader standing at `last` has reached after these items. -/
def reach (last : ℤ) (r : List α) : ℤ := (r.getLast?.map seq).getD last

@[simp] theorem reach_nil (last : ℤ) : reach seq last [] = last := rfl

@[simp] theorem reach_concat (last : ℤ) (r : List α) (x : α) : reach seq last (r++[x]) = seq x := by
  simp [reach]

theorem reach_append (last : ℤ) (r s : List α) :
    reach seq last (r++s) = reach seq (reach seq last r) s := by
  rcases List.eq_nil_or_concat' s with rfl | ⟨s,x,rfl⟩
  · simp
  · rw [reach_concat, ← List.append_assoc, reach_concat]

theorem increasing_append (l m : List α) : Increasing seq (l++m) ↔
    Increasing seq l ∧ Increasing seq m ∧ ∀ x ∈ l, ∀ y ∈ m, seq x < seq y :=
  List.pairwise_append

theorem Increasing.above {l : List α} (h : Increasing seq l) (a : ℤ) :
    Increasing seq (above seq a l) := h.sublist List.filter_sublist

theorem mem_above (a : ℤ) (l : List α) (x : α) : x ∈ above seq a l ↔ x ∈ l ∧ a < seq x := by
  simp [above]

theorem above_append (a : ℤ) (l m : List α) :
    above seq a (l++m) = above seq a l++above seq a m := List.filter_append l m

theorem above_eq_nil (a : ℤ) (l : List α) (h : ∀ x ∈ l, seq x ≤ a) : above seq a l = [] := by
  simpa [above] using h

theorem le_reach_of_increasing (last : ℤ) (r : List α) (hi : Increasing seq r)
    (hl : ∀ x ∈ r, last < seq x) :
    last ≤ reach seq last r ∧ ∀ x ∈ r, seq x ≤ reach seq last r := by
  rcases List.eq_nil_or_concat' r with rfl | ⟨r,x,rfl⟩
  · simp
  · rw [reach_concat]
    refine ⟨(hl x (by simp)).le,fun y hy => ?_⟩
    rcases List.mem_append.mp hy with hy | hy
    · exact (((increasing_append seq r [x]).mp hi).2.2 y hy x (by simp)).le
    · simp [List.mem_singleton.mp hy]

/-- An initial part of what stands above a number is a window. -/
theorem prefix_above (last : ℤ) (l r : List α) (hi : Increasing seq l)
    (hp : r <+: above seq last l) : r = window seq last (reach seq last r) l := by
  obtain ⟨t,ht⟩ := hp
  have hrt : Increasing seq (r++t) := ht ▸ Increasing.above seq hi last
  obtain ⟨hr,_,hlt⟩ := (increasing_append seq r t).mp hrt
  have hm : ∀ x ∈ r++t, last < seq x := fun x hx => ((mem_above seq last l x).mp (ht ▸ hx)).2
  obtain ⟨hle,hreach⟩ := le_reach_of_increasing seq last r hr (fun x hx => hm x (by simp [hx]))
  have hw : window seq last (reach seq last r) l =
      (above seq last l).filter (fun x => seq x ≤ reach seq last r) := by
    simp [window, above, List.filter_filter, and_comm]
  rw [hw, ← ht, List.filter_append]
  have h1 : r.filter (fun x => seq x ≤ reach seq last r) = r := by simpa using hreach
  have h2 : t.filter (fun x => seq x ≤ reach seq last r) = [] := by
    simp only [List.filter_eq_nil_iff, decide_eq_true_eq, not_le]
    intro y hy
    rcases List.eq_nil_or_concat' r with rfl | ⟨r',x,rfl⟩
    · simpa using hm y (by simp [hy])
    · rw [reach_concat]
      exact hlt x (by simp) y hy
  rw [h1, h2, List.append_nil]

theorem window_append_window (a b c : ℤ) (l : List α) (hi : Increasing seq l) (hab : a ≤ b)
    (hbc : b ≤ c) : window seq a b l++window seq b c l = window seq a c l := by
  induction l with
  | nil => rfl
  | cons x l ih =>
    have hx : ∀ y ∈ l, seq x < seq y := (List.pairwise_cons.mp hi).1
    have hl := ih (List.pairwise_cons.mp hi).2
    by_cases h : seq x ≤ b
    · have hn : ¬ b < seq x := by omega
      by_cases ha : a < seq x
      · have hc : seq x ≤ c := by omega
        simpa [window, h, hn, ha, hc] using hl
      · simpa [window, hn, ha] using hl
    · have hnil : window seq a b (x::l) = [] := by
        simp only [window, List.filter_eq_nil_iff, List.mem_cons, decide_eq_true_eq]
        rintro y (rfl | hy)
        · omega
        · have := hx y hy
          omega
      have hsame : window seq b c (x::l) = window seq a c (x::l) := by
        apply List.filter_congr
        intro y hy
        have : b < seq y := by
          rcases List.mem_cons.mp hy with rfl | hy
          · omega
          · have := hx y hy
            omega
        simp [this, lt_of_le_of_lt hab this]
      rw [hnil, hsame, List.nil_append]

/-- The delivery rule: a window extended by an initial part of what follows. -/
theorem window_deliver (after last : ℤ) (l r : List α) (hi : Increasing seq l)
    (ha : after ≤ last) (hp : r <+: above seq last l) :
    window seq after last l++r = window seq after (reach seq last r) l := by
  obtain ⟨t,ht⟩ := id hp
  have hrt : Increasing seq (r++t) := ht ▸ Increasing.above seq hi last
  have hm : ∀ x ∈ r, last < seq x := fun x hx =>
    ((mem_above seq last l x).mp (ht ▸ List.mem_append_left t hx)).2
  have hle := (le_reach_of_increasing seq last r
    ((increasing_append seq r t).mp hrt).1 hm).1
  have hr := prefix_above seq last l r hi hp
  calc window seq after last l++r
      = window seq after last l++window seq last (reach seq last r) l := by rw [← hr]
    _ = window seq after (reach seq last r) l := window_append_window seq _ _ _ l hi ha hle

/-- The log grows above what the reader has reached. -/
theorem window_append_of_above (after last : ℤ) (l m : List α)
    (hm : ∀ x ∈ m, after < seq x → last < seq x) :
    window seq after last (l++m) = window seq after last l := by
  have hn : window seq after last m = [] := by
    simp only [window, List.filter_eq_nil_iff, decide_eq_true_eq]
    rintro x hx ⟨h,h'⟩
    have := hm x hx h
    omega
  rw [window, List.filter_append]
  exact (congrArg _ hn).trans (List.append_nil _)

theorem window_eq_above (after last : ℤ) (l : List α) (h : ∀ x ∈ l, after < seq x → seq x ≤ last) :
    window seq after last l = above seq after l := by
  apply List.filter_congr
  intro x hx
  by_cases ha : after < seq x
  · simp [ha, h x hx ha]
  · simp [ha]

/-- An increasing log up to a position, once what is above the reader there
has been delivered. -/
theorem take_le_reach (last : ℤ) (l : List α) (n : ℕ) (hi : Increasing seq l) :
    ∀ x ∈ l.take n, seq x ≤ reach seq last (above seq last (l.take n)) := by
  intro x hx
  have hinc := Increasing.above seq (List.Pairwise.sublist (List.take_sublist n l) hi) last
  obtain ⟨hle,hall⟩ := le_reach_of_increasing seq last _ hinc
    (fun y hy => ((mem_above seq last _ y).mp hy).2)
  by_cases h : last < seq x
  · exact hall x ((mem_above seq last _ x).mpr ⟨hx,h⟩)
  · omega

theorem above_take_prefix (last : ℤ) (l : List α) (n : ℕ) :
    above seq last (l.take n) <+: above seq last l :=
  (List.take_prefix n l).filter _

/-- What stands above the reader, once all of it is delivered. -/
theorem window_deliver_all (after last : ℤ) (l : List α) (hi : Increasing seq l)
    (ha : after ≤ last) : window seq after last l++above seq last l = above seq after l := by
  rw [window_deliver seq after last l _ hi ha (List.prefix_refl _)]
  apply window_eq_above
  intro x hx _
  have h := take_le_reach seq last l l.length hi
  rw [List.take_length] at h
  exact h x hx

end EventLog
