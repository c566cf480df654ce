import Mathlib.Data.List.Sort

/-!
# Keeping the newest

A store keeps the `n` newest of its entries when `n` of them remain, or all
where there are fewer, and nothing that has gone is later than what remains.
A listing is cut after `n` entries: from a descending listing the newest
remain, from an ascending one only when there was nothing to choose.
-/

set_option autoImplicit false

namespace NewestKept

variable {α : Type*} [DecidableEq α]

/-! ## Places in a stable sort -/

section
variable (r : α → α → Prop) [DecidableRel r]

/-- How many entries of `l` come before `x` once `l` is sorted. -/
def place (x : α) : List α → ℕ
  | [] => 0
  | y::l => if y = x then l.countP (fun z => !decide (r x z)) else place x l+(if r y x then 1 else 0)

variable [Std.Total r] [IsTrans α r]

theorem idxOf_orderedInsert_self (x : α) (l : List α) (hl : l.Pairwise r) :
    (l.orderedInsert r x).idxOf x = l.countP (fun z => !decide (r x z)) := by
  induction l with
  | nil => simp
  | cons y l ih =>
    rw [List.pairwise_cons] at hl
    by_cases hxy : r x y
    · have hall : ∀ z ∈ y::l, r x z := by
        intro z hz
        rcases List.mem_cons.mp hz with rfl | hz
        · exact hxy
        · exact IsTrans.trans _ _ _ hxy (hl.1 z hz)
      rw [List.orderedInsert_cons, if_pos hxy, List.idxOf_cons_self, eq_comm, List.countP_eq_zero]
      intro z hz
      simp [hall z hz]
    · have hne : y ≠ x := by
        intro h
        subst h
        exact hxy ((Std.Total.total y y).elim id id)
      rw [List.orderedInsert_cons, if_neg hxy, List.idxOf_cons_ne _ hne, ih hl.2,
        List.countP_cons_of_pos (by simp [hxy])]

omit [Std.Total r] in
theorem idxOf_orderedInsert_ne (x y : α) (hne : y ≠ x) (l : List α) (hl : l.Pairwise r)
    (hx : x ∈ l) :
    (l.orderedInsert r y).idxOf x = l.idxOf x+(if r y x then 1 else 0) := by
  induction l with
  | nil => simp at hx
  | cons z l ih =>
    rw [List.pairwise_cons] at hl
    by_cases hyz : r y z
    · have hyx : r y x := by
        rcases List.mem_cons.mp hx with rfl | hx
        · exact hyz
        · exact IsTrans.trans _ _ _ hyz (hl.1 x hx)
      rw [List.orderedInsert_cons, if_pos hyz, List.idxOf_cons_ne _ hne, if_pos hyx]
    · rw [List.orderedInsert_cons, if_neg hyz]
      by_cases hzx : z = x
      · subst hzx
        simp [hyz]
      · have hxl : x ∈ l := (List.mem_cons.mp hx).resolve_left (Ne.symm hzx)
        rw [List.idxOf_cons_ne _ hzx, List.idxOf_cons_ne _ hzx, ih hl.2 hxl]
        omega

theorem idxOf_insertionSort (x : α) (l : List α) (hx : x ∈ l) :
    (l.insertionSort r).idxOf x = place r x l := by
  induction l with
  | nil => simp at hx
  | cons y l ih =>
    have hs := List.pairwise_insertionSort r l
    rw [List.insertionSort_cons, place]
    by_cases hyx : y = x
    · subst hyx
      rw [if_pos rfl, idxOf_orderedInsert_self r y _ hs]
      exact (List.perm_insertionSort r l).countP_eq _
    · have hxl : x ∈ l := (List.mem_cons.mp hx).resolve_left (Ne.symm hyx)
      rw [if_neg hyx, idxOf_orderedInsert_ne r x y hyx _ hs ((List.mem_insertionSort r).mpr hxl),
        ih hxl]

theorem mem_take_insertionSort_iff (x : α) (l : List α) (hx : x ∈ l) (n : ℕ) :
    x ∈ (l.insertionSort r).take n ↔ place r x l < n := by
  rw [List.mem_take_iff_idxOf_lt ((List.mem_insertionSort r).mpr hx), idxOf_insertionSort r x l hx]

omit [Std.Total r] [IsTrans α r] in
/-- With fewer entries there is no more before `x`. -/
theorem place_filter_le (x : α) (l : List α) {p : α → Bool} (hp : p x = true) : place r x (l.filter p) ≤ place r x l := by
  induction l with
  | nil => exact Nat.le_refl _
  | cons y l ih =>
    by_cases hyx : y = x
    · subst hyx
      rw [List.filter_cons_of_pos hp, place, place, if_pos rfl, if_pos rfl]
      exact (List.filter_sublist).countP_le
    · by_cases hy : p y = true
      · rw [List.filter_cons_of_pos hy, place, place, if_neg hyx, if_neg hyx]
        omega
      · rw [List.filter_cons_of_neg hy, place, if_neg hyx]
        omega

omit [IsTrans α r] in
/-- Where no other entry is a match for `x`, only what comes before it counts. -/
theorem place_eq_countP (x : α) (l : List α) (hx : x ∈ l) (hl : l.Nodup) :
    (∀ y ∈ l, y ≠ x → (r y x ↔ ¬r x y)) → place r x l = l.countP (fun z => !decide (r x z)) := by
  intro hstrict
  have hrefl : ∀ a, r a a := fun a => (Std.Total.total a a).elim id id
  induction l with
  | nil => simp at hx
  | cons y l ih =>
    rw [List.nodup_cons] at hl
    rw [place]
    by_cases hyx : y = x
    · subst hyx
      rw [if_pos rfl, List.countP_cons_of_neg (by simp [hrefl])]
    · have hxl : x ∈ l := (List.mem_cons.mp hx).resolve_left (Ne.symm hyx)
      have hy := hstrict y (by simp) hyx
      rw [if_neg hyx, ih hxl hl.2 (fun z hz => hstrict z (List.mem_cons_of_mem _ hz)), List.countP_cons]
      by_cases h : r x y <;> simp [h, hy]

end

/-! ## What remains of a store -/

section
variable {β : Type*} [LinearOrder β] (date : α → β)

def KeepsNewest (n : ℕ) (before after : List α) : Prop :=
  after.Sublist before ∧ after.length = min n before.length ∧
    ∀ a ∈ after, ∀ b ∈ before, b ∉ after → date b ≤ date a

instance (n : ℕ) (before after : List α) : Decidable (KeepsNewest date n before after) := by
  unfold KeepsNewest
  infer_instance

omit [DecidableEq α] in
/-- Deleting a part of a listing leaves the rest of it. -/
theorem filter_perm_rest {before rest gone : List α} {p : α → Bool} (hn : before.Nodup)
    (hp : before.Perm (rest++gone)) (hgone : ∀ a ∈ before, p a = true ↔ a ∉ gone) :
    (before.filter p).Perm rest := by
  have hd := (hp.nodup_iff.mp hn)
  rw [List.nodup_append] at hd
  have hrest : rest.filter p = rest := by
    rw [List.filter_eq_self]
    intro a ha
    rw [hgone a (hp.mem_iff.mpr (List.mem_append_left _ ha))]
    exact fun hg => hd.2.2 a ha a hg rfl
  have hnone : gone.filter p = [] := by
    rw [List.filter_eq_nil_iff]
    intro a ha
    rw [hgone a (hp.mem_iff.mpr (List.mem_append_right _ ha))]
    exact not_not.mpr ha
  have := hp.filter p
  rwa [List.filter_append, hrest, hnone, List.append_nil] at this

theorem keepsNewest_iff_of_perm {n : ℕ} {before rest gone : List α} {p : α → Bool}
    (hn : before.Nodup) (hp : before.Perm (rest++gone))
    (hgone : ∀ a ∈ before, p a = true ↔ a ∉ gone) :
    KeepsNewest date n before (before.filter p) ↔
      rest.length = min n before.length ∧ ∀ a ∈ rest, ∀ b ∈ gone, date b ≤ date a := by
  have hrest := filter_perm_rest hn hp hgone
  have hmem : ∀ b, b ∈ before ∧ b ∉ before.filter p ↔ b ∈ gone := by
    intro b
    have hb : b ∈ gone → b ∈ before := fun h => hp.mem_iff.mpr (List.mem_append_right _ h)
    rw [List.mem_filter]
    constructor
    · rintro ⟨hin,hnot⟩
      by_contra hg
      exact hnot ⟨hin,(hgone b hin).mpr hg⟩
    · exact fun hg => ⟨hb hg,fun h => (hgone b (hb hg)).mp h.2 hg⟩
  rw [KeepsNewest, hrest.length_eq]
  constructor
  · rintro ⟨-,hlen,hdate⟩
    refine ⟨hlen,fun a ha b hb => ?_⟩
    have := (hmem b).mpr hb
    exact hdate a (hrest.mem_iff.mpr ha) b this.1 this.2
  · rintro ⟨hlen,hdate⟩
    refine ⟨List.filter_sublist,hlen,fun a ha b hb hba => ?_⟩
    exact hdate a (hrest.mem_iff.mp ha) b ((hmem b).mp ⟨hb,hba⟩)

omit [DecidableEq α] in
theorem keepsNewest_self_iff (n : ℕ) (l : List α) : KeepsNewest date n l l ↔ l.length ≤ n := by
  rw [KeepsNewest]
  constructor
  · rintro ⟨-,h,-⟩
    omega
  · intro h
    exact ⟨List.Sublist.refl l,by omega,fun _ _ b hb hn => absurd hb hn⟩

omit [DecidableEq α] in
/-- Something goes only where there are more than `n`. -/
theorem KeepsNewest.full {n : ℕ} {before after : List α} (h : KeepsNewest date n before after)
    {x : α} (hx : x ∈ before) (hgone : x ∉ after) : n < before.length := by
  by_contra hle
  have hlen : after.length = before.length := by
    rw [h.2.1]
    omega
  exact hgone (h.1.eq_of_length hlen ▸ hx)

/-- An entry goes when `n` others are later. -/
theorem KeepsNewest.gone_iff {n : ℕ} {before after : List α} (h : KeepsNewest date n before after)
    (hn : before.Nodup) {x : α} (hx : x ∈ before) (hdate : ∀ b ∈ before, date b = date x → b = x) :
    x ∉ after ↔ n ≤ before.countP (fun b => decide (date x < date b)) := by
  constructor
  · intro hgone
    have hfull := h.full date hx hgone
    have hlater : ∀ a ∈ after, decide (date x < date a) = true := by
      intro a ha
      apply decide_eq_true
      apply lt_of_le_of_ne (h.2.2 a ha x hx hgone)
      intro heq
      exact hgone (hdate a (h.1.subset ha) heq.symm ▸ ha)
    calc n = after.length := by rw [h.2.1]; omega
      _ = after.countP (fun b => decide (date x < date b)) := (List.countP_eq_length.mpr hlater).symm
      _ ≤ before.countP (fun b => decide (date x < date b)) := h.1.countP_le
  · intro hcount hkept
    let newer := before.filter (fun b => decide (date x < date b))
    have hin : ∀ b ∈ newer, b ∈ after := by
      intro b hb
      have hb' := List.mem_filter.mp hb
      by_contra hgone
      exact absurd (of_decide_eq_true hb'.2) (not_lt.mpr (h.2.2 x hkept b hb'.1 hgone))
    have hx' : x ∉ newer := fun hm => lt_irrefl _ (of_decide_eq_true (List.mem_filter.mp hm).2)
    have hsub : (x::newer) ⊆ after := List.cons_subset.mpr ⟨hkept,hin⟩
    have hlen := (List.subperm_of_subset (List.nodup_cons.mpr ⟨hx',hn.filter _⟩) hsub).length_le
    rw [List.length_cons, ← List.countP_eq_length_filter, h.2.1] at hlen
    omega

/-- A descending listing cut after `n` entries. -/
theorem keepsNewest_of_descending {n : ℕ} {before order : List α} {p : α → Bool}
    (hn : before.Nodup) (hp : order.Perm before)
    (hs : order.Pairwise (fun a b => date b ≤ date a))
    (hgone : ∀ a ∈ before, p a = true ↔ a ∉ order.drop n) :
    KeepsNewest date n before (before.filter p) := by
  have happ : before.Perm (order.take n++order.drop n) := by
    rw [List.take_append_drop]
    exact hp.symm
  rw [keepsNewest_iff_of_perm date hn happ hgone, List.length_take, hp.length_eq]
  rw [← List.take_append_drop n order, List.pairwise_append] at hs
  exact ⟨rfl,hs.2.2⟩

/-- The first page of an ascending listing cut after `n` entries. -/
theorem keepsNewest_ascending_iff {n page : ℕ} {before order : List α} {p : α → Bool} (h1 : 1 ≤ n)
    (hn : before.Nodup) (hp : order.Perm before) (hs : order.Pairwise (fun a b => date a ≤ date b))
    (hgone : ∀ a ∈ before, p a = true ↔ a ∉ (order.take page).drop n) :
    KeepsNewest date n before (before.filter p) ↔
      before.length ≤ n ∨ (before.length ≤ page ∧ ∀ a ∈ before, ∀ b ∈ before, date a = date b) := by
  have happ : before.Perm (((order.take page).take n++order.drop page)++(order.take page).drop n) := by
    have hsplit : order.Perm ((order.take page).take n++(order.take page).drop n++order.drop page) := by
      rw [List.take_append_drop, List.take_append_drop]
    refine hp.symm.trans (hsplit.trans ?_)
    rw [List.append_assoc, List.append_assoc]
    exact List.Perm.append_left _ List.perm_append_comm
  rw [keepsNewest_iff_of_perm date hn happ hgone]
  have hlen : order.length = before.length := hp.length_eq
  simp only [List.length_append, List.length_take, List.length_drop, hlen]
  constructor
  · rintro ⟨hcount,hdate⟩
    by_cases hle : before.length ≤ n
    · exact Or.inl hle
    have hpage : before.length ≤ page := by omega
    refine Or.inr ⟨hpage,?_⟩
    rw [List.take_of_length_le (by omega : order.length ≤ page)] at hdate
    have hfirst : ∀ a ∈ order.take n, ∀ b ∈ order, date b ≤ date a := by
      intro a ha b hb
      have hdrop : order.drop n ≠ [] := by
        intro h
        rw [List.drop_eq_nil_iff] at h
        omega
      obtain ⟨z,hz⟩ := List.exists_mem_of_ne_nil _ hdrop
      rw [← List.take_append_drop n order, List.mem_append] at hb
      rcases hb with hb | hb
      · rw [← List.take_append_drop n order, List.pairwise_append] at hs
        exact (hs.2.2 b hb z hz).trans (hdate a (List.mem_append_left _ ha) z hz)
      · exact hdate a (List.mem_append_left _ ha) b hb
    cases order with
    | nil => simp at hlen; omega
    | cons x l =>
      have hx : x ∈ (x::l).take n := by
        obtain ⟨m,rfl⟩ : ∃ m, n = m+1 := ⟨n-1,by omega⟩
        simp
      have hall : ∀ b ∈ x::l, date b = date x := by
        intro b hb
        apply le_antisymm (hfirst x hx b hb)
        rcases List.mem_cons.mp hb with rfl | hb
        · exact le_rfl
        · exact (List.pairwise_cons.mp hs).1 b hb
      intro a ha b hb
      rw [hall a (hp.mem_iff.mpr ha), hall b (hp.mem_iff.mpr hb)]
  · rintro (hle | ⟨hpage,hdate⟩)
    · refine ⟨by omega,fun a _ b hb => ?_⟩
      rw [List.drop_eq_nil_of_le (by simp; omega)] at hb
      simp at hb
    · refine ⟨by omega,fun a ha b hb => ?_⟩
      have hin : ∀ c, c ∈ order → c ∈ before := fun c hc => hp.mem_iff.mp hc
      have hb' : b ∈ order := List.mem_of_mem_take (List.mem_of_mem_drop hb)
      have ha' : a ∈ order := by
        rcases List.mem_append.mp ha with ha | ha
        · exact List.mem_of_mem_take (List.mem_of_mem_take ha)
        · exact List.mem_of_mem_drop ha
      exact (hdate b (hin b hb') a (hin a ha')).le

end

end NewestKept
