import Mathlib.Data.List.Basic

/-!
# Edit scripts of two lists

A script keeps, adds and removes elements; its two sides are the list before and the list after.
What a script keeps is a common subsequence of its sides, so no script is shorter than the one that
keeps a longest one.
-/

set_option autoImplicit false

namespace EditScripts

inductive Edit (α : Type*) where
  | keep (a : α)
  | add (a : α)
  | remove (a : α)
deriving DecidableEq, Repr

variable {α : Type*}

/-- What stands in the old list. -/
def oldSide : List (Edit α) → List α
  | [] => []
  | .keep a::es => a::oldSide es
  | .add _::es => oldSide es
  | .remove a::es => a::oldSide es

def newSide : List (Edit α) → List α
  | [] => []
  | .keep a::es => a::newSide es
  | .add a::es => a::newSide es
  | .remove _::es => newSide es

def kept : List (Edit α) → List α
  | [] => []
  | .keep a::es => a::kept es
  | .add _::es => kept es
  | .remove _::es => kept es

def additions : List (Edit α) → ℕ
  | [] => 0
  | .keep _::es => additions es
  | .add _::es => additions es+1
  | .remove _::es => additions es

def deletions : List (Edit α) → ℕ
  | [] => 0
  | .keep _::es => deletions es
  | .add _::es => deletions es
  | .remove _::es => deletions es+1

theorem kept_sublist_old (es : List (Edit α)) : (kept es).Sublist (oldSide es) := by
  induction es with
  | nil => exact List.Sublist.refl _
  | cons e es ih =>
    cases e with
    | keep a => exact ih.cons_cons a
    | add a => exact ih
    | remove a => exact ih.cons a

theorem kept_sublist_new (es : List (Edit α)) : (kept es).Sublist (newSide es) := by
  induction es with
  | nil => exact List.Sublist.refl _
  | cons e es ih =>
    cases e with
    | keep a => exact ih.cons_cons a
    | add a => exact ih.cons a
    | remove a => exact ih

/-- Every edit stands in one side, and what is kept in both. -/
theorem count_edits (es : List (Edit α)) :
    additions es+deletions es+2*(kept es).length = (oldSide es).length+(newSide es).length := by
  induction es with
  | nil => rfl
  | cons e es ih => cases e <;> simp only [additions, deletions, kept, oldSide, newSide, List.length_cons] <;> omega

/-! ## Longest common subsequences -/

/-- A longest common subsequence of two lists. -/
structure IsLongest (s l m : List α) : Prop where
  left : s.Sublist l
  right : s.Sublist m
  longest : ∀ t : List α, t.Sublist l → t.Sublist m → t.length ≤ s.length

/-- A script that keeps a longest common subsequence of its sides. -/
def KeepsMost (es : List (Edit α)) : Prop := IsLongest (kept es) (oldSide es) (newSide es)

/-- No script with the same sides has fewer edits. -/
theorem KeepsMost.le {es other : List (Edit α)} (h : KeepsMost es) (hold : oldSide other = oldSide es)
    (hnew : newSide other = newSide es) : additions es+deletions es ≤ additions other+deletions other := by
  have hkept := h.longest (kept other) (hold ▸ kept_sublist_old other) (hnew ▸ kept_sublist_new other)
  have hcount := count_edits es
  have hother := count_edits other
  rw [hold, hnew] at hother
  omega

/-- A subsequence of two lists that start differently leaves out one of the first elements. -/
theorem sublist_of_ne {t l m : List α} {a b : α} (hab : a ≠ b) (hl : t.Sublist (a::l)) (hm : t.Sublist (b::m)) :
    t.Sublist l ∨ t.Sublist m := by
  rcases List.sublist_cons_iff.mp hl with hl | ⟨r,rfl,hr⟩
  · exact Or.inl hl
  · rcases List.sublist_cons_iff.mp hm with hm | ⟨r',hr',_⟩
    · exact Or.inr hm
    · exact absurd (List.cons.inj hr').1 hab

/-! ## The script of a walk -/

section
variable [DecidableEq α]

/-- The length of a longest common subsequence. -/
def lcs : List α → List α → ℕ
  | [], _ => 0
  | _::_, [] => 0
  | a::l, b::m => if a = b then lcs l m+1 else max (lcs l (b::m)) (lcs (a::l) m)
termination_by l m => l.length+m.length

/-- Equal elements are kept; else one is added or removed, whichever leaves the longer subsequence,
and an addition goes first. -/
def script : List α → List α → List (Edit α)
  | [], [] => []
  | [], b::m => .add b::script [] m
  | a::l, [] => .remove a::script l []
  | a::l, b::m =>
    if a = b then .keep a::script l m
    else if lcs l (b::m) ≤ lcs (a::l) m then .add b::script (a::l) m
    else .remove a::script l (b::m)
termination_by l m => l.length+m.length

/-- The script leads from one list to the other, and keeps a longest common subsequence. -/
structure Leads (es : List (Edit α)) (l m : List α) : Prop where
  old : oldSide es = l
  new : newSide es = m
  longest : IsLongest (kept es) l m

theorem le_lcs {l m t : List α} (hl : t.Sublist l) (hm : t.Sublist m) : t.length ≤ lcs l m := by
  induction l, m using lcs.induct generalizing t with
  | case1 m =>
    rw [List.sublist_nil.mp hl]
    exact Nat.zero_le _
  | case2 a l =>
    rw [List.sublist_nil.mp hm]
    exact Nat.zero_le _
  | case3 l a m ih =>
    rw [lcs, if_pos rfl]
    have htail := ih (t := t.tail) (by simpa using hl.tail) (by simpa using hm.tail)
    rw [List.length_tail] at htail
    omega
  | case4 a l b m hab ihl ihm =>
    rw [lcs, if_neg hab]
    rcases sublist_of_ne hab hl hm with ht | ht
    · have := ihl ht hm
      omega
    · have := ihm hl ht
      omega

theorem script_sides (l m : List α) : oldSide (script l m) = l ∧ newSide (script l m) = m := by
  induction l, m using script.induct with
  | case1 =>
    rw [script]
    exact ⟨rfl,rfl⟩
  | case2 b m ih =>
    rw [script, oldSide, newSide, ih.1, ih.2]
    exact ⟨rfl,rfl⟩
  | case3 a l ih =>
    rw [script, oldSide, newSide, ih.1, ih.2]
    exact ⟨rfl,rfl⟩
  | case4 l a m ih =>
    rw [script, if_pos rfl, oldSide, newSide, ih.1, ih.2]
    exact ⟨rfl,rfl⟩
  | case5 a l b m hab hle ih =>
    rw [script, if_neg hab, if_pos hle, oldSide, newSide, ih.1, ih.2]
    exact ⟨rfl,rfl⟩
  | case6 a l b m hab hgt ih =>
    rw [script, if_neg hab, if_neg hgt, oldSide, newSide, ih.1, ih.2]
    exact ⟨rfl,rfl⟩

/-- The script keeps as much as any. -/
theorem script_kept (l m : List α) : (kept (script l m)).length = lcs l m := by
  induction l, m using script.induct with
  | case1 =>
    rw [script, lcs]
    rfl
  | case2 b m ih =>
    rw [script, kept, ih, lcs, lcs]
  | case3 a l ih =>
    rw [script, kept, ih, lcs]
    cases l <;> rw [lcs]
  | case4 l a m ih =>
    rw [script, if_pos rfl, kept, List.length_cons, ih, lcs, if_pos rfl]
  | case5 a l b m hab hle ih =>
    rw [script, if_neg hab, if_pos hle, kept, ih, lcs, if_neg hab]
    omega
  | case6 a l b m hab hgt ih =>
    rw [script, if_neg hab, if_neg hgt, kept, ih, lcs, if_neg hab]
    omega

theorem script_leads (l m : List α) : Leads (script l m) l m := by
  obtain ⟨hold,hnew⟩ := script_sides l m
  refine ⟨hold,hnew,?_⟩
  constructor
  · have hleft := kept_sublist_old (script l m)
    rwa [hold] at hleft
  · have hright := kept_sublist_new (script l m)
    rwa [hnew] at hright
  · intro t hl hm
    rw [script_kept]
    exact le_lcs hl hm

end

end EditScripts
