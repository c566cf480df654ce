import Mathlib.Data.List.Basic

/-!
# Parts closed by two separators

A text is scanned from left to right; two separators in a row close a part, and what follows
the last closed part is kept until more of the text arrives. The parts found do not depend on
how the text arrives.
-/

set_option autoImplicit false

namespace ClosedParts

variable {α : Type*} [DecidableEq α] (sep : α)

/-- The parts that a text closes after what was kept, and what it leaves. -/
def scan : List α → List α → List (List α) × List α
  | kept, [] => ([],kept)
  | kept, a::l =>
    if a = sep ∧ kept.getLast? = some sep then (kept.dropLast::(scan [] l).1,(scan [] l).2)
    else scan (kept++[a]) l

theorem scan_append (kept l m : List α) : scan sep kept (l++m) =
    ((scan sep kept l).1++(scan sep (scan sep kept l).2 m).1,(scan sep (scan sep kept l).2 m).2) := by
  induction l generalizing kept with
  | nil => rfl
  | cons a l ih =>
    simp only [List.cons_append, scan]
    split
    · simp [ih]
    · exact ih _

/-- Nothing in this text closes a part. -/
def Open (l : List α) : Prop := scan sep [] l = ([],l)

theorem open_nil : Open sep ([] : List α) := rfl

theorem scan_open {kept : List α} (h : Open sep kept) (l : List α) :
    scan sep [] (kept++l) = scan sep kept l := by
  rw [scan_append, h]
  simp

/-- What is left closes no part. -/
theorem open_scan {kept : List α} (h : Open sep kept) (l : List α) : Open sep (scan sep kept l).2 := by
  induction l generalizing kept with
  | nil => exact h
  | cons a l ih =>
    simp only [scan]
    split
    · exact ih (open_nil sep)
    · rename_i hsep
      apply ih
      unfold Open
      rw [scan_open sep h]
      simp [scan, hsep]

/-- A text that arrives in pieces. -/
def feed : List (List α) → List α → List (List α) × List α
  | [], kept => ([],kept)
  | l::ls, kept =>
    ((scan sep [] (kept++l)).1++(feed ls (scan sep [] (kept++l)).2).1,
      (feed ls (scan sep [] (kept++l)).2).2)

theorem feed_eq (ls : List (List α)) {kept : List α} (h : Open sep kept) :
    feed sep ls kept = scan sep kept ls.flatten := by
  induction ls generalizing kept with
  | nil => rfl
  | cons l ls ih =>
    simp only [feed, List.flatten_cons]
    rw [scan_open sep h, scan_append, ih (open_scan sep h l)]

/-! ## Reading closed parts -/

/-- A part that two separators close as it is. -/
structure Part (p : List α) : Prop where
  isOpen : Open sep p
  last : p.getLast? ≠ some sep

theorem scan_of_not_mem {l : List α} (h : sep ∉ l) (kept : List α) : scan sep kept l = ([],kept++l) := by
  induction l generalizing kept with
  | nil => simp [scan]
  | cons a l ih =>
    obtain ⟨ha,hl⟩ := List.ne_and_not_mem_of_not_mem_cons h
    rw [scan, if_neg (fun hs => ha hs.1.symm), ih hl]
    simp

theorem part_of_not_mem {l : List α} (h : sep ∉ l) : Part sep l :=
  ⟨scan_of_not_mem sep h [],fun hl => h (List.mem_of_getLast? hl)⟩

/-- A single separator closes nothing. -/
theorem Part.append {p l : List α} (hp : Part sep p) (hne : l ≠ []) (hl : sep ∉ l) :
    Part sep (p++sep::l) := by
  constructor
  · unfold Open
    rw [scan_open sep hp.isOpen, scan, if_neg (fun h => hp.last h.2), scan_of_not_mem sep hl]
    simp
  · intro h
    rw [List.getLast?_append_of_ne_nil _ (by simp), List.getLast?_cons,
      List.getLast?_eq_some_getLast hne] at h
    exact hl (Option.some.inj h ▸ List.getLast_mem hne)

def encode (ps : List (List α)) : List α := ps.flatMap (fun p => p++[sep,sep])

theorem scan_part {p : List α} (hp : Part sep p) (l : List α) :
    scan sep [] (p++[sep,sep]++l) = (p::(scan sep [] l).1,(scan sep [] l).2) := by
  rw [List.append_assoc, scan_open sep hp.isOpen]
  simp [scan, hp.last]

theorem scan_encode (ps : List (List α)) (hps : ∀ p ∈ ps, Part sep p) (l : List α) :
    scan sep [] (encode sep ps++l) = (ps++(scan sep [] l).1,(scan sep [] l).2) := by
  induction ps with
  | nil => rfl
  | cons p ps ih =>
    have hsplit : encode sep (p::ps)++l = p++[sep,sep]++(encode sep ps++l) := by simp [encode]
    rw [hsplit, scan_part sep (hps p List.mem_cons_self),
      ih (fun q hq => hps q (List.mem_cons_of_mem p hq))]
    rfl

theorem scan_part_begun {p l : List α} (hp : Part sep p) (h : l <+: p++[sep]) :
    scan sep [] l = ([],l) := by
  have hwhole : scan sep [] (p++[sep]) = ([],p++[sep]) := by
    rw [scan_open sep hp.isOpen]
    simp [scan, hp.last]
  obtain ⟨m,hm⟩ := h
  have hclosed : (scan sep [] l).1 = [] := by
    rw [← hm, scan_append] at hwhole
    exact (List.append_eq_nil_iff.mp (Prod.mk.inj hwhole).1).1
  have hkept : ∀ (kept l : List α), (scan sep kept l).1 = [] → (scan sep kept l).2 = kept++l := by
    intro kept l
    induction l generalizing kept with
    | nil => simp [scan]
    | cons a l ih =>
      simp only [scan]
      split
      · simp
      · intro hnil
        rw [ih _ hnil]
        simp
  exact Prod.ext hclosed (hkept [] l hclosed)

end ClosedParts
