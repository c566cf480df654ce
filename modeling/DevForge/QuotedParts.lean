import Mathlib.Logic.Basic
import Mathlib.Data.List.Basic

/-!
# Parts of a text with quotations

A text is cut at the separators that stand outside quotations. A quotation
starts and ends with the quote sign; inside, the sign is doubled. A part is
closed when it ends outside every quotation and has no separator outside.
Closed parts can be joined and are given back by the cut.
-/

set_option autoImplicit false

namespace QuotedParts

variable {α : Type*} [DecidableEq α] (quote sep : α)

/-- Whether a text ends inside a quotation; none when a separator stands outside. -/
def scan : Bool → List α → Option Bool
  | inside, [] => some inside
  | inside, c::cs =>
    if c = quote then scan (!inside) cs
    else if inside = false ∧ c = sep then none
    else scan inside cs

def Closed (l : List α) : Prop := scan quote sep false l = some false

instance (l : List α) : Decidable (Closed quote sep l) :=
  inferInstanceAs (Decidable (scan quote sep false l = some false))

/-- The parts between the separators outside quotations; `cur` is the part read so far. -/
def parts : Bool → List α → List α → List (List α)
  | _, cur, [] => [cur]
  | inside, cur, c::cs =>
    if c = quote then parts (!inside) (cur++[c]) cs
    else if inside = false ∧ c = sep then cur::parts false [] cs
    else parts inside (cur++[c]) cs

def doubled : List α → List α
  | [] => []
  | c::cs => if c = quote then c::c::doubled cs else c::doubled cs

variable {quote sep}

theorem scan_append (l m : List α) (inside : Bool) :
    scan quote sep inside (l++m) = (scan quote sep inside l).bind (fun b => scan quote sep b m) := by
  induction l generalizing inside with
  | nil => rfl
  | cons c cs ih =>
    rw [List.cons_append, scan, scan]
    by_cases hq : c = quote
    · rw [if_pos hq, if_pos hq, ih]
    · rw [if_neg hq, if_neg hq]
      by_cases hs : inside = false ∧ c = sep
      · rw [if_pos hs, if_pos hs]
        rfl
      · rw [if_neg hs, if_neg hs, ih]

theorem Closed.append {l m : List α} (hl : Closed quote sep l) (hm : Closed quote sep m) :
    Closed quote sep (l++m) := by
  unfold Closed at *
  rw [scan_append, hl]
  exact hm

theorem closed_nil : Closed quote sep [] := rfl

theorem scan_plain {l : List α} (h : ∀ c ∈ l, c ≠ quote ∧ c ≠ sep) (inside : Bool) :
    scan quote sep inside l = some inside := by
  induction l with
  | nil => rfl
  | cons c cs ih =>
    have hc := h c (by simp)
    rw [scan, if_neg hc.1, if_neg (fun hs => hc.2 hs.2)]
    exact ih (fun d hd => h d (by simp [hd]))

theorem closed_of_plain {l : List α} (h : ∀ c ∈ l, c ≠ quote ∧ c ≠ sep) : Closed quote sep l :=
  scan_plain h false

theorem Closed.flatten {ls : List (List α)} (h : ∀ l ∈ ls, Closed quote sep l) :
    Closed quote sep ls.flatten := by
  induction ls with
  | nil => rfl
  | cons l ls ih =>
    exact (h l (by simp)).append (ih (fun m hm => h m (by simp [hm])))

theorem Closed.intercalate {gap : List α} (hgap : Closed quote sep gap) {ls : List (List α)}
    (h : ∀ l ∈ ls, Closed quote sep l) : Closed quote sep (gap.intercalate ls) := by
  induction ls with
  | nil => exact closed_nil
  | cons l ls ih =>
    cases ls with
    | nil =>
      rw [List.intercalate_singleton]
      exact h l (by simp)
    | cons m ls =>
      rw [List.intercalate_cons_cons]
      exact ((h l (by simp)).append hgap).append (ih (fun k hk => h k (by simp [hk])))

/-- Inside a quotation a doubled text keeps the quotation open. -/
theorem scan_doubled (l : List α) : scan quote sep true (doubled quote l) = some true := by
  induction l with
  | nil => rfl
  | cons c cs ih =>
    rw [doubled]
    by_cases hq : c = quote
    · rw [if_pos hq, scan, if_pos hq, scan, if_pos hq]
      exact ih
    · rw [if_neg hq, scan, if_neg hq, if_neg (by simp)]
      exact ih

/-- Whatever is quoted with its quote signs doubled is closed. -/
theorem closed_quoted (l : List α) : Closed quote sep (quote::(doubled quote l++[quote])) := by
  unfold Closed
  rw [scan, if_pos rfl, scan_append]
  show (scan quote sep true (doubled quote l)).bind _ = _
  rw [scan_doubled, Option.bind_some, scan, if_pos rfl]
  rfl

theorem parts_append {l : List α} (rest : List α) {inside b : Bool}
    (h : scan quote sep inside l = some b) (cur : List α) :
    parts quote sep inside cur (l++rest) = parts quote sep b (cur++l) rest := by
  induction l generalizing inside cur with
  | nil =>
    cases h
    rw [List.nil_append, List.append_nil]
  | cons c cs ih =>
    rw [scan] at h
    rw [List.cons_append, parts, List.append_cons cur c cs]
    by_cases hq : c = quote
    · rw [if_pos hq] at h ⊢
      exact ih h _
    · rw [if_neg hq] at h ⊢
      by_cases hs : inside = false ∧ c = sep
      · rw [if_pos hs] at h
        cases h
      · rw [if_neg hs] at h ⊢
        exact ih h _

/-- A closed text is one part. -/
theorem parts_closed {l : List α} (h : Closed quote sep l) (cur : List α) :
    parts quote sep false cur l = [cur++l] := by
  have hp := parts_append [] h cur
  rwa [List.append_nil] at hp

/-- A closed text ends at its separator. -/
theorem parts_terminated (hne : sep ≠ quote) {l : List α} (h : Closed quote sep l) (cur rest : List α) :
    parts quote sep false cur (l++sep::rest) = (cur++l)::parts quote sep false [] rest := by
  rw [parts_append (sep::rest) h cur, parts, if_neg hne, if_pos ⟨rfl,rfl⟩]

end QuotedParts
