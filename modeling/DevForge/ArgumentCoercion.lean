import DevForge.FixedDigits
import DevForge.ToolArguments
import Mathlib.Data.List.DropRight

/-!
# Coercion of arguments

What the coercion of a call's arguments keeps: it can be repeated, it leaves what has its type and what
the schema does not declare. A text that is split at its commas becomes a list, whose items should be
those of the text, markers of a list and enclosing quotes aside.
-/

set_option autoImplicit false

namespace DevForge.ArgumentCoercion
open WakeGate (Json)
open ToolArguments

/-! ## Trimmed texts -/

variable {p : Char → Bool}

def trimList (p : Char → Bool) (l : List Char) : List Char := (l.dropWhile p).rdropWhile p

theorem toList_trimBy (s : String) : (trimBy p s).toList = trimList p s.toList := by
  simp [trimBy, trimList, List.rdropWhile]

theorem toList_trim (s : String) : (trim s).toList = trimList isWhitespace s.toList := toList_trimBy s

theorem trimList_of_ends {l : List Char} (hhead : l.head?.all (!p ·) = true) (hlast : l.getLast?.all (!p ·) = true) :
    trimList p l = l := by
  have hdrop : l.dropWhile p = l := by
    cases l with
    | nil => rfl
    | cons c l => exact List.dropWhile_cons_of_neg (by simpa using hhead)
  rw [trimList, hdrop]
  apply List.rdropWhile_eq_self_iff.mpr
  intro hne
  rw [List.getLast?_eq_some_getLast hne] at hlast
  simpa using hlast

/-- Neither end is dropped again. -/
theorem trimList_ends (l : List Char) : (trimList p l).head?.all (!p ·) = true ∧ (trimList p l).getLast?.all (!p ·) = true := by
  constructor
  · cases h : (trimList p l).head? with
    | none => rfl
    | some c =>
      obtain ⟨rest,hrest⟩ := List.head?_eq_some_iff.mp h
      obtain ⟨tail,htail⟩ : (trimList p l) <+: l.dropWhile p := List.rdropWhile_prefix p _
      rw [hrest, List.cons_append] at htail
      have hc := List.head?_dropWhile_not p l
      rw [← htail] at hc
      simpa using hc
  · cases h : (trimList p l).getLast? with
    | none => rfl
    | some c =>
      obtain ⟨init,hinit⟩ := List.getLast?_eq_some_iff.mp h
      have hne : trimList p l ≠ [] := by simp [hinit]
      have hc := List.rdropWhile_last_not p (l.dropWhile p) hne
      have hlast : (trimList p l).getLast hne = c := by simp [hinit]
      rw [show (List.rdropWhile p (l.dropWhile p)).getLast hne = c from hlast] at hc
      simpa using hc

theorem trimList_trimList (l : List Char) : trimList p (trimList p l) = trimList p l :=
  trimList_of_ends (trimList_ends l).1 (trimList_ends l).2

theorem trimList_sublist (l : List Char) : (trimList p l).Sublist l :=
  (List.rdropWhile_prefix p _).sublist.trans (List.dropWhile_sublist p)

theorem trimList_cons {c : Char} (hc : p c = true) (l : List Char) : trimList p (c::l) = trimList p l := by
  rw [trimList, List.dropWhile_cons_of_pos hc, trimList]

theorem trimList_concat {c : Char} (hc : p c = true) (l : List Char) : trimList p (l++[c]) = trimList p l := by
  rw [trimList, trimList, List.dropWhile_append]
  split
  · next hempty =>
    rw [List.isEmpty_iff.mp hempty, List.dropWhile_cons_of_pos hc]
    rfl
  · exact List.rdropWhile_concat_pos p _ c hc

/-- How many characters are not white space. -/
def weight (l : List Char) : ℕ := l.countP (!isWhitespace ·)

theorem weight_le {l m : List Char} (h : l.Sublist m) : weight l ≤ weight m := h.countP_le

theorem weight_dropWhile (l : List Char) : weight (l.dropWhile isWhitespace) = weight l := by
  induction l with
  | nil => rfl
  | cons c l ih =>
    by_cases hc : isWhitespace c = true
    · rw [List.dropWhile_cons_of_pos hc, ih]
      simp [weight, hc]
    · rw [List.dropWhile_cons_of_neg hc]

theorem weight_reverse (l : List Char) : weight l.reverse = weight l := by simp [weight]

theorem weight_trim (l : List Char) : weight (trimList isWhitespace l) = weight l := by
  rw [trimList, List.rdropWhile, weight_reverse, weight_dropWhile, weight_reverse, weight_dropWhile]

/-- A character that is dropped from an end was one. -/
theorem weight_trimList_lt {l : List Char} (hp : ∀ c, p c = true → isWhitespace c = false)
    (h : l.head?.all (!p ·) = false ∨ l.getLast?.all (!p ·) = false) : weight (trimList p l) < weight l := by
  rcases h with h | h
  · cases l with
    | nil => simp at h
    | cons c l =>
      have hc : p c = true := by simpa using h
      have hsub : (trimList p (c::l)).Sublist l := by
        rw [trimList_cons hc]
        exact trimList_sublist l
      have hle := weight_le hsub
      simp only [weight, List.countP_cons, hp c hc] at hle ⊢
      simpa using Nat.lt_succ_of_le hle
  · obtain ⟨c,hlast,hc⟩ : ∃ c, l.getLast? = some c ∧ p c = true := by
      cases hl : l.getLast? with
      | none => simp [hl] at h
      | some c => exact ⟨c,rfl,by simpa [hl] using h⟩
    obtain ⟨init,rfl⟩ := List.getLast?_eq_some_iff.mp hlast
    have hsub : (trimList p (init++[c])).Sublist init := by
      rw [trimList_concat hc]
      exact trimList_sublist init
    have hle := weight_le hsub
    simp only [weight, List.countP_append, List.countP_singleton, hp c hc] at hle ⊢
    simpa using Nat.lt_succ_of_le hle

/-! ## The characters of an item -/

def isBullet (c : Char) : Bool := c ∈ ['-','*','•']
def isQuote (c : Char) : Bool := c ∈ [doubleQuote,singleQuote]

/-- A bullet is a marker when white space follows it. -/
def unbulleted (t : List Char) : List Char :=
  match t with
  | c::d::rest => if isBullet c && isWhitespace d then (d::rest).dropWhile isWhitespace else t
  | _ => t

/-- A number is a marker when a dot or a bracket and a space follow it. -/
def unnumbered (t : List Char) : List Char :=
  let number := t.takeWhile isDigit
  let rest := t.dropWhile isDigit
  if number ≠ [] && (['.',' '].isPrefixOf rest || [')',' '].isPrefixOf rest)
  then (rest.drop 2).dropWhile isWhitespace else t

/-- Two quotes of the same kind may enclose an item. -/
def unquoted (w : List Char) : List Char :=
  match w with
  | q::rest => if isQuote q && rest.getLast? = some q then rest.dropLast else w
  | [] => []

/-- An item without its marker. -/
def unmarked (s : String) : List Char :=
  trimList isWhitespace (unnumbered (unbulleted (trimList isWhitespace s.toList)))

/-- The item's own characters: without a marker, enclosing quotes and the white space around. -/
def ownText (s : String) : String := String.ofList (trimList isWhitespace (unquoted (unmarked s)))

def bulletOk (t : List Char) : Bool :=
  match t with
  | c::rest => !isBullet c || rest.head?.any isWhitespace
  | [] => true

def noQuoteEnds (w : List Char) : Bool := w.head?.all (!isQuote ·) && w.getLast?.all (!isQuote ·)

def quotesOk (w : List Char) : Bool := noQuoteEnds w || (unquoted w ≠ w && noQuoteEnds (unquoted w))

/-- It starts with no bullet that is not a marker, and has no quote at an end but two that enclose it. -/
def plainItem (s : String) : Bool := bulletOk (trimList isWhitespace s.toList) && quotesOk (unmarked s)

theorem bullet_not_space {c : Char} (h : isBullet c = true) : isWhitespace c = false := by
  simp only [isBullet, List.mem_cons, List.not_mem_nil, or_false, decide_eq_true_eq] at h
  rcases h with rfl | rfl | rfl <;> decide

theorem bullet_not_digit {c : Char} (h : isBullet c = true) : isDigit c = false := by
  simp only [isBullet, List.mem_cons, List.not_mem_nil, or_false, decide_eq_true_eq] at h
  rcases h with rfl | rfl | rfl <;> decide

theorem bullet_not_quote {c : Char} (h : isBullet c = true) : isQuote c = false := by
  simp only [isBullet, List.mem_cons, List.not_mem_nil, or_false, decide_eq_true_eq] at h
  rcases h with rfl | rfl | rfl <;> decide

theorem quote_not_space (c : Char) (h : isQuote c = true) : isWhitespace c = false := by
  simp only [isQuote, List.mem_cons, List.not_mem_nil, or_false, decide_eq_true_eq] at h
  rcases h with rfl | rfl <;> decide

theorem toList_cleanItem (s : String) : (cleanItem s).toList =
    trimList isWhitespace (trimList isQuote (trimList isWhitespace
      (unnumbered (((trimList isWhitespace s.toList).dropWhile isBullet).dropWhile isWhitespace)))) := by
  unfold cleanItem unnumbered
  simp only [trimStart, String.toList_ofList, toList_trim, toList_trimBy, apply_ite String.toList]
  rfl

/-- Leading bullets and white space, for a text whose only bullet is a marker. -/
theorem dropBullets_of_ok {t : List Char} (hhead : t.head?.all (!isWhitespace ·) = true) (h : bulletOk t = true) :
    (t.dropWhile isBullet).dropWhile isWhitespace = unbulleted t := by
  cases t with
  | nil => rfl
  | cons c rest =>
    have hc : isWhitespace c = false := by simpa using hhead
    by_cases hbullet : isBullet c = true
    · cases rest with
      | nil => simp [bulletOk, hbullet] at h
      | cons d rest =>
        have hd : isWhitespace d = true := by simpa [bulletOk, hbullet] using h
        have hd' : ¬isBullet d = true := by
          intro hd'
          rw [bullet_not_space hd'] at hd
          cases hd
        rw [List.dropWhile_cons_of_pos hbullet, List.dropWhile_cons_of_neg hd']
        simp [unbulleted, hbullet, hd]
    · rw [List.dropWhile_cons_of_neg hbullet, List.dropWhile_cons_of_neg (by simp [hc])]
      cases rest with
      | nil => rfl
      | cons d rest => simp [unbulleted, hbullet]

theorem cleanItem_of_bulletOk {s : String} (h : bulletOk (trimList isWhitespace s.toList) = true) :
    (cleanItem s).toList = trimList isWhitespace (trimList isQuote (unmarked s)) := by
  rw [toList_cleanItem, dropBullets_of_ok (trimList_ends _).1 h, unmarked]

theorem unnumbered_of_head {t : List Char} (h : t.head?.all (!isDigit ·) = true) : unnumbered t = t := by
  cases t with
  | nil => rfl
  | cons c t =>
    have hc : ¬isDigit c = true := by simpa using h
    simp [unnumbered, List.takeWhile_cons_of_neg hc]

theorem unnumbered_sublist (t : List Char) : (unnumbered t).Sublist t := by
  unfold unnumbered
  dsimp only
  split
  · exact (List.dropWhile_sublist _).trans ((List.drop_sublist _ _).trans (List.dropWhile_sublist _))
  · exact List.Sublist.refl t

/-- A text that starts with a bullet that is no marker has it as its own. -/
theorem ownText_of_bullet {s : String} (h : bulletOk (trimList isWhitespace s.toList) = false) :
    (ownText s).toList = trimList isWhitespace s.toList := by
  have hends := trimList_ends (p := isWhitespace) s.toList
  have htrim := trimList_trimList (p := isWhitespace) s.toList
  generalize ht : trimList isWhitespace s.toList = t at h hends htrim
  cases t with
  | nil => simp [bulletOk] at h
  | cons c rest =>
    have hboth : isBullet c = true ∧ rest.head?.any isWhitespace = false := by simpa [bulletOk] using h
    have hun : unbulleted (c::rest) = c::rest := by
      cases rest with
      | nil => rfl
      | cons d rest =>
        have hd : isWhitespace d = false := by simpa using hboth.2
        simp [unbulleted, hd]
    have hnum : unnumbered (c::rest) = c::rest := unnumbered_of_head (by simp [bullet_not_digit hboth.1])
    have hquote : unquoted (c::rest) = c::rest := by simp [unquoted, bullet_not_quote hboth.1]
    rw [ownText, String.toList_ofList, unmarked, ht, hun, hnum, htrim, hquote, htrim]

/-- A text that loses quotes is enclosed in two. -/
theorem unquoted_of_ne {w : List Char} (h : unquoted w ≠ w) :
    ∃ q, isQuote q = true ∧ w = q::(unquoted w++[q]) := by
  cases w with
  | nil => exact absurd rfl h
  | cons q rest =>
    by_cases hq : (isQuote q && rest.getLast? = some q) = true
    · simp only [Bool.and_eq_true, decide_eq_true_eq] at hq
      obtain ⟨init,rfl⟩ := List.getLast?_eq_some_iff.mp hq.2
      exact ⟨q,hq.1,by simp [unquoted, hq.1]⟩
    · exact absurd (by rw [unquoted, if_neg hq]) h

theorem trimQuotes_of_ends {w : List Char} (h : noQuoteEnds w = true) : trimList isQuote w = w := by
  simp only [noQuoteEnds, Bool.and_eq_true] at h
  exact trimList_of_ends h.1 h.2

/-- Both ways to take the quotes away agree on the text they leave, or too many are taken. -/
theorem trimQuotes_cases (w : List Char) : (quotesOk w = true ∧ trimList isQuote w = unquoted w) ∨
    (quotesOk w = false ∧ weight (trimList isQuote w) < weight (unquoted w)) := by
  have hlt {x : List Char} (h : noQuoteEnds x = false) : weight (trimList isQuote x) < weight x := by
    apply weight_trimList_lt quote_not_space
    rwa [noQuoteEnds, Bool.and_eq_false_iff] at h
  by_cases hne : unquoted w = w
  · by_cases hends : noQuoteEnds w = true
    · exact .inl ⟨by simp [quotesOk, hends],by rw [trimQuotes_of_ends hends, hne]⟩
    · rw [Bool.not_eq_true] at hends
      refine .inr ⟨by simp [quotesOk, hends, hne],?_⟩
      rw [hne]
      exact hlt hends
  · obtain ⟨q,hq,hw⟩ := unquoted_of_ne hne
    have hnot : noQuoteEnds w = false := by
      rw [hw]
      simp [noQuoteEnds, hq]
    have htrim : trimList isQuote w = trimList isQuote (unquoted w) := by
      conv_lhs => rw [hw]
      rw [trimList_cons hq, trimList_concat hq]
    rw [htrim]
    by_cases hends : noQuoteEnds (unquoted w) = true
    · exact .inl ⟨by simp [quotesOk, hne, hends],trimQuotes_of_ends hends⟩
    · rw [Bool.not_eq_true] at hends
      exact .inr ⟨by simp [quotesOk, hnot, hends],hlt hends⟩

theorem cleanItem_of_plain {s : String} (h : plainItem s = true) : cleanItem s = ownText s := by
  simp only [plainItem, Bool.and_eq_true] at h
  rcases trimQuotes_cases (unmarked s) with ⟨-,heq⟩ | ⟨hno,-⟩
  · apply String.toList_injective
    rw [cleanItem_of_bulletOk h.1, heq, ownText, String.toList_ofList]
  · rw [h.2] at hno
    cases hno

/-- An item that is not plain loses characters. -/
theorem weight_cleanItem_lt {s : String} (h : plainItem s = false) :
    weight (cleanItem s).toList < weight (ownText s).toList := by
  cases hbullet : bulletOk (trimList isWhitespace s.toList) with
  | true =>
    have hquotes : quotesOk (unmarked s) = false := by simpa [plainItem, hbullet] using h
    rcases trimQuotes_cases (unmarked s) with ⟨hok,-⟩ | ⟨-,hlt⟩
    · rw [hquotes] at hok
      cases hok
    · rw [cleanItem_of_bulletOk hbullet, ownText, String.toList_ofList, weight_trim, weight_trim]
      exact hlt
  | false =>
    rw [ownText_of_bullet hbullet, toList_cleanItem, weight_trim]
    generalize trimList isWhitespace s.toList = t at hbullet
    cases t with
    | nil => simp [bulletOk] at hbullet
    | cons c rest =>
      have hc : isBullet c = true := by
        simp only [bulletOk, Bool.or_eq_false_iff, Bool.not_eq_false'] at hbullet
        exact hbullet.1
      rw [List.dropWhile_cons_of_pos hc]
      have hsub : (trimList isQuote (trimList isWhitespace (unnumbered ((rest.dropWhile isBullet).dropWhile isWhitespace)))).Sublist
          rest :=
        (trimList_sublist _).trans ((trimList_sublist _).trans ((unnumbered_sublist _).trans
          ((List.dropWhile_sublist _).trans (List.dropWhile_sublist _))))
      have hle := weight_le hsub
      have hcons : weight (c::rest) = weight rest+1 := by simp [weight, bullet_not_space hc]
      omega

theorem cleanItem_eq_iff {s : String} : cleanItem s = ownText s ↔ plainItem s = true := by
  constructor
  · intro heq
    by_contra hno
    have hlt := weight_cleanItem_lt (by simpa using hno)
    rw [heq] at hlt
    exact absurd hlt (lt_irrefl _)
  · exact cleanItem_of_plain

theorem weight_pos {l : List Char} (h : trimList isWhitespace l ≠ []) : 0 < weight l := by
  rw [← weight_trim]
  have hhead := (trimList_ends (p := isWhitespace) l).1
  cases ht : trimList isWhitespace l with
  | nil => exact absurd ht h
  | cons c rest =>
    rw [ht] at hhead
    have hc : isWhitespace c = false := by simpa using hhead
    simp [weight, hc]

/-- No item appears that the text does not have. -/
theorem ownText_ne_empty {s : String} (h : cleanItem s ≠ "") : ownText s ≠ "" := by
  cases hplain : plainItem s with
  | true => rwa [← cleanItem_of_plain hplain]
  | false =>
    intro hnone
    have hlt := weight_cleanItem_lt hplain
    rw [hnone] at hlt
    exact absurd hlt (Nat.not_lt_zero _)

/-! ## Items that are numbers -/

theorem digits_some {cs : List Char} {n : ℕ} (h : digits cs = some n) : cs ≠ [] ∧ ∀ c ∈ cs, isDigit c = true := by
  unfold digits at h
  split at h
  · cases h
  · next hno =>
    simp only [Bool.or_eq_true, decide_eq_true_eq, not_or, List.any_eq_true, not_exists, not_and, Bool.not_eq_true'] at hno
    exact ⟨hno.1,fun c hc => by simpa using hno.2 c hc⟩

/-- A number starts with a sign or a digit, and digits follow. -/
theorem parseI64_some {s : String} {n : ℤ} (h : parseI64 s = some n) :
    (∃ (cs : List Char) (N : ℕ), s.toList = '-'::cs ∧ digits cs = some N ∧ n = -(N : ℤ)) ∨
    (∃ (cs : List Char) (N : ℕ), s.toList = '+'::cs ∧ digits cs = some N) ∨ ∃ N : ℕ, digits s.toList = some N := by
  have hcast {cs : List Char} {m : ℤ} (hm : (do let a ← digits cs; pure (a : ℤ)) = some m) :
      ∃ N : ℕ, digits cs = some N ∧ m = N := by
    cases hd : digits cs with
    | none => simp [hd] at hm
    | some N => exact ⟨N,rfl,by simpa [hd] using hm.symm⟩
  unfold parseI64 at h
  obtain ⟨hvalue,-⟩ := Option.filter_eq_some_iff.mp h
  split at hvalue
  · next cs hcs =>
    obtain ⟨m,hm,rfl⟩ := Option.map_eq_some_iff.mp hvalue
    obtain ⟨N,hN,rfl⟩ := hcast hm
    exact .inl ⟨cs,N,hcs,hN,rfl⟩
  · next cs hcs =>
    obtain ⟨m,hm,-⟩ := Option.map_eq_some_iff.mp hvalue
    obtain ⟨N,hN,-⟩ := hcast hm
    exact .inr (.inl ⟨cs,N,hcs,hN⟩)
  · obtain ⟨m,hm,-⟩ := Option.map_eq_some_iff.mp hvalue
    obtain ⟨N,hN,-⟩ := hcast hm
    exact .inr (.inr ⟨N,hN⟩)

theorem digit_not_quote {c : Char} (h : isDigit c = true) : isQuote c = false := by
  rw [Bool.eq_false_iff]
  intro hq
  simp only [isQuote, List.mem_cons, List.not_mem_nil, or_false, decide_eq_true_eq] at hq
  rcases hq with rfl | rfl <;> exact absurd h (by decide)

theorem digit_not_bullet {c : Char} (h : isDigit c = true) : isBullet c = false := by
  rw [Bool.eq_false_iff]
  intro hb
  rw [bullet_not_digit hb] at h
  cases h

/-- Numbers have no quote. -/
theorem quote_not_parsed {s : String} {n : ℤ} (h : parseI64 s = some n) : ∀ c ∈ s.toList, isQuote c = false := by
  rcases parseI64_some h with ⟨cs,N,hcs,hN,-⟩ | ⟨cs,N,hcs,hN⟩ | ⟨N,hN⟩
  · rw [hcs]
    intro c hc
    rcases List.mem_cons.mp hc with rfl | hc
    · decide
    · exact digit_not_quote ((digits_some hN).2 c hc)
  · rw [hcs]
    intro c hc
    rcases List.mem_cons.mp hc with rfl | hc
    · decide
    · exact digit_not_quote ((digits_some hN).2 c hc)
  · exact fun c hc => digit_not_quote ((digits_some hN).2 c hc)

theorem mem_dropWhile {l : List Char} {c : Char} (hc : c ∈ l) (hp : p c = false) : c ∈ l.dropWhile p := by
  induction l with
  | nil => cases hc
  | cons d l ih =>
    by_cases hd : p d = true
    · rw [List.dropWhile_cons_of_pos hd]
      rcases List.mem_cons.mp hc with rfl | hc
      · rw [hp] at hd
        cases hd
      · exact ih hc
    · rwa [List.dropWhile_cons_of_neg hd]

theorem mem_trimList {l : List Char} {c : Char} (hc : c ∈ l) (hp : p c = false) : c ∈ trimList p l := by
  rw [trimList, List.rdropWhile, List.mem_reverse]
  apply mem_dropWhile _ hp
  rw [List.mem_reverse]
  exact mem_dropWhile hc hp

/-- Quotes that are taken in excess are among the item's own characters. -/
theorem quote_of_not_ok {s : String} (h : quotesOk (unmarked s) = false) : ∃ c ∈ (ownText s).toList, isQuote c = true := by
  have hends : noQuoteEnds (unquoted (unmarked s)) = false := by
    rw [quotesOk, Bool.or_eq_false_iff] at h
    by_cases heq : unquoted (unmarked s) = unmarked s
    · rw [heq]
      exact h.1
    · simpa [heq] using h.2
  have hquote : ∃ c ∈ unquoted (unmarked s), isQuote c = true := by
    rw [noQuoteEnds, Bool.and_eq_false_iff] at hends
    rcases hends with hends | hends
    · cases hhead : (unquoted (unmarked s)).head? with
      | none => simp [hhead] at hends
      | some c => exact ⟨c,List.mem_of_head? hhead,by simpa [hhead] using hends⟩
    · cases hlast : (unquoted (unmarked s)).getLast? with
      | none => simp [hlast] at hends
      | some c => exact ⟨c,List.mem_of_getLast? hlast,by simpa [hlast] using hends⟩
  obtain ⟨c,hc,hq⟩ := hquote
  refine ⟨c,?_,hq⟩
  rw [ownText, String.toList_ofList]
  exact mem_trimList hc (quote_not_space c hq)

theorem digit_not_space {c : Char} (h : isDigit c = true) : isWhitespace c = false := isWhitespace_digit c h

theorem trimList_of_none {l : List Char} (h : ∀ c ∈ l, p c = false) : trimList p l = l := by
  apply trimList_of_ends
  · cases hhead : l.head? with
    | none => rfl
    | some c => simp [h c (List.mem_of_head? hhead)]
  · cases hlast : l.getLast? with
    | none => rfl
    | some c => simp [h c (List.mem_of_getLast? hlast)]

theorem dropWhile_of_none {l : List Char} (h : ∀ c ∈ l, p c = false) : l.dropWhile p = l := by
  cases l with
  | nil => rfl
  | cons c l => exact List.dropWhile_cons_of_neg (by simp [h c])

theorem unnumbered_of_digits {l : List Char} (h : ∀ c ∈ l, isDigit c = true) : unnumbered l = l := by
  have hdrop : l.dropWhile isDigit = [] := List.dropWhile_eq_nil_iff.mpr h
  simp [unnumbered, hdrop]

/-- An item that is a number loses its minus sign, and nothing else. -/
theorem minus_lost {s : String} {n : ℤ} (hplain : plainItem s = false) (hn : parseI64 (ownText s) = some n) :
    ∃ N : ℕ, (ownText s).toList = '-'::(cleanItem s).toList ∧ digits (cleanItem s).toList = some N ∧ n = -(N : ℤ) := by
  have hbullet : bulletOk (trimList isWhitespace s.toList) = false := by
    rw [Bool.eq_false_iff]
    intro hok
    have hquotes : quotesOk (unmarked s) = false := by simpa [plainItem, hok] using hplain
    obtain ⟨c,hc,hq⟩ := quote_of_not_ok hquotes
    rw [quote_not_parsed hn c hc] at hq
    cases hq
  have hown := ownText_of_bullet hbullet
  have hclean := toList_cleanItem s
  rw [← hown] at hbullet hclean
  have hhead {c : Char} {cs : List Char} (hcs : (ownText s).toList = c::cs) : isBullet c = true := by
    rw [hcs] at hbullet
    simp only [bulletOk, Bool.or_eq_false_iff, Bool.not_eq_false'] at hbullet
    exact hbullet.1
  rcases parseI64_some hn with ⟨cs,N,hcs,hN,hneg⟩ | ⟨cs,N,hcs,-⟩ | ⟨N,hN⟩
  · obtain ⟨-,hdigits⟩ := digits_some hN
    have hcs' : (cleanItem s).toList = cs := by
      rw [hclean, hcs, List.dropWhile_cons_of_pos (hhead hcs), dropWhile_of_none (fun c hc => digit_not_bullet (hdigits c hc)),
        dropWhile_of_none (fun c hc => digit_not_space (hdigits c hc)), unnumbered_of_digits hdigits,
        trimList_of_none (fun c hc => digit_not_space (hdigits c hc)),
        trimList_of_none (fun c hc => digit_not_quote (hdigits c hc)),
        trimList_of_none (fun c hc => digit_not_space (hdigits c hc))]
    exact ⟨N,by rw [hcs, hcs'],by rw [hcs', hN],hneg⟩
  · exact absurd (hhead hcs) (by decide)
  · obtain ⟨hne,hdigits⟩ := digits_some hN
    cases hcs : (ownText s).toList with
    | nil => exact absurd hcs hne
    | cons c cs =>
      have hc := hdigits c (by simp [hcs])
      rw [bullet_not_digit (hhead hcs)] at hc
      cases hc

theorem toString_neg_inj {m : ℕ} (h : toString (m : ℤ) = toString (-(m : ℤ))) : m = 0 := by
  cases m with
  | zero => rfl
  | succ k =>
    have hl := congrArg String.toList h
    have hneg : (toString (-((k+1 : ℕ) : ℤ))).toList = '-'::(toString (k+1)).toList := by
      show (Int.repr (Int.negSucc k)).toList = _
      simp [Int.repr]
    have hpos : (toString ((k+1 : ℕ) : ℤ)).toList = (toString (k+1)).toList := rfl
    rw [hneg, hpos] at hl
    exact absurd (congrArg List.length hl) (by simp)

theorem parseI64_digits {s : String} {N : ℕ} (h : digits s.toList = some N) :
    parseI64 s = (some (N : ℤ)).filter (fun n => -2^63 ≤ n && n < 2^63) := by
  obtain ⟨hne,hdigits⟩ := digits_some h
  unfold parseI64
  cases hs : s.toList with
  | nil => exact absurd hs hne
  | cons c cs =>
    have hc : isDigit c = true := hdigits c (by simp [hs])
    have hminus : c ≠ '-' := by
      rintro rfl
      exact absurd hc (by decide)
    have hplus : c ≠ '+' := by
      rintro rfl
      exact absurd hc (by decide)
    rw [hs] at h
    simp [hminus, hplus, h]

/-! ## The values of a list -/

/-- What an item of a list becomes. -/
def valuesOf (itemType : String) (i : String) : List Json := if i = "" then [] else [itemValue itemType i]

/-- A plain item, or minus zero among integers. -/
def keptItem (itemType : String) (s : String) : Bool :=
  plainItem s || (itemType = "integer" && parseI64 (ownText s) = some 0)

theorem values_of_items (itemType : String) (f : String → String) (is : List String) :
    ((is.map f).filter (· ≠ "")).map (itemValue itemType) = is.flatMap (fun i => valuesOf itemType (f i)) := by
  induction is with
  | nil => rfl
  | cons i is ih =>
    rw [List.flatMap_cons, ← ih, List.map_cons]
    by_cases hi : f i = ""
    · rw [List.filter_cons_of_neg (by simp [hi]), valuesOf, if_pos hi, List.nil_append]
    · rw [List.filter_cons_of_pos (by simp [hi]), valuesOf, if_neg hi]
      rfl

theorem flatMap_length_le {α β : Type} {f g : α → List β} (h : ∀ a, (f a).length ≤ (g a).length) (l : List α) :
    (l.flatMap f).length ≤ (l.flatMap g).length := by
  induction l with
  | nil => exact le_refl _
  | cons a l ih =>
    rw [List.flatMap_cons, List.flatMap_cons, List.length_append, List.length_append]
    have ha := h a
    omega

theorem flatMap_eq_iff {α β : Type} {f g : α → List β} (h : ∀ a, (f a).length ≤ (g a).length) (l : List α) :
    l.flatMap f = l.flatMap g ↔ ∀ a ∈ l, f a = g a := by
  constructor
  · intro heq
    induction l with
    | nil => simp
    | cons a l ih =>
      rw [List.flatMap_cons, List.flatMap_cons] at heq
      have hle := flatMap_length_le h l
      have hlen := congrArg List.length heq
      rw [List.length_append, List.length_append] at hlen
      have ha := h a
      obtain ⟨hhead,htail⟩ := List.append_inj heq (by omega)
      intro b hb
      rcases List.mem_cons.mp hb with rfl | hb
      · exact hhead
      · exact ih htail b hb
  · intro heq
    exact List.flatMap_congr heq

theorem values_length_le (itemType : String) (s : String) :
    (valuesOf itemType (cleanItem s)).length ≤ (valuesOf itemType (ownText s)).length := by
  unfold valuesOf
  by_cases hclean : cleanItem s = ""
  · simp [hclean]
  · simp [hclean, ownText_ne_empty hclean]

theorem keptItem_of_value {itemType s : String} (hplain : plainItem s = false)
    (h : itemValue itemType (cleanItem s) = itemValue itemType (ownText s)) :
    itemType = "integer" ∧ parseI64 (ownText s) = some 0 := by
  have hne : cleanItem s ≠ ownText s := by
    intro heq
    rw [cleanItem_eq_iff.mp heq] at hplain
    cases hplain
  unfold itemValue at h
  by_cases hint : itemType = "integer"
  · rw [if_pos hint, if_pos hint] at h
    refine ⟨hint,?_⟩
    cases hown : parseI64 (ownText s) with
    | none =>
      cases hclean : parseI64 (cleanItem s) with
      | none =>
        simp only [hown, hclean, Json.str.injEq] at h
        exact absurd h hne
      | some m => simp [hown, hclean] at h
    | some n =>
      obtain ⟨N,-,hdigits,rfl⟩ := minus_lost hplain hown
      cases hclean : parseI64 (cleanItem s) with
      | none => simp [hown, hclean] at h
      | some m =>
        rw [parseI64_digits hdigits] at hclean
        obtain rfl : m = N := (Option.some.inj (Option.filter_eq_some_iff.mp hclean).1).symm
        simp only [hown, parseI64_digits hdigits, hclean, Json.num.injEq] at h
        rw [toString_neg_inj h]
        rfl
  · rw [if_neg hint, if_neg hint] at h
    exact absurd (Json.str.inj h) hne

theorem values_eq_iff {itemType s : String} :
    valuesOf itemType (cleanItem s) = valuesOf itemType (ownText s) ↔ keptItem itemType s = true := by
  cases hplain : plainItem s with
  | true => simp [keptItem, hplain, cleanItem_of_plain hplain]
  | false =>
    have hown : ownText s ≠ "" := by
      intro hnone
      have hlt := weight_cleanItem_lt hplain
      rw [hnone] at hlt
      exact absurd hlt (Nat.not_lt_zero _)
    constructor
    · intro heq
      have hclean : cleanItem s ≠ "" := by
        intro hnone
        simp [valuesOf, hnone, hown] at heq
      rw [valuesOf, if_neg hclean, valuesOf, if_neg hown] at heq
      obtain ⟨hint,hzero⟩ := keptItem_of_value hplain (List.singleton_inj.mp heq)
      simp [keptItem, hint, hzero]
    · intro hkept
      simp only [keptItem, hplain, Bool.false_or, Bool.and_eq_true, decide_eq_true_eq] at hkept
      obtain ⟨N,-,hdigits,hN⟩ := minus_lost hplain hkept.2
      obtain rfl : N = 0 := by omega
      have hclean : cleanItem s ≠ "" := by
        intro hnone
        exact (digits_some hdigits).1 (by simp [hnone])
      have hzero : parseI64 (cleanItem s) = some 0 := by
        rw [parseI64_digits hdigits]
        rfl
      simp only [valuesOf, if_neg hclean, if_neg hown, itemValue, hzero, hkept, if_true]

/-! ## What the schema declares -/

/-- The properties of a schema, none when it has no object of them. -/
def declared (schema : Json) : List (String × Json) :=
  match schema.get "properties" with
  | some (.obj props) => props
  | _ => []

def declaredType (prop : Json) : Option String := (prop.get "type").bind Json.asStr

/-- The value has the type; an integer has neither fraction nor exponent. -/
def HasType (expected : String) : Json → Prop
  | .null => expected = "null"
  | .bool _ => expected = "boolean"
  | .num text => expected = "number" ∨ (expected = "integer" ∧ isF64 text = false)
  | .str _ => expected = "string"
  | .arr _ => expected = "array"
  | .obj _ => expected = "object"

variable {read : Readers} {schema args : Json}

theorem coerceArgs_eq (read : Readers) (schema args : Json) :
    coerceArgs read schema args = (declared schema).foldl (coerceMember read) args := by
  unfold coerceArgs declared
  cases schema.get "properties" with
  | none => rfl
  | some v => cases v <;> rfl

theorem coerceValue_of_type {expected : String} {prop v : Json} (h : HasType expected v) :
    coerceValue read expected prop v = none := by
  cases v with
  | num text =>
    rcases h with rfl | ⟨rfl,hf⟩
    · rfl
    · simp [coerceValue, hf]
  | _ =>
    obtain rfl := h
    rfl

theorem digits_not_f64 {cs : List Char} (h : ∀ c ∈ cs, c.isDigit = true) : cs.any (· ∈ ['.','e','E']) = false := by
  rw [List.any_eq_false]
  intro c hc hmem
  have hdigit := h c hc
  simp only [List.mem_cons, List.not_mem_nil, or_false, decide_eq_true_eq] at hmem
  rcases hmem with rfl | rfl | rfl <;> exact absurd hdigit (by decide)

theorem integer_not_f64 (n : ℤ) : isF64 (toString n) = false := by
  have hnat (k : ℕ) : ∀ c ∈ k.repr.toList, c.isDigit = true := FixedDigits.isDigit_of_mem_toString k
  cases n with
  | ofNat k => exact digits_not_f64 (hnat k)
  | negSucc k =>
    have hl : (toString (Int.negSucc k)).toList = '-'::(k+1).repr.toList := by
      show (Int.repr (Int.negSucc k)).toList = _
      simp [Int.repr]
    rw [isF64, hl, List.any_cons, digits_not_f64 (hnat (k+1))]
    decide

/-- A value that was coerced has its type. -/
theorem hasType_of_coerced {expected : String} {prop v fixed : Json} (h : coerceValue read expected prop v = some fixed) :
    HasType expected fixed := by
  unfold coerceValue at h
  split at h
  · split at h
    · next he =>
      obtain rfl := Option.some.inj h
      exact he
    · split at h
      · next he =>
        split at h
        · obtain rfl := Option.some.inj h
          exact he
        · split at h
          · obtain rfl := Option.some.inj h
            exact he
          · cases h
      · split at h
        · next he =>
          obtain ⟨n,-,rfl⟩ := Option.map_eq_some_iff.mp h
          exact .inr ⟨he,integer_not_f64 n⟩
        · split at h
          · next he =>
            obtain ⟨text,-,rfl⟩ := Option.map_eq_some_iff.mp h
            exact .inl he
          · split at h
            · next he =>
              split at h
              · obtain rfl := Option.some.inj h
                exact he
              · cases h
            · cases h
  · split at h
    · next he =>
      simp only [Bool.and_eq_true, decide_eq_true_eq] at he
      obtain ⟨n,-,rfl⟩ := Option.map_eq_some_iff.mp h
      exact .inr ⟨he.1,integer_not_f64 n⟩
    · split at h
      · next he =>
        obtain rfl := Option.some.inj h
        exact he
      · cases h
  · split at h
    · next he =>
      obtain rfl := Option.some.inj h
      exact he
    · cases h
  · cases h

/-! ## Members -/

theorem coerced_none {expected : String} {prop v : Json} (ht : declaredType prop = some expected)
    (h : coerceValue read expected prop v = none) : coerced read prop (some v) = some v := by
  have ht' : (prop.get "type").bind Json.asStr = some expected := ht
  simp [coerced, ht', h]

theorem get_undeclared {props : List (String × Json)} {k : String} (hk : k ∉ props.map Prod.fst) (args : Json) :
    (props.foldl (coerceMember read) args).get k = args.get k := by
  induction props generalizing args with
  | nil => rfl
  | cons q props ih =>
    simp only [List.map_cons, List.mem_cons, not_or] at hk
    rw [List.foldl_cons, ih hk.2, coerceMember_get, if_neg hk.1]

/-- A member the schema declares once is coerced once. -/
theorem get_declared {props : List (String × Json)} (hkeys : (props.map Prod.fst).Nodup) {p : String × Json} (hp : p ∈ props)
    (args : Json) : (props.foldl (coerceMember read) args).get p.1 = coerced read p.2 (args.get p.1) := by
  induction props generalizing args with
  | nil => cases hp
  | cons q props ih =>
    obtain ⟨hq,hnodup⟩ := List.nodup_cons.mp hkeys
    rw [List.foldl_cons]
    rcases List.mem_cons.mp hp with rfl | hp
    · rw [get_undeclared hq, coerceMember_get, if_pos rfl]
    · have hne : p.1 ≠ q.1 := fun heq => hq (heq ▸ List.mem_map_of_mem hp)
      rw [ih hnodup hp, coerceMember_get, if_neg hne]

/-- Nothing is left to coerce in a member. -/
def Settled (read : Readers) (args : Json) (p : String × Json) : Prop :=
  ∀ expected v, declaredType p.2 = some expected → args.get p.1 = some v → coerceValue read expected p.2 v = none

theorem coerceMember_of_settled {p : String × Json} (h : Settled read args p) : coerceMember read args p = args := by
  unfold coerceMember
  split
  · next expected v ht hv =>
    rw [h expected v ht hv]
  · rfl

theorem settled_of_coerced {props : List (String × Json)} (hkeys : (props.map Prod.fst).Nodup) (args : Json) :
    ∀ p ∈ props, Settled read (props.foldl (coerceMember read) args) p := by
  intro p hp expected v ht hv
  have ht' : (p.2.get "type").bind Json.asStr = some expected := ht
  rw [get_declared hkeys hp] at hv
  unfold coerced at hv
  rw [ht'] at hv
  cases hcur : args.get p.1 with
  | none => simp [hcur] at hv
  | some cur =>
    simp only [hcur] at hv
    cases hc : coerceValue read expected p.2 cur with
    | none =>
      rw [hc, Option.none_or, Option.some.injEq] at hv
      rw [← hv]
      exact hc
    | some fixed =>
      rw [hc, Option.some_or, Option.some.injEq] at hv
      rw [← hv]
      exact coerceValue_of_type (hasType_of_coerced hc)

theorem foldl_of_settled {props : List (String × Json)} (h : ∀ p ∈ props, Settled read args p) :
    props.foldl (coerceMember read) args = args := by
  induction props with
  | nil => rfl
  | cons p props ih =>
    rw [List.foldl_cons, coerceMember_of_settled (h p (by simp))]
    exact ih (fun q hq => h q (List.mem_cons_of_mem p hq))

theorem coerceArgs_twice (hkeys : ((declared schema).map Prod.fst).Nodup) :
    coerceArgs read schema (coerceArgs read schema args) = coerceArgs read schema args := by
  rw [coerceArgs_eq, coerceArgs_eq]
  exact foldl_of_settled (settled_of_coerced hkeys args)

/-! ## Texts that become lists -/

def pushed (l : List String) (cur : List Char) : String := String.intercalate "," (l++[String.ofList cur])

theorem pushed_char (l : List String) (cur : List Char) (c : Char) :
    pushed l (cur++[c]) = pushed l cur++String.ofList [c] := by
  unfold pushed
  by_cases hl : l = []
  · subst hl
    simp [String.intercalate_singleton]
  · rw [String.intercalate_append_of_ne_nil hl (List.cons_ne_nil _ _), String.intercalate_append_of_ne_nil hl (List.cons_ne_nil _ _),
      String.intercalate_singleton, String.intercalate_singleton, String.ofList_append]
    simp only [String.append_assoc]

theorem pushed_part (l : List String) (cur : List Char) :
    pushed (l++[String.ofList cur]) [] = pushed l cur++"," := by
  unfold pushed
  rw [String.intercalate_append_of_ne_nil (by simp) (List.cons_ne_nil _ _), String.intercalate_singleton]
  simp

theorem splitChar_pushed (s : Split) (c : Char) :
    pushed (splitChar ',' s c).out (splitChar ',' s c).cur = pushed s.out s.cur++String.ofList [c] := by
  unfold splitChar Split.push
  split
  · exact pushed_char _ _ _
  · split
    · exact pushed_char _ _ _
    · split
      · exact pushed_char _ _ _
      · split
        · exact pushed_char _ _ _
        · split
          · next h =>
            simp only [Bool.and_eq_true, decide_eq_true_eq] at h
            rw [h.1.1]
            exact pushed_part _ _
          · exact pushed_char _ _ _

/-- The items joined by commas are the text. -/
theorem splitOutsideQuotes_joined (s : String) : String.intercalate "," (splitOutsideQuotes s ',') = s := by
  have hfold (cs : List Char) (st : Split) : pushed (cs.foldl (splitChar ',') st).out (cs.foldl (splitChar ',') st).cur =
      pushed st.out st.cur++String.ofList cs := by
    induction cs generalizing st with
    | nil => simp
    | cons c cs ih =>
      rw [List.foldl_cons, ih, splitChar_pushed, String.append_assoc, ← String.ofList_append]
      rfl
  have h := hfold s.toList ⟨[],[],none,0⟩
  unfold splitOutsideQuotes
  dsimp only
  rw [show String.intercalate "," _ = pushed _ _ from rfl, h]
  simp [pushed, String.intercalate_singleton]

def bracketed (t : String) : Bool := t.toList.head? = some '[' && t.toList.getLast? = some ']'

/-- What is split at commas: the inside of brackets, or a text on one line without semicolons that is
not prose. -/
def listBody (prop : Json) (t : String) : Option String :=
  if bracketed t then some (String.ofList t.toList.tail.dropLast)
  else if t.toList.any (· = '\n') || t.toList.any (· = ';') then none
  else if t.toList.any (· = ',') && !propItemsAreProse prop then some t
  else none

def itemType (prop : Json) : String := (((prop.get "items").bind (·.get "type")).bind Json.asStr).getD "string"

/-- A member declared as a list is a text whose body is split at its commas. -/
def ListedText (read : Readers) (args : Json) (p : String × Json) (body : String) : Prop :=
  ∃ s, declaredType p.2 = some "array" ∧ args.get p.1 = some (.str s) ∧ trim s ≠ "" ∧
    (∀ vs, read.fromStr (trim s) ≠ some (.arr vs)) ∧ listBody p.2 (trim s) = some body

theorem items_of_body {prop : Json} {t body : String} (h : listBody prop t = some body) :
    items prop t = splitOutsideQuotes body ',' := by
  unfold listBody at h
  unfold items
  by_cases hb : bracketed t = true
  · rw [if_pos hb] at h
    rw [← Option.some.inj h]
    exact if_pos hb
  · rw [if_neg hb] at h
    have hb' : ¬(t.toList.head? = some '[' && t.toList.getLast? = some ']') = true := hb
    rw [if_neg hb']
    split at h
    · cases h
    · next hno =>
      simp only [Bool.or_eq_true, not_or] at hno
      rw [if_neg hno.1, if_neg hno.2]
      split at h
      · next hcomma =>
        rw [if_pos hcomma, Option.some.inj h]
      · cases h

/-- The list that a listed text becomes. -/
theorem coerced_listed {p : String × Json} {body : String} (h : ListedText read args p body) :
    coerced read p.2 (args.get p.1) = some (.arr ((splitOutsideQuotes body ',').flatMap
      (fun i => valuesOf (itemType p.2) (cleanItem i)))) := by
  obtain ⟨s,ht,hs,hne,hnot,hbody⟩ := h
  have ht' : (p.2.get "type").bind Json.asStr = some "array" := ht
  have hlist : stringToArray read s p.2 =
      (splitOutsideQuotes body ',').flatMap (fun i => valuesOf (itemType p.2) (cleanItem i)) := by
    unfold stringToArray
    dsimp only
    rw [if_neg hne]
    split
    · next vs hvs => exact absurd hvs (hnot vs)
    · rw [items_of_body hbody, ← values_of_items]
      rfl
  unfold coerced
  rw [ht', hs]
  simp only [coerceValue, if_true, Option.some_or, hlist]

/-! ## Coercion -/

/-- Every item of a text that is split at its commas appears in the list with its own characters. -/
def KeepsItems (read : Readers) (schema args : Json) : Prop :=
  ∀ p ∈ declared schema, ∀ body, ListedText read args p body →
    String.intercalate "," (splitOutsideQuotes body ',') = body ∧
    (coerceArgs read schema args).get p.1 = some (.arr
      ((((splitOutsideQuotes body ',').map ownText).filter (· ≠ "")).map (itemValue (itemType p.2))))

structure SafeToRepeat (read : Readers) (schema args : Json) : Prop where
  twice : coerceArgs read schema (coerceArgs read schema args) = coerceArgs read schema args
  typed : ∀ p ∈ declared schema, ∀ expected v, declaredType p.2 = some expected → args.get p.1 = some v →
    HasType expected v → (coerceArgs read schema args).get p.1 = some v
  undeclared : ∀ k, k ∉ (declared schema).map Prod.fst → (coerceArgs read schema args).get k = args.get k
  items : KeepsItems read schema args

/-- No item of a listed text starts with a bullet that is no marker, or has a quote at an end but two that
enclose it; minus zero may stand among integers. -/
def PlainItems (read : Readers) (schema args : Json) : Prop :=
  ∀ p ∈ declared schema, ∀ body, ListedText read args p body →
    ∀ i ∈ splitOutsideQuotes body ',', keptItem (itemType p.2) i = true

theorem keepsItems_iff (hkeys : ((declared schema).map Prod.fst).Nodup) :
    KeepsItems read schema args ↔ PlainItems read schema args := by
  have hone {p : String × Json} (hp : p ∈ declared schema) {body : String} (hl : ListedText read args p body) :
      (coerceArgs read schema args).get p.1 = some (.arr
        ((((splitOutsideQuotes body ',').map ownText).filter (· ≠ "")).map (itemValue (itemType p.2)))) ↔
      ∀ i ∈ splitOutsideQuotes body ',', keptItem (itemType p.2) i = true := by
    rw [coerceArgs_eq, get_declared hkeys hp, coerced_listed hl, values_of_items, Option.some.injEq, Json.arr.injEq,
      flatMap_eq_iff (values_length_le (itemType p.2))]
    exact forall₂_congr (fun i _ => values_eq_iff)
  constructor
  · intro h p hp body hl
    exact (hone hp hl).mp (h p hp body hl).2
  · intro h p hp body hl
    exact ⟨splitOutsideQuotes_joined body,(hone hp hl).mpr (h p hp body hl)⟩

/-- The coercion is safe to repeat exactly when the items of the texts it splits are plain. -/
theorem coercion_safe_iff (read : Readers) (schema args : Json) (hkeys : ((declared schema).map Prod.fst).Nodup) :
    SafeToRepeat read schema args ↔ PlainItems read schema args := by
  constructor
  · intro h
    exact (keepsItems_iff hkeys).mp h.items
  · intro h
    refine ⟨coerceArgs_twice hkeys,?_,?_,(keepsItems_iff hkeys).mpr h⟩
    · intro p hp expected v ht hv htype
      rw [coerceArgs_eq, get_declared hkeys hp, hv, coerced_none ht (coerceValue_of_type htype)]
    · intro k hk
      rw [coerceArgs_eq, get_undeclared hk]

/-! ## A list of identifiers -/

/-- No text here is JSON. -/
def noReaders : Readers := ⟨fun _ => none,fun _ => none,fun _ => none⟩

def idsProp (type : String) : Json := .obj [("type",.str "array"),("items",.obj [("type",.str type)])]
def idsSchema (type : String) : Json := .obj [("type",.str "object"),("properties",.obj [("ids",idsProp type)])]
def idsArgs (text : String) : Json := .obj [("ids",.str text)]

theorem ids_listed {type text body : String} (hne : trim text ≠ "") (hbody : listBody (idsProp type) (trim text) = some body) :
    ListedText noReaders (idsArgs text) ("ids",idsProp type) body :=
  ⟨text,rfl,rfl,hne,nofun,hbody⟩

/-- Quoted and plain identifiers between brackets. -/
theorem ids_kept : SafeToRepeat noReaders (idsSchema "integer") (idsArgs "['3', 2]") := by
  refine (coercion_safe_iff noReaders (idsSchema "integer") (idsArgs "['3', 2]") (by decide)).mpr ?_
  rintro p hp body ⟨s,-,hs,-,-,hbody⟩ i hi
  obtain rfl := List.mem_singleton.mp hp
  obtain rfl : "['3', 2]" = s := Json.str.inj (Option.some.inj hs)
  obtain rfl : "'3', 2" = body :=
    Option.some.inj ((by decide +kernel : some "'3', 2" = listBody (idsProp "integer") (trim "['3', 2]")).trans hbody)
  exact (by decide +kernel : ∀ i ∈ splitOutsideQuotes "'3', 2" ',', keptItem "integer" i = true) i hi

/-- A leading minus sign is taken for a bullet, and a quote at the end of an item for an enclosing one. -/
theorem sign_and_quote_lost : ¬SafeToRepeat noReaders (idsSchema "integer") (idsArgs "-1, 2") ∧
    ¬SafeToRepeat noReaders (idsSchema "string") (idsArgs "echo 'hi', b") := by
  constructor
  · intro h
    have hplain := (keepsItems_iff (by decide)).mp h.items ("ids",idsProp "integer") (List.mem_singleton.mpr rfl) "-1, 2"
      (ids_listed (by decide +kernel) (by decide +kernel))
    exact absurd hplain (by decide +kernel)
  · intro h
    have hplain := (keepsItems_iff (by decide)).mp h.items ("ids",idsProp "string") (List.mem_singleton.mpr rfl) "echo 'hi', b"
      (ids_listed (by decide +kernel) (by decide +kernel))
    exact absurd hplain (by decide +kernel)

end DevForge.ArgumentCoercion
