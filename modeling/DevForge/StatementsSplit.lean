import DevForge.SqliteCopy
import DevForge.FixedDigits
import Mathlib.Data.List.TakeWhile

/-!
# The script is cut into its statements

Every statement of the copy is closed: its quotations end, no end of
statement stands outside them, and it neither starts nor ends with white
space. The script of closed statements is cut into these. A default is one
closed literal unless it names what is no finite number.
-/

set_option autoImplicit false

namespace DevForge.StatementsSplit
open SqliteCopy QuotedParts

def ClosedText (s : String) : Prop := Closed QUOTE ';' s.toList

instance (s : String) : Decidable (ClosedText s) :=
  inferInstanceAs (Decidable (Closed QUOTE ';' s.toList))

structure Statement (s : String) : Prop where
  closed : ClosedText s
  first : s.toList.head?.any (fun c => !isWhitespace c) = true
  last : s.toList.getLast?.any (fun c => !isWhitespace c) = true

/-- A keyword, a number, or one quotation with its signs doubled. -/
def ClosedLiteral (d : String) : Prop :=
  KEYWORDS.contains d = true ∨ isNumber d.toList = true ∨
    ∃ body, d.toList = QUOTE::(doubled QUOTE body++[QUOTE])

/-- The copy of these tables is cut into its statements, from the script and when they are
joined by the end of statement. -/
def SplitsBack (lossy : List (Fin 256) → String) (tables : List Table) : Prop :=
  ∀ stmts sql, plan lossy tables = .ok (stmts,sql) →
    splitStatements sql = stmts ∧ splitStatements (";".intercalate stmts) = stmts

/-! ## The cut -/

/-- The cut follows the quotations: a doubled sign leaves one and enters the next. -/
theorem splitFrom_eq (inside : Bool) (cur cs : List Char) :
    splitFrom inside cur cs = (parts QUOTE ';' inside cur cs).flatMap piece := by
  fun_induction splitFrom inside cur cs with
  | case1 inside cur => simp [parts]
  | case2 cur ih =>
    rw [parts, if_pos rfl, ih]
    rfl
  | case3 cur ds ih =>
    rw [ih, parts, if_pos rfl, parts, if_pos rfl]
    rfl
  | case4 cur d ds hd ih =>
    have hq : parts QUOTE ';' true cur (QUOTE::d::ds) =
        parts QUOTE ';' false (cur++[QUOTE]) (d::ds) := by
      rw [parts, if_pos rfl]
      rfl
    rw [ih, hq]
  | case5 cur c cs hc ih =>
    rw [ih, parts, if_neg hc, if_neg (by simp)]
  | case6 cur cs ih =>
    rw [ih, parts, if_pos rfl]
    rfl
  | case7 cur cs hc ih =>
    rw [ih, parts, if_neg hc, if_pos ⟨rfl,rfl⟩, List.flatMap_cons]
  | case8 cur c cs hc hs ih =>
    rw [ih, parts, if_neg hc, if_neg (fun h => hs h.2)]

theorem dropWhile_gap {gap : List Char} (hgap : ∀ c ∈ gap, isWhitespace c = true) (cs : List Char) :
    (gap++cs).dropWhile isWhitespace = cs.dropWhile isWhitespace := by
  induction gap with
  | nil => rfl
  | cons c gap ih =>
    rw [List.cons_append, List.dropWhile_cons_of_pos (hgap c (by simp))]
    exact ih (fun d hd => hgap d (by simp [hd]))

theorem first_cons {s : String} (h : s.toList.head?.any (fun c => !isWhitespace c) = true) :
    ∃ c cs, s.toList = c::cs ∧ isWhitespace c = false := by
  cases hs : s.toList with
  | nil =>
    rw [hs] at h
    cases h
  | cons c cs =>
    rw [hs] at h
    exact ⟨c,cs,rfl,by simpa using h⟩

theorem last_concat {s : String} (h : s.toList.getLast?.any (fun c => !isWhitespace c) = true) :
    ∃ cs c, s.toList = cs++[c] ∧ isWhitespace c = false := by
  cases hs : s.toList.getLast? with
  | none =>
    rw [hs] at h
    cases h
  | some c =>
    obtain ⟨cs,hcs⟩ := List.getLast?_eq_some_iff.mp hs
    rw [hs] at h
    exact ⟨cs,c,hcs,by simpa using h⟩

/-- White space before a statement is trimmed, nothing else is. -/
theorem piece_statement {gap : List Char} (hgap : ∀ c ∈ gap, isWhitespace c = true) {s : String}
    (hs : Statement s) : piece (gap++s.toList) = [s] := by
  obtain ⟨c,cs,hfirst,hc⟩ := first_cons hs.first
  obtain ⟨ds,d,hlast,hd⟩ := last_concat hs.last
  have htrim : trim (String.ofList (gap++s.toList)) = s := by
    rw [trim, trimBy, String.toList_ofList, dropWhile_gap hgap, hfirst,
      List.dropWhile_cons_of_neg (by simp [hc]), ← hfirst, hlast, List.reverse_append,
      List.reverse_singleton, List.singleton_append, List.dropWhile_cons_of_neg (by simp [hd]),
      List.reverse_cons, List.reverse_reverse, ← hlast, String.ofList_toList]
  have hne : s ≠ "" := by
    intro h
    rw [h] at hfirst
    cases hfirst
  rw [piece, htrim, if_neg hne]

theorem piece_blank {gap : List Char} (hgap : ∀ c ∈ gap, isWhitespace c = true) : piece gap = [] := by
  have htrim : trim (String.ofList gap) = "" := by
    have hdrop := dropWhile_gap hgap []
    rw [List.append_nil] at hdrop
    rw [trim, trimBy, String.toList_ofList, hdrop]
    rfl
  rw [piece, if_pos htrim]

theorem split_terminated {stmts : List String} (h : ∀ s ∈ stmts, Statement s) {gap : List Char}
    (hgap : ∀ c ∈ gap, isWhitespace c = true) (hclosed : Closed QUOTE ';' gap) :
    splitFrom false gap (stmts.flatMap (fun s => s.toList++[ ';','\n'])) = stmts := by
  rw [splitFrom_eq]
  induction stmts generalizing gap with
  | nil => simp [parts, piece_blank hgap]
  | cons s stmts ih =>
    have hbreak : ∀ c ∈ ['\n'], isWhitespace c = true := by
      intro c hc
      rw [List.mem_singleton.mp hc]
      rfl
    have hline := ih (fun t ht => h t (by simp [ht])) hbreak (by decide)
    rw [List.flatMap_cons, List.append_assoc, List.cons_append,
      parts_terminated (by decide) (h s (by simp)).closed, List.flatMap_cons,
      piece_statement hgap (h s (by simp)), List.singleton_append]
    have hnext : parts QUOTE ';' false [] (['\n']++(stmts.flatMap (fun s => s.toList++[ ';','\n']))) =
        parts QUOTE ';' false ['\n'] (stmts.flatMap (fun s => s.toList++[ ';','\n'])) := by
      rw [List.singleton_append, parts, if_neg (by decide), if_neg (by decide)]
      rfl
    rw [hnext, hline]

theorem split_script {stmts : List String} (h : ∀ s ∈ stmts, Statement s) :
    splitStatements (script stmts) = stmts := by
  rw [splitStatements, script, String.toList_ofList]
  exact split_terminated h (by simp) closed_nil

theorem split_joined {stmts : List String} (h : ∀ s ∈ stmts, Statement s) :
    splitStatements (";".intercalate stmts) = stmts := by
  rw [splitStatements, splitFrom_eq, String.toList_intercalate]
  induction stmts with
  | nil => rfl
  | cons s stmts ih =>
    have hs := h s (by simp)
    have hpiece : piece ([]++s.toList) = [s] := piece_statement (by simp) hs
    cases stmts with
    | nil =>
      rw [List.map_singleton, List.intercalate_singleton, parts_closed hs.closed,
        List.flatMap_singleton, hpiece]
    | cons t stmts =>
      have hrest := ih (fun u hu => h u (List.mem_cons_of_mem s hu))
      rw [List.map_cons] at hrest
      rw [List.map_cons, List.map_cons, List.intercalate_cons_cons, List.append_assoc]
      show (parts QUOTE ';' false [] (s.toList++ ';'::
        (";".toList.intercalate (t.toList::stmts.map String.toList)))).flatMap piece = _
      rw [parts_terminated (by decide) hs.closed, List.flatMap_cons, hpiece, hrest]
      rfl

/-! ## Closed texts -/

theorem ClosedText.append {a b : String} (ha : ClosedText a) (hb : ClosedText b) : ClosedText (a++b) := by
  unfold ClosedText at *
  rw [String.toList_append]
  exact Closed.append ha hb

theorem closed_plain {s : String} (h : ∀ c ∈ s.toList, c ≠ QUOTE ∧ c ≠ ';') : ClosedText s :=
  closed_of_plain h

theorem closed_joined {gap : String} (hgap : ClosedText gap) {ls : List String}
    (h : ∀ l ∈ ls, ClosedText l) : ClosedText (gap.intercalate ls) := by
  unfold ClosedText
  rw [String.toList_intercalate]
  apply Closed.intercalate hgap
  intro l hl
  obtain ⟨t,ht,rfl⟩ := List.mem_map.mp hl
  exact h t ht

theorem first_append {a : String} (b : String)
    (h : a.toList.head?.any (fun c => !isWhitespace c) = true) :
    (a++b).toList.head?.any (fun c => !isWhitespace c) = true := by
  rw [String.toList_append, List.head?_append]
  cases hh : a.toList.head? with
  | none =>
    rw [hh] at h
    cases h
  | some c =>
    rw [hh] at h
    exact h

theorem last_append (a : String) {b : String}
    (h : b.toList.getLast?.any (fun c => !isWhitespace c) = true) :
    (a++b).toList.getLast?.any (fun c => !isWhitespace c) = true := by
  rw [String.toList_append, List.getLast?_append]
  cases hh : b.toList.getLast? with
  | none =>
    rw [hh] at h
    cases h
  | some c =>
    rw [hh] at h
    exact h

theorem mem_doubled {q c : Char} {l : List Char} (h : c ∈ doubled q l) : c ∈ l := by
  induction l with
  | nil => exact h
  | cons d ds ih =>
    rw [doubled] at h
    split at h
    · rcases List.mem_cons.mp h with h | h
      · exact h ▸ List.mem_cons_self
      · rcases List.mem_cons.mp h with h | h
        · exact h ▸ List.mem_cons_self
        · exact List.mem_cons_of_mem d (ih h)
    · rcases List.mem_cons.mp h with h | h
      · exact h ▸ List.mem_cons_self
      · exact List.mem_cons_of_mem d (ih h)

theorem safeIdent_plain {name : String} (h : safeIdent name = true) :
    ∀ c ∈ name.toList, c ≠ QUOTE ∧ c ≠ ';' := by
  have hno : ∀ c : Char, isAsciiAlphabetic c = true ∨ isAsciiDigit c = true ∨ c = '_' →
      c ≠ QUOTE ∧ c ≠ ';' := by
    intro c hc
    constructor
    · rintro rfl
      exact absurd hc (by decide)
    · rintro rfl
      exact absurd hc (by decide)
  intro c hc
  unfold safeIdent at h
  cases hn : name.toList with
  | nil =>
    rw [hn] at hc
    cases hc
  | cons d ds =>
    rw [hn] at h hc
    simp only [Bool.and_eq_true, Bool.or_eq_true, decide_eq_true_eq, List.all_eq_true] at h
    rcases List.mem_cons.mp hc with rfl | hc
    · exact hno c (h.1.1.imp_right Or.inr)
    · have hd := h.1.2 c hc
      rw [or_assoc] at hd
      exact hno c hd

theorem closed_quoteIdent {name : String} (h : safeIdent name = true) : ClosedText (quoteIdent name) := by
  apply closed_plain
  intro c hc
  rw [quoteIdent, String.toList_ofList] at hc
  have hcases : c = IDENT_QUOTE ∨ c ∈ name.toList := by
    rcases List.mem_cons.mp hc with hc | hc
    · exact Or.inl hc
    · rcases List.mem_append.mp hc with hc | hc
      · exact Or.inr (mem_doubled hc)
      · exact Or.inl (List.mem_singleton.mp hc)
  rcases hcases with rfl | hc
  · exact ⟨by decide,by decide⟩
  · exact safeIdent_plain h c hc

/-- A quoted value is closed whatever it says. -/
theorem closed_sqlString (value : String) : ClosedText (sqlString value) := by
  unfold ClosedText sqlString
  rw [String.toList_ofList]
  exact closed_quoted _

theorem closed_nat (n : ℕ) : ClosedText (toString n) := by
  apply closed_plain
  intro c hc
  have hd := FixedDigits.isDigit_of_mem_toString n c hc
  constructor
  · rintro rfl
    exact absurd hd (by decide)
  · rintro rfl
    exact absurd hd (by decide)

theorem closed_int (n : ℤ) : ClosedText (toString n) := by
  cases n with
  | ofNat n => exact closed_nat n
  | negSucc n =>
    show ClosedText ("-"++toString (n+1))
    exact ClosedText.append (by decide +kernel) (closed_nat (n+1))

theorem hex_plain (bytes : List (Fin 256)) :
    ∀ c ∈ (hexEncode bytes).toList, c ≠ QUOTE ∧ c ≠ ';' := by
  have hdigit : ∀ n : ℕ, hexDigit n ≠ QUOTE ∧ hexDigit n ≠ ';' := by
    intro n
    unfold hexDigit
    cases hd : "0123456789abcdef".toList[n]? with
    | none => exact ⟨by decide,by decide⟩
    | some c =>
      have hall : "0123456789abcdef".toList.all (fun d => d ≠ QUOTE && d ≠ ';') = true := by
        decide +kernel
      have hc := List.all_eq_true.mp hall c (List.mem_of_getElem? hd)
      simpa using hc
  intro c hc
  rw [hexEncode, String.toList_ofList] at hc
  obtain ⟨b,-,hc⟩ := List.mem_flatMap.mp hc
  rcases List.mem_cons.mp hc with rfl | hc
  · exact hdigit _
  · rw [List.mem_singleton.mp hc]
    exact hdigit _

theorem closed_real {x : Real64} (h : x.finite = true) : ClosedText x.display := by
  apply closed_plain
  intro c hc
  have hp := x.plain h c hc
  constructor
  · rintro rfl
    exact absurd hp (by decide)
  · rintro rfl
    exact absurd hp (by decide)

theorem closed_cell (lossy : List (Fin 256) → String) (cell : Cell) (kind : ColKind) :
    ClosedText (cellLiteral lossy cell kind) := by
  have hnull : ClosedText "NULL" := by decide +kernel
  have htrue : ClosedText "TRUE" := by decide +kernel
  have hfalse : ClosedText "FALSE" := by decide +kernel
  unfold cellLiteral
  split
  · exact hnull
  · cases kind with
    | int =>
      dsimp only
      split
      · exact closed_int _
      · exact closed_sqlString _
    | float =>
      dsimp only
      split
      · rename_i x hx
        exact closed_real (Option.filter_eq_some_iff.mp hx).2
      · split
        · exact closed_int _
        · exact hnull
    | bool =>
      dsimp only
      split
      · split
        · exact hfalse
        · exact htrue
      · split
        · exact htrue
        · split
          · exact hfalse
          · exact hnull
    | bytes =>
      dsimp only
      split
      · rename_i b _
        have hopen : scan QUOTE ';' false (String.ofList [QUOTE,Char.ofNat 92,'x']).toList =
            some true := by
          rw [String.toList_ofList]
          decide
        have hclose : scan QUOTE ';' true (String.ofList [QUOTE]).toList = some false := by
          rw [String.toList_ofList]
          decide
        unfold ClosedText Closed
        rw [String.toList_append, String.toList_append, String.toList_append, scan_append, scan_append,
          scan_append, hopen, Option.bind_some, scan_plain (hex_plain b), Option.bind_some, hclose]
        decide +kernel
      · exact hnull
    | numeric => exact closed_sqlString _
    | text => exact closed_sqlString _

/-! ## Defaults -/

def numeric (c : Char) : Bool := isAsciiDigit c || "+-.eE".toList.contains c

theorem mem_dropSign {c : Char} {cs : List Char} (h : c ∈ cs) :
    c ∈ dropSign cs ∨ c = '+' ∨ c = '-' := by
  cases cs with
  | nil => cases h
  | cons d ds =>
    rw [dropSign]
    split
    · rename_i hd
      rcases List.mem_cons.mp h with rfl | h
      · exact Or.inr hd
      · exact Or.inl h
    · exact Or.inl h

theorem exponent_numeric {cs : List Char} (h : isExponent cs = true) : ∀ c ∈ cs, numeric c = true := by
  intro c hc
  cases cs with
  | nil => cases hc
  | cons d ds =>
    simp only [isExponent, Bool.and_eq_true, Bool.or_eq_true, decide_eq_true_eq] at h
    rcases List.mem_cons.mp hc with rfl | hc
    · rcases h.1.1 with rfl | rfl <;> decide
    · rcases mem_dropSign hc with hc | rfl | rfl
      · rw [numeric, List.all_eq_true.mp h.2 c hc]
        rfl
      · decide
      · decide

theorem isNumber_numeric {cs : List Char} (h : isNumber cs = true) : ∀ c ∈ cs, numeric c = true := by
  have hdigit : ∀ c, isAsciiDigit c = true → numeric c = true := by
    intro c hc
    rw [numeric, hc]
    rfl
  intro c hc
  rcases mem_dropSign hc with hc | rfl | rfl
  · rw [← List.takeWhile_append_dropWhile (p := isAsciiDigit) (l := dropSign cs)] at hc
    rcases List.mem_append.mp hc with hc | hc
    · exact hdigit c (List.all_eq_true.mp List.all_takeWhile c hc)
    · unfold isNumber at h
      dsimp only at h
      split at h
      · rename_i rest hrest
        rw [hrest] at hc
        rcases List.mem_cons.mp hc with rfl | hc
        · decide
        · rw [Bool.and_eq_true] at h
          rw [← List.takeWhile_append_dropWhile (p := isAsciiDigit) (l := rest)] at hc
          rcases List.mem_append.mp hc with hc | hc
          · exact hdigit c (List.all_eq_true.mp List.all_takeWhile c hc)
          · exact exponent_numeric h.2 c hc
      · rw [Bool.and_eq_true] at h
        exact exponent_numeric h.2 c hc
  · decide
  · decide

/-- A text that reads as an integer reads as a number. -/
theorem isNumber_of_i64 {cs : List Char} (h : parsesI64 cs = true) : isNumber cs = true := by
  unfold parsesI64 at h
  simp only [Bool.and_eq_true] at h
  have hall := List.all_eq_true.mp h.1.2
  have hdrop : (dropSign cs).dropWhile isAsciiDigit = [] := List.dropWhile_eq_nil_iff.mpr hall
  have htake : (dropSign cs).takeWhile isAsciiDigit = dropSign cs :=
    List.takeWhile_eq_self_iff.mpr hall
  unfold isNumber
  dsimp only
  rw [hdrop, htake, h.1.1]
  rfl

theorem upper_alphabetic (c : Char) (h : isAsciiAlphabetic (asciiUpper c) = true) :
    isAsciiAlphabetic c = true := by
  unfold asciiUpper at h
  split at h
  · rename_i hc
    unfold isAsciiAlphabetic
    rw [hc, Bool.or_true]
  · exact h

theorem nonFinite_letters {cs : List Char} (h : isNonFinite cs = true) :
    dropSign cs ≠ [] ∧ ∀ c ∈ dropSign cs, isAsciiAlphabetic c = true := by
  unfold isNonFinite at h
  rw [List.contains_iff_mem] at h
  have hnames : ["INF","INFINITY","NAN"].all (fun n => !n.toList.isEmpty &&
      n.toList.all isAsciiAlphabetic) = true := by decide +kernel
  have hname := List.all_eq_true.mp hnames _ h
  rw [toAsciiUppercase, String.toList_ofList, String.toList_ofList, Bool.and_eq_true] at hname
  constructor
  · intro hnil
    rw [hnil] at hname
    cases hname.1
  · intro c hc
    exact upper_alphabetic c (List.all_eq_true.mp hname.2 _ (List.mem_map_of_mem hc))

theorem nonFinite_cases {cs : List Char} (h : isNonFinite cs = true) {c : Char} (hc : c ∈ cs) :
    isAsciiAlphabetic c = true ∨ c = '+' ∨ c = '-' :=
  (mem_dropSign hc).imp_left ((nonFinite_letters h).2 c)

/-- The quote signs between the first and the last come in pairs. -/
theorem pairs_doubled (cur cs : List Char)
    (h : (splitPairs cur cs).all (fun p => !p.contains QUOTE) = true) :
    cur.contains QUOTE = false ∧ ∃ body, cs = doubled QUOTE body := by
  fun_induction splitPairs cur cs with
  | case1 cur => exact ⟨by simpa using h,[],rfl⟩
  | case2 cur => simp at h
  | case3 cur ds ih =>
    rw [List.all_cons, Bool.and_eq_true, Bool.not_eq_true'] at h
    obtain ⟨body,hbody⟩ := (ih h.2).2
    exact ⟨h.1,QUOTE::body,by rw [doubled, if_pos rfl, hbody]⟩
  | case4 cur d ds hd ih =>
    have hcur := (ih h).1
    simp at hcur
  | case5 cur c cs hc ih =>
    obtain ⟨hcur,body,hbody⟩ := ih h
    simp only [List.contains_eq_mem, List.mem_append, decide_eq_false_iff_not, not_or] at hcur ⊢
    exact ⟨hcur.1,c::body,by rw [doubled, if_neg hc, hbody]⟩

theorem ends_eq {cs : List Char} {q : Char} (hh : cs.head? = some q) (hl : cs.getLast? = some q)
    (hlen : 2 ≤ cs.length) : cs = q::((cs.drop 1).dropLast++[q]) := by
  obtain ⟨ds,rfl⟩ := List.head?_eq_some_iff.mp hh
  cases ds with
  | nil => simp at hlen
  | cons d ds =>
    rw [List.getLast?_cons_cons] at hl
    obtain ⟨es,hes⟩ := List.getLast?_eq_some_iff.mp hl
    rw [hes]
    simp

/-- What a default can be. -/
theorem safeDefault_cases {raw d : String} (h : safeDefault raw = some d) :
    ClosedLiteral d ∨ d = trim raw ∧ isNonFinite (trim raw).toList = true := by
  unfold safeDefault at h
  dsimp only at h
  split at h
  · cases h
  · split at h
    · rename_i hk
      rw [← Option.some.inj h]
      exact Or.inl (Or.inl hk)
    · split at h
      · rename_i hn
        rw [← Option.some.inj h]
        rcases hn with hn | hn
        · exact Or.inl (Or.inr (Or.inl (isNumber_of_i64 hn)))
        · unfold parsesF64 at hn
          rw [Bool.or_eq_true] at hn
          rcases hn with hn | hn
          · exact Or.inl (Or.inr (Or.inl hn))
          · exact Or.inr ⟨rfl,hn⟩
      · split at h
        · rename_i hq
          rw [← Option.some.inj h]
          obtain ⟨body,hbody⟩ := (pairs_doubled _ _ hq.2.2.2.2).2
          refine Or.inl (Or.inr (Or.inr ⟨body,?_⟩))
          rw [← hbody]
          exact ends_eq hq.1 hq.2.1 hq.2.2.1
        · cases h

theorem closed_default {raw d : String} (h : safeDefault raw = some d) : ClosedText d := by
  rcases safeDefault_cases h with (hk | hn | ⟨body,hbody⟩) | ⟨rfl,hnf⟩
  · have hall : KEYWORDS.all (fun k => decide (ClosedText k)) = true := by decide +kernel
    exact of_decide_eq_true (List.all_eq_true.mp hall d (List.contains_iff_mem.mp hk))
  · apply closed_plain
    intro c hc
    have hnum := isNumber_numeric hn c hc
    constructor
    · rintro rfl
      exact absurd hnum (by decide)
    · rintro rfl
      exact absurd hnum (by decide)
  · unfold ClosedText
    rw [hbody]
    exact closed_quoted body
  · apply closed_plain
    intro c hc
    have hcases := nonFinite_cases hnf hc
    constructor
    · rintro rfl
      exact absurd hcases (by decide)
    · rintro rfl
      exact absurd hcases (by decide)

/-! ## The statements of the copy -/

structure SafeColumn (c : Column) : Prop where
  name : safeIdent c.name = true
  default : ∀ d, c.defaultSql = some d → ClosedText d

theorem loadColumns_safe {table : String} {is : List ColumnInfo} {cs : List Column}
    (h : loadColumns table is = .ok cs) : ∀ c ∈ cs, SafeColumn c := by
  induction is generalizing cs with
  | nil =>
    cases h
    simp
  | cons i is ih =>
    rw [loadColumns] at h
    split at h
    · rename_i hname
      split at h
      · cases h
      · rename_i rest hrest
        cases h
        intro c hc
        rcases List.mem_cons.mp hc with rfl | hc
        · refine ⟨hname,?_⟩
          intro d hd
          obtain ⟨raw,-,hraw⟩ := Option.bind_eq_some_iff.mp hd
          exact closed_default hraw
        · exact ih hrest c hc
    · cases h

/-- A list of quoted names. -/
theorem closed_names {names : List String} (h : ∀ n ∈ names, safeIdent n = true) :
    ClosedText (", ".intercalate (names.map quoteIdent)) := by
  apply closed_joined (by decide +kernel)
  intro l hl
  obtain ⟨n,hn,rfl⟩ := List.mem_map.mp hl
  exact closed_quoteIdent (h n hn)

theorem closed_declaration (single : Bool) {c : Column} (hc : SafeColumn c) :
    ClosedText (declaration single c) := by
  have hname := closed_quoteIdent hc.name
  have htype : ∀ k, ClosedText (pgType k) := by
    intro k
    cases k <;> decide +kernel
  unfold declaration
  split
  · exact hname.append (by decide +kernel)
  · apply ClosedText.append
    · apply ((hname.append (by decide +kernel)).append (htype c.kind)).append
      split <;> decide +kernel
    · split
      · rename_i d hd
        exact ClosedText.append (by decide +kernel) (hc.default d hd)
      · decide +kernel

theorem createTable_statement {table : String} {columns : List Column} (ht : safeIdent table = true)
    (hcs : ∀ c ∈ columns, SafeColumn c) : Statement (createTable table columns) := by
  have hkeys : ClosedText (", ".intercalate
      (((primary columns).mergeSort (fun a b => a.pk ≤ b.pk)).map (fun c => quoteIdent c.name))) := by
    apply closed_joined (by decide +kernel)
    intro l hl
    obtain ⟨c,hc,rfl⟩ := List.mem_map.mp hl
    have hc' : c ∈ columns := List.mem_of_mem_filter (List.mem_mergeSort.mp hc)
    exact closed_quoteIdent (hcs c hc').name
  unfold createTable
  dsimp only
  constructor
  · apply ClosedText.append ?_ (by decide +kernel)
    apply ClosedText.append
    · exact (ClosedText.append (by decide +kernel) (closed_quoteIdent ht)).append (by decide +kernel)
    · apply closed_joined (by decide +kernel)
      intro l hl
      rcases List.mem_append.mp hl with hl | hl
      · obtain ⟨c,hc,rfl⟩ := List.mem_map.mp hl
        exact closed_declaration _ (hcs c hc)
      · split at hl
        · rw [List.mem_singleton.mp hl]
          exact (ClosedText.append (by decide +kernel) hkeys).append (by decide +kernel)
        · cases hl
  · exact first_append _ (first_append _ (first_append _ (first_append _ (by decide +kernel))))
  · exact last_append _ (by decide +kernel)

theorem createIndex_statement {table : String} {i : IndexInfo} {s : String}
    (ht : safeIdent table = true) (h : createIndex table i = some s) : Statement s := by
  unfold createIndex at h
  dsimp only at h
  split at h
  · cases h
  · obtain ⟨name,-,hname⟩ := Option.bind_eq_some_iff.mp h
    split at hname
    · rename_i hsafe
      rw [← Option.some.inj hname]
      have hunique : ClosedText (if i.unique ≠ 0 then "UNIQUE " else "") := by
        split <;> decide +kernel
      constructor
      · apply ClosedText.append ?_ (by decide +kernel)
        apply ClosedText.append ?_ (closed_names (fun n hn => (List.mem_filter.mp hn).2))
        apply ClosedText.append ?_ (by decide +kernel)
        apply ClosedText.append ?_ (closed_quoteIdent ht)
        apply ClosedText.append ?_ (by decide +kernel)
        apply ClosedText.append ?_ (closed_quoteIdent hsafe)
        apply ClosedText.append ?_ (by decide +kernel)
        exact ClosedText.append (by decide +kernel) hunique
      · iterate 8 apply first_append
        decide +kernel
      · exact last_append _ (by decide +kernel)
    · cases hname

theorem copyRows_statements {lossy : List (Fin 256) → String} {table : String} {columns : List Column}
    {rows : List (List Cell)} {stmts : List String} (ht : safeIdent table = true)
    (hcs : ∀ c ∈ columns, SafeColumn c) (h : copyRows lossy table columns rows = .ok stmts) :
    ∀ s ∈ stmts, Statement s := by
  have hnames : ClosedText (", ".intercalate (columns.map (fun c => quoteIdent c.name))) := by
    apply closed_joined (by decide +kernel)
    intro l hl
    obtain ⟨c,hc,rfl⟩ := List.mem_map.mp hl
    exact closed_quoteIdent (hcs c hc).name
  have hcells (row : List Cell) : ClosedText (", ".intercalate
      (List.zipWith (fun cell col => cellLiteral lossy cell col.kind) row columns)) := by
    apply closed_joined (by decide +kernel)
    intro l hl
    rw [← List.map_uncurry_zip_eq_zipWith] at hl
    obtain ⟨p,-,rfl⟩ := List.mem_map.mp hl
    exact closed_cell lossy p.1 p.2.kind
  unfold copyRows at h
  dsimp only at h
  split at h
  · cases h
  · cases h
    intro s hs
    obtain ⟨row,-,rfl⟩ := List.mem_map.mp hs
    constructor
    · apply ClosedText.append ?_ (by decide +kernel)
      apply ClosedText.append ?_ (hcells row)
      apply ClosedText.append ?_ (by decide +kernel)
      apply ClosedText.append ?_ hnames
      apply ClosedText.append ?_ (by decide +kernel)
      exact ClosedText.append (by decide +kernel) (closed_quoteIdent ht)
    · iterate 6 apply first_append
      decide +kernel
    · exact last_append _ (by decide +kernel)

theorem identitySetval_statement {table : String} {columns : List Column} {s : String}
    (ht : safeIdent table = true) (hcs : ∀ c ∈ columns, SafeColumn c)
    (h : identitySetval table columns = some s) : Statement s := by
  unfold identitySetval at h
  split at h
  · rename_i c hc
    split at h
    · rw [← Option.some.inj h]
      have hname : safeIdent c.name = true := by
        apply (hcs c (List.mem_of_mem_filter (p := fun c => decide (0 < c.pk)) ?_)).name
        show c ∈ primary columns
        rw [hc]
        exact List.mem_singleton_self c
      have hopen : scan QUOTE ';' false (String.ofList [QUOTE]).toList = some true := by
        rw [String.toList_ofList]
        decide
      have hclose : scan QUOTE ';' true (String.ofList [QUOTE]).toList = some false := by
        rw [String.toList_ofList]
        decide
      have hident : scan QUOTE ';' true (String.ofList [IDENT_QUOTE]).toList = some true := by
        rw [String.toList_ofList]
        decide
      have hidentClose : scan QUOTE ';' true (String.ofList [IDENT_QUOTE,QUOTE]).toList = some false := by
        rw [String.toList_ofList]
        decide
      have hselect : scan QUOTE ';' false "SELECT setval(pg_get_serial_sequence(".toList = some false := by
        decide +kernel
      have hpublic : scan QUOTE ';' true "public.".toList = some true := by decide +kernel
      have hcomma : scan QUOTE ';' false ", ".toList = some false := by decide +kernel
      have hmax : ClosedText "), COALESCE((SELECT MAX(" := by decide +kernel
      have hfrom : ClosedText ") FROM " := by decide +kernel
      have hend : ClosedText "), 1), true)" := by decide +kernel
      constructor
      · apply ClosedText.append ?_ hend
        apply ClosedText.append ?_ (closed_quoteIdent ht)
        apply ClosedText.append ?_ hfrom
        apply ClosedText.append ?_ (closed_quoteIdent hname)
        apply ClosedText.append ?_ hmax
        unfold ClosedText Closed
        simp only [String.toList_append, scan_append, hselect, hopen, hpublic, hident,
          scan_plain (safeIdent_plain ht), hidentClose, hcomma, scan_plain (safeIdent_plain hname),
          hclose, Option.bind_some]
      · iterate 14 apply first_append
        decide +kernel
      · exact last_append _ (by decide +kernel)
    · cases h
  · cases h

structure Sound (e : Emitted) : Prop where
  schema : ∀ s ∈ e.schema, Statement s
  inserts : ∀ s ∈ e.inserts, Statement s

theorem emitTable_sound {lossy : List (Fin 256) → String} {t : Table} {e : Emitted}
    (h : emitTable lossy t = .ok (some e)) : Sound e := by
  unfold emitTable at h
  split at h
  · rename_i ht
    split at h
    · cases h
    · rename_i columns hcols
      have hsafe := loadColumns_safe hcols
      split at h
      · cases h
      · split at h
        · cases h
        · rename_i inserts hins
          cases h
          constructor
          · intro s hs
            rcases List.mem_cons.mp hs with rfl | hs
            · exact createTable_statement ht hsafe
            · obtain ⟨i,-,hi⟩ := List.mem_filterMap.mp hs
              exact createIndex_statement ht hi
          · intro s hs
            rcases List.mem_append.mp hs with hs | hs
            · exact copyRows_statements ht hsafe hins s hs
            · split at hs
              · exact identitySetval_statement ht hsafe (Option.mem_toList.mp hs)
              · cases hs
  · cases h

theorem emitTables_sound {lossy : List (Fin 256) → String} {ts : List Table} {es : List Emitted}
    (h : emitTables lossy ts = .ok es) : ∀ e ∈ es, Sound e := by
  induction ts generalizing es with
  | nil =>
    cases h
    simp
  | cons t ts ih =>
    rw [emitTables] at h
    split at h
    · cases h
    · rename_i e? he
      split at h
      · cases h
      · rename_i rest hrest
        cases h
        intro e hmem
        rcases List.mem_append.mp hmem with hmem | hmem
        · rw [Option.mem_toList.mp hmem] at he
          exact emitTable_sound he
        · exact ih hrest e hmem

theorem statements_sound {es : List Emitted} (h : ∀ e ∈ es, Sound e) :
    ∀ s ∈ statements es, Statement s := by
  intro s hs
  have hbegin : Statement "BEGIN" := ⟨by decide +kernel,by decide +kernel,by decide +kernel⟩
  have hcommit : Statement "COMMIT" := ⟨by decide +kernel,by decide +kernel,by decide +kernel⟩
  have hreplica : Statement "SET session_replication_role = replica" :=
    ⟨by decide +kernel,by decide +kernel,by decide +kernel⟩
  have hdefault : Statement "SET session_replication_role = DEFAULT" :=
    ⟨by decide +kernel,by decide +kernel,by decide +kernel⟩
  unfold statements at hs
  rcases List.mem_append.mp hs with hs | hs
  · rcases List.mem_append.mp hs with hs | hs
    · rcases List.mem_append.mp hs with hs | hs
      · exact List.mem_singleton.mp hs ▸ hbegin
      · obtain ⟨e,he,hs⟩ := List.mem_flatMap.mp hs
        exact (h e he).schema s hs
    · split at hs
      · rcases List.mem_append.mp hs with hs | hs
        · rcases List.mem_append.mp hs with hs | hs
          · exact List.mem_singleton.mp hs ▸ hreplica
          · obtain ⟨e,he,hs⟩ := List.mem_flatMap.mp hs
            exact (h e he).inserts s hs
        · exact List.mem_singleton.mp hs ▸ hdefault
      · cases hs
  · exact List.mem_singleton.mp hs ▸ hcommit

theorem copy_splits (lossy : List (Fin 256) → String) (tables : List Table) :
    SplitsBack lossy tables := by
  intro stmts sql h
  unfold plan at h
  split at h
  · cases h
  · rename_i es hes
    cases h
    have hsound := statements_sound (emitTables_sound hes)
    exact ⟨split_script hsound,split_joined hsound⟩

/-! ## What is no finite number -/

theorem nonFinite_not_number {cs : List Char} (h : isNonFinite cs = true) : isNumber cs = false := by
  obtain ⟨hne,hletters⟩ := nonFinite_letters h
  cases hd : dropSign cs with
  | nil => exact absurd hd hne
  | cons c ds =>
    have hc := hletters c (by rw [hd]; exact List.mem_cons_self)
    have hdigit : isAsciiDigit c = false := by
      rw [Bool.eq_false_iff]
      simp only [isAsciiAlphabetic, isAsciiDigit, Bool.or_eq_true, Bool.and_eq_true,
        decide_eq_true_eq, ne_eq] at hc ⊢
      omega
    have hpoint : c ≠ '.' := by
      rintro rfl
      exact absurd hc (by decide)
    unfold isNumber
    dsimp only
    rw [hd, List.takeWhile_cons_of_neg (by simp [hdigit]), List.dropWhile_cons_of_neg (by simp [hdigit])]
    split
    · rename_i heq
      exact absurd (List.cons.inj heq).1 hpoint
    · rfl

/-- A sign, if any, then letters: no comment sign. -/
theorem nonFinite_no_comment {cs : List Char} (h : isNonFinite cs = true) :
    Dotenv.contains "--".toList cs = false ∧ Dotenv.contains "/*".toList cs = false := by
  constructor
  · rw [Bool.eq_false_iff]
    intro hcomment
    have hsub := ((Dotenv.contains_iff _ _).mp hcomment).sublist.count_le '-'
    have hletters : '-' ∉ dropSign cs := fun hm => absurd ((nonFinite_letters h).2 '-' hm) (by decide)
    have hcount : cs.count '-' ≤ 1 := by
      cases cs with
      | nil => exact Nat.zero_le 1
      | cons c ds =>
        rw [dropSign] at hletters
        split at hletters
        · rw [List.count_cons, List.count_eq_zero_of_not_mem hletters]
          split <;> omega
        · rw [List.count_eq_zero_of_not_mem hletters]
          exact Nat.zero_le 1
    have htwo : "--".toList.count '-' = 2 := by decide +kernel
    omega
  · rw [Bool.eq_false_iff]
    intro hcomment
    have hslash : '/' ∈ cs := ((Dotenv.contains_iff _ _).mp hcomment).subset (by decide +kernel)
    exact absurd (nonFinite_cases h hslash) (by decide)

theorem nonFinite_not_keyword {t : String} (h : isNonFinite t.toList = true) :
    KEYWORDS.contains (toAsciiUppercase t) = false := by
  rw [Bool.eq_false_iff]
  intro hk
  rw [List.contains_iff_mem] at hk
  have hkeys : KEYWORDS.all (fun k => !(["INF","INFINITY","NAN"].contains k) &&
      k.toList.head? ≠ some '+' && k.toList.head? ≠ some '-') = true := by decide +kernel
  have hkey := List.all_eq_true.mp hkeys _ hk
  simp only [Bool.and_eq_true, Bool.not_eq_true', decide_eq_true_eq] at hkey
  rw [toAsciiUppercase, String.toList_ofList] at hkey
  unfold isNonFinite at h
  cases ht : t.toList with
  | nil =>
    rw [ht] at h
    exact absurd h (by decide)
  | cons c cs =>
    rw [ht] at h hkey
    have hplus : c ≠ '+' := by
      rintro rfl
      exact hkey.1.2 rfl
    have hminus : c ≠ '-' := by
      rintro rfl
      exact hkey.2 rfl
    rw [dropSign, if_neg (by simp [hplus, hminus]), toAsciiUppercase, String.toList_ofList, hkey.1.1] at h
    cases h

theorem nonFinite_accepted {raw : String} (h : isNonFinite (trim raw).toList = true) :
    safeDefault raw = some (trim raw) ∧ ¬ClosedLiteral (trim raw) := by
  have hno := nonFinite_no_comment h
  have hend : (trim raw).toList.contains ';' = false := by
    rw [Bool.eq_false_iff, ne_eq, List.contains_iff_mem]
    exact fun hm => absurd (nonFinite_cases h hm) (by decide)
  have hne : trim raw ≠ "" := by
    intro hnil
    rw [hnil] at h
    exact absurd h (by decide)
  constructor
  · unfold safeDefault
    dsimp only
    rw [hend, hno.1, hno.2, if_neg (by simp [hne]), if_neg (by rw [nonFinite_not_keyword h]; simp),
      if_pos (Or.inr (by rw [parsesF64, h, Bool.or_true]))]
  · rintro (hk | hn | ⟨body,hbody⟩)
    · have hkeys : KEYWORDS.all (fun k => !isNonFinite k.toList) = true := by decide +kernel
      have hkey := List.all_eq_true.mp hkeys _ (List.contains_iff_mem.mp hk)
      rw [h] at hkey
      cases hkey
    · rw [nonFinite_not_number h] at hn
      cases hn
    · have hq : QUOTE ∈ (trim raw).toList := by
        rw [hbody]
        exact List.mem_cons_self
      exact absurd (nonFinite_cases h hq) (by decide)

/-- Every copy is cut back into its statements, and a default is one closed literal exactly when
it does not name an infinity or NaN. -/
theorem splits_and_literal_iff (lossy : List (Fin 256) → String) (tables : List Table) (raw : String) :
    (SplitsBack lossy tables ∧ ∀ d, safeDefault raw = some d → ClosedLiteral d) ↔
      isNonFinite (trim raw).toList = false := by
  constructor
  · intro hall
    rw [Bool.eq_false_iff]
    intro h
    exact (nonFinite_accepted h).2 (hall.2 _ (nonFinite_accepted h).1)
  · intro h
    refine ⟨copy_splits lossy tables,fun d hd => ?_⟩
    rcases safeDefault_cases hd with hd | ⟨-,hnf⟩
    · exact hd
    · rw [h] at hnf
      cases hnf

/-- `DEFAULT inf` is kept, and is the name of a column to PostgreSQL. -/
theorem infinity_accepted : ¬∀ raw d, safeDefault raw = some d → ClosedLiteral d := by
  intro h
  have hinf : isNonFinite (trim "inf").toList = true := by decide +kernel
  exact (nonFinite_accepted hinf).2 (h "inf" _ (nonFinite_accepted hinf).1)

example : safeDefault "'it''s'" = some "'it''s'" ∧ safeDefault "'a' || b" = none := by decide +kernel

end DevForge.StatementsSplit
