import DevForge.JsonText
import DevForge.Redact

/-!
# The JSON object at the head of a text

The arguments of a tool call that a model writes into its answer are taken from the text: from the
opening brace to the one that closes it. The scanner counts characters, and the text is cut at a
byte.
-/

set_option autoImplicit false

namespace DevForge.EmbeddedJson
open JsonText (quoteMark backslash)
open Redact (byteLen)

/-! ## The scanner -/

/-- What is known of the characters that were read. -/
structure Scan where
  depth : ℤ
  inString : Bool
  escapeNext : Bool
deriving DecidableEq, Repr

def Scan.start : Scan := ⟨0,false,false⟩

def Scan.read (q : Scan) (c : Char) : Scan :=
  if q.escapeNext then { q with escapeNext := false }
  else if c = backslash && q.inString then { q with escapeNext := true }
  else if c = quoteMark then { q with inString := !q.inString }
  else if c = '{' && !q.inString then { q with depth := q.depth+1 }
  else if c = '}' && !q.inString then { q with depth := q.depth-1 }
  else q

/-- The character closes the outermost brace. -/
def Scan.closes (q : Scan) (c : Char) : Bool :=
  !q.escapeNext && c = '}' && !q.inString && q.depth-1 = 0

/-- The position of the closing brace, in characters. -/
def closing : Scan → List Char → Option ℕ
  | _, [] => none
  | q, c::cs => if q.closes c then some 0 else (closing (q.read c) cs).map (· + 1)

/-- The first `n` bytes, if a character ends there. -/
def sliceTo : ℕ → List Char → Option (List Char)
  | 0, _ => some []
  | _+1, [] => none
  | n+1, c::cs => if c.utf8Size ≤ n+1 then (sliceTo (n+1-c.utf8Size) cs).map (c :: ·) else none

inductive Extracted where
  | missing
  | found (object : List Char)
  | panics
deriving DecidableEq, Repr

def extractJsonObject (s : List Char) : Extracted :=
  if s.head? = some '{' then
    match closing Scan.start s with
    | none => .missing
    | some i => ((sliceTo (i+1) s).map Extracted.found).getD .panics
  else .missing

/-! ## Objects -/

/-- The characters outside the string literals, when each literal is closed. -/
def outside : Bool → List Char → Option (List Char)
  | inString, [] => if inString then none else some []
  | false, c::cs => if c = quoteMark then outside true cs else (outside false cs).map (c :: ·)
  | true, c::cs =>
    if c = backslash then
      match cs with
      | [] => none
      | _::cs => outside true cs
    else if c = quoteMark then outside false cs
    else outside true cs

/-- The braces outside string literals balance. -/
def Balanced (p : List Char) : Prop := ∃ cs, outside false p = some cs ∧ cs.count '{' = cs.count '}'

/-- The shortest beginning of the text whose braces balance. -/
structure IsObject (s p : List Char) : Prop where
  ne_nil : p ≠ []
  within : p <+: s
  balanced : Balanced p
  shortest : ∀ p', p' ≠ [] → p' <+: s → Balanced p' → p.length ≤ p'.length

/-- What is taken from the text is its object. -/
def Exact (s : List Char) : Prop :=
  match extractJsonObject s with
  | .found p => IsObject s p
  | .missing => ∀ p, ¬IsObject s p
  | .panics => False

/-! ## What the scanner knows -/

namespace Scan

@[simp] theorem quote_ne : quoteMark ≠ backslash := by decide

@[simp] theorem open_ne : '{' ≠ quoteMark := by decide

@[simp] theorem close_ne : '}' ≠ quoteMark := by decide

theorem outside_string (c : Char) (cs : List Char) : outside true (c::cs) =
    if c = backslash then cs.tail?.bind (outside true) else if c = quoteMark then outside false cs
    else outside true cs := by
  cases cs <;> simp [outside]

/-- The characters outside literals in what is read next. -/
def outsideFrom (q : Scan) (p : List Char) : Option (List Char) :=
  if q.escapeNext then p.tail?.bind (outside true) else outside q.inString p

/-- A character is escaped in a string only. -/
def Ok (q : Scan) : Prop := q.escapeNext = true → q.inString = true

/-- The character stands outside the string literals. -/
def counts (q : Scan) (c : Char) : Bool := !q.inString && c ≠ quoteMark

theorem Ok.read {q : Scan} (h : q.Ok) (c : Char) : (q.read c).Ok := by
  obtain ⟨depth,inString,escapeNext⟩ := q
  cases escapeNext with
  | true => simp [Ok, Scan.read]
  | false =>
    unfold Ok Scan.read
    split_ifs <;> simp_all

theorem Ok.foldl {q : Scan} (h : q.Ok) (p : List Char) : (p.foldl Scan.read q).Ok := by
  induction p generalizing q with
  | nil => exact h
  | cons c cs ih => exact ih (h.read c)

theorem outsideFrom_cons {q : Scan} (h : q.Ok) (c : Char) (cs : List Char) : q.outsideFrom (c::cs) =
    if q.counts c then ((q.read c).outsideFrom cs).map (c :: ·) else (q.read c).outsideFrom cs := by
  obtain ⟨depth,inString,escapeNext⟩ := q
  cases escapeNext with
  | true =>
    have hin : inString = true := h rfl
    subst hin
    simp [outsideFrom, read, counts]
  | false =>
    cases inString with
    | true =>
      by_cases hback : c = backslash
      · simp [outsideFrom, read, counts, outside_string, hback]
      · by_cases hquote : c = quoteMark <;> simp [outsideFrom, read, counts, outside_string, hback, hquote]
    | false =>
      by_cases hquote : c = quoteMark
      · simp [outsideFrom, read, counts, outside, hquote]
      · by_cases hopen : c = '{'
        · simp [outsideFrom, read, counts, outside, hopen]
        · by_cases hclose : c = '}' <;> simp [outsideFrom, read, counts, outside, hquote, hopen, hclose]

theorem read_depth {q : Scan} (h : q.Ok) (c : Char) : (q.read c).depth =
    if q.counts c then q.depth+([c].count '{' : ℕ)-([c].count '}' : ℕ) else q.depth := by
  obtain ⟨depth,inString,escapeNext⟩ := q
  cases escapeNext with
  | true =>
    have hin : inString = true := h rfl
    subst hin
    simp [read, counts]
  | false =>
    cases inString with
    | true =>
      by_cases hback : c = backslash
      · simp [read, counts, hback]
      · by_cases hquote : c = quoteMark <;> simp [read, counts, hback, hquote]
    | false =>
      by_cases hquote : c = quoteMark
      · simp [read, counts, hquote]
      · by_cases hopen : c = '{'
        · subst hopen
          simp [read, counts, hquote]
        · by_cases hclose : c = '}'
          · subst hclose
            simp [read, counts, hquote]
          · simp [read, counts, hquote, hopen, hclose]

/-- After the reading of `p` the scanner is in a string, or it has counted the braces outside strings. -/
theorem foldl_read {q : Scan} (h : q.Ok) (p : List Char) :
    (p.foldl read q).inString = true ∧ q.outsideFrom p = none ∨ (p.foldl read q).inString = false ∧
      ∃ cs, q.outsideFrom p = some cs ∧ (p.foldl read q).depth = q.depth+(cs.count '{' : ℕ)-(cs.count '}' : ℕ) := by
  induction p generalizing q with
  | nil =>
    obtain ⟨depth,inString,escapeNext⟩ := q
    cases escapeNext with
    | true => exact .inl ⟨h rfl,rfl⟩
    | false =>
      cases inString with
      | true => exact .inl ⟨rfl,rfl⟩
      | false => exact .inr ⟨rfl,[],rfl,by simp⟩
  | cons c cs ih =>
    rw [List.foldl_cons, outsideFrom_cons h]
    have hdepth := read_depth h c
    obtain ⟨hin,hnone⟩ | ⟨hin,out,hout,hcount⟩ := ih (h.read c)
    · left
      simp [hin, hnone]
    · right
      by_cases hc : q.counts c = true
      · rw [if_pos hc] at hdepth ⊢
        refine ⟨hin,c::out,by rw [hout]; rfl,?_⟩
        have hsplit : ∀ x : Char, (c::out).count x = [c].count x+out.count x := by
          intro x
          rw [← List.count_append]
          rfl
        rw [hcount, hdepth, hsplit, hsplit]
        omega
      · rw [if_neg hc] at hdepth ⊢
        exact ⟨hin,out,hout,by rw [hcount, hdepth]⟩

theorem start_ok : start.Ok := nofun

/-- Braces that balance, in terms of the scanner. -/
theorem balanced_iff (p : List Char) :
    Balanced p ↔ (p.foldl read start).inString = false ∧ (p.foldl read start).depth = 0 := by
  obtain ⟨hin,hnone⟩ | ⟨hin,out,hout,hcount⟩ := foldl_read start_ok p
  · have hout : outside false p = none := hnone
    simp [Balanced, hin, hout]
  · have hout : outside false p = some out := hout
    have hzero : start.depth = 0 := rfl
    simp only [Balanced, hout, Option.some.injEq, exists_eq_left', hin, hcount, hzero, true_and]
    omega

/-! ## The closing brace -/

theorem closes_iff {q : Scan} (h : q.Ok) (hdepth : 1 ≤ q.depth) (c : Char) :
    q.closes c = true ↔ (q.read c).depth = 0 := by
  obtain ⟨depth,inString,escapeNext⟩ := q
  have hd : 1 ≤ depth := hdepth
  cases escapeNext with
  | true => simp [closes, read]; omega
  | false =>
    cases inString with
    | true =>
      by_cases hback : c = backslash
      · simp [closes, read, hback]; omega
      · by_cases hquote : c = quoteMark <;> simp [closes, read, hback, hquote] <;> omega
    | false =>
      by_cases hquote : c = quoteMark
      · subst hquote
        simp [closes, read, show quoteMark ≠ '}' by decide]; omega
      · by_cases hopen : c = '{'
        · subst hopen
          simp [closes, read, hquote]; omega
        · by_cases hclose : c = '}'
          · subst hclose
            simp [closes, read, hquote]
          · simp [closes, read, hquote, hopen, hclose]; omega

theorem closes_outside {q : Scan} {c : Char} (h : q.closes c = true) : (q.read c).inString = false := by
  simp only [closes, Bool.and_eq_true, Bool.not_eq_true', decide_eq_true_eq] at h
  obtain ⟨⟨⟨hescape,rfl⟩,hin⟩,-⟩ := h
  simp [read, hescape, hin]

theorem read_depth_ge {q : Scan} (c : Char) : q.depth-1 ≤ (q.read c).depth := by
  have hle : q.depth-1 ≤ q.depth ∧ q.depth-1 ≤ q.depth+1 := by omega
  unfold read
  split_ifs
  · exact hle.1
  · exact hle.1
  · exact hle.1
  · exact hle.2
  · exact le_refl _
  · exact hle.1

end Scan

/-- Without a closing brace the depth stays positive, and with one it is reached there first. -/
theorem closing_spec {q : Scan} (h : q.Ok) (hdepth : 1 ≤ q.depth) (s : List Char) :
    match closing q s with
    | none => ∀ p, p <+: s → 1 ≤ (p.foldl Scan.read q).depth
    | some i => i < s.length ∧ ((s.take (i+1)).foldl Scan.read q).depth = 0 ∧
        ((s.take (i+1)).foldl Scan.read q).inString = false ∧
        ∀ p, p <+: s → p.length ≤ i → 1 ≤ (p.foldl Scan.read q).depth := by
  induction s generalizing q with
  | nil =>
    intro p hp
    rw [List.prefix_nil.mp hp]
    exact hdepth
  | cons c cs ih =>
    rw [closing]
    by_cases hc : q.closes c = true
    · rw [if_pos hc]
      have hzero := (Scan.closes_iff h hdepth c).mp hc
      refine ⟨by simp,hzero,Scan.closes_outside hc,?_⟩
      intro p _ hlength
      rw [List.length_eq_zero_iff.mp (Nat.le_zero.mp hlength)]
      exact hdepth
    · rw [if_neg hc]
      have hread : 1 ≤ (q.read c).depth := by
        have hne := mt (Scan.closes_iff h hdepth c).mpr hc
        have hge := Scan.read_depth_ge (q := q) c
        omega
      have hrest := ih (h.read c) hread
      cases hclosing : closing (q.read c) cs with
      | none =>
        rw [hclosing] at hrest
        intro p hp
        cases p with
        | nil => exact hdepth
        | cons d p =>
          obtain ⟨rfl,htail⟩ := List.cons_prefix_cons.mp hp
          exact hrest p htail
      | some i =>
        rw [hclosing] at hrest
        obtain ⟨hlt,hzero,hout,hbefore⟩ := hrest
        refine ⟨Nat.succ_lt_succ hlt,hzero,hout,?_⟩
        intro p hp hlength
        cases p with
        | nil => exact hdepth
        | cons d p =>
          obtain ⟨rfl,htail⟩ := List.cons_prefix_cons.mp hp
          exact hbefore p htail (Nat.le_of_succ_le_succ hlength)

/-- The text has an object when the scanner finds its closing brace, which is the last of the object. -/
theorem closing_iff (cs : List Char) :
    match closing Scan.start ('{'::cs) with
    | none => ∀ p, ¬IsObject ('{'::cs) p
    | some i => i < ('{'::cs).length ∧ IsObject ('{'::cs) (('{'::cs).take (i+1)) := by
  have hopen : Scan.start.read '{' = ⟨1,false,false⟩ := rfl
  have hspec := closing_spec (q := ⟨1,false,false⟩) (nofun) (le_refl 1) cs
  have hclosing : closing Scan.start ('{'::cs) = (closing ⟨1,false,false⟩ cs).map (· + 1) := rfl
  rw [hclosing]
  have hdepth : ∀ p, p <+: cs → Balanced ('{'::p) → (p.foldl Scan.read ⟨1,false,false⟩).depth = 0 :=
    fun p _ hp => ((Scan.balanced_iff _).mp hp).2
  cases hfound : closing ⟨1,false,false⟩ cs with
  | none =>
    rw [hfound] at hspec
    intro p hp
    obtain ⟨hne,hwithin,hbalanced,-⟩ := hp
    cases p with
    | nil => exact hne rfl
    | cons c p =>
      obtain ⟨rfl,htail⟩ := List.cons_prefix_cons.mp hwithin
      have hpos := hspec p htail
      have hzero := hdepth p htail hbalanced
      omega
  | some i =>
    rw [hfound] at hspec
    obtain ⟨hlt,hzero,hout,hbefore⟩ := hspec
    refine ⟨Nat.succ_lt_succ hlt,by simp,List.take_prefix _ _,(Scan.balanced_iff _).mpr ⟨hout,hzero⟩,?_⟩
    intro p hne hwithin hbalanced
    cases p with
    | nil => exact absurd rfl hne
    | cons c p =>
      obtain ⟨rfl,htail⟩ := List.cons_prefix_cons.mp hwithin
      have hpos := hbefore p htail
      have hp := hdepth p htail hbalanced
      simp only [List.length_take, List.length_cons]
      omega

/-! ## The cut -/

theorem sliceTo_some {n : ℕ} {s p : List Char} (h : sliceTo n s = some p) : p <+: s ∧ byteLen p = n := by
  induction s generalizing n p with
  | nil =>
    cases n with
    | zero => exact ⟨List.prefix_nil.mpr (Option.some.inj h).symm,by rw [← Option.some.inj h]; rfl⟩
    | succ n => cases h
  | cons c cs ih =>
    cases n with
    | zero => exact ⟨by rw [← Option.some.inj h]; exact List.nil_prefix,by rw [← Option.some.inj h]; rfl⟩
    | succ n =>
      rw [sliceTo] at h
      split at h
      · next hle =>
        obtain ⟨q,hq,rfl⟩ := Option.map_eq_some_iff.mp h
        obtain ⟨hwithin,hlen⟩ := ih hq
        refine ⟨List.cons_prefix_cons.mpr ⟨rfl,hwithin⟩,?_⟩
        rw [byteLen, List.map_cons, List.sum_cons, ← byteLen, hlen]
        omega
      · cases h

theorem sliceTo_ascii {i : ℕ} {s : List Char} (hi : i ≤ s.length) (h : ∀ c ∈ s.take i, c.utf8Size = 1) :
    sliceTo i s = some (s.take i) := by
  induction s generalizing i with
  | nil => rw [Nat.le_zero.mp hi]; rfl
  | cons c cs ih =>
    cases i with
    | zero => rfl
    | succ i =>
      have hc : c.utf8Size = 1 := h c (by simp)
      have hrest := ih (Nat.le_of_succ_le_succ hi) (fun d hd => h d (List.mem_cons_of_mem _ hd))
      rw [sliceTo, hc, if_pos (by omega), Nat.add_sub_cancel, hrest]
      rfl

/-- As many bytes as characters: each is one byte. -/
theorem ascii_of_byteLen {p : List Char} (h : byteLen p = p.length) : ∀ c ∈ p, c.utf8Size = 1 := by
  have hge : ∀ p : List Char, p.length ≤ byteLen p := by
    intro p
    induction p with
    | nil => exact Nat.zero_le _
    | cons c cs ih =>
      have hc := c.utf8Size_pos
      rw [byteLen, List.map_cons, List.sum_cons, ← byteLen, List.length_cons]
      omega
  induction p with
  | nil => simp
  | cons c cs ih =>
    have hc := c.utf8Size_pos
    have hcs := hge cs
    rw [byteLen, List.map_cons, List.sum_cons, ← byteLen, List.length_cons] at h
    intro d hd
    obtain rfl | hd := List.mem_cons.mp hd
    · omega
    · exact ih (by omega) d hd

theorem IsObject.unique {s p p' : List Char} (h : IsObject s p) (h' : IsObject s p') : p = p' := by
  have hle := h.shortest p' h'.ne_nil h'.within h'.balanced
  have hge := h'.shortest p h.ne_nil h.within h.balanced
  exact (List.prefix_of_prefix_length_le h.within h'.within hle).eq_of_length (by omega)

/-- The object of a text is taken from it whole if and only if it is in ASCII. -/
theorem extracted_exactly_iff (s : List Char) (h : s.head? = some '{') :
    Exact s ↔ ∀ p, IsObject s p → ∀ c ∈ p, c.utf8Size = 1 := by
  obtain ⟨cs,rfl⟩ : ∃ cs, s = '{'::cs := by
    cases s with
    | nil => cases h
    | cons c cs => exact ⟨cs,by rw [Option.some.inj h]⟩
  have hspec := closing_iff cs
  have hextract : extractJsonObject ('{'::cs) = match closing Scan.start ('{'::cs) with
    | none => .missing
    | some i => ((sliceTo (i+1) ('{'::cs)).map Extracted.found).getD .panics := if_pos rfl
  unfold Exact
  rw [hextract]
  cases hclosing : closing Scan.start ('{'::cs) with
  | none =>
    rw [hclosing] at hspec
    exact ⟨fun _ p hp => absurd hp (hspec p),fun _ => hspec⟩
  | some i =>
    rw [hclosing] at hspec
    obtain ⟨hlt,hobject⟩ := hspec
    have hlength : (('{'::cs).take (i+1)).length = i+1 := List.length_take_of_le hlt
    dsimp only
    constructor
    · intro hexact p hp
      rw [hp.unique hobject]
      cases hslice : sliceTo (i+1) ('{'::cs) with
      | none =>
        rw [hslice] at hexact
        exact hexact.elim
      | some q =>
        rw [hslice] at hexact
        have hq : IsObject ('{'::cs) q := hexact
        have hbytes := (sliceTo_some hslice).2
        rw [hq.unique hobject] at hbytes
        exact ascii_of_byteLen (by rw [hbytes, hlength])
    · intro hascii
      rw [sliceTo_ascii hlt (hascii _ hobject)]
      exact hobject

def plain : List Char := "\x7b\x22a\x22:1\x7d tail".toList

theorem plain_extracted : Exact plain := by
  have hall : plain.all (fun c => c.utf8Size = 1) = true := by decide
  exact (extracted_exactly_iff plain (by decide)).mpr
    (fun p hp c hc => of_decide_eq_true (List.all_eq_true.mp hall c (hp.within.subset hc)))

/-- One character of two bytes. -/
def accented : List Char := "\x7b\x22name\x22:\x22é\x22\x7d".toList

/-- Two characters of three bytes. -/
def euros : List Char := "\x7b\x22k\x22:\x22€€\x22\x7d".toList

/-- An object loses its brace, or the cut is within a character. -/
theorem wide_objects_cut : ¬Exact accented ∧ ¬Exact euros := by
  constructor
  · intro hexact
    have hcut : extractJsonObject accented = .found accented.dropLast := by decide +kernel
    rw [Exact, hcut] at hexact
    have hopen : ((accented.dropLast).foldl Scan.read Scan.start).depth = 1 := by decide +kernel
    have hzero := ((Scan.balanced_iff _).mp hexact.balanced).2
    omega
  · intro hexact
    have hpanics : extractJsonObject euros = .panics := by decide +kernel
    rw [Exact, hpanics] at hexact
    exact hexact

end DevForge.EmbeddedJson
