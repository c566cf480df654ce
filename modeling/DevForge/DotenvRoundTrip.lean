import DevForge.Dotenv
import Mathlib.Data.List.DropRight
import Mathlib.Data.List.Nodup

/-!
# What an environment file gives back

The writer escapes and never quotes, the reader trims, takes off one pair of quotes and never
unescapes. A value comes back where neither has anything to do.
-/

set_option autoImplicit false

namespace DevForge.DotenvRoundTrip
open Dotenv

/-! ## Trimming -/

theorem rdropWhile_all {p : Char → Bool} {l : List Char} (h : ∀ c ∈ l, p c = true) (m : List Char) :
    (m++l).rdropWhile p = m.rdropWhile p := by
  induction l using List.reverseRecOn with
  | nil => rw [List.append_nil]
  | append_singleton l c ih =>
    rw [← List.append_assoc, List.rdropWhile_concat_pos _ _ _ (h c (by simp))]
    exact ih (fun d hd => h d (List.mem_append_left _ hd))

theorem rdropWhile_last {p : Char → Bool} {c : Char} (h : p c = false) (l m : List Char) :
    (l++c::m).rdropWhile p = l++c::m.rdropWhile p := by
  induction m using List.reverseRecOn with
  | nil => rw [List.rdropWhile_nil, List.rdropWhile_concat_neg _ _ _ (by simp [h])]
  | append_singleton m d ih =>
    have hsplit : l++c::(m++[d]) = (l++c::m)++[d] := by simp
    by_cases hd : p d = true
    · rw [hsplit, List.rdropWhile_concat_pos _ _ _ hd, List.rdropWhile_concat_pos _ _ _ hd]
      exact ih
    · rw [hsplit, List.rdropWhile_concat_neg _ _ _ hd, List.rdropWhile_concat_neg _ _ _ hd, ← hsplit]

def trimEnd (l : List Char) : List Char := l.rdropWhile isWhitespace

theorem trimChars_eq (l : List Char) : trimChars l = trimEnd (l.dropWhile isWhitespace) := rfl

theorem dropWhile_append_of_neg {p : Char → Bool} {a : Char} (ha : p a = false) (l m : List Char) :
    (l++a::m).dropWhile p = l.dropWhile p++a::m := by
  induction l with
  | nil => simp [ha]
  | cons c l ih =>
    by_cases hc : p c = true
    · simpa [hc] using ih
    · simp [hc]

theorem trimEnd_append {a : Char} (ha : isWhitespace a = false) (l m : List Char) :
    trimEnd (l++a::m) = l++a::trimEnd m := rdropWhile_last ha l m

theorem trimEnd_all {l : List Char} (h : ∀ c ∈ l, isWhitespace c = true) : trimEnd l = [] :=
  List.rdropWhile_eq_nil_iff.mpr h

theorem trimEnd_self (l : List Char) : trimEnd (trimEnd l) = trimEnd l := List.rdropWhile_idempotent _ _

/-- The ends may be trimmed in either order. -/
theorem dropWhile_trimEnd (l : List Char) :
    (trimEnd l).dropWhile isWhitespace = trimEnd (l.dropWhile isWhitespace) := by
  induction l with
  | nil => rfl
  | cons c l ih =>
    by_cases hc : isWhitespace c = true
    · rw [List.dropWhile_cons_of_pos hc, ← ih]
      by_cases hall : ∀ d ∈ l, isWhitespace d = true
      · have hcons : ∀ d ∈ c::l, isWhitespace d = true := by
          intro d hd
          rcases List.mem_cons.mp hd with rfl | hd
          · exact hc
          · exact hall d hd
        rw [trimEnd_all hcons, trimEnd_all hall]
      · push Not at hall
        obtain ⟨d,hd,hne⟩ := hall
        obtain ⟨l₁,l₂,rfl⟩ := List.append_of_mem hd
        have hd' : isWhitespace d = false := by simpa using hne
        have hcons : c::(l₁++d::l₂) = (c::l₁)++d::l₂ := rfl
        rw [hcons, trimEnd_append hd', trimEnd_append hd', List.cons_append, List.dropWhile_cons_of_pos hc]
    · have hc' : isWhitespace c = false := by simpa using hc
      rw [List.dropWhile_cons_of_neg hc]
      have hcons : trimEnd (c::l) = c::trimEnd l := trimEnd_append hc' [] l
      rw [hcons, List.dropWhile_cons_of_neg hc]

theorem trimChars_trimEnd (l : List Char) : trimChars (trimEnd l) = trimChars l := by
  rw [trimChars_eq, dropWhile_trimEnd, trimEnd_self, trimChars_eq]

theorem trimChars_length (l : List Char) : (trimChars l).length ≤ l.length := by
  rw [trimChars_eq]
  exact le_trans (List.rdropWhile_prefix _ _).length_le (List.dropWhile_suffix _).length_le

/-! ## A line -/

theorem keyChar_not_space {c : Char} (h : keyChar c = true) : isWhitespace c = false := by
  have halpha : c.isAlpha = (c.isUpper || c.isLower) := rfl
  have hlower : c.isLower = (decide (c.val ≥ 97) && decide (c.val ≤ 122)) := rfl
  have hupper : c.isUpper = decide (c.val ≥ 65 ∧ c.val ≤ 90) := rfl
  simp only [keyChar, Char.isAlphanum, halpha, hupper, hlower, Char.isDigit, Bool.or_eq_true, Bool.and_eq_true,
    decide_eq_true_eq, ge_iff_le, UInt32.le_iff_toNat_le] at h
  have hrange : 48 ≤ c.toNat ∧ c.toNat < 128 := by
    have hval : c.val.toNat = c.toNat := rfl
    rcases h with ((⟨h₁,h₂⟩ | ⟨h₁,h₂⟩) | ⟨h₁,h₂⟩) | rfl
    · simp at h₁ h₂; omega
    · simp at h₁ h₂; omega
    · simp at h₁ h₂; omega
    · decide
  simp [isWhitespace]
  omega

/-- The key of a line: no equals sign, no break, no white space. -/
theorem validKey_spec {key : String} (h : validKey key = true) :
    key.toList ≠ [] ∧ ∀ c ∈ key.toList, keyChar c = true := by
  unfold validKey at h
  rw [Bool.and_eq_true] at h
  exact ⟨by simpa using h.1,List.all_eq_true.mp h.2⟩

theorem trimChars_key {l : List Char} (hl : ∀ c ∈ l, isWhitespace c = false) : trimChars l = l := by
  have hdrop : l.dropWhile isWhitespace = l := by
    cases l with
    | nil => rfl
    | cons c l => exact List.dropWhile_cons_of_neg (by simp [hl c (by simp)])
  rw [trimChars_eq, hdrop, trimEnd, List.rdropWhile_eq_self_iff]
  intro hne
  simp [hl _ (List.getLast_mem hne)]

theorem trimChars_assignment {key : List Char} (hne : key ≠ []) (hkey : ∀ c ∈ key, isWhitespace c = false)
    (l : List Char) : trimChars (key++ '='::l) = key++ '='::trimEnd l := by
  have hdrop : (key++ '='::l).dropWhile isWhitespace = key++ '='::l := by
    cases key with
    | nil => exact absurd rfl hne
    | cons c key => exact List.dropWhile_cons_of_neg (by simp [hkey c (by simp)])
  rw [trimChars_eq, hdrop, trimEnd_append (by decide)]

theorem splitOnce_assignment {key : List Char} (hkey : '=' ∉ key) (l : List Char) :
    splitOnce '=' (key++ '='::l) = some (key,l) := by
  have htake : (key++ '='::l).takeWhile (· ≠ '=') = key := by
    rw [List.takeWhile_append_of_pos]
    · simp
    · intro c hc
      have hne : c ≠ '=' := fun h => hkey (h ▸ hc)
      simpa using hne
  have hdrop : (key++ '='::l).dropWhile (· ≠ '=') = '='::l := by
    rw [List.dropWhile_append_of_pos]
    · simp
    · intro c hc
      have hne : c ≠ '=' := fun h => hkey (h ▸ hc)
      simpa using hne
  unfold splitOnce
  rw [htake, hdrop, if_pos (by simp)]
  rfl

theorem stripExport_assignment {key : List Char} (hkey : ' ' ∉ key) (l : List Char) :
    stripExport (key++ '='::l) = key++ '='::l := by
  unfold stripExport
  rw [if_neg]
  intro hprefix
  have hpre : "export ".toList <+: key++ '='::l := List.isPrefixOf_iff_prefix.mp hprefix
  rcases List.prefix_or_prefix_of_prefix hpre (List.prefix_append key _) with h | ⟨rest,h⟩
  · exact hkey (h.subset (by decide))
  · rw [← h, List.prefix_append_right_inj] at hpre
    cases rest with
    | nil =>
      rw [List.append_nil] at h
      exact hkey (h ▸ by decide)
    | cons c rest =>
      have hc : c = '=' := (List.cons_prefix_cons.mp hpre).1
      have hmem : '=' ∈ "export ".toList := by
        rw [← h, hc]
        simp
      exact absurd hmem (by decide)

/-- What the reader makes of a written value. -/
def readValue (value : String) : String := String.ofList (unquote (trimChars (escape value.toList)))

theorem parseLine_written {key : String} (hkey : validKey key = true) (value : String) (i : ℕ) :
    parseLine i (key.toList++ '='::escape value.toList) = .ok (some ⟨key,readValue value,true,false⟩) := by
  obtain ⟨hne,hchars⟩ := validKey_spec hkey
  have hspace : ∀ c ∈ key.toList, isWhitespace c = false := fun c hc => keyChar_not_space (hchars c hc)
  have hnot : ∀ c, keyChar c = false → c ∉ key.toList := by
    intro c hc hmem
    exact absurd (hchars c hmem) (by simp [hc])
  have hline := trimChars_assignment hne hspace
  have hsplit := splitOnce_assignment (hnot '=' (by decide))
  have hexport := stripExport_assignment (hnot ' ' (by decide))
  have hcomment : ¬ key.toList.head?.getD '=' = '#' := by
    cases hlist : key.toList with
    | nil => exact absurd hlist hne
    | cons c cs =>
      intro hc
      have hc : c = '#' := hc
      exact hnot '#' (by decide) (by rw [hlist, hc]; simp)
  have hall : key.toList.all keyChar = true := List.all_eq_true.mpr hchars
  unfold parseLine
  simp only [hline, hexport, trimEnd_self, hsplit]
  simp [hcomment, trimChars_key hspace, trimChars_trimEnd, hne, hall, readValue]

/-! ## The text -/

theorem escape_break (l : List Char) : '\n' ∉ escape l ∧ carriageReturn ∉ escape l := by
  have hchar : ∀ c, '\n' ∉ escapeChar c ∧ carriageReturn ∉ escapeChar c := by
    intro c
    unfold escapeChar
    split
    · decide
    · split
      · decide
      · rename_i hn
        split
        · decide
        · rename_i hr
          split
          · decide
          · exact ⟨by simpa using Ne.symm hn,by simpa using Ne.symm hr⟩
  unfold escape
  constructor
  · intro hmem
    obtain ⟨c,_,hc⟩ := List.mem_flatMap.mp hmem
    exact (hchar c).1 hc
  · intro hmem
    obtain ⟨c,_,hc⟩ := List.mem_flatMap.mp hmem
    exact (hchar c).2 hc

theorem lines_cons {l : List Char} (hl : '\n' ∉ l) (hcr : carriageReturn ∉ l) (rest : List Char) :
    lines (l++ '\n'::rest) = l::lines rest := by
  have hsplit : (l++ '\n'::rest).splitOn '\n' = l::rest.splitOn '\n' := List.splitOn_append_cons_self_of_not_mem hl rest
  have hstrip : stripCarriageReturn l = l := by
    unfold stripCarriageReturn
    rw [if_neg]
    intro hlast
    exact hcr (List.mem_of_getLast? hlast)
  unfold lines
  rw [hsplit]
  cases hrest : rest.splitOn '\n' with
  | nil => exact absurd hrest (List.splitOn_ne_nil _ _)
  | cons m ms => simp [hstrip]

theorem lines_written {vars : List (String × String)} (hkeys : ∀ v ∈ vars, validKey v.1 = true) :
    lines (vars.flatMap (fun v => formatDockerEnvLine v.1 v.2)) =
      vars.map (fun v => v.1.toList++ '='::escape v.2.toList) := by
  induction vars with
  | nil => rfl
  | cons v vars ih =>
    obtain ⟨_,hchars⟩ := validKey_spec (hkeys v (by simp))
    have hmem : ∀ c, keyChar c = false → c ≠ '=' → c ∉ escape v.2.toList →
        c ∉ v.1.toList++ '='::escape v.2.toList := by
      intro c hc heq hesc hmem
      rcases List.mem_append.mp hmem with hk | hk
      · exact absurd (hchars c hk) (by simp [hc])
      · rcases List.mem_cons.mp hk with h | h
        · exact heq h
        · exact hesc h
    have hline : (v::vars).flatMap (fun v => formatDockerEnvLine v.1 v.2) =
        (v.1.toList++ '='::escape v.2.toList)++ '\n'::vars.flatMap (fun v => formatDockerEnvLine v.1 v.2) := by
      simp [formatDockerEnvLine]
    rw [hline, lines_cons (hmem _ (by decide) (by decide) (escape_break _).1)
      (hmem _ (by decide) (by decide) (escape_break _).2), ih (fun v hv => hkeys v (by simp [hv]))]
    rfl

/-- The reader accepts what the writer writes, variable by variable. -/
theorem parse_written (vars : List (String × String)) (hkeys : ∀ v ∈ vars, validKey v.1 = true) :
    parseDotenv (serializeDockerEnvFile vars) = .ok (vars.map (fun v => ⟨v.1,readValue v.2,true,false⟩)) := by
  have hlines : ∀ i, parseLines i (vars.map (fun v => v.1.toList++ '='::escape v.2.toList)) =
      .ok (vars.map (fun v => ⟨v.1,readValue v.2,true,false⟩)) := by
    induction vars with
    | nil => exact fun _ => rfl
    | cons v vars ih =>
      intro i
      have hrest := ih (fun v hv => hkeys v (by simp [hv])) (i+1)
      rw [List.map_cons, parseLines, parseLine_written (hkeys v (by simp)), hrest]
      rfl
  rw [parseDotenv, serializeDockerEnvFile, String.toList_ofList, lines_written hkeys]
  exact hlines 0

/-! ## A value -/

/-- Nothing to escape, nothing to trim, no pair of quotes around it. -/
def Plain (value : String) : Prop :=
  (∀ c ∈ value.toList, c ≠ backslash ∧ c ≠ '\n' ∧ c ≠ carriageReturn ∧ c ≠ tab) ∧
  (∀ c ∈ value.toList.head?, isWhitespace c = false) ∧ (∀ c ∈ value.toList.getLast?, isWhitespace c = false) ∧
  quotedBy quote value.toList = false ∧ quotedBy apostrophe value.toList = false

/-- The characters that the writer escapes. -/
def special (c : Char) : Bool := c = backslash || c = '\n' || c = carriageReturn || c = tab

theorem count_escape (l : List Char) :
    (escape l).count backslash = l.count backslash+l.countP special := by
  induction l with
  | nil => rfl
  | cons c l ih =>
    have hcons : escape (c::l) = escapeChar c++escape l := rfl
    have hchar : (escapeChar c).count backslash = [c].count backslash+[c].countP special := by
      by_cases h : special c = true
      · simp only [special, Bool.or_eq_true, decide_eq_true_eq] at h
        rcases h with ((rfl | rfl) | rfl) | rfl <;> decide
      · have h' := h
        simp only [special, Bool.or_eq_true, decide_eq_true_eq, not_or] at h'
        obtain ⟨⟨⟨h₁,h₂⟩,h₃⟩,h₄⟩ := h'
        simp [escapeChar, h₁, h₂, h₃, h₄, h]
    have hcount : (c::l).count backslash = [c].count backslash+l.count backslash :=
      (List.count_append : ([c]++l).count backslash = _)
    have hspecial : (c::l).countP special = [c].countP special+l.countP special :=
      (List.countP_append : ([c]++l).countP special = _)
    rw [hcons, List.count_append, ih, hchar, hcount, hspecial]
    omega

theorem escape_of_plain {l : List Char} (h : ∀ c ∈ l, special c = false) : escape l = l := by
  induction l with
  | nil => rfl
  | cons c l ih =>
    have hc := h c (by simp)
    have hchar : escapeChar c = [c] := by
      simp only [special, Bool.or_eq_false_iff, decide_eq_false_iff_not] at hc
      obtain ⟨⟨⟨h₁,h₂⟩,h₃⟩,h₄⟩ := hc
      simp [escapeChar, h₁, h₂, h₃, h₄]
    have hcons : escape (c::l) = escapeChar c++escape l := rfl
    rw [hcons, hchar, ih (fun d hd => h d (by simp [hd]))]
    rfl

/-- Trimming takes no backslash away. -/
theorem count_trimChars (l : List Char) : (trimChars l).count backslash = l.count backslash := by
  have hdrop : ∀ l : List Char, (l.dropWhile isWhitespace).count backslash = l.count backslash := by
    intro l
    induction l with
    | nil => rfl
    | cons c l ih =>
      by_cases hc : isWhitespace c = true
      · have hne : c ≠ backslash := by
          rintro rfl
          exact absurd hc (by decide)
        rw [List.dropWhile_cons_of_pos hc, ih, List.count_cons_of_ne hne]
      · rw [List.dropWhile_cons_of_neg hc]
  unfold trimChars
  rw [List.count_reverse, hdrop, List.count_reverse, hdrop]

/-- Taking off quotes takes two of them, and no backslash. -/
theorem unquote_cases (l : List Char) :
    (quotedBy quote l = false ∧ quotedBy apostrophe l = false ∧ unquote l = l) ∨
      ∃ q m, q ≠ backslash ∧ l = q::m++[q] ∧ unquote l = m := by
  unfold unquote
  split
  · rename_i h
    rw [Bool.or_eq_true] at h
    right
    have hform : ∀ q, quotedBy q l = true → ∃ m, l = q::m++[q] ∧ l.tail.dropLast = m := by
      intro q hq
      unfold quotedBy at hq
      simp only [Bool.and_eq_true, decide_eq_true_eq] at hq
      obtain ⟨⟨hhead,hlast⟩,hlen⟩ := hq
      obtain ⟨t,rfl⟩ := List.head?_eq_some_iff.mp hhead
      have ht : t ≠ [] := by
        rintro rfl
        simp at hlen
      rw [List.getLast?_cons_of_ne_nil ht] at hlast
      obtain ⟨m,rfl⟩ := List.getLast?_eq_some_iff.mp hlast
      exact ⟨m,rfl,by simp⟩
    rcases h with h | h
    · obtain ⟨m,hl,hm⟩ := hform _ h
      exact ⟨quote,m,by decide,hl,hm⟩
    · obtain ⟨m,hl,hm⟩ := hform _ h
      exact ⟨apostrophe,m,by decide,hl,hm⟩
  · rename_i h
    rw [Bool.not_eq_true, Bool.or_eq_false_iff] at h
    exact Or.inl ⟨h.1,h.2,rfl⟩

theorem trimChars_self_iff (l : List Char) : trimChars l = l ↔
    (∀ c ∈ l.head?, isWhitespace c = false) ∧ (∀ c ∈ l.getLast?, isWhitespace c = false) := by
  constructor
  · intro h
    have hdrop : l.dropWhile isWhitespace = l := by
      refine (List.dropWhile_suffix _).eq_of_length_le ?_
      have hlen := congrArg List.length h
      rw [trimChars_eq] at hlen
      have := (List.rdropWhile_prefix isWhitespace (l.dropWhile isWhitespace)).length_le
      unfold trimEnd at hlen
      omega
    have hend : trimEnd l = l := by
      rw [trimChars_eq, hdrop] at h
      exact h
    constructor
    · intro c hc
      cases l with
      | nil => cases hc
      | cons d l =>
        cases hc
        by_contra hws
        have hlen := congrArg List.length hdrop
        rw [List.dropWhile_cons_of_pos (by simpa using hws)] at hlen
        have := (List.dropWhile_suffix isWhitespace (l := l)).length_le
        simp at hlen
        omega
    · intro c hc
      have hne : l ≠ [] := by
        rintro rfl
        cases hc
      have hlast := List.rdropWhile_eq_self_iff.mp hend hne
      rw [List.getLast?_eq_some_getLast hne, Option.mem_some_iff] at hc
      rw [← hc]
      simpa using hlast
  · rintro ⟨hhead,hlast⟩
    have hdrop : l.dropWhile isWhitespace = l := by
      cases l with
      | nil => rfl
      | cons c l => exact List.dropWhile_cons_of_neg (by simp [hhead c rfl])
    rw [trimChars_eq, hdrop]
    refine List.rdropWhile_eq_self_iff.mpr (fun hne => ?_)
    simp [hlast _ (List.getLast?_eq_some_getLast hne)]

theorem readValue_iff (value : String) : readValue value = value ↔ Plain value := by
  have hlist : readValue value = value ↔ unquote (trimChars (escape value.toList)) = value.toList := by
    constructor
    · intro h
      have hchars := congrArg String.toList h
      rwa [readValue, String.toList_ofList] at hchars
    · intro h
      rw [readValue, h, String.ofList_toList]
  rw [hlist]
  constructor
  · intro h
    -- a backslash is never taken away, so none was added
    have hcount : (unquote (trimChars (escape value.toList))).count backslash =
        (escape value.toList).count backslash := by
      rcases unquote_cases (trimChars (escape value.toList)) with ⟨_,_,heq⟩ | ⟨q,m,hq,hl,hm⟩
      · rw [heq, count_trimChars]
      · rw [hm, ← count_trimChars (escape value.toList), hl]
        simp [List.count_cons_of_ne hq]
    rw [h, count_escape] at hcount
    have hnone : ∀ c ∈ value.toList, special c = false := by
      have hzero : value.toList.countP special = 0 := by omega
      intro c hc
      simpa using List.countP_eq_zero.mp hzero c hc
    rw [escape_of_plain hnone] at h
    have hlen := trimChars_length value.toList
    rcases unquote_cases (trimChars value.toList) with ⟨hquote,hapostrophe,heq⟩ | ⟨q,m,_,hl,hm⟩
    · have htrim : trimChars value.toList = value.toList := heq.symm.trans h
      obtain ⟨hhead,hlast⟩ := (trimChars_self_iff _).mp htrim
      rw [htrim] at hquote hapostrophe
      refine ⟨fun c hc => ?_,hhead,hlast,hquote,hapostrophe⟩
      have hc := hnone c hc
      simp only [special, Bool.or_eq_false_iff, decide_eq_false_iff_not] at hc
      exact ⟨hc.1.1.1,hc.1.1.2,hc.1.2,hc.2⟩
    · have hlonger := congrArg List.length hl
      rw [hm] at h
      rw [h] at hlonger
      simp at hlonger
      omega
  · rintro ⟨hnone,hhead,hlast,hquote,hapostrophe⟩
    have hspecial : ∀ c ∈ value.toList, special c = false := by
      intro c hc
      obtain ⟨h₁,h₂,h₃,h₄⟩ := hnone c hc
      simp [special, h₁, h₂, h₃, h₄]
    rw [escape_of_plain hspecial, (trimChars_self_iff _).mpr ⟨hhead,hlast⟩, unquote, hquote, hapostrophe]
    rfl

/-! ## Export and import -/

def pairs (vars : List EnvVar) : List (String × String) := vars.map (fun v => (v.key,v.value))

/-- The variables that the file of a working directory gives back, none without a file. -/
def exportThenRead (vars : List EnvVar) (file : Option String) : Except String (List EnvVar) :=
  match readDotenvFile (materializeDotenvFile (pairs vars) file).2 with
  | .ok read => .ok (read.getD [])
  | .error e => .error e

/-- The keys and values come back in order, and merging them writes nothing. -/
def RoundTrip (vars : List EnvVar) (file : Option String) : Prop :=
  ∃ read, exportThenRead vars file = .ok read ∧ pairs read = pairs vars ∧
    ∀ overwrite, (envVarsNeedingWrite vars read overwrite).1 = []

theorem exportThenRead_eq {vars : List EnvVar} (hkeys : ∀ v ∈ vars, validKey v.key = true) (file : Option String) :
    exportThenRead vars file = .ok (vars.map (fun v => ⟨v.key,readValue v.value,true,false⟩)) := by
  cases vars with
  | nil => rfl
  | cons v vars =>
    have hparse := parse_written (pairs (v::vars)) (by
      intro p hp
      obtain ⟨u,hu,rfl⟩ := List.mem_map.mp hp
      exact hkeys u hu)
    have hmaterialize : (materializeDotenvFile (pairs (v::vars)) file).2 =
        some (serializeDockerEnvFile (pairs (v::vars))) := rfl
    rw [exportThenRead, hmaterialize, readDotenvFile, hparse]
    simp [pairs, List.map_map]

theorem lookup_of_mem {vars : List EnvVar} (hdistinct : (vars.map EnvVar.key).Nodup) {v : EnvVar} (hv : v ∈ vars) :
    lookup vars v.key = some v.value := by
  unfold lookup
  cases hfind : vars.reverse.find? (fun u => u.key = v.key) with
  | none =>
    have := List.find?_eq_none.mp hfind v (List.mem_reverse.mpr hv)
    simp at this
  | some u =>
    have hkey : u.key = v.key := by simpa using List.find?_some hfind
    have hu : u ∈ vars := List.mem_reverse.mp (List.mem_of_find?_eq_some hfind)
    rw [List.inj_on_of_nodup_map hdistinct hu hv hkey]
    rfl

/-- Merging what is stored writes nothing. -/
theorem merge_stored {existing : List EnvVar} (incoming : List EnvVar) (overwrite : Bool)
    (h : ∀ v ∈ incoming, lookup existing v.key = some v.value) (stats : EnvMergeStats) :
    (incoming.foldl (mergeVar existing overwrite) ([],stats)).1 = [] := by
  induction incoming generalizing stats with
  | nil => rfl
  | cons v incoming ih =>
    have hmerge : ∃ stats', mergeVar existing overwrite ([],stats) v = ([],stats') := by
      unfold mergeVar
      rw [h v (by simp)]
      split
      · exact ⟨_,rfl⟩
      · simp
    obtain ⟨stats',hstats⟩ := hmerge
    rw [List.foldl_cons, hstats]
    exact ih (fun u hu => h u (by simp [hu])) stats'

theorem round_trip_iff (vars : List EnvVar) (file : Option String)
    (hkeys : ∀ v ∈ vars, validKey v.key = true) (hdistinct : (vars.map EnvVar.key).Nodup) :
    RoundTrip vars file ↔ ∀ v ∈ vars, Plain v.value := by
  constructor
  · rintro ⟨read,hread,hpairs,_⟩ v hv
    rw [exportThenRead_eq hkeys] at hread
    cases hread
    rw [pairs, pairs, List.map_map, List.map_inj_left] at hpairs
    have hvalue := congrArg Prod.snd (hpairs v hv)
    exact (readValue_iff v.value).mp hvalue
  · intro hplain
    have hsame : ∀ v ∈ vars, readValue v.value = v.value := fun v hv => (readValue_iff v.value).mpr (hplain v hv)
    refine ⟨_,exportThenRead_eq hkeys file,?_,fun overwrite => merge_stored _ _ ?_ _⟩
    · rw [pairs, pairs, List.map_map, List.map_inj_left]
      intro v hv
      simp [hsame v hv]
    · intro u hu
      obtain ⟨v,hv,rfl⟩ := List.mem_map.mp hu
      simp only [hsame v hv]
      exact lookup_of_mem hdistinct hv

def portVar : EnvVar := ⟨"PORT","3000",false,false⟩

theorem round_trip_port : RoundTrip [portVar] none ↔ ∀ v ∈ [portVar], Plain v.value :=
  round_trip_iff [portVar] none (by decide) (by decide)

def pathVar : EnvVar := ⟨"WORK_PATH",String.ofList ['C',':',backslash,'a'],false,false⟩

/-- A backslash comes back twice. -/
theorem backslash_doubled : ¬ ∀ (vars : List EnvVar) (file : Option String),
    (∀ v ∈ vars, validKey v.key = true) → (vars.map EnvVar.key).Nodup → RoundTrip vars file := by
  intro h
  obtain ⟨read,hread,hpairs,_⟩ := h [pathVar] none (by decide) (by decide)
  have hback : exportThenRead [pathVar] none =
      .ok [⟨"WORK_PATH",String.ofList ['C',':',backslash,backslash,'a'],true,false⟩] := by decide +kernel
  rw [hback] at hread
  cases hread
  exact absurd hpairs (by decide +kernel)

end DevForge.DotenvRoundTrip
