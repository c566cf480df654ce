import DevForge.FixedDigits
import DevForge.JsonGrammar
import DevForge.Truncate
import Mathlib.Algebra.GroupWithZero.Nat

/-!
# How long a result gets

Whatever is returned for a result is a JSON text. Its length is bounded at every level, but the
excerpt of the last resort is written as a string once more, and its quotation marks grow.
-/

set_option autoImplicit false

namespace DevForge.BudgetKept
open WakeGate (Json)
open JsonText Truncate

mutual

/-- The numbers are numbers of the grammar. -/
def WellFormed : Json → Prop
  | .num t => JsonGrammar.Number t.toList
  | .arr vs => ItemsWellFormed vs
  | .obj ms => MembersWellFormed ms
  | _ => True

def ItemsWellFormed : List Json → Prop
  | [] => True
  | v::vs => WellFormed v ∧ ItemsWellFormed vs

def MembersWellFormed : List (String × Json) → Prop
  | [] => True
  | (_,v)::ms => WellFormed v ∧ MembersWellFormed ms

end

/-! ## Texts are of the grammar -/

theorem hexDigit_isHex {n : ℕ} (h : n < 16) : JsonGrammar.isHex (hexDigit n) = true := by
  have hall : ∀ m < 16, JsonGrammar.isHex (hexDigit m) = true := by decide
  exact hall n h

theorem escape_written (c : Char) : JsonGrammar.Written (escape c) := by
  obtain ⟨e,he,hform⟩ | ⟨hlt,hform⟩ | ⟨hge,hquote,hslash,hform⟩ := escape_cases c
  · have hletters : [quoteMark,backslash,'b','t','n','f','r'] ⊆
        [JsonGrammar.quotationMark,JsonGrammar.reverseSolidus,'/','b','f','n','r','t'] := by
      decide
    rw [hform]
    exact .escaped e (hletters he)
  · rw [hform]
    exact .coded '0' '0' _ _ (by decide) (by decide) (hexDigit_isHex (by omega)) (hexDigit_isHex (by omega))
  · rw [hform]
    exact .plain c hge hquote hslash

theorem characters_escape (cs : List Char) : JsonGrammar.Characters (cs.flatMap escape) := by
  induction cs with
  | nil => exact .nil
  | cons c cs ih => exact .cons (escape_written c) ih

theorem quoted_text (s : String) : JsonGrammar.Text (quoted s) := ⟨s.toList.flatMap escape,characters_escape s.toList,rfl⟩

mutual

theorem text_value : ∀ v : Json, WellFormed v → JsonGrammar.Value (text v)
  | .null, _ => .null
  | .bool true, _ => .true
  | .bool false, _ => .false
  | .num _, h => .number h
  | .str s, _ => .text (quoted_text s)
  | .arr [], _ => .emptyArray JsonGrammar.blank_nil
  | .arr (v::vs), h => .array (listText_elements (v::vs) (List.cons_ne_nil v vs) h)
  | .obj [], _ => .emptyObject JsonGrammar.blank_nil
  | .obj (m::ms), h => .object (membersText_members (m::ms) (List.cons_ne_nil m ms) h)

theorem listText_elements : ∀ vs : List Json, vs ≠ [] → ItemsWellFormed vs → JsonGrammar.Elements (listText vs)
  | [], hne, _ => absurd rfl hne
  | [v], _, h => by
    rw [listText, List.isEmpty_nil, if_pos rfl, List.append_nil]
    exact .one (text_value v h.1).element
  | v::w::vs, _, h => .cons (text_value v h.1).element (listText_elements (w::vs) (List.cons_ne_nil w vs) h.2)

theorem membersText_members : ∀ ms : List (String × Json), ms ≠ [] → MembersWellFormed ms →
    JsonGrammar.Members (membersText ms)
  | [], hne, _ => absurd rfl hne
  | [(k,v)], _, h => by
    rw [membersText, List.isEmpty_nil, if_pos rfl, List.append_nil]
    exact .one ((quoted_text k).member (text_value v h.1))
  | (k,v)::m::ms, _, h =>
    .cons ((quoted_text k).member (text_value v h.1)) (membersText_members (m::ms) (List.cons_ne_nil m ms) h.2)

end

/-! ## Shorter values -/

theorem insert_wellFormed {k : String} {v : Json} {ms : List (String × Json)} (hv : WellFormed v)
    (h : MembersWellFormed ms) : MembersWellFormed (Truncate.insert k v ms) := by
  induction ms with
  | nil => exact ⟨hv,trivial⟩
  | cons m ms ih =>
    obtain ⟨j,b⟩ := m
    rw [Truncate.insert, SortedMap.put]
    split
    · exact ⟨hv,h⟩
    split
    · exact ⟨hv,h.2⟩
    · exact ⟨h.1,ih h.2⟩

theorem toString_number (n : ℕ) : WellFormed (.num (toString n)) := by
  have h : (toString n).toList = Nat.toDigits 10 n := Nat.toList_repr
  show JsonGrammar.Number (toString n).toList
  rw [h]
  exact (JsonGrammar.natural_toDigits n).number

theorem noteOmitted_wellFormed (k : String) (v : Json) {out : List (String × Json)} (h : MembersWellFormed out) :
    MembersWellFormed (noteOmitted k v out) := by
  unfold noteOmitted
  split
  · split
    · exact insert_wellFormed (toString_number _) h
    · exact h
  · exact h

theorem take_wellFormed (n : ℕ) {vs : List Json} (h : ItemsWellFormed vs) : ItemsWellFormed (vs.take n) := by
  induction vs generalizing n with
  | nil => simpa using h
  | cons v vs ih =>
    cases n with
    | zero => trivial
    | succ n => exact ⟨h.1,ih n h.2⟩

mutual

theorem shrink_wellFormed (key : String) (lim : Limits) (lockfile : Bool) :
    ∀ v : Json, WellFormed v → WellFormed (shrink key lim lockfile v)
  | .null, _ => trivial
  | .bool _, _ => trivial
  | .num _, h => h
  | .str _, _ => trivial
  | .arr vs, h => take_wellFormed MAX_ARRAY_ITEMS (shrinkList_wellFormed key lim lockfile vs h)
  | .obj ms, h => shrinkMembers_wellFormed lim (lockfile || lockfileAt (.obj ms)) [] trivial ms h

theorem shrinkList_wellFormed (key : String) (lim : Limits) (lockfile : Bool) :
    ∀ vs : List Json, ItemsWellFormed vs → ItemsWellFormed (shrinkList key lim lockfile vs)
  | [], _ => trivial
  | v::vs, h => ⟨shrink_wellFormed key lim lockfile v h.1,shrinkList_wellFormed key lim lockfile vs h.2⟩

theorem shrinkMembers_wellFormed (lim : Limits) (lockfile : Bool) (out : List (String × Json))
    (hout : MembersWellFormed out) : ∀ ms : List (String × Json), MembersWellFormed ms →
      MembersWellFormed (shrinkMembers lim lockfile out ms)
  | [], _ => hout
  | (k,v)::ms, h =>
    shrinkMembers_wellFormed lim lockfile _
      (noteOmitted_wellFormed k v (insert_wellFormed (shrink_wellFormed k lim lockfile v h.1) hout)) ms h.2

end

theorem lookup_wellFormed {k : String} {v : Json} {ms : List (String × Json)} (h : MembersWellFormed ms)
    (hk : ms.lookup k = some v) : WellFormed v := by
  induction ms with
  | nil => cases hk
  | cons m ms ih =>
    obtain ⟨j,b⟩ := m
    rw [List.lookup_cons] at hk
    split at hk
    · rw [← Option.some.inj hk]
      exact h.1
    · exact ih h.2 hk

theorem ok_wellFormed {result : Json} (h : WellFormed result) : WellFormed ((result.get "ok").getD .null) := by
  cases hok : result.get "ok" with
  | none => trivial
  | some v =>
    cases result with
    | obj ms => exact lookup_wellFormed h hok
    | _ => cases hok

theorem readFile_value {result : Json} (h : WellFormed result) : JsonGrammar.Value (readFile result (text result)) := by
  have hstr : ∀ s, WellFormed (.str s) := fun _ => trivial
  have hbool : WellFormed (.bool true) := trivial
  unfold readFile
  dsimp only
  split
  · exact text_value result h
  · cases result with
    | obj ms =>
      apply text_value
      apply insert_wellFormed (hstr _)
      apply insert_wellFormed hbool
      cases ((Json.obj ms).get "content").bind Json.asStr with
      | none => exact h
      | some c => exact insert_wellFormed (hstr _) h
    | _ => exact text_value _ h

/-- Whatever the model is given is a JSON text. -/
theorem forModel_value (tool : String) (args : Json) {result : Json} (budget : ℕ) (h : WellFormed result) :
    JsonGrammar.Value (forModel tool args result budget) := by
  unfold forModel
  dsimp only
  split
  · exact readFile_value h
  split
  · exact text_value result h
  · cases hfind : ((List.range 5).map (levelText result (lockfileAt args || lockfileAt result))).find?
        (fun s => s.length ≤ budget) with
    | none => exact text_value _ ⟨trivial,ok_wellFormed h,trivial,trivial⟩
    | some s =>
      obtain ⟨level,-,rfl⟩ := List.mem_map.mp (List.mem_of_find?_eq_some hfind)
      exact text_value _ (shrink_wellFormed "" (.level level) _ result h)

/-! ## Lengths -/

/-- The characters that are added when a text is written as a string. -/
def escapes (cs : List Char) : ℕ := (cs.map (fun c => (escape c).length-1)).sum

theorem escapes_append (cs ds : List Char) : escapes (cs++ds) = escapes cs+escapes ds := by
  rw [escapes, List.map_append, List.sum_append]
  rfl

theorem escape_length (c : Char) : 1 ≤ (escape c).length := by
  obtain ⟨e,-,hform⟩ | ⟨-,hform⟩ | ⟨-,-,-,hform⟩ := escape_cases c
  · rw [hform]
    exact Nat.succ_le_succ (Nat.zero_le _)
  · rw [hform]
    exact Nat.succ_le_succ (Nat.zero_le _)
  · rw [hform]
    exact Nat.succ_le_succ (Nat.zero_le _)

theorem flatMap_escape_length (cs : List Char) : (cs.flatMap escape).length = cs.length+escapes cs := by
  induction cs with
  | nil => rfl
  | cons c cs ih =>
    have hone : 1 ≤ (escape c).length := escape_length c
    have hcons : escapes (c::cs) = (escape c).length-1+escapes cs := rfl
    rw [List.flatMap_cons, List.length_append, ih, hcons, List.length_cons]
    omega

/-- Characters between the quotation mark and the backslash, and those behind it, stay as they are. -/
theorem escape_of_plain {c : Char} (h : 34 < c.toNat) (hslash : c ≠ backslash) : escape c = [c] := by
  have hquote : c ≠ quoteMark := by
    rintro rfl
    exact absurd h (by decide)
  rw [escape, if_neg hquote, if_neg hslash, if_neg (by omega), if_neg (by omega), if_neg (by omega), if_neg (by omega),
    if_neg (by omega), if_neg (by omega)]

theorem escapes_of_digits {cs : List Char} (h : ∀ c ∈ cs, c.isDigit = true) : escapes cs = 0 := by
  have hdigit : ∀ c ∈ cs, (escape c).length-1 = 0 := by
    intro c hc
    obtain ⟨hge,hle⟩ := Char.isDigit_iff_toNat.mp (h c hc)
    have hslash : c ≠ backslash := by
      rintro rfl
      exact absurd hle (by decide)
    rw [escape_of_plain (Nat.lt_of_lt_of_le (by decide) hge) hslash]
    rfl
  rw [escapes, List.map_congr_left hdigit, List.map_const', List.sum_replicate_nat, Nat.mul_zero]

theorem escapes_marker (n : ℕ) : escapes (marker n) = 2 := by
  have hform : marker n = ['\n','…','[']++((toString n).toList++" caractères omis]…\n".toList) := rfl
  rw [hform, escapes_append, escapes_append, escapes_of_digits (FixedDigits.isDigit_of_mem_toString n)]
  decide +kernel

theorem marker_length (n : ℕ) : (marker n).length = (toString n).toList.length+22 := by
  have hform : marker n = ['\n','…','[']++((toString n).toList++" caractères omis]…\n".toList) := rfl
  have htail : " caractères omis]…\n".toList.length = 19 := by decide +kernel
  rw [hform, List.length_append, List.length_append, htail]
  show 3+((toString n).toList.length+19) = _
  omega

theorem quoted_length (s : String) : (quoted s).length = s.toList.length+escapes s.toList+2 := by
  rw [quoted, List.length_cons, List.length_append, flatMap_escape_length]
  rfl

theorem excerpt_length (result : Json) (full : List Char) (budget : ℕ) :
    (text (excerpt result full budget)).length = (headTail full (budget/3) (budget/2)).length+
      escapes (headTail full (budget/3) (budget/2))+(text ((result.get "ok").getD .null)).length+37 := by
  have hexcerpt : (quoted "excerpt").length = 9 := by decide +kernel
  have hok : (quoted "ok").length = 4 := by decide +kernel
  have htruncated : (quoted "truncated").length = 11 := by decide +kernel
  have htrue : (text (.bool true)).length = 4 := by decide +kernel
  have hstr : ∀ s, text (.str s) = quoted s := fun _ => rfl
  simp only [excerpt, text, membersText, List.isEmpty_cons, List.isEmpty_nil, if_true, Bool.false_eq_true, if_false,
    List.length_cons, List.length_append, List.length_nil, hexcerpt, hok, htruncated]
  rw [quoted_length, String.toList_ofList]
  have htrue : "true".toList.length = 4 := by decide +kernel
  omega

/-- The length of the excerpt as it is returned. -/
def excerptCost (result : Json) (budget : ℕ) : ℕ :=
  let full := text result
  let ok := (text ((result.get "ok").getD .null)).length
  if full.length ≤ budget/3+budget/2 then full.length+escapes full+ok+37
  else budget/3+budget/2+escapes (full.take (budget/3))+escapes (full.drop (full.length-budget/2))+
    (toString (full.length-budget/3-budget/2)).toList.length+ok+61

theorem excerptCost_eq (result : Json) (budget : ℕ) :
    (text (excerpt result (text result) budget)).length = excerptCost result budget := by
  rw [excerpt_length]
  unfold headTail excerptCost
  dsimp only
  split
  · rfl
  · next hgt =>
    rw [List.length_append, List.length_append, escapes_append, escapes_append, escapes_marker, marker_length,
      List.length_take, List.length_drop]
    omega

/-! ## Within the budget -/

section
variable (tool : String) (args result : Json) (budget : ℕ)

structure Kept : Prop where
  short : (forModel tool args result budget).length ≤ budget
  valid : (∃ ms, result = .obj ms) → JsonGrammar.Value (forModel tool args result budget)

/-- The result or one of its shorter forms fits, or the excerpt does with what its escapes add. -/
def Roomy : Prop :=
  (text result).length ≤ budget ∧ (lockfileAt args || lockfileAt result) = false ∧
      hasArrayOver MAX_ARRAY_ITEMS result = false ∨
    (∃ level < 5, (levelText result (lockfileAt args || lockfileAt result) level).length ≤ budget) ∨
    excerptCost result budget ≤ budget

variable {tool} (htool : tool ≠ "read_project_file")
include htool

theorem forModel_eq : forModel tool args result budget =
    if (text result).length ≤ budget && !(lockfileAt args || lockfileAt result) && !hasArrayOver MAX_ARRAY_ITEMS result
    then text result
    else (((List.range 5).map (levelText result (lockfileAt args || lockfileAt result))).find?
      (fun s => s.length ≤ budget)).getD (text (excerpt result (text result) budget)) := by
  have hread : (decide (tool = "read_project_file") && !(lockfileAt args || lockfileAt result)) = false := by
    rw [decide_eq_false htool, Bool.false_and]
  rw [forModel, hread]
  rfl

theorem forModel_short_iff : (forModel tool args result budget).length ≤ budget ↔ Roomy args result budget := by
  rw [forModel_eq args result budget htool, Roomy]
  by_cases hwhole : (text result).length ≤ budget ∧ (lockfileAt args || lockfileAt result) = false ∧
      hasArrayOver MAX_ARRAY_ITEMS result = false
  · have hcond : (decide ((text result).length ≤ budget) && !(lockfileAt args || lockfileAt result) &&
        !hasArrayOver MAX_ARRAY_ITEMS result) = true := by
      rw [hwhole.2.1, hwhole.2.2, decide_eq_true hwhole.1]
      rfl
    rw [if_pos hcond]
    exact ⟨fun _ => .inl hwhole,fun _ => hwhole.1⟩
  · have hcond : ¬(decide ((text result).length ≤ budget) && !(lockfileAt args || lockfileAt result) &&
        !hasArrayOver MAX_ARRAY_ITEMS result) = true := by
      intro h
      rw [Bool.and_eq_true, Bool.and_eq_true, Bool.not_eq_true', Bool.not_eq_true', decide_eq_true_eq] at h
      exact hwhole ⟨h.1.1,h.1.2,h.2⟩
    rw [if_neg hcond]
    cases hfind : ((List.range 5).map (levelText result (lockfileAt args || lockfileAt result))).find?
        (fun s => s.length ≤ budget) with
    | none =>
      have hlong : ¬∃ level < 5, (levelText result (lockfileAt args || lockfileAt result) level).length ≤ budget := by
        rintro ⟨level,hlt,hle⟩
        have hnot := List.find?_eq_none.mp hfind _ (List.mem_map_of_mem (List.mem_range.mpr hlt))
        exact hnot (decide_eq_true hle)
      rw [Option.getD_none, excerptCost_eq]
      constructor
      · exact fun h => .inr (.inr h)
      · intro h
        exact (h.resolve_left hwhole).resolve_left hlong
    | some s =>
      have hle : s.length ≤ budget := by simpa using List.find?_some hfind
      obtain ⟨level,hlevel,rfl⟩ := List.mem_map.mp (List.mem_of_find?_eq_some hfind)
      exact ⟨fun _ => .inr (.inl ⟨level,List.mem_range.mp hlevel,hle⟩),fun _ => hle⟩

end

/-- The budget is kept exactly when there is room for the escapes of the excerpt. -/
theorem kept_iff_roomy {tool : String} (htool : tool ≠ "read_project_file") (args : Json) {result : Json}
    (hresult : WellFormed result) (budget : ℕ) : Kept tool args result budget ↔ Roomy args result budget := by
  constructor
  · exact fun h => (forModel_short_iff args result budget htool).mp h.short
  · intro h
    exact ⟨(forModel_short_iff args result budget htool).mpr h,fun _ => forModel_value tool args budget hresult⟩

theorem small_result_kept : Kept "http_smoke" .null (.obj [("ok",.bool true),("status",.num "200")]) 1000 := by
  have hnumber : JsonGrammar.Number "200".toList := (JsonGrammar.natural_toDigits 200).number
  have hroomy : Roomy .null (.obj [("ok",.bool true),("status",.num "200")]) 1000 :=
    .inl ⟨by decide +kernel,by decide +kernel,by decide +kernel⟩
  have hresult : WellFormed (.obj [("ok",.bool true),("status",.num "200")]) := ⟨trivial,hnumber,trivial⟩
  exact (kept_iff_roomy (by decide) .null hresult 1000).mpr hroomy

/-- A text of quotation marks only. -/
def quotes : String := String.ofList (List.replicate 200 quoteMark)

def quotedRows : Json := .obj [("ok",.bool true),("rows",.arr [.str quotes,.str quotes,.str quotes])]

theorem quotes_toList : quotes.toList = List.replicate 200 quoteMark := String.toList_ofList

theorem quotes_shrunk (level : ℕ) (h : level < 5) : shrinkText quotes "rows" (.level level) false = quotes := by
  have hother : ¬(Limits.level level).other < 200 := by
    have hall : ∀ l < 5, ¬(Limits.level l).other < 200 := by decide
    exact hall level h
  have hkey : (LONG_TEXT_KEYS.contains "rows" || startsWithLogs "rows") = false := by decide
  rw [shrinkText, quotes_toList, List.length_replicate, hkey, Bool.false_and, if_neg Bool.false_ne_true,
    if_neg Bool.false_ne_true, if_neg hother]

theorem quotedRows_shrunk (level : ℕ) (h : level < 5) : levelText quotedRows false level = text quotedRows := by
  have hrows : shrink "rows" (.level level) false (.arr [.str quotes,.str quotes,.str quotes]) =
      .arr [.str quotes,.str quotes,.str quotes] := by
    simp only [shrink, shrinkList, quotes_shrunk level h]
    rfl
  have hmembers : shrink "" (.level level) false quotedRows =
      .obj (Truncate.insert "rows" (shrink "rows" (.level level) false (.arr [.str quotes,.str quotes,.str quotes]))
        [("ok",.bool true)]) := rfl
  rw [levelText, hmembers, hrows]
  rfl

def quotedQuotes : List Char := quoteMark::((List.replicate 200 quoteMark).flatMap escape++[quoteMark])

def quotedRowsText : List Char :=
  '{'::(quoted "ok"++ ':'::"true".toList++ ','::(quoted "rows"++ ':':: '['::
    (quotedQuotes++ ','::(quotedQuotes++ ','::quotedQuotes)++[']']))++['}'])

theorem text_quotedRows : text quotedRows = quotedRowsText := by
  have hquotes : quoted quotes = quotedQuotes := by
    rw [quoted, quotes_toList]
    rfl
  simp only [quotedRows, text, membersText, listText, hquotes]
  simp only [List.isEmpty_cons, List.isEmpty_nil, if_true, Bool.false_eq_true, if_false, List.append_nil]
  rfl

theorem quotedRows_not_roomy : ¬Roomy .null quotedRows 1000 := by
  have hlock : (lockfileAt .null || lockfileAt quotedRows) = false := rfl
  have hlong : ¬(text quotedRows).length ≤ 1000 := by
    rw [text_quotedRows]
    decide +kernel
  rintro (⟨hle,-⟩ | ⟨level,hlt,hle⟩ | hle)
  · exact hlong hle
  · rw [hlock, quotedRows_shrunk level hlt] at hle
    exact hlong hle
  · unfold excerptCost at hle
    rw [text_quotedRows] at hle
    revert hle
    decide +kernel

/-- The excerpt is longer than the budget, for its quotation marks. -/
theorem quotes_over_budget : WellFormed quotedRows ∧ ¬Kept "run_workdir_command" .null quotedRows 1000 := by
  constructor
  · exact ⟨trivial,⟨trivial,trivial,trivial,trivial⟩,trivial⟩
  · intro h
    exact quotedRows_not_roomy ((forModel_short_iff .null quotedRows 1000 (by decide)).mp h.short)

end DevForge.BudgetKept
