import DevForge.DotenvRoundTrip
import DevForge.WatchAlerts

/-!
# Changes of a watched page

A page is read as lines, cleaned, without repetitions and bounded. What is kept of it is a snapshot
of bounded size, and the next reading is compared with the lines of the snapshot.
-/

set_option autoImplicit false

namespace DevForge.PageChanges
open Dotenv (trimChars carriageReturn)
open PageWatches

def MAX_SNAPSHOT_BYTES : ℕ := 100*1024
def MAX_LINES : ℕ := 2000
def MAX_LINE_CHARS : ℕ := 300

/-- The regular expressions of the program: tags and entities, and relative dates. -/
structure Cleaner where
  strip : String → String
  neutralizeRelative : String → String

/-- Each run of white space becomes a blank. -/
def collapse : Bool → List Char → List Char
  | _, [] => []
  | inSpace, c::cs =>
    if isWhitespace c then
      if inSpace then collapse true cs else ' '::collapse true cs
    else c::collapse false cs

def cleanLine (C : Cleaner) (raw : List Char) : List Char :=
  let line := C.neutralizeRelative (String.ofList (trimChars (collapse false raw)))
  collapse false (trimChars line.toList)

def collectLines (C : Cleaner) : List (List Char) → List String → List String
  | [], out => out
  | raw::raws, out =>
    let line := cleanLine C raw
    if line = [] then collectLines C raws out
    else
      let line := String.ofList (line.take MAX_LINE_CHARS)
      if line ∈ out then collectLines C raws out
      else if MAX_LINES ≤ out.length+1 then out++[line]
      else collectLines C raws (out++[line])

def pageLines (C : Cleaner) (html : String) : List String :=
  collectLines C (Dotenv.lines (C.strip html).toList) []

def joined (lines : List String) : String := String.intercalate "\n" lines

def snapshotFrom : String → List String → String
  | out, [] => out
  | out, l::ls =>
    if MAX_SNAPSHOT_BYTES < out.utf8ByteSize+l.utf8ByteSize+1 then out
    else snapshotFrom ((if out = "" then out else out++"\n")++l) ls

def boundedSnapshot (lines : List String) : String := snapshotFrom "" lines

structure PageDiff where
  added : List String
  removed : List String
deriving DecidableEq, Repr

def diffLines (old new : List String) : PageDiff := ⟨new.filter (· ∉ old),old.filter (· ∉ new)⟩

def plural (n : ℕ) : String := if 1 < n then "s" else ""

def shown (line : String) : String := String.ofList (line.toList.take 140)

def PageDiff.summary (d : PageDiff) : String :=
  let count (lines : List String) (what : String) : List String :=
    if lines = [] then []
    else [toString lines.length++" ligne"++plural lines.length++" "++what++plural lines.length]
  let parts := count d.added "nouvelle"++count d.removed "retirée"
  if parts = [] then "Ordre du texte modifié."
  else
    String.intercalate ", " parts++
      match d.added, d.removed with
      | first::_, _ => " · « "++shown first++" »"
      | [], first::_ => " · retiré : « "++shown first++" »"
      | [], [] => ""

section
variable (digest : String → String) (C : Cleaner)

/-- The lines of the last snapshot. -/
def previousLines (snapshot : Option String) : List String :=
  (Dotenv.lines (snapshot.getD "").toList).map String.ofList

def changeDiff (html : String) (previousSnapshot : Option String) : PageDiff :=
  diffLines (previousLines previousSnapshot) (pageLines C html)

/-- The reading of a page that is watched for changes. -/
def changeReading (html : String) (previousSnapshot : Option String) : Reading where
  text := joined (pageLines C html)
  lineCount := (pageLines C html).length
  snapshot := boundedSnapshot (pageLines C html)
  present := false
  price := none
  summary := (changeDiff C html previousSnapshot).summary

def pageHash (html : String) : String := sha256Hex digest [joined (pageLines C html)]

/-- The evaluation of a page after another one. -/
def evaluateAfter (spec : WatchSpec) (old new : String) : Except String Evaluation :=
  evaluate digest spec (changeReading C new (some (boundedSnapshot (pageLines C old))))
    (some (pageHash digest C old))

/-- The difference that the evaluation reports; without a change it reports none. -/
def reported (old new : String) : PageDiff :=
  if pageHash digest C old ≠ pageHash digest C new then
    changeDiff C new (some (boundedSnapshot (pageLines C old)))
  else ⟨[],[]⟩

/-- The lines that are new and those that are gone are reported, and equal pages raise no alert. -/
structure Reports (w : PageWatch) (old new : String) : Prop where
  lines : reported digest C old new = diffLines (pageLines C old) (pageLines C new)
  quiet : pageLines C old = pageLines C new →
    (w.decide digest (evaluateAfter digest C w.spec old new)).alert = none

def Fits (lines : List String) : Prop := (joined lines).utf8ByteSize ≤ MAX_SNAPSHOT_BYTES

end

/-! ## The lines of a page -/

/-- What every line of a page is, whatever the regular expressions do. -/
structure CleanLine (l : String) : Prop where
  nonempty : l ≠ ""
  newline : '\n' ∉ l.toList
  carriageReturn : carriageReturn ∉ l.toList
  size : l.utf8ByteSize ≤ 4*MAX_LINE_CHARS

theorem mem_collapse {b : Bool} {cs : List Char} {c : Char} (h : c ∈ collapse b cs) :
    c = ' ' ∨ isWhitespace c = false := by
  induction cs generalizing b with
  | nil => cases h
  | cons d cs ih =>
    simp only [collapse] at h
    split at h
    · split at h
      · exact ih h
      · rcases List.mem_cons.mp h with rfl | h
        · exact Or.inl rfl
        · exact ih h
    · next hd =>
      rcases List.mem_cons.mp h with rfl | h
      · exact Or.inr (by simpa using hd)
      · exact ih h

theorem size_le (cs : List Char) : (String.ofList cs).utf8ByteSize ≤ 4*cs.length := by
  induction cs with
  | nil => simp
  | cons c cs ih =>
    have hc := Char.utf8Size_le_four c
    rw [String.ofList_cons, String.utf8ByteSize_append, List.length_cons]
    have hs : (String.singleton c).utf8ByteSize = c.utf8Size := by simp
    omega

theorem cleanLine_take {C : Cleaner} {raw : List Char} (h : cleanLine C raw ≠ []) :
    CleanLine (String.ofList ((cleanLine C raw).take MAX_LINE_CHARS)) := by
  have hmem : ∀ c ∈ (cleanLine C raw).take MAX_LINE_CHARS, c = ' ' ∨ isWhitespace c = false :=
    fun c hc => mem_collapse (List.mem_of_mem_take hc)
  refine ⟨?_,?_,?_,?_⟩
  · intro he
    have hnil := congrArg String.toList he
    rw [String.toList_ofList] at hnil
    cases hl : cleanLine C raw with
    | nil => exact h hl
    | cons c cs => simp [hl, MAX_LINE_CHARS] at hnil
  · rw [String.toList_ofList]
    intro hc
    exact absurd (hmem _ hc) (by decide)
  · rw [String.toList_ofList]
    intro hc
    exact absurd (hmem _ hc) (by decide)
  · have hlen := List.length_take_le MAX_LINE_CHARS (cleanLine C raw)
    have := size_le ((cleanLine C raw).take MAX_LINE_CHARS)
    omega

/-- Clean lines, each of them once. -/
structure CleanPage (lines : List String) : Prop where
  clean : ∀ l ∈ lines, CleanLine l
  nodup : lines.Nodup

theorem cleanPage_snoc {lines : List String} (h : CleanPage lines) {l : String} (hl : CleanLine l) (hn : l ∉ lines) :
    CleanPage (lines++[l]) where
  clean := by
    intro m hm
    rcases List.mem_append.mp hm with hm | hm
    · exact h.clean m hm
    · exact List.mem_singleton.mp hm ▸ hl
  nodup := by
    rw [List.nodup_append]
    refine ⟨h.nodup,List.nodup_singleton l,?_⟩
    intro a ha b hb hab
    rw [List.mem_singleton] at hb
    exact hn (hb ▸ hab ▸ ha)

theorem collectLines_clean (C : Cleaner) (raws : List (List Char)) (out : List String) (h : CleanPage out) :
    CleanPage (collectLines C raws out) := by
  induction raws generalizing out with
  | nil => exact h
  | cons raw raws ih =>
    simp only [collectLines]
    split
    · exact ih out h
    · next hne =>
      split
      · exact ih out h
      · next hn =>
        have hsnoc := cleanPage_snoc h (cleanLine_take hne) hn
        split
        · exact hsnoc
        · exact ih _ hsnoc

theorem pageLines_clean (C : Cleaner) (html : String) : CleanPage (pageLines C html) :=
  collectLines_clean C _ [] ⟨by simp,List.nodup_nil⟩

/-! ## The snapshot -/

theorem joined_cons (l m : String) (ms : List String) : joined (l::m::ms) = l++"\n"++joined (m::ms) :=
  String.intercalate_cons_cons

theorem joined_snoc {ls : List String} (h : ls ≠ []) (l : String) : joined (ls++[l]) = joined ls++"\n"++l := by
  rw [joined, String.intercalate_append_of_ne_nil h (List.cons_ne_nil l []), String.intercalate_singleton]
  rfl

theorem joined_eq_empty {ls : List String} (h : ∀ l ∈ ls, CleanLine l) : joined ls = "" ↔ ls = [] := by
  constructor
  · intro he
    cases ls with
    | nil => rfl
    | cons l ms =>
      have hl := (h l List.mem_cons_self).nonempty
      cases ms with
      | nil => exact absurd (by simpa [joined] using he) hl
      | cons m ms =>
        rw [joined_cons] at he
        have := congrArg String.toList he
        simp at this
  · intro he
    rw [he]
    rfl

theorem lines_last {l : List Char} (hne : l ≠ []) (hn : '\n' ∉ l) : Dotenv.lines l = [l] := by
  have hsplit : l.splitOn '\n' = [l] := List.splitOn_eq_singleton hn
  simp [Dotenv.lines, hsplit, hne]

/-- The lines are read back from the text that they are joined to. -/
theorem lines_joined {ls : List String} (h : ∀ l ∈ ls, CleanLine l) :
    (Dotenv.lines (joined ls).toList).map String.ofList = ls := by
  induction ls with
  | nil => rfl
  | cons l ms ih =>
    have hl := h l List.mem_cons_self
    have hms := ih (fun m hm => h m (List.mem_cons_of_mem _ hm))
    cases ms with
    | nil =>
      have hne : l.toList ≠ [] := by simpa using hl.nonempty
      rw [joined, String.intercalate_singleton, lines_last hne hl.newline]
      simp
    | cons m ms =>
      have htext : (joined (l::m::ms)).toList = l.toList++ '\n'::(joined (m::ms)).toList := by
        rw [joined_cons, String.toList_append, String.toList_append, List.append_assoc]
        rfl
      rw [htext, DotenvRoundTrip.lines_cons hl.newline hl.carriageReturn, List.map_cons, hms, String.ofList_toList]

theorem size_joined_le (ls ms : List String) : (joined ls).utf8ByteSize ≤ (joined (ls++ms)).utf8ByteSize := by
  by_cases hl : ls = []
  · subst hl
    simp [joined]
  · by_cases hm : ms = []
    · rw [hm, List.append_nil]
    · rw [joined, joined, String.intercalate_append_of_ne_nil hl hm]
      simp only [String.utf8ByteSize_append]
      omega

/-- The snapshot keeps the first lines, and all of them exactly if they fit. -/
theorem snapshotFrom_spec (ls pre : List String) (hp : ∀ l ∈ pre, CleanLine l) (hl : ∀ l ∈ ls, CleanLine l)
    (hfit : Fits pre) :
    ∃ part rest, ls = part++rest ∧ snapshotFrom (joined pre) ls = joined (pre++part) ∧
      (rest = [] ↔ Fits (pre++ls)) := by
  induction ls generalizing pre with
  | nil => exact ⟨[],[],rfl,by rw [snapshotFrom, List.append_nil],by simpa using hfit⟩
  | cons l ls ih =>
    have hclean := hl l List.mem_cons_self
    have hsnoc : (if joined pre = "" then joined pre else joined pre++"\n")++l = joined (pre++[l]) := by
      by_cases hn : pre = []
      · subst hn
        simp [joined]
      · rw [if_neg (by rwa [joined_eq_empty hp]), joined_snoc hn]
    have hstep : MAX_SNAPSHOT_BYTES < (joined pre).utf8ByteSize+l.utf8ByteSize+1 ↔ ¬Fits (pre++[l]) := by
      by_cases hn : pre = []
      · subst hn
        have := hclean.size
        simp only [Fits, joined, List.nil_append, String.intercalate_singleton, String.intercalate_nil,
          MAX_SNAPSHOT_BYTES, MAX_LINE_CHARS] at *
        simp only [String.utf8ByteSize_empty]
        omega
      · rw [Fits, joined_snoc hn]
        simp only [String.utf8ByteSize_append]
        have : "\n".utf8ByteSize = 1 := by decide
        omega
    rw [snapshotFrom]
    by_cases hcut : MAX_SNAPSHOT_BYTES < (joined pre).utf8ByteSize+l.utf8ByteSize+1
    · refine ⟨[],l::ls,rfl,by rw [if_pos hcut, List.append_nil],?_⟩
      have hno := hstep.mp hcut
      have hmore := size_joined_le (pre++[l]) ls
      rw [List.append_assoc, List.singleton_append] at hmore
      simp only [Fits] at hno ⊢
      simp only [reduceCtorEq, false_iff]
      omega
    · have hyes : Fits (pre++[l]) := not_not.mp (fun hno => hcut (hstep.mpr hno))
      have hp' : ∀ m ∈ pre++[l], CleanLine m := by
        intro m hm
        rcases List.mem_append.mp hm with hm | hm
        · exact hp m hm
        · exact List.mem_singleton.mp hm ▸ hclean
      obtain ⟨part,rest,hparts,hsnap,hiff⟩ := ih (pre++[l]) hp' (fun m hm => hl m (List.mem_cons_of_mem _ hm)) hyes
      refine ⟨l::part,rest,by rw [hparts]; rfl,?_,?_⟩
      · rw [if_neg hcut, hsnoc, hsnap, List.append_assoc]
        rfl
      · rw [hiff, List.append_assoc]
        rfl

theorem previous_spec {ls : List String} (h : CleanPage ls) :
    ∃ rest, ls = previousLines (some (boundedSnapshot ls))++rest ∧ (rest = [] ↔ Fits ls) := by
  have hnil : Fits [] := by simp [Fits, joined]
  obtain ⟨part,rest,hparts,hsnap,hiff⟩ := snapshotFrom_spec ls [] (by simp) h.clean hnil
  have hprevious : previousLines (some (boundedSnapshot ls)) = part := by
    have hclean : ∀ l ∈ part, CleanLine l :=
      fun l hl => h.clean l (hparts ▸ List.mem_append_left rest hl)
    have hstart : boundedSnapshot ls = joined part := hsnap
    rw [hstart]
    exact lines_joined hclean
  exact ⟨rest,by rw [hprevious]; exact hparts,hiff⟩

/-! ## What is reported -/

/-- A part of the old lines gives their difference only if nothing is missing. -/
theorem diffLines_part_iff {part rest : List String} (new : List String) (h : (part++rest).Nodup) :
    diffLines part new = diffLines (part++rest) new ↔ rest = [] := by
  constructor
  · intro he
    obtain ⟨hadd,hrem⟩ := PageDiff.mk.inj he
    apply List.eq_nil_iff_forall_not_mem.mpr
    intro l hl
    have hpart : l ∉ part := fun hp => (List.nodup_append.mp h).2.2 l hp l hl rfl
    by_cases hn : l ∈ new
    · have hmem : l ∈ new.filter (· ∉ part) := List.mem_filter.mpr ⟨hn,by simpa using hpart⟩
      rw [hadd] at hmem
      have hout := (List.mem_filter.mp hmem).2
      exact (of_decide_eq_true hout) (List.mem_append_right part hl)
    · have hmem : l ∈ (part++rest).filter (· ∉ new) :=
        List.mem_filter.mpr ⟨List.mem_append_right part hl,by simpa using hn⟩
      rw [← hrem] at hmem
      exact hpart (List.mem_filter.mp hmem).1
  · intro hrest
    rw [hrest, List.append_nil]

section
variable {digest : String → String} (hinj : Function.Injective digest) (C : Cleaner)
include hinj

theorem pageHash_iff (old new : String) : pageHash digest C old = pageHash digest C new ↔ pageLines C old = pageLines C new := by
  constructor
  · intro h
    have htext := WatchAlerts.sha256Hex_inj hinj h
    simp only [List.map_cons, List.map_nil, SeparatedParts.encode] at htext
    have hjoined := String.toList_inj.mp (List.append_cancel_right htext)
    have hold := lines_joined (pageLines_clean C old).clean
    have hnew := lines_joined (pageLines_clean C new).clean
    rw [← hold, ← hnew, hjoined]
  · intro h
    rw [pageHash, pageHash, h]

theorem reported_iff (old new : String) :
    reported digest C old new = diffLines (pageLines C old) (pageLines C new) ↔
      pageLines C old = pageLines C new ∨ Fits (pageLines C old) := by
  unfold reported
  by_cases he : pageLines C old = pageLines C new
  · have hhash := (pageHash_iff hinj C old new).mpr he
    rw [if_neg (not_not.mpr hhash)]
    simp [he, diffLines]
  · have hhash : pageHash digest C old ≠ pageHash digest C new := fun h => he ((pageHash_iff hinj C old new).mp h)
    rw [if_pos hhash]
    have hclean := pageLines_clean C old
    obtain ⟨rest,hparts,hiff⟩ := previous_spec hclean
    have hnodup := hclean.nodup
    rw [hparts] at hnodup
    have hdiff := diffLines_part_iff (pageLines C new) hnodup
    rw [← hparts] at hdiff
    simp only [changeDiff]
    rw [hdiff, hiff]
    simp [he]

theorem quiet_of_equal {w : PageWatch} (hk : w.spec.kind = .change) {old new : String}
    (h : pageLines C old = pageLines C new) :
    (w.decide digest (evaluateAfter digest C w.spec old new)).alert = none := by
  have hhash := (pageHash_iff hinj C old new).mpr h
  have hsame : sha256Hex digest [(changeReading C new (some (boundedSnapshot (pageLines C old)))).text] =
      pageHash digest C old := hhash.symm
  simp [evaluateAfter, evaluate, hk, hsame, PageWatch.decide, decideOk, quiet]

/-- A change is reported as it is exactly when the old page fits in its snapshot. -/
theorem reports_iff (w : PageWatch) (hk : w.spec.kind = .change) (old new : String) :
    Reports digest C w old new ↔ pageLines C old = pageLines C new ∨ Fits (pageLines C old) :=
  ⟨fun h => (reported_iff hinj C old new).mp h.lines,
    fun h => ⟨(reported_iff hinj C old new).mpr h,quiet_of_equal hinj C hk⟩⟩

end

/-! ## Long pages -/

def changeSpec : WatchSpec := ⟨.change,none,none,none,none,none⟩

def changeWatch : PageWatch := newWatch 1 1 ⟨"page","https://exemple.fr",changeSpec,60⟩ 0

def plain : Cleaner := ⟨id,id⟩

/-- One line changes on a page of one line. -/
theorem short_page_reported : Reports id plain changeWatch "Stock : 3" "Stock : 2" :=
  (reports_iff Function.injective_id plain changeWatch rfl "Stock : 3" "Stock : 2").mpr (Or.inr (by
    unfold Fits
    decide +kernel))

theorem collapse_of_no_space {cs : List Char} (h : ∀ c ∈ cs, isWhitespace c = false) : collapse false cs = cs := by
  induction cs with
  | nil => rfl
  | cons c cs ih =>
    have hc := h c List.mem_cons_self
    simp [collapse, hc, ih (fun d hd => h d (List.mem_cons_of_mem _ hd))]

theorem trimChars_of_no_space {cs : List Char} (h : ∀ c ∈ cs, isWhitespace c = false) : trimChars cs = cs := by
  have hdrop : ∀ l : List Char, (∀ c ∈ l, isWhitespace c = false) → l.dropWhile isWhitespace = l := by
    intro l hl
    cases l with
    | nil => rfl
    | cons c l => simp [hl c List.mem_cons_self]
  have hrev : ∀ c ∈ cs.reverse, isWhitespace c = false := fun c hc => h c (List.mem_reverse.mp hc)
  rw [trimChars, hdrop cs h, hdrop _ hrev, List.reverse_reverse]

/-- A word that is not too long stays as it is. -/
structure Word (l : String) : Prop where
  nonempty : l ≠ ""
  word : ∀ c ∈ l.toList, isWhitespace c = false
  short : l.toList.length ≤ MAX_LINE_CHARS

theorem Word.clean {l : String} (h : Word l) : CleanLine l := by
  have hbreak : ∀ c, isWhitespace c = true → c ∉ l.toList := fun c hc hm => by simp [h.word c hm] at hc
  have hsize := size_le l.toList
  rw [String.ofList_toList] at hsize
  have hshort := h.short
  exact ⟨h.nonempty,hbreak _ (by decide),hbreak _ (by decide),by omega⟩

theorem Word.cleanLine {l : String} (h : Word l) : PageChanges.cleanLine plain l.toList = l.toList := by
  have hcollapse := collapse_of_no_space h.word
  have htrim := trimChars_of_no_space h.word
  simp [PageChanges.cleanLine, plain, hcollapse, htrim]

theorem collectLines_words {ls out : List String} (h : ∀ l ∈ ls, Word l) (hn : (out++ls).Nodup)
    (hlen : (out++ls).length < MAX_LINES) : collectLines plain (ls.map String.toList) out = out++ls := by
  induction ls generalizing out with
  | nil => simp [collectLines]
  | cons l ls ih =>
    have hl := h l List.mem_cons_self
    have hne : l.toList ≠ [] := by simpa using hl.nonempty
    have hout : l ∉ out := fun hm => (List.nodup_append.mp hn).2.2 l hm l List.mem_cons_self rfl
    have hsnoc : out++l::ls = (out++[l])++ls := by simp
    have hroom : ¬MAX_LINES ≤ out.length+1 := by
      rw [List.length_append, List.length_cons] at hlen
      omega
    rw [List.map_cons, collectLines]
    simp only [hl.cleanLine, List.take_of_length_le hl.short, String.ofList_toList, if_neg hne, if_neg hout,
      if_neg hroom]
    rw [hsnoc] at hn hlen ⊢
    exact ih (fun m hm => h m (List.mem_cons_of_mem _ hm)) hn hlen

theorem pageLines_words {ls : List String} (h : ∀ l ∈ ls, Word l) (hn : ls.Nodup) (hlen : ls.length < MAX_LINES) :
    pageLines plain (joined ls) = ls := by
  have hlines := congrArg (List.map String.toList) (lines_joined (fun l hl => (h l hl).clean))
  rw [List.map_map] at hlines
  have hid : String.toList ∘ String.ofList = id := by
    ext1 cs
    simp
  rw [hid, List.map_id] at hlines
  unfold pageLines
  rw [show plain.strip (joined ls) = joined ls from rfl, hlines]
  exact collectLines_words h hn hlen

theorem size_replicate (n : ℕ) (c : Char) : (String.ofList (List.replicate n c)).utf8ByteSize = n*c.utf8Size := by
  induction n with
  | zero => simp
  | succ n ih =>
    rw [List.replicate_succ, String.ofList_cons, String.utf8ByteSize_append, ih, Nat.succ_mul]
    simp only [String.utf8ByteSize_singleton]
    omega

theorem size_joined_ge {ls : List String} {n : ℕ} (h : ∀ l ∈ ls, n ≤ l.utf8ByteSize) :
    n*ls.length ≤ (joined ls).utf8ByteSize := by
  induction ls with
  | nil => simp
  | cons l ms ih =>
    have hl := h l List.mem_cons_self
    have hms := ih (fun m hm => h m (List.mem_cons_of_mem _ hm))
    cases ms with
    | nil => simpa [joined] using hl
    | cons m ms =>
      rw [joined_cons]
      simp only [String.utf8ByteSize_append, List.length_cons] at hms ⊢
      rw [Nat.mul_succ]
      omega

def longLetter (i : ℕ) : Char := Char.ofNat (0x10000+i)

def longLine (i : ℕ) : String := String.ofList (List.replicate 300 (longLetter i))

def longPage : List String := (List.range 100).map longLine

theorem longLine_toList (i : ℕ) : (longLine i).toList = List.replicate 300 (longLetter i) :=
  String.toList_ofList

theorem longLine_length (i : ℕ) : (longLine i).toList.length = 300 := by
  rw [longLine_toList, List.length_replicate]

theorem longLetter_spec : ∀ i < 100, (longLetter i).toNat = 0x10000+i ∧ (longLetter i).utf8Size = 4 ∧
    isWhitespace (longLetter i) = false := by
  decide +kernel

theorem longPage_words : ∀ l ∈ longPage, Word l := by
  intro l hl
  obtain ⟨i,hi,rfl⟩ := List.mem_map.mp hl
  obtain ⟨-,-,hspace⟩ := longLetter_spec i (List.mem_range.mp hi)
  refine ⟨?_,?_,?_⟩
  · intro he
    have hlen := longLine_length i
    rw [he] at hlen
    simp at hlen
  · intro c hc
    rw [longLine_toList] at hc
    rw [List.eq_of_mem_replicate hc]
    exact hspace
  · rw [longLine_length, MAX_LINE_CHARS]

theorem longPage_nodup : longPage.Nodup := by
  apply List.Nodup.map_on
  · intro i hi j hj he
    have hletters : longLetter i = longLetter j := by
      have hlists := String.ofList_injective he
      exact List.replicate_right_injective (by decide : 300 ≠ 0) hlists
    have hi := (longLetter_spec i (List.mem_range.mp hi)).1
    have hj := (longLetter_spec j (List.mem_range.mp hj)).1
    rw [hletters] at hi
    omega
  · exact List.nodup_range

theorem longPage_not_fits : ¬Fits longPage := by
  have hsize : ∀ l ∈ longPage, 1200 ≤ l.utf8ByteSize := by
    intro l hl
    obtain ⟨i,hi,rfl⟩ := List.mem_map.mp hl
    rw [longLine, size_replicate, (longLetter_spec i (List.mem_range.mp hi)).2.1]
  have hjoined := size_joined_ge hsize
  have hlen : longPage.length = 100 := by simp [longPage]
  rw [hlen] at hjoined
  simp only [Fits, MAX_SNAPSHOT_BYTES]
  omega

/-- A long page becomes empty, and only the lines of its snapshot are reported as removed. -/
theorem long_page_cut : ¬∀ old new, Reports id plain changeWatch old new := by
  intro h
  have hlines := pageLines_words longPage_words longPage_nodup (by simp [longPage, MAX_LINES])
  have hempty : pageLines plain "" = [] := by decide +kernel
  have hreport := (reported_iff Function.injective_id plain (joined longPage) "").mp (h (joined longPage) "").lines
  rw [hlines, hempty] at hreport
  rcases hreport with he | hfits
  · have := congrArg List.length he
    simp [longPage] at this
  · exact longPage_not_fits hfits

end DevForge.PageChanges
