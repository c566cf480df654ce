import DevForge.Dotenv
import DevForge.EditScripts
import DevForge.SeparatedParts
import Mathlib.Data.List.Infix

/-!
# Line diffs of edited files

The table of the longest common subsequences of all suffixes is filled from the end, and a walk from
the start keeps, adds and removes lines. The patch is a text; large files are only shown in part.
-/

set_option autoImplicit false

namespace DevForge.LineDiffs
open EditScripts

abbrev Line := List Char

def MAX_LINES : ℕ := 1500

def oldLines (old : String) : List Line := if old = "" then [] else Dotenv.lines old.toList

def newLines (new : String) : List Line := Dotenv.lines new.toList

/-! ## The table -/

/-- The row `dp[i]` from the row `dp[i+1]`, for the line `a[i]`. -/
def row (x : Line) : List Line → List ℕ → List ℕ
  | [], _ => [0]
  | y::ys, next =>
    let rest := row x ys next.tail
    (if x = y then next.tail.headD 0+1 else max (next.headD 0) (rest.headD 0))::rest

def table (b : List Line) : List Line → List (List ℕ)
  | [] => [List.replicate (b.length+1) 0]
  | x::xs =>
    let rows := table b xs
    row x b (rows.headD [])::rows

def cell (dp : List (List ℕ)) (i j : ℕ) : ℕ := (dp.getD i []).getD j 0

/-- The loop from the lines `i` and `j` on. -/
def walk (a b : List Line) (dp : List (List ℕ)) (i j : ℕ) : List (Edit Line) :=
  match ha : a[i]?, hb : b[j]? with
  | some x, some y =>
    if x = y then .keep x::walk a b dp (i+1) (j+1)
    else if cell dp (i+1) j ≤ cell dp i (j+1) then .add y::walk a b dp i (j+1)
    else .remove x::walk a b dp (i+1) j
  | none, some y => .add y::walk a b dp i (j+1)
  | some x, none => .remove x::walk a b dp (i+1) j
  | none, none => []
termination_by (a.length-i)+(b.length-j)
decreasing_by
  all_goals
    try have := (List.getElem?_eq_some_iff.mp ha).1
    try have := (List.getElem?_eq_some_iff.mp hb).1
    omega

/-! ## The patch -/

def lineText (mark : Char) (l : Line) : List Char := mark::l++ ['\n']

def editText : Edit Line → List Char
  | .keep l => lineText ' ' l
  | .add l => lineText '+' l
  | .remove l => lineText '-' l

def body (edits : List (Edit Line)) : List Char := edits.flatMap editText

def patchHeader (path : String) (a : List Line) : String :=
  if a = [] then "--- /dev/null\n+++ b/"++path++"\n" else "--- a/"++path++"\n+++ b/"++path++"\n@@\n"

/-- The first lines of two large files. -/
def preview (path : String) (a b : List Line) : String :=
  let removed := if 80 < a.length then "… "++toString (a.length-80)++" lignes retirées non affichées\n" else ""
  let added := if 120 < b.length then "… "++toString (b.length-120)++" lignes ajoutées non affichées\n" else ""
  "--- a/"++path++"\n+++ b/"++path++"\n"++String.ofList (body ((a.take 80).map Edit.remove))++removed++
    String.ofList (body ((b.take 120).map Edit.add))++added

/-- The additions, the deletions and the patch. -/
def lineDiffStats (path old new : String) : ℕ × ℕ × String :=
  let a := oldLines old
  let b := newLines new
  if a = [] ∧ b = [] then (0,0,"")
  else if MAX_LINES < a.length ∨ MAX_LINES < b.length then (b.length,a.length,preview path a b)
  else if a = [] then (b.length,0,patchHeader path a++String.ofList (body (b.map Edit.add)))
  else if a = b then (0,0,"")
  else
    let edits := walk a b (table b a) 0 0
    (additions edits,deletions edits,patchHeader path a++String.ofList (body edits))

/-! ## Reading a patch -/

def readLine : List Char → Option (Edit Line)
  | ' '::l => some (.keep l)
  | '+'::l => some (.add l)
  | '-'::l => some (.remove l)
  | _ => none

def readBody (text : List Char) : List (Edit Line) := (text.splitOn '\n').dropLast.filterMap readLine

/-- The edits that a patch shows after its header. -/
def readPatch (path : String) (a : List Line) (patch : String) : List (Edit Line) :=
  readBody (patch.toList.drop (patchHeader path a).length)

/-! ## The table holds the lengths -/

theorem lcs_nil (l : List Line) : lcs l [] = 0 := by
  cases l <;> rw [lcs]

theorem head_tails_map (f : List Line → ℕ) (ys : List Line) : (ys.tails.map f).headD 0 = f ys := by
  cases ys <;> simp

theorem row_spec (x : Line) (xs b : List Line) : row x b (b.tails.map (lcs xs)) = b.tails.map (lcs (x::xs)) := by
  induction b with
  | nil => simp [row, lcs_nil]
  | cons y ys ih =>
    rw [List.tails_cons, List.map_cons, List.map_cons, row]
    simp only [List.tail_cons, List.headD_cons]
    rw [ih, head_tails_map, head_tails_map, lcs]

theorem table_spec (a b : List Line) : table b a = a.tails.map (fun l => b.tails.map (lcs l)) := by
  induction a with
  | nil =>
    have hzero : ∀ l ∈ b.tails, lcs [] l = 0 := fun l _ => by rw [lcs]
    have htails : ([] : List Line).tails = [[]] := by simp
    rw [table, htails, List.map_singleton, List.map_congr_left hzero, List.map_const', List.length_tails]
  | cons x xs ih =>
    rw [List.tails_cons, List.map_cons, table, ih]
    have hhead : (xs.tails.map (fun l => b.tails.map (lcs l))).headD [] = b.tails.map (lcs xs) := by
      cases xs <;> simp
    simp only [hhead, row_spec]

theorem cell_spec {a b : List Line} {i j : ℕ} (hi : i ≤ a.length) (hj : j ≤ b.length) :
    cell (table b a) i j = lcs (a.drop i) (b.drop j) := by
  have hi : i < a.tails.length := by rw [List.length_tails]; omega
  have hj : j < b.tails.length := by rw [List.length_tails]; omega
  have hrow : (table b a).getD i [] = b.tails.map (lcs (a.drop i)) := by
    rw [table_spec, List.getD_eq_getElem?_getD, List.getElem?_map, List.getElem?_eq_getElem hi, List.getElem_tails]
    rfl
  rw [cell, hrow, List.getD_eq_getElem?_getD, List.getElem?_map, List.getElem?_eq_getElem hj, List.getElem_tails]
  rfl

/-! ## The walk follows the table -/

theorem drop_of_get {l : List Line} {i : ℕ} {x : Line} (h : l[i]? = some x) : l.drop i = x::l.drop (i+1) := by
  obtain ⟨hi,rfl⟩ := List.getElem?_eq_some_iff.mp h
  exact List.drop_eq_getElem_cons hi

theorem drop_of_none {l : List Line} {i : ℕ} (h : l[i]? = none) : l.drop i = [] :=
  List.drop_eq_nil_of_le (List.getElem?_eq_none_iff.mp h)

theorem lt_of_get {l : List Line} {i : ℕ} {x : Line} (h : l[i]? = some x) : i < l.length :=
  (List.getElem?_eq_some_iff.mp h).1

theorem walk_both {a b : List Line} {dp : List (List ℕ)} {i j : ℕ} {x y : Line} (ha : a[i]? = some x)
    (hb : b[j]? = some y) :
    walk a b dp i j =
      if x = y then .keep x::walk a b dp (i+1) (j+1)
      else if cell dp (i+1) j ≤ cell dp i (j+1) then .add y::walk a b dp i (j+1)
      else .remove x::walk a b dp (i+1) j := by
  rw [walk]
  split <;> simp_all

theorem walk_new {a b : List Line} {dp : List (List ℕ)} {i j : ℕ} {y : Line} (ha : a[i]? = none)
    (hb : b[j]? = some y) : walk a b dp i j = .add y::walk a b dp i (j+1) := by
  rw [walk]
  split <;> simp_all

theorem walk_old {a b : List Line} {dp : List (List ℕ)} {i j : ℕ} {x : Line} (ha : a[i]? = some x)
    (hb : b[j]? = none) : walk a b dp i j = .remove x::walk a b dp (i+1) j := by
  rw [walk]
  split <;> simp_all

theorem walk_end {a b : List Line} {dp : List (List ℕ)} {i j : ℕ} (ha : a[i]? = none) (hb : b[j]? = none) :
    walk a b dp i j = [] := by
  rw [walk]
  split <;> simp_all

/-- The cells that the walk compares are the lengths for the two lists without one line. -/
theorem cells_of_get {a b : List Line} {i j : ℕ} {x y : Line} (ha : a[i]? = some x) (hb : b[j]? = some y) :
    cell (table b a) (i+1) j = lcs (a.drop (i+1)) (y::b.drop (j+1)) ∧
      cell (table b a) i (j+1) = lcs (x::a.drop (i+1)) (b.drop (j+1)) := by
  have hi := lt_of_get ha
  have hj := lt_of_get hb
  rw [← drop_of_get ha, ← drop_of_get hb]
  exact ⟨cell_spec hi (Nat.le_of_lt hj),cell_spec (Nat.le_of_lt hi) hj⟩

theorem walk_spec (a b : List Line) (i j : ℕ) :
    walk a b (table b a) i j = script (a.drop i) (b.drop j) := by
  induction i, j using walk.induct a b (table b a) with
  | case1 i j x hx hy ih =>
    rw [walk_both hy hx, drop_of_get hy, drop_of_get hx, script, if_pos rfl, if_pos rfl, ih]
  | case2 i j x y hx hy hne hle ih =>
    rw [walk_both hx hy, if_neg hne, if_pos hle, ih, drop_of_get hx, drop_of_get hy, script, if_neg hne, if_pos]
    rwa [(cells_of_get hx hy).1, (cells_of_get hx hy).2] at hle
  | case3 i j x y hx hy hne hgt ih =>
    rw [walk_both hx hy, if_neg hne, if_neg hgt, ih, drop_of_get hx, drop_of_get hy, script, if_neg hne, if_neg]
    rwa [(cells_of_get hx hy).1, (cells_of_get hx hy).2] at hgt
  | case4 i j y hx hy ih =>
    rw [walk_new hx hy, ih, drop_of_none hx, drop_of_get hy, script]
  | case5 i j x hx hy ih =>
    rw [walk_old hx hy, ih, drop_of_get hx, drop_of_none hy, script]
  | case6 i j hx hy =>
    rw [walk_end hx hy, drop_of_none hx, drop_of_none hy, script]

theorem walk_leads (a b : List Line) : Leads (walk a b (table b a) 0 0) a b := by
  rw [walk_spec]
  exact script_leads a b

/-! ## The patch is read back -/

theorem readBody_cons {l : Line} {e : Edit Line} {mark : Char} (hm : mark ≠ '\n') (hl : '\n' ∉ l)
    (he : readLine (mark::l) = some e) (text : List Char) :
    readBody (lineText mark l++text) = e::readBody text := by
  have hno : '\n' ∉ mark::l := by
    intro h
    rcases List.mem_cons.mp h with h | h
    · exact hm h.symm
    · exact hl h
  have hsplit : (lineText mark l++text).splitOn '\n' = (mark::l)::text.splitOn '\n' := by
    have := List.splitOn_append_cons_self_of_not_mem hno text
    simpa [lineText] using this
  rw [readBody, hsplit, List.dropLast_cons_of_ne_nil (List.splitOn_ne_nil _ _), List.filterMap_cons_some he]
  rfl

/-- The edits are read back when no line is broken. -/
theorem readBody_body {edits : List (Edit Line)} (ho : ∀ l ∈ oldSide edits, '\n' ∉ l)
    (hn : ∀ l ∈ newSide edits, '\n' ∉ l) : readBody (body edits) = edits := by
  induction edits with
  | nil => simp [body, readBody, List.splitOn_nil]
  | cons e es ih =>
    rw [body, List.flatMap_cons]
    cases e with
    | keep l =>
      simp only [oldSide, newSide, List.forall_mem_cons] at ho hn
      rw [editText, readBody_cons (by decide) ho.1 rfl]
      exact congrArg _ (ih ho.2 hn.2)
    | add l =>
      simp only [oldSide, newSide, List.forall_mem_cons] at ho hn
      rw [editText, readBody_cons (by decide) hn.1 rfl]
      exact congrArg _ (ih ho hn.2)
    | remove l =>
      simp only [oldSide, newSide, List.forall_mem_cons] at ho hn
      rw [editText, readBody_cons (by decide) ho.1 rfl]
      exact congrArg _ (ih ho.2 hn)

theorem readPatch_body {path : String} {a : List Line} {edits : List (Edit Line)}
    (ho : ∀ l ∈ oldSide edits, '\n' ∉ l) (hn : ∀ l ∈ newSide edits, '\n' ∉ l) :
    readPatch path a (patchHeader path a++String.ofList (body edits)) = edits := by
  rw [readPatch, String.toList_append, String.toList_ofList, ← String.length_toList, List.drop_left]
  exact readBody_body ho hn

theorem stripCarriageReturn_mem {l : List Char} {c : Char} (h : c ∈ Dotenv.stripCarriageReturn l) : c ∈ l := by
  unfold Dotenv.stripCarriageReturn at h
  split at h
  · exact List.mem_of_mem_dropLast h
  · exact h

theorem lines_unbroken {cs l : List Char} (h : l ∈ Dotenv.lines cs) : '\n' ∉ l := by
  have hpart : ∀ part ∈ cs.splitOn '\n', '\n' ∉ part := by
    intro part hp hc
    rw [List.splitOn_eq_splitOnP] at hp
    simpa using SeparatedParts.mem_splitOnP hp _ hc
  rcases List.mem_append.mp h with h | h
  · obtain ⟨part,hp,rfl⟩ := List.mem_map.mp h
    exact fun hc => hpart part (List.mem_of_mem_dropLast hp) (stripCarriageReturn_mem hc)
  · have hlast := (List.mem_filter.mp h).1
    rw [Option.mem_toList] at hlast
    exact hpart l (List.mem_of_getLast? hlast)

theorem oldLines_unbroken {old : String} : ∀ l ∈ oldLines old, '\n' ∉ l := by
  intro l hl
  unfold oldLines at hl
  split at hl
  · cases hl
  · exact lines_unbroken hl

/-! ## The diff -/

/-- The patch shows the edits that lead from one text to the other, with as many lines kept as can be. -/
structure ShowsDiff (path : String) (a b : List Line) (stats : ℕ × ℕ × String) : Prop where
  leads : Leads (readPatch path a stats.2.2) a b
  additions : stats.1 = additions (readPatch path a stats.2.2)
  deletions : stats.2.1 = deletions (readPatch path a stats.2.2)

/-- The number of edits is that of the longest common subsequence, and no script has fewer. -/
structure CountsEdits (a b : List Line) (stats : ℕ × ℕ × String) : Prop where
  counted : ∃ s, IsLongest s a b ∧ stats.1+stats.2.1+2*s.length = a.length+b.length
  fewest : ∀ edits, oldSide edits = a → newSide edits = b → stats.1+stats.2.1 ≤ additions edits+deletions edits

theorem counts_of_leads {es : List (Edit Line)} {a b : List Line} (h : Leads es a b) (patch : String) :
    CountsEdits a b (additions es,deletions es,patch) where
  counted := by
    have hcount := count_edits es
    rw [h.old, h.new] at hcount
    exact ⟨kept es,h.longest,hcount⟩
  fewest := by
    intro edits ho hn
    have hmost : KeepsMost es := by
      unfold KeepsMost
      rw [h.old, h.new]
      exact h.longest
    exact hmost.le (ho.trans h.old.symm) (hn.trans h.new.symm)

theorem shows_of_leads {es : List (Edit Line)} {a b : List Line} (h : Leads es a b) (path : String)
    (ha : ∀ l ∈ a, '\n' ∉ l) (hb : ∀ l ∈ b, '\n' ∉ l) :
    ShowsDiff path a b (additions es,deletions es,patchHeader path a++String.ofList (body es)) := by
  have hread : readPatch path a (patchHeader path a++String.ofList (body es)) = es :=
    readPatch_body (h.old.symm ▸ ha) (h.new.symm ▸ hb)
  exact ⟨by rw [hread]; exact h,by rw [hread],by rw [hread]⟩

/-- A new file is added line by line. -/
theorem script_new (b : List Line) : script [] b = b.map Edit.add := by
  induction b with
  | nil =>
    rw [script]
    rfl
  | cons y ys ih => rw [script, ih, List.map_cons]

theorem added_counts (b : List Line) : additions (b.map Edit.add) = b.length ∧ deletions (b.map Edit.add) = 0 := by
  induction b with
  | nil => exact ⟨rfl,rfl⟩
  | cons y ys ih =>
    rw [List.map_cons, additions, deletions, ih.1, ih.2, List.length_cons]
    exact ⟨rfl,rfl⟩

theorem counts_same (a : List Line) : CountsEdits a a (0,0,"") where
  counted := by
    refine ⟨a,⟨List.Sublist.refl a,List.Sublist.refl a,fun t ht _ => ht.length_le⟩,?_⟩
    dsimp only
    omega
  fewest := fun _ _ _ => Nat.zero_le _

theorem stats_same {path old new : String} (h : oldLines old = newLines new) (hn : (newLines new).length ≤ MAX_LINES) :
    lineDiffStats path old new = (0,0,"") := by
  unfold lineDiffStats
  dsimp only
  rw [h]
  split
  · rfl
  · split
    · omega
    · split
      · next hempty _ hno => exact absurd ⟨hno,hno⟩ hempty
      · rw [if_pos rfl]

theorem stats_differ (path : String) {old new : String} (h : oldLines old ≠ newLines new) (ho : (oldLines old).length ≤ MAX_LINES)
    (hn : (newLines new).length ≤ MAX_LINES) :
    ∃ es, Leads es (oldLines old) (newLines new) ∧ lineDiffStats path old new =
      (additions es,deletions es,patchHeader path (oldLines old)++String.ofList (body es)) := by
  unfold lineDiffStats
  dsimp only
  rw [if_neg (fun hempty => h (hempty.1.trans hempty.2.symm)), if_neg (by omega)]
  by_cases hnew : oldLines old = []
  · have hleads := script_leads [] (newLines new)
    rw [script_new] at hleads
    obtain ⟨hadd,hdel⟩ := added_counts (newLines new)
    refine ⟨(newLines new).map Edit.add,hnew ▸ hleads,?_⟩
    rw [if_pos hnew, hadd, hdel]
  · rw [if_neg hnew, if_neg h]
    exact ⟨_,walk_leads (oldLines old) (newLines new),rfl⟩

/-- The numbers are those of a shortest diff; the patch shows it whenever the lines differ, and is
empty when they do not. -/
theorem line_diff_spec (path old new : String) (ho : (oldLines old).length ≤ MAX_LINES)
    (hn : (newLines new).length ≤ MAX_LINES) :
    CountsEdits (oldLines old) (newLines new) (lineDiffStats path old new) ∧
      (oldLines old ≠ newLines new → ShowsDiff path (oldLines old) (newLines new) (lineDiffStats path old new)) ∧
      (oldLines old = newLines new → (lineDiffStats path old new).2.2 = "") := by
  by_cases h : oldLines old = newLines new
  · rw [stats_same h hn, h]
    exact ⟨counts_same _,fun hne => absurd rfl hne,fun _ => rfl⟩
  · obtain ⟨es,hleads,hstats⟩ := stats_differ path h ho hn
    rw [hstats]
    exact ⟨counts_of_leads hleads _,fun _ => shows_of_leads hleads path oldLines_unbroken (fun _ => lines_unbroken),
      fun heq => absurd heq h⟩

/-- One line of two is replaced. -/
theorem replaced_line_shown :
    ShowsDiff "a.txt" (oldLines "a\nb") (newLines "a\nc") (lineDiffStats "a.txt" "a\nb" "a\nc") :=
  (line_diff_spec "a.txt" "a\nb" "a\nc" (by decide +kernel) (by decide +kernel)).2.1 (by decide +kernel)

/-- The lines of a text that does not change are not shown. -/
theorem unchanged_text_not_shown : ¬∀ path old new, (oldLines old).length ≤ MAX_LINES →
    (newLines new).length ≤ MAX_LINES → ShowsDiff path (oldLines old) (newLines new) (lineDiffStats path old new) := by
  intro h
  have hold := (h "a.txt" "a" "a" (by decide +kernel) (by decide +kernel)).leads.old
  exact absurd hold (by decide +kernel)

end DevForge.LineDiffs
