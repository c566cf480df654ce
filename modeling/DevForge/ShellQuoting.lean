import DevForge.ShellWords

/-!
# Command lines

The commands of an update quote the words that have other characters than a few, those of a
runner quote every word. The shell reads the words back, but for the empty ones of an update:
no character of theirs asks for quotes.
-/

set_option autoImplicit false

namespace DevForge.ShellQuoting
open ShellWords

/-- `replace('\'', "''")`. -/
def doubleQuotes (s : List Char) : List Char := s.flatMap (fun c => if c = quote then [quote,quote] else [c])

def escapePlain (c : Char) : Bool := c.isAlphanum || c ∈ ['-','_','.','/',':','@']

def joinPlain (c : Char) : Bool := c.isAlphanum || c ∈ ['-','_','.','/',':','=','@']

/-- Of the updates. -/
def shellEscape (s : String) : String :=
  if s.toList.all escapePlain then s else String.ofList (inQuotes s.toList)

/-- Of the runners. -/
def runnerShellEscape (s : String) : String := String.ofList (inQuotes s.toList)

def joinWord (windows : Bool) (p : String) : String :=
  if p.toList.all joinPlain then p
  else if windows then String.ofList (quote::(doubleQuotes p.toList++[quote]))
  else shellEscape p

def joined (words : List String) : String := String.ofList ([' '].intercalate (words.map String.toList))

def shellJoin (windows : Bool) (parts : List String) : String := joined (parts.map (joinWord windows))

/-- The words that the shell reads in a text. -/
def words (text : String) : Option (List String) := (split text.toList).map (·.map String.ofList)

/-! ## One word -/

theorem bare_of_joinPlain {c : Char} (h : joinPlain c = true) : Bare c :=
  bare_of (by decide) h

theorem joinPlain_of_escapePlain {c : Char} (h : escapePlain c = true) : joinPlain c = true := by
  simp only [escapePlain, joinPlain, Bool.or_eq_true, decide_eq_true_eq, List.mem_cons] at h ⊢
  tauto

theorem writes_plain {s : List Char} (hne : s ≠ []) (h : s.all joinPlain = true) : Writes s s :=
  writes_bare hne (fun c hc => bare_of_joinPlain (List.all_eq_true.mp h c hc))

theorem writes_shellEscape (s : String) (h : s ≠ "") : Writes (shellEscape s).toList s.toList := by
  unfold shellEscape
  split
  · next hplain =>
    apply writes_plain (by simpa using h)
    rw [List.all_eq_true] at hplain ⊢
    exact fun c hc => joinPlain_of_escapePlain (hplain c hc)
  · rw [String.toList_ofList]
    exact writes_inQuotes s.toList

theorem writes_joinWord (s : String) (h : s ≠ "") : Writes (joinWord false s).toList s.toList := by
  unfold joinWord
  split
  · next hplain => exact writes_plain (by simpa using h) hplain
  · rw [if_neg Bool.false_ne_true]
    exact writes_shellEscape s h

/-! ## Lists of words -/

/-- All words but the empty ones are read back. -/
theorem words_joined {f : String → String} (hf : ∀ s : String, s ≠ "" → Writes (f s).toList s.toList)
    (hempty : f "" = "") (l : List String) : words (joined (l.map f)) = some (l.filter (· ≠ "")) := by
  have hne : ∀ s : String, (!(f s).toList.isEmpty) = decide (s ≠ "") := by
    intro s
    by_cases hs : s = ""
    · simp [hs, hempty]
    · simpa [hs] using (hf s hs).ne_nil
  have hsplit := split_join (f := fun s => (f (String.ofList s)).toList) (l := l.map String.toList) (by
    intro s _ hs
    have hs' : String.ofList s ≠ "" := fun h => hs (by simp [h, hempty])
    simpa using hf (String.ofList s) hs')
  have hpieces : (l.map String.toList).map (fun s => (f (String.ofList s)).toList) = (l.map f).map String.toList := by
    simp [Function.comp_def]
  rw [hpieces] at hsplit
  rw [words, joined, String.toList_ofList, hsplit, List.filter_map, Option.map_some, List.map_map]
  simp only [Function.comp_def, String.ofList_toList, hne, List.map_id']

/-- With a writer that quotes every word, all words are read back. -/
theorem words_quoted (l : List String) : words (joined (l.map runnerShellEscape)) = some l := by
  have hsplit := split_join (f := inQuotes) (l := l.map String.toList) (fun s _ _ => writes_inQuotes s)
  have hpieces : (l.map String.toList).map inQuotes = (l.map runnerShellEscape).map String.toList := by
    simp [runnerShellEscape]
  have hne : ∀ s : List Char, (!(inQuotes s).isEmpty) = true := fun s => rfl
  rw [hpieces] at hsplit
  rw [words, joined, String.toList_ofList, hsplit, Option.map_some]
  simp [hne]

/-- What an update or a runner writes of a list of words is read as this list. -/
structure Faithful (l : List String) : Prop where
  join : words (shellJoin false l) = some l
  escaped : words (joined (l.map shellEscape)) = some l
  runner : words (joined (l.map runnerShellEscape)) = some l

theorem faithful_iff (l : List String) : Faithful l ↔ ∀ s ∈ l, s ≠ "" := by
  have hjoin : words (shellJoin false l) = some (l.filter (· ≠ "")) := words_joined writes_joinWord rfl l
  have hescaped : words (joined (l.map shellEscape)) = some (l.filter (· ≠ "")) := words_joined writes_shellEscape rfl l
  constructor
  · intro h s hs
    have hself : l.filter (· ≠ "") = l := Option.some.inj (hjoin.symm.trans h.join)
    simpa using List.filter_eq_self.mp hself s hs
  · intro h
    have hself : l.filter (· ≠ "") = l := List.filter_eq_self.mpr (fun s hs => by simpa using h s hs)
    exact ⟨hjoin.trans (congrArg some hself),hescaped.trans (congrArg some hself),words_quoted l⟩

/-- An empty argument is lost. -/
theorem empty_lost : ¬∀ l : List String, Faithful l := by
  intro h
  have hjoin := (h ["docker","--label",""]).join
  rw [shellJoin, words_joined writes_joinWord rfl] at hjoin
  exact absurd (congrArg (Option.map List.length) hjoin) (by decide)

end DevForge.ShellQuoting
