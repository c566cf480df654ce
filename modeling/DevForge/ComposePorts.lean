import DevForge.DotenvRoundTrip
import DevForge.SeparatedParts
import DevForge.ToolArguments
import Mathlib.Data.List.ReduceOption

/-!
# The ports of a compose file

A compose file is read line by line: a line that begins with `ports:` opens a block, which lasts as
long as the lines are deeper than it, and each line of the block may be a mapping. A file is its
lines, of which the items of the ports are known.
-/

set_option autoImplicit false

namespace DevForge.ComposePorts
open Dotenv DotenvRoundTrip
open ToolArguments (digits digits_toString)

structure ExposedPort where
  host : ℕ
  container : ℕ
  protocol : String
  source : String
  deriving DecidableEq, Repr

/-! ## One mapping -/

def quotes : List Char := [Char.ofNat 34,Char.ofNat 39]

def quoteChar (c : Char) : Bool := quotes.contains c

def trimMatches (p : Char → Bool) (l : List Char) : List Char := (l.dropWhile p).rdropWhile p

/-- The text before the last separator and the text after it. -/
def rsplitOnce (sep : Char) (l : List Char) : Option (List Char × List Char) :=
  if sep ∈ l then some ((l.reverse.dropWhile (· ≠ sep)).tail.reverse,(l.reverse.takeWhile (· ≠ sep)).reverse) else none

/-- `str::parse::<u16>`. -/
def parseU16 (cs : List Char) : Option ℕ :=
  let unsigned := match cs with
    | '+'::rest => rest
    | cs => cs
  (digits unsigned).filter (· < 65536)

def eqIgnoreAsciiCase (s : List Char) (word : List Char) : Bool := s.map Char.toLower = word.map Char.toLower

def UDP : List Char := ['u','d','p']

def TCP : List Char := ['t','c','p']

def mainAndProtocol (token : List Char) : List Char × String :=
  match rsplitOnce '/' token with
  | some (main,proto) =>
    if eqIgnoreAsciiCase proto UDP then (main,"udp") else if eqIgnoreAsciiCase proto TCP then (main,"tcp") else (token,"tcp")
  | none => (token,"tcp")

def parts (main : List Char) : List (List Char) := (main.splitOn ':').filter (fun p => !p.isEmpty)

/-- The port of the host and the port of the container. -/
def portPair : List (List Char) → Option (ℕ × ℕ)
  | [only] => (parseU16 only).map (fun port => (port,port))
  | [host,container] => (parseU16 host).bind (fun h => (parseU16 container).map (fun c => (h,c)))
  | [_,host,container] => (parseU16 host).bind (fun h => (parseU16 container).map (fun c => (h,c)))
  | _ => none

def parseMapping (token : List Char) : Option ExposedPort :=
  let token := trimMatches quoteChar (trimChars token)
  (portPair (parts (mainAndProtocol token).1)).bind (fun ends =>
    if ends.1 = 0 ∨ ends.2 = 0 then none else some ⟨ends.1,ends.2,(mainAndProtocol token).2,""⟩)

/-! ## The lines -/

def PORTS : List Char := ['p','o','r','t','s',':']

def isPorts (trimmed : List Char) : Bool := PORTS.isPrefixOf trimmed

/-- The indent and the text of a line, unless it is blank or a comment. -/
def content (line : List Char) : Option (ℕ × List Char) :=
  let trimmed := trimChars line
  if trimmed = [] ∨ trimmed.head? = some '#' then none else some ((line.takeWhile (· = ' ')).length,trimmed)

structure Reader where
  inPorts : Bool
  portsIndent : ℕ

def Reader.start : Reader := ⟨false,0⟩

def token (trimmed : List Char) : List Char := trimChars (trimmed.dropWhile (· = '-'))

/-- What one line makes of the reader, and the port that it gives. -/
def readLine (s : Reader) (line : List Char) : Reader × Option ExposedPort :=
  match content line with
  | none => (s,none)
  | some (indent,trimmed) =>
    if !s.inPorts then (if isPorts trimmed then ⟨true,indent⟩ else s,none)
    else if indent ≤ s.portsIndent then (if isPorts trimmed then ⟨true,indent⟩ else ⟨false,s.portsIndent⟩,none)
    else (s,parseMapping (token trimmed))

/-- What each line gives. -/
def readLines : Reader → List (List Char) → List (Option ExposedPort)
  | _, [] => []
  | s, line::rest => (readLine s line).2::readLines (readLine s line).1 rest

def portsFromCompose (body : List Char) (source : String) : List ExposedPort :=
  (readLines Reader.start (lines body)).reduceOption.map (fun port => { port with source := source })

/-! ## A file -/

/-- What an address is written with. -/
def ipChar (c : Char) : Bool := c.isAlphanum || c ∈ ['.',':','[',']','%']

/-- `[ip:]host:container[/proto]`. -/
structure Mapping where
  ip : Option (List Char)
  host : ℕ
  container : ℕ
  proto : Option (List Char)
  address : ∀ i ∈ ip, i ≠ [] ∧ ∀ c ∈ i, ipChar c = true
  hostPort : 0 < host ∧ host < 65536
  containerPort : 0 < container ∧ container < 65536
  name : ∀ p ∈ proto, eqIgnoreAsciiCase p UDP = true ∨ eqIgnoreAsciiCase p TCP = true

def Mapping.ends (m : Mapping) : List Char :=
  (m.ip.map (·++[':'])).getD []++(toString m.host).toList++ ':'::(toString m.container).toList

def Mapping.text (m : Mapping) : List Char := m.ends++(m.proto.map ('/'::·)).getD []

def Mapping.protocol (m : Mapping) : String := if m.proto.any (eqIgnoreAsciiCase · UDP) then "udp" else "tcp"

def Mapping.port (m : Mapping) (source : String) : ExposedPort := ⟨m.host,m.container,m.protocol,source⟩

inductive Quoting | bare | single | double
deriving DecidableEq, Repr

def Quoting.mark : Quoting → List Char
  | .bare => []
  | .single => [Char.ofNat 39]
  | .double => [Char.ofNat 34]

/-- One mapping of a block list, with the comment behind it. -/
structure Item where
  indent : ℕ
  gap : ℕ
  quoting : Quoting
  mapping : Mapping
  blanks : ℕ
  comment : Option (List Char)

def Item.word (i : Item) : List Char := i.quoting.mark++i.mapping.text++i.quoting.mark

def Item.tail (i : Item) : List Char := List.replicate i.blanks ' '++(i.comment.map (fun c => ' ':: '#'::c)).getD []

def Item.text (i : Item) : List Char :=
  List.replicate i.indent ' '++ '-'::(List.replicate (i.gap+1) ' '++(i.word++i.tail))

inductive Line
  | other (text : List Char)
  | item (i : Item)

def Line.text : Line → List Char
  | .other text => text
  | .item i => i.text

def Line.port (source : String) : Line → Option ExposedPort
  | .other _ => none
  | .item i => some (i.mapping.port source)

/-- Every item stands in the block of a key `ports:`, at its level or deeper. -/
def placedFrom : Option ℕ → List Line → Bool
  | _, [] => true
  | key, .item i::rest => key.any (· ≤ i.indent) && placedFrom key rest
  | key, .other text::rest => match content text with
    | none => placedFrom key rest
    | some (indent,trimmed) => placedFrom (if isPorts trimmed then some indent else none) rest

structure Compose where
  lines : List Line
  oneLine : ∀ l ∈ lines, '\n' ∉ l.text
  placed : placedFrom none lines = true

def Compose.text (d : Compose) : List Char := ['\n'].intercalate (d.lines.map Line.text)

/-- The mappings are found, each at its line, and no other line gives one. -/
structure FoundAll (d : Compose) (source : String) : Prop where
  ports : portsFromCompose d.text source = d.lines.filterMap (Line.port source)
  nothingElse : ∀ (k : ℕ) (text : List Char), d.lines[k]? = some (.other text) →
    (readLines Reader.start (d.lines.map Line.text))[k]? = some none

/-! ## The lines of a text -/

theorem stripCarriageReturn_cases (l : List Char) :
    stripCarriageReturn l = l ∨ l = stripCarriageReturn l++[carriageReturn] := by
  unfold stripCarriageReturn
  split
  · next h =>
    right
    have hne : l ≠ [] := by
      rintro rfl
      cases h
    rw [List.getLast?_eq_some_getLast hne] at h
    rw [← Option.some.inj h, List.dropLast_append_getLast hne]
  · exact .inl rfl

theorem content_stripCarriageReturn (l : List Char) : content (stripCarriageReturn l) = content l := by
  rcases stripCarriageReturn_cases l with heq | heq
  · rw [heq]
  · have htrim : trimChars (stripCarriageReturn l) = trimChars l := by
      have hend : trimEnd l = trimEnd (stripCarriageReturn l) := by
        conv => lhs; rw [heq]
        exact List.rdropWhile_concat_pos _ _ _ (by decide)
      rw [← trimChars_trimEnd (stripCarriageReturn l), ← hend, trimChars_trimEnd]
    have hindent : (stripCarriageReturn l).takeWhile (· = ' ') = l.takeWhile (· = ' ') := by
      conv => rhs; rw [heq]
      rw [List.takeWhile_append]
      split
      · rw [List.takeWhile_cons_of_neg (by decide), List.append_nil]
        next h => exact (List.takeWhile_prefix _).eq_of_length h
      · rfl
    rw [content, content, htrim, hindent]

theorem readLine_stripCarriageReturn (s : Reader) (l : List Char) : readLine s (stripCarriageReturn l) = readLine s l := by
  rw [readLine, readLine, content_stripCarriageReturn]

theorem readLine_blank (s : Reader) {l : List Char} (h : content l = none) : readLine s l = (s,none) := by
  rw [readLine, h]

theorem readLines_map (s : Reader) (ls : List (List Char)) :
    readLines s (ls.map stripCarriageReturn) = readLines s ls := by
  induction ls generalizing s with
  | nil => rfl
  | cons l ls ih => rw [List.map_cons, readLines, readLine_stripCarriageReturn, ih, readLines]

/-- The reader after some lines. -/
def after (s : Reader) (ls : List (List Char)) : Reader := ls.foldl (fun s l => (readLine s l).1) s

theorem readLines_append (s : Reader) (ls ls' : List (List Char)) :
    readLines s (ls++ls') = readLines s ls++readLines (after s ls) ls' := by
  induction ls generalizing s with
  | nil => rfl
  | cons l ls ih =>
    rw [List.cons_append, readLines, ih, readLines]
    rfl

/-- How the text ends makes no difference to what the lines give. -/
theorem readLines_lines (s : Reader) (cs : List Char) :
    (readLines s (lines cs)).reduceOption = (readLines s (cs.splitOn '\n')).reduceOption := by
  have hne : cs.splitOn '\n' ≠ [] := List.splitOn_ne_nil _ _
  rw [lines, List.getLast?_eq_some_getLast hne, readLines_append, readLines_map]
  conv => rhs; rw [← List.dropLast_append_getLast hne]
  rw [readLines_append, List.reduceOption_append, List.reduceOption_append]
  have hafter : ∀ ls s, after s (ls.map stripCarriageReturn) = after s ls := by
    intro ls
    induction ls with
    | nil => exact fun _ => rfl
    | cons l ls ih =>
      intro s
      have hcons : ∀ l ls, after s (l::ls) = after (readLine s l).1 ls := fun _ _ => rfl
      rw [List.map_cons, hcons, readLine_stripCarriageReturn, ih, hcons]
  rw [hafter]
  by_cases hlast : (cs.splitOn '\n').getLast hne = []
  · rw [hlast]
    have hblank := readLine_blank (after s (cs.splitOn '\n').dropLast) (l := []) rfl
    simp [readLines, hblank]
  · simp [hlast]

theorem readLines_get (s : Reader) (ls : List (List Char)) (k : ℕ) :
    (readLines s ls)[k]? = ls[k]?.map (fun l => (readLine (after s (ls.take k)) l).2) := by
  induction ls generalizing s k with
  | nil => rfl
  | cons l ls ih =>
    cases k with
    | zero => rfl
    | succ k =>
      rw [readLines, List.getElem?_cons_succ, List.getElem?_cons_succ, List.take_succ_cons]
      exact ih _ k

/-! ## The open block -/

/-- An earlier line begins with `ports:`, and every line since is deeper than it, as is a line of this indent. -/
def Under (before : List (List Char)) (n : ℕ) : Prop :=
  ∃ a h b m trimmed, before = a++h::b ∧ content h = some (m,trimmed) ∧ isPorts trimmed = true ∧ m < n ∧
    ∀ x ∈ b, ∀ m' t, content x = some (m',t) → m < m'

theorem under_nil (n : ℕ) : ¬Under [] n := by
  rintro ⟨a,h,b,m,t,heq,-⟩
  simp at heq

theorem under_concat_blank {before : List (List Char)} {x : List Char} (hx : content x = none) (n : ℕ) :
    Under (before++[x]) n ↔ Under before n := by
  constructor
  · rintro ⟨a,h,b,m,t,heq,hh,hp,hn,hb⟩
    rcases List.eq_nil_or_concat' b with rfl | ⟨b',y,rfl⟩
    · obtain ⟨-,hxh⟩ := List.append_inj' heq rfl
      obtain rfl := (List.cons.inj hxh).1
      rw [hx] at hh
      cases hh
    · rw [← List.cons_append, ← List.append_assoc] at heq
      obtain ⟨heq,-⟩ := List.append_inj' heq rfl
      exact ⟨a,h,b',m,t,heq,hh,hp,hn,fun z hz => hb z (List.mem_append_left _ hz)⟩
  · rintro ⟨a,h,b,m,t,rfl,hh,hp,hn,hb⟩
    refine ⟨a,h,b++[x],m,t,by simp,hh,hp,hn,fun z hz => ?_⟩
    rcases List.mem_append.mp hz with hz | hz
    · exact hb z hz
    · rw [List.mem_singleton.mp hz, hx]
      simp

theorem under_concat {before : List (List Char)} {x : List Char} {k : ℕ} {trimmed : List Char}
    (hx : content x = some (k,trimmed)) (n : ℕ) :
    Under (before++[x]) n ↔ (isPorts trimmed = true ∧ k < n) ∨ Under before (min k n) := by
  constructor
  · rintro ⟨a,h,b,m,t,heq,hh,hp,hn,hb⟩
    rcases List.eq_nil_or_concat' b with rfl | ⟨b',y,rfl⟩
    · obtain ⟨-,hxh⟩ := List.append_inj' heq rfl
      obtain rfl := (List.cons.inj hxh).1
      obtain ⟨rfl,rfl⟩ := Prod.mk.inj (Option.some.inj (hx.symm.trans hh))
      exact .inl ⟨hp,hn⟩
    · rw [← List.cons_append, ← List.append_assoc] at heq
      obtain ⟨hbefore,hxy⟩ := List.append_inj' heq rfl
      obtain rfl := (List.cons.inj hxy).1
      have hk := hb x (by simp) k trimmed hx
      exact .inr ⟨a,h,b',m,t,hbefore,hh,hp,by omega,fun z hz => hb z (List.mem_append_left _ hz)⟩
  · rintro (⟨hp,hn⟩ | ⟨a,h,b,m,t,rfl,hh,hp,hn,hb⟩)
    · exact ⟨before,x,[],k,trimmed,rfl,hx,hp,hn,by simp⟩
    · refine ⟨a,h,b++[x],m,t,by simp,hh,hp,by omega,fun z hz => ?_⟩
      rcases List.mem_append.mp hz with hz | hz
      · exact hb z hz
      · rw [List.mem_singleton.mp hz]
        intro m' t' hcontent
        obtain ⟨rfl,-⟩ := Prod.mk.inj (Option.some.inj (hx.symm.trans hcontent))
        omega

/-- The reader knows under which lines it is. -/
theorem after_under (before : List (List Char)) (n : ℕ) :
    ((after Reader.start before).inPorts = true ∧ (after Reader.start before).portsIndent < n) ↔ Under before n := by
  induction before using List.reverseRecOn generalizing n with
  | nil =>
    refine iff_of_false ?_ (under_nil n)
    rintro ⟨h,-⟩
    cases h
  | append_singleton before x ih =>
    have hstep : after Reader.start (before++[x]) = (readLine (after Reader.start before) x).1 := by
      rw [after, List.foldl_append]
      rfl
    rw [hstep]
    generalize after Reader.start before = s at ih
    cases hx : content x with
    | none =>
      rw [readLine_blank s hx, under_concat_blank hx]
      exact ih n
    | some c =>
      obtain ⟨k,trimmed⟩ := c
      rw [under_concat hx, ← ih]
      simp only [readLine, hx]
      by_cases hin : s.inPorts = true
      · by_cases hle : k ≤ s.portsIndent
        · by_cases hp : isPorts trimmed = true
          · simp [hin, hle, hp]
          · simp [hin, hle, hp]
        · by_cases hp : isPorts trimmed = true
          · simp [hin, hle, hp]
            omega
          · simp [hin, hle, hp]
            omega
      · by_cases hp : isPorts trimmed = true
        · simp [hin, hp]
        · simp [hin, hp]

/-- What a line gives: under a block, the mapping that its text is. -/
theorem readLine_under (before : List (List Char)) {line : List Char} {n : ℕ} {trimmed : List Char}
    (h : content line = some (n,trimmed)) :
    (Under before n → (readLine (after Reader.start before) line).2 = parseMapping (token trimmed)) ∧
    (¬Under before n → (readLine (after Reader.start before) line).2 = none) := by
  rw [← after_under before n]
  generalize after Reader.start before = s
  simp only [readLine, h]
  constructor
  · rintro ⟨hin,hlt⟩
    simp [hin, Nat.not_le.mpr hlt]
  · intro hnot
    by_cases hin : s.inPorts = true
    · have hle : n ≤ s.portsIndent := by
        by_contra hlt
        exact hnot ⟨hin,by omega⟩
      simp [hin, hle]
    · simp [hin]

/-! ## The text of an item -/

theorem trimEnd_word {w : List Char} (hne : w ≠ []) (hw : ∀ c ∈ w, isWhitespace c = false) (l m : List Char) :
    trimEnd (l++(w++m)) = l++(w++trimEnd m) := by
  rcases List.eq_nil_or_concat' w with rfl | ⟨w',c,rfl⟩
  · exact absurd rfl hne
  · have h := trimEnd_append (hw c (by simp)) (l++w') m
    simpa using h

theorem trimChars_word {w : List Char} (hne : w ≠ []) (hw : ∀ c ∈ w, isWhitespace c = false) (n : ℕ) (m : List Char) :
    trimChars (List.replicate n ' '++(w++m)) = w++trimEnd m := by
  have hdrop : (List.replicate n ' '++(w++m)).dropWhile isWhitespace = w++m := by
    rw [List.dropWhile_append_of_pos]
    · cases w with
      | nil => exact absurd rfl hne
      | cons c w => exact List.dropWhile_cons_of_neg (by simp [hw c List.mem_cons_self])
    · intro c hc
      rw [List.eq_of_mem_replicate hc]
      decide
  have hend := trimEnd_word hne hw [] m
  rw [trimChars_eq, hdrop]
  exact hend

/-- What a mapping is written with. -/
def textChar (c : Char) : Bool := c.isAlphanum || c ∈ ['.',':','[',']','%','/']

theorem textChar_plain {c : Char} (h : textChar c = true) :
    isWhitespace c = false ∧ quoteChar c = false ∧ c ≠ '-' ∧ c ≠ '#' ∧ c ≠ '\n' := by
  have hne : ∀ d, textChar d = false → c ≠ d := by
    rintro d hd rfl
    rw [h] at hd
    cases hd
  refine ⟨?_,?_,hne _ (by decide),hne _ (by decide),hne _ (by decide)⟩
  · rw [textChar, Bool.or_eq_true] at h
    rcases h with h | h
    · exact keyChar_not_space (by simp [keyChar, h])
    · simp only [decide_eq_true_eq, List.mem_cons, List.not_mem_nil, or_false] at h
      rcases h with rfl | rfl | rfl | rfl | rfl | rfl <;> decide
  · rw [quoteChar, Bool.eq_false_iff]
    intro hq
    rw [List.contains_iff_mem, quotes, List.mem_cons, List.mem_singleton] at hq
    rcases hq with hq | hq
    · exact hne _ (by decide) hq
    · exact hne _ (by decide) hq

theorem textChar_of_digit (n : ℕ) : ∀ c ∈ (toString n).toList, textChar c = true := by
  intro c hc
  have hdigit := FixedDigits.isDigit_of_mem_toString n c hc
  simp [textChar, Char.isAlphanum, hdigit]

theorem isAlphanum_of_toLower {c : Char} (h : c.toLower.isLower = true) : c.isAlphanum = true := by
  have halnum : c.isAlphanum = (c.isUpper || c.isLower || c.isDigit) := rfl
  by_cases hu : c.isUpper = true
  · rw [halnum, hu]
    rfl
  · have hupper : c.isUpper = decide (c.val ≥ 'A'.val ∧ c.val ≤ 'Z'.val) := rfl
    have hsame : c.toLower = c := dif_neg (fun hrange => hu (hupper ▸ decide_eq_true hrange))
    rw [hsame] at h
    rw [halnum, h, Bool.or_true, Bool.true_or]

theorem Mapping.proto_chars (m : Mapping) {p : List Char} (hp : m.proto = some p) :
    ∀ c ∈ p, c.isAlphanum = true := by
  intro c hc
  apply isAlphanum_of_toLower
  have hmem : c.toLower ∈ p.map Char.toLower := List.mem_map_of_mem hc
  rcases m.name p hp with h | h
  all_goals
    rw [of_decide_eq_true h] at hmem
    have hlower : (UDP.map Char.toLower).all Char.isLower = true ∧ (TCP.map Char.toLower).all Char.isLower = true := by
      decide
    first
      | exact List.all_eq_true.mp hlower.1 _ hmem
      | exact List.all_eq_true.mp hlower.2 _ hmem

theorem Mapping.ends_chars (m : Mapping) : ∀ c ∈ m.ends, textChar c = true ∧ c ≠ '/' := by
  have hslash : ∀ n : ℕ, ∀ c ∈ (toString n).toList, textChar c = true ∧ c ≠ '/' := by
    intro n c hc
    refine ⟨textChar_of_digit n c hc,?_⟩
    rintro rfl
    exact absurd (FixedDigits.isDigit_of_mem_toString n _ hc) (by decide)
  intro c hc
  simp only [Mapping.ends, List.mem_append, List.mem_cons] at hc
  rcases hc with (hc | hc) | rfl | hc
  · cases hip : m.ip with
    | none =>
      rw [hip] at hc
      cases hc
    | some ip =>
      rw [hip, Option.map_some, Option.getD_some, List.mem_append, List.mem_singleton] at hc
      rcases hc with hc | rfl
      · have hchar := (m.address ip hip).2 c hc
        constructor
        · simp only [ipChar, textChar, Bool.or_eq_true, decide_eq_true_eq, List.mem_cons, List.not_mem_nil,
            or_false] at hchar ⊢
          tauto
        · rintro rfl
          exact absurd hchar (by decide)
      · decide
  · exact hslash _ c hc
  · decide
  · exact hslash _ c hc

theorem Mapping.text_chars (m : Mapping) : ∀ c ∈ m.text, textChar c = true := by
  intro c hc
  rcases List.mem_append.mp hc with hc | hc
  · exact (m.ends_chars c hc).1
  · cases hp : m.proto with
    | none =>
      rw [hp] at hc
      cases hc
    | some p =>
      rw [hp, Option.map_some, Option.getD_some, List.mem_cons] at hc
      rcases hc with rfl | hc
      · decide
      · simp [textChar, m.proto_chars hp c hc]

theorem Mapping.ends_ne_nil (m : Mapping) : m.ends ≠ [] := by simp [Mapping.ends]

theorem mark_chars (q : Quoting) : ∀ c ∈ q.mark, isWhitespace c = false ∧ quoteChar c = true ∧ c ≠ '-' := by
  cases q with
  | bare => simp [Quoting.mark]
  | single => intro c hc; rw [List.mem_singleton.mp hc]; decide
  | double => intro c hc; rw [List.mem_singleton.mp hc]; decide

theorem Item.word_plain (i : Item) : ∀ c ∈ i.word, isWhitespace c = false ∧ c ≠ '-' := by
  intro c hc
  rcases List.mem_append.mp hc with hc | hc
  · rcases List.mem_append.mp hc with hc | hc
    · exact ⟨(mark_chars _ c hc).1,(mark_chars _ c hc).2.2⟩
    · have h := textChar_plain (i.mapping.text_chars c hc)
      exact ⟨h.1,h.2.2.1⟩
  · exact ⟨(mark_chars _ c hc).1,(mark_chars _ c hc).2.2⟩

theorem Item.word_ne_nil (i : Item) : i.word ≠ [] := by
  have := i.mapping.ends_ne_nil
  simp [Item.word, Mapping.text, this]

/-- The line of an item, and the token that is read in it. -/
theorem Item.content_text (i : Item) : content i.text =
    some (i.indent, '-'::(List.replicate (i.gap+1) ' '++(i.word++trimEnd i.tail))) := by
  have htrim : trimChars i.text = '-'::(List.replicate (i.gap+1) ' '++(i.word++trimEnd i.tail)) := by
    have hdash := trimChars_word (w := ['-']) (by simp) (List.forall_mem_singleton.2 (by decide)) i.indent
      (List.replicate (i.gap+1) ' '++(i.word++i.tail))
    rw [trimEnd_word i.word_ne_nil (fun c hc => (i.word_plain c hc).1)] at hdash
    exact hdash
  have hindent : (i.text.takeWhile (· = ' ')).length = i.indent := by
    rw [Item.text, List.takeWhile_append_of_pos (fun c hc => by simp [List.eq_of_mem_replicate hc]),
      List.takeWhile_cons_of_neg (by decide), List.append_nil, List.length_replicate]
  rw [content]
  simp only [htrim, hindent]
  rw [if_neg (by simp)]

theorem Item.token_text (i : Item) :
    token ('-'::(List.replicate (i.gap+1) ' '++(i.word++trimEnd i.tail))) = i.word++trimEnd i.tail := by
  have hdrop : ('-'::(List.replicate (i.gap+1) ' '++(i.word++trimEnd i.tail))).dropWhile (· = '-') =
      List.replicate (i.gap+1) ' '++(i.word++trimEnd i.tail) := by
    rw [List.dropWhile_cons_of_pos (by decide), List.replicate_succ, List.cons_append,
      List.dropWhile_cons_of_neg (by decide)]
  rw [token, hdrop, trimChars_word i.word_ne_nil (fun c hc => (i.word_plain c hc).1), trimEnd_self]

/-! ## The mapping of an item -/

theorem Mapping.text_ne_nil (m : Mapping) : m.text ≠ [] := by
  have := m.ends_ne_nil
  simp [Mapping.text, this]

theorem dropWhile_mark (q : Quoting) (m : Mapping) (rest : List Char) :
    (q.mark++(m.text++rest)).dropWhile quoteChar = m.text++rest := by
  rw [List.dropWhile_append_of_pos (fun c hc => (mark_chars q c hc).2.1)]
  cases ht : m.text with
  | nil => exact absurd ht m.text_ne_nil
  | cons c text =>
    have hc := (textChar_plain (m.text_chars c (ht ▸ List.mem_cons_self))).2.1
    exact List.dropWhile_cons_of_neg (by simp [hc])

/-- Without a comment the quotes are taken off. -/
theorem trimMatches_word (i : Item) : trimMatches quoteChar i.word = i.mapping.text := by
  rw [trimMatches, Item.word, List.append_assoc, dropWhile_mark, rdropWhile_all (fun c hc => (mark_chars _ c hc).2.1)]
  obtain ⟨text,c,ht⟩ := (List.eq_nil_or_concat' i.mapping.text).resolve_left i.mapping.text_ne_nil
  have hc := (textChar_plain (i.mapping.text_chars c (by simp [ht]))).2.1
  rw [ht, List.rdropWhile_concat_neg _ _ _ (by simp [hc])]

theorem parts_append (a b : List Char) : parts (a++ ':'::b) = parts a++parts b := by
  rw [parts, List.splitOn_append_cons_self, List.filter_append]
  rfl

theorem parts_number (n : ℕ) : parts (toString n).toList = [(toString n).toList] := by
  have hcolon : ':' ∉ (toString n).toList :=
    fun h => absurd (FixedDigits.isDigit_of_mem_toString n _ h) (by decide)
  have hne : (toString n).toList.isEmpty = false := by
    cases hn : (toString n).toList with
    | nil =>
      have hd := digits_toString n
      rw [hn] at hd
      cases hd
    | cons c cs => rfl
  rw [parts, List.splitOn_eq_singleton hcolon]
  simp [hne]

/-- The parts of the address. -/
def Mapping.ipParts (m : Mapping) : List (List Char) := (m.ip.map parts).getD []

def Mapping.front (m : Mapping) : List Char := (m.ip.map (·++[':'])).getD []++(toString m.host).toList

theorem Mapping.parts_front (m : Mapping) : parts m.front = m.ipParts++[(toString m.host).toList] := by
  cases hip : m.ip with
  | none =>
    have heq : m.front = (toString m.host).toList := by
      rw [Mapping.front, hip]
      rfl
    rw [heq, parts_number, Mapping.ipParts, hip]
    rfl
  | some ip =>
    have heq : m.front = ip++ ':'::(toString m.host).toList := by simp [Mapping.front, hip]
    rw [heq, parts_append, parts_number, Mapping.ipParts, hip]
    rfl

theorem Mapping.ends_eq (m : Mapping) : m.ends = m.front++ ':'::(toString m.container).toList := rfl

theorem parseU16_toString {n : ℕ} (h : n < 65536) : parseU16 (toString n).toList = some n := by
  have hplus : ∀ rest, (toString n).toList ≠ '+'::rest := by
    intro rest heq
    have hdigit := FixedDigits.isDigit_of_mem_toString n '+' (heq ▸ List.mem_cons_self)
    exact absurd hdigit (by decide)
  unfold parseU16
  split
  · next rest heq => exact absurd heq (hplus rest)
  · dsimp only
    rw [digits_toString, Option.filter_some, if_pos (by simpa using h)]

theorem portPair_ends (m : Mapping) : portPair (parts m.ends) = if m.ipParts.length ≤ 1 then some (m.host,m.container) else none := by
  have hpair : (parseU16 (toString m.host).toList).bind (fun h =>
      (parseU16 (toString m.container).toList).map (fun c => (h,c))) = some (m.host,m.container) := by
    rw [parseU16_toString m.hostPort.2, parseU16_toString m.containerPort.2]
    rfl
  rw [m.ends_eq, parts_append, m.parts_front, parts_number, List.append_assoc]
  cases m.ipParts with
  | nil => exact hpair
  | cons a rest =>
    cases rest with
    | nil => exact hpair
    | cons b rest =>
      rw [if_neg (by simp)]
      cases rest with
      | nil => rfl
      | cons c rest => cases rest <;> rfl

theorem rsplitOnce_append {sep : Char} {b : List Char} (h : sep ∉ b) (a : List Char) :
    rsplitOnce sep (a++sep::b) = some (a,b) := by
  have hrev : (a++sep::b).reverse = b.reverse++sep::a.reverse := by simp
  have hb : ∀ x ∈ b.reverse, decide (x ≠ sep) = true :=
    fun x hx => decide_eq_true (fun heq => h (heq ▸ List.mem_reverse.mp hx))
  rw [rsplitOnce, if_pos (by simp), hrev, List.dropWhile_append_of_pos hb, List.takeWhile_append_of_pos hb]
  simp

theorem rsplitOnce_none {sep : Char} {l : List Char} (h : sep ∉ l) : rsplitOnce sep l = none := if_neg h

theorem Mapping.mainAndProtocol_text (m : Mapping) : mainAndProtocol m.text = (m.ends,m.protocol) := by
  have hends : '/' ∉ m.ends := fun h => (m.ends_chars _ h).2 rfl
  cases hp : m.proto with
  | none =>
    have ht : m.text = m.ends := by simp [Mapping.text, hp]
    rw [ht, mainAndProtocol, rsplitOnce_none hends, Mapping.protocol, hp]
    rfl
  | some p =>
    have ht : m.text = m.ends++ '/'::p := by simp [Mapping.text, hp]
    have hslash : '/' ∉ p := fun h => absurd (m.proto_chars hp _ h) (by decide)
    rw [ht, mainAndProtocol, rsplitOnce_append hslash, Mapping.protocol, hp]
    simp only [Option.any_some]
    by_cases hudp : eqIgnoreAsciiCase p UDP = true
    · rw [if_pos hudp, if_pos hudp]
    · rw [if_neg hudp, if_neg hudp, if_pos ((m.name p hp).resolve_left hudp)]

/-- The mapping is read unless its address has several parts. -/
theorem parseMapping_word (i : Item) :
    parseMapping i.word = if i.mapping.ipParts.length ≤ 1 then some (i.mapping.port "") else none := by
  have hnonzero := i.mapping.hostPort.1
  have hnonzero' := i.mapping.containerPort.1
  have htrim : trimChars i.word = i.word := trimChars_key (fun c hc => (i.word_plain c hc).1)
  unfold parseMapping
  simp only [htrim, trimMatches_word, Mapping.mainAndProtocol_text, portPair_ends]
  split
  · rw [Option.bind_some, if_neg (by simp; omega)]
    rfl
  · rfl

/-! ## A comment behind an item -/

theorem parseU16_hash {x : List Char} (h : '#' ∈ x) : parseU16 x = none := by
  have hdigits : ∀ l : List Char, '#' ∈ l → digits l = none := by
    intro l hl
    rw [digits, if_pos]
    rw [Bool.or_eq_true]
    exact .inr (List.any_eq_true.mpr ⟨'#',hl,by decide⟩)
  unfold parseU16
  split
  · next rest =>
    have hrest : '#' ∈ rest := (List.mem_cons.mp h).resolve_left (by decide)
    dsimp only
    rw [hdigits rest hrest]
    rfl
  · dsimp only
    rw [hdigits x h]
    rfl

theorem portPair_hash {X Y : List (List Char)} (hX : X ≠ []) (hY : ∃ y ∈ Y, '#' ∈ y) : portPair (X++Y) = none := by
  obtain ⟨y,hy,hash⟩ := hY
  have hnone := parseU16_hash hash
  cases X with
  | nil => exact absurd rfl hX
  | cons a X =>
    cases X with
    | nil =>
      cases Y with
      | nil => cases hy
      | cons b Y =>
        cases Y with
        | nil =>
          rw [List.mem_singleton] at hy
          subst hy
          simp [portPair, hnone]
        | cons c Y =>
          cases Y with
          | nil =>
            rcases List.mem_cons.mp hy with rfl | hy
            · simp [portPair, hnone]
            · rw [List.mem_singleton] at hy
              subst hy
              simp [portPair, hnone]
          | cons d Y => rfl
    | cons b X =>
      cases X with
      | nil =>
        cases Y with
        | nil => cases hy
        | cons c Y =>
          cases Y with
          | nil =>
            rw [List.mem_singleton] at hy
            subst hy
            simp [portPair, hnone]
          | cons d Y => rfl
      | cons c X => cases X <;> cases Y <;> first | rfl | cases hy

theorem rsplitOnce_eq {sep : Char} {l a b : List Char} (h : rsplitOnce sep l = some (a,b)) : l = a++sep::b := by
  unfold rsplitOnce at h
  split at h
  · next hmem =>
    obtain ⟨rfl,rfl⟩ := Prod.mk.inj (Option.some.inj h)
    have hdrop := SeparatedParts.dropWhile_ne_eq_cons sep (List.mem_reverse.mpr hmem)
    have hsplit : l.reverse = l.reverse.takeWhile (· ≠ sep)++sep::(l.reverse.dropWhile (· ≠ sep)).tail := by
      rw [← hdrop, List.takeWhile_append_dropWhile]
    have hl := congrArg List.reverse hsplit
    rw [List.reverse_reverse] at hl
    conv => lhs; rw [hl]
    simp
  · cases h

/-- What stands behind a comment sign is never a protocol, so the sign stays in the second part. -/
theorem mainAndProtocol_hash {A B : List Char} (hA : '/' ∉ A) (hB : '#' ∈ B) :
    ∃ B', '#' ∈ B' ∧ (mainAndProtocol (A++ ':'::B)).1 = A++ ':'::B' := by
  unfold mainAndProtocol
  split
  · next main proto hsplit =>
    have hname : (eqIgnoreAsciiCase proto UDP = true ∨ eqIgnoreAsciiCase proto TCP = true) →
        ∃ B', '#' ∈ B' ∧ main = A++ ':'::B' := by
      intro hname
      have hproto : '#' ∉ proto := by
        intro hmem
        have hlow : '#' ∈ proto.map Char.toLower := List.mem_map_of_mem (f := Char.toLower) hmem
        rcases hname with h | h
        · rw [of_decide_eq_true h] at hlow
          exact absurd hlow (by decide)
        · rw [of_decide_eq_true h] at hlow
          exact absurd hlow (by decide)
      have heq : (A++[':'])++B = main++ '/'::proto := by
        rw [← rsplitOnce_eq hsplit]
        simp
      rcases List.append_eq_append_iff.mp heq with ⟨a,rfl,hb⟩ | ⟨c,hA',hc⟩
      · refine ⟨a,?_,by simp⟩
        rw [hb] at hB
        rcases List.mem_append.mp hB with h | h
        · exact h
        · exact absurd ((List.mem_cons.mp h).resolve_left (by decide)) hproto
      · cases c with
        | nil =>
          rw [List.nil_append] at hc
          rw [← hc] at hB
          exact absurd ((List.mem_cons.mp hB).resolve_left (by decide)) hproto
        | cons d c =>
          obtain ⟨rfl,-⟩ := List.cons.inj hc
          have hmem : '/' ∈ A++[':'] := hA' ▸ List.mem_append_right main List.mem_cons_self
          rcases List.mem_append.mp hmem with h | h
          · exact absurd h hA
          · exact absurd (List.mem_singleton.mp h) (by decide)
    split
    · next h => exact hname (.inl h)
    · split
      · next h => exact hname (.inr h)
      · exact ⟨B,hB,rfl⟩
  · exact ⟨B,hB,rfl⟩

theorem Mapping.front_chars (m : Mapping) : '/' ∉ m.front := by
  intro h
  exact (m.ends_chars '/' (by rw [m.ends_eq]; exact List.mem_append_left _ h)).2 rfl

/-- An item with a comment behind it is not read. -/
theorem parseMapping_comment (i : Item) {c : List Char} (hc : i.comment = some c) :
    parseMapping (i.word++trimEnd i.tail) = none := by
  have htail : trimEnd i.tail = List.replicate i.blanks ' '++ ' ':: '#'::trimEnd c := by
    have heq : i.tail = (List.replicate i.blanks ' '++[' '])++ '#'::c := by simp [Item.tail, hc]
    rw [heq, trimEnd_append (by decide)]
    simp
  have htrim : trimChars (i.word++trimEnd i.tail) = i.word++trimEnd i.tail := by
    have h := trimChars_word i.word_ne_nil (fun c hc => (i.word_plain c hc).1) 0 (trimEnd i.tail)
    rw [trimEnd_self] at h
    exact h
  obtain ⟨B,hB,htoken⟩ : ∃ B, '#' ∈ B ∧ trimMatches quoteChar (i.word++trimEnd i.tail) = i.mapping.front++ ':'::B := by
    have hword : i.word++trimEnd i.tail = i.quoting.mark++(i.mapping.text++
        ((i.quoting.mark++List.replicate i.blanks ' '++[' '])++ '#'::trimEnd c)) := by
      rw [htail]
      simp [Item.word]
    rw [trimMatches, hword, dropWhile_mark, ← List.append_assoc, rdropWhile_last (by decide), Mapping.text, i.mapping.ends_eq]
    refine ⟨_,?_,by rw [List.append_assoc, List.append_assoc, List.append_assoc, List.cons_append]⟩
    simp
  obtain ⟨B',hB',hmain⟩ := mainAndProtocol_hash i.mapping.front_chars hB
  unfold parseMapping
  simp only [htrim, htoken, hmain, parts_append]
  rw [portPair_hash]
  · rfl
  · rw [i.mapping.parts_front]
    simp
  · obtain ⟨part,hpart,hin⟩ := SeparatedParts.exists_part ':' hB' (by decide)
    refine ⟨part,List.mem_filter.mpr ⟨hpart,?_⟩,hin⟩
    cases part with
    | nil => cases hin
    | cons => rfl

/-! ## The whole file -/

/-- What an item gives where it is read: its mapping or nothing. -/
theorem parseMapping_item (i : Item) : parseMapping (i.word++trimEnd i.tail) =
    if i.comment = none ∧ i.mapping.ipParts.length ≤ 1 then some (i.mapping.port "") else none := by
  cases hc : i.comment with
  | some c => rw [parseMapping_comment i hc, if_neg (by simp)]
  | none =>
    have htail : trimEnd i.tail = [] := by
      apply trimEnd_all
      intro c hcmem
      rw [Item.tail, hc] at hcmem
      simp only [Option.map_none, Option.getD_none, List.append_nil] at hcmem
      rw [List.eq_of_mem_replicate hcmem]
      decide
    rw [htail, List.append_nil, parseMapping_word]
    simp

/-- An item stands under a line of ports, is written without a comment, and its address has one part between colons;
another line under a line of ports is no mapping. -/
def ReadAlone (before : List (List Char)) : Line → Prop
  | .item i => Under before i.indent ∧ i.comment = none ∧ i.mapping.ipParts.length ≤ 1
  | .other text => ∀ n trimmed, content text = some (n,trimmed) → Under before n → parseMapping (token trimmed) = none

def Legible (d : Compose) : Prop :=
  ∀ (k : ℕ) (l : Line), d.lines[k]? = some l → ReadAlone ((d.lines.map Line.text).take k) l

theorem readLine_item (before : List (List Char)) (i : Item) :
    (readLine (after Reader.start before) i.text).2 = none ∨
      (readLine (after Reader.start before) i.text).2 = some (i.mapping.port "") := by
  obtain ⟨hin,hout⟩ := readLine_under before i.content_text
  by_cases h : Under before i.indent
  · rw [hin h, i.token_text, parseMapping_item]
    split
    · exact .inr rfl
    · exact .inl rfl
  · exact .inl (hout h)

theorem readLine_item_iff (before : List (List Char)) (i : Item) :
    (readLine (after Reader.start before) i.text).2 = some (i.mapping.port "") ↔ ReadAlone before (.item i) := by
  obtain ⟨hin,hout⟩ := readLine_under before i.content_text
  rw [ReadAlone]
  by_cases h : Under before i.indent
  · rw [hin h, i.token_text, parseMapping_item]
    by_cases hread : i.comment = none ∧ i.mapping.ipParts.length ≤ 1
    · rw [if_pos hread]
      exact iff_of_true rfl ⟨h,hread⟩
    · rw [if_neg hread]
      exact iff_of_false (by simp) (fun hc => hread hc.2)
  · rw [hout h]
    exact iff_of_false (by simp) (fun hc => h hc.1)

theorem readLine_other_iff (before : List (List Char)) (text : List Char) :
    (readLine (after Reader.start before) text).2 = none ↔ ReadAlone before (.other text) := by
  rw [ReadAlone]
  cases hc : content text with
  | none =>
    rw [readLine_blank _ hc]
    simp
  | some c =>
    obtain ⟨n,trimmed⟩ := c
    obtain ⟨hin,hout⟩ := readLine_under before hc
    by_cases h : Under before n
    · rw [hin h]
      constructor
      · intro hnone n' trimmed' heq _
        obtain ⟨-,rfl⟩ := Prod.mk.inj (Option.some.inj heq)
        exact hnone
      · exact fun hnone => hnone n trimmed rfl h
    · rw [hout h]
      refine iff_of_true rfl (fun n' trimmed' heq hunder => ?_)
      obtain ⟨rfl,-⟩ := Prod.mk.inj (Option.some.inj heq)
      exact absurd hunder h

/-- Texts that give at most what they should, and as many of them, give what they should. -/
theorem eq_of_reduceOption {α : Type} {xs ys : List (Option α)} (h : List.Forall₂ (fun x y => x = none ∨ x = y) xs ys)
    (hlen : xs.reduceOption.length = ys.reduceOption.length) : xs = ys := by
  have hle : ∀ {xs ys : List (Option α)}, List.Forall₂ (fun x y => x = none ∨ x = y) xs ys →
      xs.reduceOption.length ≤ ys.reduceOption.length := by
    intro xs ys h
    induction h with
    | nil => exact le_refl _
    | @cons x y xs ys hxy _ ih =>
      rcases hxy with rfl | rfl
      · exact ih.trans (by cases y <;> simp)
      · cases x <;> simp [ih]
  induction h with
  | nil => rfl
  | @cons x y xs ys hxy hrest ih =>
    rcases hxy with rfl | rfl
    · cases y with
      | none => rw [ih (by simpa using hlen)]
      | some b =>
        have := hle hrest
        simp at hlen
        omega
    · rw [ih (by cases x <;> simpa using hlen)]

section
variable (d : Compose) (source : String)

/-- What each line should give. -/
def Compose.expected : List (Option ExposedPort) := d.lines.map (Line.port "")

def Compose.given : List (Option ExposedPort) := readLines Reader.start (d.lines.map Line.text)

theorem portsFromCompose_text : portsFromCompose d.text source =
    d.given.reduceOption.map (fun port => { port with source := source }) := by
  rw [portsFromCompose, readLines_lines, Compose.given]
  by_cases h : d.lines = []
  · rw [Compose.text, h]
    rfl
  · rw [Compose.text, List.splitOn_intercalate]
    · intro text htext
      obtain ⟨l,hl,rfl⟩ := List.mem_map.mp htext
      exact d.oneLine l hl
    · simpa using h

theorem expected_ports : d.lines.filterMap (Line.port source) =
    d.expected.reduceOption.map (fun port => { port with source := source }) := by
  rw [Compose.expected, ← List.reduceOption_map, List.map_map]
  induction d.lines with
  | nil => rfl
  | cons l ls ih =>
    cases l with
    | other text =>
      have hport : Line.port source (.other text) = none := rfl
      rw [List.filterMap_cons_none hport, List.map_cons, ih]
      exact (List.reduceOption_cons_of_none _).symm
    | item i =>
      have hport : Line.port source (.item i) = some (i.mapping.port source) := rfl
      rw [List.filterMap_cons_some hport, List.map_cons, ih]
      exact (List.reduceOption_cons_of_some _ _).symm

theorem given_get (k : ℕ) : d.given[k]? = d.lines[k]?.map (fun l =>
    (readLine (after Reader.start ((d.lines.map Line.text).take k)) l.text).2) := by
  rw [Compose.given, readLines_get, List.getElem?_map, Option.map_map]
  rfl

theorem given_length : d.given.length = d.lines.length := by
  have hlen : ∀ ls s, (readLines s ls).length = ls.length := by
    intro ls
    induction ls with
    | nil => exact fun _ => rfl
    | cons l ls ih =>
      intro s
      rw [readLines, List.length_cons, ih, List.length_cons]
  rw [Compose.given, hlen, List.length_map]

/-- Every line gives what it should exactly when every line is legible. -/
theorem given_eq_iff : d.given = d.expected ↔ Legible d := by
  have hline : ∀ (k : ℕ) (l : Line), d.lines[k]? = some l →
      (d.given[k]? = d.expected[k]? ↔ ReadAlone ((d.lines.map Line.text).take k) l) := by
    intro k l hl
    rw [given_get, hl, Compose.expected, List.getElem?_map, hl, Option.map_some, Option.map_some, Option.some_inj]
    cases l with
    | other text => exact readLine_other_iff _ text
    | item i => exact readLine_item_iff _ i
  constructor
  · intro h k l hl
    exact (hline k l hl).mp (by rw [h])
  · intro h
    apply List.ext_getElem?
    intro k
    cases hl : d.lines[k]? with
    | some l => exact (hline k l hl).mpr (h k l hl)
    | none => rw [given_get, hl, Compose.expected, List.getElem?_map, hl, Option.map_none, Option.map_none]

theorem foundAll_iff : FoundAll d source ↔ Legible d := by
  rw [← given_eq_iff]
  constructor
  · rintro ⟨hports,hnothing⟩
    rw [portsFromCompose_text, expected_ports] at hports
    apply eq_of_reduceOption
    · apply List.forall₂_iff_get.mpr
      refine ⟨by rw [given_length, Compose.expected, List.length_map],fun k hk hk' => ?_⟩
      have hlines : k < d.lines.length := given_length d ▸ hk
      have hgiven := given_get d k
      have hexpected : d.expected[k]? = some (d.lines[k].port "") := by
        rw [Compose.expected, List.getElem?_map, List.getElem?_eq_getElem hlines, Option.map_some]
      rw [List.getElem?_eq_getElem hk, List.getElem?_eq_getElem hlines, Option.map_some, Option.some_inj] at hgiven
      rw [List.getElem?_eq_getElem hk', Option.some_inj] at hexpected
      rw [List.get_eq_getElem, List.get_eq_getElem, hexpected, hgiven]
      cases hl : d.lines[k] with
      | other text =>
        left
        have hnone := hnothing k text (by rw [List.getElem?_eq_getElem hlines, hl])
        have hg := given_get d k
        rw [Compose.given, hnone, List.getElem?_eq_getElem hlines, hl, Option.map_some, Option.some_inj] at hg
        exact hg.symm
      | item i => exact readLine_item _ i
    · have hlen := congrArg List.length hports
      rwa [List.length_map, List.length_map] at hlen
  · intro h
    constructor
    · rw [portsFromCompose_text, expected_ports, h]
    · intro k text hk
      have hget : d.given[k]? = d.expected[k]? := by rw [h]
      rw [Compose.expected, List.getElem?_map, hk] at hget
      exact hget

end

/-- One service, whose port stands at the level of its key. -/
def webService : Compose where
  lines := [.other "services:".toList,.other "  web:".toList,.other "    ports:".toList,
    .item ⟨4,0,.double,⟨none,8080,80,none,by simp,by decide,by decide,by simp⟩,0,none⟩]
  oneLine := by decide +kernel
  placed := by decide +kernel

theorem level_ports_lost : ¬∀ (d : Compose) (source : String), FoundAll d source := by
  intro h
  have hports := (h webService "compose.yml").ports
  have hnone : portsFromCompose webService.text "compose.yml" = [] := by decide +kernel
  rw [hnone] at hports
  exact absurd hports (by decide +kernel)

end DevForge.ComposePorts
