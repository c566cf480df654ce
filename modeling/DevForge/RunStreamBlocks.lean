import DevForge.FixedDigits
import DevForge.RunStream

/-!
# The blocks of a run's stream

What the client reads in the blocks that the server writes, and in the parts of them that are
left when a stream ends.
-/

set_option autoImplicit false

namespace DevForge.RunStreamBlocks
open JsonText RunAccumulator RunStream

/-! ## Characters -/

theorem utf8_code : StreamDecoder.Code decodeChar 4 String.utf8EncodeChar := by
  have hwhole : ∀ c : Char, decodeChar (String.utf8EncodeChar c) = some c := by
    intro c
    have h := ByteArray.utf8DecodeChar?_utf8EncodeChar_append (b := ByteArray.empty) (c := c)
    rw [ByteArray.append_empty] at h
    rw [decodeChar, h, Option.filter_some, String.length_utf8EncodeChar]
    simp
  constructor
  · exact fun c => String.utf8EncodeChar_ne_nil
  · exact hwhole
  · intro c p q h hq
    rw [decodeChar, Option.filter_eq_none_iff]
    intro c' hc' hsize
    have hsize : c'.utf8Size = p.length := by simpa using hsize
    have hp := String.toByteArray_utf8EncodeChar_of_utf8DecodeChar?_eq_some hc'
    have hsame : String.utf8EncodeChar c' = p := by
      apply List.toByteArray_inj.mp
      rw [hp, hsize, ← List.size_toByteArray, ByteArray.extract_zero_size]
    -- the same units would begin two words
    have hbegin := ByteArray.utf8DecodeChar?_utf8EncodeChar_append (b := q.toByteArray) (c := c')
    rw [hsame, ← List.toByteArray_append, ← h] at hbegin
    have hchar := hwhole c
    rw [decodeChar, hbegin, Option.filter_some] at hchar
    split at hchar
    · rw [Option.some.inj hchar] at hsame
      rw [hsame] at h
      exact hq (List.append_cancel_left (h.symm.trans (List.append_nil p).symm))
    · simp at hchar
  · intro c
    rw [String.length_utf8EncodeChar]
    exact c.utf8Size_le_four

/-! ## Trimming -/

theorem dropWhile_of_head {p : Char → Bool} {cs : List Char} (h : ∀ c ∈ cs.head?, p c = false) :
    cs.dropWhile p = cs := by
  cases cs with
  | nil => rfl
  | cons c cs => exact List.dropWhile_cons_of_neg (by simp [h c rfl])

theorem trimList_of_ends {cs : List Char} (hf : ∀ c ∈ cs.head?, jsWhitespace c = false)
    (hl : ∀ c ∈ cs.getLast?, jsWhitespace c = false) : trimList cs = cs := by
  rw [trimList, dropWhile_of_head hf, dropWhile_of_head (by simpa using hl), List.reverse_reverse]

theorem trimList_concat (cs : List Char) {w : Char} (hw : jsWhitespace w = true) :
    trimList (cs++[w]) = trimList cs := by
  have hone : [w].dropWhile jsWhitespace = [] := by simp [hw]
  rw [trimList, trimList, List.dropWhile_append, hone]
  split
  · rename_i hempty
    rw [List.isEmpty_iff.mp hempty]
  · rw [List.reverse_append, List.reverse_singleton, List.singleton_append,
      List.dropWhile_cons_of_pos hw]

/-- A text that does not begin with a blank is trimmed to a beginning of it. -/
theorem trimList_start {cs : List Char} (hf : ∀ c ∈ cs.head?, jsWhitespace c = false) :
    trimList cs <+: cs := by
  rw [trimList, dropWhile_of_head hf]
  have h := List.reverse_prefix.mpr (List.dropWhile_suffix jsWhitespace (l := cs.reverse))
  rwa [List.reverse_reverse] at h

theorem trimList_last (cs : List Char) {c : Char} (h : (trimList cs).getLast? = some c) :
    jsWhitespace c = false := by
  rw [trimList, List.getLast?_reverse] at h
  have hd := List.head?_dropWhile_not jsWhitespace (cs.dropWhile jsWhitespace).reverse
  rw [h] at hd
  simpa using hd

theorem head?_mem {cs : List Char} {c : Char} (h : cs.head? = some c) : c ∈ cs :=
  List.mem_of_mem_head? h

/-! ## Numbers -/

theorem toString_ne_empty (n : ℕ) : toString n ≠ "" := by
  intro h
  have hl := congrArg String.toList h
  have hd : (toString n).toList = Nat.toDigits 10 n := Nat.toList_repr
  rw [hd] at hl
  exact Nat.toDigits_ne_nil hl

theorem sequenceOf_toString (n : ℕ) : sequenceOf (toString n) = some (toDouble n) := by
  have hd : (toString n).toList = Nat.toDigits 10 n := Nat.toList_repr
  rw [sequenceOf, if_pos ⟨toString_ne_empty n,List.all_eq_true.mpr (FixedDigits.isDigit_of_mem_toString n)⟩, hd]
  congr 2
  exact Nat.ofDigitChars_ten_toDigits

/-- Up to 2^53, every integer is a number. -/
theorem toDouble_of_le {n : ℕ} (h : n ≤ 2^53) : toDouble n = n := by
  by_cases hlt : n < 2^53
  · have hlog : n.log2-52 = 0 := by
      by_cases h0 : n = 0
      · subst h0
        rfl
      · have := (Nat.log2_lt h0).mpr hlt
        omega
    simp [toDouble, hlog, Nat.mod_one]
  · have he : n = 2^53 := by omega
    subst he
    decide +kernel

theorem digit_not_blank {c : Char} (h : c.isDigit = true) : jsWhitespace c = false ∧ c ≠ '\n' := by
  have hrange : 48 ≤ c.toNat ∧ c.toNat ≤ 57 := by
    simpa [Char.isDigit, UInt32.le_iff_toNat_le] using h
  have hall : ∀ m < 58, 48 ≤ m → jsWhitespace (Char.ofNat m) = false := by decide
  have hc := hall c.toNat (by omega) hrange.1
  rw [Char.ofNat_toNat] at hc
  refine ⟨hc,?_⟩
  rintro rfl
  exact absurd h (by decide)

theorem toString_no_newline (n : ℕ) : '\n' ∉ (toString n).toList :=
  fun h => (digit_not_blank (FixedDigits.isDigit_of_mem_toString n _ h)).2 rfl

/-! ## Data -/

theorem data_no_newline (e : RunEvent) : '\n' ∉ e.data :=
  fun h => (text_inLine (.obj e.payload) e.numbers _ h).1 rfl

theorem data_ends (e : RunEvent) : e.data.head? = some (Char.ofNat 123) ∧
    e.data.getLast? = some (Char.ofNat 125) := by
  constructor
  · rfl
  · show (Char.ofNat 123::(membersText e.payload++[Char.ofNat 125])).getLast? = _
    rw [← List.cons_append, List.getLast?_concat]

theorem doneData_no_newline (status : String) : '\n' ∉ doneData status := by
  have hok : NumbersOk (.obj [("status",.str status)]) := ⟨trivial,trivial⟩
  exact fun h => (text_inLine _ hok _ h).1 rfl

/-! ## Lines -/

def idLine (e : RunEvent) : List Char := "id: ".toList++(toString e.seq).toList

theorem idLine_no_newline (e : RunEvent) : '\n' ∉ idLine e := by
  intro h
  rcases List.mem_append.mp h with h | h
  · exact absurd h (by decide)
  · exact toString_no_newline e.seq h

theorem head_eq (e : RunEvent) :
    e.head = idLine e++ '\n'::("event: message".toList++ '\n'::"data:".toList) := by
  unfold RunEvent.head idLine
  rw [List.append_assoc]
  rfl

theorem event_block_eq (e : RunEvent) : (Frame.event e).block =
    idLine e++ '\n'::("event: message".toList++ '\n'::("data: ".toList++e.data)) := by
  show e.head++ ' '::e.data = _
  rw [head_eq]
  simp only [List.append_assoc, List.cons_append]
  rfl

theorem dataLine_no_newline (e : RunEvent) : '\n' ∉ "data: ".toList++e.data := by
  intro h
  rcases List.mem_append.mp h with h | h
  · exact absurd h (by decide)
  · exact data_no_newline e h

theorem doneLine_no_newline (status : String) : '\n' ∉ "data: ".toList++doneData status := by
  intro h
  rcases List.mem_append.mp h with h | h
  · exact absurd h (by decide)
  · exact doneData_no_newline status h

theorem done_block_eq (status : String) : (Frame.done status).block =
    "event: done".toList++ '\n'::("data: ".toList++doneData status) := rfl

theorem block_part (f : Frame) : ClosedParts.Part '\n' f.block := by
  cases f with
  | event e =>
    rw [event_block_eq]
    have hid := ClosedParts.part_of_not_mem '\n' (idLine_no_newline e)
    have hmessage := ClosedParts.Part.append '\n' hid (l := "event: message".toList) (by decide) (by decide)
    have hdata := ClosedParts.Part.append '\n' hmessage (l := "data: ".toList++e.data)
      (by simp) (dataLine_no_newline e)
    rw [List.append_assoc, List.cons_append] at hdata
    exact hdata
  | done status =>
    rw [done_block_eq]
    have hdone := ClosedParts.part_of_not_mem '\n' (l := "event: done".toList) (by decide)
    exact ClosedParts.Part.append '\n' hdone (by simp) (doneLine_no_newline status)
  | keepAlive => exact ClosedParts.part_of_not_mem '\n' (by decide)

/-! ## Reading a whole block -/

theorem trimList_cons (cs : List Char) {w : Char} (hw : jsWhitespace w = true) :
    trimList (w::cs) = trimList cs := by
  rw [trimList, List.dropWhile_cons_of_pos hw]
  rfl

theorem id_field (e : RunEvent) (f : Fields) :
    f.line (idLine e) = { f with id := some (toString e.seq).toList } := by
  have htrim : trimList (' '::(toString e.seq).toList) = (toString e.seq).toList := by
    rw [trimList_cons _ (by decide)]
    exact trimList_of_ends (fun c hc => (digit_not_blank (FixedDigits.isDigit_of_mem_toString _ c (head?_mem hc))).1)
      (fun c hc => (digit_not_blank (FixedDigits.isDigit_of_mem_toString _ c (List.mem_of_getLast? hc))).1)
  have hline : f.line (idLine e) = { f with id := some (trimList (' '::(toString e.seq).toList)) } := rfl
  rw [hline, htrim]

theorem data_field (f : Fields) {data : List Char} (h : ∀ c ∈ data.head?, jsWhitespace c = false) :
    f.line ("data: ".toList++data) = { f with data := f.data++[data] } := by
  have hline : f.line ("data: ".toList++data) =
      { f with data := f.data++[(' '::data).dropWhile jsWhitespace] } := rfl
  rw [hline, List.dropWhile_cons_of_pos (by decide), dropWhile_of_head h]

theorem message_field (f : Fields) :
    f.line "event: message".toList = { f with event := "message".toList } := by
  have htrim : trimList " message".toList = "message".toList := by decide
  have hline : f.line "event: message".toList = { f with event := trimList " message".toList } := rfl
  rw [hline, htrim]

theorem brace_not_blank : jsWhitespace (Char.ofNat 123) = false ∧ jsWhitespace (Char.ofNat 125) = false := by
  decide

theorem trim_event_block (e : RunEvent) : trimList (Frame.event e).block = (Frame.event e).block := by
  apply trimList_of_ends
  · intro c hc
    have hfirst : c = 'i' := (Option.some.inj hc).symm
    rw [hfirst]
    decide
  · intro c hc
    have hlast : (Frame.event e).block.getLast? = e.data.getLast? := by
      have hne : e.data ≠ [] := List.cons_ne_nil _ _
      show (e.head++ ' '::e.data).getLast? = _
      rw [List.getLast?_append_of_ne_nil _ (by simp), List.getLast?_cons_of_ne_nil hne]
    rw [hlast, (data_ends e).2] at hc
    rw [← Option.some.inj hc]
    exact brace_not_blank.2

/-- A whole event is read as it was written. -/
theorem parse_event (e : RunEvent) : parseSseBlock (trimList (Frame.event e).block) =
    some ⟨"message",String.ofList e.data,some (toString e.seq)⟩ := by
  have hdata : ∀ c ∈ e.data.head?, jsWhitespace c = false := by
    intro c hc
    rw [(data_ends e).1] at hc
    rw [← Option.some.inj hc]
    exact brace_not_blank.1
  rw [trim_event_block, event_block_eq, parseSseBlock, List.splitOn_append_cons_self_of_not_mem (idLine_no_newline e),
    List.splitOn_append_cons_self_of_not_mem (by decide), List.splitOn_eq_singleton (dataLine_no_newline e)]
  simp only [List.foldl_cons, List.foldl_nil, id_field, message_field, data_field _ hdata]
  simp only [Fields.block, List.nil_append, List.isEmpty_cons, Bool.false_eq_true, if_false,
    Option.map_some, String.ofList_toList]
  rw [List.intercalate, List.intersperse_singleton, List.flatten_singleton]

/-! ## Blocks that carry no data -/

theorem splitOn_step {a : Char} {l p : List Char} {ps : List (List Char)} (ha : a ≠ '\n')
    (h : l.splitOn '\n' = p::ps) : (a::l).splitOn '\n' = (a::p)::ps := by
  rw [List.splitOn_cons_eq_if_modifyHead, if_neg (by simp [ha]), h]
  rfl

/-- The lines of a beginning are beginnings of the lines. -/
theorem lines_prefix {l m : List Char} (h : l <+: m) : ∃ p ps q qs, l.splitOn '\n' = p::ps ∧
    m.splitOn '\n' = q::qs ∧ p <+: q ∧ ∀ x ∈ ps, ∃ y ∈ qs, x <+: y := by
  induction l generalizing m with
  | nil =>
    obtain ⟨q,qs,hm⟩ := List.exists_cons_of_ne_nil (List.splitOn_ne_nil '\n' m)
    exact ⟨[],[],q,qs,rfl,hm,List.nil_prefix,by simp⟩
  | cons a l ih =>
    cases m with
    | nil => simp at h
    | cons b m =>
      obtain ⟨rfl,hlm⟩ := List.cons_prefix_cons.mp h
      obtain ⟨p,ps,q,qs,hl,hm,hpq,hrest⟩ := ih hlm
      by_cases ha : a = '\n'
      · subst ha
        refine ⟨[],p::ps,[],q::qs,?_,?_,List.prefix_refl _,?_⟩
        · rw [← hl]
          exact List.splitOn_append_cons_self_of_not_mem List.not_mem_nil l
        · rw [← hm]
          exact List.splitOn_append_cons_self_of_not_mem List.not_mem_nil m
        · intro x hx
          rcases List.mem_cons.mp hx with rfl | hx
          · exact ⟨q,List.mem_cons_self,hpq⟩
          · obtain ⟨y,hy,hxy⟩ := hrest x hx
            exact ⟨y,List.mem_cons_of_mem q hy,hxy⟩
      · exact ⟨a::p,ps,a::q,qs,splitOn_step ha hl,splitOn_step ha hm,
          List.cons_prefix_cons.mpr ⟨rfl,hpq⟩,hrest⟩

/-- Without a line of data, a block is nothing. -/
theorem parse_no_data {block : List Char}
    (h : ∀ l ∈ block.splitOn '\n', "data:".toList.isPrefixOf l = false) : parseSseBlock block = none := by
  have hdata : ∀ (ls : List (List Char)) (f : Fields),
      (∀ l ∈ ls, "data:".toList.isPrefixOf l = false) → (ls.foldl Fields.line f).data = f.data := by
    intro ls
    induction ls with
    | nil => exact fun _ _ => rfl
    | cons l ls ih =>
      intro f hls
      have hone : (f.line l).data = f.data := by
        unfold Fields.line
        rw [hls l List.mem_cons_self]
        split
        · rfl
        · split
          · simp at *
          · split <;> rfl
      rw [List.foldl_cons, ih _ (fun m hm => hls m (List.mem_cons_of_mem l hm)), hone]
  unfold parseSseBlock Fields.block
  rw [hdata _ _ h]
  rfl

/-- No beginning of these lines has a line of data. -/
theorem parse_beginning {l m : List Char} (h : l <+: m)
    (hm : ∀ y ∈ m.splitOn '\n', "data:".toList.isPrefixOf y = false) : parseSseBlock l = none := by
  apply parse_no_data
  intro x hx
  obtain ⟨p,ps,q,qs,hl,hq,hpq,hrest⟩ := lines_prefix h
  have hbelow : ∃ y ∈ m.splitOn '\n', x <+: y := by
    rw [hl] at hx
    rw [hq]
    rcases List.mem_cons.mp hx with rfl | hx
    · exact ⟨q,List.mem_cons_self,hpq⟩
    · obtain ⟨y,hy,hxy⟩ := hrest x hx
      exact ⟨y,List.mem_cons_of_mem q hy,hxy⟩
  obtain ⟨y,hy,hxy⟩ := hbelow
  rw [Bool.eq_false_iff]
  intro hpre
  have hy' := (List.isPrefixOf_iff_prefix.mp hpre).trans hxy
  rw [← List.isPrefixOf_iff_prefix, hm y hy] at hy'
  simp at hy'

/-- An event that ends before its data is nothing. -/
theorem parse_head_part (e : RunEvent) {l : List Char} (h : l <+: e.head) (hne : l ≠ e.head) :
    parseSseBlock (trimList l) = none := by
  have hshort : l <+: idLine e++ '\n'::("event: message".toList++ '\n'::"data".toList) := by
    have hsplit : e.head = (idLine e++ '\n'::("event: message".toList++ '\n'::"data".toList))++[':'] := by
      rw [head_eq, List.append_assoc]
      rfl
    rw [hsplit] at h hne
    exact (List.prefix_concat_iff.mp h).resolve_left hne
  have hfirst : ∀ c ∈ l.head?, jsWhitespace c = false := by
    intro c hc
    obtain ⟨m,hm⟩ := h
    have hi : c = 'i' := by
      cases l with
      | nil => simp at hc
      | cons d l =>
        have hd : d = 'i' := (List.cons.inj (hm.trans rfl)).1
        rw [← Option.some.inj hc, hd]
    rw [hi]
    decide
  apply parse_beginning ((trimList_start hfirst).trans hshort)
  intro y hy
  rw [List.splitOn_append_cons_self_of_not_mem (idLine_no_newline e), List.splitOn_append_cons_self_of_not_mem (by decide),
    List.splitOn_eq_singleton (by decide)] at hy
  simp only [List.mem_cons, List.not_mem_nil, or_false] at hy
  rcases hy with rfl | rfl | rfl
  · rfl
  · rfl
  · rfl

theorem parse_keepAlive {l : List Char} (h : l <+: [':','\n']) : parseSseBlock (trimList l) = none := by
  have hall : ∀ m ∈ [[],[':'],[':','\n']], parseSseBlock (trimList m) = none := by decide
  have hmem : l ∈ [[],[':'],[':','\n']] := by
    have hinits := (List.mem_inits l [':','\n']).mpr h
    simpa [List.inits] using hinits
  exact hall l hmem

theorem first_not {l m : List Char} {a b : Char} (hab : a ≠ b) (h : l <+: b::m) (k : List Char) :
    (a::k).isPrefixOf l = false := by
  cases l with
  | nil => rfl
  | cons c l =>
    have hc : c = b := (List.cons_prefix_cons.mp h).1
    rw [hc, List.isPrefixOf_cons_cons, beq_eq_false_iff_ne.mpr hab]
    rfl

theorem event_kept {f : Fields} {line : List Char} (h : "event:".toList.isPrefixOf line = false) :
    (f.line line).event = f.event := by
  unfold Fields.line
  rw [h]
  split
  · simp at *
  · split
    · rfl
    · split <;> rfl

/-! ## The end of a run -/

def doneLine : List Char := "event: done".toList

theorem done_field (f : Fields) : f.line doneLine = { f with event := "done".toList } := by
  have htrim : trimList " done".toList = "done".toList := by decide
  have hline : f.line doneLine = { f with event := trimList " done".toList } := rfl
  rw [hline, htrim]

theorem doneLine_cons : ∃ l, doneLine = 'e'::l := ⟨_,rfl⟩

theorem doneLine_no_newline' : '\n' ∉ doneLine := by decide

theorem parse_one_line {l m : List Char} {c : Char} (hc : c ≠ 'd') (hl : '\n' ∉ l) (h : l <+: c::m) :
    parseSseBlock l = none := by
  apply parse_no_data
  rw [List.splitOn_eq_singleton hl]
  intro x hx
  rw [List.mem_singleton.mp hx]
  exact first_not (Ne.symm hc) h _

theorem parse_after_done {z : List Char} (hz : '\n' ∉ z) (he : "event:".toList.isPrefixOf z = false)
    {b : Block} (hb : parseSseBlock (doneLine++ '\n'::z) = some b) : b.event = "done" := by
  have hlines : (doneLine++ '\n'::z).splitOn '\n' = [doneLine,z] := by
    rw [List.splitOn_append_cons_self_of_not_mem doneLine_no_newline', List.splitOn_eq_singleton hz]
  have hdone := done_field ⟨"message".toList,[],none⟩
  have hkept := event_kept (f := Fields.line ⟨"message".toList,[],none⟩ doneLine) he
  unfold parseSseBlock at hb
  rw [hlines] at hb
  unfold Fields.block at hb
  split at hb
  · simp at hb
  · have hevent : b.event = String.ofList
        (Fields.line (Fields.line ⟨"message".toList,[],none⟩ doneLine) z).event := by
      rw [← Option.some.inj hb]
      rfl
    rw [hevent, hkept, hdone]
    rfl

/-- A text that begins with the line is trimmed within the line or after it. -/
theorem trim_after_done (y : List Char) : trimList (doneLine++ '\n'::y) <+: doneLine ∨
    ∃ z, trimList (doneLine++ '\n'::y) = doneLine++ '\n'::z ∧ z <+: y ∧ z.getLast? ≠ some '\n' := by
  obtain ⟨rest,hcons⟩ := doneLine_cons
  have hpre : trimList (doneLine++ '\n'::y) <+: doneLine++ '\n'::y := by
    apply trimList_start
    rw [hcons]
    intro c hc
    rw [← Option.some.inj hc]
    decide
  have hsplit : doneLine++ '\n'::y = (doneLine++['\n'])++y := by simp
  by_cases hcut : doneLine++['\n'] <+: trimList (doneLine++ '\n'::y)
  · obtain ⟨z,hz⟩ := hcut
    right
    refine ⟨z,by rw [← hz]; simp,?_,?_⟩
    · rw [← hz, hsplit] at hpre
      exact (List.prefix_append_right_inj _).mp hpre
    · intro hn
      have hblank := trimList_last (doneLine++ '\n'::y) (c := '\n') (by
        rw [← hz, List.getLast?_append, hn]
        rfl)
      exact absurd hblank (by decide)
  · left
    rw [hsplit] at hpre hcut ⊢
    have hcase := (List.prefix_or_prefix_of_prefix hpre (List.prefix_append _ _)).resolve_right hcut
    rcases List.prefix_concat_iff.mp hcase with he | h
    · rw [he] at hcut
      exact absurd (List.prefix_refl _) hcut
    · exact h

/-- What is left of the data of the end of a run. -/
structure DoneRest (status : String) (y : List Char) : Prop where
  noNewline : ∀ z, z <+: y → z.getLast? ≠ some '\n' → '\n' ∉ z
  first : ∃ c m, c ≠ 'e' ∧ y <+: c::m

theorem doneRest {status : String} {y junk : List Char}
    (hy : y <+: "data: ".toList++doneData status++['\n'])
    (hjunk : junk = [] ∨ (junk = [replacement] ∧ y ≠ "data: ".toList++doneData status++['\n'])) :
    DoneRest status (y++junk) := by
  constructor
  · intro z hz hlast hmem
    rcases List.prefix_concat_iff.mp hy with he | hplain
    · have hj := hjunk.resolve_right (fun h => h.2 he)
      rw [hj, List.append_nil, he] at hz
      rcases List.prefix_concat_iff.mp hz with he' | hz'
      · rw [he', List.getLast?_concat] at hlast
        exact hlast rfl
      · exact doneLine_no_newline status (hz'.subset hmem)
    · rcases List.mem_append.mp (hz.subset hmem) with h | h
      · exact doneLine_no_newline status (hplain.subset h)
      · rcases hjunk with hj | ⟨hj,-⟩
        · simp [hj] at h
        · rw [hj, List.mem_singleton] at h
          exact absurd h (by decide)
  · cases y with
    | cons c y =>
      have hc : c = 'd' := (List.cons_prefix_cons.mp hy).1
      exact ⟨c,y++junk,by rw [hc]; decide,List.prefix_refl _⟩
    | nil =>
      rcases hjunk with hj | ⟨hj,-⟩
      · exact ⟨'d',[],by decide,by rw [hj]; exact List.nil_prefix⟩
      · exact ⟨replacement,[],by decide,by rw [hj]; exact List.prefix_refl _⟩

/-- A part of the line and what a cut character becomes. -/
theorem parse_line_part {t junk : List Char} (ht : t <+: doneLine) (hjunk : junk = [] ∨ junk = [replacement]) :
    parseSseBlock (trimList (t++junk)) = none := by
  have hnewline : '\n' ∉ t++junk := by
    intro hmem
    rcases List.mem_append.mp hmem with h | h
    · exact doneLine_no_newline' (ht.subset h)
    · rcases hjunk with hj | hj
      · simp [hj] at h
      · rw [hj, List.mem_singleton] at h
        exact absurd h (by decide)
  have hbegins : ∃ c m, c ≠ 'd' ∧ jsWhitespace c = false ∧ t++junk <+: c::m := by
    obtain ⟨rest,hcons⟩ := doneLine_cons
    rw [hcons] at ht
    cases t with
    | cons c t =>
      have hc : c = 'e' := (List.cons_prefix_cons.mp ht).1
      exact ⟨c,t++junk,by rw [hc]; decide,by rw [hc]; decide,List.prefix_refl _⟩
    | nil =>
      rcases hjunk with hj | hj
      · exact ⟨'e',[],by decide,by decide,by rw [hj]; exact List.nil_prefix⟩
      · exact ⟨replacement,[],by decide,by decide,by rw [hj]; exact List.prefix_refl _⟩
  obtain ⟨c,m,hc,hblank,hpre⟩ := hbegins
  have htrim : trimList (t++junk) <+: t++junk := by
    apply trimList_start
    intro x hx
    cases hcs : t++junk with
    | nil => simp [hcs] at hx
    | cons y ys =>
      rw [hcs] at hx hpre
      rw [← Option.some.inj hx, (List.cons_prefix_cons.mp hpre).1]
      exact hblank
  exact parse_one_line hc (fun h => hnewline (htrim.subset h)) (htrim.trans hpre)

/-- The end of a run is read as such, if at all, wherever it is cut. -/
theorem parse_done {status : String} {t junk : List Char} (ht : t <+: (Frame.done status).block++['\n'])
    (hjunk : junk = [] ∨ (junk = [replacement] ∧ t ≠ (Frame.done status).block++['\n'])) {b : Block}
    (hb : parseSseBlock (trimList (t++junk)) = some b) : b.event = "done" := by
  have hwhole : (Frame.done status).block++['\n'] =
      (doneLine++['\n'])++("data: ".toList++doneData status++['\n']) := by
    have hblock : (Frame.done status).block = doneLine++ '\n'::("data: ".toList++doneData status) :=
      done_block_eq status
    rw [hblock]
    simp only [List.append_assoc, List.cons_append, List.nil_append]
  rw [hwhole] at ht hjunk
  by_cases hline : doneLine++['\n'] <+: t
  · obtain ⟨y,rfl⟩ := hline
    have hy := (List.prefix_append_right_inj _).mp ht
    have hrest := doneRest hy (hjunk.imp_right (fun h => ⟨h.1,fun he => h.2 (by rw [he])⟩))
    have hw : doneLine++['\n']++y++junk = doneLine++ '\n'::(y++junk) := by simp
    rw [hw] at hb
    rcases trim_after_done (y++junk) with hshort | ⟨z,hz,hpre,hlast⟩
    · obtain ⟨rest,hcons⟩ := doneLine_cons
      rw [parse_one_line (c := 'e') (m := rest) (by decide) (fun h => doneLine_no_newline' (hshort.subset h))
        (hcons ▸ hshort)] at hb
      simp at hb
    · rw [hz] at hb
      obtain ⟨c,m,hc,hfirst⟩ := hrest.first
      exact parse_after_done (hrest.noNewline z hpre hlast)
        (first_not (Ne.symm hc) (hpre.trans hfirst) _) hb
  · have hshort : t <+: doneLine := by
      have hcase := (List.prefix_or_prefix_of_prefix ht (List.prefix_append _ _)).resolve_right hline
      rcases List.prefix_concat_iff.mp hcase with he | h
      · rw [he] at hline
        exact absurd (List.prefix_refl _) hline
      · exact h
    rw [parse_line_part hshort (hjunk.imp_right And.left)] at hb
    simp at hb

end DevForge.RunStreamBlocks
