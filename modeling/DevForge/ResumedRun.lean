import DevForge.EventLog
import DevForge.RunStreamBlocks

/-!
# A run resumed without loss

However the bytes are cut and the connections end, what the client has accumulated is what the
events up to its cursor make; a stream that ends cleanly inside the data of an event is the one
that loses it.
-/

set_option autoImplicit false

namespace DevForge.ResumedRun
open JsonText RunAccumulator RunStream RunStreamBlocks Transition

/-! ## Reading -/

theorem lineFeeds_self {cs : List Char} (h : Char.ofNat 13 ∉ cs) : lineFeeds cs = cs := by
  induction cs with
  | nil => rfl
  | cons c cs ih =>
    obtain ⟨hc,hcs⟩ := List.ne_and_not_mem_of_not_mem_cons h
    unfold lineFeeds
    rw [if_neg (Ne.symm hc), ih hcs]

/-- The pieces of a stream are read as the stream is. -/
theorem readChunks_eq (js : Js) (chunks : List (List UInt8)) (p : Parser) (a : Accumulator)
    (hopen : ClosedParts.Open '\n' p.buf)
    (hcr : Char.ofNat 13 ∉ (decodeBytes p.pending chunks.flatten).2) :
    readChunks js chunks p a =
      (⟨(decodeBytes p.pending chunks.flatten).1,
        (ClosedParts.scan '\n' p.buf (decodeBytes p.pending chunks.flatten).2).2⟩,
        (ClosedParts.scan '\n' p.buf (decodeBytes p.pending chunks.flatten).2).1.foldl
          (receiveBlock js) a) := by
  induction chunks generalizing p a with
  | nil => rfl
  | cons chunk chunks ih =>
    have hdecode := StreamDecoder.decode_append decodeChar replacement 4 p.pending chunk chunks.flatten
    have hflat : decodeBytes p.pending (chunk::chunks).flatten =
        ((decodeBytes (decodeBytes p.pending chunk).1 chunks.flatten).1,
          (decodeBytes p.pending chunk).2++(decodeBytes (decodeBytes p.pending chunk).1 chunks.flatten).2) :=
      hdecode
    rw [hflat] at hcr ⊢
    rw [List.mem_append, not_or] at hcr
    have hlines := lineFeeds_self hcr.1
    simp only [readChunks, push, hlines, ClosedParts.scan_open '\n' hopen]
    rw [ih _ _ (ClosedParts.open_scan '\n' hopen _) hcr.2]
    rw [ClosedParts.scan_append]
    simp only [List.foldl_append]

/-- What is left at a clean end counts as one part. -/
theorem flush_eq (js : Js) {r : List Char} (hopen : ClosedParts.Open '\n' r) (a : Accumulator) :
    flush js (r,a) = receiveBlock js a r := by
  have hempty : ∀ a : Accumulator, receiveBlock js a [] = a := fun _ => rfl
  have hblank : ∀ a : Accumulator, receiveBlock js a ['\n'] = a := fun _ => rfl
  unfold flush
  split
  · rename_i htrim
    have hnone : receiveBlock js a r = receiveBlock js a [] := by
      unfold receiveBlock
      rw [htrim]
      rfl
    rw [hnone, hempty]
  · show List.foldl _ a _ = _
    rw [ClosedParts.scan_open '\n' hopen]
    by_cases hlast : r.getLast? = some '\n'
    · have hr : r = r.dropLast++['\n'] := (List.dropLast_append_getLast? '\n' hlast).symm
      have hscan : ClosedParts.scan '\n' r ['\n','\n'] = ([r.dropLast],['\n']) := by
        simp [ClosedParts.scan, hlast]
      rw [hscan, List.singleton_append, List.foldl_cons, List.foldl_cons, List.foldl_nil, hblank]
      unfold receiveBlock
      conv_rhs => rw [hr, trimList_concat _ (by decide)]
    · have hscan : ClosedParts.scan '\n' r ['\n','\n'] = ([r],[]) := by
        simp [ClosedParts.scan, hlast]
      rw [hscan, List.singleton_append, List.foldl_cons, List.foldl_cons, List.foldl_nil, hempty]

/-- Reading to the end of a stream, in terms of the text that has arrived. -/
theorem readInto_eq (js : Js) (chunks : List (List UInt8)) (clean : Bool) (a : Accumulator)
    (hcr : Char.ofNat 13 ∉ (decodeBytes [] chunks.flatten).2) :
    readInto js chunks clean a =
      if clean then receiveBlock js
        ((ClosedParts.scan '\n' [] (decodeBytes [] chunks.flatten).2).1.foldl (receiveBlock js) a)
        ((ClosedParts.scan '\n' [] (decodeBytes [] chunks.flatten).2).2++
          StreamDecoder.finish replacement (decodeBytes [] chunks.flatten).1)
      else (ClosedParts.scan '\n' [] (decodeBytes [] chunks.flatten).2).1.foldl
        (receiveBlock js) a := by
  unfold readInto
  rw [readChunks_eq js chunks ⟨[],[]⟩ a (ClosedParts.open_nil '\n') hcr]
  simp only
  split
  · have hopen := ClosedParts.open_scan '\n' (ClosedParts.open_nil '\n') (decodeBytes [] chunks.flatten).2
    have hfinish : ∀ q : List UInt8, lineFeeds (StreamDecoder.finish replacement q) =
        StreamDecoder.finish replacement q ∧ '\n' ∉ StreamDecoder.finish replacement q := by
      intro q
      cases q with
      | nil => exact ⟨rfl,by simp [StreamDecoder.finish]⟩
      | cons b q => exact ⟨rfl,by simp [StreamDecoder.finish]; decide⟩
    obtain ⟨hfeeds,hplain⟩ := hfinish (decodeBytes [] chunks.flatten).1
    have hscan := ClosedParts.scan_of_not_mem '\n' hplain
      (ClosedParts.scan '\n' [] (decodeBytes [] chunks.flatten).2).2
    simp only [push, hfeeds, ClosedParts.scan_open '\n' hopen, hscan, List.foldl_nil]
    apply flush_eq
    unfold ClosedParts.Open
    rw [ClosedParts.scan_open '\n' hopen, hscan]
  · rfl

/-! ## What arrives of the frames -/

theorem bytes_append (l m : List Char) : bytes (l++m) = bytes l++bytes m := List.flatMap_append

/-- Some frames arrive whole, and a part of the next one. -/
theorem split_frames (frames : List Frame) (r : List UInt8) (h : r <+: bytes (sseText frames)) :
    ∃ k rest, r = bytes (sseText (frames.take k))++rest ∧ ((frames.length ≤ k ∧ rest = []) ∨
      ∃ f, frames[k]? = some f ∧ rest <+: bytes (f.block++['\n','\n']) ∧
        rest ≠ bytes (f.block++['\n','\n']) ∧ cutsData frames r.length = f.cut rest.length) := by
  induction frames generalizing r with
  | nil =>
    have hr : r = [] := by simpa [sseText, ClosedParts.encode, bytes] using h
    exact ⟨0,[],by rw [hr]; rfl,Or.inl ⟨by simp,rfl⟩⟩
  | cons f fs ih =>
    have htext : bytes (sseText (f::fs)) = bytes (f.block++['\n','\n'])++bytes (sseText fs) := by
      rw [← bytes_append]
      rfl
    rw [htext] at h
    by_cases hwhole : bytes (f.block++['\n','\n']) <+: r
    · obtain ⟨r',rfl⟩ := hwhole
      obtain ⟨k,rest,hr,hnext⟩ := ih r' ((List.prefix_append_right_inj _).mp h)
      refine ⟨k+1,rest,?_,?_⟩
      · have htake : bytes (sseText ((f::fs).take (k+1))) =
            bytes (f.block++['\n','\n'])++bytes (sseText (fs.take k)) := by
          rw [← bytes_append]
          rfl
        rw [htake, List.append_assoc, ← hr]
      · rcases hnext with ⟨hk,hrest⟩ | ⟨g,hg,hpre,hne,hcut⟩
        · exact Or.inl ⟨by simpa using hk,hrest⟩
        · refine Or.inr ⟨g,by simpa using hg,hpre,hne,?_⟩
          rw [List.length_append, cutsData, if_pos (Nat.le_add_right _ _), Nat.add_sub_cancel_left]
          exact hcut
    · have hpart := (List.prefix_or_prefix_of_prefix h (List.prefix_append _ _)).resolve_right hwhole
      have hne : r ≠ bytes (f.block++['\n','\n']) := by
        intro he
        rw [he] at hwhole
        exact hwhole (List.prefix_refl _)
      refine ⟨0,r,rfl,Or.inr ⟨f,rfl,hpart,hne,?_⟩⟩
      have hlt : r.length < (bytes (f.block++['\n','\n'])).length := by
        have hle := hpart.length_le
        rcases Nat.lt_or_eq_of_le hle with hlt | heq
        · exact hlt
        · exact absurd (hpart.eq_of_length heq) hne
      rw [cutsData, if_neg (by omega)]

theorem ascii_length {c : Char} (h : c.toNat < 128) : (String.utf8EncodeChar c).length = 1 := by
  rw [String.length_utf8EncodeChar, Char.utf8Size]
  have hle : c.val ≤ 127 := by
    rw [UInt32.le_iff_toNat_le]
    exact Nat.lt_succ_iff.mp h
  rw [if_pos (by simpa using hle)]

/-- A character that is cut is not an ASCII one. -/
theorem cut_char {c : Char} {p q : List UInt8} (h : String.utf8EncodeChar c = p++q) (hp : p ≠ [])
    (hq : q ≠ []) : ¬ c.toNat < 128 := by
  intro hlt
  have hlen := ascii_length hlt
  rw [h, List.length_append] at hlen
  have h1 := List.length_pos_iff.mpr hp
  have h2 := List.length_pos_iff.mpr hq
  omega

/-- A part of a text, decoded. -/
theorem decode_part {y : List Char} {r : List UInt8} (h : r <+: bytes y) :
    ∃ t pending, r = bytes t++pending ∧ decodeBytes [] r = (pending,t) ∧ t <+: y ∧
      (pending ≠ [] → ∃ c, t++[c] <+: y ∧ ¬ c.toNat < 128) := by
  obtain ⟨t,pending,hr,hdecode,hnext⟩ :=
    StreamDecoder.decode_prefix replacement utf8_code y r h
  refine ⟨t,pending,hr,hdecode,?_,?_⟩
  · rcases hnext with ⟨-,ht⟩ | ⟨c,q,ht,-⟩
    · exact ht
    · exact (List.prefix_append t [c]).trans ht
  · intro hp
    rcases hnext with ⟨hnil,-⟩ | ⟨c,q,ht,hc,hq,-⟩
    · exact absurd hnil hp
    · exact ⟨c,ht,cut_char hc hp hq⟩

theorem head_ascii (e : RunEvent) : ∀ c ∈ e.head, c.toNat < 128 := by
  intro c hc
  rcases List.mem_append.mp hc with hc | hc
  · rcases List.mem_append.mp hc with hc | hc
    · have hall : ∀ c ∈ "id: ".toList, c.toNat < 128 := List.all_iff_forall_prop.mp (by decide)
      exact hall c hc
    · have hd := FixedDigits.isDigit_of_mem_toString e.seq c hc
      have : c.toNat ≤ 57 := by
        have h : 48 ≤ c.toNat ∧ c.toNat ≤ 57 := by
          simpa [Char.isDigit, UInt32.le_iff_toNat_le] using hd
        exact h.2
      omega
  · have hall : ∀ c ∈ "\nevent: message\ndata:".toList, c.toNat < 128 := List.all_iff_forall_prop.mp (by decide)
    exact hall c hc

/-! ## What a part of a frame makes -/

def receiveEvent (js : Js) (a : Accumulator) (e : RunEvent) : Accumulator :=
  a.onEvent js "message" (String.ofList e.data) (some (toString e.seq))

theorem block_event (js : Js) (a : Accumulator) (e : RunEvent) :
    receiveBlock js a (Frame.event e).block = receiveEvent js a e := by
  unfold receiveBlock
  rw [parse_event]
  rfl

theorem block_event_newline (js : Js) (a : Accumulator) (e : RunEvent) :
    receiveBlock js a ((Frame.event e).block++['\n']) = receiveEvent js a e := by
  rw [← block_event]
  unfold receiveBlock
  rw [trimList_concat _ (by decide)]

theorem block_none (js : Js) (a : Accumulator) {part : List Char} (h : parseSseBlock (trimList part) = none) :
    receiveBlock js a part = a := by
  unfold receiveBlock
  rw [h]

/-- The end of a run moves neither the cursor nor what was seen. -/
theorem block_done (js : Js) (a : Accumulator) (status : String) (t junk : List Char)
    (ht : t <+: (Frame.done status).block++['\n'])
    (hjunk : junk = [] ∨ (junk = [replacement] ∧ t ≠ (Frame.done status).block++['\n'])) :
    (receiveBlock js a (t++junk)).seen = a.seen ∧
      (receiveBlock js a (t++junk)).cursor.lastSeq = a.cursor.lastSeq := by
  unfold receiveBlock
  cases hb : parseSseBlock (trimList (t++junk)) with
  | none => exact ⟨rfl,rfl⟩
  | some b =>
    have hevent := parse_done ht hjunk hb
    have hsame : a.onEvent js b.event b.data b.id = { a with cursor := { a.cursor with
        done := true
        status := (js.parse b.data).elim a.cursor.status
          (fun v => (js.stringOf (v.get "status")).filter (· ≠ "")) } } := by
      rw [Accumulator.onEvent, if_pos hevent]
    simp only [hsame, and_self]

/-- The frames that are not the end of the run deliver their events. -/
theorem fold_frames (js : Js) (fs : List Frame) (hfs : ∀ f ∈ fs, ∀ st, f ≠ .done st) (a : Accumulator) :
    (fs.map Frame.block).foldl (receiveBlock js) a =
      deliver js (fs.filterMap Frame.event?) a := by
  induction fs generalizing a with
  | nil => rfl
  | cons f fs ih =>
    have ih := ih (fun g hg => hfs g (List.mem_cons_of_mem f hg))
    cases f with
    | event e =>
      rw [List.map_cons, List.foldl_cons, block_event, ih]
      rfl
    | done st => exact absurd rfl (hfs _ List.mem_cons_self st)
    | keepAlive =>
      have hkeep : receiveBlock js a Frame.keepAlive.block = a :=
        block_none js a (parse_keepAlive (List.prefix_append [':'] ['\n']))
      rw [List.map_cons, List.foldl_cons, hkeep, ih]
      rfl

/-- A part of an event that does not end inside its data is nothing, or the event. -/
theorem event_part (js : Js) (a : Accumulator) (e : RunEvent) {rest pending : List UInt8} {t : List Char}
    (h : rest <+: bytes ((Frame.event e).block++['\n','\n']))
    (hne : rest ≠ bytes ((Frame.event e).block++['\n','\n']))
    (hcut : (Frame.event e).cut rest.length = false) (hdecode : decodeBytes [] rest = (pending,t)) :
    receiveBlock js a (t++StreamDecoder.finish replacement pending) = a ∨
      receiveBlock js a (t++StreamDecoder.finish replacement pending) = receiveEvent js a e := by
  simp only [Frame.cut, Bool.and_eq_false_iff, decide_eq_false_iff_not, not_le, not_lt] at hcut
  have hblock : (Frame.event e).block = e.head++ ' '::e.data := rfl
  rcases hcut with hhead | hdata
  · -- before the data
    left
    have hpre : rest <+: bytes e.head := by
      rw [hblock, List.append_assoc, bytes_append] at h
      exact List.prefix_of_prefix_length_le h (List.prefix_append _ _) hhead.le
    obtain ⟨t',pending',hrest,hdecode',ht,hpending⟩ := decode_part hpre
    rw [hdecode] at hdecode'
    obtain ⟨rfl,rfl⟩ := Prod.mk.inj hdecode'
    have hnil : pending = [] := by
      by_contra hp
      obtain ⟨c,hc,hascii⟩ := hpending hp
      exact hascii (head_ascii e c (hc.subset (by simp)))
    have hthead : t ≠ e.head := by
      intro he
      rw [hnil, he, List.append_nil] at hrest
      rw [hrest] at hhead
      exact absurd hhead (lt_irrefl _)
    rw [hnil]
    apply block_none
    rw [StreamDecoder.finish, List.isEmpty_nil, if_pos rfl, List.append_nil]
    exact parse_head_part e ht hthead
  · -- after the data
    right
    rw [bytes_append] at h hne
    have hpre : bytes (Frame.event e).block <+: rest :=
      List.prefix_of_prefix_length_le (List.prefix_append _ _) h hdata
    obtain ⟨last,rfl⟩ := hpre
    have hlast : last <+: [10,10] := (List.prefix_append_right_inj _).mp h
    have hshort : last = [] ∨ last = [10] := by
      have hmem := (List.mem_inits last [10,10]).mpr hlast
      have hcases : last = [] ∨ last = [10] ∨ last = [10,10] := by simpa [List.inits] using hmem
      rcases hcases with h0 | h1 | h2
      · exact Or.inl h0
      · exact Or.inr h1
      · exact absurd (by rw [h2]; rfl) hne
    have hwords := StreamDecoder.decode_words replacement utf8_code (Frame.event e).block last
    have hwords : decodeBytes [] (bytes (Frame.event e).block++last) =
        ((decodeBytes [] last).1,(Frame.event e).block++(decodeBytes [] last).2) := hwords
    rw [hwords] at hdecode
    obtain ⟨rfl,rfl⟩ := Prod.mk.inj hdecode
    rcases hshort with rfl | rfl
    · have hd : decodeBytes [] [] = ([],[]) := rfl
      rw [hd]
      simp only [StreamDecoder.finish, List.isEmpty_nil, if_true, List.append_nil]
      exact block_event js a e
    · have hd : decodeBytes [] [10] = ([],['\n']) := by decide +kernel
      rw [hd]
      simp only [StreamDecoder.finish, List.isEmpty_nil, if_true, List.append_nil]
      exact block_event_newline js a e

/-! ## One connection -/

theorem receiveEvent_done (js : Js) (a : Accumulator) (e : RunEvent) :
    (receiveEvent js a e).cursor.done = a.cursor.done := by
  unfold receiveEvent Accumulator.onEvent
  rw [if_neg (by decide)]
  split
  · split <;> rfl
  · rfl

theorem deliver_done (js : Js) (es : List RunEvent) (a : Accumulator) :
    (deliver js es a).cursor.done = a.cursor.done := by
  induction es generalizing a with
  | nil => rfl
  | cons e es ih => exact (ih _).trans (receiveEvent_done js a e)

/-- A beginning of what is served was delivered; all of it, if the run is done. -/
def Read (js : Js) (served : List RunEvent) (a a' : Accumulator) : Prop :=
  ∃ r, r <+: served ∧ a'.seen = (deliver js r a).seen ∧
    a'.cursor.lastSeq = (deliver js r a).cursor.lastSeq ∧ (a'.cursor.done = true → r = served)

theorem sse_no_return (fs : List Frame) : Char.ofNat 13 ∉ sseText fs := by
  intro h
  obtain ⟨block,hblock,hc⟩ := List.mem_flatMap.mp h
  obtain ⟨f,-,rfl⟩ := List.mem_map.mp hblock
  rcases List.mem_append.mp hc with hc | hc
  · have hhead : ∀ c ∈ "event: done\ndata: ".toList, c ≠ Char.ofNat 13 := List.all_iff_forall_prop.mp (by decide)
    cases f with
    | event e =>
      rcases List.mem_append.mp hc with hc | hc
      · rcases List.mem_append.mp hc with hc | hc
        · rcases List.mem_append.mp hc with hc | hc
          · exact absurd hc (by decide)
          · exact absurd (FixedDigits.isDigit_of_mem_toString e.seq _ hc) (by decide)
        · exact absurd hc (by decide)
      · rcases List.mem_cons.mp hc with hc | hc
        · exact absurd hc (by decide)
        · exact (text_inLine (.obj e.payload) e.numbers _ hc).2 rfl
    | done status =>
      rcases List.mem_append.mp hc with hc | hc
      · exact hhead _ hc rfl
      · have hok : NumbersOk (.obj [("status",.str status)]) := ⟨trivial,trivial⟩
        exact (text_inLine _ hok _ hc).2 rfl
    | keepAlive =>
      rw [List.mem_singleton.mp hc] at hhead
      exact absurd hc (by decide)
  · exact absurd hc (by decide)

theorem blocks_part (fs : List Frame) : ∀ p ∈ fs.map Frame.block, ClosedParts.Part '\n' p := by
  intro p hp
  obtain ⟨f,-,rfl⟩ := List.mem_map.mp hp
  exact block_part f

/-- What was decoded of frames that arrived whole, and of what follows. -/
theorem decode_frames (fs : List Frame) (rest : List UInt8) :
    decodeBytes [] (bytes (sseText fs)++rest) =
      ((decodeBytes [] rest).1,sseText fs++(decodeBytes [] rest).2) :=
  StreamDecoder.decode_words replacement utf8_code (sseText fs) rest

/-- What is decoded of a part of a frame: a beginning of its block, and what a cut character
becomes at the end. -/
theorem decode_block {f : Frame} {rest : List UInt8} (hpre : rest <+: bytes (f.block++['\n','\n']))
    (hne : rest ≠ bytes (f.block++['\n','\n'])) : ∃ t pending, decodeBytes [] rest = (pending,t) ∧
      t <+: f.block++['\n'] ∧ (pending ≠ [] → ∃ c, t++[c] <+: f.block++['\n','\n'] ∧ ¬ c.toNat < 128) := by
  obtain ⟨t,pending,hrest,hdecode,ht,hpending⟩ := decode_part hpre
  refine ⟨t,pending,hdecode,?_,hpending⟩
  have hsplit : f.block++['\n','\n'] = (f.block++['\n'])++['\n'] := by simp
  rw [hsplit] at ht
  refine (List.prefix_concat_iff.mp ht).resolve_left (fun he => ?_)
  by_cases hp : pending = []
  · rw [hp, he, ← hsplit, List.append_nil] at hrest
    exact hne hrest
  · obtain ⟨c,hc,-⟩ := hpending hp
    have hlen := hc.length_le
    rw [he, hsplit] at hlen
    simp at hlen

theorem keepAlive_part (js : Js) (a : Accumulator) {t : List Char} {pending : List UInt8}
    (ht : t <+: Frame.keepAlive.block++['\n'])
    (hpending : pending ≠ [] → ∃ c, t++[c] <+: Frame.keepAlive.block++['\n','\n'] ∧ ¬ c.toNat < 128) :
    receiveBlock js a (t++StreamDecoder.finish replacement pending) = a := by
  have hjunk : pending = [] := by
    by_contra hp
    obtain ⟨c,hc,hascii⟩ := hpending hp
    have hall : ∀ c ∈ [':','\n','\n'], c.toNat < 128 := List.all_iff_forall_prop.mp (by decide)
    exact hascii (hall c (hc.subset (by simp)))
  rw [hjunk, StreamDecoder.finish, List.isEmpty_nil, if_pos rfl, List.append_nil]
  exact block_none js a (parse_keepAlive ht)

theorem done_part (js : Js) (a : Accumulator) {status : String} {t : List Char} {pending : List UInt8}
    (ht : t <+: (Frame.done status).block++['\n'])
    (hpending : pending ≠ [] →
      ∃ c, t++[c] <+: (Frame.done status).block++['\n','\n'] ∧ ¬ c.toNat < 128) :
    (receiveBlock js a (t++StreamDecoder.finish replacement pending)).seen = a.seen ∧
      (receiveBlock js a (t++StreamDecoder.finish replacement pending)).cursor.lastSeq = a.cursor.lastSeq := by
  apply block_done js a _ _ _ ht
  cases pending with
  | nil => exact Or.inl rfl
  | cons b bs =>
    refine Or.inr ⟨rfl,fun he => ?_⟩
    obtain ⟨c,hc,hascii⟩ := hpending (by simp)
    have hsplit : (Frame.done status).block++['\n','\n'] = ((Frame.done status).block++['\n'])++['\n'] := by
      simp
    rw [he, hsplit] at hc
    have hcn : c = '\n' := (List.cons_prefix_cons.mp ((List.prefix_append_right_inj _).mp hc)).1
    rw [hcn] at hascii
    exact hascii (by decide)

theorem take_next {fs : List Frame} {k : ℕ} {f : Frame} (h : fs[k]? = some f) :
    fs.take (k+1) = fs.take k++[f] := by
  rw [List.take_add_one, h]
  rfl

/-- A clean end within the next frame, but not inside the data of an event. -/
theorem clean_end (js : Js) {fs : List Frame} {status : String} {a : Accumulator} {k : ℕ} {f : Frame}
    (hfs : ∀ f ∈ fs, ∀ st, f ≠ .done st) (hdone : a.cursor.done = false)
    (hf : (fs++[Frame.done status])[k]? = some f) {rest pending : List UInt8} {t : List Char}
    (hpre : rest <+: bytes (f.block++['\n','\n'])) (hne : rest ≠ bytes (f.block++['\n','\n']))
    (hcut : f.cut rest.length = false) (hdecode : decodeBytes [] rest = (pending,t))
    (ht : t <+: f.block++['\n'])
    (hpending : pending ≠ [] → ∃ c, t++[c] <+: f.block++['\n','\n'] ∧ ¬ c.toNat < 128) :
    Read js (fs.filterMap Frame.event?) a
      (receiveBlock js (deliver js ((fs.take k).filterMap Frame.event?) a)
        (t++StreamDecoder.finish replacement pending)) := by
  have hkeep : ∀ m, Read js (fs.filterMap Frame.event?) a (deliver js ((fs.take m).filterMap Frame.event?) a) := by
    intro m
    refine ⟨_,(List.take_prefix m fs).filterMap _,rfl,rfl,fun h => ?_⟩
    rw [deliver_done, hdone] at h
    simp at h
  by_cases hlast : k < fs.length
  · have hfk : fs[k]? = some f := by rwa [List.getElem?_append_left hlast] at hf
    cases f with
    | event e =>
      rcases event_part js (deliver js ((fs.take k).filterMap Frame.event?) a) e hpre hne hcut hdecode with
        hnone | hevent
      · rw [hnone]
        exact hkeep k
      · have hdeliver : receiveEvent js (deliver js ((fs.take k).filterMap Frame.event?) a) e =
            deliver js ((fs.take (k+1)).filterMap Frame.event?) a := by
          rw [take_next hfk, List.filterMap_append, deliver, deliver, List.foldl_append]
          rfl
        rw [hevent, hdeliver]
        exact hkeep (k+1)
    | done st => exact absurd rfl (hfs _ (List.mem_of_getElem? hfk) st)
    | keepAlive =>
      rw [keepAlive_part js _ ht hpending]
      exact hkeep k
  · have hk := (List.getElem?_eq_some_iff.mp hf).1
    have hke : k = fs.length := by
      rw [List.length_append, List.length_singleton] at hk
      omega
    subst hke
    rw [List.getElem?_append_right (le_refl _), Nat.sub_self] at hf
    have hfd : Frame.done status = f := Option.some.inj hf
    subst hfd
    rw [List.take_length]
    have hend := done_part js (deliver js (fs.filterMap Frame.event?) a) ht hpending
    exact ⟨_,List.prefix_refl _,hend.1,hend.2,fun _ => rfl⟩

/-- What a connection brings, unless it ends inside the data of an event. -/
theorem connection_read (js : Js) (fs : List Frame) (status : String) (chunks : List (List UInt8))
    (clean : Bool) (a : Accumulator) (hfs : ∀ f ∈ fs, ∀ st, f ≠ .done st) (hdone : a.cursor.done = false)
    (harrived : chunks.flatten <+: bytes (sseText (fs++[.done status])))
    (hwhole : clean = true → cutsData (fs++[.done status]) chunks.flatten.length = false) :
    Read js (fs.filterMap Frame.event?) a (readInto js chunks clean a) := by
  have htext : (decodeBytes [] chunks.flatten).2 <+: sseText (fs++[.done status]) := by
    obtain ⟨t,pending,-,hdecode,ht,-⟩ := decode_part harrived
    rw [hdecode]
    exact ht
  have hread := readInto_eq js chunks clean a (fun h => sse_no_return _ (htext.subset h))
  obtain ⟨k,rest,hbytes,hnext⟩ := split_frames _ _ harrived
  rw [hbytes, decode_frames] at hread
  simp only [sseText] at hread
  rw [ClosedParts.scan_encode '\n' _ (blocks_part _)] at hread
  rcases hnext with ⟨hk,rfl⟩ | ⟨f,hf,hpre,hne,hcut⟩
  · -- everything arrived
    have hall : (fs++[Frame.done status]).take k = fs++[Frame.done status] := List.take_of_length_le hk
    have hnil : decodeBytes [] [] = ([],[]) := rfl
    have hfold : ((fs++[Frame.done status]).map Frame.block).foldl (receiveBlock js) a =
        receiveBlock js (deliver js (fs.filterMap Frame.event?) a) (Frame.done status).block := by
      rw [List.map_append, List.foldl_append, fold_frames js fs hfs, List.map_singleton, List.foldl_cons, List.foldl_nil]
    have hend := block_done js (deliver js (fs.filterMap Frame.event?) a) status
      (Frame.done status).block [] (List.prefix_append _ _) (Or.inl rfl)
    rw [List.append_nil] at hend
    have hsame : readInto js chunks clean a =
        receiveBlock js (deliver js (fs.filterMap Frame.event?) a) (Frame.done status).block := by
      rw [hread, hall, hnil]
      simp only [ClosedParts.scan, List.append_nil, StreamDecoder.finish, List.isEmpty_nil, if_true, hfold]
      split
      · exact block_none js _ rfl
      · rfl
    rw [hsame]
    exact ⟨_,List.prefix_refl _,hend.1,hend.2,fun _ => rfl⟩
  · obtain ⟨t,pending,hdecode,ht,hpending⟩ := decode_block hpre hne
    have hk : k ≤ fs.length := by
      have hlt := (List.getElem?_eq_some_iff.mp hf).1
      rw [List.length_append, List.length_singleton] at hlt
      omega
    have htaken : ∀ g ∈ fs.take k, ∀ st, g ≠ .done st := fun g hg => hfs g (List.mem_of_mem_take hg)
    rw [hdecode] at hread
    simp only [ClosedParts.scan_part_begun '\n' (block_part f) ht, List.append_nil] at hread
    rw [List.take_append_of_le_length hk, fold_frames js _ htaken] at hread
    rw [hread]
    cases clean with
    | false =>
      refine ⟨_,(List.take_prefix k fs).filterMap _,rfl,rfl,fun h => ?_⟩
      rw [if_neg (by simp), deliver_done, hdone] at h
      simp at h
    | true => exact clean_end js hfs hdone hf hpre hne (hcut ▸ hwhole rfl) hdecode ht hpending

/-! ## The cursor -/

def number (e : RunEvent) : ℤ := e.seq

/-- What the events make of what was seen. -/
def see (js : Js) (es : List RunEvent) (s : Seen) : Seen :=
  es.foldl (fun s e => s.receive js "message" (String.ofList e.data)) s

theorem see_append (js : Js) (es es' : List RunEvent) (s : Seen) :
    see js (es++es') s = see js es' (see js es s) := List.foldl_append

theorem receiveEvent_new (js : Js) (a : Accumulator) (e : RunEvent) (he : e.seq ≤ 2^53)
    (hlt : a.cursor.lastSeq < e.seq) : receiveEvent js a e =
      ⟨{ a.cursor with lastSeq := e.seq },a.seen.receive js "message" (String.ofList e.data)⟩ := by
  unfold receiveEvent Accumulator.onEvent
  rw [if_neg (by decide), Option.bind_some, sequenceOf_toString, toDouble_of_le he]
  simp only
  rw [if_neg (by omega)]

theorem receiveEvent_old (js : Js) (a : Accumulator) (e : RunEvent) (he : e.seq ≤ 2^53)
    (hle : e.seq ≤ a.cursor.lastSeq) : receiveEvent js a e = a := by
  unfold receiveEvent Accumulator.onEvent
  rw [if_neg (by decide), Option.bind_some, sequenceOf_toString, toDouble_of_le he]
  simp only
  rw [if_pos hle]

theorem above_eq (es : List RunEvent) (last : ℕ) :
    es.filter (fun e => last < e.seq) = EventLog.above number last es := by
  apply List.filter_congr
  intro e _
  simp [number]

/-- A delivery is what stands above the cursor. -/
theorem deliver_eq (js : Js) (es : List RunEvent) (a : Accumulator)
    (hinc : EventLog.Increasing number es) (hexact : ∀ e ∈ es, e.seq ≤ 2^53) :
    (deliver js es a).seen = see js (EventLog.above number a.cursor.lastSeq es) a.seen ∧
      ((deliver js es a).cursor.lastSeq : ℤ) = EventLog.reach number a.cursor.lastSeq
        (EventLog.above number a.cursor.lastSeq es) := by
  induction es generalizing a with
  | nil => exact ⟨rfl,rfl⟩
  | cons e es ih =>
    obtain ⟨hlt,hes⟩ := List.pairwise_cons.mp hinc
    have hexact' := fun e' he' => hexact e' (List.mem_cons_of_mem e he')
    have hdeliver : deliver js (e::es) a = deliver js es (receiveEvent js a e) := rfl
    by_cases hnew : a.cursor.lastSeq < e.seq
    · have habove : EventLog.above number a.cursor.lastSeq (e::es) =
          e::EventLog.above number e.seq es := by
        have hall : ∀ (last : ℕ), last ≤ e.seq → EventLog.above number last es = es := by
          intro last hle
          rw [EventLog.above, List.filter_eq_self]
          intro x hx
          have hx : (e.seq : ℤ) < x.seq := hlt x hx
          exact decide_eq_true (show (last : ℤ) < x.seq by omega)
        have hhead : EventLog.above number a.cursor.lastSeq (e::es) =
            e::EventLog.above number a.cursor.lastSeq es := by
          apply List.filter_cons_of_pos
          simp [number, hnew]
        rw [hhead, hall _ hnew.le, hall _ (le_refl _)]
      have hone := receiveEvent_new js a e (hexact e List.mem_cons_self) hnew
      have ih := ih (receiveEvent js a e) hes hexact'
      rw [hdeliver, habove]
      rw [hone] at ih ⊢
      refine ⟨ih.1,ih.2.trans ?_⟩
      have happend := EventLog.reach_append number a.cursor.lastSeq [e] (EventLog.above number e.seq es)
      rw [List.singleton_append] at happend
      rw [happend]
      rfl
    · have habove : EventLog.above number a.cursor.lastSeq (e::es) =
          EventLog.above number a.cursor.lastSeq es := by
        apply List.filter_cons_of_neg
        simp [number, hnew]
      rw [hdeliver, habove, receiveEvent_old js a e (hexact e List.mem_cons_self) (by omega)]
      exact ih a hes hexact'

/-! ## Connection after connection -/

/-- While the run is followed, the client has seen the events up to its cursor; all of them,
once it is done. -/
structure Inv (js : Js) (es : List RunEvent) (after : ℕ) (seen : Seen) (s : Follow) : Prop where
  going : s.ending = none → s.acc.cursor.done = false ∧ after ≤ s.acc.cursor.lastSeq ∧
    s.acc.seen = see js (EventLog.window number after s.acc.cursor.lastSeq es) seen
  done : s.ending = some .done → s.acc.seen = see js (EventLog.above number after es) seen

theorem Inv.follow {js : Js} {es : List RunEvent} {after : ℕ} {seen : Seen} {s : Follow}
    (hs : Inv js es after seen s) (hgoing : s.ending = none) (hinc : EventLog.Increasing number es)
    (hexact : ∀ e ∈ es, e.seq ≤ 2^53) {acc : Accumulator} (maxFailures : ℕ)
    (hread : Read js (es.filter (fun e => s.acc.cursor.lastSeq < e.seq)) s.acc acc) :
    Inv js es after seen (s.after maxFailures acc) := by
  obtain ⟨-,hafter,hseen⟩ := hs.going hgoing
  obtain ⟨r,hr,hrseen,hrlast,hrdone⟩ := hread
  rw [above_eq] at hr hrdone
  have hcast : (after : ℤ) ≤ s.acc.cursor.lastSeq := Int.ofNat_le.mpr hafter
  obtain ⟨rest,hrest⟩ := hr
  have hrinc : EventLog.Increasing number r := by
    have habove := hinc.above number s.acc.cursor.lastSeq
    rw [← hrest] at habove
    exact ((EventLog.increasing_append number r rest).mp habove).1
  have hrabove : ∀ e ∈ r, e ∈ es ∧ (s.acc.cursor.lastSeq : ℤ) < number e := fun e he =>
    (EventLog.mem_above number _ es e).mp (hrest ▸ List.mem_append_left rest he)
  have hself : EventLog.above number s.acc.cursor.lastSeq r = r := by
    rw [EventLog.above, List.filter_eq_self]
    intro e he
    simpa using (hrabove e he).2
  have hdeliver := deliver_eq js r s.acc hrinc (fun e he => hexact e (hrabove e he).1)
  rw [hself] at hdeliver
  have hnew : acc.seen = see js (EventLog.window number after s.acc.cursor.lastSeq es++r) seen := by
    rw [see_append, ← hseen, hrseen, hdeliver.1]
  constructor
  · intro hnone
    have hdone : acc.cursor.done = false := by
      by_contra h
      simp [Follow.after, Bool.not_eq_false _ ▸ h] at hnone
    have hreach : (acc.cursor.lastSeq : ℤ) = EventLog.reach number s.acc.cursor.lastSeq r := by
      rw [hrlast, hdeliver.2]
    have hle := (EventLog.le_reach_of_increasing number s.acc.cursor.lastSeq r hrinc
      (fun e he => (hrabove e he).2)).1
    refine ⟨hdone,?_,?_⟩
    · show after ≤ acc.cursor.lastSeq
      omega
    · show acc.seen = see js (EventLog.window number after acc.cursor.lastSeq es) seen
      rw [hnew, hreach, EventLog.window_deliver number after _ es r hinc hcast ⟨rest,hrest⟩]
  · intro hdone
    have hacc : acc.cursor.done = true := by
      by_contra h
      simp only [Follow.after, if_neg h] at hdone
      split at hdone <;> simp at hdone
    show acc.seen = _
    rw [hnew, hrdone hacc, EventLog.window_deliver_all number after _ es hinc hcast]

theorem Inv.step {js : Js} {es : List RunEvent} {after : ℕ} {seen : Seen} {s : Follow}
    (hs : Inv js es after seen s) (hinc : EventLog.Increasing number es) (hexact : ∀ e ∈ es, e.seq ≤ 2^53)
    (maxFailures : ℕ) (c : Connection) (hserves : Serves es s c) (hwhole : Whole s c) :
    Inv js es after seen (RunStream.step js maxFailures s c) := by
  unfold RunStream.step
  split
  · exact hs
  · rename_i hending
    have hgoing : s.ending = none := by simpa using hending
    cases c with
    | failed =>
      exact hs.follow hgoing hinc hexact maxFailures ⟨[],List.nil_prefix,rfl,rfl,fun h => by
        rw [(hs.going hgoing).1] at h
        simp at h⟩
    | fatal => exact ⟨fun h => by simp at h,fun h => by simp at h⟩
    | body frames chunks clean =>
      obtain ⟨fs,status,rfl,hfs,hserved,harrived⟩ := hserves hgoing
      have hread := connection_read js fs status chunks clean s.acc hfs (hs.going hgoing).1 harrived
        (hwhole hgoing)
      rw [hserved] at hread
      exact hs.follow hgoing hinc hexact maxFailures hread

/-- A run that is followed to its end has been seen as in one delivery, if no connection ends
cleanly inside the data of an event and the numbers are exact. -/
theorem resumed_without_loss (js : Js) (maxFailures : ℕ) (es : List RunEvent) (runUuid : Option String)
    (after : ℕ) (conns : List Connection) (hinc : es.Pairwise (fun x y => x.seq < y.seq))
    (hserved : Guarded (RunStream.step js maxFailures) (Serves es) conns
      (Follow.start (createRunAccumulator runUuid after)))
    (hexact : ∀ e ∈ es, e.seq ≤ 2^53)
    (hwhole : Guarded (RunStream.step js maxFailures) Whole conns
      (Follow.start (createRunAccumulator runUuid after)))
    (hdone : (run (RunStream.step js maxFailures) conns
      (Follow.start (createRunAccumulator runUuid after))).ending = some .done) :
    (run (RunStream.step js maxFailures) conns
      (Follow.start (createRunAccumulator runUuid after))).acc.seen =
      (deliver js es (createRunAccumulator runUuid after)).seen := by
  have hincreasing : EventLog.Increasing number es := hinc.imp (fun h => Int.ofNat_lt.mpr h)
  have hstart : Inv js es after (Seen.start runUuid) (Follow.start (createRunAccumulator runUuid after)) := by
    constructor
    · intro _
      have hnone : EventLog.window number after after es = [] := by
        rw [EventLog.window, List.filter_eq_nil_iff]
        intro x _
        simp
      refine ⟨rfl,le_refl _,?_⟩
      show Seen.start runUuid = see js (EventLog.window number after after es) _
      rw [hnone]
      rfl
    · intro h
      simp [Follow.start, createRunAccumulator] at h
  have hinv := guarded_invariant (RunStream.step js maxFailures) (fun s c => Serves es s c ∧ Whole s c)
    (Inv js es after (Seen.start runUuid))
    (fun s c hs hg => hs.step hincreasing hexact maxFailures c hg.1 hg.2) conns _ hstart
    (guarded_and _ conns _ hserved hwhole)
  rw [hinv.done hdone, (deliver_eq js es _ hincreasing hexact).1]
  rfl

def noted : RunEvent := ⟨1,[("type",.str "ack"),("text",.str "noté")],⟨trivial,trivial,trivial⟩⟩

/-- Reads the texts of this run, and strings. -/
def plainJs : Js where
  parse s := if s = String.ofList noted.data then some (.obj noted.payload)
    else if s = String.ofList (doneData "completed") then some (.obj [("status",.str "completed")])
    else none
  string v := (v.asStr).getD "[object Object]"
  number _ := "NaN"

def ended : List Frame := [.done "completed"]

/-- A connection that is lost inside a character, after two pieces. -/
def lost : Connection := .body (.event noted::ended)
  [(bytes (sseText (.event noted::ended))).take 30,((bytes (sseText (.event noted::ended))).take 53).drop 30] false

theorem serves_noted (s : Follow) (chunks : List (List UInt8)) (clean : Bool)
    (hs : s.acc.cursor.lastSeq = 0) (hchunks : chunks.flatten <+: bytes (sseText (.event noted::ended))) :
    Serves [noted] s (.body (.event noted::ended) chunks clean) := by
  intro _
  refine ⟨[.event noted],"completed",rfl,?_,?_,hchunks⟩
  · intro f hf st
    rw [List.mem_singleton.mp hf]
    simp
  · rw [hs]
    rfl

theorem resumed_after_lost : (run (RunStream.step plainJs 40)
    [lost,.failed,.body (.event noted::ended) [bytes (sseText (.event noted::ended))] true]
    (Follow.start (createRunAccumulator none 0))).acc.seen =
    (deliver plainJs [noted] (createRunAccumulator none 0)).seen := by
  have hlast : (RunStream.step plainJs 40 (RunStream.step plainJs 40
      (Follow.start (createRunAccumulator none 0)) lost) .failed).acc.cursor.lastSeq = 0 := by decide +kernel
  have hcut : [(bytes (sseText (.event noted::ended))).take 30,
      ((bytes (sseText (.event noted::ended))).take 53).drop 30].flatten <+:
      bytes (sseText (.event noted::ended)) := by
    have hsame : (bytes (sseText (.event noted::ended))).take 30 =
        ((bytes (sseText (.event noted::ended))).take 53).take 30 := by
      rw [List.take_take]
      rfl
    rw [hsame, List.flatten_cons, List.flatten_cons, List.flatten_nil, List.append_nil,
      List.take_append_drop]
    exact List.take_prefix _ _
  have hserved : Guarded (RunStream.step plainJs 40) (Serves [noted])
      [lost,.failed,.body (.event noted::ended) [bytes (sseText (.event noted::ended))] true]
      (Follow.start (createRunAccumulator none 0)) := by
    rw [Guarded, Guarded, Guarded, Guarded]
    refine ⟨?_,trivial,?_,trivial⟩
    · exact serves_noted _ _ _ rfl hcut
    · exact serves_noted (RunStream.step plainJs 40 (RunStream.step plainJs 40
        (Follow.start (createRunAccumulator none 0)) lost) .failed) _ _ hlast (by simp)
  have hcuts : cutsData (.event noted::ended) [bytes (sseText (.event noted::ended))].flatten.length = false := by
    decide +kernel
  have hwhole : Guarded (RunStream.step plainJs 40) Whole
      [lost,.failed,.body (.event noted::ended) [bytes (sseText (.event noted::ended))] true]
      (Follow.start (createRunAccumulator none 0)) := by
    rw [Guarded, Guarded, Guarded, Guarded]
    exact ⟨fun _ h => absurd h (by decide),trivial,fun _ _ => hcuts,trivial⟩
  have hdone : (run (RunStream.step plainJs 40)
      [lost,.failed,.body (.event noted::ended) [bytes (sseText (.event noted::ended))] true]
      (Follow.start (createRunAccumulator none 0))).ending = some .done := by decide +kernel
  exact resumed_without_loss plainJs 40 [noted] none 0 _ (by simp) hserved (by simp [noted]) hwhole hdone

/-- A proxy ends the stream cleanly inside the data of an event: its number is past the cursor
and its text is not JSON. -/
def cutInData : Connection := .body (.event noted::ended) [(bytes (sseText (.event noted::ended))).take 53] true

theorem cut_event_lost : ¬ ∀ (js : Js) (maxFailures : ℕ) (es : List RunEvent) (runUuid : Option String)
    (after : ℕ) (conns : List Connection), es.Pairwise (fun x y => x.seq < y.seq) →
    Guarded (RunStream.step js maxFailures) (Serves es) conns
      (Follow.start (createRunAccumulator runUuid after)) →
    (run (RunStream.step js maxFailures) conns
      (Follow.start (createRunAccumulator runUuid after))).ending = some .done →
    (run (RunStream.step js maxFailures) conns
      (Follow.start (createRunAccumulator runUuid after))).acc.seen =
      (deliver js es (createRunAccumulator runUuid after)).seen := by
  intro h
  have hlast : (RunStream.step plainJs 40
      (Follow.start (createRunAccumulator none 0)) cutInData).acc.cursor.lastSeq = 1 := by decide +kernel
  have hcut : [(bytes (sseText (.event noted::ended))).take 53].flatten <+:
      bytes (sseText (.event noted::ended)) := by
    rw [List.flatten_cons, List.flatten_nil, List.append_nil]
    exact List.take_prefix _ _
  have hserved : Guarded (RunStream.step plainJs 40) (Serves [noted])
      [cutInData,.body ended [bytes (sseText ended)] true] (Follow.start (createRunAccumulator none 0)) := by
    rw [Guarded, Guarded, Guarded]
    refine ⟨serves_noted _ _ _ rfl hcut,fun _ => ⟨[],"completed",rfl,by simp,?_,by simp⟩,trivial⟩
    rw [hlast]
    rfl
  have hdone : (run (RunStream.step plainJs 40) [cutInData,.body ended [bytes (sseText ended)] true]
      (Follow.start (createRunAccumulator none 0))).ending = some .done := by decide +kernel
  have hsame := h plainJs 40 [noted] none 0 _ (by simp) hserved hdone
  have hcalls : (run (RunStream.step plainJs 40) [cutInData,.body ended [bytes (sseText ended)] true]
      (Follow.start (createRunAccumulator none 0))).acc.seen.calls.length = 0 := by decide +kernel
  rw [hsame] at hcalls
  exact absurd hcalls (by decide +kernel)

end DevForge.ResumedRun
