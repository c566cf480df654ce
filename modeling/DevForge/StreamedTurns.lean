import DevForge.ChatStream
import DevForge.RunStreamBlocks

/-!
# Streamed and whole turns

A completion that arrives in pieces gives the turn that it gives as a whole, but for empty call
identifiers, arguments sent as objects, and a missing finish reason.
-/

set_option autoImplicit false

namespace DevForge.StreamedTurns
open WakeGate (Json)
open WakeGate.Json (asStr)
open ChatStream RunStream RunStreamBlocks

/-! ## Characters -/

theorem continues_three {v : ℕ} (h : 0x7ff < v) (h' : v ≤ 0xffff) (hv : v.isValidChar) :
    continues (UInt8.ofNat (v/4096%16+0xe0)) (UInt8.ofNat (v/64%64+0x80)) = true := by
  unfold Nat.isValidChar at hv
  simp only [continues, ← UInt8.toNat_inj, UInt8.le_iff_toNat_le, UInt8.toNat_ofNat', UInt8.reduceToNat]
  split <;> [skip; split <;> [skip; split <;> [skip; split]]] <;> simp <;> omega

theorem continues_four {v : ℕ} (h : 0xffff < v) (hv : v.isValidChar) :
    continues (UInt8.ofNat (v/262144%8+0xf0)) (UInt8.ofNat (v/4096%64+0x80)) = true := by
  unfold Nat.isValidChar at hv
  simp only [continues, ← UInt8.toNat_inj, UInt8.le_iff_toNat_le, UInt8.toNat_ofNat', UInt8.reduceToNat]
  split <;> [skip; split <;> [skip; split <;> [skip; split]]] <;> simp <;> omega

/-- A character that ends too early is the beginning of one. -/
theorem incomplete_of_part {c : Char} {p q : List UInt8} (h : String.utf8EncodeChar c = p++q) (hp : p ≠ [])
    (hq : q ≠ []) : incomplete p = true := by
  have hv : c.val.toNat.isValidChar := c.valid
  unfold String.utf8EncodeChar at h
  generalize c.val.toNat = v at h hv
  dsimp only at h
  have hv' := hv
  unfold Nat.isValidChar at hv'
  obtain ⟨d,q,rfl⟩ := List.exists_cons_of_ne_nil hq
  split at h
  · rcases p with _ | ⟨a,_ | ⟨b,p⟩⟩ <;> simp at h hp
  · split at h
    · rcases p with _ | ⟨a,_ | ⟨b,p⟩⟩ <;> simp at h hp
      obtain ⟨rfl,-⟩ := h
      simp [incomplete, UInt8.le_iff_toNat_le]
      omega
    · split at h
      · rcases p with _ | ⟨a,_ | ⟨b,_ | ⟨e,p⟩⟩⟩ <;> simp at h hp
        · obtain ⟨rfl,-⟩ := h
          simp [incomplete, UInt8.le_iff_toNat_le]
          omega
        · obtain ⟨rfl,rfl,-⟩ := h
          have hc := continues_three (v := v) (by omega) (by omega) hv
          simp at hc
          simp [incomplete, UInt8.le_iff_toNat_le, hc]
          omega
      · rcases p with _ | ⟨a,_ | ⟨b,_ | ⟨e,_ | ⟨f,p⟩⟩⟩⟩ <;> simp at h hp
        · obtain ⟨rfl,-⟩ := h
          simp [incomplete, UInt8.le_iff_toNat_le]
          omega
        · obtain ⟨rfl,rfl,-⟩ := h
          have hc := continues_four (v := v) (by omega) hv
          simp at hc
          simp [incomplete, UInt8.le_iff_toNat_le, hc]
          omega
        · obtain ⟨rfl,rfl,rfl,-⟩ := h
          have hc := continues_four (v := v) (by omega) hv
          simp at hc
          simp [incomplete, UInt8.le_iff_toNat_le, hc]
          omega

/-- The bytes of a character that has not ended. -/
def Pending (bs : List UInt8) : Prop := bs = [] ∨ ∃ c r, String.utf8EncodeChar c = bs++r ∧ r ≠ []

theorem bytes_append (cs ds : List Char) : bytes (cs++ds) = bytes cs++bytes ds := List.flatMap_append

/-- The bytes of a text, up to anywhere, are its characters up to somewhere and a pending one. -/
theorem fromUtf8_part {cs : List Char} {bs : List UInt8} (h : bs <+: bytes cs) :
    ∃ done rest pending, cs = done++rest ∧ bs = bytes done++pending ∧ Pending pending ∧
      fromUtf8 bs = some (done,pending) := by
  obtain ⟨done,pending,hbs,hdecode,hnext⟩ := StreamDecoder.decode_prefix replacement utf8_code cs bs h
  have hresult : fromUtf8 bs = some (done,pending) ↔ pending = [] ∨ incomplete pending = true := by
    have hd : decodeBytes [] bs = (pending,done) := hdecode
    simp [fromUtf8, hd, show bytes done++pending = bs from hbs.symm, or_iff_not_imp_left]
  rcases hnext with ⟨hp,rest,hrest⟩ | ⟨c,r,⟨rest,hrest⟩,hc,hr,hp⟩
  · exact ⟨done,rest,pending,hrest.symm,hbs,Or.inl hp,hresult.mpr (Or.inl hp)⟩
  · refine ⟨done,c::rest,pending,by simpa using hrest.symm,hbs,Or.inr ⟨c,r,hc,hr⟩,hresult.mpr (Or.inr ?_)⟩
    exact incomplete_of_part hc hp hr

/-- A pending character is no text. -/
theorem Pending.eq_nil {bs : List UInt8} {cs : List Char} (h : Pending bs) (hbs : bs = bytes cs) : cs = [] := by
  cases cs with
  | nil => rfl
  | cons d cs =>
    rcases h with rfl | ⟨c,r,hc,hr⟩
    · exact absurd hbs.symm (by simp [bytes, String.utf8EncodeChar_ne_nil])
    · have hpart := StreamDecoder.decode_part replacement utf8_code c [] bs r hc hr
      have hword := StreamDecoder.decode_word replacement utf8_code d [] (String.utf8EncodeChar d) (bytes cs) rfl
        String.utf8EncodeChar_ne_nil
      rw [show String.utf8EncodeChar d++bytes cs = bs from hbs.symm] at hword
      exact absurd (congrArg Prod.snd (hpart.symm.trans hword)) (List.cons_ne_nil _ _).symm

/-! ## Lines -/

theorem splitOn_append (l m : List Char) : (l++m).splitOn '\n' =
    (l.splitOn '\n').dropLast++((l.splitOn '\n').getLast?.getD []++m).splitOn '\n' := by
  induction l with
  | nil => simp
  | cons c l ih =>
    obtain ⟨p,ps,hp⟩ := List.exists_cons_of_ne_nil (List.splitOn_ne_nil '\n' l)
    by_cases hc : c = '\n'
    · subst hc
      have hcons : ∀ k : List Char, ('\n'::k).splitOn '\n' = []::k.splitOn '\n' := fun k => List.splitOn_append_cons_self_of_not_mem List.not_mem_nil k
      rw [List.cons_append, hcons, hcons, ih, hp]
      rfl
    · rw [hp] at ih
      cases ps with
      | nil =>
        rw [splitOn_step hc hp]
        obtain ⟨q,qs,hq⟩ := List.exists_cons_of_ne_nil (List.splitOn_ne_nil '\n' (p++m))
        have hlm : (l++m).splitOn '\n' = q::qs := by simpa [hq] using ih
        rw [List.cons_append, splitOn_step hc hlm]
        have hpm : ((c::p)++m).splitOn '\n' = (c::q)::qs := splitOn_step hc hq
        simpa using hpm.symm
      | cons p' ps =>
        rw [splitOn_step hc hp]
        have hlm : (l++m).splitOn '\n' = p::((p'::ps).dropLast++((p'::ps).getLast?.getD []++m).splitOn '\n') := by
          simpa using ih
        rw [List.cons_append, splitOn_step hc hlm]
        rfl

section
variable (S : Serde)

/-- Nothing but what is kept for later is changed. -/
def keep (l : List Char) (bs : List UInt8) (a : Accumulator) : Accumulator := { a with line := l, bytes := bs }

@[simp] theorem keep_line (l : List Char) (bs : List UInt8) (a : Accumulator) : (keep l bs a).line = l := rfl

@[simp] theorem keep_bytes (l : List Char) (bs : List UInt8) (a : Accumulator) : (keep l bs a).bytes = bs := rfl

@[simp] theorem keep_keep (l m : List Char) (bs cs : List UInt8) (a : Accumulator) :
    keep l bs (keep m cs a) = keep l bs a := rfl

theorem keep_self (a : Accumulator) : keep a.line a.bytes a = a := rfl

theorem handleLine_keep (line l : List Char) (bs : List UInt8) (a : Accumulator) :
    handleLine S (keep l bs a) line = keep l bs (handleLine S a line) := by
  unfold handleLine
  split
  · rfl
  · cases payload S line with
    | none => rfl
    | some v =>
      show receive S v (keep l bs a) = keep l bs (receive S v a)
      unfold receive
      split <;> rfl

theorem foldl_handleLine_keep (lines : List (List Char)) (l : List Char) (bs : List UInt8) (a : Accumulator) :
    lines.foldl (handleLine S) (keep l bs a) = keep l bs (lines.foldl (handleLine S) a) := by
  induction lines generalizing a with
  | nil => rfl
  | cons line lines ih => rw [List.foldl_cons, List.foldl_cons, handleLine_keep, ih]

theorem pushStr_eq (chunk : List Char) (a : Accumulator) : pushStr S chunk a =
    keep (((a.line++chunk).splitOn '\n').getLast?.getD []) a.bytes
      (((a.line++chunk).splitOn '\n').dropLast.foldl (handleLine S) a) :=
  foldl_handleLine_keep S _ _ a.bytes a

theorem pushStr_keep (chunk : List Char) (bs : List UInt8) (a : Accumulator) :
    pushStr S chunk (keep a.line bs a) = keep (pushStr S chunk a).line bs (pushStr S chunk a) := by
  rw [pushStr_eq, pushStr_eq, foldl_handleLine_keep]
  simp

theorem dropLast_append_splitOn (l : List (List Char)) (m : List Char) :
    (l++m.splitOn '\n').dropLast = l++(m.splitOn '\n').dropLast ∧
      (l++m.splitOn '\n').getLast? = (m.splitOn '\n').getLast? := by
  have hne : m.splitOn '\n' ≠ [] := List.splitOn_ne_nil '\n' m
  rw [List.dropLast_append_of_ne_nil hne, List.getLast?_append]
  obtain ⟨x,hx⟩ := List.getLast?_isSome.mpr hne |> Option.isSome_iff_exists.mp
  simp [hx]

/-- Text that arrives in two pieces. -/
theorem pushStr_append (x y : List Char) (a : Accumulator) : pushStr S (x++y) a = pushStr S y (pushStr S x a) := by
  rw [pushStr_eq S y, pushStr_eq S x, pushStr_eq S (x++y), foldl_handleLine_keep, ← List.append_assoc,
    splitOn_append (a.line++x) y, (dropLast_append_splitOn _ _).1, (dropLast_append_splitOn _ _).2, List.foldl_append]
  simp

theorem pushStr_nil {a : Accumulator} (h : '\n' ∉ a.line) : pushStr S [] a = a := by
  rw [pushStr_eq, List.append_nil, List.splitOn_eq_singleton h]
  exact keep_self a

theorem last_no_break (l : List Char) : '\n' ∉ (l.splitOn '\n').getLast?.getD [] := by
  induction l with
  | nil => simp
  | cons c l ih =>
    obtain ⟨p,ps,hp⟩ := List.exists_cons_of_ne_nil (List.splitOn_ne_nil '\n' l)
    rw [hp] at ih
    by_cases hc : c = '\n'
    · subst hc
      rw [show ('\n'::l).splitOn '\n' = []::l.splitOn '\n' from List.splitOn_append_cons_self_of_not_mem List.not_mem_nil l, hp,
        List.getLast?_cons_cons]
      exact ih
    · rw [splitOn_step hc hp]
      cases ps with
      | nil =>
        simp only [List.getLast?_singleton, Option.getD_some, List.mem_cons, not_or] at ih ⊢
        exact ⟨Ne.symm hc,ih⟩
      | cons q ps => simpa using ih

/-- The bytes of a text may be cut anywhere. -/
theorem pushBytes_all (parts : List (List UInt8)) (cs : List Char) (a : Accumulator)
    (hbytes : a.bytes++parts.flatten = bytes cs) (hp : Pending a.bytes) (hl : '\n' ∉ a.line) :
    parts.foldl (pushBytes S) a = keep (pushStr S cs a).line [] (pushStr S cs a) := by
  induction parts generalizing cs a with
  | nil =>
    rw [List.flatten_nil, List.append_nil] at hbytes
    have hcs := hp.eq_nil hbytes
    subst hcs
    rw [pushStr_nil S hl, List.foldl_nil, show ([] : List UInt8) = a.bytes from hbytes.symm, keep_self]
  | cons chunk parts ih =>
    rw [List.flatten_cons, ← List.append_assoc] at hbytes
    obtain ⟨done,rest,pending,rfl,hbs,hpending,hread⟩ := fromUtf8_part ⟨parts.flatten,hbytes⟩
    have hpush : pushBytes S a chunk = keep (pushStr S done a).line pending (pushStr S done a) := by
      rw [← pushStr_keep]
      simp only [pushBytes, hread]
      rfl
    rw [List.foldl_cons, hpush, ih rest, pushStr_keep, keep_keep, keep_line, ← pushStr_append]
    · rw [hbs, bytes_append, List.append_assoc] at hbytes
      exact List.append_cancel_left hbytes
    · exact hpending
    · rw [keep_line, pushStr_eq]
      exact last_no_break _

/-! ## Values -/

/-- What a turn is made of. -/
structure Core where
  content : String
  calls : SortedMap ℕ PartialCall
  finish : Option String

def core (a : Accumulator) : Core := ⟨a.content,a.calls,a.finish⟩

def absorb (c : Core) (v : Json) : Core :=
  ⟨c.content++deltaText v,(pieces v).foldl (mergeCall S) c.calls,(finishText v).or c.finish⟩

def turnOf (c : Core) : AssistantTurn :=
  ⟨c.content,finishedCalls S c.calls,
    c.finish.getD (if (finishedCalls S c.calls).isEmpty then "stop" else "tool_calls")⟩

/-- The values in the lines of a text. -/
def values (text : List Char) : List Json := (text.splitOn '\n').filterMap (payload S)

theorem core_handleLine {a : Accumulator} {line : List Char}
    (h : ∀ v, payload S line = some v → v.get "error" = none) :
    core (handleLine S a line) = (payload S line).elim (core a) (absorb S (core a)) := by
  unfold handleLine
  split
  · next hd =>
    have hnone : payload S line = none := by simp [payload, hd]
    rw [hnone]
    rfl
  · cases hv : payload S line with
    | none => rfl
    | some v =>
      simp only [receive, h v hv]
      rfl

theorem core_foldl (lines : List (List Char)) (a : Accumulator)
    (h : ∀ v ∈ lines.filterMap (payload S), v.get "error" = none) :
    core (lines.foldl (handleLine S) a) = (lines.filterMap (payload S)).foldl (absorb S) (core a) := by
  induction lines generalizing a with
  | nil => rfl
  | cons line lines ih =>
    cases hv : payload S line with
    | none =>
      rw [List.filterMap_cons_none hv] at h ⊢
      rw [List.foldl_cons, ih _ h, core_handleLine S (by simp [hv]), hv]
      rfl
    | some v =>
      rw [List.filterMap_cons_some hv] at h ⊢
      have hline : ∀ w, payload S line = some w → w.get "error" = none := by
        intro w hw
        cases hv.symm.trans hw
        exact h v List.mem_cons_self
      rw [List.foldl_cons, ih _ (fun w hw => h w (List.mem_cons_of_mem v hw)), core_handleLine S hline, hv]
      rfl

theorem payload_nil : payload S [] = none := rfl

/-- The turn is that of the values in the lines. -/
theorem finish_pushed {text : List Char} {parts : List (List UInt8)} (hparts : parts.flatten = bytes text)
    (herror : ∀ v ∈ values S text, v.get "error" = none) :
    finish S (parts.foldl (pushBytes S) Accumulator.new) =
      turnOf S ((values S text).foldl (absorb S) (core Accumulator.new)) := by
  rw [pushBytes_all S parts text Accumulator.new hparts (Or.inl rfl) List.not_mem_nil, pushStr_eq]
  obtain ⟨lines,last,hlines⟩ : ∃ lines last, text.splitOn '\n' = lines++[last] :=
    ⟨_,_,(List.dropLast_append_getLast (List.splitOn_ne_nil '\n' text)).symm⟩
  have hkeep : ∀ (l : List Char) (bs : List UInt8) (a : Accumulator), core (keep l bs a) = core a := fun _ _ _ => rfl
  have hfold := core_foldl S (lines++[last]) Accumulator.new (by rwa [← hlines])
  rw [List.foldl_append] at hfold
  have hline : Accumulator.new.line++text = text := rfl
  simp only [values, hline, hlines, List.dropLast_concat, List.getLast?_concat, Option.getD_some, keep_keep, keep_line]
  rw [← hfold]
  show turnOf S (core _) = turnOf S (core _)
  congr 1
  split
  · next hempty =>
    have hnil : last = [] := List.isEmpty_iff.mp hempty
    rw [hnil, hkeep]
    rfl
  · rw [show ({ keep last [] (lines.foldl (handleLine S) Accumulator.new) with line := [] } : Accumulator) =
      keep [] [] (lines.foldl (handleLine S) Accumulator.new) from rfl, handleLine_keep, hkeep]
    rfl

/-! ## Pieces of a completion -/

/-- Some pieces carry the text, and the others carry none. -/
def Carried (whole : Option String) (parts : List (Option String)) : Prop := ∀ s, some s ∈ parts ↔ whole = some s

def given : Option Json → Bool
  | none | some .null => false
  | some _ => true

def joined : List String → String
  | [] => ""
  | s::l => s++joined l

/-- A text is cut into texts; any other value comes in one piece. -/
def Splits (whole : Option Json) (parts : List (Option Json)) : Prop :=
  match whole with
  | some (.str s) => ∃ texts, parts.filter given = texts.map (fun t => some (.str t)) ∧ joined texts = s
  | whole => parts.filter given = [whole].filter given

structure CallPieces (call : Json) (parts : List Json) : Prop where
  nonempty : parts ≠ []
  id : Carried (idText call) (parts.map idText)
  name : Carried (nameText call) (parts.map nameText)
  arguments : Splits (argumentsField call) (parts.map argumentsField)

/-- The values of a stream are pieces of the completion, those of its calls under their positions. -/
structure Delivers (data : Json) (vs : List Json) : Prop where
  noError : ∀ v ∈ vs, v.get "error" = none
  content : Splits (contentField (message data)) (vs.map (fun v => contentField (delta v)))
  finish : Carried (finishText data) (vs.map finishText)
  within : ∀ p ∈ vs.flatMap pieces, p.1 < (callsField (message data)).length
  calls : ∀ i call, (callsField (message data))[i]? = some call →
    CallPieces call (((vs.flatMap pieces).filter (fun p => p.1 = i)).map Prod.snd)

theorem joined_filter (f : Option Json → String) (hnone : f none = "") (hnull : f (some .null) = "")
    (parts : List (Option Json)) : joined (parts.map f) = joined ((parts.filter given).map f) := by
  induction parts with
  | nil => rfl
  | cons p parts ih =>
    by_cases hg : given p = true
    · rw [List.filter_cons_of_pos hg, List.map_cons, List.map_cons, joined, joined, ih]
    · have hp : f p = "" := by
        rcases p with _ | ⟨_ | _⟩ <;> first | assumption | exact absurd rfl hg
      rw [List.filter_cons_of_neg hg, List.map_cons, joined, hp, ih, String.empty_append]

/-- The texts of the pieces make up the text of the whole. -/
theorem Splits.joined_eq {whole : Option Json} {parts : List (Option Json)} (h : Splits whole parts)
    (f : Option Json → String) (hnone : f none = "") (hnull : f (some .null) = "")
    (hstr : ∀ t, f (some (.str t)) = t) : joined (parts.map f) = f whole := by
  rw [joined_filter f hnone hnull]
  have hother : parts.filter given = [whole].filter given → joined ((parts.filter given).map f) = f whole := by
    intro heq
    rw [heq, ← joined_filter f hnone hnull]
    simp [joined]
  unfold Splits at h
  split at h
  · next s =>
    obtain ⟨texts,htexts,rfl⟩ := h
    have hmap : (texts.map (fun t => some (Json.str t))).map f = texts := by
      rw [List.map_map]
      exact List.map_id'' hstr texts
    rw [htexts, hmap, hstr]
  · exact hother h

/-! ## One call -/

def mergeParts (parts : List Json) (c : PartialCall) : PartialCall := parts.foldl (fun c tc => mergeInto S tc c) c

/-- The call, had it come in one piece. -/
def wholePiece (tc : Json) : PartialCall :=
  ⟨(idText tc).getD "",(nameText tc).getD "",argText S (argumentsField tc)⟩

theorem mergeParts_args (parts : List Json) (c : PartialCall) : (mergeParts S parts c).args =
    c.args++joined (parts.map (fun tc => argText S (argumentsField tc))) := by
  unfold mergeParts
  induction parts generalizing c with
  | nil => simp [joined]
  | cons tc parts ih =>
    rw [List.foldl_cons, ih]
    simp [mergeInto, joined, String.append_assoc]

theorem mergeParts_id {id : String} (parts : List Json) (c : PartialCall)
    (hparts : ∀ tc ∈ parts, ∀ s, idText tc = some s → s = id)
    (h : c.id = id ∨ (c.id = "" ∧ some id ∈ parts.map idText)) : (mergeParts S parts c).id = id := by
  unfold mergeParts
  induction parts generalizing c with
  | nil => simpa using h
  | cons tc parts ih =>
    apply ih
    · exact fun t ht => hparts t (List.mem_cons_of_mem tc ht)
    · have htc := hparts tc List.mem_cons_self
      cases hid : idText tc with
      | none => simpa [mergeInto, hid] using h
      | some s =>
        obtain rfl := htc s hid
        left
        simp only [mergeInto, hid, Option.getD_some]
        split
        · rfl
        · next hkeep =>
          rcases h with h | ⟨h,-⟩
          · exact h
          · have hs : s = "" := by simpa [h] using hkeep
            rw [h, hs]

theorem mergeName_same (name : String) (c : PartialCall) (h : c.name = "" ∨ c.name = name) :
    mergeName (some name) c = name := by
  unfold mergeName
  dsimp only
  split
  · rfl
  · next hne =>
    have hname := h.resolve_left hne
    rw [if_neg]
    · exact hname
    · simp [hname]

theorem mergeParts_name {name : String} (parts : List Json) (c : PartialCall)
    (hparts : ∀ tc ∈ parts, ∀ s, nameText tc = some s → s = name)
    (h : c.name = name ∨ (c.name = "" ∧ some name ∈ parts.map nameText)) : (mergeParts S parts c).name = name := by
  unfold mergeParts
  induction parts generalizing c with
  | nil => simpa using h
  | cons tc parts ih =>
    apply ih
    · exact fun t ht => hparts t (List.mem_cons_of_mem tc ht)
    · have htc := hparts tc List.mem_cons_self
      cases hname : nameText tc with
      | none => simpa [mergeInto, mergeName, hname] using h
      | some s =>
        obtain rfl := htc s hname
        left
        simp only [mergeInto, hname]
        exact mergeName_same s c (h.symm.imp_left And.left)

theorem Carried.of_mem {whole : Option String} {parts : List Json} {f : Json → Option String}
    (h : Carried whole (parts.map f)) : ∀ tc ∈ parts, ∀ s, f tc = some s → s = whole.getD "" := by
  intro tc htc s hs
  have hwhole := (h s).mp (hs ▸ List.mem_map_of_mem htc)
  rw [hwhole, Option.getD_some]

theorem Carried.found {whole : Option String} {parts : List Json} {f : Json → Option String}
    (h : Carried whole (parts.map f)) :
    "" = whole.getD "" ∨ (("" : String) = "" ∧ some (whole.getD "") ∈ parts.map f) := by
  cases whole with
  | none => exact Or.inl rfl
  | some s => exact Or.inr ⟨rfl,(h s).mpr rfl⟩

/-- The pieces of a call make up the call. -/
theorem CallPieces.merged {call : Json} {parts : List Json} (h : CallPieces call parts) :
    mergeParts S parts PartialCall.default = wholePiece S call := by
  have hid := mergeParts_id S parts PartialCall.default h.id.of_mem h.id.found
  have hname := mergeParts_name S parts PartialCall.default h.name.of_mem h.name.found
  have hargs := mergeParts_args S parts PartialCall.default
  have hjoined := h.arguments.joined_eq (argText S) rfl rfl (fun _ => rfl)
  rw [List.map_map] at hjoined
  rw [show (fun tc => argText S (argumentsField tc)) = argText S ∘ argumentsField from rfl, hjoined] at hargs
  cases hm : mergeParts S parts PartialCall.default with
  | mk id name args =>
    rw [hm] at hid hname hargs
    dsimp only at hid hname hargs
    rw [hid, hname, hargs, wholePiece]
    simp [PartialCall.default]

/-! ## All calls -/

/-- Every call has its own identifier, as far as it has one. -/
def Known (ids : ℕ → String) (m : SortedMap ℕ PartialCall) : Prop :=
  ∀ i c, m.get i = some c → c.id = "" ∨ c.id = ids i

theorem known_empty (ids : ℕ → String) : Known ids SortedMap.empty := by
  intro i c hc
  rw [SortedMap.get_empty] at hc
  cases hc

theorem mergeCall_known {ids : ℕ → String} {m : SortedMap ℕ PartialCall} (hm : Known ids m) {p : ℕ × Json}
    (hp : ∀ s, idText p.2 = some s → s = ids p.1) :
    mergeCall S m p = m.alter p.1 (fun c => mergeInto S p.2 (c.getD PartialCall.default)) ∧ Known ids (mergeCall S m p) := by
  have hid : (idText p.2).getD "" = "" ∨ (idText p.2).getD "" = ids p.1 := by
    cases hs : idText p.2 with
    | none => exact Or.inl rfl
    | some s => exact Or.inr (hp s hs)
  have hfree : freeIndex ((idText p.2).getD "") m p.1 = p.1 := by
    unfold freeIndex
    cases hc : m.get p.1 with
    | none => rfl
    | some c =>
      dsimp only
      rw [if_neg]
      rcases hid with hid | hid <;> rcases hm p.1 c hc with hk | hk <;> simp [hid, hk]
  have halter : mergeCall S m p = m.alter p.1 (fun c => mergeInto S p.2 (c.getD PartialCall.default)) := by
    rw [mergeCall, hfree]
  refine ⟨halter,?_⟩
  intro i c hc
  rw [halter, SortedMap.get_alter] at hc
  by_cases hi : i = p.1
  · rw [if_pos hi] at hc
    cases hc
    have hold : ((m.get p.1).getD PartialCall.default).id = "" ∨ ((m.get p.1).getD PartialCall.default).id = ids p.1 := by
      cases hg : m.get p.1 with
      | none => exact Or.inl rfl
      | some c => exact hm p.1 c hg
    rw [hi]
    simp only [mergeInto]
    split
    · exact hid
    · exact hold
  · rw [if_neg hi] at hc
    exact hm i c hc

/-- The pieces under an index are merged into its call, one after the other. -/
theorem merged_get {ids : ℕ → String} (ps : List (ℕ × Json)) (m : SortedMap ℕ PartialCall) (hm : Known ids m)
    (hps : ∀ p ∈ ps, ∀ s, idText p.2 = some s → s = ids p.1) (i : ℕ) :
    (ps.foldl (mergeCall S) m).get i =
      if (ps.filter (fun p => p.1 = i)).map Prod.snd = [] then m.get i
      else some (mergeParts S ((ps.filter (fun p => p.1 = i)).map Prod.snd) ((m.get i).getD PartialCall.default)) := by
  induction ps generalizing m with
  | nil => rfl
  | cons p ps ih =>
    obtain ⟨halter,hknown⟩ := mergeCall_known S hm (hps p List.mem_cons_self)
    rw [List.foldl_cons, ih _ hknown (fun q hq => hps q (List.mem_cons_of_mem p hq)), halter, SortedMap.get_alter]
    by_cases hi : p.1 = i
    · rw [List.filter_cons_of_pos (by simpa using hi), List.map_cons, if_neg (List.cons_ne_nil _ _), if_pos hi.symm, hi]
      split
      · next hnil =>
        rw [hnil]
        rfl
      · rfl
    · rw [List.filter_cons_of_neg (by simpa using hi), if_neg (Ne.symm hi)]

/-- The calls of a completion, merged from its pieces. -/
theorem Delivers.merged {data : Json} {vs : List Json} (h : Delivers data vs) :
    ((vs.flatMap pieces).foldl (mergeCall S) SortedMap.empty).entries =
      (SortedMap.ofList ((callsField (message data)).map (wholePiece S))).entries := by
  apply SortedMap.entries_eq
  intro i
  have hids : ∀ p ∈ vs.flatMap pieces, ∀ s, idText p.2 = some s →
      s = (((callsField (message data))[p.1]?).bind idText).getD "" := by
    intro p hp s hs
    have hcall := List.getElem?_eq_getElem (h.within p hp)
    rw [hcall, Option.bind_some]
    apply (h.calls p.1 _ hcall).id.of_mem p.2 _ s hs
    exact List.mem_map_of_mem (List.mem_filter.mpr ⟨hp,by simp⟩)
  rw [merged_get S _ _ (known_empty (fun i => (((callsField (message data))[i]?).bind idText).getD "")) hids i,
    SortedMap.get_ofList, List.getElem?_map]
  cases hcall : (callsField (message data))[i]? with
  | none =>
    have hlen := List.getElem?_eq_none_iff.mp hcall
    rw [if_pos]
    · rfl
    · rw [List.map_eq_nil_iff, List.filter_eq_nil_iff]
      intro p hp hpi
      have := h.within p hp
      simp only [decide_eq_true_eq] at hpi
      omega
  | some call =>
    have hpieces := h.calls i call hcall
    rw [if_neg hpieces.nonempty]
    exact congrArg some (hpieces.merged S)

/-! ## Turns -/

theorem foldl_absorb (vs : List Json) (c : Core) :
    (vs.foldl (absorb S) c).content = c.content++joined (vs.map deltaText) ∧
      (vs.foldl (absorb S) c).calls = (vs.flatMap pieces).foldl (mergeCall S) c.calls := by
  induction vs generalizing c with
  | nil => exact ⟨by simp [joined],rfl⟩
  | cons v vs ih =>
    rw [List.foldl_cons, (ih _).1, (ih _).2, List.flatMap_cons, List.foldl_append]
    exact ⟨by simp [absorb, joined, String.append_assoc],rfl⟩

theorem foldl_finish {whole : Option String} (vs : List Json) (c : Core)
    (hvs : ∀ v ∈ vs, ∀ s, finishText v = some s → whole = some s)
    (h : c.finish = whole ∨ (c.finish = none ∧ ∀ s, whole = some s → some s ∈ vs.map finishText)) :
    (vs.foldl (absorb S) c).finish = whole := by
  induction vs generalizing c with
  | nil =>
    rcases h with h | ⟨h,hwhole⟩
    · exact h
    · cases whole with
      | none => exact h
      | some s => exact absurd (hwhole s rfl) List.not_mem_nil
  | cons v vs ih =>
    apply ih
    · exact fun w hw => hvs w (List.mem_cons_of_mem v hw)
    · cases hv : finishText v with
      | some s => exact Or.inl (by rw [absorb, hv, hvs v List.mem_cons_self s hv, Option.some_or])
      | none => simpa [absorb, hv] using h

theorem Delivers.finished {data : Json} {vs : List Json} (h : Delivers data vs) :
    (vs.foldl (absorb S) (core Accumulator.new)).finish = finishText data := by
  apply foldl_finish
  · exact fun v hv s hs => (h.finish s).mp (hs ▸ List.mem_map_of_mem hv)
  · exact Or.inr ⟨rfl,fun s hs => (h.finish s).mpr hs⟩

theorem Delivers.contents {data : Json} {vs : List Json} (h : Delivers data vs) :
    (vs.foldl (absorb S) (core Accumulator.new)).content = (turnFromCompletion S data).content := by
  have hjoined := h.content.joined_eq (fun v => (v.bind asStr).getD "") rfl rfl (fun _ => rfl)
  rw [List.map_map] at hjoined
  rw [(foldl_absorb S vs _).1]
  exact (String.empty_append).trans hjoined

theorem zipIdx_positions {β : Type*} (l : List β) (n : ℕ) :
    ((l.zipIdx n).map Prod.swap).zipIdx n = (l.zipIdx n).map (fun p => (p.swap,p.2)) := by
  induction l generalizing n with
  | nil => rfl
  | cons b l ih =>
    rw [List.zipIdx_cons, List.map_cons, List.map_cons, List.zipIdx_cons, ih]

/-- A call as the stream finishes it. -/
def streamedCall (tc : Json) (i : ℕ) : Option ToolCallRequest :=
  if (nameText tc).getD "" = "" then none else some (finishedCall S i (wholePiece S tc))

theorem finishedCalls_eq {m : SortedMap ℕ PartialCall} {calls : List Json}
    (h : m.entries = (SortedMap.ofList (calls.map (wholePiece S))).entries) :
    finishedCalls S m = calls.zipIdx.filterMap (fun p => streamedCall S p.1 p.2) := by
  have hentries : m.entries.zipIdx = (calls.zipIdx.map (fun p => (wholePiece S p.1,p.2))).map (fun p => (p.swap,p.2)) := by
    rw [h, SortedMap.ofList, zipIdx_positions, List.zipIdx_map]
    rfl
  rw [finishedCalls, hentries]
  induction calls.zipIdx with
  | nil => rfl
  | cons p l ih =>
    by_cases hname : (nameText p.1).getD "" = ""
    · rw [List.filterMap_cons_none (f := fun p : Json × ℕ => streamedCall S p.1 p.2) (if_pos hname), List.map_cons, List.map_cons,
        List.filter_cons_of_neg (by simp [wholePiece, hname])]
      exact ih
    · rw [List.filterMap_cons_some (f := fun p : Json × ℕ => streamedCall S p.1 p.2) (if_neg hname), List.map_cons, List.map_cons,
        List.filter_cons_of_pos (by simp [wholePiece, hname]), List.map_cons, ih]
      rfl

/-- Two ways to read the elements of a list, which drop the same ones. -/
theorem filterMap_eq_iff {α β : Type*} (f g : α → Option β) (l : List α) (h : ∀ a ∈ l, f a = none ↔ g a = none) :
    l.filterMap f = l.filterMap g ↔ ∀ a ∈ l, f a = g a := by
  induction l with
  | nil => simp
  | cons a l ih =>
    have ih := ih (fun b hb => h b (List.mem_cons_of_mem a hb))
    have ha := h a List.mem_cons_self
    rw [List.forall_mem_cons, ← ih]
    cases hf : f a with
    | none =>
      rw [List.filterMap_cons_none hf, List.filterMap_cons_none (ha.mp hf), ha.mp hf]
      simp
    | some b =>
      cases hg : g a with
      | none => exact absurd (ha.mpr hg) (by simp [hf])
      | some c => simp [List.filterMap_cons_some hf, List.filterMap_cons_some hg]

theorem callAt_ne_empty (i : ℕ) : callAt i ≠ "" := by
  intro h
  have hl := congrArg String.toList h
  rw [callAt, String.toList_append] at hl
  exact absurd hl (List.append_ne_nil_of_left_ne_nil (by decide) _)

/-- The call has a name, so that it is kept. -/
def named (tc : Json) : Prop := (nameText tc).getD "" ≠ ""

theorem argumentsOf_finished (text : String) :
    (if trim text = "" then .obj [] else argumentsOf S text) = argumentsOf S text := by
  split
  · next h => rw [argumentsOf, S.blank text h, Option.getD_none]
  · rfl

theorem argumentsOf_empty : argumentsOf S "" = .obj [] := by
  rw [argumentsOf, S.blank "" (by decide), Option.getD_none]

/-- Arguments that are an object are printed in a stream, and read as none in a whole message. -/
theorem arguments_eq_iff (tc : Json) : argumentsOf S (argText S (argumentsField tc)) =
    argumentsOf S (((argumentsField tc).bind asStr).getD "\x7b\x7d") ↔
      ∀ ms, argumentsField tc = some (.obj ms) → argumentsOf S (S.print (.obj ms)) = .obj [] := by
  have hbraces : argumentsOf S "\x7b\x7d" = .obj [] := by rw [argumentsOf, S.empty, Option.getD_some]
  cases ha : argumentsField tc with
  | none => simp [argText, hbraces, argumentsOf_empty]
  | some v =>
    cases v with
    | str s => simp [argText, asStr]
    | obj ms => simp [argText, asStr, hbraces]
    | _ => simp [argText, asStr, hbraces, argumentsOf_empty]

theorem streamedCall_eq {tc : Json} (h : named tc) (i : ℕ) : streamedCall S tc i =
    some ⟨if (idText tc).getD "" = "" then callAt i else (idText tc).getD "",(nameText tc).getD "",
      argumentsOf S (argText S (argumentsField tc))⟩ := by
  rw [streamedCall, if_neg h, finishedCall, argumentsOf_finished]
  rfl

theorem call_eq_iff {tc : Json} (h : named tc) (i : ℕ) : streamedCall S tc i = wholeCall S tc i ↔
    idText tc ≠ some "" ∧ ∀ ms, argumentsField tc = some (.obj ms) → argumentsOf S (S.print (.obj ms)) = .obj [] := by
  have hid : (if (idText tc).getD "" = "" then callAt i else (idText tc).getD "") = (idText tc).getD (callAt i) ↔
      idText tc ≠ some "" := by
    cases hs : idText tc with
    | none => simp
    | some s => by_cases hempty : s = "" <;> simp [hempty, callAt_ne_empty]
  rw [streamedCall_eq S h, wholeCall, if_neg h, Option.some_inj, ToolCallRequest.mk.injEq, hid, arguments_eq_iff]
  simp only [true_and]

/-- What a completion must look like for both ways to read it alike. -/
structure Uniform (data : Json) : Prop where
  ids : ∀ tc ∈ callsField (message data), named tc → idText tc ≠ some ""
  arguments : ∀ tc ∈ callsField (message data), named tc →
    ∀ ms, argumentsField tc = some (.obj ms) → argumentsOf S (S.print (.obj ms)) = .obj []
  finish : finishText data = none → ∀ tc ∈ callsField (message data), ¬named tc

theorem calls_eq_iff (calls : List Json) : calls.zipIdx.filterMap (fun p => streamedCall S p.1 p.2) =
    calls.zipIdx.filterMap (fun p => wholeCall S p.1 p.2) ↔ ∀ tc ∈ calls, named tc → idText tc ≠ some "" ∧
      ∀ ms, argumentsField tc = some (.obj ms) → argumentsOf S (S.print (.obj ms)) = .obj [] := by
  rw [filterMap_eq_iff]
  · constructor
    · intro h tc htc hname
      obtain ⟨i,hi,rfl⟩ := List.mem_iff_getElem.mp htc
      have hmem : (calls[i],i) ∈ calls.zipIdx := List.mk_mem_zipIdx_iff_getElem?.mpr (List.getElem?_eq_getElem hi)
      exact (call_eq_iff S hname i).mp (h _ hmem)
    · intro h p hp
      by_cases hname : named p.1
      · have hmem := List.mem_of_getElem? (List.mem_zipIdx_iff_getElem?.mp hp)
        exact (call_eq_iff S hname p.2).mpr (h p.1 hmem hname)
      · have hempty : (nameText p.1).getD "" = "" := not_not.mp hname
        simp [streamedCall, wholeCall, hempty]
  · intro p _
    simp [streamedCall, wholeCall]

theorem no_calls_iff (calls : List Json) :
    calls.zipIdx.filterMap (fun p => streamedCall S p.1 p.2) = [] ↔ ∀ tc ∈ calls, ¬named tc := by
  rw [List.filterMap_eq_nil_iff]
  constructor
  · intro h tc htc hname
    obtain ⟨i,hi,rfl⟩ := List.mem_iff_getElem.mp htc
    have hmem : (calls[i],i) ∈ calls.zipIdx := List.mk_mem_zipIdx_iff_getElem?.mpr (List.getElem?_eq_getElem hi)
    have hnone := h _ hmem
    rw [streamedCall, if_neg hname] at hnone
    cases hnone
  · intro h p hp
    have hmem := List.mem_of_getElem? (List.mem_zipIdx_iff_getElem?.mp hp)
    rw [streamedCall, if_pos (not_not.mp (h p.1 hmem))]

/-- The turn of a stream that delivers a completion. -/
theorem Delivers.streamed {data : Json} {text : List Char} {parts : List (List UInt8)}
    (hdata : Delivers data (values S text)) (hparts : parts.flatten = bytes text) :
    ChatStream.finish S (parts.foldl (pushBytes S) Accumulator.new) =
      ⟨(turnFromCompletion S data).content,
        (callsField (message data)).zipIdx.filterMap (fun p => streamedCall S p.1 p.2),
        (finishText data).getD
          (if ((callsField (message data)).zipIdx.filterMap (fun p => streamedCall S p.1 p.2)).isEmpty then "stop"
            else "tool_calls")⟩ := by
  have hcalls : finishedCalls S ((values S text).foldl (absorb S) (core Accumulator.new)).calls =
      (callsField (message data)).zipIdx.filterMap (fun p => streamedCall S p.1 p.2) := by
    rw [(foldl_absorb S _ _).2]
    exact finishedCalls_eq S (hdata.merged S)
  rw [finish_pushed S hparts hdata.noError, turnOf, hcalls, hdata.contents S, hdata.finished S]

/-- A completion that arrives as bytes, cut anywhere, of lines that hold its pieces, gives the turn of
the whole exactly when it is uniform. -/
theorem streamed_turn_iff {data : Json} {text : List Char} {parts : List (List UInt8)}
    (hdata : Delivers data (values S text)) (hparts : parts.flatten = bytes text) :
    finish S (parts.foldl (pushBytes S) Accumulator.new) = turnFromCompletion S data ↔ Uniform S data := by
  rw [hdata.streamed S hparts, turnFromCompletion, AssistantTurn.mk.injEq, calls_eq_iff]
  simp only [true_and]
  have hfinish : (finishText data).getD
      (if ((callsField (message data)).zipIdx.filterMap (fun p => streamedCall S p.1 p.2)).isEmpty then "stop"
        else "tool_calls") = (finishText data).getD "stop" ↔
      (finishText data = none → ∀ tc ∈ callsField (message data), ¬named tc) := by
    rw [← no_calls_iff S]
    cases finishText data with
    | none => by_cases hnil : (callsField (message data)).zipIdx.filterMap (fun p => streamedCall S p.1 p.2) = [] <;>
        simp [hnil]
    | some s => simp
  rw [hfinish]
  constructor
  · rintro ⟨hc,hf⟩
    exact ⟨fun tc ht hn => (hc tc ht hn).1,fun tc ht hn => (hc tc ht hn).2,hf⟩
  · intro h
    exact ⟨fun tc ht hn => ⟨h.ids tc ht hn,h.arguments tc ht hn⟩,h.finish⟩

end

/-! ## One delta -/

theorem splits_self (v : Option Json) : Splits v [v] := by
  unfold Splits
  split
  · next s => exact ⟨[s],rfl,String.append_empty⟩
  · rfl

theorem carried_self (v : Option String) : Carried v [v] := by
  intro s
  rw [List.mem_singleton, eq_comm]

theorem filter_position {β : Type*} (l : List β) (n i : ℕ) :
    (((l.zipIdx n).map Prod.swap).filter (fun p => p.1 = n+i)).map Prod.snd = l[i]?.toList := by
  induction l generalizing n i with
  | nil => rfl
  | cons b l ih =>
    rw [List.zipIdx_cons, List.map_cons]
    cases i with
    | zero =>
      have hlater : ((l.zipIdx (n+1)).map Prod.swap).filter (fun p => p.1 = n+0) = [] := by
        rw [List.filter_eq_nil_iff]
        intro p hp
        obtain ⟨q,hq,rfl⟩ := List.mem_map.mp hp
        have := List.le_snd_of_mem_zipIdx hq
        simp only [Prod.fst_swap, decide_eq_true_eq]
        omega
      rw [List.filter_cons_of_pos (by simp), hlater]
      rfl
    | succ i =>
      rw [List.filter_cons_of_neg (by simp), show n+(i+1) = n+1+i by omega, ih (n+1) i]
      rfl

/-- A completion that is sent whole, its calls under their positions, is delivered. -/
theorem whole_delivers {data : Json} (herror : data.get "error" = none) (hdelta : delta data = message data)
    (hindex : ∀ p ∈ (callsField (message data)).zipIdx, pieceIndex p.2 p.1 = p.2) : Delivers data [data] := by
  have hpieces : [data].flatMap pieces = (callsField (message data)).zipIdx.map Prod.swap := by
    rw [List.flatMap_singleton, pieces, hdelta]
    exact List.map_congr_left (fun p hp => congrArg (·,p.1) (hindex p hp))
  constructor
  · intro v hv
    rwa [List.mem_singleton.mp hv]
  · rw [List.map_singleton, hdelta]
    exact splits_self _
  · exact carried_self _
  · rw [hpieces]
    intro p hp
    obtain ⟨q,hq,rfl⟩ := List.mem_map.mp hp
    exact (List.getElem?_eq_some_iff.mp (List.mem_zipIdx_iff_getElem?.mp hq)).1
  · intro i call hcall
    have hfilter := filter_position (callsField (message data)) 0 i
    rw [Nat.zero_add, hcall] at hfilter
    rw [hpieces, hfilter]
    exact ⟨List.cons_ne_nil _ _,carried_self _,carried_self _,splits_self _⟩

/-! ## Runs -/

def printed (v : Json) : String := String.ofList (JsonText.text v)

theorem trim_printed (ms : List (String × Json)) : trim (printed (.obj ms)) = printed (.obj ms) := by
  have hopen : isWhitespace '\x7b' = false := rfl
  have hclose : isWhitespace '\x7d' = false := rfl
  simp [printed, JsonText.text, trim, trimBy, hopen, hclose]

theorem printed_head (ms : List (String × Json)) (s : String) (h : s.toList.head? ≠ some '\x7b') :
    printed (.obj ms) ≠ s := by
  rintro rfl
  exact h (by simp [printed, JsonText.text])

theorem trim_printed_ne (ms : List (String × Json)) : trim (printed (.obj ms)) ≠ "" := by
  rw [trim_printed]
  exact printed_head ms "" (by decide)

theorem printed_cons_ne (m : String × Json) (ms : List (String × Json)) : printed (.obj (m::ms)) ≠ "\x7b\x7d" := by
  intro h
  have hlist := congrArg String.toList h
  simp [printed, JsonText.text, JsonText.membersText, JsonText.quoted] at hlist

/-- A library that reads what it prints of these values. -/
def serdeOf (vs : List Json) (h : ∀ v ∈ vs, trim (printed v) ≠ "") : Serde where
  fromStr s := if s = "\x7b\x7d" then some (.obj []) else vs.find? (fun v => printed v = s)
  print := printed
  empty := rfl
  blank s hs := by
    rw [if_neg]
    · rw [List.find?_eq_none]
      intro v hv he
      rw [← of_decide_eq_true he] at hs
      exact h v hv hs
    · rintro rfl
      exact absurd hs (by decide)

theorem serdeOf_reads {vs : List Json} {v : Json} (h : ∀ w ∈ vs, trim (printed w) ≠ "") (hv : printed v ≠ "\x7b\x7d")
    (hfind : vs.find? (fun w => printed w = printed v) = some v) : (serdeOf vs h).fromStr (printed v) = some v := by
  simp only [serdeOf, if_neg hv]
  exact hfind

def callWith (arguments : Json) : Json :=
  .obj [("id",.str "call_a"),("function",.obj [("name",.str "list_files"),("arguments",arguments)])]

def completionWith (arguments : Json) : Json :=
  .obj [("choices",.arr [.obj [("message",.obj [("content",.str "ok"),("tool_calls",.arr [callWith arguments])]),
    ("finish_reason",.str "tool_calls")]])]

theorem completion_delivers (arguments : Json) : Delivers (completionWith arguments) [completionWith arguments] := by
  apply whole_delivers rfl rfl
  intro p hp
  obtain rfl := List.mem_singleton.mp hp
  rfl

/-- The line of a completion. -/
def lineOf (v : Json) : List Char := "data: ".toList++JsonText.text v

theorem lineData_line (ms : List (String × Json)) : lineData (lineOf (.obj ms)) = some (printed (.obj ms)) := by
  have hbreak : isBreak '\x7d' = false := rfl
  have hline : lineOf (.obj ms) = "data: ".toList++ '\x7b'::(JsonText.membersText ms++[ '\x7d' ]) := rfl
  have hkept : trimBreaks (lineOf (.obj ms)) = lineOf (.obj ms) := by
    rw [hline, trimBreaks, ← List.cons_append, ← List.append_assoc, List.rdropWhile_concat_neg _ _ _ (by simp [hbreak])]
  have hspace : trim (String.ofList (' '::JsonText.text (.obj ms))) = trim (printed (.obj ms)) := by
    have hblank : isWhitespace ' ' = true := rfl
    simp [printed, trim, trimBy, hblank]
  rw [lineData, hkept, hline]
  simp only [String.reduceToList, List.cons_append, List.nil_append, List.isPrefixOf_cons_cons, BEq.rfl, Bool.true_and,
    List.isPrefixOf_nil_left, if_true, List.drop_succ_cons, List.drop_zero]
  exact congrArg some (hspace.trans (trim_printed ms))

theorem line_unbroken {ms : List (String × Json)} (hnum : JsonText.NumbersOk (.obj ms)) : '\n' ∉ lineOf (.obj ms) := by
  intro h
  rcases List.mem_append.mp h with h | h
  · exact absurd h (by decide)
  · exact (JsonText.text_inLine _ hnum _ h).1 rfl

theorem payload_line {S : Serde} {ms : List (String × Json)} (hread : S.fromStr (printed (.obj ms)) = some (.obj ms)) :
    payload S (lineOf (.obj ms)) = some (.obj ms) := by
  have hempty : printed (.obj ms) ≠ "" := printed_head ms _ (by decide)
  have hdone : printed (.obj ms) ≠ doneText := printed_head ms _ (by decide)
  rw [payload, lineData_line, Option.bind_some, if_neg (by simp [hempty, hdone]), hread]

theorem values_line {S : Serde} {ms : List (String × Json)} (hnum : JsonText.NumbersOk (.obj ms))
    (hread : S.fromStr (printed (.obj ms)) = some (.obj ms)) : values S (lineOf (.obj ms)) = [.obj ms] := by
  rw [values, List.splitOn_eq_singleton (line_unbroken hnum), List.filterMap_cons_some (payload_line hread),
    List.filterMap_nil]

def noArguments : Json := completionWith (.str "\x7b\x7d")

def plainSerde : Serde := serdeOf [noArguments] (by
  intro v hv
  obtain rfl := List.mem_singleton.mp hv
  exact trim_printed_ne _)

theorem plain_values : values plainSerde (lineOf noArguments) = [noArguments] := by
  apply values_line
  · simp [JsonText.NumbersOk, JsonText.MembersOk, JsonText.ListOk, callWith]
  · exact serdeOf_reads _ (printed_cons_ne _ _) (List.find?_cons_of_pos (decide_eq_true rfl))

theorem plain_uniform : Uniform plainSerde noArguments where
  ids tc htc _ := by
    obtain rfl := List.mem_singleton.mp htc
    exact fun h => absurd (Option.some.inj h) (by decide)
  arguments tc htc _ ms hms := by
    obtain rfl := List.mem_singleton.mp htc
    exact nomatch hms
  finish h := nomatch h

theorem plain_turn : finish plainSerde ([bytes (lineOf noArguments)].foldl (pushBytes plainSerde) Accumulator.new) =
    turnFromCompletion plainSerde noArguments :=
  (streamed_turn_iff plainSerde (plain_values.symm ▸ completion_delivers _) (by simp)).mpr plain_uniform

def objectArguments : Json := .obj [("path",.str "src")]

def objectSerde : Serde := serdeOf [completionWith objectArguments,objectArguments] (by
  intro v hv
  rcases List.mem_cons.mp hv with rfl | hv
  · exact trim_printed_ne _
  · obtain rfl := List.mem_singleton.mp hv
    exact trim_printed_ne _)

theorem object_values : values objectSerde (lineOf (completionWith objectArguments)) = [completionWith objectArguments] := by
  apply values_line
  · simp [JsonText.NumbersOk, JsonText.MembersOk, JsonText.ListOk, callWith, objectArguments]
  · exact serdeOf_reads _ (printed_cons_ne _ _) (List.find?_cons_of_pos (decide_eq_true rfl))

theorem object_read : objectSerde.fromStr (printed objectArguments) = some objectArguments := by
  apply serdeOf_reads _ (printed_cons_ne _ _)
  rw [List.find?_cons_of_neg (by decide +kernel)]
  exact List.find?_cons_of_pos (decide_eq_true rfl)

/-- Arguments that are sent as an object reach the turn of the stream, and not that of the message. -/
theorem object_arguments_differ : ¬∀ (S : Serde) (data : Json) (text : List Char) (parts : List (List UInt8)),
    Delivers data (values S text) → parts.flatten = bytes text →
      finish S (parts.foldl (pushBytes S) Accumulator.new) = turnFromCompletion S data := by
  intro h
  have hdata : Delivers (completionWith objectArguments) (values objectSerde (lineOf (completionWith objectArguments))) :=
    object_values.symm ▸ completion_delivers _
  have hparts : [bytes (lineOf (completionWith objectArguments))].flatten = bytes (lineOf (completionWith objectArguments)) := by
    simp
  have hturn := h objectSerde _ _ _ hdata hparts
  rw [hdata.streamed objectSerde hparts] at hturn
  have hcalls := (calls_eq_iff objectSerde _).mp (congrArg AssistantTurn.toolCalls hturn)
  have hempty := (hcalls (callWith objectArguments) List.mem_cons_self (show _ ≠ _ by decide)).2 _ rfl
  have hobject : argumentsOf objectSerde (printed objectArguments) = objectArguments := by
    rw [argumentsOf, object_read, Option.getD_some]
  have hne := hobject.symm.trans hempty
  exact List.cons_ne_nil _ _ (Json.obj.inj hne)

end DevForge.StreamedTurns
