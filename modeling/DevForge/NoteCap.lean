import DevForge.MemoryIsolation
import DevForge.NewestKept
import Mathlib.Data.Prod.Lex

/-!
# Live notes of a scope

The store in memory under any calls, each at the instant the clock then
shows, which may be an earlier one than before. No user has more than
`MAX_LIVE_NOTES` live notes in a scope, and what a write forgets is older
than every note that stays.
-/

set_option autoImplicit false

namespace DevForge.NoteCap
open MemoryRules MemoryStores MemoryRows MemoryIsolation NewestKept

abbrev Row := MemoryStores.Row MemPlace

/-- A call, with the instant and the uuid that are read for it. -/
structure Visit where
  clock : Instant
  drawn : Uuid
  call : Call

/-- The store when a call comes. -/
def arrive (clock : Instant) (drawn : Uuid) (s : InMemory.MemStore) : InMemory.MemStore :=
  { s with now := clock, next := drawn }

def visit (T : Texts) (D : Dates) (s : InMemory.MemStore) (v : Visit) : InMemory.MemStore :=
  (perform T D (arrive v.clock v.drawn s) v.call).2

def visited (T : Texts) (D : Dates) (vs : List Visit) : InMemory.MemStore :=
  Transition.run (visit T D) vs Store.empty

def noteOf (user : String) (scope : Scope) (r : Row) : Bool :=
  (r.userUuid = user && r.place.scope = scope) && r.tier = .note && r.live

/-- How many live notes a user has in a scope. -/
def held (user : String) (scope : Scope) (s : InMemory.MemStore) : ℕ :=
  s.rows.countP (noteOf user scope)

def Capped (s : InMemory.MemStore) : Prop := ∀ user scope, held user scope s ≤ MAX_LIVE_NOTES

/-- The live notes of a user in a scope, with their places. -/
def notes (user : String) (scope : Scope) (rows : List Row) : List (Row × ℕ) :=
  rows.zipIdx.filter (fun p => noteOf user scope p.1)

/-- Notes are ordered by their last change, then by their insertion. -/
def age (p : Row × ℕ) : ℕ ×ₗ ℕ := toLex (p.1.updatedAt,p.2)

/-- Whose notes a write is about, and in which scope. -/
def target (s : InMemory.MemStore) : Op → Option (String × Scope)
  | .write req _ => some (req.userUuid,req.scope)
  | .correct user uuid _ _ => (InMemory.get user uuid s).map (fun old => (user,old.scope))
  | _ => none

/-- What a write from `s` to `s'` forgets: notes of its user and scope only, when there were
`MAX_LIVE_NOTES` already, and older ones than all that stay. -/
def ForgetsOldest (user : String) (scope : Scope) (s s' : InMemory.MemStore) : Prop :=
  ∀ i r r', s.rows[i]? = some r → s'.rows[i]? = some r' → r.deleted = false → r'.deleted = true →
    noteOf user scope r = true ∧ MAX_LIVE_NOTES ≤ held user scope s ∧
    ∀ q ∈ notes user scope s'.rows, age (r,i) < age q

/-- How many live notes bear a later change than the clock shows. -/
def ahead (user : String) (scope : Scope) (s : InMemory.MemStore) : ℕ :=
  s.rows.countP (fun r => noteOf user scope r && s.now < r.updatedAt)

/-- When the row that is written is forgotten at once. -/
def ForgetsNew (user : String) (scope : Scope) (s s' : InMemory.MemStore) : Prop :=
  ∀ r, s'.rows[s.rows.length]? = some r →
    (r.deleted = true ↔ r.tier = .note ∧ MAX_LIVE_NOTES ≤ ahead user scope s)

def Evicts (user : String) (scope : Scope) (s s' : InMemory.MemStore) : Prop :=
  ForgetsOldest user scope s s' ∧ ForgetsNew user scope s s'

/-- What an operation evicts, when it is a write. -/
def WriteEvicts (T : Texts) (op : Op) (s : InMemory.MemStore) : Prop :=
  ∀ user scope, target s op = some (user,scope) → Evicts user scope s (InMemory.perform T op s).2

/-! ## Forgetting the oldest -/

theorem notes_nodup (user : String) (scope : Scope) (rows : List Row) :
    (notes user scope rows).Nodup := by
  have hindices : (rows.zipIdx.map Prod.snd).Nodup := by
    rw [List.zipIdx_map_snd]
    exact List.nodup_range'
  exact hindices.of_map.filter _

theorem mem_notes {user : String} {scope : Scope} {rows : List Row} {p : Row × ℕ} :
    p ∈ notes user scope rows ↔ rows[p.2]? = some p.1 ∧ noteOf user scope p.1 = true := by
  rw [notes, List.mem_filter, List.mk_mem_zipIdx_iff_getElem?]

theorem notes_length (user : String) (scope : Scope) (rows : List Row) :
    (notes user scope rows).length = rows.countP (noteOf user scope) := by
  rw [notes, show (fun p : Row × ℕ => noteOf user scope p.1) = noteOf user scope ∘ Prod.fst from rfl,
    ← List.countP_eq_length_filter, ← List.countP_map, List.zipIdx_map_fst]

theorem age_eq {rows : List Row} {a b : Row × ℕ} (ha : rows[a.2]? = some a.1)
    (hb : rows[b.2]? = some b.1) (h : age a = age b) : a = b := by
  have hi : a.2 = b.2 := congrArg (fun x => (ofLex x).2) h
  rw [hi, hb] at ha
  exact Prod.ext (Option.some.inj ha).symm hi

theorem later_iff (a b : Row × ℕ) : later a b = true ↔ age b ≤ age a := by
  rw [age, age, Prod.Lex.toLex_le_toLex]
  simp only [later, Bool.or_eq_true, Bool.and_eq_true, decide_eq_true_eq]
  constructor
  · exact Or.imp_right (fun h => ⟨h.1.symm,h.2⟩)
  · exact Or.imp_right (fun h => ⟨h.1.symm,h.2⟩)

section
variable {user : String} {scope : Scope} {same : Row → Bool} {rows : List Row}

theorem oldNotes_eq (hsame : ∀ r, same r = (r.userUuid = user && r.place.scope = scope)) :
    oldNotes same rows = (((notes user scope rows).mergeSort later).drop MAX_LIVE_NOTES).map
      Prod.snd := by
  unfold oldNotes notes noteOf
  congr 4
  funext p
  rw [hsame]

/-- Forgetting leaves every row in its place. -/
theorem getElem?_forgetOldNotes (i : ℕ) : (forgetOldNotes same rows)[i]? = rows[i]?.map (fun r =>
    if (oldNotes same rows).contains i then { r with deleted := true } else r) := by
  rw [forgetOldNotes, List.getElem?_map, List.getElem?_zipIdx, Option.map_map]
  cases rows[i]? <;> simp

theorem zipIdx_forgetOldNotes : (forgetOldNotes same rows).zipIdx = rows.zipIdx.map (fun p =>
    (if (oldNotes same rows).contains p.2 then { p.1 with deleted := true } else p.1,p.2)) := by
  apply List.ext_getElem?
  intro i
  rw [List.getElem?_zipIdx, getElem?_forgetOldNotes, List.getElem?_map, List.getElem?_zipIdx]
  cases rows[i]? <;> simp

theorem noteOf_deleted (r : Row) : noteOf user scope { r with deleted := true } = false := by
  simp [noteOf, Row.live]

theorem notes_forgetOldNotes : notes user scope (forgetOldNotes same rows) =
    (notes user scope rows).filter (fun p => !(oldNotes same rows).contains p.2) := by
  rw [notes, zipIdx_forgetOldNotes, List.filter_map, notes, List.filter_filter]
  have hfilter : (fun p : Row × ℕ => noteOf user scope p.1) ∘ (fun p : Row × ℕ =>
      (if (oldNotes same rows).contains p.2 then { p.1 with deleted := true } else p.1,p.2)) =
      fun p => !(oldNotes same rows).contains p.2 && noteOf user scope p.1 := by
    funext p
    show noteOf user scope (if (oldNotes same rows).contains p.2 = true then
      { p.1 with deleted := true } else p.1) = _
    by_cases h : (oldNotes same rows).contains p.2 = true
    · rw [if_pos h, noteOf_deleted, h]
      rfl
    · rw [if_neg h, Bool.eq_false_iff.mpr h]
      rfl
  rw [hfilter]
  apply Eq.trans (List.map_congr_left ?_) (List.map_id _)
  intro p hp
  have hkept := (List.mem_filter.mp hp).2
  simp only [Bool.and_eq_true, Bool.not_eq_true'] at hkept
  rw [if_neg (by rw [hkept.1]; exact Bool.false_ne_true)]
  rfl

/-- The newest notes of the scope remain. -/
theorem forgetOldNotes_newest (hsame : ∀ r, same r = (r.userUuid = user && r.place.scope = scope)) :
    KeepsNewest age MAX_LIVE_NOTES (notes user scope rows)
      (notes user scope (forgetOldNotes same rows)) := by
  have hsorted : ((notes user scope rows).mergeSort later).Pairwise (fun a b => age b ≤ age a) :=
    (List.pairwise_mergeSort later_trans later_total _).imp (fun h => (later_iff _ _).mp h)
  have hperm := List.mergeSort_perm (notes user scope rows) later
  rw [notes_forgetOldNotes]
  apply keepsNewest_of_descending age (notes_nodup _ _ _) hperm hsorted
  intro a ha
  rw [oldNotes_eq hsame, Bool.not_eq_true', ← Bool.not_eq_true, List.contains_iff_mem, not_iff_not]
  constructor
  · intro hmem
    obtain ⟨b,hb,hi⟩ := List.mem_map.mp hmem
    have hb' := (mem_notes.mp (hperm.mem_iff.mp (List.mem_of_mem_drop hb))).1
    rw [hi, (mem_notes.mp ha).1] at hb'
    rwa [Prod.ext (Option.some.inj hb') hi.symm]
  · exact fun h => List.mem_map_of_mem h

/-- Rows outside the scope are left as they are. -/
theorem forgetOldNotes_row {i : ℕ} {r r' : Row} (hr : rows[i]? = some r)
    (hr' : (forgetOldNotes same rows)[i]? = some r') :
    r' = r ∨ r'.deleted = true ∧ i ∈ oldNotes same rows := by
  rw [getElem?_forgetOldNotes, hr] at hr'
  have h : (if (oldNotes same rows).contains i = true then { r with deleted := true } else r) = r' :=
    Option.some.inj hr'
  by_cases hold : (oldNotes same rows).contains i = true
  · rw [if_pos hold] at h
    exact Or.inr ⟨h ▸ rfl,List.contains_iff_mem.mp hold⟩
  · rw [if_neg hold] at h
    exact Or.inl h.symm

theorem gone_of_old (hsame : ∀ r, same r = (r.userUuid = user && r.place.scope = scope)) {i : ℕ} {r : Row}
    (hr : rows[i]? = some r) (hold : i ∈ oldNotes same rows) :
    (r,i) ∈ notes user scope rows ∧ (r,i) ∉ notes user scope (forgetOldNotes same rows) := by
  constructor
  · rw [oldNotes_eq hsame] at hold
    obtain ⟨b,hb,hi⟩ := List.mem_map.mp hold
    have hb' := mem_notes.mp (List.mem_mergeSort.mp (List.mem_of_mem_drop hb))
    rw [hi, hr] at hb'
    rw [mem_notes, Option.some.inj hb'.1]
    exact ⟨hb'.1 ▸ hr,hb'.2⟩
  · rw [notes_forgetOldNotes, List.mem_filter]
    simp [hold]

theorem held_forgetOldNotes (hsame : ∀ r, same r = (r.userUuid = user && r.place.scope = scope)) :
    (forgetOldNotes same rows).countP (noteOf user scope) ≤ MAX_LIVE_NOTES := by
  have h : KeepsNewest age MAX_LIVE_NOTES (notes user scope rows) _ := forgetOldNotes_newest hsame
  have hlen := h.2.1
  rw [notes_length] at hlen
  omega

/-- Forgetting never makes a live note. -/
theorem held_forgetOldNotes_le :
    (forgetOldNotes same rows).countP (noteOf user scope) ≤ rows.countP (noteOf user scope) := by
  rw [← notes_length, notes_forgetOldNotes, ← notes_length]
  exact List.length_filter_le _ _

end

/-! ## What a write does to the rows -/

/-- A change of rows that makes no live note and forgets none. -/
structure Keeps (f : Row → Row) : Prop where
  deleted : ∀ r, (f r).deleted = r.deleted
  tier : ∀ r, (f r).tier = r.tier
  note : ∀ user scope r, noteOf user scope (f r) = true → noteOf user scope r = true

/-- A live row keeps the date of its last change. -/
def Dated (f : Row → Row) : Prop := ∀ r, (f r).live = true → (f r).updatedAt = r.updatedAt

/-- What a write for a user and scope can do: rows change, or a row is inserted and others change. -/
inductive Writes (T : Texts) (user : String) (scope : Scope) (s : InMemory.MemStore) :
    InMemory.MemStore → Prop
  | changed (f : Row → Row) (hf : Keeps f) (s' : InMemory.MemStore)
      (hs' : s'.rows = s.rows.map f) : Writes T user scope s s'
  | inserted (req : WriteReq) (c : ℚ) (f : Row → Row) (hf : Keeps f) (hd : Dated f)
      (huser : req.userUuid = user) (hscope : req.scope = scope) (s' : InMemory.MemStore)
      (hs' : s'.rows = (InMemory.insertRow T req c s).rows.map f) : Writes T user scope s s'

theorem keeps_id : Keeps id := ⟨fun _ => rfl,fun _ => rfl,fun _ _ _ h => h⟩

theorem keeps_at (u : Uuid) {f : Row → Row} (hf : Keeps f) :
    Keeps (fun r => if r.uuid = u then f r else r) := by
  constructor
  · intro r
    split
    · exact hf.deleted r
    · rfl
  · intro r
    split
    · exact hf.tier r
    · rfl
  · intro user scope r h
    split at h
    · exact hf.note user scope r h
    · exact h

theorem dated_at (u : Uuid) {f : Row → Row} (hf : Dated f) :
    Dated (fun r => if r.uuid = u then f r else r) := by
  intro r h
  dsimp only at h ⊢
  split
  · rename_i hu
    rw [if_pos hu] at h
    exact hf r h
  · rfl

theorem keeps_refresh (req : WriteReq) (c : ℚ) (now : Instant) : Keeps (Row.refresh req c now) :=
  ⟨fun _ => rfl,fun _ => rfl,fun _ _ _ h => h⟩

theorem keeps_reinforce (c : ℚ) (now : Instant) : Keeps (Row.reinforce c now) :=
  ⟨fun _ => rfl,fun _ => rfl,fun _ _ _ h => h⟩

theorem replacedBy_dead (new : Uuid) (now : Instant) (r : Row) :
    (Row.replacedBy new now r).live = false := by
  simp [Row.replacedBy, Row.live]

theorem keeps_replacedBy (new : Uuid) (now : Instant) : Keeps (Row.replacedBy new now) := by
  refine ⟨fun _ => rfl,fun _ => rfl,?_⟩
  intro user scope r h
  rw [noteOf, replacedBy_dead, Bool.and_false] at h
  cases h

theorem dated_replacedBy (new : Uuid) (now : Instant) : Dated (Row.replacedBy new now) := by
  intro r h
  rw [replacedBy_dead] at h
  cases h

theorem keeps_comp {f g : Row → Row} (hf : Keeps f) (hg : Keeps g) : Keeps (fun r => g (f r)) :=
  ⟨fun r => (hg.deleted _).trans (hf.deleted r),fun r => (hg.tier _).trans (hf.tier r),
    fun user scope r h => hf.note user scope r (hg.note user scope _ h)⟩

theorem insertRow_writes (T : Texts) (req : WriteReq) (c : ℚ) (s : InMemory.MemStore) :
    Writes T req.userUuid req.scope s (InMemory.insertRow T req c s) :=
  .inserted req c id keeps_id (fun _ _ => rfl) rfl rfl _ (List.map_id _).symm

theorem write_writes (T : Texts) (req : WriteReq) (known : List String) (s : InMemory.MemStore) :
    Writes T req.userUuid req.scope s (InMemory.writeSync T req known s).2 := by
  unfold InMemory.writeSync
  split
  · exact .changed id keeps_id _ (List.map_id _).symm
  · dsimp only
    split
    · split
      · split
        · exact .changed _ (keeps_at _ (keeps_refresh _ _ _)) _ rfl
        · exact .inserted req _ _ (keeps_at _ (keeps_replacedBy _ _)) (dated_at _ (dated_replacedBy _ _))
            rfl rfl _ rfl
        · rename_i note _
          exact insertRow_writes T (confirmationNote req note) _ s
      · exact insertRow_writes T req _ s
    · split
      · exact .changed _ (keeps_at _ (keeps_reinforce _ _)) _ rfl
      · exact insertRow_writes T req _ s

theorem correct_writes (T : Texts) (user : String) (uuid : Uuid) (content : String)
    (known : List String) (s : InMemory.MemStore) (scope : Scope)
    (h : (InMemory.get user uuid s).map (fun old => (user,old.scope)) = some (user,scope)) :
    Writes T user scope s (InMemory.correct T user uuid content known s).2 := by
  obtain ⟨old,hold,hpair⟩ := Option.map_eq_some_iff.mp h
  have hscope : old.scope = scope := congrArg Prod.snd hpair
  unfold InMemory.correct
  rw [hold]
  dsimp only
  split
  · exact .changed id keeps_id _ (List.map_id _).symm
  · split
    · exact .changed id keeps_id _ (List.map_id _).symm
    · have hpin : Keeps (fun r : Row => { r with pinned := old.pinned }) :=
        ⟨fun _ => rfl,fun _ => rfl,fun _ _ _ h => h⟩
      have hkeeps := keeps_comp (keeps_at old.uuid (keeps_replacedBy s.next s.now)) (keeps_at s.next hpin)
      apply Writes.inserted (correctionReq user old content s.now) 1 _ hkeeps ?_ rfl hscope _ ?_
      · intro r hlive
        dsimp only at hlive ⊢
        have hafter : ∀ x : Row, (if x.uuid = s.next then { x with pinned := old.pinned } else x).updatedAt =
            x.updatedAt := by
          intro x
          split <;> rfl
        have hlive' : ∀ x : Row, (if x.uuid = s.next then { x with pinned := old.pinned } else x).live =
            x.live := by
          intro x
          split <;> rfl
        rw [hlive'] at hlive
        rw [hafter]
        exact dated_at old.uuid (dated_replacedBy s.next s.now) r hlive
      · simp [Store.setRow, List.map_map, Function.comp]

/-! ## The cap -/

theorem held_map {f : Row → Row}
    (hf : ∀ user scope r, noteOf user scope (f r) = true → noteOf user scope r = true)
    (user : String) (scope : Scope) (rows : List Row) :
    (rows.map f).countP (noteOf user scope) ≤ rows.countP (noteOf user scope) := by
  rw [List.countP_map]
  exact List.countP_mono_left (fun r _ h => hf user scope r h)

theorem noteOf_new {T : Texts} {req : WriteReq} {c : ℚ} {u : Uuid} {now : Instant} {user : String}
    {scope : Scope} (h : noteOf user scope (newRow T req (InMemory.place req) c u now) = true) :
    (req.userUuid = user ∧ req.scope = scope) ∧ req.tier = .note := by
  simp only [noteOf, Bool.and_eq_true, decide_eq_true_eq] at h
  exact h.1

theorem held_insertRow (T : Texts) (req : WriteReq) (c : ℚ) (s : InMemory.MemStore) (hs : Capped s) :
    Capped (InMemory.insertRow T req c s) := by
  intro user scope
  have hother (h : ¬((req.userUuid = user ∧ req.scope = scope) ∧ req.tier = .note)) :
      (s.rows++[newRow T req (InMemory.place req) c s.next s.now]).countP (noteOf user scope) ≤
        MAX_LIVE_NOTES := by
    rw [List.countP_append, List.countP_singleton, if_neg (fun hn => h (noteOf_new hn))]
    exact hs user scope
  show List.countP _ (if req.tier = .note then _ else _) ≤ _
  by_cases ht : req.tier = .note
  · rw [if_pos ht]
    by_cases hsame : req.userUuid = user ∧ req.scope = scope
    · apply held_forgetOldNotes
      intro r
      rw [InMemory.sameScope, hsame.1, hsame.2]
    · exact held_forgetOldNotes_le.trans (hother (fun h => hsame h.1))
  · rw [if_neg ht]
    exact hother (fun h => ht h.2)

theorem Writes.capped {T : Texts} {user : String} {scope : Scope} {s s' : InMemory.MemStore}
    (h : Writes T user scope s s') (hs : Capped s) : Capped s' := by
  intro user' scope'
  cases h with
  | changed f hf _ hs' =>
    rw [held, hs']
    exact (held_map hf.note user' scope' s.rows).trans (hs user' scope')
  | inserted req c f hf hd hu hsc _ hs' =>
    rw [held, hs']
    exact (held_map hf.note user' scope' _).trans (held_insertRow T req c s hs user' scope')

theorem note_unless_deleted (user : String) (scope : Scope) (r : Row) (p : Bool)
    (h : noteOf user scope (if p = true then { r with deleted := true } else r) = true) :
    noteOf user scope r = true := by
  split at h
  · rw [noteOf_deleted] at h
    cases h
  · exact h

theorem perform_write (T : Texts) (D : Dates) (s : InMemory.MemStore) (req : WriteReq) (known : List String) :
    (perform T D s (.perform (.write req known))).2 = (InMemory.writeSync T req known s).2 := by
  simp only [perform, MemoryRows.InMemory.perform_write]

theorem perform_capped (T : Texts) (D : Dates) (s : InMemory.MemStore) (c : Call) (hs : Capped s) :
    Capped (perform T D s c).2 := by
  have hmap (f : Row → Row)
      (hf : ∀ user scope r, noteOf user scope (f r) = true → noteOf user scope r = true) :
      Capped { s with rows := s.rows.map f } :=
    fun user scope => (held_map hf user scope s.rows).trans (hs user scope)
  cases c with
  | eraseAll user => exact fun u sc => (List.filter_sublist.countP_le).trans (hs u sc)
  | profileBlock user project agent => exact hs
  | perform op =>
    cases op with
    | write req known =>
      rw [perform_write]
      exact (write_writes T req known s).capped hs
    | correct user uuid content known =>
      cases hget : InMemory.get user uuid s with
      | none =>
        have hsame : (InMemory.correct T user uuid content known s).2 = s := by
          rw [InMemory.correct, hget]
        show Capped (InMemory.correct T user uuid content known s).2
        rw [hsame]
        exact hs
      | some old =>
        exact (correct_writes T user uuid content known s old.scope (by rw [hget]; rfl)).capped hs
    | forget user target => exact hmap _ (fun _ _ r h => note_unless_deleted _ _ r _ h)
    | purgeExpired => exact hmap _ (fun _ _ r h => note_unless_deleted _ _ r _ h)
    | setPinned user uuid pinned =>
      apply hmap
      intro user' scope' r h
      split at h
      · exact h
      · exact h
    | get user uuid => exact hs
    | history user uuid => exact hs
    | list user req => exact hs
    | search user q => exact hs

/-! ## What a write forgets -/

theorem age_lt_iff (p q : Row × ℕ) : age p < age q ↔
    p.1.updatedAt < q.1.updatedAt ∨ p.1.updatedAt = q.1.updatedAt ∧ p.2 < q.2 :=
  Prod.Lex.toLex_lt_toLex

section
variable {T : Texts} {req : WriteReq} {c : ℚ} {s : InMemory.MemStore} {f : Row → Row}

theorem insertRow_rows : (InMemory.insertRow T req c s).rows =
    if req.tier = .note then forgetOldNotes (InMemory.sameScope req)
      (s.rows++[newRow T req (InMemory.place req) c s.next s.now])
    else s.rows++[newRow T req (InMemory.place req) c s.next s.now] := rfl

/-- With the new row, one note more. -/
theorem notes_new (ht : req.tier = .note) :
    (notes req.userUuid req.scope
      (s.rows++[newRow T req (InMemory.place req) c s.next s.now])).length =
      held req.userUuid req.scope s+1 := by
  have hnew : noteOf req.userUuid req.scope (newRow T req (InMemory.place req) c s.next s.now) = true := by
    simp [noteOf, newRow, InMemory.place, Row.live, ht]
  rw [notes_length, List.countP_append, List.countP_singleton, if_pos hnew]
  rfl

theorem mem_notes_map (hf : Keeps f) (hd : Dated f) {user : String} {scope : Scope} {rows : List Row}
    {q : Row × ℕ} (hq : q ∈ notes user scope (rows.map f)) :
    ∃ p ∈ notes user scope rows, age p = age q ∧ p.2 = q.2 := by
  obtain ⟨hrow,hnote⟩ := mem_notes.mp hq
  rw [List.getElem?_map] at hrow
  obtain ⟨r,hr,hfr⟩ := Option.map_eq_some_iff.mp hrow
  rw [← hfr] at hnote
  have hlive : (f r).live = true := by
    rw [noteOf, Bool.and_eq_true] at hnote
    exact hnote.2
  refine ⟨(r,q.2),mem_notes.mpr ⟨hr,hf.note user scope r hnote⟩,?_,rfl⟩
  rw [age, age, ← hfr, hd r hlive]

theorem inserted_oldest (hf : Keeps f) (hd : Dated f) {s' : InMemory.MemStore}
    (hs' : s'.rows = (InMemory.insertRow T req c s).rows.map f) :
    ForgetsOldest req.userUuid req.scope s s' := by
  intro i r r' hr hr' hkept hgone
  have hi := (List.getElem?_eq_some_iff.mp hr).1
  rw [hs', List.getElem?_map] at hr'
  obtain ⟨x,hx,hfx⟩ := Option.map_eq_some_iff.mp hr'
  rw [← hfx, hf.deleted] at hgone
  rw [insertRow_rows] at hx
  have hr0 : (s.rows++[newRow T req (InMemory.place req) c s.next s.now])[i]? = some r := by
    rw [List.getElem?_append_left hi, hr]
  by_cases ht : req.tier = .note
  · rw [if_pos ht] at hx
    rcases forgetOldNotes_row hr0 hx with hsame | ⟨-,hold⟩
    · rw [hsame, hkept] at hgone
      cases hgone
    · have hscope : ∀ r : Row, InMemory.sameScope req r =
          (r.userUuid = req.userUuid && r.place.scope = req.scope) := fun _ => rfl
      have hg := gone_of_old hscope hr0 hold
      have hnewest : KeepsNewest age MAX_LIVE_NOTES
          (notes req.userUuid req.scope (s.rows++[newRow T req (InMemory.place req) c s.next s.now])) _ :=
        forgetOldNotes_newest hscope
      have hfull := hnewest.full age hg.1 hg.2
      rw [notes_new ht] at hfull
      refine ⟨(mem_notes.mp hg.1).2,Nat.le_of_lt_succ hfull,?_⟩
      intro q hq
      rw [hs', insertRow_rows, if_pos ht] at hq
      obtain ⟨p,hp,hage,hplace⟩ := mem_notes_map hf hd hq
      rw [← hage]
      apply lt_of_le_of_ne (hnewest.2.2 p hp (r,i) hg.1 hg.2)
      intro heq
      have hp0 := mem_notes.mp (hnewest.1.subset hp)
      rw [age_eq hr0 hp0.1 heq] at hg
      exact hg.2 hp
  · rw [if_neg ht, hr0] at hx
    rw [← Option.some.inj hx, hkept] at hgone
    cases hgone

/-- The notes that bear a later change than the new row. -/
theorem later_notes :
    (notes req.userUuid req.scope
      (s.rows++[newRow T req (InMemory.place req) c s.next s.now])).countP (fun b =>
        decide (age (newRow T req (InMemory.place req) c s.next s.now,s.rows.length) < age b)) =
      ahead req.userUuid req.scope s := by
  have hcount : ∀ rows : List Row,
      (notes req.userUuid req.scope rows).countP (fun b => decide (s.now < b.1.updatedAt)) =
        rows.countP (fun r => noteOf req.userUuid req.scope r && s.now < r.updatedAt) := by
    intro rows
    have hfst := congrArg (List.countP (fun r => noteOf req.userUuid req.scope r && s.now < r.updatedAt))
      (List.zipIdx_map_fst 0 rows)
    rw [← hfst, List.countP_map, notes, List.countP_filter]
    apply List.countP_congr
    intro p _
    simp [and_comm]
  have hlater : ∀ b ∈ notes req.userUuid req.scope
      (s.rows++[newRow T req (InMemory.place req) c s.next s.now]),
      decide (age (newRow T req (InMemory.place req) c s.next s.now,s.rows.length) < age b) = true ↔
        decide (s.now < b.1.updatedAt) = true := by
    intro b hb
    have hplace := (List.getElem?_eq_some_iff.mp (mem_notes.mp hb).1).1
    rw [List.length_append, List.length_singleton] at hplace
    rw [decide_eq_true_iff, decide_eq_true_iff, age_lt_iff]
    constructor
    · rintro (h | h)
      · exact h
      · omega
    · exact Or.inl
  rw [List.countP_congr hlater, hcount, List.countP_append, List.countP_singleton]
  simp [newRow, ahead]

theorem inserted_new (hf : Keeps f) {s' : InMemory.MemStore}
    (hs' : s'.rows = (InMemory.insertRow T req c s).rows.map f) :
    ForgetsNew req.userUuid req.scope s s' := by
  intro r' hr'
  rw [hs', List.getElem?_map] at hr'
  obtain ⟨x,hx,hfx⟩ := Option.map_eq_some_iff.mp hr'
  rw [← hfx, hf.deleted, hf.tier]
  have hnew : (s.rows++[newRow T req (InMemory.place req) c s.next s.now])[s.rows.length]? =
      some (newRow T req (InMemory.place req) c s.next s.now) := by simp
  rw [insertRow_rows] at hx
  by_cases ht : req.tier = .note
  · rw [if_pos ht] at hx
    have hscope : ∀ r : Row, InMemory.sameScope req r =
        (r.userUuid = req.userUuid && r.place.scope = req.scope) := fun _ => rfl
    have hmem : (newRow T req (InMemory.place req) c s.next s.now,s.rows.length) ∈
        notes req.userUuid req.scope (s.rows++[newRow T req (InMemory.place req) c s.next s.now]) := by
      rw [mem_notes]
      exact ⟨hnew,by simp [noteOf, newRow, InMemory.place, Row.live, ht]⟩
    have hiff := (forgetOldNotes_newest hscope).gone_iff age (notes_nodup _ _ _) hmem
      (fun b hb h => age_eq (mem_notes.mp hb).1 hnew h)
    rw [later_notes] at hiff
    rcases forgetOldNotes_row hnew hx with hsame | ⟨hdel,hold⟩
    · have htier : x.tier = .note := by rw [hsame]; exact ht
      rw [hsame] at hx
      have hin : (newRow T req (InMemory.place req) c s.next s.now,s.rows.length) ∈
          notes req.userUuid req.scope (forgetOldNotes (InMemory.sameScope req)
            (s.rows++[newRow T req (InMemory.place req) c s.next s.now])) :=
        mem_notes.mpr ⟨hx,(mem_notes.mp hmem).2⟩
      constructor
      · intro h
        rw [hsame] at h
        cases h
      · exact fun h => absurd hin (hiff.mpr h.2)
    · rw [getElem?_forgetOldNotes, hnew, Option.map_some, if_pos (List.contains_iff_mem.mpr hold)] at hx
      have htier : x.tier = .note := by rw [← Option.some.inj hx]; exact ht
      exact ⟨fun _ => ⟨htier,hiff.mp (gone_of_old hscope hnew hold).2⟩,fun _ => hdel⟩
  · rw [if_neg ht, hnew] at hx
    rw [← Option.some.inj hx]
    constructor
    · intro h
      cases h
    · exact fun h => absurd h.1 ht

end

theorem Writes.evicts {T : Texts} {user : String} {scope : Scope} {s s' : InMemory.MemStore}
    (h : Writes T user scope s s') : Evicts user scope s s' := by
  cases h with
  | changed f hf _ hs' =>
    constructor
    · intro i r r' hr hr' hkept hgone
      rw [hs', List.getElem?_map, hr] at hr'
      rw [← Option.some.inj hr', hf.deleted, hkept] at hgone
      cases hgone
    · intro r hr
      rw [hs', List.getElem?_map] at hr
      simp at hr
  | inserted req c f hf hd hu hsc _ hs' =>
    rw [← hu, ← hsc]
    exact ⟨inserted_oldest hf hd hs',inserted_new hf hs'⟩

theorem write_evicts (T : Texts) (op : Op) (s : InMemory.MemStore) : WriteEvicts T op s := by
  intro user scope htarget
  cases op with
  | write req known =>
    have hpair := Option.some.inj htarget
    have huser : req.userUuid = user := congrArg Prod.fst hpair
    have hscope : req.scope = scope := congrArg Prod.snd hpair
    rw [← huser, ← hscope, MemoryRows.InMemory.perform_write]
    exact (write_writes T req known s).evicts
  | correct user' uuid content known =>
    have huser : user' = user := by
      obtain ⟨old,-,hpair⟩ := Option.map_eq_some_iff.mp htarget
      exact congrArg Prod.fst hpair
    rw [huser] at htarget ⊢
    exact (correct_writes T user uuid content known s scope htarget).evicts
  | forget user target => cases htarget
  | purgeExpired => cases htarget
  | setPinned user uuid pinned => cases htarget
  | get user uuid => cases htarget
  | history user uuid => cases htarget
  | list user req => cases htarget
  | search user q => cases htarget

theorem visited_capped (T : Texts) (D : Dates) (vs : List Visit) : Capped (visited T D vs) := by
  apply Transition.invariant (visit T D) Capped ?_ vs _ (fun _ _ => Nat.zero_le _)
  intro s v hs
  exact perform_capped T D (arrive v.clock v.drawn s) v.call hs

/-- However the calls and the clock go, the notes are capped, and the next write evicts the
oldest notes of its user and scope only; the note it writes goes at once exactly when as many
notes bear a later change. -/
theorem note_cap (T : Texts) (D : Dates) (vs : List Visit) : Capped (visited T D vs) ∧
    ∀ clock drawn op, WriteEvicts T op (arrive clock drawn (visited T D vs)) :=
  ⟨visited_capped T D vs,fun _ _ op => write_evicts T op _⟩

/-! ## A clock that goes back -/

theorem insertRow_few (T : Texts) {req : WriteReq} (c : ℚ) {s : InMemory.MemStore}
    (ht : req.tier = .note) (hfew : held req.userUuid req.scope s < MAX_LIVE_NOTES) :
    (InMemory.insertRow T req c s).rows =
      s.rows++[newRow T req (InMemory.place req) c s.next s.now] := by
  have hold : oldNotes (InMemory.sameScope req)
      (s.rows++[newRow T req (InMemory.place req) c s.next s.now]) = [] := by
    have hscope : ∀ r : Row, InMemory.sameScope req r =
        (r.userUuid = req.userUuid && r.place.scope = req.scope) := fun _ => rfl
    rw [oldNotes_eq hscope, List.map_eq_nil_iff, List.drop_eq_nil_iff, List.length_mergeSort,
      notes_new ht]
    exact hfew
  rw [insertRow_rows, if_pos ht]
  apply List.ext_getElem?
  intro i
  rw [getElem?_forgetOldNotes, hold]
  simp

def jotted (i : ℕ) : WriteReq where
  userUuid := "ana"
  scope := .user
  projectUuid := none
  tier := .note
  kind := "context"
  key := some ("note."++toString i)
  content := "en cours"
  source := "observed"
  confidence := 1
  expiresIn := none
  createdBy := "agent"

def jot (clock : Instant) (i : ℕ) : Visit := ⟨clock,i,.perform (.write (jotted i) [])⟩

def jottedRows (k : ℕ) : List Row := (List.range k).map (fun i =>
  newRow asciiTexts (jotted i) (InMemory.place (jotted i)) (effectiveConfidence (jotted i)) i 10)

theorem jotted_valid : ∀ i < 21, validate asciiTexts (jotted i) [] = none := by decide +kernel

theorem jotted_fresh : ∀ i < 21,
    InMemory.keyed (jotted i) ("note."++toString i) ⟨jottedRows i,i,10⟩ = none := by decide +kernel

theorem jotted_held : ∀ i < 20, held "ana" .user ⟨jottedRows i,i,10⟩ < MAX_LIVE_NOTES := by
  decide +kernel

theorem jot_inserts {i : ℕ} (hi : i < 21) (clock : Instant) :
    (InMemory.writeSync asciiTexts (jotted i) [] ⟨jottedRows i,i,clock⟩).2 =
      InMemory.insertRow asciiTexts (jotted i) (effectiveConfidence (jotted i)) ⟨jottedRows i,i,clock⟩ := by
  have hfresh : InMemory.keyed (jotted i) ("note."++toString i) ⟨jottedRows i,i,clock⟩ = none :=
    jotted_fresh i hi
  have hkey : (jotted i).key = some ("note."++toString i) := rfl
  simp only [InMemory.writeSync, jotted_valid i hi, hkey, hfresh]

theorem jot_rows (n k : ℕ) (hk : k+n ≤ 20) (s : InMemory.MemStore) (hs : s.rows = jottedRows k) :
    (Transition.run (visit asciiTexts numbers) ((List.range' k n).map (jot 10)) s).rows =
      jottedRows (k+n) := by
  induction n generalizing k s with
  | zero => exact hs
  | succ n ih =>
    have hi : k < 20 := by omega
    rw [List.range'_succ, List.map_cons, Transition.run, ← Nat.add_assoc, Nat.add_right_comm]
    apply ih (k+1) (by omega)
    have hvisit : visit asciiTexts numbers s (jot 10 k) =
        (InMemory.writeSync asciiTexts (jotted k) [] ⟨s.rows,k,10⟩).2 :=
      perform_write asciiTexts numbers (arrive 10 k s) (jotted k) []
    have hstate : visit asciiTexts numbers s (jot 10 k) =
        InMemory.insertRow asciiTexts (jotted k) (effectiveConfidence (jotted k)) ⟨jottedRows k,k,10⟩ := by
      rw [hvisit, hs]
      exact jot_inserts (by omega) 10
    have hfew : (InMemory.insertRow asciiTexts (jotted k) (effectiveConfidence (jotted k)) ⟨jottedRows k,k,10⟩).rows =
        jottedRows k++[newRow asciiTexts (jotted k) (InMemory.place (jotted k)) (effectiveConfidence (jotted k)) k 10] :=
      insertRow_few asciiTexts (effectiveConfidence (jotted k)) rfl (jotted_held k hi)
    rw [hstate, hfew, jottedRows, jottedRows, List.range_succ, List.map_append, List.map_singleton]

theorem new_row (T : Texts) (req : WriteReq) (c : ℚ) (s : InMemory.MemStore) :
    ∃ r, (InMemory.insertRow T req c s).rows[s.rows.length]? = some r ∧ r.tier = req.tier := by
  have hmap : (InMemory.insertRow T req c s).rows.map Row.tier = s.rows.map Row.tier++[req.tier] := by
    rw [insertRow_eq, map_addRow (fun _ => rfl)]
    rfl
  have hget : ((InMemory.insertRow T req c s).rows.map Row.tier)[s.rows.length]? = some req.tier := by
    rw [hmap]
    simp
  rw [List.getElem?_map] at hget
  exact Option.map_eq_some_iff.mp hget

/-- After twenty notes, one that is written at an earlier instant is forgotten at once. -/
theorem note_evicted_at_once : ¬∀ (T : Texts) (D : Dates) (vs : List Visit) (clock : Instant)
    (drawn : Uuid) (req : WriteReq) (known : List String) (r : Row),
    (InMemory.writeSync T req known (arrive clock drawn (visited T D vs))).2.rows[
      (visited T D vs).rows.length]? = some r → r.deleted = false := by
  intro h
  have hrows : (visited asciiTexts numbers ((List.range' 0 20).map (jot 10))).rows = jottedRows 20 :=
    jot_rows 20 0 (by decide) Store.empty rfl
  have hkept := h asciiTexts numbers ((List.range' 0 20).map (jot 10)) 5 20 (jotted 20) []
  rw [arrive, hrows, jot_inserts (by decide)] at hkept
  have hinserted : Writes asciiTexts "ana" .user ⟨jottedRows 20,20,5⟩
      (InMemory.insertRow asciiTexts (jotted 20) (effectiveConfidence (jotted 20)) ⟨jottedRows 20,20,5⟩) :=
    insertRow_writes asciiTexts (jotted 20) (effectiveConfidence (jotted 20)) ⟨jottedRows 20,20,5⟩
  have hahead : MAX_LIVE_NOTES ≤ ahead "ana" .user ⟨jottedRows 20,20,5⟩ := by decide +kernel
  obtain ⟨r,hr,htier⟩ := new_row asciiTexts (jotted 20) (effectiveConfidence (jotted 20))
    ⟨jottedRows 20,20,5⟩
  have hgone := (hinserted.evicts.2 r hr).mpr ⟨htier,hahead⟩
  rw [hkept r hr] at hgone
  cases hgone

end DevForge.NoteCap
