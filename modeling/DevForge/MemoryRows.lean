import DevForge.MemoryStores
import DevForge.Transition
import Mathlib.Data.List.DropRight
import Mathlib.Data.List.Nodup

/-!
# What the operations do to rows

Both stores change rows in the same few ways: a row is updated under its uuid, or a new row is
added and the oldest notes of its scope are forgotten.
-/

set_option autoImplicit false

namespace DevForge.MemoryRows
open MemoryRules MemoryStores

/-! ## Texts -/

theorem splitWhitespace_cons {c : Char} (hc : isWhitespace c = true) (cs : List Char) :
    splitWhitespace (c::cs) = splitWhitespace cs := by
  simp [splitWhitespace, List.splitOnP_cons_eq_if_modifyHead, hc]

theorem splitWhitespace_concat {c : Char} (hc : isWhitespace c = true) (cs : List Char) :
    splitWhitespace (cs++[c]) = splitWhitespace cs := by
  simp [splitWhitespace, List.splitOnP_append_cons cs [] hc]

theorem splitWhitespace_dropWhile (cs : List Char) :
    splitWhitespace (cs.dropWhile isWhitespace) = splitWhitespace cs := by
  induction cs with
  | nil => rfl
  | cons c cs ih =>
    by_cases hc : isWhitespace c = true
    · rw [List.dropWhile_cons_of_pos hc, ih, splitWhitespace_cons hc]
    · rw [List.dropWhile_cons_of_neg hc]

theorem splitWhitespace_rdropWhile (cs : List Char) :
    splitWhitespace (cs.reverse.dropWhile isWhitespace).reverse = splitWhitespace cs := by
  induction cs using List.reverseRecOn with
  | nil => rfl
  | append_singleton cs c ih =>
    rw [List.reverse_append, List.reverse_singleton, List.singleton_append]
    by_cases hc : isWhitespace c = true
    · rw [List.dropWhile_cons_of_pos hc, ih, splitWhitespace_concat hc]
    · rw [List.dropWhile_cons_of_neg hc, List.reverse_cons, List.reverse_reverse]

theorem normalize_trim (T : Texts) (content : String) : normalize T (trim content) = normalize T content := by
  unfold MemoryRules.normalize trim trimBy
  rw [String.toList_ofList, splitWhitespace_rdropWhile, splitWhitespace_dropWhile]

section
variable {κ : Type}

/-! ## A row that is updated -/

theorem mem_setRow {u : Uuid} {f : Row κ → Row κ} {s : Store κ} {r' : Row κ} :
    r' ∈ (s.setRow u f).rows ↔ ∃ r ∈ s.rows, (if r.uuid = u then f r else r) = r' := by
  simp [Store.setRow]

theorem map_setRow {β : Type} {g : Row κ → β} (f : Row κ → Row κ) (h : ∀ r, g (f r) = g r) (u : Uuid)
    (s : Store κ) : (s.setRow u f).rows.map g = s.rows.map g := by
  simp only [Store.setRow, List.map_map]
  apply List.map_congr_left
  intro r _
  simp only [Function.comp_apply]
  split
  · exact h r
  · rfl

/-! ## A row that is added -/

theorem mem_forgetOldNotes {same : Row κ → Bool} {rows : List (Row κ)} {r' : Row κ}
    (h : r' ∈ forgetOldNotes same rows) : ∃ r ∈ rows, r' = r ∨
      r' = { r with deleted := true } ∧ r.tier = .note ∧ r.live = true ∧ same r = true := by
  obtain ⟨⟨r,i⟩,hmem,rfl⟩ := List.mem_map.mp h
  have hrow : rows[i]? = some r := List.mk_mem_zipIdx_iff_getElem?.mp hmem
  refine ⟨r,List.mem_of_getElem? hrow,?_⟩
  by_cases hold : (oldNotes same rows).contains i = true
  · right
    rw [List.contains_iff_mem] at hold
    obtain ⟨⟨r₁,i₁⟩,hdrop,rfl⟩ := List.mem_map.mp hold
    have hnote := List.mem_mergeSort.mp (List.mem_of_mem_drop hdrop)
    obtain ⟨hmem₁,hsame⟩ := List.mem_filter.mp hnote
    have hrow₁ : rows[i₁]? = some r₁ := List.mk_mem_zipIdx_iff_getElem?.mp hmem₁
    have heq : r₁ = r := Option.some.inj (hrow₁.symm.trans hrow)
    subst heq
    simp only [Bool.and_eq_true, decide_eq_true_eq] at hsame
    rw [if_pos (List.contains_iff_mem.mpr hold)]
    exact ⟨rfl,hsame.1.2,hsame.2,hsame.1.1⟩
  · left
    rw [if_neg hold]

/-- Forgetting changes nothing but the mark. -/
theorem map_forgetOldNotes {β : Type} {g : Row κ → β} (h : ∀ r : Row κ, g { r with deleted := true } = g r)
    (same : Row κ → Bool) (rows : List (Row κ)) : (forgetOldNotes same rows).map g = rows.map g := by
  rw [forgetOldNotes, List.map_map]
  have hcongr : (rows.zipIdx.map (g ∘ fun p => if (oldNotes same rows).contains p.2 = true then
      { p.1 with deleted := true } else p.1)) = rows.zipIdx.map (g ∘ Prod.fst) := by
    apply List.map_congr_left
    intro p _
    simp only [Function.comp_apply]
    split
    · exact h p.1
    · rfl
  rw [hcongr, ← List.map_map, List.zipIdx_map_fst]

/-! ## The latest note -/

theorem later_trans (a b c : Row κ × ℕ) (hab : later a b = true) (hbc : later b c = true) : later a c = true := by
  simp only [later, Bool.or_eq_true, Bool.and_eq_true, decide_eq_true_eq, Instant] at *
  omega

theorem later_total (a b : Row κ × ℕ) : (later a b || later b a) = true := by
  simp only [later, Bool.or_eq_true, Bool.and_eq_true, decide_eq_true_eq, Instant]
  omega

/-- The row at the end is the latest: it is not forgotten. -/
theorem last_not_old {same : Row κ → Bool} {rows : List (Row κ)} {r : Row κ}
    (htime : ∀ x ∈ rows, x.updatedAt ≤ r.updatedAt) : rows.length ∉ oldNotes same (rows++[r]) := by
  intro hold
  obtain ⟨⟨r₁,i₁⟩,hdrop,hi⟩ := List.mem_map.mp hold
  simp only at hi
  subst hi
  let notes := (rows++[r]).zipIdx.filter (fun p => same p.1 && p.1.tier = .note && p.1.live)
  let sorted := notes.mergeSort later
  have hsorted : sorted.Pairwise (fun a b => later a b = true) := List.pairwise_mergeSort later_trans later_total notes
  have hnodup : (sorted.map Prod.snd).Nodup := by
    have hperm : sorted.Perm notes := List.mergeSort_perm _ _
    have hindices : ((rows++[r]).zipIdx.map Prod.snd).Nodup := by
      rw [List.zipIdx_map_snd]
      exact List.nodup_range'
    exact (hperm.map Prod.snd).nodup_iff.mpr (hindices.sublist (List.filter_sublist.map _))
  have hrow : ∀ p ∈ sorted, (rows++[r])[p.2]? = some p.1 := by
    intro p hp
    exact List.mk_mem_zipIdx_iff_getElem?.mp (List.mem_of_mem_filter (List.mem_mergeSort.mp hp))
  have hdrop : (r₁,rows.length) ∈ sorted.drop MAX_LIVE_NOTES := hdrop
  obtain ⟨j,hj⟩ := List.mem_iff_getElem?.mp hdrop
  rw [List.getElem?_drop] at hj
  obtain ⟨hlt,hj⟩ := List.getElem?_eq_some_iff.mp hj
  have hr₁ : r₁ = r := by
    have h := hrow _ (hj ▸ List.getElem_mem hlt)
    simpa using h.symm
  -- the first note is later than this row, so it is this row
  have hpos : 0 < sorted.length := by omega
  have hfirst := List.pairwise_iff_getElem.mp hsorted 0 (MAX_LIVE_NOTES+j) hpos hlt (by unfold MAX_LIVE_NOTES; omega)
  have hx := hrow _ (List.getElem_mem hpos)
  obtain ⟨hbound,hget⟩ := List.getElem?_eq_some_iff.mp hx
  have hle : (sorted[0]).1.updatedAt ≤ r.updatedAt := by
    obtain h | h := List.mem_append.mp (List.mem_of_getElem? hx)
    · exact htime _ h
    · rw [List.mem_singleton.mp h]
  have hindex : (sorted[0]).2 = rows.length := by
    rw [hj, hr₁] at hfirst
    simp only [later, Bool.or_eq_true, Bool.and_eq_true, decide_eq_true_eq, Instant] at hfirst hle
    rw [List.length_append, List.length_singleton] at hbound
    omega
  have hzero : 0 = MAX_LIVE_NOTES+j := by
    apply (List.getElem?_inj (by simpa using hpos) hnodup).mp
    rw [List.getElem?_map, List.getElem?_map, List.getElem?_eq_getElem hpos, List.getElem?_eq_getElem hlt, hj]
    exact congrArg some hindex
  unfold MAX_LIVE_NOTES at hzero
  omega

/-! ## A row that is added -/

/-- What both inserts do with the new row. -/
def addRow (same : Row κ → Bool) (row : Row κ) (s : Store κ) : Store κ :=
  { s with
    rows := if row.tier = .note then forgetOldNotes same (s.rows++[row]) else s.rows++[row]
    next := s.next+1 }

@[simp] theorem addRow_next (same : Row κ → Bool) (row : Row κ) (s : Store κ) :
    (addRow same row s).next = s.next+1 := rfl

@[simp] theorem addRow_now (same : Row κ → Bool) (row : Row κ) (s : Store κ) : (addRow same row s).now = s.now := rfl

@[simp] theorem setRow_next (u : Uuid) (f : Row κ → Row κ) (s : Store κ) : (s.setRow u f).next = s.next := rfl

@[simp] theorem setRow_now (u : Uuid) (f : Row κ → Row κ) (s : Store κ) : (s.setRow u f).now = s.now := rfl

theorem insertRow_eq (T : Texts) (req : WriteReq) (c : ℚ) (s : InMemory.MemStore) :
    InMemory.insertRow T req c s =
      addRow (InMemory.sameScope req) (newRow T req (InMemory.place req) c s.next s.now) s := rfl

theorem insert_eq {T : Texts} {req : WriteReq} {c : ℚ} {s s' : Pg.PgStore} (h : Pg.insert T req c s = some s') :
    Pg.accepts req s = true ∧ s' = addRow (Pg.samePlace req) (newRow T req (Pg.place req) c s.next s.now) s := by
  unfold Pg.insert at h
  split at h
  · next hacc => exact ⟨hacc,(Option.some.inj h).symm⟩
  · cases h

theorem map_addRow {β : Type} {g : Row κ → β} (h : ∀ r : Row κ, g { r with deleted := true } = g r)
    (same : Row κ → Bool) (row : Row κ) (s : Store κ) :
    (addRow same row s).rows.map g = s.rows.map g++[g row] := by
  have hrows : (s.rows++[row]).map g = s.rows.map g++[g row] := by simp
  show (if row.tier = .note then forgetOldNotes same (s.rows++[row]) else s.rows++[row]).map g = _
  split
  · rw [map_forgetOldNotes h, hrows]
  · exact hrows

theorem mem_addRow {same : Row κ → Bool} {row : Row κ} {s : Store κ} {r' : Row κ} (h : r' ∈ (addRow same row s).rows) :
    ∃ r, (r ∈ s.rows ∨ r = row) ∧ (r' = r ∨
      r' = { r with deleted := true } ∧ r.tier = .note ∧ r.live = true ∧ same r = true) := by
  have hsplit : ∀ r, r ∈ s.rows++[row] → r ∈ s.rows ∨ r = row := by simp
  change r' ∈ (if row.tier = .note then forgetOldNotes same (s.rows++[row]) else s.rows++[row]) at h
  split at h
  · obtain ⟨r,hr,hform⟩ := mem_forgetOldNotes h
    exact ⟨r,hsplit r hr,hform⟩
  · exact ⟨r',hsplit r' h,.inl rfl⟩

/-- The new row stands in the store, and is not forgotten. -/
theorem added {same : Row κ → Bool} {row : Row κ} {s : Store κ} (htime : ∀ x ∈ s.rows, x.updatedAt ≤ row.updatedAt) :
    row ∈ (addRow same row s).rows := by
  show row ∈ (if row.tier = .note then forgetOldNotes same (s.rows++[row]) else s.rows++[row])
  split
  · apply List.mem_map.mpr
    refine ⟨(row,s.rows.length),?_,?_⟩
    · apply List.mk_mem_zipIdx_iff_getElem?.mpr
      simp
    · rw [if_neg]
      rw [List.contains_iff_mem]
      exact last_not_old htime
  · simp

/-! ## Well-formed stores -/

/-- Uuids rise along the rows, and no row is later than the clock. -/
structure WellFormed (s : Store κ) : Prop where
  uuids : (s.rows.map Row.uuid).Pairwise (· < ·)
  fresh : ∀ r ∈ s.rows, r.uuid < s.next
  times : ∀ r ∈ s.rows, r.updatedAt ≤ s.now

theorem wellFormed_empty : WellFormed (Store.empty : Store κ) :=
  ⟨List.Pairwise.nil,by simp [Store.empty],by simp [Store.empty]⟩

theorem WellFormed.eq_of_uuid {s : Store κ} (h : WellFormed s) {a b : Row κ} (ha : a ∈ s.rows) (hb : b ∈ s.rows)
    (hu : a.uuid = b.uuid) : a = b := by
  have hnodup : (s.rows.map Row.uuid).Nodup := h.uuids.imp (fun hlt => Nat.ne_of_lt hlt)
  exact List.inj_on_of_nodup_map hnodup ha hb hu

theorem WellFormed.after {s : Store κ} (h : WellFormed s) (delay : ℕ) : WellFormed (s.after delay) :=
  ⟨h.uuids,h.fresh,fun r hr => Nat.le_trans (h.times r hr) (Nat.le_add_right _ _)⟩

theorem WellFormed.setRow {s : Store κ} (h : WellFormed s) (u : Uuid) (f : Row κ → Row κ)
    (huuid : ∀ r, (f r).uuid = r.uuid) (htime : ∀ r, r.updatedAt ≤ s.now → (f r).updatedAt ≤ s.now) :
    WellFormed (s.setRow u f) := by
  constructor
  · rw [map_setRow f huuid]
    exact h.uuids
  · intro r' hr'
    obtain ⟨r,hr,rfl⟩ := mem_setRow.mp hr'
    have hlt := h.fresh r hr
    split
    · rw [huuid]
      exact hlt
    · exact hlt
  · intro r' hr'
    obtain ⟨r,hr,rfl⟩ := mem_setRow.mp hr'
    split
    · exact htime r (h.times r hr)
    · exact h.times r hr

theorem WellFormed.addRow {s : Store κ} (h : WellFormed s) (same : Row κ → Bool) (row : Row κ)
    (huuid : row.uuid = s.next) (htime : row.updatedAt ≤ s.now) : WellFormed (addRow same row s) := by
  constructor
  · rw [map_addRow (fun _ => rfl), huuid]
    apply List.pairwise_append.mpr
    refine ⟨h.uuids,List.pairwise_singleton _ _,?_⟩
    intro a ha b hb
    obtain ⟨r,hr,rfl⟩ := List.mem_map.mp ha
    rw [List.mem_singleton.mp hb]
    exact h.fresh r hr
  · intro r' hr'
    obtain ⟨r,hr,hform⟩ := mem_addRow hr'
    have huuid' : r'.uuid = r.uuid := by
      obtain rfl | ⟨rfl,-⟩ := hform <;> rfl
    rw [huuid', addRow_next]
    obtain hr | rfl := hr
    · exact Nat.lt_succ_of_lt (h.fresh r hr)
    · rw [huuid]
      exact Nat.lt_succ_self _
  · intro r' hr'
    obtain ⟨r,hr,hform⟩ := mem_addRow hr'
    have htime' : r'.updatedAt = r.updatedAt := by
      obtain rfl | ⟨rfl,-⟩ := hform <;> rfl
    rw [htime', addRow_now]
    obtain hr | rfl := hr
    · exact h.times r hr
    · exact htime

/-- A change of marks. -/
theorem WellFormed.mapRows {s : Store κ} (h : WellFormed s) (f : Row κ → Row κ) (huuid : ∀ r, (f r).uuid = r.uuid)
    (htime : ∀ r, (f r).updatedAt = r.updatedAt) : WellFormed { s with rows := s.rows.map f } := by
  constructor
  · rw [List.map_map, show Row.uuid ∘ f = Row.uuid from funext huuid]
    exact h.uuids
  · intro r' hr'
    obtain ⟨r,hr,rfl⟩ := List.mem_map.mp hr'
    rw [huuid]
    exact h.fresh r hr
  · intro r' hr'
    obtain ⟨r,hr,rfl⟩ := List.mem_map.mp hr'
    rw [htime]
    exact h.times r hr

/-! ## Identifiers of scopes -/

/-- The identifier is not blank. -/
def Named : Scope → Prop
  | .user => True
  | .project p => trim p ≠ ""
  | .agent a => trim a ≠ ""

theorem toList_trim (s : String) :
    (trim s).toList = ((s.toList.dropWhile isWhitespace).reverse.dropWhile isWhitespace).reverse := by
  rw [trim, trimBy, String.toList_ofList]

theorem trim_ne_empty {s : String} {c : Char} (hc : c ∈ s.toList) (hw : isWhitespace c = false) : trim s ≠ "" := by
  intro h
  have hnil : (trim s).toList = [] := by rw [h]; rfl
  rw [toList_trim, List.reverse_eq_nil_iff, List.dropWhile_eq_nil_iff] at hnil
  have hall : ∀ x ∈ s.toList.dropWhile isWhitespace, isWhitespace x = true :=
    fun x hx => hnil x (List.mem_reverse.mpr hx)
  rw [← List.takeWhile_append_dropWhile (p := isWhitespace) (l := s.toList)] at hc
  obtain hc | hc := List.mem_append.mp hc
  · have hwhite := List.all_eq_true.mp List.all_takeWhile c hc
    rw [hw] at hwhite
    cases hwhite
  · have hwhite := hall c hc
    rw [hw] at hwhite
    cases hwhite

/-- What is trimmed and not empty is not blank. -/
theorem trim_trim_ne_empty {s : String} (h : trim s ≠ "") : trim (trim s) ≠ "" := by
  cases hrest : (s.toList.dropWhile isWhitespace).reverse.dropWhile isWhitespace with
  | nil =>
    rw [trim, trimBy, hrest] at h
    exact absurd rfl h
  | cons c cs =>
    have hhead := List.head?_dropWhile_not isWhitespace (s.toList.dropWhile isWhitespace).reverse
    rw [hrest] at hhead
    apply trim_ne_empty (c := c)
    · rw [toList_trim, hrest]
      simp
    · simpa using hhead

theorem named_of_fromParts {name : ScopeName} {p a : Option String} {scope : Scope}
    (h : Scope.fromParts name p a = some scope) : Named scope := by
  have hblank : ∀ {x : Option String} {y : String}, nonBlank x = some y → trim y ≠ "" := by
    intro x y hx
    obtain ⟨hx,hne⟩ := Option.filter_eq_some_iff.mp hx
    obtain ⟨z,-,rfl⟩ := Option.map_eq_some_iff.mp hx
    exact trim_trim_ne_empty (of_decide_eq_true hne)
  cases name with
  | user =>
    cases h
    trivial
  | project =>
    obtain ⟨y,hy,rfl⟩ := Option.map_eq_some_iff.mp h
    exact hblank hy
  | agent =>
    obtain ⟨y,hy,rfl⟩ := Option.map_eq_some_iff.mp h
    exact hblank hy

/-! ## What an operation changes -/

/-- No live row has the key of the request. -/
def Free (same : WriteReq → Row κ → Bool) (req : WriteReq) (s : Store κ) : Prop :=
  ∀ r ∈ s.rows, r.live = true → r.key.isSome = true → r.key = req.key → same req r = false

/-- A valid request for a key whose live row `ex` has the same text. -/
structure Refreshes (T : Texts) (found : Option (Row κ)) (req : WriteReq) (known : List String) (ex : Row κ) : Prop where
  valid : validate T req known = none
  found : found = some ex
  text : ex.contentNorm = normalize T req.content

/-- The operation refreshes no keyed row. -/
def Quiet (T : Texts) (found : WriteReq → Store κ → Option (Row κ)) (s : Store κ) : Op → Prop
  | .write req known => ∀ ex, ¬Refreshes T (found req s) req known ex
  | _ => True

/-- The new row and the old one that points to it, whichever is written first. -/
def Replaced (same : Row κ → Bool) (row : Row κ) (u : Uuid) (s s' : Store κ) : Prop :=
  s' = addRow same row (s.setRow u (Row.replacedBy s.next s.now)) ∨
    s' = (addRow same row s).setRow u (Row.replacedBy s.next s.now)

/-- The changes that an operation can make; where `indexed`, a correction finds its key free. -/
inductive Change (T : Texts) (same : WriteReq → Row κ → Bool) (place : WriteReq → κ)
    (found : WriteReq → Store κ → Option (Row κ)) (indexed : Prop) (s : Store κ) : Op → Store κ → Prop
  | nothing (op : Op) (hquiet : Quiet T found s op) : Change T same place found indexed s op s
  | refresh (req : WriteReq) (known : List String) (ex : Row κ) (c : ℚ)
      (h : Refreshes T (found req s) req known ex) :
      Change T same place found indexed s (.write req known) (s.setRow ex.uuid (Row.refresh req c s.now))
  | reinforce (req : WriteReq) (known : List String) (u : Uuid) (c : ℚ) (hquiet : Quiet T found s (.write req known)) :
      Change T same place found indexed s (.write req known) (s.setRow u (Row.reinforce c s.now))
  | insert (req : WriteReq) (known : List String) (req' : WriteReq) (c : ℚ) (hfree : Free same req' s)
      (hreq : req' = req ∨ ∃ note, req' = confirmationNote req note)
      (hquiet : Quiet T found s (.write req known)) :
      Change T same place found indexed s (.write req known)
        (addRow (same req') (newRow T req' (place req') c s.next s.now) s)
  | supersede (req : WriteReq) (known : List String) (ex : Row κ) (c : ℚ) (s' : Store κ)
      (hfound : found req s = some ex) (hother : ex.contentNorm ≠ normalize T req.content)
      (hs' : Replaced (same req) (newRow T req (place req) c s.next s.now) ex.uuid s s') :
      Change T same place found indexed s (.write req known) s'
  | correct (user content : String) (known : List String) (ex : Row κ) (req : WriteReq) (pinned : Bool) (s' : Store κ)
      (hex : ex ∈ s.rows) (huser : ex.userUuid = user) (hdeleted : ex.deleted = false)
      (hreq : req.userUuid = user ∧ req.tier = ex.tier ∧ req.key = ex.key)
      (hfree : indexed → Free same req (s.setRow ex.uuid (Row.replacedBy s.next s.now)))
      (hsame : indexed ∨ same req ex = true) (hnamed : indexed → Named req.scope)
      (hs' : Replaced (same req) (newRow T req (place req) 1 s.next s.now) ex.uuid s s') :
      Change T same place found indexed s (.correct user ex.uuid content known)
        (s'.setRow s.next (fun r => { r with pinned := pinned }))
  | forget (user : String) (target : ForgetTarget) (hit : Row κ → Bool) :
      Change T same place found indexed s (.forget user target) (forgetWhere hit s).2
  | purge : Change T same place found indexed s .purgeExpired (purgeExpired s).2
  | setPinned (user : String) (u : Uuid) (pinned : Bool) :
      Change T same place found indexed s (.setPinned user u pinned) (setPinned user u pinned s).2

end

/-! ## The two stores -/

/-- The live row of the request's key. -/
def InMemory.found (req : WriteReq) (s : InMemory.MemStore) : Option (Row MemPlace) :=
  req.key.bind (fun key => InMemory.keyed req key s)

def Pg.found (req : WriteReq) (s : Pg.PgStore) : Option (Row PgPlace) :=
  req.key.bind (fun key => Pg.keyed req key s)

theorem decideKey_refresh {T : Texts} {ex : Existing} {req : WriteReq} {c c' : ℚ}
    (h : decideKey T ex req c = .refresh c') : ex.contentNorm = normalize T req.content := by
  unfold decideKey at h
  split at h
  · assumption
  · split at h <;> cases h

theorem decideKey_supersede {T : Texts} {ex : Existing} {req : WriteReq} {c : ℚ}
    (h : decideKey T ex req c = .supersede) : ex.contentNorm ≠ normalize T req.content := by
  unfold decideKey at h
  split at h
  · cases h
  · assumption

theorem decideKey_confirm {T : Texts} {ex : Existing} {req : WriteReq} {c : ℚ} {note : String}
    (h : decideKey T ex req c = .confirm note) : ex.contentNorm ≠ normalize T req.content := by
  unfold decideKey at h
  split at h
  · cases h
  · assumption

theorem InMemory.free_of_none {req : WriteReq} {s : InMemory.MemStore} (h : InMemory.found req s = none) :
    Free InMemory.sameScope req s := by
  intro r hr hlive hsome hkey
  obtain ⟨key,hk⟩ := Option.isSome_iff_exists.mp hsome
  have hreq : req.key = some key := by rw [← hkey, hk]
  simp only [InMemory.found, hreq, Option.bind_some, InMemory.keyed, List.find?_eq_none, Bool.and_eq_true,
    decide_eq_true_eq] at h
  apply Bool.eq_false_iff.mpr
  intro hsame
  exact h r hr ⟨⟨hsame,hk⟩,hlive⟩

theorem free_of_no_key {κ : Type} (same : WriteReq → Row κ → Bool) {req : WriteReq} (h : req.key = none) (s : Store κ) :
    Free same req s := by
  intro r _ _ hsome hkey
  rw [hkey, h] at hsome
  cases hsome

theorem quiet_of_invalid {κ : Type} {T : Texts} {found : WriteReq → Store κ → Option (Row κ)} {s : Store κ}
    {req : WriteReq} {known : List String} {e : String} (h : validate T req known = some e) :
    Quiet T found s (.write req known) := by
  intro ex hex
  rw [hex.valid] at h
  cases h

theorem quiet_of_none {κ : Type} {T : Texts} {found : WriteReq → Store κ → Option (Row κ)} {s : Store κ}
    {req : WriteReq} {known : List String} (h : found req s = none) : Quiet T found s (.write req known) := by
  intro ex hex
  have hfound := hex.found
  rw [h] at hfound
  cases hfound

theorem quiet_of_other {κ : Type} {T : Texts} {found : WriteReq → Store κ → Option (Row κ)} {s : Store κ}
    {req : WriteReq} {known : List String} {ex : Row κ} (h : found req s = some ex)
    (htext : ex.contentNorm ≠ normalize T req.content) : Quiet T found s (.write req known) := by
  intro ex' hex'
  have heq := Option.some.inj (h.symm.trans hex'.found)
  subst heq
  exact htext hex'.text

theorem InMemory.write_change (T : Texts) (req : WriteReq) (known : List String) (s : InMemory.MemStore) :
    Change T InMemory.sameScope InMemory.place InMemory.found False s (.write req known)
      (InMemory.writeSync T req known s).2 := by
  unfold InMemory.writeSync
  split
  · next e he => exact .nothing _ (quiet_of_invalid he)
  next hvalid =>
    simp only
    split
    · next key hkey =>
      have hfound : InMemory.found req s = InMemory.keyed req key s := by rw [InMemory.found, hkey]; rfl
      split
      · next ex hex =>
        split
        · next c hc => exact .refresh req known ex c ⟨hvalid,hfound.trans hex,decideKey_refresh hc⟩
        · next hc => exact .supersede req known ex _ _ (hfound.trans hex) (decideKey_supersede hc) (.inr rfl)
        · next note hc =>
          exact .insert req known (confirmationNote req note) _ (free_of_no_key _ rfl s) (.inr ⟨note,rfl⟩)
            (quiet_of_other (hfound.trans hex) (decideKey_confirm hc))
      · next hnone =>
        have hnone := hfound.trans hnone
        exact .insert req known req _ (InMemory.free_of_none hnone) (.inl rfl) (quiet_of_none hnone)
    · next hkey =>
      have hnone : InMemory.found req s = none := by rw [InMemory.found, hkey]; rfl
      split
      · exact .reinforce req known _ _ (quiet_of_none hnone)
      · exact .insert req known req _ (free_of_no_key _ hkey s) (.inl rfl) (quiet_of_none hnone)

theorem Pg.free_of_accepts {req : WriteReq} {s : Pg.PgStore} (h : Pg.accepts req s = true) :
    Free Pg.samePlace req s := by
  intro r hr hlive hsome hkey
  simp only [Pg.accepts, Bool.and_eq_true, Bool.not_eq_true', List.any_eq_false, decide_eq_true_eq, not_and,
    Bool.not_eq_true] at h
  exact h.2 r hr ⟨⟨hlive,hsome⟩,hkey⟩

theorem Pg.free_of_none {req : WriteReq} {s : Pg.PgStore} (h : Pg.found req s = none) : Free Pg.samePlace req s := by
  intro r hr hlive hsome hkey
  obtain ⟨key,hk⟩ := Option.isSome_iff_exists.mp hsome
  have hreq : req.key = some key := by rw [← hkey, hk]
  simp only [Pg.found, hreq, Option.bind_some, Pg.keyed, List.find?_eq_none, Bool.and_eq_true, decide_eq_true_eq] at h
  apply Bool.eq_false_iff.mpr
  intro hsame
  exact h r hr ⟨⟨hsame,hk⟩,hlive⟩

theorem Pg.commit_change {T : Texts} {op : Op} {s : Pg.PgStore} {result : Option Pg.PgStore} {out : WriteOutcome}
    (hquiet : Quiet T Pg.found s op)
    (h : ∀ s', result = some s' → Change T Pg.samePlace Pg.place Pg.found True s op s') :
    Change T Pg.samePlace Pg.place Pg.found True s op (Pg.commit s out result).2 := by
  cases result with
  | none => exact .nothing _ hquiet
  | some s' => exact h s' rfl

theorem Pg.writeInner_change (T : Texts) (req : WriteReq) (known : List String) (s : Pg.PgStore)
    (hvalid : validate T req known = none) :
    Change T Pg.samePlace Pg.place Pg.found True s (.write req known) (Pg.writeInner T req s).2 := by
  unfold Pg.writeInner
  simp only
  split
  · next key hkey =>
    have hfound : Pg.found req s = Pg.keyed req key s := by rw [Pg.found, hkey]; rfl
    split
    · next ex hex =>
      split
      · next c hc => exact .refresh req known ex c ⟨hvalid,hfound.trans hex,decideKey_refresh hc⟩
      · next hc =>
        apply Pg.commit_change (quiet_of_other (hfound.trans hex) (decideKey_supersede hc))
        intro s' hs'
        obtain ⟨hacc,rfl⟩ := insert_eq hs'
        exact .supersede req known ex _ _ (hfound.trans hex) (decideKey_supersede hc) (.inl rfl)
      · next note hc =>
        have hquiet : Quiet T Pg.found s (.write req known) :=
          quiet_of_other (hfound.trans hex) (decideKey_confirm hc)
        apply Pg.commit_change hquiet
        intro s' hs'
        obtain ⟨hacc,rfl⟩ := insert_eq hs'
        exact .insert req known (confirmationNote req note) _ (Pg.free_of_accepts hacc) (.inr ⟨note,rfl⟩) hquiet
    · next hnone =>
      have hquiet : Quiet T Pg.found s (.write req known) := quiet_of_none (hfound.trans hnone)
      apply Pg.commit_change hquiet
      intro s' hs'
      obtain ⟨hacc,rfl⟩ := insert_eq hs'
      exact .insert req known req _ (Pg.free_of_accepts hacc) (.inl rfl) hquiet
  · next hkey =>
    have hnone : Pg.found req s = none := by rw [Pg.found, hkey]; rfl
    have hquiet : Quiet T Pg.found s (.write req known) := quiet_of_none hnone
    split
    · exact .reinforce req known _ _ hquiet
    · apply Pg.commit_change hquiet
      intro s' hs'
      obtain ⟨hacc,rfl⟩ := insert_eq hs'
      exact .insert req known req _ (Pg.free_of_accepts hacc) (.inl rfl) hquiet

theorem Pg.commit_error {s : Pg.PgStore} {out : WriteOutcome} {result : Option Pg.PgStore} {e : MemoryError}
    (h : (Pg.commit s out result).1 = .error e) : (Pg.commit s out result).2 = s := by
  cases result with
  | none => rfl
  | some s' => cases h

/-- A transaction that fails changes nothing. -/
theorem Pg.writeInner_error {T : Texts} {req : WriteReq} {s : Pg.PgStore} {e : MemoryError}
    (h : (Pg.writeInner T req s).1 = .error e) : (Pg.writeInner T req s).2 = s := by
  revert h
  unfold Pg.writeInner
  simp only
  split
  · split
    · split
      · intro h; cases h
      · exact Pg.commit_error
      · exact Pg.commit_error
    · exact Pg.commit_error
  · split
    · intro h; cases h
    · exact Pg.commit_error

theorem Pg.write_eq {T : Texts} {req : WriteReq} {known : List String} {s : Pg.PgStore}
    (hvalid : validate T req known = none) : Pg.write T req known s = Pg.writeInner T req s := by
  unfold Pg.write
  rw [hvalid]
  simp only
  split
  · next e s' hs' =>
    have herror : (Pg.writeInner T req s).2 = s := Pg.writeInner_error (e := e) (by rw [hs'])
    rw [hs'] at herror
    rw [← herror] at hs' ⊢
  · rfl

theorem Pg.write_change (T : Texts) (req : WriteReq) (known : List String) (s : Pg.PgStore) :
    Change T Pg.samePlace Pg.place Pg.found True s (.write req known) (Pg.write T req known s).2 := by
  cases hvalid : validate T req known with
  | some e =>
    rw [Pg.write, hvalid]
    exact .nothing _ (quiet_of_invalid hvalid)
  | none =>
    rw [Pg.write_eq hvalid]
    exact Pg.writeInner_change T req known s hvalid

theorem InMemory.correct_change (T : Texts) (user : String) (u : Uuid) (content : String) (known : List String)
    (s : InMemory.MemStore) : Change T InMemory.sameScope InMemory.place InMemory.found False s
      (.correct user u content known) (InMemory.correct T user u content known s).2 := by
  unfold InMemory.correct
  split
  · exact .nothing _ trivial
  · next old hold =>
    obtain ⟨ex,hfind,rfl⟩ := Option.map_eq_some_iff.mp hold
    have hmem := List.mem_of_find?_eq_some hfind
    have hprops := List.find?_some hfind
    simp only [Bool.and_eq_true, decide_eq_true_eq, Bool.not_eq_true'] at hprops
    obtain ⟨⟨huser,hdeleted⟩,rfl⟩ := hprops
    simp only
    split
    · exact .nothing _ trivial
    · split
      · exact .nothing _ trivial
      · exact .correct user content known ex (correctionReq user (InMemory.item ex) content s.now) ex.pinned _
          hmem huser hdeleted ⟨rfl,rfl,rfl⟩ False.elim (.inr (by simp [InMemory.sameScope, huser, correctionReq, InMemory.item]))
          False.elim (.inr rfl)

theorem Pg.correct_change (T : Texts) (user : String) (u : Uuid) (content : String) (known : List String)
    (s : Pg.PgStore) : Change T Pg.samePlace Pg.place Pg.found True s
      (.correct user u content known) (Pg.correct T user u content known s).2 := by
  unfold Pg.correct
  split
  · exact .nothing _ trivial
  · next old hold =>
    obtain ⟨ex,hfind,hitem⟩ := Option.bind_eq_some_iff.mp hold
    obtain ⟨scope,hscope,rfl⟩ := Option.map_eq_some_iff.mp hitem
    have hmem := List.mem_of_find?_eq_some hfind
    have hprops := List.find?_some hfind
    simp only [Bool.and_eq_true, decide_eq_true_eq, Bool.not_eq_true'] at hprops
    obtain ⟨⟨huser,rfl⟩,hdeleted⟩ := hprops
    simp only
    split
    · exact .nothing _ trivial
    · split
      · exact .nothing _ trivial
      · apply Pg.commit_change (show Quiet T Pg.found s (.correct user ex.uuid content known) from trivial)
        intro s' hs'
        obtain ⟨s₁,hs₁,rfl⟩ := Option.map_eq_some_iff.mp hs'
        obtain ⟨hacc,rfl⟩ := insert_eq hs₁
        exact .correct user content known ex _ ex.pinned _ hmem huser hdeleted ⟨rfl,rfl,rfl⟩
          (fun _ => Pg.free_of_accepts hacc) (.inl trivial) (fun _ => named_of_fromParts hscope) (.inl rfl)

theorem InMemory.perform_write (T : Texts) (req : WriteReq) (known : List String) (s : InMemory.MemStore) :
    (InMemory.perform T (.write req known) s).2 = (InMemory.writeSync T req known s).2 := by
  simp only [InMemory.perform]

theorem Pg.perform_write (T : Texts) (req : WriteReq) (known : List String) (s : Pg.PgStore) :
    (Pg.perform T (.write req known) s).2 = (Pg.write T req known s).2 := by
  simp only [Pg.perform]

theorem InMemory.perform_change (T : Texts) (op : Op) (s : InMemory.MemStore) :
    Change T InMemory.sameScope InMemory.place InMemory.found False s op (InMemory.perform T op s).2 := by
  cases op with
  | write req known =>
    rw [InMemory.perform_write]
    exact InMemory.write_change T req known s
  | correct user u content known => exact InMemory.correct_change T user u content known s
  | forget user target => exact .forget user target _
  | purgeExpired => exact .purge
  | setPinned user u pinned => exact .setPinned user u pinned
  | get _ _ => exact .nothing _ trivial
  | history _ _ => exact .nothing _ trivial
  | list _ _ => exact .nothing _ trivial
  | search _ _ => exact .nothing _ trivial

theorem Pg.perform_change (T : Texts) (op : Op) (s : Pg.PgStore) :
    Change T Pg.samePlace Pg.place Pg.found True s op (Pg.perform T op s).2 := by
  cases op with
  | write req known =>
    rw [Pg.perform_write]
    exact Pg.write_change T req known s
  | correct user u content known => exact Pg.correct_change T user u content known s
  | forget user target => exact .forget user target _
  | purgeExpired => exact .purge
  | setPinned user u pinned => exact .setPinned user u pinned
  | get _ _ => exact .nothing _ trivial
  | history _ _ => exact .nothing _ trivial
  | list _ _ => exact .nothing _ trivial
  | search _ _ => exact .nothing _ trivial

/-! ## Every state is well formed -/

section
variable {κ : Type}

theorem WellFormed.replaced {s s' : Store κ} (h : WellFormed s) {same : Row κ → Bool} {row : Row κ} {u : Uuid}
    (hs' : Replaced same row u s s') (huuid : row.uuid = s.next) (htime : row.updatedAt ≤ s.now) : WellFormed s' := by
  obtain rfl | rfl := hs'
  · exact (h.setRow u (Row.replacedBy s.next s.now) (fun _ => rfl) (fun _ _ => Nat.le_refl _)).addRow same row huuid htime
  · exact (h.addRow same row huuid htime).setRow u (Row.replacedBy s.next s.now) (fun _ => rfl) (fun _ _ => Nat.le_refl _)

theorem WellFormed.change {T : Texts} {same : WriteReq → Row κ → Bool} {place : WriteReq → κ}
    {found : WriteReq → Store κ → Option (Row κ)} {indexed : Prop} {s s' : Store κ} {op : Op} (h : WellFormed s)
    (hc : Change T same place found indexed s op s') : WellFormed s' := by
  cases hc with
  | nothing => exact h
  | refresh req known ex c _ => exact h.setRow _ (Row.refresh req c s.now) (fun _ => rfl) (fun _ _ => Nat.le_refl _)
  | reinforce _ _ u c _ => exact h.setRow u (Row.reinforce c s.now) (fun _ => rfl) (fun _ _ => Nat.le_refl _)
  | insert => exact h.addRow _ _ rfl (Nat.le_refl _)
  | supersede _ _ _ _ _ _ _ hs' => exact h.replaced hs' rfl (Nat.le_refl _)
  | correct _ _ _ _ _ _ _ _ _ _ _ _ _ _ hs' =>
    exact (h.replaced hs' rfl (Nat.le_refl _)).setRow _ _ (fun _ => rfl) (fun _ hr => hr)
  | forget => exact h.mapRows _ (fun r => by split <;> rfl) (fun r => by split <;> rfl)
  | purge => exact h.mapRows _ (fun r => by split <;> rfl) (fun r => by split <;> rfl)
  | setPinned => exact h.mapRows _ (fun r => by split <;> rfl) (fun r => by split <;> rfl)

end

theorem InMemory.wellFormed (T : Texts) (es : List Event) :
    WellFormed (Transition.run (InMemory.step T) es Store.empty) := by
  apply Transition.invariant (InMemory.step T) WellFormed ?_ es _ wellFormed_empty
  intro s e h
  exact (h.after e.delay).change (InMemory.perform_change T e.op _)

theorem Pg.wellFormed (T : Texts) (es : List Event) : WellFormed (Transition.run (Pg.step T) es Store.empty) := by
  apply Transition.invariant (Pg.step T) WellFormed ?_ es _ wellFormed_empty
  intro s e h
  exact (h.after e.delay).change (Pg.perform_change T e.op _)

end DevForge.MemoryRows
