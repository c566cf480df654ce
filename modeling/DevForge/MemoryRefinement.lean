import DevForge.MemoryVersions
import DevForge.SeparatedParts

/-!
# The store in memory against Postgres

Postgres keeps the rows of the store in memory, column by column, and gives the same answers,
as long as no operation meets one of the differences between the two: the project of an agent's
entry, the count of the notes, a correction of a replaced entry, and the smaller ones.
-/

set_option autoImplicit false

namespace DevForge.MemoryRefinement
open MemoryRules MemoryStores MemoryRows MemoryVersions Transition

/-! ## Rows in columns -/

def columns (p : MemPlace) : PgPlace := ⟨p.scope.name,p.projectUuid,p.scope.agentId⟩

def toPg (r : Row MemPlace) : Row PgPlace where
  uuid := r.uuid
  userUuid := r.userUuid
  place := columns r.place
  tier := r.tier
  kind := r.kind
  key := r.key
  content := r.content
  contentNorm := r.contentNorm
  source := r.source
  confidence := r.confidence
  pinned := r.pinned
  createdBy := r.createdBy
  createdAt := r.createdAt
  updatedAt := r.updatedAt
  expiresAt := r.expiresAt
  supersededBy := r.supersededBy
  deleted := r.deleted

/-- The store in memory, as Postgres would hold it. -/
def stored (s : InMemory.MemStore) : Pg.PgStore := ⟨s.rows.map toPg,s.next,s.now⟩

/-- An identifier as `Scope::from_parts` makes it. -/
def Trimmed : Scope → Prop
  | .user => True
  | .project p => trim p = p ∧ p ≠ ""
  | .agent a => trim a = a ∧ a ≠ ""

/-- The project of an entry, given its scope. -/
structure Placed (p : MemPlace) : Prop where
  trimmed : Trimmed p.scope
  user : p.scope = .user → p.projectUuid = none
  project : ∀ id, p.scope = .project id → p.projectUuid = some id
  agent : p.projectUuid ≠ some ""

theorem place_ext {p q : MemPlace} (hscope : p.scope = q.scope) (hproject : p.projectUuid = q.projectUuid) : p = q := by
  cases p
  cases q
  cases hscope
  cases hproject
  rfl

theorem placed_ext {p q : MemPlace} (hp : Placed p) (hq : Placed q) (hscope : p.scope = q.scope)
    (hproject : p.projectUuid.getD "" = q.projectUuid.getD "") : p = q := by
  have heq : p.projectUuid = q.projectUuid := by
    cases hpp : p.projectUuid with
    | none =>
      cases hqp : q.projectUuid with
      | none => rfl
      | some b =>
        rw [hpp, hqp] at hproject
        have hb : "" = b := hproject
        exact absurd (hb ▸ hqp) hq.agent
    | some a =>
      cases hqp : q.projectUuid with
      | none =>
        rw [hpp, hqp] at hproject
        have ha : a = "" := hproject
        exact absurd (ha ▸ hpp) hp.agent
      | some b =>
        rw [hpp, hqp] at hproject
        exact congrArg some hproject
  exact place_ext hscope heq

theorem nonBlank_trimmed {x : String} (h : trim x = x ∧ x ≠ "") : nonBlank (some x) = some x := by
  simp [nonBlank, h.1, h.2]

theorem intoItem_toPg {r : Row MemPlace} (h : Placed r.place) : Pg.intoItem (toPg r) = some (InMemory.item r) := by
  have htrimmed := h.trimmed
  have hscope : Scope.fromParts r.place.scope.name r.place.projectUuid r.place.scope.agentId = some r.place.scope := by
    cases hs : r.place.scope with
    | user => rfl
    | project id =>
      rw [hs] at htrimmed
      rw [h.project id hs]
      simp [Scope.fromParts, Scope.name, nonBlank_trimmed htrimmed]
    | agent a =>
      rw [hs] at htrimmed
      simp [Scope.fromParts, Scope.name, Scope.agentId, nonBlank_trimmed htrimmed]
  show (Scope.fromParts r.place.scope.name r.place.projectUuid r.place.scope.agentId).map _ = _
  rw [hscope]
  rfl

/-! ## Forgetting the oldest notes -/

section
variable {κ κ' : Type}

/-- A live note of a scope. -/
def liveNote (same : Row κ → Bool) (r : Row κ) : Bool := same r && r.tier = .note && r.live

theorem oldNotes_eq (same : Row κ → Bool) (rows : List (Row κ)) : oldNotes same rows =
    (((rows.zipIdx.filter (fun p => liveNote same p.1)).mergeSort later).drop MAX_LIVE_NOTES).map Prod.snd := rfl

theorem mem_zipIdx {rows : List (Row κ)} {p : Row κ × ℕ} (h : p ∈ rows.zipIdx) : p.1 ∈ rows :=
  List.mem_of_getElem? (List.mk_mem_zipIdx_iff_getElem?.mp (show (p.1,p.2) ∈ rows.zipIdx from h))

/-- A change of rows that keeps which are the live notes, and their dates. -/
theorem oldNotes_map {same : Row κ → Bool} {same' : Row κ' → Bool} {g : Row κ → Row κ'} {rows : List (Row κ)}
    (hnote : ∀ r ∈ rows, liveNote same' (g r) = liveNote same r)
    (htime : ∀ r ∈ rows, liveNote same r = true → (g r).updatedAt = r.updatedAt) :
    oldNotes same' (rows.map g) = oldNotes same rows := by
  rw [oldNotes_eq, oldNotes_eq, List.zipIdx_map, List.filter_map]
  have hfilter : rows.zipIdx.filter ((fun p => liveNote same' p.1) ∘ Prod.map g id) =
      rows.zipIdx.filter (fun p => liveNote same p.1) := by
    apply List.filter_congr
    intro p hp
    exact hnote p.1 (mem_zipIdx hp)
  have hdate : ∀ p ∈ rows.zipIdx.filter (fun p => liveNote same p.1), (g p.1).updatedAt = p.1.updatedAt := by
    intro p hp
    obtain ⟨hmem,hlive⟩ := List.mem_filter.mp hp
    exact htime p.1 (mem_zipIdx hmem) hlive
  rw [hfilter, ← List.map_mergeSort (r := later), ← List.map_drop, List.map_map]
  · rfl
  · intro a ha b hb
    simp only [later, Prod.map_fst, Prod.map_snd, id_eq, hdate a ha, hdate b hb]

theorem forgetOldNotes_eq {same : Row κ → Bool} {same' : Row κ' → Bool} {g : Row κ → Row κ'} {rows : List (Row κ)}
    (hg : ∀ r, g { r with deleted := true } = { g r with deleted := true })
    (hold : oldNotes same' (rows.map g) = oldNotes same rows) :
    forgetOldNotes same' (rows.map g) = (forgetOldNotes same rows).map g := by
  rw [forgetOldNotes, forgetOldNotes, hold, List.zipIdx_map, List.map_map, List.map_map]
  apply List.map_congr_left
  intro p _
  simp only [Function.comp_apply, Prod.map_fst, Prod.map_snd, id_eq]
  split
  · exact (hg p.1).symm
  · rfl

/-- At most twenty live notes: none is forgotten. -/
theorem oldNotes_few {same : Row κ → Bool} {rows : List (Row κ)} (h : rows.countP (liveNote same) ≤ MAX_LIVE_NOTES) :
    oldNotes same rows = [] := by
  rw [oldNotes_eq, List.map_eq_nil_iff, List.drop_eq_nil_iff, List.length_mergeSort, ← List.countP_eq_length_filter]
  have hcount : rows.zipIdx.countP (fun p => liveNote same p.1) = rows.countP (liveNote same) := by
    conv_rhs => rw [← List.zipIdx_map_fst 0 rows, List.countP_map]
    rfl
  rw [hcount]
  exact h

/-- The two stores forget the same notes: they see the same ones, or none is too many. -/
def SameNotes (same : Row κ → Bool) (same' : Row κ' → Bool) (g : Row κ → Row κ') (rows : List (Row κ)) : Prop :=
  (∀ r ∈ rows, liveNote same' (g r) = liveNote same r ∧ (liveNote same r = true → (g r).updatedAt = r.updatedAt)) ∨
    (rows.countP (liveNote same) ≤ MAX_LIVE_NOTES ∧ (rows.map g).countP (liveNote same') ≤ MAX_LIVE_NOTES)

theorem SameNotes.forget {same : Row κ → Bool} {same' : Row κ' → Bool} {g : Row κ → Row κ'} {rows : List (Row κ)}
    (h : SameNotes same same' g rows) (hg : ∀ r, g { r with deleted := true } = { g r with deleted := true }) :
    forgetOldNotes same' (rows.map g) = (forgetOldNotes same rows).map g := by
  apply forgetOldNotes_eq hg
  obtain h | ⟨h,h'⟩ := h
  · exact oldNotes_map (fun r hr => (h r hr).1) (fun r hr => (h r hr).2)
  · rw [oldNotes_few h, oldNotes_few h']

end

/-! ## Scopes -/

/-- A request as the callers make it. -/
def WellScoped (req : WriteReq) : Prop := Trimmed req.scope ∧ (req.scope.agentId.isSome = true → req.projectUuid ≠ some "")

theorem place_placed {req : WriteReq} (h : WellScoped req) : Placed (InMemory.place req) := by
  obtain ⟨htrimmed,hproject⟩ := h
  unfold InMemory.place
  cases hs : req.scope with
  | user => exact ⟨trivial,fun _ => rfl,nofun,nofun⟩
  | project p =>
    rw [hs] at htrimmed
    refine ⟨htrimmed,nofun,fun id hid => ?_,fun hempty => htrimmed.2 (Option.some.inj hempty)⟩
    cases hid
    rfl
  | agent a =>
    rw [hs] at htrimmed hproject
    exact ⟨htrimmed,nofun,nofun,hproject rfl⟩

theorem columns_place {req : WriteReq} (h : WellScoped req) : columns (InMemory.place req) = Pg.place req := by
  obtain ⟨-,hproject⟩ := h
  unfold InMemory.place Pg.place columns
  cases hs : req.scope with
  | user => rfl
  | project p => rfl
  | agent a =>
    rw [hs] at hproject
    have hne := hproject rfl
    cases hp : req.projectUuid with
    | none => rfl
    | some p =>
      have hpne : p ≠ "" := fun h => hne (by rw [hp, h])
      simp [Scope.name, Scope.agentId, Option.filter, hpne]

theorem toPg_newRow {T : Texts} {req : WriteReq} (h : WellScoped req) (c : ℚ) (u : Uuid) (now : Instant) :
    toPg (newRow T req (InMemory.place req) c u now) = newRow T req (Pg.place req) c u now := by
  rw [← columns_place h]
  rfl

/-- The project, blank and absent alike. -/
def projectOf (p : MemPlace) : String := p.projectUuid.getD ""

theorem scopeOf_columns {p q : MemPlace} (hp : Placed p) (hq : Placed q) :
    Pg.scopeOf (columns p) = Pg.scopeOf (columns q) ↔ p.scope = q.scope ∧ projectOf p = projectOf q := by
  simp only [Pg.scopeOf, columns, Prod.mk.injEq, projectOf]
  constructor
  · rintro ⟨hname,hproject,hagent⟩
    refine ⟨?_,hproject⟩
    cases hps : p.scope with
    | user =>
      cases hqs : q.scope <;> simp_all [Scope.name]
    | project a =>
      cases hqs : q.scope with
      | project b =>
        rw [hp.project a hps, hq.project b hqs] at hproject
        exact congrArg Scope.project hproject
      | _ => simp_all [Scope.name]
    | agent a =>
      cases hqs : q.scope with
      | agent b =>
        rw [hps, hqs] at hagent
        exact congrArg Scope.agent hagent
      | _ => simp_all [Scope.name]
  · rintro ⟨hscope,hproject⟩
    rw [hscope]
    exact ⟨rfl,hproject,rfl⟩

theorem samePlace_toPg {req : WriteReq} (hreq : WellScoped req) {r : Row MemPlace} (hr : Placed r.place) :
    Pg.samePlace req (toPg r) = true ↔
      InMemory.sameScope req r = true ∧ projectOf r.place = projectOf (InMemory.place req) := by
  have hscope := scopeOf_columns hr (place_placed hreq)
  rw [Pg.isKeyed.same_iff, InMemory.isKeyed.same_iff, ← columns_place hreq]
  show r.userUuid = req.userUuid ∧ Pg.scopeOf (columns r.place) = _ ↔ _
  rw [hscope, and_assoc]

/-! ## Rows that are changed and added -/

theorem stored_setRow {u : Uuid} {f : Row MemPlace → Row MemPlace} (f' : Row PgPlace → Row PgPlace)
    (hf : ∀ r, toPg (f r) = f' (toPg r)) (s : InMemory.MemStore) :
    stored (s.setRow u f) = (stored s).setRow u f' := by
  simp only [stored, Store.setRow, List.map_map, Store.mk.injEq, and_true]
  apply List.map_congr_left
  intro r _
  simp only [Function.comp_apply]
  by_cases hu : r.uuid = u
  · rw [if_pos hu, hf, if_pos (show (toPg r).uuid = u from hu)]
  · rw [if_neg hu, if_neg (show ¬(toPg r).uuid = u from hu)]

theorem stored_addRow {same : Row MemPlace → Bool} {same' : Row PgPlace → Bool} {row : Row MemPlace}
    {s : InMemory.MemStore} (h : row.tier = .note → SameNotes same same' toPg (s.rows++[row])) :
    stored (addRow same row s) = addRow same' (toPg row) (stored s) := by
  have hrows : (s.rows++[row]).map toPg = s.rows.map toPg++[toPg row] := by simp
  simp only [stored, addRow, Store.mk.injEq, and_true]
  show _ = if row.tier = .note then _ else _
  split
  · next hnote => rw [← hrows, (h hnote).forget (fun _ => rfl)]
  · exact hrows

/-- A row as it is replaced, in columns. -/
def replacedPg (u new : Uuid) (now : Instant) (r : Row MemPlace) : Row PgPlace :=
  toPg (if r.uuid = u then Row.replacedBy new now r else r)

theorem stored_replace {same : Row MemPlace → Bool} {same' : Row PgPlace → Bool} {row : Row MemPlace} {u : Uuid}
    {s : InMemory.MemStore} (hne : row.uuid ≠ u)
    (h : row.tier = .note → SameNotes same same' (replacedPg u s.next s.now) (s.rows++[row])) :
    stored ((addRow same row s).setRow u (Row.replacedBy s.next s.now)) =
      addRow same' (toPg row) ((stored s).setRow u (Row.replacedBy s.next s.now)) := by
  have hset : ((stored s).setRow u (Row.replacedBy s.next s.now)).rows = s.rows.map (replacedPg u s.next s.now) := by
    rw [← stored_setRow (f := Row.replacedBy s.next s.now) (Row.replacedBy s.next s.now) (fun _ => rfl)]
    simp [stored, Store.setRow, replacedPg]
  have hrows : (s.rows++[row]).map (replacedPg u s.next s.now) =
      ((stored s).setRow u (Row.replacedBy s.next s.now)).rows++[toPg row] := by
    rw [hset, List.map_append, List.map_singleton, replacedPg, if_neg hne]
  have hmem : (stored ((addRow same row s).setRow u (Row.replacedBy s.next s.now))).rows =
      (addRow same row s).rows.map (replacedPg u s.next s.now) := by
    simp [stored, Store.setRow, replacedPg]
  have hdeleted : ∀ r, replacedPg u s.next s.now { r with deleted := true } =
      { replacedPg u s.next s.now r with deleted := true } := by
    intro r
    simp only [replacedPg]
    split <;> rfl
  have heq : (addRow same row s).rows.map (replacedPg u s.next s.now) =
      (addRow same' (toPg row) ((stored s).setRow u (Row.replacedBy s.next s.now))).rows := by
    show (if row.tier = .note then forgetOldNotes same (s.rows++[row]) else s.rows++[row]).map _ =
      if row.tier = .note then forgetOldNotes same' (_++[toPg row]) else _++[toPg row]
    rw [← hrows]
    split
    · next hnote => exact ((h hnote).forget hdeleted).symm
    · rfl
  rw [← hmem] at heq
  simp only [stored, addRow, Store.setRow, Store.mk.injEq, and_true] at heq ⊢
  exact heq

/-! ## Where the two stores agree -/

/-- The live entries of the scope that matter have the project of the request: the store in
memory does not look at the project of an agent's entries. -/
def OneProject (req : WriteReq) (s : InMemory.MemStore) (matters : Row MemPlace → Bool) : Prop :=
  ∀ r ∈ s.rows, InMemory.sameScope req r = true → r.live = true → matters r = true →
    projectOf r.place = projectOf (InMemory.place req)

/-- A new note makes the two stores forget the same ones: there is room, or it replaces no live
note and the notes of the scope have one project. -/
def NoteFits (req : WriteReq) (old : Option (Row MemPlace)) (s : InMemory.MemStore) : Prop :=
  req.tier = .note → s.rows.countP (liveNote (InMemory.sameScope req)) < MAX_LIVE_NOTES ∨
    ((∀ ex ∈ old, liveNote (InMemory.sameScope req) ex = false) ∧ OneProject req s (fun r => r.tier = .note))

/-- What a write needs for the two stores to agree. -/
def WritesAlike (T : Texts) (req : WriteReq) (s : InMemory.MemStore) : Prop :=
  match req.key with
  | some key => OneProject req s (fun r => r.key = some key) ∧
    match InMemory.keyed req key s with
    | some ex =>
      match decideKey T ex.existing req (effectiveConfidence req) with
      | .refresh _ => True
      | .supersede => NoteFits req (some ex) s
      | .confirm note => (trim note).length ≤ 2000 ∧ NoteFits (confirmationNote req note) none s
    | none => NoteFits req none s
  | none =>
    OneProject req s (fun r => r.tier = req.tier && unexpired s.now r &&
      similar T r.contentNorm (normalize T req.content)) ∧
    match InMemory.duplicate T req s with
    | some first => ∀ r ∈ s.rows, InMemory.sameScope req r = true → r.tier = req.tier → r.live = true →
        unexpired s.now r = true → T.similarity r.contentNorm (normalize T req.content) ≤
          T.similarity first.contentNorm (normalize T req.content)
    | none => NoteFits req none s

/-! ## Inserting -/

theorem countP_concat_le {same : Row MemPlace → Bool} {rows : List (Row MemPlace)}
    (h : rows.countP (liveNote same) < MAX_LIVE_NOTES) (row : Row MemPlace) :
    (rows++[row]).countP (liveNote same) ≤ MAX_LIVE_NOTES := by
  rw [List.countP_append, List.countP_singleton]
  split <;> omega

/-- `g` shows a row to Postgres: the notes that it sees are notes of the scope in memory. -/
theorem sameNotes_of_fits {req : WriteReq} {old : Option (Row MemPlace)} {s : InMemory.MemStore} {row : Row MemPlace}
    {g : Row MemPlace → Row PgPlace} (htier : req.tier = .note) (h : NoteFits req old s)
    (hsees : ∀ r ∈ s.rows++[row], liveNote (Pg.samePlace req) (g r) = true → liveNote (InMemory.sameScope req) r = true)
    (hnew : liveNote (Pg.samePlace req) (g row) = true ∧ (g row).updatedAt = row.updatedAt)
    (hall : (∀ ex ∈ old, liveNote (InMemory.sameScope req) ex = false) → ∀ r ∈ s.rows,
      liveNote (InMemory.sameScope req) r = true → projectOf r.place = projectOf (InMemory.place req) →
        liveNote (Pg.samePlace req) (g r) = true ∧ (g r).updatedAt = r.updatedAt) :
    SameNotes (InMemory.sameScope req) (Pg.samePlace req) g (s.rows++[row]) := by
  obtain hroom | ⟨hold,hone⟩ := h htier
  · right
    have hcount := countP_concat_le hroom row
    refine ⟨hcount,Nat.le_trans ?_ hcount⟩
    rw [List.countP_map]
    exact List.countP_mono_left hsees
  · left
    have hsame : ∀ r ∈ s.rows++[row], liveNote (InMemory.sameScope req) r = true →
        liveNote (Pg.samePlace req) (g r) = true ∧ (g r).updatedAt = r.updatedAt := by
      intro r hr hlive
      obtain hr | hr := List.mem_append.mp hr
      · simp only [liveNote, Bool.and_eq_true, decide_eq_true_eq] at hlive
        exact hall hold r hr (by simp [liveNote, hlive]) (hone r hr hlive.1.1 hlive.2 (decide_eq_true hlive.1.2))
      · rw [List.mem_singleton.mp hr]
        exact hnew
    intro r hr
    refine ⟨?_,fun hlive => (hsame r hr hlive).2⟩
    cases hlive : liveNote (InMemory.sameScope req) r with
    | true => exact (hsame r hr hlive).1
    | false =>
      apply Bool.eq_false_iff.mpr
      intro hsees'
      rw [hsees r hr hsees'] at hlive
      cases hlive

def PlacedRows (s : InMemory.MemStore) : Prop := ∀ r ∈ s.rows, Placed r.place

theorem liveNote_toPg {req : WriteReq} (hreq : WellScoped req) {r : Row MemPlace} (hr : Placed r.place) :
    liveNote (Pg.samePlace req) (toPg r) = true ↔
      liveNote (InMemory.sameScope req) r = true ∧ projectOf r.place = projectOf (InMemory.place req) := by
  have htier : (toPg r).tier = r.tier := rfl
  have hlive : (toPg r).live = r.live := rfl
  simp only [liveNote, Bool.and_eq_true, samePlace_toPg hreq hr, htier, hlive]
  constructor
  · rintro ⟨⟨⟨hsame,hproject⟩,hnote⟩,hl⟩
    exact ⟨⟨⟨hsame,hnote⟩,hl⟩,hproject⟩
  · rintro ⟨⟨⟨hsame,hnote⟩,hl⟩,hproject⟩
    exact ⟨⟨⟨hsame,hproject⟩,hnote⟩,hl⟩

theorem newRow_liveNote {T : Texts} {req : WriteReq} (htier : req.tier = .note) (c : ℚ) (u : Uuid) (now : Instant) :
    liveNote (Pg.samePlace req) (newRow T req (Pg.place req) c u now) = true := by
  have hsame : Pg.samePlace req (newRow T req (Pg.place req) c u now) = true := (Pg.isKeyed.same_iff _ _).mpr ⟨rfl,rfl⟩
  simp only [liveNote, hsame, Bool.true_and]
  simp [newRow, Row.live, htier]

theorem stored_insert {T : Texts} {req : WriteReq} (hreq : WellScoped req) {s : InMemory.MemStore} (hs : PlacedRows s)
    (hfits : NoteFits req none s) (c : ℚ) :
    stored (InMemory.insertRow T req c s) =
      addRow (Pg.samePlace req) (newRow T req (Pg.place req) c s.next s.now) (stored s) := by
  rw [insertRow_eq, ← toPg_newRow hreq]
  apply stored_addRow
  intro hnote
  have hplaced : ∀ r ∈ s.rows++[newRow T req (InMemory.place req) c s.next s.now], Placed r.place := by
    intro r hr
    obtain hr | hr := List.mem_append.mp hr
    · exact hs r hr
    · rw [List.mem_singleton.mp hr]
      exact place_placed hreq
  apply sameNotes_of_fits hnote hfits
  · intro r hr hlive
    exact ((liveNote_toPg hreq (hplaced r hr)).mp hlive).1
  · refine ⟨?_,rfl⟩
    rw [toPg_newRow hreq]
    exact newRow_liveNote hnote c s.next s.now
  · intro _ r hr hlive hproject
    exact ⟨(liveNote_toPg hreq (hs r hr)).mpr ⟨hlive,hproject⟩,rfl⟩

theorem stored_supersede {T : Texts} {req : WriteReq} (hreq : WellScoped req) {s : InMemory.MemStore} (hs : PlacedRows s)
    (hwell : WellFormed s) {ex : Row MemPlace} (hex : ex ∈ s.rows) (hfits : NoteFits req (some ex) s) (c : ℚ) :
    stored ((InMemory.insertRow T req c s).setRow ex.uuid (Row.replacedBy s.next s.now)) =
      addRow (Pg.samePlace req) (newRow T req (Pg.place req) c s.next s.now)
        ((stored s).setRow ex.uuid (Row.replacedBy s.next s.now)) := by
  have hne : (newRow T req (InMemory.place req) c s.next s.now).uuid ≠ ex.uuid := Nat.ne_of_gt (hwell.fresh ex hex)
  rw [insertRow_eq, ← toPg_newRow hreq]
  apply stored_replace hne
  intro hnote
  have hplaced : ∀ r ∈ s.rows++[newRow T req (InMemory.place req) c s.next s.now], Placed r.place := by
    intro r hr
    obtain hr | hr := List.mem_append.mp hr
    · exact hs r hr
    · rw [List.mem_singleton.mp hr]
      exact place_placed hreq
  apply sameNotes_of_fits hnote hfits
  · intro r hr hlive
    by_cases hu : r.uuid = ex.uuid
    · rw [replacedPg, if_pos hu] at hlive
      simp [liveNote, toPg, Row.replacedBy, Row.live] at hlive
    · rw [replacedPg, if_neg hu] at hlive
      exact ((liveNote_toPg hreq (hplaced r hr)).mp hlive).1
  · rw [replacedPg, if_neg hne]
    refine ⟨?_,rfl⟩
    rw [toPg_newRow hreq]
    exact newRow_liveNote hnote c s.next s.now
  · intro hold r hr hlive hproject
    have hu : r.uuid ≠ ex.uuid := by
      intro hu
      rw [hwell.eq_of_uuid hr hex hu, hold ex rfl] at hlive
      cases hlive
    rw [replacedPg, if_neg hu]
    exact ⟨(liveNote_toPg hreq (hs r hr)).mpr ⟨hlive,hproject⟩,rfl⟩

/-! ## What Postgres accepts -/

theorem accepts_of_free {req : WriteReq} {s : Pg.PgStore} (hne : trim req.content ≠ "")
    (hlength : (trim req.content).length ≤ 2000) (hfree : Free Pg.samePlace req s) : Pg.accepts req s = true := by
  have hpos : 1 ≤ (trim req.content).length := by
    apply Nat.pos_of_ne_zero
    intro h
    exact hne (String.length_eq_zero_iff.mp h)
  simp only [Pg.accepts, Bool.and_eq_true, decide_eq_true_eq, Bool.not_eq_true', List.any_eq_false, Bool.not_eq_true,
    not_and]
  refine ⟨⟨hpos,hlength⟩,?_⟩
  rintro r hr ⟨⟨hlive,hsome⟩,hkey⟩
  exact hfree r hr hlive hsome hkey

theorem insert_of_free {T : Texts} {req : WriteReq} {s : Pg.PgStore} (hne : trim req.content ≠ "")
    (hlength : (trim req.content).length ≤ 2000) (hfree : Free Pg.samePlace req s) (c : ℚ) :
    Pg.insert T req c s = some (addRow (Pg.samePlace req) (newRow T req (Pg.place req) c s.next s.now) s) := by
  rw [Pg.insert, if_pos (accepts_of_free hne hlength hfree)]
  rfl

theorem validate_content {T : Texts} {req : WriteReq} {known : List String} (h : validate T req known = none) :
    trim req.content ≠ "" ∧ (trim req.content).length ≤ 2000 := by
  unfold validate at h
  simp only at h
  split at h
  · cases h
  · next hne =>
    split at h
    · cases h
    · next hlength => exact ⟨hne,Nat.le_of_not_lt hlength⟩

theorem confirmation_not_blank {T : Texts} {ex : Existing} {req : WriteReq} {c : ℚ} {note : String}
    (h : decideKey T ex req c = .confirm note) : trim note ≠ "" := by
  unfold decideKey at h
  split at h
  · cases h
  · split at h
    · rw [← KeyDecision.confirm.inj h]
      apply trim_ne_empty (c := 'P') _ (by decide)
      simp
    · cases h

/-! ## What the two stores find -/

theorem found_same {req : WriteReq} (hreq : WellScoped req) {s : InMemory.MemStore} (hs : PlacedRows s)
    {matters : Row MemPlace → Bool} (hone : OneProject req s matters) {r : Row MemPlace} (hr : r ∈ s.rows)
    (hlive : r.live = true) (hmatters : matters r = true) : Pg.samePlace req (toPg r) = InMemory.sameScope req r := by
  cases hsame : InMemory.sameScope req r with
  | true => exact (samePlace_toPg hreq (hs r hr)).mpr ⟨hsame,hone r hr hsame hlive hmatters⟩
  | false =>
    apply Bool.eq_false_iff.mpr
    intro h
    rw [((samePlace_toPg hreq (hs r hr)).mp h).1] at hsame
    cases hsame

theorem keyed_stored {req : WriteReq} (hreq : WellScoped req) {s : InMemory.MemStore} (hs : PlacedRows s) {key : String}
    (hone : OneProject req s (fun r => r.key = some key)) :
    Pg.keyed req key (stored s) = (InMemory.keyed req key s).map toPg := by
  rw [Pg.keyed, stored, List.find?_map, InMemory.keyed]
  congr 1
  apply List.find?_congr
  intro r hr
  show (Pg.samePlace req (toPg r) && decide (r.key = some key) && r.live) = _
  by_cases hmatters : r.key = some key ∧ r.live = true
  · rw [found_same hreq hs hone hr hmatters.2 (decide_eq_true hmatters.1)]
  · rw [not_and'] at hmatters
    cases hl : r.live with
    | false => rw [Bool.and_false, Bool.and_false]
    | true => simp [hmatters hl]

/-- The candidates for a duplicate, in both stores. -/
theorem duplicates_stored {T : Texts} {req : WriteReq} (hreq : WellScoped req) {s : InMemory.MemStore} (hs : PlacedRows s)
    (hone : OneProject req s (fun r => r.tier = req.tier && unexpired s.now r &&
      similar T r.contentNorm (normalize T req.content))) :
    (stored s).rows.filter (fun r => Pg.samePlace req r && r.tier = req.tier && r.live && unexpired (stored s).now r &&
        similar T r.contentNorm (normalize T req.content)) =
      (s.rows.filter (fun r => InMemory.sameScope req r && r.tier = req.tier && r.live && unexpired s.now r &&
        similar T r.contentNorm (normalize T req.content))).map toPg := by
  rw [stored, List.filter_map]
  congr 1
  apply List.filter_congr
  intro r hr
  show (Pg.samePlace req (toPg r) && decide (r.tier = req.tier) && r.live && unexpired s.now r &&
    similar T r.contentNorm (normalize T req.content)) = _
  by_cases hmatters : (decide (r.tier = req.tier) && unexpired s.now r &&
      similar T r.contentNorm (normalize T req.content)) = true ∧ r.live = true
  · rw [found_same hreq hs hone hr hmatters.2 hmatters.1]
  · rw [not_and'] at hmatters
    cases hl : r.live with
    | false => simp
    | true =>
      have hnot := hmatters hl
      simp only [Bool.and_eq_true, not_and, Bool.not_eq_true] at hnot
      cases h₁ : decide (r.tier = req.tier) <;> cases h₂ : unexpired s.now r <;>
        cases h₃ : similar T r.contentNorm (normalize T req.content) <;> simp_all

theorem mostSimilar_head {T : Texts} {norm : String} {first : Row PgPlace} {rest : List (Row PgPlace)}
    (h : ∀ r ∈ rest, T.similarity r.contentNorm norm ≤ T.similarity first.contentNorm norm) :
    Pg.mostSimilar T norm (first::rest) = some first := by
  have htrans : ∀ a b c : Row PgPlace,
      decide (T.similarity b.contentNorm norm ≤ T.similarity a.contentNorm norm) = true →
      decide (T.similarity c.contentNorm norm ≤ T.similarity b.contentNorm norm) = true →
      decide (T.similarity c.contentNorm norm ≤ T.similarity a.contentNorm norm) = true := by
    intro a b c hab hbc
    exact decide_eq_true (Rat.le_trans (of_decide_eq_true hbc) (of_decide_eq_true hab))
  have htotal : ∀ a b : Row PgPlace,
      (decide (T.similarity b.contentNorm norm ≤ T.similarity a.contentNorm norm) ||
        decide (T.similarity a.contentNorm norm ≤ T.similarity b.contentNorm norm)) = true := by
    intro a b
    rw [Bool.or_eq_true]
    exact Rat.le_total.imp (fun h => decide_eq_true h) (fun h => decide_eq_true h)
  obtain ⟨l₁,l₂,hsort,hrest,hbefore⟩ := List.mergeSort_cons htrans htotal first rest
  have hnil : l₁ = [] := by
    apply List.eq_nil_iff_forall_not_mem.mpr
    intro r hr
    have hmem : r ∈ rest := List.mem_mergeSort.mp (hrest ▸ List.mem_append_left _ hr)
    have hnot := hbefore r hr
    rw [decide_eq_true (h r hmem)] at hnot
    cases hnot
  rw [Pg.mostSimilar, hsort, hnil]
  rfl

theorem duplicate_stored {T : Texts} {req : WriteReq} (hreq : WellScoped req) {s : InMemory.MemStore} (hs : PlacedRows s)
    (hone : OneProject req s (fun r => r.tier = req.tier && unexpired s.now r &&
      similar T r.contentNorm (normalize T req.content)))
    (hfirst : ∀ first, InMemory.duplicate T req s = some first →
      ∀ r ∈ s.rows, InMemory.sameScope req r = true → r.tier = req.tier → r.live = true → unexpired s.now r = true →
        T.similarity r.contentNorm (normalize T req.content) ≤ T.similarity first.contentNorm (normalize T req.content)) :
    Pg.duplicate T req (stored s) = (InMemory.duplicate T req s).map toPg := by
  rw [Pg.duplicate, duplicates_stored hreq hs hone]
  unfold InMemory.duplicate at hfirst ⊢
  rw [← List.head?_filter] at hfirst ⊢
  cases hcandidates : s.rows.filter (fun r => InMemory.sameScope req r && r.tier = req.tier && r.live &&
      unexpired s.now r && similar T r.contentNorm (normalize T req.content)) with
  | nil => simp [Pg.mostSimilar]
  | cons first rest =>
    rw [hcandidates] at hfirst
    rw [List.map_cons]
    apply mostSimilar_head
    intro r' hr'
    obtain ⟨r,hr,rfl⟩ := List.mem_map.mp hr'
    have hmem : r ∈ first::rest := List.mem_cons_of_mem _ hr
    rw [← hcandidates] at hmem
    obtain ⟨hrow,hprops⟩ := List.mem_filter.mp hmem
    simp only [Bool.and_eq_true, decide_eq_true_eq] at hprops
    exact hfirst first rfl r hrow hprops.1.1.1.1 hprops.1.1.1.2 hprops.1.1.2 hprops.1.2

/-! ## Writes -/

theorem commit_some (s s' : Pg.PgStore) (out : WriteOutcome) : Pg.commit s out (some s') = (.ok out,s') := rfl

theorem stored_found {req : WriteReq} {s : InMemory.MemStore} {key : String} (hkey : req.key = some key)
    (h : Pg.keyed req key (stored s) = none) : Free Pg.samePlace req (stored s) := by
  apply Pg.free_of_none
  rw [Pg.found, hkey]
  exact h

/-- A row that is found in memory is found as the current one by Postgres. -/
theorem free_once_replaced {req : WriteReq} (hreq : WellScoped req) {s : InMemory.MemStore} (hs : PlacedRows s)
    {ex : Row MemPlace} (hex : ex ∈ s.rows) (hsame : InMemory.sameScope req ex = true)
    (hproject : projectOf ex.place = projectOf (InMemory.place req)) (hkey : ex.key = req.key)
    (hcurrent : ∀ b ∈ (stored s).rows, b.live = true → SameKey Pg.scopeOf b (toPg ex) → b.uuid = ex.uuid) :
    Free Pg.samePlace req ((stored s).setRow ex.uuid (Row.replacedBy s.next s.now)) := by
  have hsame' : Pg.samePlace req (toPg ex) = true := (samePlace_toPg hreq (hs ex hex)).mpr ⟨hsame,hproject⟩
  exact free_of_current Pg.isKeyed hsame' hkey hcurrent s.next s.now

theorem write_stored {T : Texts} {req : WriteReq} {known : List String} {s : InMemory.MemStore} (hs : PlacedRows s)
    (hwell : WellFormed s) (hone : OneLive Pg.scopeOf (stored s))
    (h : validate T req known = none → WellScoped req ∧ WritesAlike T req s) :
    Pg.write T req known (stored s) =
      (.ok (InMemory.writeSync T req known s).1,stored (InMemory.writeSync T req known s).2) := by
  cases hvalid : validate T req known with
  | some e => rw [Pg.write, InMemory.writeSync, hvalid]
  | none =>
    obtain ⟨hreq,halike⟩ := h hvalid
    obtain ⟨hne,hlength⟩ := validate_content hvalid
    rw [Pg.write_eq hvalid]
    unfold Pg.writeInner InMemory.writeSync
    unfold WritesAlike at halike
    rw [hvalid]
    cases hkey : req.key with
    | some key =>
      rw [hkey] at halike
      obtain ⟨hproject,halike⟩ := halike
      simp only
      have hstored := keyed_stored hreq hs hproject
      rw [hstored]
      cases hfound : InMemory.keyed req key s with
      | none =>
        rw [hfound] at halike hstored
        have hfree := stored_found hkey hstored
        simp only [Option.map_none]
        rw [insert_of_free hne hlength hfree, stored_insert hreq hs halike]
        rfl
      | some ex =>
        rw [hfound] at halike
        simp only at halike
        have hmem := List.mem_of_find?_eq_some hfound
        have hprops := List.find?_some hfound
        simp only [Bool.and_eq_true, decide_eq_true_eq] at hprops
        obtain ⟨⟨hsame,hk⟩,hlive⟩ := hprops
        simp only [Option.map_some]
        have hexisting : (toPg ex).existing = ex.existing := rfl
        rw [hexisting]
        cases hdecide : decideKey T ex.existing req (effectiveConfidence req) with
        | refresh c =>
          simp only
          rw [stored_setRow (Row.refresh req c s.now) (fun _ => rfl)]
          rfl
        | supersede =>
          rw [hdecide] at halike
          simp only at halike ⊢
          have hfree := free_once_replaced hreq hs hmem hsame (hproject ex hmem hsame hlive (decide_eq_true hk))
            (hk.trans hkey.symm) (fun b hb hlb hkb =>
              hone b hb (toPg ex) (List.mem_map_of_mem hmem) hlb hlive hkb)
          have hinsert := insert_of_free (T := T) hne hlength hfree (effectiveConfidence req)
          rw [stored_supersede hreq hs hwell hmem halike]
          show Pg.commit (stored s) (.superseded ex.uuid s.next) (Pg.insert T req (effectiveConfidence req)
            ((stored s).setRow ex.uuid (Row.replacedBy s.next s.now))) = _
          rw [hinsert]
          rfl
        | confirm note =>
          rw [hdecide] at halike
          simp only at halike ⊢
          obtain ⟨hnote,hfits⟩ := halike
          have hscoped : WellScoped (confirmationNote req note) := hreq
          have hinsert := @insert_of_free T (confirmationNote req note) _ (confirmation_not_blank hdecide) hnote
            (free_of_no_key _ rfl (stored s)) (effectiveConfidence (confirmationNote req note))
          rw [stored_insert hscoped hs hfits, hinsert]
          rfl
    | none =>
      rw [hkey] at halike
      obtain ⟨hproject,halike⟩ := halike
      simp only
      cases hdup : InMemory.duplicate T req s with
      | some first =>
        rw [hdup] at halike
        have hstored := duplicate_stored hreq hs hproject (fun first' hfirst => by
          rw [hdup] at hfirst
          rw [← Option.some.inj hfirst]
          exact halike)
        rw [hstored, hdup]
        simp only [Option.map_some]
        rw [stored_setRow (Row.reinforce (effectiveConfidence req) s.now) (fun _ => rfl)]
        rfl
      | none =>
        rw [hdup] at halike
        have hstored := duplicate_stored hreq hs hproject (fun first hfirst => by
          rw [hdup] at hfirst
          cases hfirst)
        rw [hstored, hdup]
        simp only [Option.map_none]
        rw [insert_of_free hne hlength (free_of_no_key _ hkey (stored s)), stored_insert hreq hs halike]
        rfl

/-! ## Corrections -/

/-- The entry that a user addresses. -/
def addressed (userUuid : String) (uuid : Uuid) (s : InMemory.MemStore) : Option (Row MemPlace) :=
  s.rows.find? (fun r => r.userUuid = userUuid && !r.deleted && r.uuid = uuid)

/-- A correction that makes a version makes the two stores agree where the entry is not
replaced or has no live entry of its key, and where its note fits. -/
def CorrectsAlike (T : Texts) (userUuid : String) (uuid : Uuid) (content : String) (known : List String)
    (s : InMemory.MemStore) : Prop :=
  ∀ ex, addressed userUuid uuid s = some ex →
    let req := correctionReq userUuid (InMemory.item ex) content s.now
    validate T req known = none → normalize T content ≠ normalize T ex.content →
      (ex.supersededBy.isSome = true → ∀ b ∈ s.rows, b.live = true → ¬SameKey id b ex) ∧ NoteFits req (some ex) s

theorem get_stored {s : InMemory.MemStore} (hs : PlacedRows s) (user : String) (u : Uuid) :
    Pg.get user u (stored s) = InMemory.get user u s := by
  have hfind : (stored s).rows.find? (fun r => r.userUuid = user && r.uuid = u && !r.deleted) =
      (addressed user u s).map toPg := by
    rw [stored, List.find?_map, addressed]
    congr 1
    apply List.find?_congr
    intro r _
    show (decide (r.userUuid = user) && decide (r.uuid = u) && !r.deleted) = _
    rw [Bool.and_assoc, Bool.and_comm (decide (r.uuid = u)), Bool.and_assoc]
  rw [Pg.get, hfind]
  show _ = (addressed user u s).map InMemory.item
  cases hex : addressed user u s with
  | none => rfl
  | some ex => exact intoItem_toPg (hs ex (List.mem_of_find?_eq_some hex))

theorem correction_scoped {ex : Row MemPlace} (h : Placed ex.place) (user content : String) (now : Instant) :
    WellScoped (correctionReq user (InMemory.item ex) content now) ∧
      InMemory.place (correctionReq user (InMemory.item ex) content now) = ex.place := by
  refine ⟨⟨h.trimmed,fun _ => h.agent⟩,?_⟩
  have hproject : (InMemory.place (correctionReq user (InMemory.item ex) content now)).projectUuid =
      ex.place.projectUuid := by
    have hplace : (correctionReq user (InMemory.item ex) content now).scope = ex.place.scope := rfl
    cases hscope : ex.place.scope with
    | user => simp only [InMemory.place, hplace, hscope, h.user hscope]
    | project p => simp only [InMemory.place, hplace, hscope, h.project p hscope]
    | agent a =>
      simp only [InMemory.place, hplace, hscope]
      rfl
  exact place_ext rfl hproject

theorem places_replaced {req : WriteReq} (hreq : WellScoped req) {s s' : InMemory.MemStore} (hs : PlacedRows s)
    (hs' : s'.rows.map Row.place = s.rows.map Row.place++[InMemory.place req]) : PlacedRows s' := by
  intro r' hr'
  have hmem : r'.place ∈ s.rows.map Row.place++[InMemory.place req] := hs' ▸ List.mem_map_of_mem hr'
  obtain hmem | hmem := List.mem_append.mp hmem
  · obtain ⟨r,hr,hplace⟩ := List.mem_map.mp hmem
    rw [← hplace]
    exact hs r hr
  · rw [List.mem_singleton.mp hmem]
    exact place_placed hreq

/-- The live entries of the key of an entry that is corrected: itself, if it is one. -/
theorem corrected_current {s : InMemory.MemStore} (hs : PlacedRows s) (hone : OneLive Pg.scopeOf (stored s))
    {ex : Row MemPlace} (hmem : ex ∈ s.rows) (hdeleted : ex.deleted = false)
    (hfork : ex.supersededBy.isSome = true → ∀ b ∈ s.rows, b.live = true → ¬SameKey id b ex) :
    ∀ b ∈ (stored s).rows, b.live = true → SameKey Pg.scopeOf b (toPg ex) → b.uuid = ex.uuid := by
  intro b' hb' hlb hkey
  obtain ⟨b,hb,rfl⟩ := List.mem_map.mp hb'
  cases hsup : ex.supersededBy with
  | none =>
    have hlive : (toPg ex).live = true := by
      show (!ex.deleted && ex.supersededBy.isNone) = true
      rw [hdeleted, hsup]
      rfl
    exact hone _ hb' (toPg ex) (List.mem_map_of_mem hmem) hlb hlive hkey
  | some v =>
    obtain ⟨huser,hscope,hk,hsome⟩ := hkey
    obtain ⟨hsc,hproj⟩ := (scopeOf_columns (hs b hb) (hs ex hmem)).mp hscope
    have hplaces : b.place = ex.place := placed_ext (hs b hb) (hs ex hmem) hsc hproj
    exact absurd ⟨huser,hplaces,hk,hsome⟩ (hfork (by rw [hsup]; rfl) b hb hlb)

/-- A correction of an entry, in memory. -/
theorem InMemory.correct_eq {T : Texts} {user content : String} {u : Uuid} {known : List String} {s : InMemory.MemStore}
    {ex : Row MemPlace} (hex : addressed user u s = some ex)
    (hvalid : validate T (correctionReq user (InMemory.item ex) content s.now) known = none)
    (hother : normalize T content ≠ normalize T ex.content) :
    InMemory.correct T user u content known s = (.ok (.superseded ex.uuid s.next),
      ((InMemory.insertRow T (correctionReq user (InMemory.item ex) content s.now) 1 s).setRow ex.uuid
        (Row.replacedBy s.next s.now)).setRow s.next (fun r => { r with pinned := ex.pinned })) := by
  have hget : InMemory.get user u s = some (InMemory.item ex) := by
    show (addressed user u s).map InMemory.item = _
    rw [hex]
    rfl
  rw [InMemory.correct, hget]
  simp only
  rw [hvalid]
  exact if_neg hother

theorem correct_stored {T : Texts} {user content : String} {u : Uuid} {known : List String} {s : InMemory.MemStore}
    (hs : PlacedRows s) (hwell : WellFormed s) (hone : OneLive Pg.scopeOf (stored s))
    (h : CorrectsAlike T user u content known s) :
    Pg.correct T user u content known (stored s) =
        ((InMemory.correct T user u content known s).1,stored (InMemory.correct T user u content known s).2) ∧
      PlacedRows (InMemory.correct T user u content known s).2 := by
  have hnow : (stored s).now = s.now := rfl
  have hnext : (stored s).next = s.next := rfl
  have huuid : ∀ r, (InMemory.item r).uuid = r.uuid := fun _ => rfl
  have hcontent : ∀ r, (InMemory.item r).content = r.content := fun _ => rfl
  have hpinned : ∀ r, (InMemory.item r).pinned = r.pinned := fun _ => rfl
  cases hget : InMemory.get user u s with
  | none =>
    rw [Pg.correct, get_stored hs, InMemory.correct, hget]
    exact ⟨rfl,hs⟩
  | some old =>
    obtain ⟨ex,hex,rfl⟩ := Option.map_eq_some_iff.mp hget
    cases hvalid : validate T (correctionReq user (InMemory.item ex) content s.now) known with
    | some e =>
      rw [Pg.correct, get_stored hs, InMemory.correct, hget]
      simp only [hnow]
      rw [hvalid]
      exact ⟨rfl,hs⟩
    | none =>
      by_cases hother : normalize T content = normalize T ex.content
      · rw [Pg.correct, get_stored hs, InMemory.correct, hget]
        simp only [hnow]
        rw [hvalid]
        simp only [hcontent]
        rw [if_pos hother, if_pos hother]
        exact ⟨rfl,hs⟩
      · have hmem := List.mem_of_find?_eq_some hex
        have hprops := List.find?_some hex
        simp only [Bool.and_eq_true, decide_eq_true_eq, Bool.not_eq_true'] at hprops
        obtain ⟨⟨huser,hdeleted⟩,-⟩ := hprops
        obtain ⟨hfork,hfits⟩ := h ex hex hvalid hother
        rw [InMemory.correct_eq hex hvalid hother, Pg.correct, get_stored hs, hget]
        simp only [hnow, hnext]
        rw [hvalid]
        simp only [hcontent, huuid, hpinned]
        rw [if_neg hother]
        obtain ⟨hreq,hplace⟩ := correction_scoped (hs ex hmem) user content s.now
        obtain ⟨hne,hlength⟩ := validate_content hvalid
        have hsame : InMemory.sameScope (correctionReq user (InMemory.item ex) content s.now) ex = true := by
          simp [InMemory.sameScope, huser, correctionReq, InMemory.item]
        have hfree := free_once_replaced hreq hs hmem hsame (by rw [hplace]) rfl (corrected_current hs hone hmem hdeleted hfork)
        have hinsert := insert_of_free (T := T) hne hlength hfree 1
        have hstored := stored_supersede (T := T) hreq hs hwell hmem hfits 1
        generalize correctionReq user (InMemory.item ex) content s.now = req at *
        constructor
        · rw [hinsert, Option.map_some, commit_some, stored_setRow (fun r => { r with pinned := ex.pinned }) (fun _ => rfl),
            hstored]
          rfl
        · apply places_replaced hreq hs
          rw [map_setRow (g := Row.place) (fun r : Row MemPlace => { r with pinned := ex.pinned }) (fun _ => rfl)]
          have hreplaced : Replaced (InMemory.sameScope req) (newRow T req (InMemory.place req) 1 s.next s.now) ex.uuid s
            ((InMemory.insertRow T req 1 s).setRow ex.uuid (Row.replacedBy s.next s.now)) := .inr rfl
          exact replaced_places hreplaced

/-! ## The other changes -/

theorem forgetWhere_stored (hit : Row MemPlace → Bool) (hit' : Row PgPlace → Bool) {s : InMemory.MemStore}
    (h : ∀ r ∈ s.rows, hit' (toPg r) = hit r) :
    forgetWhere hit' (stored s) = ((forgetWhere hit s).1,stored (forgetWhere hit s).2) := by
  simp only [forgetWhere, stored, List.map_map, List.countP_map, Prod.mk.injEq, Store.mk.injEq, and_true]
  constructor
  · apply List.countP_congr
    intro r hr
    rw [Function.comp_apply, h r hr]
  · apply List.map_congr_left
    intro r hr
    simp only [Function.comp_apply, h r hr]
    split <;> rfl

theorem forget_stored {s : InMemory.MemStore} (hs : PlacedRows s) (user : String) (target : ForgetTarget) :
    Pg.forget user target (stored s) = ((InMemory.forget user target s).1,stored (InMemory.forget user target s).2) := by
  apply forgetWhere_stored
  intro r hr
  cases target with
  | uuid u => rfl
  | key scope key =>
    show (decide (r.userUuid = user) && !r.deleted && (decide (r.place.scope.name = scope.name) && decide (r.key = some key) &&
      r.supersededBy.isNone && _)) = (decide (r.userUuid = user) && !r.deleted && (decide (r.place.scope = scope) &&
        decide (r.key = some key) && r.supersededBy.isNone))
    congr 1
    have hplaced := hs r hr
    have hscope : (decide (r.place.scope.name = scope.name) && (match scope with
        | .user => true
        | .project p => decide ((toPg r).place.projectUuid = some p)
        | .agent a => decide ((toPg r).place.agentUuid = some a))) = decide (r.place.scope = scope) := by
      show (decide (r.place.scope.name = scope.name) && (match scope with
        | .user => true
        | .project p => decide (r.place.projectUuid = some p)
        | .agent a => decide (r.place.scope.agentId = some a))) = _
      cases hsc : r.place.scope with
      | user => cases scope <;> simp [Scope.name]
      | project id =>
        rw [hplaced.project id hsc]
        cases scope <;> simp [Scope.name]
      | agent id => cases scope <;> simp [Scope.name, Scope.agentId]
    rw [← hscope]
    ac_rfl

theorem purge_stored (s : InMemory.MemStore) :
    purgeExpired (stored s) = ((purgeExpired s).1,stored (purgeExpired s).2) :=
  forgetWhere_stored (fun r => !r.deleted && !unexpired s.now r)
    (fun r => !r.deleted && !unexpired s.now r) (fun _ _ => rfl)

theorem setPinned_stored (user : String) (u : Uuid) (pinned : Bool) (s : InMemory.MemStore) :
    setPinned user u pinned (stored s) = ((setPinned user u pinned s).1,stored (setPinned user u pinned s).2) := by
  simp only [setPinned, stored, List.map_map, List.any_map, Prod.mk.injEq, Store.mk.injEq, and_true]
  refine ⟨rfl,?_⟩
  apply List.map_congr_left
  intro r _
  simp only [Function.comp_apply]
  show (if (decide (r.userUuid = user) && !r.deleted && decide (r.uuid = u)) = true then _ else _) = _
  split <;> rfl

/-! ## Queries -/

theorem items_toPg {l : List (Row MemPlace)} (h : ∀ r ∈ l, Placed r.place) :
    (l.map toPg).filterMap Pg.intoItem = l.map InMemory.item := by
  induction l with
  | nil => rfl
  | cons r l ih =>
    rw [List.map_cons, List.filterMap_cons_some (intoItem_toPg (h r List.mem_cons_self)), List.map_cons,
      ih (fun r' hr' => h r' (List.mem_cons_of_mem _ hr'))]

theorem replaced_toPg (user : String) (rows : List (Row MemPlace)) (n : ℕ) (u : Uuid) :
    replaced user (rows.map toPg) n u = (replaced user rows n u).map toPg := by
  induction n generalizing u with
  | zero => rfl
  | succ n ih =>
    rw [replaced, replaced, List.find?_map]
    have hsame : ((fun r : Row PgPlace => decide (r.userUuid = user) && decide (r.supersededBy = some u)) ∘ toPg) =
        (fun r => decide (r.userUuid = user) && decide (r.supersededBy = some u)) := rfl
    rw [hsame]
    cases hfind : rows.find? (fun r => decide (r.userUuid = user) && decide (r.supersededBy = some u)) with
    | none => rfl
    | some a =>
      simp only [Option.map_some, List.map_cons]
      rw [← ih a.uuid]
      rfl

theorem wellFormed_stored {s : InMemory.MemStore} (h : WellFormed s) : WellFormed (stored s) := by
  constructor
  · show ((s.rows.map toPg).map Row.uuid).Pairwise (· < ·)
    rw [List.map_map]
    exact h.uuids
  · intro r' hr'
    obtain ⟨r,hr,rfl⟩ := List.mem_map.mp hr'
    exact h.fresh r hr
  · intro r' hr'
    obtain ⟨r,hr,rfl⟩ := List.mem_map.mp hr'
    exact h.times r hr

theorem versions_stored (s : InMemory.MemStore) : (stored s).rows.map version = s.rows.map version := by
  show (s.rows.map toPg).map version = _
  rw [List.map_map]
  rfl

theorem history_stored {s : InMemory.MemStore} (hs : PlacedRows s) (hwell : WellFormed s)
    (hchained : Chained (s.rows.map version)) (user : String) (u : Uuid) :
    Pg.history user u (stored s) = InMemory.history user u s := by
  rw [Pg.history, Pg.chain_eq (wellFormed_stored hwell) (versions_stored s ▸ hchained)]
  show (replaced user (s.rows.map toPg) 20 u).filterMap Pg.intoItem = _
  rw [replaced_toPg, items_toPg (fun r hr => hs r (replaced_mem hr))]
  rfl

/-- The rows that a list shows, whatever its query. -/
def listable (userUuid : String) (req : ListReq) (s : InMemory.MemStore) (r : Row MemPlace) : Bool :=
  r.userUuid = userUuid && !r.deleted && unexpired s.now r &&
    (req.includeSuperseded || r.supersededBy.isNone) && req.scope.all (· = r.place.scope.name.asStr) &&
    req.tier.all (· = r.tier) && req.projectUuid.all (fun p => r.place.projectUuid = some p)

/-- A list without empty filters, whose query is in the text of each entry whose key has it. -/
def ListsAlike (T : Texts) (userUuid : String) (req : ListReq) (s : InMemory.MemStore) : Prop :=
  req.scope ≠ some "" ∧ req.projectUuid ≠ some "" ∧
    ∀ q, (req.query.map (normalize T)).filter (· ≠ "") = some q → ∀ r ∈ s.rows, listable userUuid req s r = true →
      contains (r.key.getD "").toList q.toList = true → contains r.contentNorm.toList q.toList = true

theorem filter_not_empty {x : Option String} (h : x ≠ some "") : x.filter (· ≠ "") = x := by
  cases x with
  | none => rfl
  | some a =>
    have ha : a ≠ "" := fun h' => h (by rw [h'])
    simp [Option.filter, ha]

theorem list_stored {T : Texts} {user : String} {req : ListReq} {s : InMemory.MemStore} (hs : PlacedRows s)
    (h : ListsAlike T user req s) : Pg.list T user req (stored s) = InMemory.list T user req s := by
  obtain ⟨hscope,hproject,hquery⟩ := h
  have hfilter : (stored s).rows.filter (fun r => r.userUuid = user && !r.deleted && unexpired (stored s).now r &&
      (req.includeSuperseded || r.supersededBy.isNone) &&
      (req.scope.filter (· ≠ "")).all (· = r.place.scope.asStr) && req.tier.all (· = r.tier) &&
      (req.projectUuid.filter (· ≠ "")).all (fun p => r.place.projectUuid = some p) &&
      ((req.query.map (normalize T)).filter (· ≠ "")).all
        (fun q => contains r.contentNorm.toList q.toList || contains (r.key.getD "").toList q.toList)) =
      (s.rows.filter (fun r => listable user req s r && ((req.query.map (normalize T)).filter (· ≠ "")).all
        (fun q => contains r.contentNorm.toList q.toList))).map toPg := by
    show (s.rows.map toPg).filter _ = _
    rw [List.filter_map, filter_not_empty hscope, filter_not_empty hproject]
    congr 1
    apply List.filter_congr
    intro r hr
    show (listable user req s r && ((req.query.map (normalize T)).filter (· ≠ "")).all
      (fun q => contains r.contentNorm.toList q.toList || contains (r.key.getD "").toList q.toList)) = _
    cases hl : listable user req s r with
    | false => rw [Bool.false_and, Bool.false_and]
    | true =>
      rw [Bool.true_and, Bool.true_and]
      cases hq : (req.query.map (normalize T)).filter (· ≠ "") with
      | none => rfl
      | some q =>
        show (contains r.contentNorm.toList q.toList || contains (r.key.getD "").toList q.toList) =
          contains r.contentNorm.toList q.toList
        cases hkey : contains (r.key.getD "").toList q.toList with
        | false => rw [Bool.or_false]
        | true => rw [hquery q hq r hr hl hkey, Bool.true_or]
  unfold Pg.list InMemory.list
  simp only
  rw [hfilter, ← List.map_mergeSort (r := pinnedFirst) (f := toPg) (fun _ _ _ _ => rfl), ← List.map_drop, ← List.map_take]
  apply items_toPg
  intro r hr
  have hmem := List.mem_mergeSort.mp (List.mem_of_mem_drop (List.mem_of_mem_take hr))
  exact hs r (List.mem_of_mem_filter hmem)

/-! ## Searching -/

theorem contains_iff (text part : List Char) : contains text part = true ↔ part <:+: text := by
  induction text with
  | nil => simp [contains]
  | cons c cs ih =>
    rw [contains, Bool.or_eq_true, ih, List.isPrefixOf_iff_prefix, List.infix_cons_iff]

theorem mem_trimBy {p : Char → Bool} {s : String} {c : Char} (h : c ∈ (trimBy p s).toList) : c ∈ s.toList := by
  rw [trimBy, String.toList_ofList, List.mem_reverse] at h
  have hmem := List.mem_reverse.mp ((List.dropWhile_sublist _).subset h)
  exact (List.dropWhile_sublist _).subset hmem

/-- Words have no space. -/
theorem term_no_space {T : Texts} {query t : String} (h : t ∈ queryTerms T query) : ' ' ∉ t.toList := by
  intro hspace
  obtain ⟨hmem,-⟩ := List.mem_filter.mp h
  obtain ⟨w,hw,rfl⟩ := List.mem_map.mp hmem
  have hchar := SeparatedParts.mem_splitOnP hw ' ' (by simpa using mem_trimBy hspace)
  simp [separator, T.space_not_alphanumeric] at hchar

theorem hits_toPg {T : Texts} (query : String) (r : Row MemPlace) :
    Pg.hits (queryTerms T query) (toPg r) = InMemory.score (queryTerms T query) r := by
  unfold Pg.hits InMemory.score
  congr 1
  apply List.filter_congr
  intro t ht
  show (contains r.contentNorm.toList t.toList || contains (r.key.getD "").toList t.toList) =
    contains ((r.key.getD "").toList++ ' '::r.contentNorm.toList) t.toList
  rw [Bool.eq_iff_iff, Bool.or_eq_true, contains_iff, contains_iff, contains_iff,
    SeparatedParts.infix_append_sep ' ' (term_no_space ht)]
  exact Or.comm

theorem scopeAllowed_columns {p : MemPlace} (hp : Placed p) (scopes : List Scope) :
    Pg.scopeAllowed scopes (columns p) = InMemory.scopeAllowed scopes p.scope := by
  obtain ⟨scope,project⟩ := p
  have hprojects : ∀ id, (scopes.filterMap Scope.projectId).contains id = scopes.contains (.project id) := by
    intro id
    rw [Bool.eq_iff_iff, List.contains_iff_mem, List.contains_iff_mem, List.mem_filterMap]
    constructor
    · rintro ⟨scope,hmem,hid⟩
      cases scope <;> cases hid
      exact hmem
    · exact fun h => ⟨_,h,rfl⟩
  have hagents : ∀ id, (scopes.filterMap Scope.agentId).contains id = scopes.contains (.agent id) := by
    intro id
    rw [Bool.eq_iff_iff, List.contains_iff_mem, List.contains_iff_mem, List.mem_filterMap]
    constructor
    · rintro ⟨scope,hmem,hid⟩
      cases scope <;> cases hid
      exact hmem
    · exact fun h => ⟨_,h,rfl⟩
  cases scope with
  | user => simp [Pg.scopeAllowed, InMemory.scopeAllowed, columns, Scope.name, List.any_eq]
  | project id =>
    have hproject : project = some id := hp.project id rfl
    subst hproject
    show (scopes.isEmpty || (decide (ScopeName.project = .user) && scopes.any (fun scope => scope == .user)) ||
      (decide (ScopeName.project = .project) && (scopes.filterMap Scope.projectId).contains id) ||
      (decide (ScopeName.project = .agent) && false)) = (scopes.isEmpty || scopes.contains (.project id))
    rw [hprojects]
    simp
  | agent id =>
    show (scopes.isEmpty || (decide (ScopeName.agent = .user) && scopes.any (fun scope => scope == .user)) ||
      (decide (ScopeName.agent = .project) && _) ||
      (decide (ScopeName.agent = .agent) && (scopes.filterMap Scope.agentId).contains id)) =
      (scopes.isEmpty || scopes.contains (.agent id))
    rw [hagents]
    simp

/-- A search for nothing, or for words. -/
def SearchesAlike (T : Texts) (q : SearchReq) : Prop := trim q.query = "" ∨ queryTerms T q.query ≠ []

theorem search_stored {T : Texts} {user : String} {q : SearchReq} {s : InMemory.MemStore} (hs : PlacedRows s)
    (h : SearchesAlike T q) : Pg.search T user q (stored s) = InMemory.search T user q s := by
  have hterms : queryTerms T (trim q.query) = queryTerms T q.query := by
    unfold queryTerms
    rw [normalize_trim]
  have hguard : (decide (trim q.query ≠ "") && (queryTerms T q.query).isEmpty) = false := by
    obtain h | h := h
    · simp [h]
    · cases hq : queryTerms T q.query with
      | nil => exact absurd hq h
      | cons => simp
  unfold Pg.search InMemory.search
  simp only
  rw [hterms, if_neg (by rw [hguard]; simp)]
  have hfilter : (stored s).rows.filter (fun r => r.userUuid = user && !r.deleted && Pg.scopeAllowed q.scopes r.place &&
      (q.tiers.isEmpty || q.tiers.contains r.tier) && (q.kinds.isEmpty || q.kinds.contains r.kind) &&
      q.since.all (fun t => t ≤ r.createdAt) && (q.includeSuperseded || r.supersededBy.isNone) &&
      unexpired (stored s).now r && ((queryTerms T q.query).isEmpty ||
        minMatch q.minMatch (queryTerms T q.query).length ≤ Pg.hits (queryTerms T q.query) r)) =
      (s.rows.filter (fun r => r.userUuid = user && !r.deleted &&
        (q.includeSuperseded || r.supersededBy.isNone) && unexpired s.now r &&
        InMemory.scopeAllowed q.scopes r.place.scope &&
        (q.tiers.isEmpty || q.tiers.contains r.tier) && (q.kinds.isEmpty || q.kinds.contains r.kind) &&
        q.since.all (fun t => t ≤ r.createdAt) && ((queryTerms T q.query).isEmpty ||
          minMatch q.minMatch (queryTerms T q.query).length ≤ InMemory.score (queryTerms T q.query) r))).map toPg := by
    show (s.rows.map toPg).filter _ = _
    rw [List.filter_map]
    congr 1
    apply List.filter_congr
    intro r hr
    simp only [Function.comp_apply, hits_toPg]
    rw [show (toPg r).place = columns r.place from rfl, scopeAllowed_columns (hs r hr)]
    show (decide (r.userUuid = user) && !r.deleted && InMemory.scopeAllowed q.scopes r.place.scope &&
      (q.tiers.isEmpty || q.tiers.contains r.tier) && (q.kinds.isEmpty || q.kinds.contains r.kind) &&
      q.since.all (fun t => t ≤ r.createdAt) && (q.includeSuperseded || r.supersededBy.isNone) &&
      unexpired s.now r && _) = _
    ac_rfl
  rw [hfilter, ← List.map_mergeSort (r := bestFirst (InMemory.score (queryTerms T q.query))), ← List.map_take]
  · apply items_toPg
    intro r hr
    exact hs r (List.mem_of_mem_filter (List.mem_mergeSort.mp (List.mem_of_mem_take hr)))
  · intro a _ b _
    simp only [bestFirst, hits_toPg]
    rfl

/-! ## Runs -/

/-- What each operation needs for the two stores to agree. -/
def Alike (T : Texts) (s : InMemory.MemStore) : Op → Prop
  | .write req known => validate T req known = none → WellScoped req ∧ WritesAlike T req s
  | .correct user u content known => CorrectsAlike T user u content known s
  | .list user req => ListsAlike T user req s
  | .search _ q => SearchesAlike T q
  | _ => True

instance (req : WriteReq) : Decidable (WellScoped req) := by
  unfold WellScoped Trimmed
  cases req.scope <;> infer_instance

instance (req : WriteReq) (s : InMemory.MemStore) (matters : Row MemPlace → Bool) : Decidable (OneProject req s matters) := by
  unfold OneProject
  infer_instance

instance (req : WriteReq) (old : Option (Row MemPlace)) (s : InMemory.MemStore) : Decidable (NoteFits req old s) := by
  unfold NoteFits
  infer_instance

instance (T : Texts) (req : WriteReq) (s : InMemory.MemStore) : Decidable (WritesAlike T req s) := by
  unfold WritesAlike
  split
  · refine @instDecidableAnd _ _ inferInstance ?_
    split
    · split <;> infer_instance
    · infer_instance
  · refine @instDecidableAnd _ _ inferInstance ?_
    split <;> infer_instance

/-- A condition on the value of an option, if it has one. -/
def decidableForallSome {α : Type} {o : Option α} {P : α → Prop} (h : ∀ a, Decidable (P a)) :
    Decidable (∀ a, o = some a → P a) :=
  match o with
  | none => .isTrue nofun
  | some a => match h a with
    | .isTrue ha => .isTrue (fun _ heq => Option.some.inj heq ▸ ha)
    | .isFalse ha => .isFalse (fun hall => ha (hall a rfl))

instance (T : Texts) (user : String) (u : Uuid) (content : String) (known : List String) (s : InMemory.MemStore) :
    Decidable (CorrectsAlike T user u content known s) := by
  unfold CorrectsAlike
  exact decidableForallSome (fun ex => inferInstanceAs (Decidable (_ → _ → _ ∧ _)))

instance (T : Texts) (user : String) (req : ListReq) (s : InMemory.MemStore) : Decidable (ListsAlike T user req s) := by
  unfold ListsAlike
  refine @instDecidableAnd (req.scope ≠ some "") _ inferInstance
    (@instDecidableAnd (req.projectUuid ≠ some "") _ inferInstance ?_)
  exact decidableForallSome (fun q => inferInstanceAs (Decidable (∀ r ∈ s.rows, _ → _ → _)))

instance (T : Texts) (q : SearchReq) : Decidable (SearchesAlike T q) := by
  unfold SearchesAlike
  infer_instance

instance (T : Texts) (s : InMemory.MemStore) (op : Op) : Decidable (Alike T s op) :=
  match op with
  | .write req _ => inferInstanceAs (Decidable (_ → _ ∧ WritesAlike T req s))
  | .correct user u content known => inferInstanceAs (Decidable (CorrectsAlike T user u content known s))
  | .list user req => inferInstanceAs (Decidable (ListsAlike T user req s))
  | .search _ q => inferInstanceAs (Decidable (SearchesAlike T q))
  | .forget .. | .purgeExpired | .setPinned .. | .get .. | .history .. => .isTrue trivial

structure Sound (s : InMemory.MemStore) : Prop where
  placed : PlacedRows s
  wellFormed : WellFormed s
  chained : Chained (s.rows.map version)
  oneLive : OneLive Pg.scopeOf (stored s)

theorem Sound.after {s : InMemory.MemStore} (h : Sound s) (delay : ℕ) : Sound (s.after delay) :=
  ⟨h.placed,h.wellFormed.after delay,h.chained,h.oneLive⟩

theorem mapRows_placed {s : InMemory.MemStore} (h : PlacedRows s) {f : Row MemPlace → Row MemPlace}
    (hf : ∀ r, (f r).place = r.place) : PlacedRows { s with rows := s.rows.map f } := by
  intro r' hr'
  obtain ⟨r,hr,rfl⟩ := List.mem_map.mp hr'
  rw [hf]
  exact h r hr

theorem forgetWhere_placed {s : InMemory.MemStore} (h : PlacedRows s) (hit : Row MemPlace → Bool) :
    PlacedRows (forgetWhere hit s).2 := by
  apply mapRows_placed h
  intro r
  split <;> rfl

theorem setRow_placed {s : InMemory.MemStore} (h : PlacedRows s) (u : Uuid) (f : Row MemPlace → Row MemPlace)
    (hf : ∀ r, (f r).place = r.place) : PlacedRows (s.setRow u f) := by
  apply mapRows_placed h
  intro r
  split
  · exact hf r
  · rfl

theorem write_placed {T : Texts} {req : WriteReq} {known : List String} {s : InMemory.MemStore} (h : PlacedRows s)
    (hreq : validate T req known = none → WellScoped req) : PlacedRows (InMemory.writeSync T req known s).2 := by
  cases hvalid : validate T req known with
  | some e =>
    rw [InMemory.writeSync, hvalid]
    exact h
  | none =>
    have hreq := hreq hvalid
    have hc := InMemory.write_change T req known s
    generalize (InMemory.writeSync T req known s).2 = s' at hc ⊢
    cases hc with
    | nothing => exact h
    | refresh _ _ ex c _ => exact setRow_placed h _ (Row.refresh req c s.now) (fun _ => rfl)
    | reinforce _ _ u c _ => exact setRow_placed h _ (Row.reinforce c s.now) (fun _ => rfl)
    | insert _ _ req' c _ hform =>
      have hscoped : WellScoped req' := by
        obtain rfl | ⟨note,rfl⟩ := hform
        · exact hreq
        · exact hreq
      exact places_replaced hscoped h (map_addRow (fun _ => rfl) _ _ s)
    | supersede _ _ _ _ _ _ _ hs' => exact places_replaced hreq h (replaced_places hs')

/-- One operation: the same answer, and Postgres holds what the store in memory holds. -/
theorem perform_stored {T : Texts} {op : Op} {s : InMemory.MemStore} (hs : Sound s) (h : Alike T s op) :
    Pg.perform T op (stored s) = ((InMemory.perform T op s).1,stored (InMemory.perform T op s).2) ∧
      PlacedRows (InMemory.perform T op s).2 := by
  cases op with
  | write req known =>
    have halike : validate T req known = none → WellScoped req ∧ WritesAlike T req s := h
    have hw := write_stored hs.placed hs.wellFormed hs.oneLive halike
    have hplaced : PlacedRows (InMemory.writeSync T req known s).2 :=
      write_placed hs.placed (fun hvalid => (halike hvalid).1)
    simp only [Pg.perform, InMemory.perform, hw, true_and]
    exact hplaced
  | correct user u content known =>
    obtain ⟨hw,hplaced⟩ := correct_stored hs.placed hs.wellFormed hs.oneLive h
    refine ⟨?_,hplaced⟩
    simp only [Pg.perform, InMemory.perform, hw]
  | forget user target =>
    refine ⟨?_,forgetWhere_placed hs.placed _⟩
    simp only [Pg.perform, InMemory.perform, forget_stored hs.placed]
  | purgeExpired =>
    refine ⟨?_,forgetWhere_placed hs.placed _⟩
    simp only [Pg.perform, InMemory.perform, purge_stored]
  | setPinned user u pinned =>
    refine ⟨?_,mapRows_placed hs.placed (fun r => by split <;> rfl)⟩
    simp only [Pg.perform, InMemory.perform, setPinned_stored]
  | get user u => exact ⟨by simp only [Pg.perform, InMemory.perform, get_stored hs.placed],hs.placed⟩
  | history user u =>
    exact ⟨by simp only [Pg.perform, InMemory.perform, history_stored hs.placed hs.wellFormed hs.chained],hs.placed⟩
  | list user req => exact ⟨by simp only [Pg.perform, InMemory.perform, list_stored hs.placed h],hs.placed⟩
  | search user q => exact ⟨by simp only [Pg.perform, InMemory.perform, search_stored hs.placed h],hs.placed⟩

theorem Sound.perform {T : Texts} {op : Op} {s : InMemory.MemStore} (hs : Sound s) (h : Alike T s op) :
    Sound (InMemory.perform T op s).2 := by
  obtain ⟨hstored,hplaced⟩ := perform_stored hs h
  have hc := InMemory.perform_change T op s
  refine ⟨hplaced,hs.wellFormed.change hc,hs.chained.change InMemory.isKeyed hs.wellFormed hc,?_⟩
  have hpg := hs.oneLive.change Pg.isKeyed (Pg.perform_change T op (stored s)) (.inl trivial)
  rw [hstored] at hpg
  exact hpg

/-- The answers of a run, one for each operation. -/
def answers {κ : Type} (perform : Op → Store κ → Answer × Store κ) : List Event → Store κ → List Answer
  | [], _ => []
  | e::es, s => (perform e.op (s.after e.delay)).1::answers perform es (perform e.op (s.after e.delay)).2

end DevForge.MemoryRefinement
