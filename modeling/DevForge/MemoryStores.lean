import DevForge.MemoryRules

/-!
# The two stores of the memory

`InMemoryStore` and `PgMemoryStore`, over rows that differ in the columns of the scope. Rows
stand in the order of their insertion, which is that of the identity column; a row that is
forgotten stays. A transaction that fails leaves the store as it was. Texts have no NUL character,
and equal sort keys keep the order of the rows.
-/

set_option autoImplicit false

namespace DevForge.MemoryStores
open MemoryRules

/-- A row, with the columns `κ` of its scope. -/
structure Row (κ : Type) where
  uuid : Uuid
  userUuid : String
  place : κ
  tier : Tier
  kind : String
  key : Option String
  content : String
  contentNorm : String
  source : String
  confidence : ℚ
  pinned : Bool
  createdBy : String
  createdAt : Instant
  updatedAt : Instant
  expiresAt : Option Instant
  supersededBy : Option Uuid
  deleted : Bool
deriving DecidableEq, Repr

structure Store (κ : Type) where
  rows : List (Row κ)
  /-- The next uuid that is drawn. -/
  next : Uuid
  now : Instant

inductive MemoryError | notFound | db
deriving DecidableEq, Repr

section
variable {κ : Type}

def Store.empty : Store κ := ⟨[],0,0⟩

/-- Neither forgotten nor replaced. -/
def Row.live (r : Row κ) : Bool := !r.deleted && r.supersededBy.isNone

def unexpired (now : Instant) (r : Row κ) : Bool := r.expiresAt.all (fun e => now < e)

def Store.setRow (u : Uuid) (f : Row κ → Row κ) (s : Store κ) : Store κ :=
  { s with rows := s.rows.map (fun r => if r.uuid = u then f r else r) }

def Row.existing (r : Row κ) : Existing := ⟨r.uuid,r.contentNorm,r.source,r.confidence⟩

/-- The row that a request makes. -/
def newRow (T : Texts) (req : WriteReq) (place : κ) (confidence : ℚ) (uuid : Uuid) (now : Instant) : Row κ where
  uuid := uuid
  userUuid := req.userUuid
  place := place
  tier := req.tier
  kind := req.kind
  key := req.key
  content := trim req.content
  contentNorm := normalize T req.content
  source := req.source
  confidence := confidence
  pinned := false
  createdBy := req.createdBy
  createdAt := now
  updatedAt := now
  expiresAt := expiresAt req now
  supersededBy := none
  deleted := false

/-- The order of the notes, the latest first. -/
def later (a b : Row κ × ℕ) : Bool :=
  b.1.updatedAt < a.1.updatedAt || (a.1.updatedAt = b.1.updatedAt && b.2 ≤ a.2)

/-- The positions of the live notes of a scope beyond the latest `MAX_LIVE_NOTES`. -/
def oldNotes (same : Row κ → Bool) (rows : List (Row κ)) : List ℕ :=
  (((rows.zipIdx.filter (fun p => same p.1 && p.1.tier = .note && p.1.live)).mergeSort later).drop
    MAX_LIVE_NOTES).map Prod.snd

def forgetOldNotes (same : Row κ → Bool) (rows : List (Row κ)) : List (Row κ) :=
  rows.zipIdx.map (fun p => if (oldNotes same rows).contains p.2 then { p.1 with deleted := true } else p.1)

/-- `purge_expired`, and how many rows it forgets. -/
def purgeExpired (s : Store κ) : ℕ × Store κ :=
  (s.rows.countP (fun r => !r.deleted && !unexpired s.now r),
    { s with rows := s.rows.map (fun r =>
      if !r.deleted && !unexpired s.now r then { r with deleted := true } else r) })

inductive ForgetTarget where
  | uuid (uuid : Uuid)
  | key (scope : Scope) (key : String)
deriving DecidableEq, Repr

def forgetWhere (hit : Row κ → Bool) (s : Store κ) : ℕ × Store κ :=
  (s.rows.countP hit,{ s with rows := s.rows.map (fun r => if hit r then { r with deleted := true } else r) })

def setPinned (userUuid : String) (uuid : Uuid) (pinned : Bool) (s : Store κ) : Bool × Store κ :=
  (s.rows.any (fun r => r.userUuid = userUuid && !r.deleted && r.uuid = uuid),
    { s with rows := s.rows.map (fun r =>
      if r.userUuid = userUuid && !r.deleted && r.uuid = uuid then { r with pinned := pinned } else r) })

/-- The refresh of a keyed row whose content is the same. -/
def Row.refresh (req : WriteReq) (confidence : ℚ) (now : Instant) (r : Row κ) : Row κ :=
  { r with updatedAt := now, confidence := confidence, expiresAt := (MemoryRules.expiresAt req now).or r.expiresAt }

/-- The refresh of a row that says nearly the same. -/
def Row.reinforce (confidence : ℚ) (now : Instant) (r : Row κ) : Row κ :=
  { r with updatedAt := now, confidence := larger r.confidence confidence }

def Row.replacedBy (new : Uuid) (now : Instant) (r : Row κ) : Row κ :=
  { r with supersededBy := some new, updatedAt := now }

def similar (T : Texts) (a b : String) : Bool := SIMILARITY ≤ T.similarity a b

/-- The order of a search: the score, then the last change. -/
def bestFirst (score : Row κ → ℕ) (a b : Row κ) : Bool :=
  score b < score a || (score a = score b && b.updatedAt ≤ a.updatedAt)

/-- The order of the list: the pinned ones, then the last change. -/
def pinnedFirst (a b : Row κ) : Bool :=
  (a.pinned && !b.pinned) || (a.pinned = b.pinned && b.updatedAt ≤ a.updatedAt)

/-- The first row that `cur` replaced, then the one that this row replaced, `n` at most. -/
def replaced (userUuid : String) (rows : List (Row κ)) : ℕ → Uuid → List (Row κ)
  | 0, _ => []
  | n+1, cur =>
    match rows.find? (fun r => r.userUuid = userUuid && r.supersededBy = some cur) with
    | some r => r::replaced userUuid rows n r.uuid
    | none => []

end

/-! ## In memory -/

/-- The columns of `MemoryItem`. -/
structure MemPlace where
  scope : Scope
  projectUuid : Option String
deriving DecidableEq, Repr

namespace InMemory

abbrev MemStore := Store MemPlace

def place (req : WriteReq) : MemPlace where
  scope := req.scope
  projectUuid := match req.scope with
    | .project p => some p
    | .agent _ => req.projectUuid
    | .user => none

def item (r : Row MemPlace) : MemoryItem :=
  ⟨r.uuid,r.place.scope,r.place.projectUuid,r.tier,r.kind,r.key,r.content,r.source,r.confidence,r.pinned,
    r.createdBy,r.createdAt,r.updatedAt,r.expiresAt,r.supersededBy⟩

def sameScope (req : WriteReq) (r : Row MemPlace) : Bool :=
  r.userUuid = req.userUuid && r.place.scope = req.scope

/-- The new row bears the uuid `s.next`. -/
def insertRow (T : Texts) (req : WriteReq) (confidence : ℚ) (s : MemStore) : MemStore :=
  let rows := s.rows++[newRow T req (place req) confidence s.next s.now]
  { s with
    rows := if req.tier = .note then forgetOldNotes (sameScope req) rows else rows
    next := s.next+1 }

/-- The live row of a key. -/
def keyed (req : WriteReq) (key : String) (s : MemStore) : Option (Row MemPlace) :=
  s.rows.find? (fun r => sameScope req r && r.key = some key && r.live)

/-- The first live row that says nearly the same. -/
def duplicate (T : Texts) (req : WriteReq) (s : MemStore) : Option (Row MemPlace) :=
  s.rows.find? (fun r => sameScope req r && r.tier = req.tier && r.live && unexpired s.now r &&
    similar T r.contentNorm (normalize T req.content))

def writeSync (T : Texts) (req : WriteReq) (known : List String) (s : MemStore) : WriteOutcome × MemStore :=
  match validate T req known with
  | some e => (.rejected e,s)
  | none =>
    let confidence := effectiveConfidence req
    match req.key with
    | some key =>
      match keyed req key s with
      | some ex =>
        match decideKey T ex.existing req confidence with
        | .refresh c => (.updated ex.uuid,s.setRow ex.uuid (Row.refresh req c s.now))
        | .supersede => (.superseded ex.uuid s.next,
            (insertRow T req confidence s).setRow ex.uuid (Row.replacedBy s.next s.now))
        | .confirm note => (.needsConfirmation ex.uuid s.next,
            insertRow T (confirmationNote req note) (effectiveConfidence (confirmationNote req note)) s)
      | none => (.inserted s.next,insertRow T req confidence s)
    | none =>
      match duplicate T req s with
      | some r => (.updated r.uuid,s.setRow r.uuid (Row.reinforce confidence s.now))
      | none => (.inserted s.next,insertRow T req confidence s)

def get (userUuid : String) (uuid : Uuid) (s : MemStore) : Option MemoryItem :=
  (s.rows.find? (fun r => r.userUuid = userUuid && !r.deleted && r.uuid = uuid)).map item

def correct (T : Texts) (userUuid : String) (uuid : Uuid) (content : String) (known : List String) (s : MemStore) :
    Except MemoryError WriteOutcome × MemStore :=
  match get userUuid uuid s with
  | none => (.error .notFound,s)
  | some old =>
    let req := correctionReq userUuid old content s.now
    match validate T req known with
    | some e => (.ok (.rejected e),s)
    | none =>
      if normalize T content = normalize T old.content then (.ok (.updated old.uuid),s)
      else (.ok (.superseded old.uuid s.next),
        ((insertRow T req 1 s).setRow old.uuid (Row.replacedBy s.next s.now)).setRow s.next
          (fun r => { r with pinned := old.pinned }))

def forget (userUuid : String) (target : ForgetTarget) (s : MemStore) : ℕ × MemStore :=
  forgetWhere (fun r => r.userUuid = userUuid && !r.deleted && match target with
    | .uuid u => r.uuid = u
    | .key scope key => r.place.scope = scope && r.key = some key && r.supersededBy.isNone) s

def scopeAllowed (scopes : List Scope) (scope : Scope) : Bool := scopes.isEmpty || scopes.contains scope

/-- How many of the terms are found in the key or in the text. -/
def score (terms : List String) (r : Row MemPlace) : ℕ :=
  let hay := (r.key.getD "").toList++ ' '::r.contentNorm.toList
  (terms.filter (fun t => contains hay t.toList)).length

def search (T : Texts) (userUuid : String) (q : SearchReq) (s : MemStore) : List MemoryItem :=
  let terms := queryTerms T q.query
  let min := minMatch q.minMatch terms.length
  let rows := s.rows.filter (fun r => r.userUuid = userUuid && !r.deleted &&
    (q.includeSuperseded || r.supersededBy.isNone) && unexpired s.now r && scopeAllowed q.scopes r.place.scope &&
    (q.tiers.isEmpty || q.tiers.contains r.tier) && (q.kinds.isEmpty || q.kinds.contains r.kind) &&
    q.since.all (fun t => t ≤ r.createdAt) && (terms.isEmpty || min ≤ score terms r))
  ((rows.mergeSort (bestFirst (score terms))).take (clampLimit q.limit MAX_SEARCH)).map item

def list (T : Texts) (userUuid : String) (req : ListReq) (s : MemStore) : List MemoryItem :=
  let q := (req.query.map (normalize T)).filter (· ≠ "")
  let rows := s.rows.filter (fun r => r.userUuid = userUuid && !r.deleted && unexpired s.now r &&
    (req.includeSuperseded || r.supersededBy.isNone) && req.scope.all (· = r.place.scope.name.asStr) &&
    req.tier.all (· = r.tier) && req.projectUuid.all (fun p => r.place.projectUuid = some p) &&
    q.all (fun q => contains r.contentNorm.toList q.toList))
  (((rows.mergeSort pinnedFirst).drop req.offset).take (clampLimit req.limit MAX_LIST)).map item

def history (userUuid : String) (uuid : Uuid) (s : MemStore) : List MemoryItem :=
  (replaced userUuid s.rows 20 uuid).map item

end InMemory

/-! ## Postgres -/

structure PgPlace where
  scope : ScopeName
  projectUuid : Option String
  agentUuid : Option String
deriving DecidableEq, Repr

namespace Pg

abbrev PgStore := Store PgPlace

/-- `scope_cols`. -/
def place (req : WriteReq) : PgPlace where
  scope := req.scope.name
  projectUuid := match req.scope with
    | .user => none
    | .project p => some p
    | .agent _ => req.projectUuid.filter (· ≠ "")
  agentUuid := req.scope.agentId

/-- `into_item`, none for a scope whose identifier is blank. -/
def intoItem (r : Row PgPlace) : Option MemoryItem :=
  (Scope.fromParts r.place.scope r.place.projectUuid r.place.agentUuid).map fun scope =>
    ⟨r.uuid,scope,r.place.projectUuid,r.tier,r.kind,r.key,r.content,r.source,r.confidence,r.pinned,
      r.createdBy,r.createdAt,r.updatedAt,r.expiresAt,r.supersededBy⟩

/-- `user_uuid = $1 AND scope = $2 AND coalesce(project_uuid,'') = $3 AND coalesce(agent_uuid,'') = $4`. -/
def samePlace (req : WriteReq) (r : Row PgPlace) : Bool :=
  r.userUuid = req.userUuid && r.place.scope = (place req).scope &&
    r.place.projectUuid.getD "" = (place req).projectUuid.getD "" &&
    r.place.agentUuid.getD "" = (place req).agentUuid.getD ""

/-- `char_length(content) BETWEEN 1 AND 2000` and `uq_mem_live_key`; the other checks hold of
every request. -/
def accepts (req : WriteReq) (s : PgStore) : Bool :=
  1 ≤ (trim req.content).length && (trim req.content).length ≤ 2000 &&
    !s.rows.any (fun r => r.live && r.key.isSome && r.key = req.key && samePlace req r)

/-- The new row bears the uuid `s.next`; none where a check or the unique index refuses it. -/
def insert (T : Texts) (req : WriteReq) (confidence : ℚ) (s : PgStore) : Option PgStore :=
  if accepts req s then
    let rows := s.rows++[newRow T req (place req) confidence s.next s.now]
    some { s with
      rows := if req.tier = .note then forgetOldNotes (samePlace req) rows else rows
      next := s.next+1 }
  else none

def keyed (req : WriteReq) (key : String) (s : PgStore) : Option (Row PgPlace) :=
  s.rows.find? (fun r => samePlace req r && r.key = some key && r.live)

/-- `ORDER BY similarity(content_norm, $6) DESC LIMIT 1`. -/
def mostSimilar (T : Texts) (norm : String) (rows : List (Row PgPlace)) : Option (Row PgPlace) :=
  (rows.mergeSort (fun a b => T.similarity b.contentNorm norm ≤ T.similarity a.contentNorm norm)).head?

def duplicate (T : Texts) (req : WriteReq) (s : PgStore) : Option (Row PgPlace) :=
  mostSimilar T (normalize T req.content) (s.rows.filter (fun r => samePlace req r && r.tier = req.tier && r.live &&
    unexpired s.now r && similar T r.contentNorm (normalize T req.content)))

/-- A transaction: what it answers, or the error after which nothing has changed. -/
def commit (s : PgStore) (out : WriteOutcome) : Option PgStore → Except MemoryError WriteOutcome × PgStore
  | some s' => (.ok out,s')
  | none => (.error .db,s)

def writeInner (T : Texts) (req : WriteReq) (s : PgStore) : Except MemoryError WriteOutcome × PgStore :=
  let confidence := effectiveConfidence req
  match req.key with
  | some key =>
    match keyed req key s with
    | some ex =>
      match decideKey T ex.existing req confidence with
      | .refresh c => (.ok (.updated ex.uuid),s.setRow ex.uuid (Row.refresh req c s.now))
      | .supersede => commit s (.superseded ex.uuid s.next)
          (insert T req confidence (s.setRow ex.uuid (Row.replacedBy s.next s.now)))
      | .confirm note => commit s (.needsConfirmation ex.uuid s.next)
          (insert T (confirmationNote req note) (effectiveConfidence (confirmationNote req note)) s)
    | none => commit s (.inserted s.next) (insert T req confidence s)
  | none =>
    match duplicate T req s with
    | some r => (.ok (.updated r.uuid),s.setRow r.uuid (Row.reinforce confidence s.now))
    | none => commit s (.inserted s.next) (insert T req confidence s)

/-- A second attempt after an error finds the same store, as nothing runs in between. -/
def write (T : Texts) (req : WriteReq) (known : List String) (s : PgStore) :
    Except MemoryError WriteOutcome × PgStore :=
  match validate T req known with
  | some e => (.ok (.rejected e),s)
  | none => match writeInner T req s with
    | (.error _,s') => writeInner T req s'
    | done => done

def get (userUuid : String) (uuid : Uuid) (s : PgStore) : Option MemoryItem :=
  (s.rows.find? (fun r => r.userUuid = userUuid && r.uuid = uuid && !r.deleted)).bind intoItem

def correct (T : Texts) (userUuid : String) (uuid : Uuid) (content : String) (known : List String) (s : PgStore) :
    Except MemoryError WriteOutcome × PgStore :=
  match get userUuid uuid s with
  | none => (.error .notFound,s)
  | some old =>
    let req := correctionReq userUuid old content s.now
    match validate T req known with
    | some e => (.ok (.rejected e),s)
    | none =>
      if normalize T content = normalize T old.content then (.ok (.updated old.uuid),s)
      else commit s (.superseded old.uuid s.next)
        ((insert T req 1 (s.setRow old.uuid (Row.replacedBy s.next s.now))).map fun s' =>
          s'.setRow s.next (fun r => { r with pinned := old.pinned }))

def forget (userUuid : String) (target : ForgetTarget) (s : PgStore) : ℕ × PgStore :=
  forgetWhere (fun r => r.userUuid = userUuid && !r.deleted && match target with
    | .uuid u => r.uuid = u
    | .key scope key => r.place.scope = scope.name && r.key = some key && r.supersededBy.isNone &&
      match scope with
      | .user => true
      | .project p => r.place.projectUuid = some p
      | .agent a => r.place.agentUuid = some a) s

/-- The scopes of `SEARCH_WHERE`, with the parameters of `scope_filter_params`. -/
def scopeAllowed (scopes : List Scope) (p : PgPlace) : Bool :=
  scopes.isEmpty ||
    (p.scope = .user && scopes.any (fun s => s = .user)) ||
    (p.scope = .project && p.projectUuid.any (fun id => (scopes.filterMap Scope.projectId).contains id)) ||
    (p.scope = .agent && p.agentUuid.any (fun id => (scopes.filterMap Scope.agentId).contains id))

/-- `ILIKE`, on texts in lower case. -/
def hits (terms : List String) (r : Row PgPlace) : ℕ :=
  (terms.filter (fun t => contains r.contentNorm.toList t.toList || contains (r.key.getD "").toList t.toList)).length

/-- Where the full text finds nothing: by the number of words found. -/
def search (T : Texts) (userUuid : String) (q : SearchReq) (s : PgStore) : List MemoryItem :=
  let query := trim q.query
  let terms := queryTerms T query
  if query ≠ "" && terms.isEmpty then []
  else
    let min := minMatch q.minMatch terms.length
    let rows := s.rows.filter (fun r => r.userUuid = userUuid && !r.deleted && scopeAllowed q.scopes r.place &&
      (q.tiers.isEmpty || q.tiers.contains r.tier) && (q.kinds.isEmpty || q.kinds.contains r.kind) &&
      q.since.all (fun t => t ≤ r.createdAt) && (q.includeSuperseded || r.supersededBy.isNone) &&
      unexpired s.now r && (terms.isEmpty || min ≤ hits terms r))
    ((rows.mergeSort (bestFirst (hits terms))).take (clampLimit q.limit MAX_SEARCH)).filterMap intoItem

def list (T : Texts) (userUuid : String) (req : ListReq) (s : PgStore) : List MemoryItem :=
  let q := (req.query.map (normalize T)).filter (· ≠ "")
  let rows := s.rows.filter (fun r => r.userUuid = userUuid && !r.deleted && unexpired s.now r &&
    (req.includeSuperseded || r.supersededBy.isNone) &&
    (req.scope.filter (· ≠ "")).all (· = r.place.scope.asStr) && req.tier.all (· = r.tier) &&
    (req.projectUuid.filter (· ≠ "")).all (fun p => r.place.projectUuid = some p) &&
    q.all (fun q => contains r.contentNorm.toList q.toList || contains (r.key.getD "").toList q.toList))
  (((rows.mergeSort pinnedFirst).drop req.offset).take (clampLimit req.limit MAX_LIST)).filterMap intoItem

/-- `chain`, from the rows of one depth on: these rows, then those that they replaced. -/
def chain (userUuid : String) (rows : List (Row PgPlace)) : ℕ → List (Row PgPlace) → List (Row PgPlace)
  | 0, _ => []
  | n+1, level => level++chain userUuid rows n
      (level.flatMap (fun c => rows.filter (fun m => m.supersededBy = some c.uuid && m.userUuid = userUuid)))

def history (userUuid : String) (uuid : Uuid) (s : PgStore) : List MemoryItem :=
  (chain userUuid s.rows 20 (s.rows.filter (fun m => m.userUuid = userUuid && m.supersededBy = some uuid))).filterMap
    intoItem

end Pg

/-! ## Operations -/

inductive Op where
  /-- `known` are the secret values of the environment. -/
  | write (req : WriteReq) (known : List String)
  | correct (userUuid : String) (uuid : Uuid) (content : String) (known : List String)
  | forget (userUuid : String) (target : ForgetTarget)
  | purgeExpired
  | setPinned (userUuid : String) (uuid : Uuid) (pinned : Bool)
  | get (userUuid : String) (uuid : Uuid)
  | history (userUuid : String) (uuid : Uuid)
  | list (userUuid : String) (req : ListReq)
  | search (userUuid : String) (q : SearchReq)

/-- An operation, some time after the one before. -/
structure Event where
  delay : ℕ
  op : Op

inductive Answer where
  | outcome (result : Except MemoryError WriteOutcome)
  | count (n : ℕ)
  | found (ok : Bool)
  | item (found : Option MemoryItem)
  | items (found : List MemoryItem)

section
variable {κ : Type}

def Store.after (delay : ℕ) (s : Store κ) : Store κ := { s with now := s.now+delay }

end

def InMemory.perform (T : Texts) (op : Op) (s : InMemory.MemStore) : Answer × InMemory.MemStore :=
  match op with
  | .write req known => let r := InMemory.writeSync T req known s; (.outcome (.ok r.1),r.2)
  | .correct user uuid content known => let r := InMemory.correct T user uuid content known s; (.outcome r.1,r.2)
  | .forget user target => let r := InMemory.forget user target s; (.count r.1,r.2)
  | .purgeExpired => let r := MemoryStores.purgeExpired s; (.count r.1,r.2)
  | .setPinned user uuid pinned => let r := MemoryStores.setPinned user uuid pinned s; (.found r.1,r.2)
  | .get user uuid => (.item (InMemory.get user uuid s),s)
  | .history user uuid => (.items (InMemory.history user uuid s),s)
  | .list user req => (.items (InMemory.list T user req s),s)
  | .search user q => (.items (InMemory.search T user q s),s)

def InMemory.step (T : Texts) (s : InMemory.MemStore) (e : Event) : InMemory.MemStore :=
  (InMemory.perform T e.op (s.after e.delay)).2

def Pg.perform (T : Texts) (op : Op) (s : Pg.PgStore) : Answer × Pg.PgStore :=
  match op with
  | .write req known => let r := Pg.write T req known s; (.outcome r.1,r.2)
  | .correct user uuid content known => let r := Pg.correct T user uuid content known s; (.outcome r.1,r.2)
  | .forget user target => let r := Pg.forget user target s; (.count r.1,r.2)
  | .purgeExpired => let r := MemoryStores.purgeExpired s; (.count r.1,r.2)
  | .setPinned user uuid pinned => let r := MemoryStores.setPinned user uuid pinned s; (.found r.1,r.2)
  | .get user uuid => (.item (Pg.get user uuid s),s)
  | .history user uuid => (.items (Pg.history user uuid s),s)
  | .list user req => (.items (Pg.list T user req s),s)
  | .search user q => (.items (Pg.search T user q s),s)

def Pg.step (T : Texts) (s : Pg.PgStore) (e : Event) : Pg.PgStore :=
  (Pg.perform T e.op (s.after e.delay)).2

end DevForge.MemoryStores
