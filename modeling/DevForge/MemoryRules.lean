import DevForge.Sql
import Mathlib.Data.Rat.Defs

/-!
# Rules of the memory

The requests, the entries and the pure rules that both stores share. The tables of Unicode
(lower case, letters and digits), the trigram similarity and the detector of secrets are
parameters. An instant counts nanoseconds.
-/

set_option autoImplicit false

namespace DevForge.MemoryRules

structure Texts where
  /-- `to_lowercase`. -/
  lowercase : List Char → List Char
  isAlphanumeric : Char → Bool
  space_not_alphanumeric : isAlphanumeric ' ' = false
  /-- Of two normalised texts: `rules::similarity`, `similarity()` of pg_trgm, or equality. -/
  similarity : String → String → ℚ
  /-- `secrets::check` on a text, with the values of the environment that are secret. -/
  secret : String → List String → Option String

/-- ASCII texts, a similarity that is equality, and no secret. -/
def asciiTexts : Texts where
  lowercase := List.map Char.toLower
  isAlphanumeric := Char.isAlphanum
  space_not_alphanumeric := rfl
  similarity a b := if a = b then 1 else 0
  secret _ _ := none

inductive Scope where
  | user
  | project (id : String)
  | agent (id : String)
deriving DecidableEq, Repr

inductive ScopeName | user | project | agent
deriving DecidableEq, Repr

def ScopeName.asStr : ScopeName → String
  | .user => "user"
  | .project => "project"
  | .agent => "agent"

def Scope.name : Scope → ScopeName
  | .user => .user
  | .project _ => .project
  | .agent _ => .agent

def Scope.projectId : Scope → Option String
  | .project p => some p
  | _ => none

def Scope.agentId : Scope → Option String
  | .agent a => some a
  | _ => none

/-- The closure `nz`: trimmed, and not empty. -/
def nonBlank (s : Option String) : Option String := (s.map trim).filter (· ≠ "")

def Scope.fromParts (name : ScopeName) (projectUuid agentUuid : Option String) : Option Scope :=
  match name with
  | .user => some .user
  | .project => (nonBlank projectUuid).map Scope.project
  | .agent => (nonBlank agentUuid).map Scope.agent

inductive Tier | profile | log | note
deriving DecidableEq, Repr

def KINDS : List String := ["fact","preference","infra","decision","incident","todo","context"]

structure MemoryItem where
  uuid : Uuid
  scope : Scope
  projectUuid : Option String
  tier : Tier
  kind : String
  key : Option String
  content : String
  source : String
  confidence : ℚ
  pinned : Bool
  createdBy : String
  createdAt : Instant
  updatedAt : Instant
  expiresAt : Option Instant
  supersededBy : Option Uuid
deriving DecidableEq, Repr

structure WriteReq where
  userUuid : String
  scope : Scope
  projectUuid : Option String
  tier : Tier
  kind : String
  key : Option String
  content : String
  source : String
  confidence : ℚ
  expiresIn : Option ℕ
  createdBy : String
deriving DecidableEq, Repr

structure SearchReq where
  query : String
  /-- None stands for all scopes. -/
  scopes : List Scope
  tiers : List Tier
  kinds : List String
  since : Option Instant
  limit : ℕ
  includeSuperseded : Bool
  minMatch : ℕ
deriving DecidableEq, Repr

structure ListReq where
  scope : Option String
  tier : Option Tier
  query : Option String
  projectUuid : Option String
  includeSuperseded : Bool
  limit : ℕ
  offset : ℕ
deriving DecidableEq, Repr

inductive WriteOutcome where
  | inserted (uuid : Uuid)
  | updated (uuid : Uuid)
  | superseded (old new : Uuid)
  | needsConfirmation (existing note : Uuid)
  | rejected (reason : String)
deriving DecidableEq, Repr

/-- `MAX_LIVE_NOTES`, `MAX_CONTENT`. -/
def MAX_LIVE_NOTES : ℕ := 20
def MAX_CONTENT : ℕ := 2000

def second : ℕ := 1000000000
def DEFAULT_NOTE_TTL : ℕ := 72*3600*second
def MAX_NOTE_TTL : ℕ := 7*24*3600*second

/-- `SIMILARITY`, 0.85. -/
def SIMILARITY : ℚ := mkRat 17 20

/-- `OBSERVED_PROFILE_CONFIDENCE`, 0.7. -/
def OBSERVED_PROFILE_CONFIDENCE : ℚ := mkRat 7 10

/-! ## Texts -/

/-- The words between white space. -/
def splitWhitespace (cs : List Char) : List (List Char) := (cs.splitOnP isWhitespace).filter (fun w => !w.isEmpty)

variable (T : Texts)

/-- `lower(trim(collapse_spaces(content)))`. -/
def normalize (content : String) : String :=
  String.ofList (T.lowercase ([' '].intercalate (splitWhitespace content.toList)))

def validKey (key : String) : Bool :=
  3 ≤ key.utf8ByteSize && key.utf8ByteSize ≤ 120 &&
    key.toList.all (fun c => c.isLower || c.isDigit || c ∈ ['_','.','-'])

/-- The error of `validate`, none for a valid request. -/
def validate (req : WriteReq) (known : List String) : Option String :=
  let content := trim req.content
  if content = "" then some "contenu vide"
  else if MAX_CONTENT < content.length then
    some ("contenu trop long (max "++toString MAX_CONTENT++" caractères)")
  else if !KINDS.contains req.kind then
    some ("kind inconnu : "++req.kind++" (attendu : "++", ".intercalate KINDS++")")
  else if req.key.any (fun key => !validKey key) then
    some "clé invalide (a-z, 0-9, « _ . - », 3 à 120 caractères)"
  else if trim req.userUuid = "" then some "utilisateur inconnu : mémoire indisponible"
  else (T.secret content known).or (req.key.bind (fun key => T.secret key known))

/-! ## Decisions -/

def larger (a b : ℚ) : ℚ := if a < b then b else a

def smaller (a b : ℚ) : ℚ := if b < a then b else a

def effectiveConfidence (req : WriteReq) : ℚ :=
  let c := smaller (larger req.confidence 0) 1
  if req.tier = .profile && req.source = "observed" && req.createdBy ≠ "user" then
    smaller c OBSERVED_PROFILE_CONFIDENCE
  else c

/-- `expires_at`: 72 h for a note without a delay, one hour at least and 7 days at most. -/
def expiresAt (req : WriteReq) (now : Instant) : Option Instant :=
  match req.tier with
  | .note => some (now+min (max (req.expiresIn.getD DEFAULT_NOTE_TTL) (3600*second)) MAX_NOTE_TTL)
  | _ => none

/-- What exists for a scope and a key. -/
structure Existing where
  uuid : Uuid
  contentNorm : String
  source : String
  confidence : ℚ

inductive KeyDecision where
  | refresh (confidence : ℚ)
  | supersede
  | confirm (note : String)

def decideKey (existing : Existing) (req : WriteReq) (confidence : ℚ) : KeyDecision :=
  if existing.contentNorm = normalize T req.content then .refresh (larger existing.confidence confidence)
  else if existing.source = "user_said" && req.source = "observed" && confidence < 1 then
    .confirm ("Possible changement : "++trim req.content++" (à confirmer)")
  else .supersede

def confirmationNote (req : WriteReq) (note : String) : WriteReq :=
  { req with tier := .note, kind := "context", key := none, content := note, expiresIn := some MAX_NOTE_TTL }

/-- `correction_req`. -/
def correctionReq (userUuid : String) (old : MemoryItem) (content : String) (now : Instant) : WriteReq where
  userUuid := userUuid
  scope := old.scope
  projectUuid := old.projectUuid
  tier := old.tier
  kind := old.kind
  key := old.key
  content := content
  source := "user_said"
  confidence := 1
  expiresIn := if old.tier = .note then
    old.expiresAt.bind (fun e => if now ≤ e then some (e-now) else none) else none
  createdBy := "user"

/-! ## Searching -/

def STOP : List String := ["les","des","une","est","que","qui","pour","dans","sur","avec","pas","the",
  "and","quel","quelle","mon","mes","ton","tes","son","ses","aux","par","ce",
  "cette","ces","du","de","la","le","un","et","ou","à","en"]

def separator (c : Char) : Bool := !T.isAlphanumeric c && c ≠ '.' && c ≠ '_' && c ≠ '-'

/-- `query_terms`. -/
def queryTerms (query : String) : List String :=
  ((((normalize T query).toList.splitOnP (separator T)).map
    (fun w => trimBy (fun c => c = '.' || c = '-' || c = '_') (String.ofList w))).filter
    (fun w => 3 ≤ w.length && !STOP.contains w))

/-- `str::contains`. -/
def contains (text part : List Char) : Bool :=
  match text with
  | [] => part.isEmpty
  | c::cs => part.isPrefixOf (c::cs) || contains cs part

def MAX_SEARCH : ℕ := 20
def MAX_LIST : ℕ := 50

def clampLimit (n max : ℕ) : ℕ := if n = 0 then min 8 max else min n max

/-- `q_min_match`. -/
def minMatch (minimum terms : ℕ) : ℕ := if minimum = 0 then 1 else min minimum (max terms 1)

end DevForge.MemoryRules
