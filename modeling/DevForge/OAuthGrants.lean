import DevForge.Table
import Mathlib.Algebra.Group.Nat.Defs

/-!
# OAuth grants

The exchange of authorization codes and refresh tokens, the revocation of a
token, of a grant and of what a replayed code has given. A call takes one
statement of the database at a time, so that calls interleave between any two.
-/

set_option autoImplicit false

namespace DevForge.OAuthGrants

/-- The digests, which stand outside the program. -/
structure Crypto where
  tokenHash : String → String
  pkceS256 : String → String

structure CodeRow where
  clientId : String
  clientName : String
  userUuid : String
  redirectUri : String
  codeChallenge : String
  scope : String
  resource : String
  expiresAt : ℕ
  usedAt : Option ℕ
deriving DecidableEq

inductive Kind | access | refresh
deriving DecidableEq

structure TokenRow where
  kind : Kind
  clientId : String
  clientName : String
  userUuid : String
  scope : String
  resource : String
  family : String
  expiresAt : ℕ
  revokedAt : Option ℕ
deriving DecidableEq

structure Client where
  tokenEndpointAuthMethod : String
  clientSecretHash : String
deriving DecidableEq

/-- The parameters of a request; one that is missing is empty. -/
structure Params where
  code : String
  codeVerifier : String
  redirectUri : String
  resource : String
  refreshToken : String
  clientId : String
  secret : Option String
deriving DecidableEq

inductive Answer
  | error (status : ℕ) (error description : String)
  | tokens (access refresh scope : String)
  | ok
deriving DecidableEq

/-- What `issue_tokens` is given and has drawn. -/
structure Issue where
  clientId : String
  clientName : String
  userUuid : String
  scope : String
  resource : String
  family : String
  access : String
  refresh : String
  accessExp : ℕ
  refreshExp : ℕ
deriving DecidableEq

/-- The statement that a call takes next. -/
inductive Pc
  | readCode (p : Params)
  | authCode (p : Params) (row : CodeRow)
  | replayed (hash : String)
  | claim (p : Params) (row : CodeRow)
  | readRefresh (p : Params)
  | authRefresh (p : Params) (row : TokenRow)
  | rotate (p : Params) (row : TokenRow)
  | insertAccess (i : Issue)
  | insertRefresh (i : Issue)
  | readToken (token : String)
  | revokeFamily (family : String)
  | revokeToken (token : String)
  | revokeGrant (userUuid family : String)
  | returned (a : Answer)
  | dropped
deriving DecidableEq

/-- The tokens that a call is about to issue. -/
def Pc.issue : Pc → Option Issue
  | .insertAccess i => some i
  | .insertRefresh i => some i
  | _ => none

/-- What tokens are issued for. -/
inductive Origin
  | code (hash : String)
  | refresh (hash : String)
deriving DecidableEq

structure State where
  codes : Table String CodeRow
  tokens : Table String TokenRow
  clients : Table String Client
  calls : List Pc
  /-- Every code that was ever approved: drawn codes are distinct. -/
  approved : List String
  /-- What tokens have been issued for so far. -/
  issues : List Origin
  /-- The families of which a revocation has returned. -/
  revoked : List String

def start (clients : Table String Client) : State :=
  ⟨Table.empty,Table.empty,clients,[],[],[],[]⟩

def State.goto (s : State) (n : ℕ) (pc : Pc) : State := { s with calls := s.calls.set n pc }

def codeFamily (hash : String) : String := "code:"++hash

/-- The replay of a used code is answered. -/
def State.replayAnswered (s : State) (hash : String) : State :=
  if .code hash ∈ s.issues then { s with revoked := codeFamily hash::s.revoked } else s

def accessTtl : ℕ := 3600*10^9

def refreshTtl : ℕ := 90*86400*10^9

/-- What one statement meets: the clock, whether it succeeds and the text of the
error, and the secrets that are drawn where tokens are issued. -/
structure Outside where
  now : ℕ
  ok : Bool
  message : String
  access : String
  refresh : String
deriving DecidableEq

def serverError (o : Outside) : Answer := .error 500 "server_error" o.message

def invalidGrant (description : String) : Answer := .error 400 "invalid_grant" description

def invalidRequest (description : String) : Answer := .error 400 "invalid_request" description

def invalidClient (description : String) : Answer := .error 401 "invalid_client" description

/-- A violated UNIQUE or a failed statement inserts nothing. -/
def inserts (o : Outside) (t : Table String TokenRow) (hash : String) : Bool :=
  o.ok && hash ∉ t.keys

def revokeRow (now : ℕ) (_ : String) (row : TokenRow) : TokenRow := { row with revokedAt := some now }

def ofFamily (family _ : String) (row : TokenRow) : Bool :=
  row.family = family && row.revokedAt.isNone

def ofGrant (userUuid family _ : String) (row : TokenRow) : Bool :=
  row.family = family && row.userUuid = userUuid && row.revokedAt.isNone

def rotates (hash h : String) (row : TokenRow) : Bool := h = hash && row.revokedAt.isNone

def claims (hash h : String) (row : CodeRow) : Bool := h = hash && row.usedAt.isNone

section
variable (k : Crypto)

/-- `none` where the client is authenticated. -/
def authenticateClient (o : Outside) (clients : Table String Client) (clientId : String)
    (secret : Option String) : Option Answer :=
  if "https://".toList.isPrefixOf clientId.toList then none
  else if o.ok then
    match clients.get clientId with
    | none => some (invalidClient "Client inconnu")
    | some c =>
      if c.tokenEndpointAuthMethod = "none" then none
      else if secret.map k.tokenHash = some c.clientSecretHash then none
      else some (invalidClient "client_secret invalide")
  else some (serverError o)

def isUnreserved (c : Char) : Bool :=
  c.isAlphanum || c = '-' || c = '.' || c = '_' || c = '~'

def validCodeVerifier (v : String) : Bool :=
  43 ≤ v.utf8ByteSize && v.utf8ByteSize ≤ 128 && v.toList.all isUnreserved

/-! ## The exchange of a code -/

def readCode (o : Outside) (s : State) (n : ℕ) (p : Params) : State :=
  if o.ok then
    match s.codes.get (k.tokenHash p.code) with
    | none => (s.replayAnswered (k.tokenHash p.code)).goto n (.returned (invalidGrant "Code inconnu"))
    | some row =>
      if p.clientId ≠ "" ∧ p.clientId ≠ row.clientId then
        s.goto n (.returned (invalidGrant "Code émis pour un autre client"))
      else s.goto n (.authCode p row)
  else s.goto n (.returned (serverError o))

/-- The checks that follow the authentication of the client. -/
def checkCode (now : ℕ) (p : Params) (row : CodeRow) : Pc :=
  if row.usedAt.isSome then .replayed (k.tokenHash p.code)
  else if row.expiresAt < now then .returned (invalidGrant "Code expiré")
  else if p.redirectUri ≠ "" ∧ p.redirectUri ≠ row.redirectUri then
    .returned (invalidGrant "redirect_uri différente")
  else if ¬validCodeVerifier p.codeVerifier ∨ k.pkceS256 p.codeVerifier ≠ row.codeChallenge then
    .returned (invalidGrant "PKCE code_verifier invalide")
  else .claim p row

def authCode (o : Outside) (s : State) (n : ℕ) (p : Params) (row : CodeRow) : State :=
  match authenticateClient k o s.clients row.clientId p.secret with
  | some a => s.goto n (.returned a)
  | none => s.goto n (checkCode k o.now p row)

/-- What was issued with a code that is presented again is revoked; an error of
the database is not looked at. -/
def replayed (o : Outside) (s : State) (n : ℕ) (hash : String) : State :=
  let s := if o.ok then
    { s with tokens := s.tokens.update (ofFamily (codeFamily hash)) (revokeRow o.now) } else s
  (s.replayAnswered hash).goto n (.returned (invalidGrant "Code déjà utilisé"))

def issueOf (o : Outside) (clientId clientName userUuid scope resource family : String) : Issue :=
  ⟨clientId,clientName,userUuid,scope,resource,family,o.access,o.refresh,o.now+accessTtl,
    o.now+refreshTtl⟩

def claim (o : Outside) (s : State) (n : ℕ) (p : Params) (row : CodeRow) : State :=
  let hash := k.tokenHash p.code
  if o.ok = true ∧ (s.codes.affected (claims hash)).length = 1 then
    { s with
      codes := s.codes.update (claims hash) (fun _ r => { r with usedAt := some o.now })
      issues := .code hash::s.issues
      calls := s.calls.set n (.insertAccess (issueOf o row.clientId row.clientName row.userUuid
        row.scope (if p.resource ≠ "" then p.resource else row.resource) (codeFamily hash))) }
  else (s.replayAnswered hash).goto n (.returned (invalidGrant "Code déjà utilisé"))

/-! ## The exchange of a refresh token -/

def readRefresh (o : Outside) (s : State) (n : ℕ) (p : Params) : State :=
  if o.ok then
    match (s.tokens.get (k.tokenHash p.refreshToken)).filter (fun row => row.kind = .refresh) with
    | none => s.goto n (.returned (invalidGrant "refresh_token inconnu"))
    | some row =>
      if p.clientId ≠ "" ∧ p.clientId ≠ row.clientId then
        s.goto n (.returned (invalidGrant "refresh_token d’un autre client"))
      else s.goto n (.authRefresh p row)
  else s.goto n (.returned (serverError o))

def authRefresh (o : Outside) (s : State) (n : ℕ) (p : Params) (row : TokenRow) : State :=
  match authenticateClient k o s.clients row.clientId p.secret with
  | some a => s.goto n (.returned a)
  | none =>
    if row.revokedAt.isSome ∨ row.expiresAt < o.now then
      s.goto n (.returned (invalidGrant "refresh_token expiré ou révoqué"))
    else s.goto n (.rotate p row)

def rotate (o : Outside) (s : State) (n : ℕ) (p : Params) (row : TokenRow) : State :=
  let hash := k.tokenHash p.refreshToken
  if o.ok = true ∧ (s.tokens.affected (rotates hash)).length = 1 then
    { s with
      tokens := s.tokens.update (rotates hash) (revokeRow o.now)
      issues := .refresh hash::s.issues
      calls := s.calls.set n (.insertAccess (issueOf o row.clientId row.clientName row.userUuid
        row.scope row.resource row.family)) }
  else s.goto n (.returned (invalidGrant "refresh_token déjà utilisé"))

/-! ## The two insertions -/

def Issue.row (i : Issue) (kind : Kind) (expiresAt : ℕ) : TokenRow :=
  ⟨kind,i.clientId,i.clientName,i.userUuid,i.scope,i.resource,i.family,expiresAt,none⟩

def insertAccess (o : Outside) (s : State) (n : ℕ) (i : Issue) : State :=
  if inserts o s.tokens (k.tokenHash i.access) then
    { s with
      tokens := s.tokens.insert (k.tokenHash i.access) (i.row .access i.accessExp)
      calls := s.calls.set n (.insertRefresh i) }
  else s.goto n (.returned (serverError o))

def insertRefresh (o : Outside) (s : State) (n : ℕ) (i : Issue) : State :=
  if inserts o s.tokens (k.tokenHash i.refresh) then
    { s with
      tokens := s.tokens.insert (k.tokenHash i.refresh) (i.row .refresh i.refreshExp)
      calls := s.calls.set n (.returned (.tokens i.access i.refresh i.scope)) }
  else s.goto n (.returned (serverError o))

/-! ## Revocation -/

/-- A token that cannot be read counts as unknown, and the answer is the same. -/
def readToken (o : Outside) (s : State) (n : ℕ) (token : String) : State :=
  match s.tokens.get (k.tokenHash token) with
  | none => s.goto n (.returned .ok)
  | some row =>
    if o.ok then
      if row.kind = .refresh then s.goto n (.revokeFamily row.family)
      else s.goto n (.revokeToken token)
    else if row.kind = .refresh then
      { s with revoked := row.family::s.revoked }.goto n (.returned .ok)
    else s.goto n (.returned .ok)

def revokeFamily (o : Outside) (s : State) (n : ℕ) (family : String) : State :=
  let s := if o.ok then
    { s with tokens := s.tokens.update (ofFamily family) (revokeRow o.now) } else s
  { s with revoked := family::s.revoked }.goto n (.returned .ok)

def revokeToken (o : Outside) (s : State) (n : ℕ) (token : String) : State :=
  let s := if o.ok then
    { s with tokens := s.tokens.update (fun h _ => h = k.tokenHash token) (revokeRow o.now) } else s
  s.goto n (.returned .ok)

def revokeGrant (o : Outside) (s : State) (n : ℕ) (userUuid family : String) : State :=
  if o.ok then
    if s.tokens.affected (ofGrant userUuid family) = [] then
      s.goto n (.returned (.error 404 "Accès introuvable" ""))
    else
      { s with
        tokens := s.tokens.update (ofGrant userUuid family) (revokeRow o.now)
        revoked := family::s.revoked }.goto n (.returned .ok)
  else s.goto n (.returned (.error 500 o.message ""))

/-! ## The system -/

inductive Request
  | token (grantType : String) (p : Params)
  | revoke (token : String)
  | revokeGrant (userUuid family : String)

/-- What is checked before the first statement. -/
def Request.begin : Request → Pc
  | .token grantType p =>
    if grantType = "authorization_code" then
      if p.code = "" ∨ p.codeVerifier = "" then
        .returned (invalidRequest "code et code_verifier requis")
      else .readCode p
    else if grantType = "refresh_token" then
      if p.refreshToken = "" then .returned (invalidRequest "refresh_token requis")
      else .readRefresh p
    else .returned (.error 400 "unsupported_grant_type"
      "grant_type authorization_code ou refresh_token")
  | .revoke tok =>
    if tok = "" then .returned (invalidRequest "token requis") else .readToken tok
  | .revokeGrant userUuid family => .revokeGrant userUuid family

def next (o : Outside) (s : State) (n : ℕ) : Pc → State
  | .readCode p => readCode k o s n p
  | .authCode p row => authCode k o s n p row
  | .replayed hash => replayed o s n hash
  | .claim p row => claim k o s n p row
  | .readRefresh p => readRefresh k o s n p
  | .authRefresh p row => authRefresh k o s n p row
  | .rotate p row => rotate k o s n p row
  | .insertAccess i => insertAccess k o s n i
  | .insertRefresh i => insertRefresh k o s n i
  | .readToken token => readToken k o s n token
  | .revokeFamily family => revokeFamily o s n family
  | .revokeToken token => revokeToken k o s n token
  | .revokeGrant userUuid family => revokeGrant o s n userUuid family
  | .returned _ => s
  | .dropped => s

inductive Action
  /-- A consent is given: a code is drawn and stored. -/
  | approve (code : String) (row : CodeRow)
  | cleanup (now : ℕ)
  | clients (t : Table String Client)
  | call (r : Request)
  | next (n : ℕ) (o : Outside)
  /-- The connection of a call is lost, and the call with it. -/
  | drop (n : ℕ)

def approve (s : State) (code : String) (row : CodeRow) : State :=
  if k.tokenHash code ∈ s.approved then s else
    { s with
      codes := s.codes.insert (k.tokenHash code) { row with usedAt := none }
      approved := k.tokenHash code::s.approved }

def step (s : State) : Action → State
  | .approve code row => approve k s code row
  | .cleanup now => { s with codes := s.codes.delete (fun _ row => row.expiresAt < now) }
  | .clients t => { s with clients := t }
  | .call r => { s with calls := s.calls++[r.begin] }
  | .next n o =>
    match s.calls[n]? with
    | some pc => next k o s n pc
    | none => s
  | .drop n =>
    match s.calls[n]? with
    | some (.returned _) => s
    | some _ => s.goto n .dropped
    | none => s

/-! ## Access -/

def words (cs : List Char) : List (List Char) :=
  (cs.splitOnP Char.isWhitespace).filter (fun w => !w.isEmpty)

structure User where
  uuid : String
  email : String
  name : String
  passwordHash : String
  role : String
deriving DecidableEq

def resolveAccessTokenScoped (users : String → Option User) (s : State) (now : ℕ)
    (token requiredScope : String) : Option (User × List String) :=
  if "dfoa_".toList.isPrefixOf token.toList then
    match (s.tokens.get (k.tokenHash token)).filter (fun row =>
        row.kind = .access && row.revokedAt.isNone && now < row.expiresAt) with
    | none => none
    | some row =>
      if (words row.scope.toList).any (· = requiredScope.toList) then
        (users row.userUuid).map (fun u => (u,["read","write"]))
      else none
  else none

end

end DevForge.OAuthGrants
