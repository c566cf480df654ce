import DevForge.Sql
import DevForge.Table

/-!
# Redirect addresses of OAuth clients

Registration, clients identified by a URL with or without a document, the
address that a request for authorization names, and the code that is sent to
it. URLs are parsed by a library.
-/

set_option autoImplicit false

namespace DevForge.RedirectUris

structure Url where
  scheme : String
  username : String
  password : Option String
  host : Option String
  port : Option ℕ
  path : String
  query : Option String
  fragment : Option String
deriving DecidableEq

def Url.portOrKnownDefault (u : Url) : Option ℕ :=
  match u.port with
  | some p => some p
  | none =>
    if u.scheme = "https" ∨ u.scheme = "wss" then some 443
    else if u.scheme = "http" ∨ u.scheme = "ws" then some 80
    else if u.scheme = "ftp" then some 21
    else none

structure ClientInfo where
  clientId : String
  name : String
  redirectUris : List String
  /-- For a client URL without a document: `redirect_uri` has to share the origin. -/
  originRule : Option String
deriving DecidableEq

def isLoopbackHost (host : String) : Bool :=
  host = "localhost" || host = "127.0.0.1" || host = "[::1]" || host = "::1"

def deniedSchemes : List String :=
  ["javascript","data","file","vbscript","blob","about","ftp","ws","wss"]

def endsWith (s suffix : String) : Bool := suffix.toList.isSuffixOf s.toList

def originText (u : Url) (host : String) : String :=
  u.scheme++"://"++toAsciiLowercase host++
    (match u.port with
      | some p => ":"++toString p
      | none => "")

section
variable (parse : String → Option Url)

def redirectUriAllowed (uri : String) : Bool :=
  match parse uri with
  | none => false
  | some u =>
    if u.fragment.isSome then false
    else if u.scheme = "https" then u.host.isSome
    else if u.scheme = "http" then (u.host.map isLoopbackHost).getD false
    else if u.scheme ∈ deniedSchemes then false
    else u.scheme.toList.contains '.' ||
      u.scheme.toList.all (fun c => c.isAlphanum || c = '+' || c = '-')

def originOf (uri : String) : Option String :=
  (parse uri).bind (fun u => u.host.map (originText u))

/-- A registered loopback address, whatever its port. -/
def loopbackMatches (registered : List String) (redirectUri : String) : Bool :=
  match parse redirectUri with
  | none => false
  | some req =>
    req.scheme = "http" && (req.host.map isLoopbackHost).getD false &&
      registered.any (fun reg =>
        match parse reg with
        | none => false
        | some r => r.scheme = "http" && r.host = req.host && r.path = req.path)

def originMatches (origin redirectUri : String) : Bool :=
  match parse redirectUri, parse origin with
  | some req, some base =>
    if req.scheme ≠ "https" ∨ base.scheme ≠ "https" ∨ req.fragment.isSome then false
    else match req.host, base.host with
      | some rh, some bh =>
        req.portOrKnownDefault = base.portOrKnownDefault &&
          (toAsciiLowercase rh = toAsciiLowercase bh ||
            endsWith (toAsciiLowercase rh) ("."++toAsciiLowercase bh))
      | _, _ => false
  | _, _ => false

def redirectMatches (client : ClientInfo) (redirectUri : String) : Bool :=
  if redirectUri ∈ client.redirectUris then true
  else if loopbackMatches parse client.redirectUris redirectUri then true
  else match client.originRule with
    | some origin => originMatches parse origin redirectUri
    | none => false

/-! ## Where a client comes from -/

/-- A metadata document: its strings, and the strings of its `redirect_uris`. -/
structure Document where
  clientId : Option String
  redirectUris : List String
  clientName : Option String
deriving DecidableEq

def dropStart (start s : String) : String :=
  if start.toList.isPrefixOf s.toList then String.ofList (s.toList.drop start.length) else s

/-- `trim_start_matches`, which takes the pattern off as often as it stands there. -/
def trimStartMatches (start : String) : ℕ → String → String
  | 0, s => s
  | n+1, s => if start.toList.isPrefixOf s.toList then trimStartMatches start n (dropStart start s) else s

def displayNameForHost (host : String) : String :=
  let h := trimStartMatches "www." host.length host
  if h = "grok.com" ∨ endsWith h ".grok.com" ∨ h = "x.ai" ∨ endsWith h ".x.ai" then "Grok" else h

def clientFromUrlDoc (clientId : String) (doc : Option Document) : Except String ClientInfo :=
  match parse clientId with
  | none => .error "client_id URL invalide"
  | some url =>
    let host := url.host.getD ""
    let byOrigin : ClientInfo := ⟨clientId,
      (doc.bind Document.clientName).getD (displayNameForHost host),[],originOf parse clientId⟩
    match doc with
    | none => .ok byOrigin
    | some d =>
      if d.clientId.any (· ≠ clientId) then .error "client_id du document ≠ URL du client"
      else if d.redirectUris ≠ [] then
        .ok ⟨clientId,(d.clientName.filter (fun n => trim n ≠ "")).getD host,d.redirectUris,none⟩
      else .ok byOrigin

structure ClientRow where
  clientName : String
  redirectUris : List String
deriving DecidableEq

/-- `doc` is what fetching the document gives. -/
def resolveClient (clients : Table String ClientRow) (doc : Option Document) (rawId : String) :
    Except String ClientInfo :=
  let clientId := trim rawId
  if clientId = "" then .error "client_id manquant"
  else if "https://".toList.isPrefixOf clientId.toList then
    match parse clientId with
    | none => .error "client_id URL invalide"
    | some url =>
      if url.host.isNone ∨ url.fragment.isSome then .error "client_id URL invalide"
      else clientFromUrlDoc parse clientId doc
  else match clients.get clientId with
    | none => .error "Client OAuth inconnu — relance la connexion depuis l’application"
    | some row => .ok ⟨clientId,if trim row.clientName = "" then "Application" else row.clientName,
        row.redirectUris,none⟩

/-- The body of a registration: the strings of `redirect_uris`, and two of its fields. -/
structure ClientMetadata where
  redirectUris : List String
  tokenEndpointAuthMethod : Option String
  clientName : Option String

def registerClientCore (body : Option ClientMetadata) : Except (String × String) ClientRow :=
  match body with
  | none => .error ("invalid_client_metadata","Corps JSON attendu")
  | some m =>
    let redirectUris := m.redirectUris.map trim
    if redirectUris = [] then .error ("invalid_redirect_uri","redirect_uris requis")
    else match redirectUris.find? (fun u => !redirectUriAllowed parse u) with
      | some bad => .error ("invalid_redirect_uri","redirect_uri refusée : "++bad)
      | none =>
        if m.tokenEndpointAuthMethod.getD "none" ∉ ["none","client_secret_post","client_secret_basic"] then
          .error ("invalid_client_metadata","token_endpoint_auth_method non supportée")
        else .ok ⟨String.ofList ((trim (m.clientName.getD "")).toList.take 200),redirectUris⟩

/-! ## Authorization -/

structure AuthorizeQuery where
  responseType : Option String
  clientId : Option String
  redirectUri : Option String
  codeChallenge : Option String
  codeChallengeMethod : Option String
  state : Option String
  scope : Option String
  resource : Option String

structure RequestRow where
  clientId : String
  clientName : String
  redirectUri : String
  codeChallenge : String
  state : String
  scope : String
  resource : String
  expiresAt : ℕ
deriving DecidableEq

inductive Reply
  | errorPage (title detail : String)
  | redirectError (redirectUri error description : String)
  | consent (row : RequestRow)
deriving DecidableEq

def words (cs : List Char) : List (List Char) :=
  (cs.splitOnP isWhitespace).filter (fun w => !w.isEmpty)

def grantedScope (requested : Option String) : String :=
  let req := words (requested.getD "").toList
  " ".intercalate (["mcp"]++(if req.any (· = "offline_access".toList) then ["offline_access"] else [])++
    (if req.any (· = "api".toList) then ["api"] else []))

def trimEndSlash (s : String) : String :=
  String.ofList (s.toList.reverse.dropWhile (· = '/')).reverse

def resourceOk (base resource : String) : Bool :=
  let r := trimEndSlash (trim resource)
  let b := trimEndSlash base
  r = b || (b++"/").toList.isPrefixOf r.toList

def requestTtl : ℕ := 900*10^9

/-- The address asked for, or the only one of the client. -/
def askedUri (q : AuthorizeQuery) (client : ClientInfo) : Option String :=
  match q.redirectUri.filter (fun s => trim s ≠ "") with
  | some r => some r
  | none =>
    match client.redirectUris with
    | [r] => some r
    | _ => none

/-- The checks that follow the one of the address. -/
def checkQuery (base : String) (now : ℕ) (q : AuthorizeQuery) (client : ClientInfo)
    (redirectUri : String) : Reply :=
  let challenge := q.codeChallenge.getD ""
  let resource := q.resource.getD ""
  if q.responseType ≠ some "code" then
    .redirectError redirectUri "unsupported_response_type" "response_type=code requis"
  else if challenge.utf8ByteSize < 43 ∨ 128 < challenge.utf8ByteSize then
    .redirectError redirectUri "invalid_request" "PKCE code_challenge requis"
  else if q.codeChallengeMethod ≠ some "S256" then
    .redirectError redirectUri "invalid_request" "code_challenge_method=S256 requis"
  else if trim resource ≠ "" ∧ ¬resourceOk base resource then
    .redirectError redirectUri "invalid_target" "resource inconnue"
  else .consent ⟨client.clientId,client.name,redirectUri,challenge,q.state.getD "",
    grantedScope q.scope,trim resource,now+requestTtl⟩

def authorize (clients : Table String ClientRow) (doc : Option Document) (base : String) (now : ℕ)
    (q : AuthorizeQuery) : Reply :=
  match resolveClient parse clients doc (q.clientId.getD "") with
  | .error e => .errorPage "Application inconnue" e
  | .ok client =>
    match askedUri q client with
    | none => .errorPage "Redirection manquante" "redirect_uri requis."
    | some redirectUri =>
      if ¬redirectMatches parse client redirectUri then
        .errorPage "Redirection refusée"
          "L’adresse de retour ne correspond pas à celles déclarées par l’application."
      else checkQuery base now q client redirectUri

/-! ## The system -/

/-- `sent` holds every code with the address it was sent to. -/
structure State where
  clients : Table String ClientRow
  requests : Table String RequestRow
  sent : List (String × String)

def start : State := ⟨Table.empty,Table.empty,[]⟩

/-- Ids and codes are drawn by the program. -/
inductive Action
  | register (id : String) (body : Option ClientMetadata)
  | authorize (id base : String) (now : ℕ) (doc : Option Document) (q : AuthorizeQuery)
  | approve (id code : String) (now : ℕ)
  | deny (id : String)

def approveRequest (s : State) (id code : String) (now : ℕ) : State :=
  match (s.requests.get id).filter (fun r => now < r.expiresAt) with
  | none => s
  | some r =>
    { s with
      requests := s.requests.delete (fun k _ => k = id)
      sent := (code,r.redirectUri)::s.sent }

def step (s : State) : Action → State
  | .register id body =>
    match registerClientCore parse body with
    | .ok row => { s with clients := s.clients.insert id row }
    | .error _ => s
  | .authorize id base now doc q =>
    match authorize parse s.clients doc base now q with
    | .consent row =>
      { s with requests := (s.requests.delete (fun _ r => r.expiresAt < now)).insert id row }
    | _ => s
  | .approve id code now => approveRequest s id code now
  | .deny id => { s with requests := s.requests.delete (fun k _ => k = id) }

end

end DevForge.RedirectUris
