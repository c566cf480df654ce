import DevForge.Sql
import DevForge.Table
import DevForge.Transition

/-!
# Deliveries of the GitHub App webhook

A delivery is recorded under its identifier before anything else is done with
it, and a second request with the same identifier is answered without effect.
Its processing runs apart from the request. Some seconds after a boot, while
the route already answers, one pass takes up what is still marked as received.

Requests, processing tasks and the pass interleave in any order, and a crash
drops all of them. The rows of the table stand in the order of their arrival.
The parsers of JSON and the keyed digest of a body are parameters.
-/

set_option autoImplicit false

namespace DevForge.WebhookDeliveries

/-! ## Payloads -/

inductive Value where
  | null
  | bool (b : Bool)
  | number (n : ℤ)
  | float (text : String)
  | string (s : String)
  | array (vs : List Value)
  | object (members : List (String × Value))

namespace Value

def get (key : String) : Value → Option Value
  | .object ms => ms.lookup key
  | _ => none

def asStr : Value → Option String
  | .string s => some s
  | _ => none

def asI64 : Value → Option ℤ
  | .number n => if -2^63 ≤ n ∧ n < 2^63 then some n else none
  | _ => none

/-- `Value::pointer` along the names of members. -/
def pointer : List String → Value → Option Value
  | [], v => some v
  | key::path, v => (v.get key).bind (pointer path)

end Value

/-! ## Rows -/

inductive Status where
  | received
  | processed
  | ignored
  | ignoredUnknownInstallation
  | failed
  | interrupted
  | noProject
  | forkSkipped
  | previewRemoved
  | previewQueued
  deriving DecidableEq, Repr

structure Delivery where
  event : String
  status : Status
  installationId : Option ℤ
  action : Option String
  payload : Option String
  durationMs : Option ℕ
  deriving DecidableEq, Repr

def MAX_STORED_PAYLOAD : ℕ := 2*1024*1024

abbrev Rows := Table String Delivery

/-- The payload goes with the status `received`; a failing statement changes nothing. -/
def setStatus (rows : Rows) (deliveryId : String) (status : Status) (durationMs : Option ℕ)
    (written : Bool) : Rows :=
  if written then
    rows.update (fun k _ => k = deliveryId) (fun _ r =>
      { r with status := status, durationMs := coalesce durationMs r.durationMs, payload := none })
  else rows

def unresumable (r : Delivery) : Bool :=
  r.status = .received && (r.payload.isNone || r.payload = some "")

def resumable (r : Delivery) : Bool :=
  r.status = .received && r.payload.isSome && r.payload ≠ some ""

def markUnresumableReceived (rows : Rows) (written : Bool) : Rows :=
  if written then
    rows.update (fun _ r => unresumable r) (fun _ r =>
      { r with status := .interrupted, durationMs := coalesce r.durationMs (some 0), payload := none })
  else rows

/-! ## Requests -/

abbrev HeaderMap := String → Option String

def header (h : HeaderMap) (name : String) : String := trim ((h name).getD "")

def hexDigit (c : Char) : Option ℕ :=
  let n := c.toNat
  if 48 ≤ n ∧ n ≤ 57 then some (n-48)
  else if 97 ≤ n ∧ n ≤ 102 then some (n-87)
  else if 65 ≤ n ∧ n ≤ 70 then some (n-55)
  else none

/-- `u8::from_str_radix` on two characters: a sign may stand for the first digit. -/
def hexByte (a b : Char) : Option ℕ :=
  if a = '+' then hexDigit b
  else (hexDigit a).bind (fun x => (hexDigit b).map (fun y => 16*x+y))

def hexBytes : List Char → Option (List ℕ)
  | [] => some []
  | [_] => none
  | a::b::cs => (hexByte a b).bind (fun x => (hexBytes cs).map (fun xs => x::xs))

def decodeHex (s : String) : Option (List ℕ) :=
  if s.utf8ByteSize ≠ 64 then none else hexBytes s.toList

abbrev Bytes := List UInt8

def verifySignature (hmac : Bytes → Bytes → List ℕ) (secret body : Bytes) (header : String) :
    Bool :=
  let text := (trim header).toList
  if "sha256=".toList.isPrefixOf text then
    match decodeHex (String.ofList (text.drop 7)) with
    | none => false
    | some sig => hmac secret body = sig
  else false

/-- An event that is accepted and to be processed outside the request. -/
structure Accepted where
  deliveryId : String
  event : String
  action : String
  installationId : Option ℤ
  payload : Value

structure Parsers where
  hmac : Bytes → Bytes → List ℕ
  fromSlice : Bytes → Option Value
  fromStr : String → Option Value

structure Post where
  allowed : Bool
  headers : HeaderMap
  body : Bytes
  secret : Option Bytes

inductive Refused where
  | tooManyRequests
  | missingSignature
  | notConfigured
  | badSignature
  | missingHeaders
  | badJson
  deriving DecidableEq, Repr

def Refused.code : Refused → ℕ
  | .tooManyRequests => 429
  | .missingSignature => 401
  | .notConfigured => 503
  | .badSignature => 401
  | .missingHeaders => 400
  | .badJson => 400

def Refused.error : Refused → String
  | .tooManyRequests => "trop de livraisons, réessaie plus tard"
  | .missingSignature => "signature absente"
  | .notConfigured => "GitHub App non configurée"
  | .badSignature => "signature invalide"
  | .missingHeaders => "en-têtes GitHub manquants"
  | .badJson => "JSON invalide"

/-- What `webhook` and `receive` check before the insertion. -/
def screen (ps : Parsers) (p : Post) : Except Refused Accepted :=
  if !p.allowed then .error .tooManyRequests
  else if header p.headers "x-hub-signature-256" = "" then .error .missingSignature
  else match p.secret with
  | none => .error .notConfigured
  | some secret =>
    if !verifySignature ps.hmac secret p.body (header p.headers "x-hub-signature-256") then
      .error .badSignature
    else
      let event := header p.headers "x-github-event"
      let deliveryId := header p.headers "x-github-delivery"
      if event = "" ∨ deliveryId = "" ∨ 128 < deliveryId.utf8ByteSize then .error .missingHeaders
      else match ps.fromSlice p.body with
      | none => .error .badJson
      | some payload => .ok
        { deliveryId := deliveryId
          event := event
          action := ((payload.get "action").bind Value.asStr).getD ""
          installationId := (payload.pointer ["installation","id"]).bind Value.asI64
          payload := payload }

def storedPayload (body : Bytes) : Option String :=
  if body.length ≤ MAX_STORED_PAYLOAD then String.fromUTF8? ⟨body.toArray⟩ else none

def received (acc : Accepted) (body : Bytes) : Delivery :=
  { event := acc.event
    status := .received
    installationId := acc.installationId
    action := some acc.action
    payload := storedPayload body
    durationMs := none }

/-! ## Processing -/

inductive PrAction where
  | deploy (number : ℤ) (headSha headRef : String)
  | close (number : ℤ)
  | fork (number : ℤ) (headSha : String)
  | ignore
  deriving DecidableEq, Repr

def isFork (payload : Value) : Bool :=
  let head := (payload.pointer ["pull_request","head","repo","id"]).bind Value.asI64
  let base := ((payload.pointer ["pull_request","base","repo","id"]).bind Value.asI64).or
    ((payload.pointer ["repository","id"]).bind Value.asI64)
  match head, base with
  | some h, some b => h ≠ b
  | _, _ => true

def classify (action : String) (payload : Value) : PrAction :=
  match ((payload.pointer ["pull_request","number"]).or (payload.get "number")).bind Value.asI64 with
  | none => .ignore
  | some number =>
    let headSha := ((payload.pointer ["pull_request","head","sha"]).bind Value.asStr).getD ""
    let headRef := ((payload.pointer ["pull_request","head","ref"]).bind Value.asStr).getD ""
    if action = "closed" then .close number
    else if action ∈ ["opened","synchronize","reopened"] then
      let shaOk := headSha.utf8ByteSize = 40 ∧ headSha.toList.all (fun c => (hexDigit c).isSome)
      if ¬ shaOk ∨ headRef = "" then .ignore
      else if isFork payload then .fork number headSha
      else .deploy number headSha headRef
    else .ignore

/-- What the processing of one delivery gets from the database and from the
pushes and previews that it starts. -/
structure Replies where
  statements : Except String Unit
  pushed : Except String Unit
  projects : Bool

def applyInstallationEvent (action : String) (p : Value) (re : Replies) : Except String Status :=
  match p.get "installation" with
  | none => .error "installation absente"
  | some inst =>
    if action ∈ ["created","new_permissions_accepted","suspend","unsuspend","deleted"] then
      match (inst.get "id").bind Value.asI64 with
      | none => .error "installation.id absent"
      | some _ => re.statements.map (fun _ => .processed)
    else .ok .ignored

def applyInstallationRepositories (action : String) (p : Value) (re : Replies) :
    Except String Status :=
  match (p.pointer ["installation","id"]).bind Value.asI64 with
  | none => .error "installation.id absent"
  | some _ =>
    if action ∈ ["added","removed"] then re.statements.map (fun _ => .processed) else .ok .ignored

/-- The push that a check asked for again stands for. -/
def rerequestAsPush (event : String) (payload : Value) : Option Value :=
  let suite := if event = "check_run" then payload.pointer ["check_run","check_suite"]
    else payload.get "check_suite"
  suite.bind (fun suite =>
    ((suite.get "head_branch").bind Value.asStr).bind (fun branch =>
      ((suite.get "head_sha").bind Value.asStr).bind (fun sha =>
        (payload.get "repository").map (fun repository => .object
          [("ref",.string ("refs/heads/"++branch)),
           ("repository",repository),
           ("installation",(payload.get "installation").getD .null),
           ("head_commit",.object
             [("id",.string sha),("message",.string "Relance demandée depuis GitHub")]),
           ("devforge_pin_sha",.string sha)]))))

def handlePullRequest (action : String) (payload : Value) (re : Replies) : Status :=
  match classify action payload with
  | .ignore => .ignored
  | act => if !re.projects then .noProject else
    match act with
    | .fork _ _ => .forkSkipped
    | .close _ => .previewRemoved
    | _ => .previewQueued

def route (acc : Accepted) (re : Replies) : Except String Status :=
  if acc.event = "installation" then applyInstallationEvent acc.action acc.payload re
  else if acc.event = "installation_repositories" then
    applyInstallationRepositories acc.action acc.payload re
  else if acc.event = "push" then
    match acc.installationId with
    | none => .error "installation absente"
    | some _ => re.pushed.map (fun _ => .processed)
  else if acc.event ∈ ["check_run","check_suite"] ∧ acc.action = "rerequested" then
    match acc.installationId with
    | none => .error "installation absente"
    | some _ =>
      match rerequestAsPush acc.event acc.payload with
      | none => .ok .ignored
      | some _ => re.pushed.map (fun _ => .processed)
  else if acc.event = "pull_request" then
    match acc.installationId with
    | none => .error "installation absente"
    | some _ => .ok (handlePullRequest acc.action acc.payload re)
  else .ok .ignored

def finalStatus (acc : Accepted) (re : Replies) : Status :=
  match route acc re with
  | .ok status => status
  | .error _ => .failed

/-! ## Runs -/

/-- The pass over the deliveries left as received. -/
inductive Resume where
  | waiting
  | marked
  | loading (rows : List (String × Delivery))
  | done

/-- The list `started` holds the processing tasks of all lives of the process,
the list `ended` the final statuses that were set. -/
structure State where
  rows : Rows
  requests : List Accepted
  processing : List Accepted
  resume : Resume
  life : ℕ
  started : List (ℕ × String)
  ended : List (String × Status)

def boot : State := ⟨Table.empty,[],[],.waiting,0,[],[]⟩

namespace State

def setStatus (s : State) (deliveryId : String) (status : Status) (durationMs : Option ℕ)
    (written : Bool) : State :=
  { s with
    rows := WebhookDeliveries.setStatus s.rows deliveryId status durationMs written
    ended := s.ended++[(deliveryId,status)] }

def spawn (s : State) (acc : Accepted) : State :=
  { s with processing := s.processing++[acc], started := s.started++[(s.life,acc.deliveryId)] }

/-- The checks of a request and the insertion, which a known identifier leaves without effect. -/
def post (ps : Parsers) (s : State) (p : Post) (inserted : Bool) : State :=
  match screen ps p with
  | .error _ => s
  | .ok acc =>
    if inserted ∧ acc.deliveryId ∉ s.rows.keys then
      { s with
        rows := s.rows.insert acc.deliveryId (received acc p.body)
        requests := s.requests++[acc] }
    else s

/-- The rest of the request with number `n`. -/
def answer (s : State) (n : ℕ) (known written : Bool) : State :=
  match s.requests[n]? with
  | none => s
  | some acc =>
    let s' := { s with requests := s.requests.eraseIdx n }
    if acc.event = "ping" then s'.setStatus acc.deliveryId .processed (some 0) written
    else if !(acc.installationId.isSome && known) &&
        !(acc.event = "installation" && acc.action = "created") then
      s'.setStatus acc.deliveryId .ignoredUnknownInstallation (some 0) written
    else s'.spawn acc

/-- The end of the processing task with number `n`. -/
def finish (s : State) (n : ℕ) (re : Replies) (ms : ℕ) (written : Bool) : State :=
  match s.processing[n]? with
  | none => s
  | some acc =>
    { s with processing := s.processing.eraseIdx n }.setStatus acc.deliveryId (finalStatus acc re)
      (some ms) written

def resumeMark (s : State) (written : Bool) : State :=
  match s.resume with
  | .waiting => { s with rows := markUnresumableReceived s.rows written, resume := .marked }
  | _ => s

/-- `SELECT … WHERE status = 'received' AND payload <> '' ORDER BY received_at LIMIT 50`. -/
def pending (s : State) : List (String × Delivery) := s.rows.rows.filter (fun e => resumable e.2)

def resumeSelect (s : State) (read : Bool) : State :=
  match s.resume with
  | .marked => { s with resume := .loading (if read then s.pending.take 50 else []) }
  | _ => s

def resumeNext (ps : Parsers) (s : State) (written : Bool) : State :=
  match s.resume with
  | .loading [] => { s with resume := .done }
  | .loading ((deliveryId,r)::rest) =>
    let s' := { s with resume := .loading rest }
    match ps.fromStr (r.payload.getD "") with
    | none => s'.setStatus deliveryId .interrupted (some 0) written
    | some value => s'.spawn
      { deliveryId := deliveryId
        event := r.event
        action := r.action.getD ""
        installationId := r.installationId
        payload := value }
  | _ => s

def crash (s : State) : State :=
  { s with requests := [], processing := [], resume := .waiting, life := s.life+1 }

end State

inductive Action where
  | post (p : Post) (inserted : Bool)
  | answer (n : ℕ) (known written : Bool)
  | finish (n : ℕ) (re : Replies) (ms : ℕ) (written : Bool)
  | resumeMark (written : Bool)
  | resumeSelect (read : Bool)
  | resumeNext (written : Bool)
  | crash

def step (ps : Parsers) (s : State) : Action → State
  | .post p inserted => s.post ps p inserted
  | .answer n known written => s.answer n known written
  | .finish n re ms written => s.finish n re ms written
  | .resumeMark written => s.resumeMark written
  | .resumeSelect read => s.resumeSelect read
  | .resumeNext written => s.resumeNext ps written
  | .crash => s.crash

end DevForge.WebhookDeliveries
