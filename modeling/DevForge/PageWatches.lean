import DevForge.SeparatedParts
import DevForge.Sql
import DevForge.Table

/-!
# Page watches

A watch with its last observation and its lease, what a check decides on it,
and the statements that claim a watch, record a check and change a watch. The
digest of texts is a parameter.
-/

set_option autoImplicit false

namespace DevForge.PageWatches
open SeparatedParts

def MAX_FAILURES : ℕ := 5
def MAX_BACKOFF_MINUTES : ℕ := 60
def LEASE_SECS : ℕ := 120
def KEEP_CHECKS : ℕ := 50

inductive Kind where
  | change
  | text
  | price
  deriving DecidableEq, Repr

inductive TextMode where
  | appears
  | disappears
  deriving DecidableEq, Repr

inductive PriceOp where
  | below
  | above
  deriving DecidableEq, Repr

/-- What is watched, without the address and the schedule. -/
structure WatchSpec where
  kind : Kind
  needle : Option String
  textMode : Option TextMode
  priceOp : Option PriceOp
  threshold : Option String
  currency : Option String
  deriving DecidableEq, Repr

inductive Status where
  | active
  | paused
  deriving DecidableEq, Repr

inductive PausedReason where
  | failures
  | user
  deriving DecidableEq, Repr

structure PageWatch where
  uuid : Uuid
  workspaceUuid : Uuid
  name : String
  url : String
  spec : WatchSpec
  intervalMinutes : ℕ
  status : Status
  pausedReason : Option PausedReason
  failureStreak : ℕ
  lastCheckAt : Option Instant
  nextCheckAt : Instant
  lastSuccessAt : Option Instant
  lastError : Option String
  lastHttpStatus : Option ℕ
  lastValue : Option String
  lastSummary : Option String
  conditionMet : Bool
  lastHash : Option String
  lastSnapshot : Option String
  lastAlertHash : Option String
  alertSeq : ℕ
  lastAlertAt : Option Instant
  leaseOwner : Option String
  leaseUntil : Option Instant
  deriving DecidableEq, Repr

variable (digest : String → String)

def SEPARATOR : Char := Char.ofNat 0x1f

/-- Each part is followed by a separator. -/
def sha256Hex (parts : List String) : String :=
  digest (String.ofList (encode SEPARATOR (parts.map String.toList)))

/-! ## Evaluation of a page -/

structure Price where
  /-- With two decimals. -/
  amount : String
  shown : String
  met : Bool

/-- What a reading of the page shows: its lines, whether the needle stands
among them, the price tracked, and the summary of the price or of the
difference with the last snapshot. -/
structure Reading where
  text : String
  lineCount : ℕ
  snapshot : String
  present : Bool
  price : Option Price
  summary : String

structure Evaluation where
  met : Bool
  stateHash : String
  pageHash : String
  snapshot : String
  value : Option String
  summary : String
  baseline : Bool
  deriving DecidableEq, Repr

def evaluate (spec : WatchSpec) (reading : Reading) (previousHash : Option String) :
    Except String Evaluation :=
  let pageHash := sha256Hex digest [reading.text]
  match spec.kind with
  | .text =>
    let needle := spec.needle.getD ""
    let appears := spec.textMode ≠ some .disappears
    let value := if reading.present then "présent" else "absent"
    .ok {
      met := if appears then reading.present else !reading.present
      stateHash := sha256Hex digest ["text",value]
      pageHash := pageHash
      snapshot := reading.snapshot
      value := some value
      summary := if reading.present then "« "++needle++" » est sur la page."
        else "« "++needle++" » n'est pas sur la page."
      baseline := false }
  | .price => match reading.price with
    | none =>
      let cur := spec.currency.getD "EUR"
      .error (match spec.needle with
        | some a => "Aucun prix en "++cur++" trouvé près de « "++a++" »."
        | none => "Aucun prix en "++cur++" trouvé sur la page.")
    | some price => .ok {
        met := price.met
        stateHash := sha256Hex digest ["price",price.amount,if price.met then "1" else "0"]
        pageHash := pageHash
        snapshot := reading.snapshot
        value := some price.shown
        summary := reading.summary
        baseline := false }
  | .change =>
    let changed := previousHash.any (· ≠ pageHash)
    .ok {
      met := changed
      stateHash := pageHash
      pageHash := pageHash
      snapshot := reading.snapshot
      value := none
      summary := if previousHash.isNone then
          "Référence enregistrée ("++toString reading.lineCount++" lignes)."
        else if changed then reading.summary else "Aucun changement."
      baseline := previousHash.isNone }

/-! ## Decision -/

/-- `min(60, 2^streak)` minutes. -/
def backoffMinutes (streak : ℕ) : ℕ := min (2^(min streak 10)) MAX_BACKOFF_MINUTES

inductive AlertKind where
  | watchPaused
  | watchAlert
  deriving DecidableEq, Repr

structure AlertDraft where
  dedupeKey : String
  kind : AlertKind
  title : String
  body : String
  deriving DecidableEq, Repr

inductive CheckOutcome where
  | baseline
  | unchanged
  | changed
  | met
  | notMet
  | error
  deriving DecidableEq, Repr

structure Decision where
  outcome : CheckOutcome
  failureStreak : ℕ
  nextInMinutes : ℕ
  autoPause : Bool
  alert : Option AlertDraft
  alertSeq : ℕ
  lastAlertHash : Option String
  conditionMet : Bool
  deriving DecidableEq, Repr

/-- The decision on a failed check. -/
def decideError (w : PageWatch) (err : String) : Decision :=
  let streak := w.failureStreak+1
  let pause := MAX_FAILURES ≤ streak
  let seq := w.alertSeq+1
  let alert : AlertDraft := {
    dedupeKey := sha256Hex digest [toString w.uuid,"paused",toString seq]
    kind := .watchPaused
    title := "Surveillance en pause · "++w.name
    body := toString MAX_FAILURES++" échecs d'affilée ("++
      String.ofList ((err.toList.reverse.dropWhile (· = '.')).reverse)++
      "). Reprends-la quand la page répond à nouveau." }
  { outcome := .error
    failureStreak := streak
    nextInMinutes := backoffMinutes streak
    autoPause := pause
    alert := if pause then some alert else none
    alertSeq := if pause then seq else w.alertSeq
    lastAlertHash := w.lastAlertHash
    conditionMet := w.conditionMet }

def alertTitle (w : PageWatch) : String :=
  match w.spec.kind with
  | .change => "Page modifiée · "++w.name
  | .text => if w.spec.textMode = some .disappears then "Texte disparu · "++w.name
    else "Texte trouvé · "++w.name
  | .price => "Prix "++(if w.spec.priceOp = some .above then "au-dessus" else "sous")++
    " du seuil · "++w.name

def alertBody (w : PageWatch) (ev : Evaluation) : String :=
  match w.spec.kind with
  | .text =>
    let needle := w.spec.needle.getD ""
    if w.spec.textMode = some .disappears then "« "++needle++" » n'est plus sur la page."
    else "« "++needle++" » est maintenant sur la page."
  | _ => ev.summary

/-- The decision before any alert. -/
def quiet (w : PageWatch) (ev : Evaluation) (outcome : CheckOutcome) : Decision :=
  { outcome := outcome
    failureStreak := 0
    nextInMinutes := max w.intervalMinutes 5
    autoPause := false
    alert := none
    alertSeq := w.alertSeq
    lastAlertHash := w.lastAlertHash
    conditionMet := ev.met }

/-- An alert on the state, unless it was the last one alerted. -/
def alertOnce (w : PageWatch) (ev : Evaluation) (outcome : CheckOutcome) : Decision :=
  let d := quiet w ev outcome
  if w.lastAlertHash = some ev.stateHash then d
  else
    let seq := w.alertSeq+1
    { d with
      alert := some {
        dedupeKey := sha256Hex digest [toString w.uuid,toString seq,ev.stateHash]
        kind := .watchAlert
        title := alertTitle w
        body := alertBody w ev }
      alertSeq := seq
      lastAlertHash := some ev.stateHash }

def decideOk (w : PageWatch) (ev : Evaluation) : Decision :=
  if w.spec.kind = .change then
    if ev.baseline then { quiet w ev .baseline with conditionMet := false }
    else if !ev.met then quiet w ev .unchanged
    else alertOnce digest w ev .changed
  else if !ev.met then { quiet w ev .notMet with lastAlertHash := none }
  else alertOnce digest w ev .met

def PageWatch.decide (w : PageWatch) : Except String Evaluation → Decision
  | .error err => decideError digest w err
  | .ok ev => decideOk digest w ev

/-! ## Statements -/

abbrev Rows := Table Uuid PageWatch

def leaseFree (now : Instant) (w : PageWatch) : Bool := w.leaseUntil.all (· < now)

/-- `status = 'active' AND next_check_at <= now()` and no lease in force. -/
def due (now : Instant) (w : PageWatch) : Bool :=
  w.status = .active && w.nextCheckAt ≤ now && leaseFree now w

def PageWatch.lease (token : String) (now : Instant) (w : PageWatch) : PageWatch :=
  { w with leaseOwner := some token, leaseUntil := some (now+LEASE_SECS) }

/-- `picked` holds the rows that the inner SELECT locks. -/
def duePicked (picked : List Uuid) (now : Instant) (k : Uuid) (w : PageWatch) : Bool :=
  k ∈ picked && due now w

def claimDue (picked : List Uuid) (token : String) (now : Instant) (rows : Rows) : Rows :=
  rows.update (duePicked picked now) (fun _ => PageWatch.lease token now)

def claimable (uuid : Uuid) (now : Instant) (k : Uuid) (w : PageWatch) : Bool :=
  k = uuid && w.status = .active && leaseFree now w

def claimOne (uuid : Uuid) (token : String) (now : Instant) (rows : Rows) : Rows :=
  rows.update (claimable uuid now) (fun _ => PageWatch.lease token now)

structure CheckInput where
  result : Except String Evaluation
  httpStatus : Option ℕ
  durationMs : ℕ

structure WatchCheck where
  watchUuid : Uuid
  checkedAt : Instant
  outcome : CheckOutcome
  httpStatus : Option ℕ
  durationMs : ℕ
  value : Option String
  summary : Option String
  error : Option String
  stateHash : Option String
  alerted : Bool
  deriving DecidableEq, Repr

structure WatchAlert where
  watchUuid : Uuid
  workspaceUuid : Uuid
  kind : AlertKind
  title : String
  body : String
  createdAt : Instant
  deriving DecidableEq, Repr

/-- The alerts under their unique `dedupe_key`. -/
abbrev Alerts := Table String WatchAlert

def PageWatch.held (token : String) (w : PageWatch) : Bool :=
  w.leaseOwner = some token && w.status = .active

/-- The columns that the end of a check writes. -/
def PageWatch.checked (d : Decision) (input : CheckInput) (now : Instant) (w : PageWatch) :
    PageWatch :=
  let ev := input.result.toOption
  { w with
    leaseOwner := none
    leaseUntil := none
    lastCheckAt := some now
    nextCheckAt := now+60*d.nextInMinutes
    failureStreak := d.failureStreak
    status := if d.autoPause then .paused else w.status
    pausedReason := if d.autoPause then some .failures else w.pausedReason
    lastSuccessAt := if ev.isSome then some now else w.lastSuccessAt
    lastError := match input.result with
      | .error e => some e
      | .ok _ => none
    lastHttpStatus := coalesce input.httpStatus w.lastHttpStatus
    lastValue := if ev.isSome then ev.bind Evaluation.value else w.lastValue
    lastSummary := if ev.isSome then ev.map Evaluation.summary else w.lastSummary
    lastHash := if ev.isSome then ev.map Evaluation.pageHash else w.lastHash
    lastSnapshot := if ev.isSome then ev.map Evaluation.snapshot else w.lastSnapshot
    conditionMet := d.conditionMet
    lastAlertHash := d.lastAlertHash
    alertSeq := d.alertSeq
    lastAlertAt := if d.alert.isSome then some now else w.lastAlertAt }

def dropOldest (uuid : Uuid) : ℕ → List WatchCheck → List WatchCheck
  | 0, cs => cs
  | _, [] => []
  | n+1, c::cs => if c.watchUuid = uuid then dropOldest uuid n cs else c::dropOldest uuid (n+1) cs

/-- The checks of the watch beyond the last fifty go. -/
def keepChecks (uuid : Uuid) (checks : List WatchCheck) : List WatchCheck :=
  dropOldest uuid ((checks.filter (fun c => c.watchUuid = uuid)).length-KEEP_CHECKS) checks

structure Store where
  rows : Rows
  alerts : Alerts
  checks : List WatchCheck

/-- `w` is the row as it was claimed. Nothing is written if the lease was lost. -/
def applyCheck (w : PageWatch) (owner : String) (input : CheckInput) (now : Instant) (s : Store) :
    Store :=
  let token := w.leaseOwner.getD owner
  let d := w.decide digest input.result
  if !(s.rows.get w.uuid).any (PageWatch.held token) then s
  else
    let alerted := d.alert.any (fun a => a.dedupeKey ∉ s.alerts.keys)
    { rows := s.rows.update (fun k r => k = w.uuid && r.held token)
        (fun _ => PageWatch.checked d input now)
      alerts := match d.alert with
        | some a => s.alerts.insert a.dedupeKey ⟨w.uuid,w.workspaceUuid,a.kind,a.title,a.body,now⟩
        | none => s.alerts
      checks := keepChecks w.uuid (s.checks++[{
        watchUuid := w.uuid
        checkedAt := now
        outcome := d.outcome
        httpStatus := input.httpStatus
        durationMs := input.durationMs
        value := input.result.toOption.bind Evaluation.value
        summary := input.result.toOption.map Evaluation.summary
        error := match input.result with
          | .error e => some e
          | .ok _ => none
        stateHash := input.result.toOption.map Evaluation.stateHash
        alerted := alerted }]) }

def PageWatch.pause (w : PageWatch) : PageWatch :=
  { w with
    status := .paused, pausedReason := some .user, leaseOwner := none, leaseUntil := none }

def pausable (workspace : Uuid) (w : PageWatch) : Bool :=
  w.workspaceUuid = workspace && w.status = .active

def pause (workspace uuid : Uuid) (rows : Rows) : Rows :=
  rows.update (fun k w => k = uuid && pausable workspace w) (fun _ => PageWatch.pause)

def PageWatch.resume (now : Instant) (w : PageWatch) : PageWatch :=
  { w with
    status := .active
    pausedReason := none
    failureStreak := 0
    lastError := none
    nextCheckAt := now
    leaseOwner := none
    leaseUntil := none }

def resumable (workspace : Uuid) (w : PageWatch) : Bool :=
  w.workspaceUuid = workspace && w.status = .paused

def resume (workspace uuid : Uuid) (now : Instant) (rows : Rows) : Rows :=
  rows.update (fun k w => k = uuid && resumable workspace w) (fun _ => PageWatch.resume now)

/-- The checks and the alerts of the watch go with it. -/
def delete (workspace uuid : Uuid) (s : Store) : Store :=
  if (s.rows.get uuid).any (fun w => w.workspaceUuid = workspace) then
    { rows := s.rows.delete (fun k _ => k = uuid)
      alerts := s.alerts.delete (fun _ a => a.watchUuid = uuid)
      checks := s.checks.filter (fun c => c.watchUuid ≠ uuid) }
  else s

structure WatchEdit where
  name : String
  url : String
  spec : WatchSpec
  intervalMinutes : ℕ

/-- A new address or condition starts from a new reference. -/
def PageWatch.edit (e : WatchEdit) (reset : Bool) (now : Instant) (w : PageWatch) : PageWatch :=
  { w with
    name := e.name
    url := e.url
    spec := e.spec
    intervalMinutes := e.intervalMinutes
    lastHash := if reset then none else w.lastHash
    lastSnapshot := if reset then none else w.lastSnapshot
    lastAlertHash := if reset then none else w.lastAlertHash
    lastValue := if reset then none else w.lastValue
    lastSummary := if reset then none else w.lastSummary
    conditionMet := if reset then false else w.conditionMet
    failureStreak := if reset then 0 else w.failureStreak
    lastError := if reset then none else w.lastError
    nextCheckAt := if reset then now
      else min w.nextCheckAt (w.lastCheckAt.getD now+60*e.intervalMinutes) }

/-- `current` is the row as the request has read it. -/
def applyUpdate (workspace : Uuid) (current : PageWatch) (e : WatchEdit) (now : Instant)
    (rows : Rows) : Rows :=
  rows.update (fun k w => k = current.uuid && w.workspaceUuid = workspace)
    (fun _ => PageWatch.edit e (e.url ≠ current.url || e.spec ≠ current.spec) now)

/-- A new watch, due at once. -/
def newWatch (uuid workspace : Uuid) (e : WatchEdit) (now : Instant) : PageWatch :=
  { uuid := uuid
    workspaceUuid := workspace
    name := e.name
    url := e.url
    spec := e.spec
    intervalMinutes := e.intervalMinutes
    status := .active
    pausedReason := none
    failureStreak := 0
    lastCheckAt := none
    nextCheckAt := now
    lastSuccessAt := none
    lastError := none
    lastHttpStatus := none
    lastValue := none
    lastSummary := none
    conditionMet := false
    lastHash := none
    lastSnapshot := none
    lastAlertHash := none
    alertSeq := 0
    lastAlertAt := none
    leaseOwner := none
    leaseUntil := none }

end DevForge.PageWatches
