import DevForge.AutoDeployGuard
import DevForge.DeployQueue
import DevForge.Transition

/-!
# Corrections

The changes that the agents propose for a project: proposed, verified, applied and
deployed, or rejected, redone and archived. Every call reads the rows first and writes
them later by their identifier, whatever happened in between. The texts that a report
is made of, the draft's files and the agents' turns stand outside.
-/

set_option autoImplicit false

namespace DevForge.Corrections
open Transition

def MAX_ATTEMPTS : ℕ := 3

/-- In minutes. -/
def REPAIR_TESTING_HOLD_MIN : ℕ := 30

inductive CorrectionState
  | testing | proposed | conflict | deploying | live | failed | rejected | archived
deriving DecidableEq, Repr

def CorrectionState.isOpen : CorrectionState → Bool
  | .testing | .proposed | .conflict => true
  | _ => false

def CorrectionState.closed : CorrectionState → Bool
  | .live | .failed | .rejected | .archived => true
  | _ => false

structure Row where
  state : CorrectionState
  kind : String
  persona : String
  summary : String
  files : List String
  sha : Option String
  deploymentUuid : Option Uuid
  backupId : Option String
  note : String
  createdAt : Instant
  updatedAt : Instant
  attempts : ℕ
  broke : String
  changed : String
  testOk : Option Bool
  testText : String
deriving DecidableEq, Repr

/-- What a call says of the draft, and of the agent's report. -/
structure Report where
  kind : String
  persona : String
  summary : String
  files : List String
  broke : String
  changed : String
deriving DecidableEq, Repr

structure Deployment where
  environment : DeployQueue.Environment
  targetSha : Option String
  gitSha : String
  status : DeployQueue.DeployStatus
  createdAt : Instant
  finishedAt : Option Instant
deriving DecidableEq, Repr

/-! ## Calls in flight -/

structure Tests where
  testsOk : Bool
  testsText : String
  smokeOk : Bool
deriving DecidableEq, Repr

def Tests.passed (t : Tests) : Bool := t.testsOk && t.smokeOk

def Tests.text (t : Tests) : String :=
  if t.passed then
    "Réussi : "++(if t.testsText = "" then "build de l’app et démarrage de l’aperçu"
      else t.testsText++", build et démarrage de l’aperçu")++", l’app répond."
  else if t.testsOk then "Échoué : l’app ne démarre pas ou ne répond pas."
  else "Échoué : "++t.testsText++"."

inductive Push
  | conflict (reason : String)
  | pushed (sha : String)
  | error
deriving DecidableEq, Repr

/-- What the next piece of a call meets outside. -/
structure Choice where
  fresh : Uuid
  tests : Tests
  agent : Bool
  push : Push
  alreadyFailed : Bool
  discarded : Option String
deriving DecidableEq, Repr

/-- A draft that was archived, with its backup. -/
structure Sorted where
  backup : String
  reason : String
  report : Report
deriving DecidableEq, Repr

inductive Asked | apply | reject
deriving DecidableEq, Repr

/-- The next piece of a call, with what the call has read. -/
inductive Piece
  | note (report : Report) (now : Instant) (found : Option (Uuid × Row))
  | verifySpawned (id : Uuid)
  /-- `since` counts the changes recorded when the tests began. -/
  | verifyRunning (id : Uuid) (since : ℕ)
  | verifyCounted (id : Uuid) (attempts : ℕ) (passed : Bool)
  | gate (todo : List Uuid)
  | archiveOpen (id : Uuid)
  | sorted (s : Sorted)
  | archiveDiscarded (s : Sorted) (found : Option Uuid)
  | ensureRow (report : Report) (asked : Asked)
  | applyPushing (id : Uuid)
  | applyRecord (id : Uuid) (sha : String)
  | applyMark (id : Uuid)
  | rejecting (id : Uuid)
  | rejectWrite (id : Uuid) (backup : String)
  | redoing (found : Option Uuid)
  | redoWrite (id : Uuid) (backup : Option String)
  | refresh (todo : List (Uuid × Option String))
  /-- `applied` is when the correction had been applied at the time of the query. -/
  | refreshWrite (id : Uuid) (sha : String) (deployment : Uuid) (state : CorrectionState)
      (text : String) (applied : Option Instant) (todo : List (Uuid × Option String))
  | done
deriving DecidableEq, Repr

def Piece.verifies (k : Uuid) : Piece → Bool
  | .verifySpawned id | .verifyRunning id _ => id = k
  | _ => false

/-! ## The state -/

structure Verified where
  since : ℕ
  passed : Bool
deriving DecidableEq, Repr

/-- What happened to a correction: changes recorded, verifications launched, the last one
that ended, whether it was ever closed, and when it was applied last. -/
structure Past where
  changes : ℕ
  launched : ℕ
  verified : Option Verified
  closed : Bool
  appliedAt : Option Instant
deriving DecidableEq, Repr

/-- A correction became live: its commit, its application and the deployments of that time. -/
structure Live where
  id : Uuid
  sha : Option String
  appliedAt : Option Instant
  deployments : List (Uuid × Deployment)
deriving DecidableEq, Repr

structure State where
  now : Instant
  corrections : Table Uuid Row
  deployments : Table Uuid Deployment
  calls : List Piece
  past : Uuid → Past
  lives : List Live

def start : State := ⟨0,Table.empty,Table.empty,[],fun _ => ⟨0,0,none,false,none⟩,[]⟩

/-- The open correction that was updated last. -/
def openRow (s : State) : Option (Uuid × Row) :=
  (s.corrections.rows.filter (fun e => e.2.state.isOpen)).foldl (fun best e =>
    if best.all (fun b => b.2.updatedAt < e.2.updatedAt) then some e else best) none

def setPast (k : Uuid) (f : Past → Past) (s : State) : State :=
  { s with past := fun x => if x = k then f (s.past x) else s.past x }

/-- An UPDATE of one row by its identifier. -/
def write (k : Uuid) (f : Row → Row) (s : State) : State :=
  setPast k (fun p => { p with
      closed := p.closed || (s.corrections.get k).any (fun r => (f r).state.closed) })
    { s with corrections := s.corrections.update (fun x _ => x = k) (fun _ => f) }

def setState (k : Uuid) (state : CorrectionState) (note : String) (s : State) : State :=
  write k (fun r => { r with state := state, note := note, updatedAt := s.now }) s

def setCall (i : ℕ) (c : Piece) (s : State) : State := { s with calls := s.calls.set i c }

def call (c : Piece) (s : State) : State := { s with calls := s.calls++[c] }

/-! ## Proposing and verifying -/

def nextState (kind : String) : CorrectionState := if kind = "repair" then .testing else .proposed

def Row.new (state : CorrectionState) (report : Report) (now : Instant) : Row :=
  ⟨state,report.kind,report.persona,report.summary,report.files,none,none,none,"",now,now,0,
    report.broke,report.changed,none,""⟩

/-- A row that was read is completed with a new report. -/
def Row.noted (report : Report) (now : Instant) (found r : Row) : Row :=
  { r with
    state := nextState report.kind
    kind := report.kind
    persona := report.persona
    summary := report.summary
    files := report.files.foldl (fun all f => if f ∈ all then all else all++[f]) found.files
    note := ""
    broke := if report.broke = "" then found.broke else report.broke
    changed := report.changed
    testOk := none
    testText := ""
    updatedAt := now }

/-- A correction whose change was recorded is verified if it is a repair. -/
def launch (i : ℕ) (k : Uuid) (kind : String) (s : State) : State :=
  if kind = "repair" then
    setCall i (.verifySpawned k) (setPast k (fun p => { p with
      changes := p.changes+1, launched := p.launched+1 }) s)
  else setCall i .done (setPast k (fun p => { p with changes := p.changes+1 }) s)

def noteWrite (i : ℕ) (report : Report) (now : Instant) (found : Option (Uuid × Row)) (fresh : Uuid)
    (s : State) : State :=
  match found with
  | some (k,r) => launch i k report.kind (write k (Row.noted report now r) s)
  | none =>
    if fresh ∈ s.corrections.keys then s
    else launch i fresh report.kind
      { s with corrections := s.corrections.insert fresh (Row.new (nextState report.kind) report now) }

/-- The UPDATE after the tests, and the number of attempts that it returns. -/
def countVerification (i : ℕ) (k : Uuid) (since : ℕ) (tests : Tests) (s : State) : State :=
  let attempts := ((s.corrections.get k).map (fun r => r.attempts+1)).getD MAX_ATTEMPTS
  setCall i (.verifyCounted k attempts tests.passed)
    (setPast k (fun p => { p with verified := some ⟨since,tests.passed⟩ })
      (write k (fun r => { r with
        attempts := r.attempts+1
        testOk := some tests.passed
        testText := tests.text
        updatedAt := s.now }) s))

/-- The verification ends, or the agent tries again. -/
def endVerification (i : ℕ) (k : Uuid) (attempts : ℕ) (passed agent : Bool) (s : State) : State :=
  setCall i .done
    (if passed then setState k .proposed "" s
    else if MAX_ATTEMPTS ≤ attempts then setState k .failed
      ("Rustine n’a pas réussi à corriger après "++toString attempts++
        " essais. Le test échoue toujours.") s
    else if agent then s
    else setState k .failed "Le test de la correction échoue." s)

/-! ## Archiving -/

/-- A repair that has been tested for less than half an hour holds a new commit back. -/
def waits (now : Instant) (r : Row) : Bool :=
  r.state = .testing && now-r.updatedAt < 60*REPAIR_TESTING_HOLD_MIN

def gateDeployOnRepair (s : State) : State :=
  let rows := s.corrections.rows.filter (fun e => e.2.kind = "repair" && e.2.state.isOpen)
  if rows.any (fun e => waits s.now e.2) then s else call (.gate (rows.map Prod.fst)) s

/-- The report of a correction that no agent has proposed. -/
def Report.bare (r : Report) : Report := { r with broke := "", changed := "" }

def Row.archived (sorted : Sorted) (note : String) (now : Instant) : Row :=
  { Row.new .archived sorted.report.bare now with backupId := some sorted.backup, note := note }

def archiveDiscarded (i : ℕ) (sorted : Sorted) (found : Option Uuid) (fresh : Uuid) (s : State) : State :=
  let note := "Archivée automatiquement : "++sorted.reason
  match found with
  | some k => setCall i .done (write k (fun r => { r with
      state := .archived, backupId := some sorted.backup, note := note, updatedAt := s.now }) s)
  | none =>
    if fresh ∈ s.corrections.keys then s
    else setCall i .done (setPast fresh (fun p => { p with closed := true })
      { s with corrections := s.corrections.insert fresh (Row.archived sorted note s.now) })

/-! ## Applying, rejecting, redoing -/

def Asked.piece (k : Uuid) : Asked → Piece
  | .apply => .applyPushing k
  | .reject => .rejecting k

/-- The first piece of `ensure_row`. -/
def ensureRow (report : Report) (asked : Asked) (s : State) : State :=
  match openRow s with
  | some (k,_) => call (asked.piece k) s
  | none => call (.ensureRow report asked) s

def insertRow (i : ℕ) (report : Report) (asked : Asked) (fresh : Uuid) (s : State) : State :=
  if fresh ∈ s.corrections.keys then s
  else setCall i (asked.piece fresh) { s with
    corrections := s.corrections.insert fresh
      (Row.new .proposed report.bare s.now) }

def applied (i : ℕ) (k : Uuid) (s : State) : Push → State
  | .conflict reason => setCall i .done (setState k .conflict reason s)
  | .pushed sha => setCall i (.applyRecord k sha) (setPast k (fun p => { p with appliedAt := some s.now }) s)
  | .error => setCall i .done s

def applyMark (i : ℕ) (k : Uuid) (alreadyFailed : Bool) (s : State) : State :=
  setCall i .done (if alreadyFailed then setState k .failed
      "Cette version a déjà échoué en ligne : pas de nouvelle tentative automatique." s
    else setState k .deploying "" s)

/-! ## Following the deployments -/

/-- `target_sha = sha OR git_sha LIKE '<first seven>%'`. -/
def Deployment.found (sha : String) (d : Deployment) : Bool :=
  d.targetSha = some sha || (sha.toList.take 7).isPrefixOf d.gitSha.toList

/-- The newest deployment that the query finds, in any environment. -/
def newestFound (sha : String) (s : State) : Option (Uuid × Deployment) :=
  (s.deployments.rows.filter (fun e => e.2.found sha)).foldl (fun best e =>
    if best.all (fun b => b.2.createdAt < e.2.createdAt) then some e else best) none

def ending : DeployQueue.DeployStatus → Option (CorrectionState × String)
  | .success | .deployed | .ok => some (.live,"")
  | .failed | .error => some (.failed,"La mise en ligne a échoué. Rustine peut regarder.")
  | .cancelled => some (.failed,"Mise en ligne annulée.")
  | _ => none

def refreshDeploying (s : State) : State :=
  call (.refresh ((s.corrections.rows.filter (fun e => e.2.state = .deploying)).map
    (fun e => (e.1,e.2.sha)))) s

def refreshNext (i : ℕ) (k : Uuid) (sha : String) (todo : List (Uuid × Option String)) (s : State) :
    State :=
  match newestFound sha s with
  | none => setCall i (.refresh todo) s
  | some (dep,d) => match ending d.status with
    | none => setCall i (.refresh todo) s
    | some (state,note) =>
      setCall i (.refreshWrite k sha dep state note (s.past k).appliedAt todo) s

def refreshWrite (i : ℕ) (k : Uuid) (dep : Uuid) (state : CorrectionState) (note : String)
    (todo : List (Uuid × Option String)) (s : State) : State :=
  let s' := setCall i (.refresh todo) (write k (fun r => { r with
    state := state, note := note, deploymentUuid := some dep, updatedAt := s.now }) s)
  if state = .live then { s' with lives := s.lives++
    [⟨k,(s.corrections.get k).bind Row.sha,(s.past k).appliedAt,s.deployments.rows⟩] }
  else s'

/-! ## Runs -/

def next (i : ℕ) (c : Choice) (s : State) : Piece → State
  | .note report now found => noteWrite i report now found c.fresh s
  | .verifySpawned k => setCall i (.verifyRunning k (s.past k).changes) s
  | .verifyRunning k since => countVerification i k since c.tests s
  | .verifyCounted k attempts passed => endVerification i k attempts passed c.agent s
  | .gate [] => setCall i .done s
  | .gate (k::ks) => setCall i (.gate ks) (setState k .archived
      "Remplacée : un nouveau commit a été mis en ligne (brouillon sauvegardé)." s)
  | .archiveOpen k =>
    setCall i .done (setState k .archived "Plus rien à appliquer : déjà intégrée ou retirée." s)
  | .sorted sorted => setCall i (.archiveDiscarded sorted ((openRow s).map Prod.fst)) s
  | .archiveDiscarded sorted found => archiveDiscarded i sorted found c.fresh s
  | .ensureRow report asked => insertRow i report asked c.fresh s
  | .applyPushing k => applied i k s c.push
  | .applyRecord k sha =>
    setCall i (.applyMark k) (write k (fun r => { r with sha := some sha, updatedAt := s.now }) s)
  | .applyMark k => applyMark i k c.alreadyFailed s
  | .rejecting k => match c.discarded with
    | some backup => setCall i (.rejectWrite k backup) s
    | none => setCall i .done s
  | .rejectWrite k backup => setCall i .done (write k (fun r => { r with
      state := .rejected
      backupId := some backup
      note := "Rejetée. Récupérable pendant 7 jours."
      updatedAt := s.now }) s)
  | .redoing none => setCall i .done s
  | .redoing (some k) => setCall i (.redoWrite k c.discarded) s
  | .redoWrite k backup => setCall i .done (write k (fun r => { r with
      state := .archived
      backupId := backup
      note := "Remplacée : Rustine refait la correction."
      updatedAt := s.now }) s)
  | .refresh [] => setCall i .done s
  | .refresh ((_,none)::todo) => setCall i (.refresh todo) s
  | .refresh ((k,some sha)::todo) => refreshNext i k sha todo s
  | .refreshWrite k _ dep state note _ todo => refreshWrite i k dep state note todo s
  | .done => s

inductive Action
  | tick (seconds : ℕ)
  | deploy (uuid : Uuid) (environment : DeployQueue.Environment) (targetSha : Option String)
      (gitSha : String)
  | finish (uuid : Uuid) (status : DeployQueue.DeployStatus) (gitSha : String)
  | noteProposed (report : Report)
  | gateDeployOnRepair
  /-- With nothing local, or with an obsolete draft that was discarded. -/
  | autoSort (sorted : Option Sorted)
  | apply (report : Report)
  | reject (report : Report)
  | redo
  | refreshDeploying
  | next (call : ℕ) (choice : Choice)
deriving DecidableEq, Repr

def step (s : State) : Action → State
  | .tick seconds => { s with now := s.now+seconds }
  | .deploy uuid environment targetSha gitSha =>
    { s with
      deployments := s.deployments.insert uuid ⟨environment,targetSha,gitSha,.queued,s.now,none⟩ }
  | .finish uuid status gitSha =>
    { s with
      deployments := s.deployments.update (fun k d => k = uuid && d.status.active)
        (fun _ d => { d with
          status := status
          gitSha := gitSha
          finishedAt := if status.active then d.finishedAt else some s.now }) }
  | .noteProposed report => call (.note report s.now (openRow s)) s
  | .gateDeployOnRepair => gateDeployOnRepair s
  | .autoSort none => match openRow s with
    | some (k,_) => call (.archiveOpen k) s
    | none => s
  | .autoSort (some sorted) => call (.sorted sorted) s
  | .apply report => ensureRow report .apply s
  | .reject report => ensureRow report .reject s
  | .redo => call (.redoing ((openRow s).map Prod.fst)) s
  | .refreshDeploying => refreshDeploying s
  | .next i c => match s.calls[i]? with
    | some piece => next i c s piece
    | none => s

/-! ## The property -/

/-- What was closed once is not testing or proposed. -/
def ClosedStays (s : State) : Prop :=
  ∀ k r, s.corrections.get k = some r → (s.past k).closed = true →
    r.state ≠ .testing ∧ r.state ≠ .proposed

/-- A repair shown as tested passed its last verification, begun after its last change. -/
def ShownTested (s : State) : Prop :=
  ∀ k r, s.corrections.get k = some r → r.state = .proposed → r.kind = "repair" →
    r.testOk = some true → (s.past k).verified = some ⟨(s.past k).changes,true⟩

def FewVerifications (s : State) : Prop := ∀ k, (s.past k).launched ≤ MAX_ATTEMPTS

/-- The deployment of this commit. -/
def Deployment.isOf (sha : String) (d : Deployment) : Bool :=
  d.targetSha = some sha || AutoDeployGuard.sameSha d.gitSha sha

def Live.deployed (e : Live) : Prop :=
  ∃ x ∈ e.deployments, x.2.environment = .production ∧ x.2.status.succeeded = true ∧
    (∃ sha, e.sha = some sha ∧ x.2.isOf sha = true) ∧
    ∃ at_ f, e.appliedAt = some at_ ∧ x.2.finishedAt = some f ∧ at_ ≤ f

structure Lifecycle (s : State) : Prop where
  closed : ClosedStays s
  tested : ShownTested s
  few : FewVerifications s
  live : ∀ e ∈ s.lives, e.deployed

/-! ## The condition -/

/-- The correction is found, and is not closed. -/
def pendingRow (s : State) (k : Uuid) : Bool := (s.corrections.get k).all (fun r => !r.state.closed)

/-- Verifications of a correction that have still to be counted. -/
def inFlight (s : State) (k : Uuid) : ℕ := s.calls.countP (Piece.verifies k)

/-- No call writes to a correction that was closed since it read it. -/
def WritesOpen (s : State) (c : Choice) : Piece → Prop
  | .note _ _ (some (k,_)) => pendingRow s k
  | .verifyCounted k _ passed => passed = true → pendingRow s k
  | .applyPushing k => match c.push with
    | .conflict _ => pendingRow s k
    | _ => True
  | .applyMark k => c.alreadyFailed = false → pendingRow s k
  | _ => True

/-- A repair is not noted again once its attempts are used up, counted or in flight; tests
that pass were begun after the last change. -/
def VerifiesLast (s : State) (c : Choice) : Piece → Prop
  | .note report _ (some (k,_)) => report.kind = "repair" →
    ∀ r ∈ s.corrections.get k, r.attempts+inFlight s k < MAX_ATTEMPTS
  | .verifyRunning k since => c.tests.passed = true → since = (s.past k).changes
  | _ => True

/-- The newest deployment that the query finds, if it succeeded, is a deployment of production,
of the commit itself, created since the correction was applied; the correction is not applied
again before it is written live. -/
def FindsOwn (s : State) : Piece → Prop
  | .refresh ((k,some sha)::_) => ∀ e ∈ s.deployments.rows, e.2.found sha = true →
    (∀ e' ∈ s.deployments.rows, e'.2.found sha = true → e'.2.createdAt ≤ e.2.createdAt) →
    e.2.status.succeeded = true → e.2.environment = .production ∧ e.2.isOf sha = true ∧
      ∃ at_ ∈ (s.past k).appliedAt, at_ ≤ e.2.createdAt
  | .refreshWrite k sha _ state _ applied _ => state = .live →
    (s.corrections.get k).bind Row.sha = some sha ∧ (s.past k).appliedAt = applied
  | _ => True

def Orderly (s : State) : Action → Prop
  | .next i c => ∀ piece ∈ s.calls[i]?, WritesOpen s c piece ∧ VerifiesLast s c piece ∧ FindsOwn s piece
  | _ => True

instance (s : State) (c : Choice) (piece : Piece) : Decidable (WritesOpen s c piece) := by
  unfold WritesOpen
  split
  all_goals first | infer_instance | (split <;> infer_instance)

instance (s : State) (c : Choice) (piece : Piece) : Decidable (VerifiesLast s c piece) := by
  unfold VerifiesLast
  split <;> infer_instance

instance (s : State) (piece : Piece) : Decidable (FindsOwn s piece) := by
  unfold FindsOwn
  split <;> infer_instance

instance (s : State) (a : Action) : Decidable (Orderly s a) := by
  unfold Orderly
  split <;> infer_instance

end DevForge.Corrections
