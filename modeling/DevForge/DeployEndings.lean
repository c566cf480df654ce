import DevForge.DeploymentStarts

/-!
# The ends of deployments

A start inserts its row and then marks its project; the task of a deployment
writes the outcome in its row, then the status of its project, and only then
starts what follows a success or a failure. Each of these statements stands
alone, and so do those that recompute the status after a cancellation. Other
deployments start, end and are cancelled in between.
-/

set_option autoImplicit false

namespace DevForge.DeployEndings
open DeployQueue DeploymentStarts

/-- A row that is inserted, and whose project is still to be marked. -/
structure Creating where
  uuid : Uuid
  project : ℕ
  server : String
  automatic : Bool
  deriving DecidableEq, Repr

inductive EndPc where
  | publish
  | follow
  | returned
  deriving DecidableEq, Repr

/-- What the task of a deployment does after its build. -/
structure Ending where
  uuid : Uuid
  project : ℕ
  resumed : Bool
  ok : Bool
  /-- The answer of `finalize_if_active`, if it was called. -/
  wrote : Option Bool
  finished : Instant
  pc : EndPc
  published : Bool
  followUp : Option Bool
  deriving DecidableEq, Repr

inductive RecomputePc where
  | signal (uuid : Uuid)
  | active
  | success
  | failures (hasSuccess : Bool)
  | write (status : ProjectStatus)
  | done
  deriving DecidableEq, Repr

/-- The status that is written next. -/
def RecomputePc.written : RecomputePc → Option ProjectStatus
  | .write status => some status
  | _ => none

structure Recompute where
  project : ℕ
  pc : RecomputePc
  deriving DecidableEq, Repr

structure State where
  base : DeploymentStarts.State
  creating : List Creating
  /-- Deployments started by a push or by the poller. -/
  automatic : List Uuid
  endings : List Ending
  recomputes : List Recompute

def start (projects : Table ℕ Project) : State := ⟨DeploymentStarts.start projects,[],[],[],[]⟩

def ending (t : Start) (ok : Bool) (wrote : Option Bool) (now : Instant) (pc : EndPc) : Ending :=
  ⟨t.uuid,t.project,t.resumed,ok,wrote,now,pc,false,none⟩

/-- What the logs of a build say of its failure stands in the report. -/
def parsed (ok : Bool) (report : Outcome) : Outcome :=
  if ok then { report with status := .success, errorSummary := none, errorHint := none }
  else { report with
    status := .failed
    errorSummary := some (report.errorSummary.getD "Échec du déploiement") }

/-- The end of `finish_manual_deploy` up to its `finalize_if_active`. -/
def finishManualDeploy (t : Start) (outcome : SlotOutcome) (report : Outcome) (now : Instant)
    (db : Db) : Db × Ending :=
  match outcome with
  | .cancelled =>
    let r := finalizeIfActive t.uuid { report with
      status := .cancelled
      errorSummary := some "Annulé : un déploiement plus récent a été lancé"
      errorHint := none } now db
    (r.2,ending t false (some r.1) now .returned)
  | .completed ok =>
    let r := finalizeIfActive t.uuid (parsed ok report) now db
    (r.2,ending t ok (some r.1) now .publish)

/-- The other paths return when the row was no longer active. -/
def finishUnlessLost (t : Start) (outcome : SlotOutcome) (report : Bool → Outcome) (now : Instant)
    (db : Db) : Db × Ending :=
  match outcome with
  | .cancelled => (db,ending t false none now .returned)
  | .completed ok =>
    let r := finalizeIfActive t.uuid (report ok) now db
    (r.2,ending t ok (some r.1) now (if r.1 then .publish else .returned))

def persistResumedDeploy (t : Start) (outcome : SlotOutcome) (report : Outcome) (now : Instant)
    (db : Db) : Db × Ending :=
  finishUnlessLost t outcome (fun ok => { parsed ok report with liveRevisionSha := none }) now db

/-- The end of `deploy_project` and of `handle_push`. -/
def finishAutomaticDeploy (t : Start) (outcome : SlotOutcome) (report : Outcome) (now : Instant)
    (db : Db) : Db × Ending :=
  finishUnlessLost t outcome (fun ok => { parsed ok report with
    errorSummary := none
    errorHint := none
    liveRevisionSha := none }) now db

def cancelledByAgent (now : Instant) (d : Deployment) : Deployment :=
  { d with status := .cancelled, finishedAt := some now, updatedAt := now }

namespace State

/-- The INSERT of a start; the paths of other environments do not touch the project. -/
def create (s : State) (uuid : Uuid) (project : ℕ) (environment : Environment) (server : String)
    (gitSha : Option String) (message : String) (automatic : Bool) : State :=
  if uuid ∈ s.base.db.deployments.keys ∨ (s.base.db.projects.get project).isNone then s
  else
    let db := insertQueued uuid project environment gitSha message s.base.now s.base.db
    if environment = .production then
      { s with
        base := { s.base with db := db }
        creating := s.creating++[⟨uuid,project,server,automatic⟩] }
    else
      { s with base := { s.base with
          db := db
          starts := s.base.starts++[⟨uuid,project,environment,server,false,.spawned,none⟩] } }

/-- `UPDATE projects SET status = 'deploying'`, then the task is spawned. -/
def created (s : State) (n : ℕ) : State :=
  match s.creating[n]? with
  | none => s
  | some c =>
    { s with
      base := { s.base with
        db := setProjectStatus (fun k _ => k = c.project) .deploying s.base.now s.base.db
        starts := s.base.starts++[⟨c.uuid,c.project,.production,c.server,false,.spawned,none⟩] }
      creating := s.creating.eraseIdx n
      automatic := if c.automatic then c.uuid::s.automatic else s.automatic }

/-- A task of production whose build is over, with the outcome of its slot. -/
def ended (t : Start) : Option SlotOutcome :=
  match t.phase with
  | .unregistered outcome => if t.environment = .production then some outcome else none
  | _ => none

def isManual (s : State) (t : Start) : Bool := !t.resumed && t.uuid ∉ s.automatic

def finalize (s : State) (i : ℕ) (t : Start) (outcome : SlotOutcome) (report : Outcome) : State :=
  let r := if t.resumed then persistResumedDeploy t outcome report s.base.now s.base.db
    else if t.uuid ∈ s.automatic then finishAutomaticDeploy t outcome report s.base.now s.base.db
    else finishManualDeploy t outcome report s.base.now s.base.db
  { s with
    base := setStart i { t with phase := .finished } { s.base with db := r.1 }
    endings := s.endings++[r.2] }

/-- A piece of a task, of the resumption or of a cancellation channel. The
resumption waits for the end of the deployment that it runs. -/
def task (s : State) (a : DeploymentStarts.Action) : State :=
  match a with
  | .create _ _ _ _ _ _ => s
  | .userCancel _ => s
  | .restart => s
  | .next i report =>
    match s.base.starts[i]? with
    | none => s
    | some t =>
      match ended t with
      | some outcome => s.finalize i t outcome report
      | none => { s with base := DeploymentStarts.step s.base (.next i report) }
  | .resumeNext server =>
    if s.endings.all (fun e => !e.resumed || e.pc = .returned) then
      { s with base := DeploymentStarts.step s.base (.resumeNext server) }
    else s
  | a => { s with base := DeploymentStarts.step s.base a }

/-- `UPDATE projects SET status = …` of the task that ended. -/
def publish (s : State) (n : ℕ) : State :=
  match s.endings[n]? with
  | none => s
  | some e =>
    if e.pc = .publish then
      { s with
        base := { s.base with
          db := setProjectStatus (fun k _ => k = e.project)
            (if e.ok then .live else .failed) e.finished s.base.db }
        endings := s.endings.set n { e with pc := .follow, published := true } }
    else s

/-- `on_deploy_success`, or `handle_deploy_failure`. -/
def follow (s : State) (n : ℕ) : State :=
  match s.endings[n]? with
  | none => s
  | some e =>
    if e.pc = .follow then
      { s with endings := s.endings.set n { e with pc := .returned, followUp := some e.ok } }
    else s

/-- The UPDATE of `cancel_one_deployment`. -/
def cancelOneDeployment (s : State) (uuid : Uuid) : State :=
  match (s.base.db.deployments.get uuid).filter (·.status.active) with
  | none => s
  | some d =>
    { s with
      base := { s.base with
        db := { s.base.db with
          deployments := s.base.db.deployments.update (fun k d => k = uuid && d.status.active)
            (fun _ => .cancelledByUser s.base.now) }
        userCancelled := s.base.userCancelled++[uuid] }
      recomputes := s.recomputes++[⟨d.projectId,.signal uuid⟩] }

/-- The UPDATE of the agents' `cancel_deployment`, whose next statement sets `idle`. -/
def cancelDeployment (s : State) (uuid : Uuid) : State :=
  let open_ (d : Deployment) : Bool := d.status ∈ [.queued,.running,.deploying]
  match (s.base.db.deployments.get uuid).filter open_ with
  | none => s
  | some d =>
    { s with
      base := { s.base with
        db := { s.base.db with
          deployments := s.base.db.deployments.update (fun k d => k = uuid && open_ d)
            (fun _ => cancelledByAgent s.base.now) }
        userCancelled := s.base.userCancelled++[uuid] }
      recomputes := s.recomputes++[⟨d.projectId,.write .idle⟩] }

def productionCount (s : State) (project : ℕ) (p : Deployment → Bool) : ℕ :=
  countDeployments (fun d => d.projectId = project && d.environment = .production && p d) s.base.db

/-- One piece of `recompute_project_status_after_deploy_change`, after the signal. -/
def recompute (s : State) (n : ℕ) : State :=
  match s.recomputes[n]? with
  | none => s
  | some r =>
    let goto (pc : RecomputePc) : List Recompute := s.recomputes.set n { r with pc := pc }
    match r.pc with
    | .signal uuid => { s with base := signalCancel uuid s.base, recomputes := goto .active }
    | .active =>
      let active := 0 < s.productionCount r.project (·.status.active)
      { s with recomputes := goto (if active then .write .deploying else .success) }
    | .success =>
      let hasSuccess : Bool := 0 < s.productionCount r.project (·.status.succeeded)
      { s with recomputes := goto (.failures hasSuccess) }
    | .failures hasSuccess =>
      let openFailed := 0 < s.productionCount r.project Deployment.openFailure
      let status := if hasSuccess then .live else if openFailed then .failed else .idle
      { s with recomputes := goto (.write status) }
    | .write status =>
      { s with
        base := { s.base with
          db := setProjectStatus (fun k _ => k = r.project) status s.base.now s.base.db }
        recomputes := goto .done }
    | .done => s

/-- Handlers and tasks die with the process; what they did is kept. -/
def restart (s : State) : State :=
  { s with
    base := DeploymentStarts.restart s.base
    creating := []
    endings := s.endings.map (fun e => { e with pc := .returned })
    recomputes := [] }

/-- A production deployment of the project is active, and its start has marked the project. -/
def busy (s : State) (project : ℕ) : Bool :=
  s.base.db.deployments.rows.any (fun e => e.2.projectId = project &&
    e.2.environment = .production && e.2.status.active && e.1 ∉ s.creating.map Creating.uuid)

end State

inductive Action where
  | create (uuid : Uuid) (project : ℕ) (environment : Environment) (server : String)
      (gitSha : Option String) (message : String) (automatic : Bool)
  | created (n : ℕ)
  | task (a : DeploymentStarts.Action)
  | publish (n : ℕ)
  | follow (n : ℕ)
  | cancelOneDeployment (uuid : Uuid)
  | cancelDeployment (uuid : Uuid)
  | recompute (n : ℕ)
  | restart
  deriving DecidableEq, Repr

def step (s : State) : Action → State
  | .create uuid project environment server gitSha message automatic =>
    s.create uuid project environment server gitSha message automatic
  | .created n => s.created n
  | .task a => s.task a
  | .publish n => s.publish n
  | .follow n => s.follow n
  | .cancelOneDeployment uuid => s.cancelOneDeployment uuid
  | .cancelDeployment uuid => s.cancelDeployment uuid
  | .recompute n => s.recompute n
  | .restart => s.restart

end DevForge.DeployEndings
