import DevForge.DeploymentStarts

/-!
# Previews of a pull request

A preview has one row for its project and pull request, written by the starts of
previews, by their tasks and by the teardowns, at several moments and without
condition. Cancelling and superseding go through the deployments. The log notes and
the reports to GitHub are left out.
-/

set_option autoImplicit false

namespace DevForge.PullPreviews
open DeployQueue Transition
open DeploymentStarts (SlotOutcome)

inductive PreviewStatus | queued | building | ready | failed | deleted
deriving DecidableEq, Repr

structure PreviewRow where
  headSha : String
  headRef : String
  url : String
  status : PreviewStatus
  deploymentUuid : Option Uuid
  updatedAt : Instant
deriving DecidableEq, Repr

/-- A project and a pull request; `host` is what `preview_host_for` gives. -/
structure Preview where
  project : ℕ
  pr : ℕ
  buildPack : String
  host : Option String
deriving DecidableEq, Repr

def Preview.environment (p : Preview) : Environment := .preview p.pr

/-- The pieces of `start_preview` and then of its task `finish_preview`. -/
inductive Phase where
  | upserted
  | inserted
  | spawned
  | starting
  | locked
  | registered
  | signalling (superseded : List Uuid)
  | unlocked
  | subscribed
  | waiting
  | holding
  | rechecked
  | building
  | left (outcome : SlotOutcome)
  | unregistered (outcome : SlotOutcome)
  | finalized (outcome : SlotOutcome)
  | finished
deriving DecidableEq, Repr

structure Task where
  uuid : Uuid
  headSha : String
  phase : Phase
  /-- The value of its cancellation channel. -/
  signalled : Bool
deriving DecidableEq, Repr

def Task.holdsLock (t : Task) : Bool :=
  match t.phase with
  | .locked | .registered | .signalling _ => true
  | _ => false

/-- The task holds the receiver of its channel. -/
def Task.listens (t : Task) : Bool :=
  match t.phase with
  | .subscribed | .waiting | .holding | .rechecked | .building => true
  | _ => false

/-- The next piece of the task sets the status of the row. -/
def Task.writes (t : Task) : Bool :=
  match t.phase with
  | .spawned | .finalized (.completed _) => true
  | _ => false

/-- `marking` knows whether the row was found. -/
inductive Teardown where
  | signalling (cancelled : List Uuid)
  | removing
  | marking (found : Bool)
  | done
deriving DecidableEq, Repr

def Teardown.unmarked : Teardown → Bool
  | .signalling _ | .removing | .marking true => true
  | _ => false

inductive Resume where
  | idle
  | requeued
  | running (todo : List Uuid)
  | claimed (uuid : Uuid) (todo : List Uuid)
deriving DecidableEq, Repr

/-- A head that was requested, by its deployment, or a teardown. -/
inductive Event where
  | requested (uuid : Uuid)
  | tornDown
deriving DecidableEq, Repr

structure State where
  now : Instant
  db : Db
  row : Option PreviewRow
  tasks : List Task
  teardowns : List Teardown
  /-- Cancellations by the user that have still to be signalled. -/
  signals : List Uuid
  resume : Resume
  last : Option Event

/-- Before the pull request has a preview. -/
def start (db : Db) : State := ⟨0,db,none,[],[],[],.idle,none⟩

variable (p : Preview)

def setStatus (status : PreviewStatus) (s : State) : State :=
  { s with row := s.row.map (fun r => { r with status := status, updatedAt := s.now }) }

def setTask (i : ℕ) (t : Task) (s : State) : State := { s with tasks := s.tasks.set i t }

/-- A value sent on a channel without receiver is lost. -/
def signalCancel (k : Uuid) (s : State) : State :=
  { s with
    tasks := s.tasks.map (fun t => if t.uuid = k ∧ t.listens then { t with signalled := true } else t) }

/-! ## Starting -/

/-- The upsert of `start_preview`, under the identifier that its deployment will get. -/
def startPreview (uuid : Uuid) (headSha headRef : String) (s : State) : State :=
  match p.host with
  | none => s
  | some host =>
    if p.buildPack = "dockercompose" ∨ uuid ∈ s.db.deployments.keys ∨
        s.tasks.any (fun t => t.uuid = uuid) then s
    else { s with
      row := some ⟨headSha,headRef,"https://"++host,.queued,s.row.bind PreviewRow.deploymentUuid,s.now⟩
      tasks := s.tasks++[⟨uuid,headSha,.upserted,false⟩]
      last := some (.requested uuid) }

def Deployment.preview (headSha : String) (now : Instant) : Deployment :=
  { Deployment.new p.project p.environment (some (String.ofList (headSha.toList.take 12)))
      ("Preview PR #"++toString p.pr) now with
    logs := some ("[devforge] preview PR #"++toString p.pr++" — démarrage…\n") }

def insertPreview (t : Task) (now : Instant) (db : Db) : Db :=
  { db with deployments := db.deployments.insert t.uuid (Deployment.preview p t.headSha now) }

def finalStatus : SlotOutcome → DeployStatus
  | .cancelled => .cancelled
  | .completed ok => if ok then .success else .failed

/-- The next piece of a task; the slot of the node is granted at any moment. -/
def next (i : ℕ) (t : Task) (report : Outcome) (s : State) : State :=
  match t.phase with
  | .upserted =>
    setTask i { t with phase := .inserted } { s with db := insertPreview p t s.now s.db }
  | .inserted =>
    setTask i { t with phase := .spawned }
      { s with row := s.row.map (fun r => { r with deploymentUuid := some t.uuid }) }
  | .spawned => setTask i { t with phase := .starting } (setStatus .building s)
  | .starting =>
    if s.tasks.any Task.holdsLock then s else setTask i { t with phase := .locked } s
  | .locked => setTask i { t with phase := .registered, signalled := false } s
  | .registered =>
    let r := supersedeInProgress p.project t.uuid s.now s.db
    setTask i { t with phase := .signalling r.1 } { s with db := r.2 }
  | .signalling (v::vs) => setTask i { t with phase := .signalling vs } (signalCancel v s)
  | .signalling [] => setTask i { t with phase := .unlocked } s
  | .unlocked => setTask i { t with phase := .subscribed } s
  | .subscribed => setTask i { t with phase := if t.signalled then .left .cancelled else .waiting } s
  | .waiting => setTask i { t with phase := .holding } s
  | .holding => setTask i { t with phase := if t.signalled then .left .cancelled else .rechecked } s
  | .rechecked =>
    let r := markRunningIfActive t.uuid s.now s.db
    setTask i { t with phase := if r.1 then .building else .left .cancelled } { s with db := r.2 }
  | .building => s
  | .left outcome => setTask i { t with phase := .unregistered outcome } s
  | .unregistered outcome =>
    setTask i { t with phase := .finalized outcome }
      { s with
        db := (finalizeIfActive t.uuid { report with status := finalStatus outcome } s.now s.db).2 }
  | .finalized .cancelled => setTask i { t with phase := .finished } s
  | .finalized (.completed ok) =>
    setTask i { t with phase := .finished } (setStatus (if ok then .ready else .failed) s)
  | .finished => s

/-- The signal ends a task that waits for the slot or builds. -/
def stopped (i : ℕ) (t : Task) (s : State) : State :=
  if (t.phase = .waiting ∨ t.phase = .building) ∧ t.signalled then
    setTask i { t with phase := .left .cancelled } s
  else s

def built (i : ℕ) (t : Task) (ok : Bool) (s : State) : State :=
  if t.phase = .building then setTask i { t with phase := .left (.completed ok) } s else s

/-- The address of the preview is invalid. -/
def aborted (i : ℕ) (t : Task) (s : State) : State :=
  if t.phase = .starting then setTask i { t with phase := .unregistered (.completed false) } s else s

/-! ## Tearing down, cancelling, restarting -/

def Deployment.tornDown (reason : String) (now : Instant) (d : Deployment) : Deployment :=
  { d with
    status := .cancelled
    logs := appendLogs d.logs ("\n[devforge] preview supprimée ("++reason++")\n")
    finishedAt := some now
    updatedAt := now }

def isActivePreview (_ : Uuid) (d : Deployment) : Bool :=
  d.projectId = p.project && d.environment = p.environment && d.status.active

def teardown (reason : String) (s : State) : State :=
  { s with
    db := { s.db with
      deployments := s.db.deployments.update (isActivePreview p)
        (fun _ => Deployment.tornDown reason s.now) }
    teardowns := s.teardowns++[.signalling (s.db.deployments.affected (isActivePreview p))]
    last := some .tornDown }

def setTeardown (j : ℕ) (d : Teardown) (s : State) : State := { s with teardowns := s.teardowns.set j d }

def teardownNext (j : ℕ) (s : State) : Teardown → State
  | .signalling (v::vs) => setTeardown j (.signalling vs) (signalCancel v s)
  | .signalling [] =>
    setTeardown j .removing { s with db := releaseDeployingIfNoActive p.project s.now s.db }
  | .removing => setTeardown j (.marking s.row.isSome) s
  | .marking true => setTeardown j .done (setStatus .deleted s)
  | .marking false => setTeardown j .done s
  | .done => s

def userCancel (uuid : Uuid) (s : State) : State :=
  let r := cancelOneDeployment uuid s.now s.db
  if r.1 then { s with db := r.2, signals := s.signals++[uuid] } else s

def userSignal (s : State) : State :=
  match s.signals with
  | [] => s
  | uuid::rest => signalCancel uuid { s with signals := rest }

/-- Tasks, teardowns and channels die with the process. -/
def restart (s : State) : State := { s with tasks := [], teardowns := [], signals := [], resume := .idle }

def isPreviewEnv : Environment → Bool
  | .preview _ => true
  | _ => false

/-- One piece of the resumption of the queue; what is no preview is built elsewhere. -/
def resumeNext (s : State) : State :=
  match s.resume with
  | .idle => { s with db := requeueInterrupted s.now s.db, resume := .requeued }
  | .requeued => { s with resume := .running (listQueuedDeployments s.db) }
  | .running [] => s
  | .running (uuid::todo) =>
    let r := tryClaimDeployment uuid s.now s.db
    { s with
      db := r.2
      resume := if r.1 ∧ (r.2.deployments.get uuid).any (fun d => isPreviewEnv d.environment)
        then .claimed uuid todo else .running todo }
  | .claimed uuid todo =>
    { s with
      db := (finalizeIfActive uuid ⟨.failed,"unknown",
        "[devforge] preview interrompue par un redémarrage\n",
        some "Preview interrompue : redéploie-la depuis l’onglet Previews",none,none⟩ s.now s.db).2
      resume := .running todo }

/-! ## Runs -/

inductive Action where
  | tick (seconds : ℕ)
  | start (uuid : Uuid) (headSha headRef : String)
  | next (task : ℕ) (report : Outcome)
  | stopped (task : ℕ)
  | built (task : ℕ) (ok : Bool)
  | aborted (task : ℕ)
  | teardown (reason : String)
  | teardownNext (teardown : ℕ)
  | userCancel (uuid : Uuid)
  | userSignal
  | restart
  | resumeNext
deriving DecidableEq, Repr

def onTask (i : ℕ) (f : Task → State → State) (s : State) : State :=
  match s.tasks[i]? with
  | some t => f t s
  | none => s

def step (s : State) : Action → State
  | .tick seconds => { s with now := s.now+seconds }
  | .start uuid headSha headRef => startPreview p uuid headSha headRef s
  | .next i report => onTask i (fun t => next p i t report) s
  | .stopped i => onTask i (stopped i) s
  | .built i ok => onTask i (fun t => built i t ok) s
  | .aborted i => onTask i (aborted i) s
  | .teardown reason => teardown p reason s
  | .teardownNext j => match s.teardowns[j]? with
    | some d => teardownNext p j s d
    | none => s
  | .userCancel uuid => userCancel uuid s
  | .userSignal => userSignal s
  | .restart => restart s
  | .resumeNext => resumeNext s

def status (db : Db) (k : Uuid) : Option DeployStatus := (db.deployments.get k).map Deployment.status

/-! ## The property -/

/-- The row has the end of this deployment. -/
def Answered (s : State) (u : Uuid) : Prop :=
  ∃ r, s.row = some r ∧ ((r.status = .ready ∧ status s.db u = some .success) ∨
    (r.status = .failed ∧ status s.db u = some .failed))

def Final (s : State) : Prop :=
  match s.last with
  | none => s.row = none
  | some .tornDown => ∀ r, s.row = some r → r.status = .deleted
  | some (.requested u) => Answered s u

/-- With nothing in flight, the row is what the last event asks for. -/
def Settled (s : State) : Prop :=
  (∀ t ∈ s.tasks, t.phase = .finished) → (∀ d ∈ s.teardowns, d = .done) → Final s

/-! ## The condition -/

/-- The last event has still to write the row. -/
def pending (s : State) : Bool :=
  match s.last with
  | none => false
  | some .tornDown => s.teardowns.any Teardown.unmarked
  | some (.requested u) => s.tasks.any (fun t => t.uuid = u && t.phase ≠ .finished)

def inProgress (db : Db) (k : Uuid) : Bool := (status db k).any DeployStatus.inProgress

/-- The deployment of the last event, if it is a request. -/
def requested (s : State) : Option Uuid :=
  match s.last with
  | some (.requested u) => some u
  | _ => none

/-- A task or a teardown that is not the last event's writes the row only while the last
event has still to write it; the deployment of the last request is not superseded, cancelled
by the user or claimed by the resumption; the process restarts when the last event is done. -/
def Orderly (s : State) : Action → Prop
  | .next i _ => ∀ t ∈ s.tasks[i]?,
    (t.writes → requested s = some t.uuid ∨ pending s) ∧
    (t.phase = .registered → ∀ u ∈ requested s, u ≠ t.uuid → inProgress s.db u = false)
  | .teardownNext j => ∀ d ∈ s.teardowns[j]?, d = .marking true → s.last = some .tornDown ∨ pending s
  | .userCancel uuid => requested s = some uuid → (status s.db uuid).any DeployStatus.active = false
  | .restart => pending s = false
  | .resumeNext => match s.resume with
    | .running (uuid::_) => requested s = some uuid → status s.db uuid ≠ some .queued
    | _ => True
  | _ => True

instance (s : State) (a : Action) : Decidable (Orderly s a) := by
  unfold Orderly
  split
  all_goals first | infer_instance | (split <;> infer_instance)

end DevForge.PullPreviews
