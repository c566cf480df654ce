import DevForge.DeployQueue
import DevForge.Transition

/-!
# Concurrent starts of deployments

The task of a start takes the lock of its project, registers its channel,
supersedes and signals, then goes through the slot of its node, builds and
finalizes. Users cancel, and the process restarts and resumes its queue. The
history keeps what each supersede cancelled. Projects are not deleted.
-/

set_option autoImplicit false

namespace DevForge.DeploymentStarts
open DeployQueue Transition

inductive SlotOutcome where
  | cancelled
  | completed (ok : Bool)
  deriving DecidableEq, Repr

inductive Phase where
  | spawned
  | locked
  | registered
  | signalling (superseded : List Uuid)
  | unlocked
  | subscribed
  | waiting
  | holding
  | rechecked
  | building
  | left (outcome : SlotOutcome)
  | unregistered (outcome : SlotOutcome)
  | finished
  deriving DecidableEq, Repr

structure Start where
  uuid : Uuid
  project : ℕ
  environment : Environment
  server : String
  resumed : Bool
  phase : Phase
  /-- The cancellation receiver that the task holds. -/
  rx : Option ℕ
  deriving DecidableEq, Repr

def Start.holdsLock (t : Start) : Bool :=
  match t.phase with
  | .locked | .registered | .signalling _ => true
  | _ => false

def Start.holdsSlot (t : Start) : Bool :=
  match t.phase with
  | .holding | .rechecked | .building => true
  | _ => false

/-- Between `register_cancel` and `unregister_cancel`. -/
def Start.isRegistered (t : Start) : Bool :=
  match t.phase with
  | .spawned | .locked | .unregistered _ | .finished => false
  | _ => true

/-- Past its supersede. -/
def Start.gone (t : Start) : Bool :=
  match t.phase with
  | .spawned | .locked | .registered => false
  | _ => true

inductive Resume where
  | idle
  | requeued
  | running (todo : List Uuid) (current : Option ℕ)
  deriving DecidableEq, Repr

/-- What one call of `supersede_in_progress` did. -/
structure Superseding where
  keep : Uuid
  keepStatus : Option DeployStatus
  superseded : List Uuid
  deriving DecidableEq, Repr

structure State where
  now : Instant
  db : Db
  cancels : Cancels
  nextChannel : ℕ
  starts : List Start
  /-- Cancellations by the user that have still to be signalled. -/
  signals : List Uuid
  resume : Resume
  supersedings : List Superseding
  userCancelled : List Uuid

def start (projects : Table ℕ Project) : State :=
  ⟨0,⟨Table.empty,projects⟩,⟨[],[]⟩,0,[],[],.idle,[],[]⟩

def status (s : State) (k : Uuid) : Option DeployStatus :=
  (s.db.deployments.get k).map Deployment.status

/-- The rank of a deployment in the order of creation. -/
def age (s : State) (k : Uuid) : ℕ := s.db.deployments.keys.idxOf k

def heard (s : State) (channel : ℕ) : Bool := s.starts.any (fun t => t.rx = some channel)

def signalCancel (k : Uuid) (s : State) : State :=
  { s with cancels := s.cancels.signal (heard s) k }

def setStart (i : ℕ) (t : Start) (s : State) : State := { s with starts := s.starts.set i t }

/-- `register_cancel`; only the path of production keeps its receiver here. -/
def register (i : ℕ) (t : Start) (s : State) : State :=
  setStart i
    { t with
      phase := .registered
      rx := if t.environment = .production then some s.nextChannel else none }
    { s with
      cancels := s.cancels.register (heard s) t.uuid s.nextChannel
      nextChannel := s.nextChannel+1 }

def supersede (i : ℕ) (t : Start) (s : State) : State :=
  let r := supersedeInProgress t.project t.uuid s.now s.db
  setStart i { t with phase := .signalling r.1 }
    { s with
      db := r.2
      supersedings := s.supersedings++[⟨t.uuid,status s t.uuid,r.1⟩] }

/-- Leaves the slot, whatever the phase. -/
def leave (i : ℕ) (t : Start) (outcome : SlotOutcome) (s : State) : State :=
  setStart i { t with phase := .left outcome, rx := none } s

def slotBusy (s : State) (server : String) : Bool :=
  s.starts.any (fun t => t.holdsSlot && slotKey t.server = slotKey server)

/-- A cancelled deployment is finalized by the paths that do not find its row
already `cancelled` by construction. -/
def finalizeStart (t : Start) (outcome : SlotOutcome) (report : Outcome) (now : Instant) (db : Db) :
    Db :=
  match outcome with
  | .cancelled =>
    if t.resumed ∧ t.environment = .production then db
    else (finalizeIfActive t.uuid { report with
        status := .cancelled
        errorSummary := match t.environment with
          | .production => some "Annulé : un déploiement plus récent a été lancé"
          | .dev => some "Annulé : un déploiement dev plus récent a été lancé"
          | .preview _ => none } now db).2
  | .completed ok =>
    let r := finalizeIfActive t.uuid
      { report with status := if ok then .success else .failed } now db
    if t.environment = .production ∧ (!t.resumed ∨ r.1) then
      setProjectStatus (fun k _ => k = t.project) (if ok then .live else .failed) now r.2
    else r.2

/-- The next piece of a start; a piece that has to wait leaves the state. -/
def next (i : ℕ) (t : Start) (report : Outcome) (s : State) : State :=
  match t.phase with
  | .spawned =>
    if s.starts.any (fun u => u.holdsLock && u.project = t.project) then s
    else setStart i { t with phase := .locked } s
  | .locked => register i t s
  | .registered => supersede i t s
  | .signalling (v::vs) => setStart i { t with phase := .signalling vs } (signalCancel v s)
  | .signalling [] => setStart i { t with phase := .unlocked, rx := none } s
  | .unlocked => setStart i { t with phase := .subscribed, rx := s.cancels.sender t.uuid } s
  | .subscribed =>
    if s.cancels.isCancelled t.uuid || t.rx.any (· ∈ s.cancels.raised) then leave i t .cancelled s
    else setStart i { t with phase := .waiting }
      (if slotBusy s t.server then { s with db := noteWaitingForNode t.server t.uuid s.db } else s)
  | .waiting => if slotBusy s t.server then s else setStart i { t with phase := .holding } s
  | .holding =>
    if s.cancels.isCancelled t.uuid then leave i t .cancelled s
    else setStart i { t with phase := .rechecked } s
  | .rechecked =>
    let r := markRunningIfActive t.uuid s.now s.db
    if r.1 then setStart i { t with phase := .building } { s with db := r.2 }
    else leave i t .cancelled { s with db := r.2 }
  | .building => s
  | .left outcome =>
    setStart i { t with phase := .unregistered outcome }
      { s with cancels := s.cancels.unregister t.uuid }
  | .unregistered outcome =>
    setStart i { t with phase := .finished }
      { s with db := finalizeStart t outcome report s.now s.db }
  | .finished => s

/-- The receiver stops a start that waits for the slot or builds. -/
def stopped (i : ℕ) (t : Start) (s : State) : State :=
  if (t.phase = .waiting ∨ t.phase = .building) ∧ t.rx.any s.cancels.stops then
    leave i t .cancelled s
  else s

def built (i : ℕ) (t : Start) (ok : Bool) (s : State) : State :=
  if t.phase = .building then leave i t (.completed ok) s else s

/-- The paths of other environments may fail before they take the lock. -/
def aborted (i : ℕ) (t : Start) (s : State) : State :=
  if t.phase = .spawned ∧ t.environment ≠ .production then
    setStart i { t with phase := .unregistered (.completed false) } s
  else s

def create (uuid : Uuid) (project : ℕ) (environment : Environment) (server : String)
    (gitSha : Option String) (message : String) (s : State) : State :=
  if uuid ∈ s.db.deployments.keys ∨ (s.db.projects.get project).isNone then s
  else { s with
    db := setProjectStatus (fun k _ => k = project && environment = .production) .deploying s.now
      (insertQueued uuid project environment gitSha message s.now s.db)
    starts := s.starts++[⟨uuid,project,environment,server,false,.spawned,none⟩] }

def userCancel (uuid : Uuid) (s : State) : State :=
  let r := cancelOneDeployment uuid s.now s.db
  if r.1 then { s with
    db := r.2
    signals := s.signals++[uuid]
    userCancelled := s.userCancelled++[uuid] }
  else s

/-- Tasks, locks and channels die with the process; rows stay. -/
def restart (s : State) : State :=
  { s with cancels := ⟨[],[]⟩, starts := [], signals := [], resume := .idle }

/-- The claim of the next queued deployment, and its start. -/
def claimNext (uuid : Uuid) (todo : List Uuid) (server : String) (s : State) : State :=
  let r := tryClaimDeployment uuid s.now s.db
  match r.1, r.2.deployments.get uuid with
  | true, some d =>
    match d.environment with
    | .preview _ => { s with
        db := (finalizeIfActive uuid ⟨.failed,"unknown",
          "[devforge] preview interrompue par un redémarrage\n",
          some "Preview interrompue : redéploie-la depuis l’onglet Previews",none,none⟩ s.now r.2).2
        resume := .running todo none }
    | environment => { s with
        db := r.2
        starts := s.starts++[⟨uuid,d.projectId,environment,server,true,.spawned,none⟩]
        resume := .running todo (some s.starts.length) }
  | _, _ => { s with db := r.2, resume := .running todo none }

/-- One piece of `resume_deploy_queue`; its starts follow one another. -/
def resumeNext (server : String) (s : State) : State :=
  match s.resume with
  | .idle => { s with db := requeueInterrupted s.now s.db, resume := .requeued }
  | .requeued => { s with resume := .running (listQueuedDeployments s.db) none }
  | .running todo current =>
    if current.all (fun i => (s.starts[i]?).all (fun t => t.phase = .finished)) then
      match todo with
      | [] => s
      | uuid::todo => claimNext uuid todo server s
    else s

inductive Action where
  | tick (seconds : ℕ)
  | create (uuid : Uuid) (project : ℕ) (environment : Environment) (server : String)
      (gitSha : Option String) (message : String)
  | next (start : ℕ) (report : Outcome)
  | stopped (start : ℕ)
  | built (start : ℕ) (ok : Bool)
  | aborted (start : ℕ)
  | userCancel (uuid : Uuid)
  | userSignal
  | restart
  | resumeNext (server : String)
  deriving DecidableEq, Repr

def onStart (i : ℕ) (f : Start → State → State) (s : State) : State :=
  match s.starts[i]? with
  | some t => f t s
  | none => s

def step (s : State) : Action → State
  | .tick seconds => { s with now := s.now+seconds }
  | .create uuid project environment server gitSha message =>
    create uuid project environment server gitSha message s
  | .next i report => onStart i (fun t => next i t report) s
  | .stopped i => onStart i (stopped i) s
  | .built i ok => onStart i (fun t => built i t ok) s
  | .aborted i => onStart i (aborted i) s
  | .userCancel uuid => userCancel uuid s
  | .userSignal => match s.signals with
    | [] => s
    | uuid::rest => signalCancel uuid { s with signals := rest }
  | .restart => restart s
  | .resumeNext server => resumeNext server s

/-- A deployment is only superseded by one created after it. -/
def SupersededByNewer (s : State) : Prop :=
  ∀ e ∈ s.supersedings, ∀ k ∈ e.superseded, age s k < age s e.keep

/-- A cancelled deployment cancels no other. -/
def CancelledCancelsNone (s : State) : Prop :=
  ∀ e ∈ s.supersedings, e.keepStatus = some .cancelled → e.superseded = []

/-- When all starts have gone through their supersede, the newest deployment
of a project and environment that the user did not cancel is not cancelled. -/
def NewestSurvives (s : State) : Prop :=
  (∀ t ∈ s.starts, t.gone) → ∀ k d, s.db.deployments.get k = some d → k ∉ s.userCancelled →
    (∀ k' d', s.db.deployments.get k' = some d' → d'.projectId = d.projectId →
      d'.environment = d.environment → age s k < age s k' → k' ∈ s.userCancelled) →
    d.status ≠ .cancelled

def StartsFair (s : State) : Prop :=
  SupersededByNewer s ∧ CancelledCancelsNone s ∧ NewestSurvives s

instance (s : State) : Decidable (SupersededByNewer s) := by unfold SupersededByNewer; infer_instance

/-- The other deployments in progress in the project and environment of a start
are older, and there are none if its own row is cancelled. -/
def SupersedesOlder (s : State) (t : Start) : Prop :=
  ∀ e ∈ s.db.deployments.rows, (e.1 ≠ t.uuid ∧ e.2.projectId = t.project ∧
    e.2.environment = t.environment ∧ e.2.status.inProgress) →
      age s e.1 < age s t.uuid ∧ status s t.uuid ≠ some .cancelled

instance (s : State) (t : Start) : Decidable (SupersedesOlder s t) := by
  unfold SupersedesOlder
  infer_instance

/-- A start that is about to supersede finds only older deployments; the user
cancels no deployment that has superseded another; the resumption claims no
queued deployment that a start holds already. -/
def Orderly (s : State) : Action → Prop
  | .next i _ => ∀ t ∈ s.starts[i]?, t.phase = .registered → SupersedesOlder s t
  | .userCancel uuid => ∀ e ∈ s.supersedings, e.keep = uuid → e.superseded = []
  | .resumeNext _ => ∀ uuid ∈ (match s.resume with
      | .running todo _ => todo.head?
      | _ => none), status s uuid = some .queued →
        ∀ t ∈ s.starts, t.uuid = uuid → t.phase = .finished
  | _ => True

instance (s : State) (a : Action) : Decidable (Orderly s a) := by
  unfold Orderly
  split <;> infer_instance

end DevForge.DeploymentStarts
