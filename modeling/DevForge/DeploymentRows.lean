import DevForge.DeployQueue
import DevForge.Transition

/-!
# Settled deployment rows

The statements of the queue run in any order, from the build tasks, the
handlers, the boot and the reaper. The reaper reads its candidates first and
then marks them one by one, whatever happened in between.
-/

set_option autoImplicit false

namespace DevForge.DeploymentRows
open DeployQueue Transition

structure State where
  now : Instant
  db : Db
  /-- The candidates that each pass of the reaper has still to treat. -/
  reaps : List (List (Uuid × ℕ))

inductive Action where
  | tick (seconds : ℕ)
  | createDeployment (uuid : Uuid) (project : ℕ) (environment : Environment)
      (gitSha : Option String) (message : String)
  | tryClaimDeployment (uuid : Uuid)
  | noteWaitingForNode (server : String) (uuid : Uuid)
  | markRunningIfActive (uuid : Uuid)
  | setLiveLogs (uuid : Uuid) (logs : String)
  | finalizeIfActive (uuid : Uuid) (outcome : Outcome)
  | cancelOneDeployment (uuid : Uuid)
  | supersedeInProgress (project : ℕ) (keep : Uuid)
  | reapOrphans (olderThan : ℕ)
  | reapNext (pass : ℕ) (live : Bool)
  | requeueInterrupted
  | releaseDeployingIfNoActive (project : ℕ)
  | releaseOrphanProjectLocks (olderThan : ℕ)
  deriving Repr

def step (s : State) : Action → State
  | .tick seconds => { s with now := s.now+seconds }
  | .createDeployment uuid project environment gitSha message =>
    { s with db := insertQueued uuid project environment gitSha message s.now s.db }
  | .tryClaimDeployment uuid => { s with db := (DeployQueue.tryClaimDeployment uuid s.now s.db).2 }
  | .noteWaitingForNode server uuid =>
    { s with db := DeployQueue.noteWaitingForNode server uuid s.db }
  | .markRunningIfActive uuid => { s with db := (DeployQueue.markRunningIfActive uuid s.now s.db).2 }
  | .setLiveLogs uuid logs => { s with db := DeployQueue.setLiveLogs uuid logs s.now s.db }
  | .finalizeIfActive uuid outcome =>
    { s with db := (DeployQueue.finalizeIfActive uuid outcome s.now s.db).2 }
  | .cancelOneDeployment uuid => { s with db := (DeployQueue.cancelOneDeployment uuid s.now s.db).2 }
  | .supersedeInProgress project keep =>
    { s with db := (DeployQueue.supersedeInProgress project keep s.now s.db).2 }
  | .reapOrphans olderThan => { s with reaps := s.reaps++[reapCandidates (s.now-olderThan) s.db] }
  | .reapNext i live => match s.reaps[i]? with
    | some ((uuid,project)::rest) =>
      { s with db := reapOne uuid project live s.now s.db, reaps := s.reaps.set i rest }
    | _ => s
  | .requeueInterrupted => { s with db := DeployQueue.requeueInterrupted s.now s.db }
  | .releaseDeployingIfNoActive project =>
    { s with db := DeployQueue.releaseDeployingIfNoActive project s.now s.db }
  | .releaseOrphanProjectLocks olderThan =>
    { s with db := DeployQueue.releaseOrphanProjectLocks (s.now-olderThan) s.now s.db }

/-- Every step passes by the rows that are not active. -/
theorem step_change (s : State) (a : Action) : ∃ ks, Change s.db (step s a).db ks := by
  cases a with
  | tick seconds => exact ⟨[],Change.same _ _ rfl _⟩
  | createDeployment uuid project environment gitSha message =>
    exact ⟨_,insertQueued_change uuid project environment gitSha message s.now s.db⟩
  | tryClaimDeployment uuid => exact ⟨_,tryClaimDeployment_change uuid s.now s.db⟩
  | noteWaitingForNode server uuid => exact ⟨_,noteWaitingForNode_change server uuid s.db⟩
  | markRunningIfActive uuid => exact ⟨_,markRunningIfActive_change uuid s.now s.db⟩
  | setLiveLogs uuid logs => exact ⟨_,setLiveLogs_change uuid logs s.now s.db⟩
  | finalizeIfActive uuid outcome => 
    exact ⟨[uuid],finalizeIfActive_change uuid outcome s.now s.db _ (fun _ => by simp)⟩
  | cancelOneDeployment uuid => exact ⟨_,cancelOneDeployment_change uuid s.now s.db⟩
  | supersedeInProgress project keep => exact ⟨_,supersedeInProgress_change project keep s.now s.db⟩
  | reapOrphans olderThan => exact ⟨[],Change.same _ _ rfl _⟩
  | reapNext i live =>
    simp only [step]
    split
    · exact ⟨_,reapOne_change _ _ live s.now s.db⟩
    · exact ⟨[],Change.same _ _ rfl _⟩
  | requeueInterrupted => exact ⟨_,requeueInterrupted_change s.now s.db⟩
  | releaseDeployingIfNoActive project => exact ⟨_,settleProjects_change _ s.now s.db⟩
  | releaseOrphanProjectLocks olderThan => exact ⟨_,settleProjects_change _ s.now s.db⟩

theorem step_inactive (k : Uuid) (d : Deployment) (ha : d.status.active = false) (s : State)
    (a : Action) (hd : s.db.deployments.get k = some d) :
    (step s a).db.deployments.get k = some d := by
  obtain ⟨ks,hc⟩ := step_change s a
  obtain ⟨d',hd',_,_,hsame⟩ := hc.row k d hd
  exact hsame ha ▸ hd'

/-- A row that is not active never changes again. -/
theorem run_inactive (k : Uuid) (d : Deployment) (ha : d.status.active = false)
    (acts : List Action) (s : State) (hd : s.db.deployments.get k = some d) :
    (run step acts s).db.deployments.get k = some d :=
  invariant step (fun s => s.db.deployments.get k = some d)
    (fun s a => step_inactive k d ha s a) acts s hd

/-- From any state, over any run: a row that is success, failed or cancelled
keeps its status and its logs. -/
theorem settled_row_write_once (s : State) (acts : List Action) (k : Uuid) (d : Deployment)
    (hd : s.db.deployments.get k = some d) (hs : d.status.settled) :
    ∃ d', (run step acts s).db.deployments.get k = some d' ∧ d'.status = d.status ∧
      d'.logs = d.logs :=
  ⟨d,run_inactive k d (DeployStatus.settled_inactive hs) acts s hd,rfl,rfl⟩

/-- A production deployment superseded before its build ended. -/
def superseded : State :=
  run step [.createDeployment 1 7 .production none "a",.tryClaimDeployment 1,
      .createDeployment 2 7 .production none "b",.supersedeInProgress 7 2]
    ⟨0,⟨Table.empty,Table.empty⟩,[]⟩

def supersededRow : Deployment :=
  ((Deployment.new 7 .production none "a" 0).started 0).superseded 2 0

theorem superseded_stays_cancelled :
    superseded.db.deployments.get 1 = some supersededRow ∧
    ∃ d', (run step [.finalizeIfActive 1 ⟨.success,"","",none,none,none⟩,.requeueInterrupted]
        superseded).db.deployments.get 1 = some d' ∧
      d'.status = supersededRow.status ∧ d'.logs = supersededRow.logs :=
  have hd : superseded.db.deployments.get 1 = some supersededRow := rfl
  ⟨hd,settled_row_write_once superseded _ 1 supersededRow hd rfl⟩

end DevForge.DeploymentRows
