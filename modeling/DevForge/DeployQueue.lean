import DevForge.Sql
import DevForge.Table
import Mathlib.Data.List.Sort

/-!
# The deployment queue

Rows of `deployments` and `projects` with the SQL statements of the queue,
and the registry of cancellation channels that the process keeps in memory.
-/

set_option autoImplicit false

namespace DevForge.DeployQueue

inductive DeployStatus where
  | queued
  | running
  | building
  | pending
  | deploying
  | success
  | deployed
  | ok
  | failed
  | error
  | cancelled
  deriving DecidableEq, Repr

/-- `status IN ('queued', 'running', 'building')`. -/
def DeployStatus.inProgress : DeployStatus → Bool
  | .queued | .running | .building => true
  | _ => false

/-- `status IN ('queued', 'running', 'building', 'pending', 'deploying')`. -/
def DeployStatus.active : DeployStatus → Bool
  | .queued | .running | .building | .pending | .deploying => true
  | _ => false

def DeployStatus.succeeded : DeployStatus → Bool
  | .success | .deployed | .ok => true
  | _ => false

/-- What `finalize_if_active` and the cancellations leave behind. -/
def DeployStatus.settled : DeployStatus → Bool
  | .success | .failed | .cancelled => true
  | _ => false

inductive Environment where
  | production
  | dev
  | preview (pr : ℕ)
  deriving DecidableEq, Repr

def Environment.name : Environment → String
  | .production => "production"
  | .dev => "dev"
  | .preview pr => "preview-"++toString pr

structure Deployment where
  projectId : ℕ
  environment : Environment
  status : DeployStatus
  gitSha : String
  gitMessage : String
  logs : Option String
  errorSummary : Option String
  errorHint : Option String
  liveRevisionSha : Option String
  finishedAt : Option Instant
  dismissedAt : Option String
  createdAt : Instant
  updatedAt : Instant
  deriving DecidableEq, Repr

inductive ProjectStatus where
  | idle
  | deploying
  | live
  | failed
  deriving DecidableEq, Repr

structure Project where
  name : String
  serverId : Option String
  status : ProjectStatus
  updatedAt : Option Instant
  deriving DecidableEq, Repr

structure Db where
  deployments : Table Uuid Deployment
  projects : Table ℕ Project

def slotKey (serverId : String) : String :=
  let trimmed := trim serverId
  if trimmed = "" then "default" else trimmed

def Deployment.new (project : ℕ) (environment : Environment) (gitSha : Option String)
    (message : String) (now : Instant) : Deployment :=
  ⟨project,environment,.queued,gitSha.getD "pending",message,some "[devforge] starting…\n",
    none,none,none,none,none,now,now⟩

/-- The INSERT of a start. -/
def insertQueued (uuid : Uuid) (project : ℕ) (environment : Environment) (gitSha : Option String)
    (message : String) (now : Instant) (db : Db) : Db :=
  { db with
    deployments := db.deployments.insert uuid (.new project environment gitSha message now) }

def setProjectStatus (p : ℕ → Project → Bool) (status : ProjectStatus) (now : Instant) (db : Db) :
    Db :=
  { db with
    projects := db.projects.update p
      (fun _ r => { r with status := status, updatedAt := some now }) }

def countDeployments (p : Deployment → Bool) (db : Db) : ℕ := db.deployments.rows.countP (fun e => p e.2)

def Deployment.superseded (keep : Uuid) (now : Instant) (d : Deployment) : Deployment :=
  { d with
    status := .cancelled
    logs := appendLogs d.logs
      ("\n[devforge] Déploiement annulé : remplacé par "++toString keep++"\n")
    errorSummary := coalesce d.errorSummary
      (some "Annulé : un déploiement plus récent a été lancé")
    finishedAt := some now
    updatedAt := now }

/-- The environment of the deployment to keep, production by default. -/
def keptEnvironment (keep : Uuid) (db : Db) : Environment :=
  ((db.deployments.get keep).map Deployment.environment).getD .production

def supersedes (project : ℕ) (keep : Uuid) (db : Db) (k : Uuid) (d : Deployment) : Bool :=
  d.projectId = project && k ≠ keep && d.status.inProgress && d.environment = keptEnvironment keep db

/-- UPDATE of `supersede_in_progress`, with the rows it returns. -/
def supersedeInProgress (project : ℕ) (keep : Uuid) (now : Instant) (db : Db) : List Uuid × Db :=
  (db.deployments.affected (supersedes project keep db),
   { db with
     deployments := db.deployments.update (supersedes project keep db)
       (fun _ => .superseded keep now) })

def Deployment.cancelledByUser (now : Instant) (d : Deployment) : Deployment :=
  { d with
    status := .cancelled
    logs := appendLogs d.logs "\n[devforge] Déploiement annulé par l'utilisateur\n"
    errorSummary := coalesce d.errorSummary (some "Annulé par l'utilisateur")
    finishedAt := some now
    updatedAt := now }

def Deployment.openFailure (d : Deployment) : Bool :=
  (d.status = .failed || d.status = .error) && d.dismissedAt.all (· = "")

/-- The status of a project with no active deployment (`SETTLED_STATUS_SQL`). -/
def settledStatus (project : ℕ) (db : Db) : ProjectStatus :=
  let production (p : Deployment → Bool) := 0 < countDeployments
    (fun d => d.projectId = project && d.environment = .production && p d) db
  if production (·.status.succeeded) then .live
  else if production Deployment.openFailure then .failed
  else .idle

def recomputeProjectStatusAfterDeployChange (project : ℕ) (now : Instant) (db : Db) : Db :=
  let activeInProduction := 0 < countDeployments
    (fun d => d.projectId = project && d.environment = .production && d.status.active) db
  setProjectStatus (fun k _ => k = project)
    (if activeInProduction then .deploying else settledStatus project db) now db

/-- The UPDATE of `cancel_one_deployment`, then the status of its project. -/
def cancelOneDeployment (uuid : Uuid) (now : Instant) (db : Db) : Bool × Db :=
  match (db.deployments.get uuid).filter (·.status.active) with
  | none => (false,db)
  | some d => (true,recomputeProjectStatusAfterDeployChange d.projectId now
      { db with
        deployments := db.deployments.update (fun k d => k = uuid && d.status.active)
          (fun _ => .cancelledByUser now) })

/-- The deployment that holds this node: project, environment, uuid. -/
def slotHolder (server : String) (uuid : Uuid) (db : Db) : Option (String × String × Uuid) :=
  let holders := db.deployments.rows.filter (fun e =>
    (e.2.status = .running || e.2.status = .building) && e.1 ≠ uuid &&
      (db.projects.get e.2.projectId).any (fun p =>
        ((p.serverId.map sqlTrim).bind nullIfEmpty).getD "default" = slotKey server))
  let latest := holders.foldl (fun best e =>
    if best.all (fun b => b.2.updatedAt < e.2.updatedAt) then some e else best) none
  latest.bind (fun e => (db.projects.get e.2.projectId).map (fun p =>
    (p.name,e.2.environment.name,e.1)))

def waitingNote (server : String) : Option (String × String × Uuid) → String
  | some (name,env,uuid) =>
    "[devforge] en attente du nœud « "++server++" » : occupé par "++name++" ("++env++", "++
      String.ofList ((toString uuid).toList.take 8)++") — un seul build à la fois par nœud.\n"
  | none =>
    "[devforge] en attente du nœud « "++server++
      " » : un autre déploiement est en cours — un seul build à la fois par nœud.\n"

def noteWaitingForNode (server : String) (uuid : Uuid) (db : Db) : Db :=
  let note := waitingNote (slotKey server) (slotHolder server uuid db)
  { db with
    deployments := db.deployments.update (fun k d => k = uuid && d.status = .queued)
      (fun _ d => { d with logs := appendLogs d.logs note }) }

def Deployment.started (now : Instant) (d : Deployment) : Deployment :=
  { d with status := .running, updatedAt := now }

def markRunningIfActive (uuid : Uuid) (now : Instant) (db : Db) : Bool × Db :=
  ((db.deployments.get uuid).any (·.status.inProgress),
   { db with
     deployments := db.deployments.update (fun k d => k = uuid && d.status.inProgress)
       (fun _ => .started now) })

/-- Nothing once the deployment is terminal. -/
def setLiveLogs (uuid : Uuid) (logs : String) (now : Instant) (db : Db) : Db :=
  { db with
    deployments := db.deployments.update (fun k d => k = uuid && d.status.active)
      (fun _ d => { d with logs := some logs, updatedAt := now }) }

structure Outcome where
  status : DeployStatus
  gitSha : String
  logs : String
  errorSummary : Option String
  errorHint : Option String
  liveRevisionSha : Option String
  deriving DecidableEq, Repr

def Deployment.finalized (o : Outcome) (now : Instant) (d : Deployment) : Deployment :=
  { d with
    status := o.status
    gitSha := o.gitSha
    logs := some o.logs
    errorSummary := coalesce o.errorSummary d.errorSummary
    errorHint := coalesce o.errorHint d.errorHint
    liveRevisionSha := coalesce o.liveRevisionSha d.liveRevisionSha
    finishedAt := some now
    updatedAt := now }

/-- Persists the outcome only if the deployment was not superseded. -/
def finalizeIfActive (uuid : Uuid) (o : Outcome) (now : Instant) (db : Db) : Bool × Db :=
  ((db.deployments.get uuid).any (·.status.inProgress),
   { db with
     deployments := db.deployments.update (fun k d => k = uuid && d.status.inProgress)
       (fun _ => .finalized o now) })

/-- The SELECT of `reap_orphans`. -/
def reapCandidates (cutoff : Instant) (db : Db) : List (Uuid × ℕ) :=
  (db.deployments.rows.filter (fun e => e.2.status.inProgress && e.2.updatedAt < cutoff)).map
    (fun e => (e.1,e.2.projectId))

def Deployment.reaped (now : Instant) (d : Deployment) : Deployment :=
  { d with
    status := .failed
    logs := appendLogs d.logs
      "\n[devforge] déploiement interrompu (aucune tâche active) — marqué en échec.\n"
    errorSummary := coalesce d.errorSummary
      (some "Déploiement interrompu : aucune tâche active")
    finishedAt := some now
    updatedAt := now }

/-- One round of the loop of `reap_orphans`; `live` answers `has_live_task`. -/
def reapOne (uuid : Uuid) (project : ℕ) (live : Bool) (now : Instant) (db : Db) : Db :=
  if live || !(db.deployments.get uuid).any (·.status.inProgress) then db else
    let db := { db with
      deployments := db.deployments.update (fun k d => k = uuid && d.status.inProgress)
        (fun _ => .reaped now) }
    let count (p : Deployment → Bool) := countDeployments
      (fun d => d.projectId = project && d.environment = .production && p d) db
    setProjectStatus (fun k p => k = project && p.status = .deploying && count (·.status.inProgress) = 0)
      (if 0 < count (·.status = .success) then .live else .failed) now db

def Deployment.requeued (now : Instant) (d : Deployment) : Deployment :=
  { d with
    status := .queued
    logs := appendLogs d.logs "\n[devforge] repris après un redémarrage.\n"
    finishedAt := none
    updatedAt := now }

def requeueInterrupted (now : Instant) (db : Db) : Db :=
  { db with
    deployments := db.deployments.update
      (fun _ d => d.status = .running || d.status = .building) (fun _ => .requeued now) }

/-- `NO_ACTIVE_DEPLOYMENT_SQL`, over every environment. -/
def noActiveDeployment (project : ℕ) (db : Db) : Bool :=
  countDeployments (fun d => d.projectId = project && d.status.active) db = 0

def settleProjects (p : ℕ → Project → Bool) (now : Instant) (db : Db) : Db :=
  { db with
    projects := db.projects.update
      (fun k r => p k r && r.status = .deploying && noActiveDeployment k db)
      (fun k r => { r with status := settledStatus k db, updatedAt := some now }) }

def releaseDeployingIfNoActive (project : ℕ) (now : Instant) (db : Db) : Db :=
  settleProjects (fun k _ => k = project) now db

def releaseOrphanProjectLocks (cutoff now : Instant) (db : Db) : Db :=
  settleProjects (fun _ r => r.updatedAt.all (· < cutoff)) now db

/-- One process wins a `queued` row. -/
def tryClaimDeployment (uuid : Uuid) (now : Instant) (db : Db) : Bool × Db :=
  ((db.deployments.get uuid).any (·.status = .queued),
   { db with
     deployments := db.deployments.update (fun k d => k = uuid && d.status = .queued)
       (fun _ => .started now) })

/-- Queued rows by creation, then by uuid. -/
def listQueuedDeployments (db : Db) : List Uuid :=
  ((db.deployments.rows.filter (·.2.status = .queued)).insertionSort (fun a b =>
    a.2.createdAt < b.2.createdAt ∨ a.2.createdAt = b.2.createdAt ∧ a.1 ≤ b.1)).map Prod.fst

/-- The cancellation channels of the process: the sender registered for a
deployment, and the channels on which `true` was sent. -/
structure Cancels where
  senders : List (Uuid × ℕ)
  raised : List ℕ

namespace Cancels

def sender (c : Cancels) (uuid : Uuid) : Option ℕ := c.senders.lookup uuid

/-- A sent value is kept only while the channel has a receiver. -/
def send (heard : ℕ → Bool) (channel : ℕ) (c : Cancels) : Cancels :=
  if heard channel then { c with raised := channel::c.raised } else c

def signal (heard : ℕ → Bool) (uuid : Uuid) (c : Cancels) : Cancels :=
  match c.sender uuid with
  | none => c
  | some channel => c.send heard channel

def unregister (uuid : Uuid) (c : Cancels) : Cancels :=
  { c with senders := c.senders.filter (·.1 ≠ uuid) }

/-- A sender that was registered before is told to cancel, and dropped. -/
def register (heard : ℕ → Bool) (uuid : Uuid) (channel : ℕ) (c : Cancels) : Cancels :=
  let old := (c.signal heard uuid).unregister uuid
  { old with senders := (uuid,channel)::old.senders }

def isCancelled (c : Cancels) (uuid : Uuid) : Bool := (c.sender uuid).any (· ∈ c.raised)

/-- A receiver sees `true`, or its sender dropped. -/
def stops (c : Cancels) (channel : ℕ) : Bool :=
  channel ∈ c.raised || channel ∉ c.senders.map Prod.snd

end Cancels

theorem DeployStatus.settled_inactive {status : DeployStatus} (h : status.settled) :
    status.active = false := by
  cases status <;> simp_all [active, settled]

/-- What a statement may do to the rows: it keeps their project and their
environment, passes by those that are not active, and cancels at most `ks`. -/
structure Change (db db' : Db) (ks : List Uuid) : Prop where
  keys : db.deployments.keys <+: db'.deployments.keys
  row : ∀ k d, db.deployments.get k = some d → ∃ d', db'.deployments.get k = some d' ∧
    d'.projectId = d.projectId ∧ d'.environment = d.environment ∧ (d.status.active = false → d' = d)
  cancels : ∀ k d', db'.deployments.get k = some d' → d'.status = .cancelled →
    k ∈ ks ∨ db.deployments.get k = some d'

theorem Change.same (db db' : Db) (h : db'.deployments = db.deployments) (ks : List Uuid) :
    Change db db' ks where
  keys := h ▸ List.prefix_refl _
  row k d hd := ⟨d,by rw [h]; exact hd,rfl,rfl,fun _ => rfl⟩
  cancels k d' hd' _ := Or.inr (by rw [← h]; exact hd')

theorem Change.of_deployments {db db' db'' : Db} {ks : List Uuid} (hc : Change db db' ks)
    (h : db''.deployments = db'.deployments) : Change db db'' ks where
  keys := h ▸ hc.keys
  row := h ▸ hc.row
  cancels := h ▸ hc.cancels

/-- The rule for an UPDATE whose condition asks for an active row. -/
theorem update_change (db : Db) (p : Uuid → Deployment → Bool) (f : Uuid → Deployment → Deployment)
    (ks : List Uuid) (hp : ∀ k d, db.deployments.get k = some d → p k d → d.status.active)
    (hf : ∀ k d, (f k d).projectId = d.projectId ∧ (f k d).environment = d.environment)
    (hc : ∀ k d, db.deployments.get k = some d → p k d → (f k d).status = .cancelled → k ∈ ks) :
    Change db { db with deployments := db.deployments.update p f } ks where
  keys := (db.deployments.update_keys p f).symm ▸ List.prefix_refl _
  row k d hd := by
    have hget : (db.deployments.update p f).get k = some (if p k d then f k d else d) := by
      rw [Table.get_update, hd]
      rfl
    refine ⟨_,hget,?_⟩
    cases h : p k d with
    | false => simp
    | true =>
      simp only [if_true]
      refine ⟨(hf k d).1,(hf k d).2,fun ha => ?_⟩
      simp [hp k d hd h] at ha
  cancels k d' hd' hs := by
    simp only [Table.get_update, Option.map_eq_some_iff] at hd'
    obtain ⟨d,hd,he⟩ := hd'
    cases h : p k d with
    | false =>
      simp only [h, Bool.false_eq_true, if_false] at he
      exact Or.inr (he ▸ hd)
    | true =>
      simp only [h, if_true] at he
      exact Or.inl (hc k d hd h (he ▸ hs))

theorem insertQueued_change (uuid : Uuid) (project : ℕ) (environment : Environment)
    (gitSha : Option String) (message : String) (now : Instant) (db : Db) :
    Change db (insertQueued uuid project environment gitSha message now db) [] where
  keys := by
    by_cases hk : uuid ∈ db.deployments.keys
    · simp [insertQueued, Table.insert, hk]
    · simp only [insertQueued, Table.keys]
      rw [Table.insert_rows _ _ _ hk, List.map_append]
      exact List.prefix_append _ _
  row k d hd := by
    have hk : k ∈ db.deployments.keys := by
      by_contra hn
      simp [(Table.get_none_iff db.deployments k).mpr hn] at hd
    refine ⟨d,?_,rfl,rfl,fun _ => rfl⟩
    simp only [insertQueued, Table.get_insert]
    split
    · rename_i h
      exact absurd (h.1 ▸ hk) h.2
    · exact hd
  cancels k d' hd' hs := by
    simp only [insertQueued, Table.get_insert] at hd'
    split at hd'
    · rw [← Option.some.inj hd'] at hs
      simp [Deployment.new] at hs
    · exact Or.inr hd'

theorem inProgress_active {status : DeployStatus} (h : status.inProgress) : status.active := by
  cases status <;> simp_all [DeployStatus.active, DeployStatus.inProgress]

theorem supersedeInProgress_change (project : ℕ) (keep : Uuid) (now : Instant) (db : Db) :
    Change db (supersedeInProgress project keep now db).2 (supersedeInProgress project keep now db).1 :=
  update_change db _ _ _ (fun _ d _ h => by
      simp only [supersedes, Bool.and_eq_true] at h
      exact inProgress_active h.1.2)
    (fun _ _ => ⟨rfl,rfl⟩) (fun k d hd h _ => (Table.mem_affected_iff _ _ k).mpr ⟨d,hd,h⟩)

theorem cancelOneDeployment_change (uuid : Uuid) (now : Instant) (db : Db) :
    Change db (cancelOneDeployment uuid now db).2 [uuid] := by
  unfold cancelOneDeployment
  split
  · exact Change.same _ _ rfl _
  · refine Change.of_deployments (update_change db (fun k d => k = uuid && d.status.active)
      (fun _ => .cancelledByUser now) [uuid] (fun _ _ _ h => ?_) (fun _ _ => ⟨rfl,rfl⟩)
      (fun k _ _ h _ => ?_)) rfl
    · simp only [Bool.and_eq_true] at h
      exact h.2
    · simp only [Bool.and_eq_true, decide_eq_true_eq] at h
      simp [h.1]

theorem noteWaitingForNode_change (server : String) (uuid : Uuid) (db : Db) :
    Change db (noteWaitingForNode server uuid db) [] :=
  update_change db _ _ _ (fun _ d _ h => by
      simp only [Bool.and_eq_true, decide_eq_true_eq] at h
      simp [h.2, DeployStatus.active])
    (fun _ _ => ⟨rfl,rfl⟩) (fun _ d _ h hs => by
      simp only [Bool.and_eq_true, decide_eq_true_eq] at h
      simp [h.2] at hs)

theorem markRunningIfActive_change (uuid : Uuid) (now : Instant) (db : Db) :
    Change db (markRunningIfActive uuid now db).2 [] :=
  update_change db _ _ _ (fun _ d _ h => by
      simp only [Bool.and_eq_true] at h
      exact inProgress_active h.2)
    (fun _ _ => ⟨rfl,rfl⟩) (fun _ d _ _ hs => by simp [Deployment.started] at hs)

theorem setLiveLogs_change (uuid : Uuid) (logs : String) (now : Instant) (db : Db) :
    Change db (setLiveLogs uuid logs now db) [] :=
  update_change db _ _ _ (fun _ d _ h => by
      simp only [Bool.and_eq_true] at h
      exact h.2)
    (fun _ _ => ⟨rfl,rfl⟩) (fun _ d _ h hs => by
      simp only [Bool.and_eq_true] at h
      simp [show d.status = .cancelled from hs, DeployStatus.active] at h)

theorem finalizeIfActive_change (uuid : Uuid) (o : Outcome) (now : Instant) (db : Db)
    (ks : List Uuid) (ho : o.status = .cancelled → uuid ∈ ks) :
    Change db (finalizeIfActive uuid o now db).2 ks :=
  update_change db _ _ _ (fun _ d _ h => by
      simp only [Bool.and_eq_true] at h
      exact inProgress_active h.2)
    (fun _ _ => ⟨rfl,rfl⟩) (fun k _ _ h hs => by
      simp only [Bool.and_eq_true, decide_eq_true_eq] at h
      exact h.1 ▸ ho hs)

theorem reapOne_change (uuid : Uuid) (project : ℕ) (live : Bool) (now : Instant) (db : Db) :
    Change db (reapOne uuid project live now db) [] := by
  unfold reapOne
  split
  · exact Change.same _ _ rfl _
  · refine Change.of_deployments (update_change db (fun k d => k = uuid && d.status.inProgress)
      (fun _ => .reaped now) [] (fun _ _ _ h => ?_) (fun _ _ => ⟨rfl,rfl⟩)
      (fun _ _ _ _ hs => by simp [Deployment.reaped] at hs)) rfl
    simp only [Bool.and_eq_true] at h
    exact inProgress_active h.2

theorem requeueInterrupted_change (now : Instant) (db : Db) :
    Change db (requeueInterrupted now db) [] :=
  update_change db _ _ _ (fun _ d _ h => by
      simp only [Bool.or_eq_true, decide_eq_true_eq] at h
      rcases h with h | h <;> simp [h, DeployStatus.active])
    (fun _ _ => ⟨rfl,rfl⟩) (fun _ d _ _ hs => by simp [Deployment.requeued] at hs)

theorem settleProjects_change (p : ℕ → Project → Bool) (now : Instant) (db : Db) :
    Change db (settleProjects p now db) [] := Change.same db (settleProjects p now db) rfl _

theorem tryClaimDeployment_change (uuid : Uuid) (now : Instant) (db : Db) :
    Change db (tryClaimDeployment uuid now db).2 [] :=
  update_change db _ _ _ (fun _ d _ h => by
      simp only [Bool.and_eq_true, decide_eq_true_eq] at h
      simp [h.2, DeployStatus.active])
    (fun _ _ => ⟨rfl,rfl⟩) (fun _ d _ _ hs => by simp [Deployment.started] at hs)

end DevForge.DeployQueue
