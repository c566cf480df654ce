import DevForge.DeployQueue

/-!
# Approval receipts

Rows of `approval_receipts` with the statements that change them, from the
agent loop, the approvals of users, the reconciliation with the deployments
and the boot.
-/

set_option autoImplicit false

namespace DevForge.Receipts
open DeployQueue

/-- Thirty minutes. -/
def APPROVAL_TTL : ℕ := 30*60

def UNKNOWN_AFTER_RESTART : String :=
  "DevForge a redémarré pendant l'action : issue inconnue. Vérifie le résultat avant de relancer."

inductive Status where
  | pending
  | approved
  | executing
  | done
  | failed
  | unknown
  | expired
  deriving DecidableEq, Repr

/-- `FINAL`: the statuses that a receipt keeps. -/
def Status.final : Status → Bool
  | .done | .failed | .expired => true
  | _ => false

/-- `status IN ('executing', 'unknown')`. -/
def Status.open : Status → Bool
  | .executing | .unknown => true
  | _ => false

structure Receipt where
  projectUuid : Option Uuid
  version : Option String
  actionHash : String
  status : Status
  approvedBy : Option Uuid
  approvedByLabel : Option String
  approvedAt : Option Instant
  expiresAt : Instant
  consumedAt : Option Instant
  finishedAt : Option Instant
  detail : Option String
  runUuid : Option Uuid
  toolName : Option String
  deploymentUuid : Option Uuid
  createdAt : Instant
  deriving DecidableEq, Repr

structure NewReceipt where
  projectUuid : Option Uuid
  version : Option String
  approvedBy : Option Uuid
  approvedByLabel : Option String
  approvedAt : Option Instant
  runUuid : Option Uuid
  toolName : Option String
  deploymentUuid : Option Uuid
  detail : Option String
  hash : String
  deriving DecidableEq, Repr

abbrev Rows := Table Uuid Receipt

/-- The row that `insert` writes; a proposal has no approval yet. -/
def NewReceipt.row (r : NewReceipt) (status : Status) (now : Instant) : Receipt :=
  let approvedAt := r.approvedAt.or (if status = .pending then none else some now)
  { projectUuid := r.projectUuid
    version := r.version
    actionHash := r.hash
    status := status
    approvedBy := r.approvedBy
    approvedByLabel := r.approvedByLabel
    approvedAt := approvedAt
    expiresAt := approvedAt.getD now+APPROVAL_TTL
    consumedAt := if status = .executing then some now else none
    finishedAt := none
    detail := r.detail
    runUuid := r.runUuid
    toolName := r.toolName
    deploymentUuid := r.deploymentUuid
    createdAt := now }

def insert (uuid : Uuid) (r : NewReceipt) (status : Status) (now : Instant) (rows : Rows) : Rows :=
  Table.insert rows uuid (r.row status now)

/-- An action confirmed and launched at once. -/
def begin (uuid : Uuid) (r : NewReceipt) (now : Instant) (rows : Rows) : Rows :=
  insert uuid r .executing now rows

/-- `status IN ('pending', 'approved') AND expires_at > now()`. -/
def Receipt.live (now : Instant) (r : Receipt) : Bool :=
  (r.status = .pending || r.status = .approved) && now < r.expiresAt

/-- The SELECT of `propose`: a live proposal of the same action is reused. -/
def liveProposal (r : NewReceipt) (now : Instant) (rows : Rows) : Bool :=
  rows.rows.any (fun e => e.2.projectUuid = r.projectUuid && e.2.actionHash = r.hash && e.2.live now)

def approvable (project : Uuid) (now : Instant) (r : Receipt) : Bool :=
  r.projectUuid = some project && r.status = .pending && now < r.expiresAt

def Receipt.approve (user : Option Uuid) (label : Option String) (now : Instant) (r : Receipt) :
    Receipt :=
  { r with
    status := .approved
    approvedBy := user
    approvedByLabel := label
    approvedAt := some now
    expiresAt := now+APPROVAL_TTL }

def approvePending (project : Uuid) (user : Option Uuid) (label : Option String) (now : Instant)
    (rows : Rows) : List Uuid × Rows :=
  (rows.affected (fun _ => approvable project now),
   rows.update (fun _ => approvable project now) (fun _ => Receipt.approve user label now))

def consumable (project : Uuid) (hash : String) (now : Instant) (r : Receipt) : Bool :=
  r.projectUuid = some project && r.actionHash = hash && r.status = .approved && now < r.expiresAt

def Receipt.consume (run : Option Uuid) (now : Instant) (r : Receipt) : Receipt :=
  { r with
    status := .executing
    consumedAt := some now
    runUuid := coalesce run r.runUuid }

/-- `picked` is the row that the inner SELECT locks: the one approved last
among those that no other statement holds. -/
def consume (picked : Uuid) (project : Uuid) (hash : String) (run : Option Uuid) (now : Instant)
    (rows : Rows) : List Uuid × Rows :=
  (rows.affected (fun k r => k = picked && consumable project hash now r),
   rows.update (fun k r => k = picked && consumable project hash now r)
     (fun _ => Receipt.consume run now))

/-- The outcomes that callers write. -/
inductive Outcome where
  | done
  | failed
  | unknown
  deriving DecidableEq, Repr

def Outcome.status : Outcome → Status
  | .done => .done
  | .failed => .failed
  | .unknown => .unknown

def Receipt.finish (outcome : Outcome) (detail : Option String) (now : Instant) (r : Receipt) :
    Receipt :=
  { r with
    status := outcome.status
    detail := coalesce (detail.map (fun d => String.ofList (d.toList.take 500))) r.detail
    finishedAt := some now }

def finish (uuid : Uuid) (outcome : Outcome) (detail : Option String) (now : Instant)
    (rows : Rows) : Rows :=
  rows.update (fun k r => k = uuid && r.status.open) (fun _ => Receipt.finish outcome detail now)

def linkDeployment (uuid deployment : Uuid) (rows : Rows) : Rows :=
  rows.update (fun k _ => k = uuid) (fun _ r => { r with deploymentUuid := some deployment })

def Receipt.interrupt (r : Receipt) : Receipt :=
  { r with status := .unknown, detail := some UNKNOWN_AFTER_RESTART }

def markInterrupted (rows : Rows) : Rows :=
  rows.update (fun _ r => r.status = .executing) (fun _ => Receipt.interrupt)

/-- `status IN ('pending', 'approved') AND expires_at <= now()`. -/
def Receipt.stale (now : Instant) (r : Receipt) : Bool :=
  (r.status = .pending || r.status = .approved) && r.expiresAt ≤ now

def Receipt.expire (r : Receipt) : Receipt :=
  { r with
    status := .expired
    detail := coalesce r.detail (some "Validation non utilisée sous 30 min.") }

def expireStale (now : Instant) (rows : Rows) : Rows :=
  rows.update (fun _ => Receipt.stale now) (fun _ => Receipt.expire)

/-- The deployment of a receipt, once it has ended. -/
def endedDeployment (deployments : Table Uuid Deployment) (r : Receipt) : Option Deployment :=
  (r.deploymentUuid.bind deployments.get).filter (fun d => d.status.settled)

/-- `NULLIF(NULLIF(git_sha, 'pending'), 'unknown')`. -/
def builtSha (d : Deployment) : Option String :=
  if d.gitSha = "pending" || d.gitSha = "unknown" then none else some d.gitSha

def Receipt.reconciled (d : Deployment) (now : Instant) (r : Receipt) : Receipt :=
  { r with
    status := if d.status = .success then .done else .failed
    version := coalesce (builtSha d) r.version
    detail :=
      if d.status = .success && r.status = .unknown then
        some "Terminé après un redémarrage de DevForge."
      else if d.status = .success then r.detail
      else if d.status = .cancelled then
        some "Déploiement annulé (arrêté ou remplacé par un plus récent)."
      else coalesce d.errorSummary (some "Échec du déploiement")
    finishedAt := some now }

def Receipt.reconcile (deployments : Table Uuid Deployment) (now : Instant) (r : Receipt) : Receipt :=
  match endedDeployment deployments r with
  | some d => r.reconciled d now
  | none => r

/-- UPDATE of `reconcile`: receipts still open whose deployment has ended. -/
def reconcile (deployments : Table Uuid Deployment) (now : Instant) (rows : Rows) : Rows :=
  rows.update (fun _ r => r.status.open && (endedDeployment deployments r).isSome)
    (fun _ => Receipt.reconcile deployments now)

/-! ## What the statements do to one row -/

theorem get_insert (uuid : Uuid) (r : NewReceipt) (status : Status) (now : Instant) (rows : Rows)
    (k : Uuid) : (insert uuid r status now rows).get k =
      if k = uuid ∧ uuid ∉ rows.keys then some (r.row status now) else rows.get k :=
  Table.get_insert rows uuid k (r.row status now)

theorem get_approvePending (project : Uuid) (user : Option Uuid) (label : Option String)
    (now : Instant) (rows : Rows) (k : Uuid) :
    (approvePending project user label now rows).2.get k = (rows.get k).map (fun r =>
      if approvable project now r then r.approve user label now else r) :=
  Table.get_update rows _ _ k

theorem get_consume (picked project : Uuid) (hash : String) (run : Option Uuid) (now : Instant)
    (rows : Rows) (k : Uuid) :
    (consume picked project hash run now rows).2.get k = (rows.get k).map (fun r =>
      if k = picked && consumable project hash now r then r.consume run now else r) :=
  Table.get_update rows _ _ k

theorem get_finish (uuid : Uuid) (outcome : Outcome) (detail : Option String) (now : Instant)
    (rows : Rows) (k : Uuid) :
    (finish uuid outcome detail now rows).get k = (rows.get k).map (fun r =>
      if k = uuid && r.status.open then r.finish outcome detail now else r) :=
  Table.get_update rows _ _ k

theorem get_linkDeployment (uuid deployment : Uuid) (rows : Rows) (k : Uuid) :
    (linkDeployment uuid deployment rows).get k = (rows.get k).map (fun r =>
      if k = uuid then { r with deploymentUuid := some deployment } else r) := by
  rw [linkDeployment, Table.get_update]
  simp

theorem get_markInterrupted (rows : Rows) (k : Uuid) :
    (markInterrupted rows).get k = (rows.get k).map (fun r =>
      if r.status = .executing then r.interrupt else r) := by
  rw [markInterrupted, Table.get_update]
  simp

theorem get_expireStale (now : Instant) (rows : Rows) (k : Uuid) :
    (expireStale now rows).get k = (rows.get k).map (fun r =>
      if r.stale now then r.expire else r) :=
  Table.get_update rows _ _ k

theorem get_reconcile (deployments : Table Uuid Deployment) (now : Instant) (rows : Rows)
    (k : Uuid) : (reconcile deployments now rows).get k = (rows.get k).map (fun r =>
      if r.status.open && (endedDeployment deployments r).isSome
      then r.reconcile deployments now else r) :=
  Table.get_update rows _ _ k

end DevForge.Receipts
