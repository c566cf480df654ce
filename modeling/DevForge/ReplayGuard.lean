import DevForge.ReceiptRows

/-!
# Remote actions of a run cut and resumed

One run of an agent, turn after turn. Before a remote action the loop asks the
publication gate, then the receipts of the earlier turns; it then takes an
approved receipt or begins one, executes the action and records its outcome.
Users, the reconciliation, the deployments and restarts act in between. No
two receipts are created at the same instant.
-/

set_option autoImplicit false

namespace DevForge.ReplayGuard
open DeployQueue (Deployment)
open Receipts

/-- The project of the run, the run and the tools' names that matter. -/
structure Setting where
  project : Uuid
  run : Uuid

def LAUNCHES_DEPLOY : List String := ["trigger_deploy","publish_to_github"]

/-- A remote call, with the hash of its tool and normalised arguments. -/
structure Call where
  tool : String
  hash : String

/-- What a tool reports: a success, with the deployment it launched. -/
inductive Ended where
  | ok (deployment : Option Uuid)
  | failed
  | cancelled
  deriving DecidableEq

structure Execution where
  receipt : Option Uuid
  hash : String
  turn : ℕ
  startedAt : Instant
  ended : Option (Ended × Instant)
  deriving DecidableEq

/-- When it ended, or started if its end is unknown. -/
def Execution.instant (e : Execution) : Instant := (e.ended.map Prod.snd).getD e.startedAt

/-- A call answered as already done; `repeated` if its turn has executed it. -/
structure Skip where
  hash : String
  turn : ℕ
  repeated : Bool

inductive Phase where
  | paused
  | idle
  | checked (call : Call)
  | executing (call : Call) (e : Execution)

structure State where
  db : ReceiptRows.State
  /-- `granted_at` of the project's publication approval. -/
  granted : Option Instant
  autonomous : Bool
  unattended : Bool
  turn : ℕ
  turnStarted : Instant
  phase : Phase
  /-- The executions that have ended or were cut. -/
  executions : List Execution
  skips : List Skip
  /-- The instants at which a user has given an approval. -/
  approvals : List Instant

inductive Action where
  | tick (seconds : ℕ)
  | grant
  | approvePending (user : Option Uuid) (label : Option String)
  | setAutonomous (enabled : Bool)
  | resume (unattended : Bool) (gap : ℕ)
  | cut
  /-- `picked` is the receipt that `prior_in_run` finds, `fresh` the proposal. -/
  | check (call : Call) (picked : Option Uuid) (fresh : Uuid)
  /-- `picked` is the approved receipt consumed, `fresh` the one begun. -/
  | startCall (picked : Option Uuid) (fresh : Uuid)
  | finishCall (ended : Ended)
  | recordAutonomous (fresh deployment : Uuid)
  | deploymentsChange (deployments : Table Uuid Deployment)
  | markInterrupted
  | expireStale
  | reconcile

variable (c : Setting)

def State.now (s : State) : Instant := s.db.now

def State.row (s : State) (k : Uuid) : Option Receipt := s.db.rows.get k

def State.dbStep (s : State) (a : ReceiptRows.Action) : State :=
  { s with db := ReceiptRows.step s.db a }

/-- An approval lasts fifteen minutes. -/
def publishAllowed (s : State) : Bool := s.granted.any (fun t => s.now < t+15*60)

def autonomousAllowed (s : State) (call : Call) : Bool :=
  call.tool = "trigger_deploy" && s.autonomous

def refused (s : State) (call : Call) : Bool :=
  !autonomousAllowed s call && (s.unattended || !publishAllowed s)

def toolReceipt (s : State) (call : Call) : NewReceipt :=
  ⟨some c.project,none,none,none,s.granted,some c.run,some call.tool,none,none,call.hash⟩

/-- The rows that `prior_in_run` looks at. -/
def candidate (s : State) (hash : String) (r : Receipt) : Bool :=
  r.runUuid = some c.run && r.actionHash = hash && r.createdAt < s.turnStarted &&
    (r.status = .done || r.status.open)

/-- `ORDER BY created_at DESC LIMIT 1`. -/
def isNewest (s : State) (hash : String) : Option Uuid → Bool
  | none => s.db.rows.rows.all (fun e => !candidate c s hash e.2)
  | some k => (s.row k).any (fun r => candidate c s hash r &&
      s.db.rows.rows.all (fun e => !candidate c s hash e.2 || e.2.createdAt ≤ r.createdAt))

inductive Prior where
  | none
  | done
  | unknown
  deriving DecidableEq

/-- An approval given after the receipt's creation lets the action run again. -/
def prior (s : State) (picked : Option Uuid) : Prior :=
  match picked.bind s.row with
  | some r =>
    if r.status = .done then .done
    else if s.granted.any (fun t => r.createdAt < t) then .none
    else .unknown
  | none => .none

/-- The executions of the run, with the one in progress. -/
def State.started (s : State) : List Execution :=
  s.executions++match s.phase with
    | .executing _ e => [e]
    | _ => []

def inThisTurn (s : State) (hash : String) (e : Execution) : Bool :=
  e.hash = hash && e.turn = s.turn

def propose (s : State) (call : Call) (fresh : Uuid) : State :=
  ((s.dbStep (.tick 1)).dbStep (.propose { toolReceipt c s call with approvedAt := none })).dbStep
    (.insertProposal 0 fresh)

def check (s : State) (call : Call) (picked : Option Uuid) (fresh : Uuid) : State :=
  if !isNewest c s call.hash picked then s
  else if refused s call then propose c s call fresh
  else match prior s picked with
    | .done =>
      { s with
        skips := s.skips++[⟨call.hash,s.turn,s.executions.any (inThisTurn s call.hash)⟩] }
    | .unknown => s
    | .none => { s with phase := .checked call }

def State.execute (s : State) (call : Call) (receipt : Option Uuid) (startedAt : Instant) : State :=
  { s with phase := .executing call ⟨receipt,call.hash,s.turn,startedAt,none⟩ }

/-- `receipt_start`. -/
def startCall (s : State) (call : Call) (picked : Option Uuid) (fresh : Uuid) : State :=
  match picked with
  | some k =>
    if (s.row k).any (consumable c.project call.hash s.now) then
      (s.dbStep (.consume k c.project call.hash (some c.run))).execute call (some k) s.now
    else s
  | none =>
    if !publishAllowed s && autonomousAllowed s call then s.execute call none s.now
    else if fresh ∈ s.db.rows.keys then s
    else ((s.dbStep (.tick 1)).dbStep (.begin fresh (toolReceipt c s call))).execute call
      (some fresh) (s.now+1)

/-- The deployment that the receipt is linked to. -/
def launched (call : Call) : Ended → Ended
  | .ok deployment => .ok (if call.tool ∈ LAUNCHES_DEPLOY then deployment else none)
  | ended => ended

/-- `receipt_finish`. -/
def finishReceipt (k : Uuid) : Ended → ReceiptRows.Action
  | .ok (some deployment) => .linkDeployment k deployment
  | .ok none => .finish k .done none
  | .failed => .finish k .failed none
  | .cancelled => .finish k .unknown none

def finishCall (s : State) (call : Call) (e : Execution) (ended : Ended) : State :=
  let s' := match e.receipt with
    | some k => s.dbStep (finishReceipt k (launched call ended))
    | none => s
  { s' with
    phase := if ended = .cancelled then .paused else .idle
    executions := s.executions++[{ e with ended := some (launched call ended,s.now) }] }

/-- The receipt that the server writes of a publication without approval. -/
def autonomousReceipt (deployment : Uuid) : NewReceipt :=
  ⟨some c.project,none,none,none,none,none,some "trigger_deploy",some deployment,none,
    "autonomous_publish"⟩

def step (s : State) : Action → State
  | .tick seconds => s.dbStep (.tick seconds)
  | .grant => { s with granted := some s.now, approvals := s.approvals++[s.now] }
  | .approvePending user label => s.dbStep (.approvePending c.project user label)
  | .setAutonomous enabled => { s with autonomous := enabled }
  | .resume unattended gap => match s.phase with
    | .paused =>
      { s.dbStep (.tick (gap+1)) with
        unattended := unattended, turn := s.turn+1, turnStarted := s.now+(gap+1), phase := .idle }
    | _ => s
  | .cut => { s with phase := .paused, executions := s.started }
  | .check call picked fresh => match s.phase with
    | .idle => check c s call picked fresh
    | _ => s
  | .startCall picked fresh => match s.phase with
    | .checked call => startCall c s call picked fresh
    | _ => s
  | .finishCall ended => match s.phase with
    | .executing call e => finishCall s call e ended
    | _ => s
  | .recordAutonomous fresh deployment =>
    (s.dbStep (.tick 1)).dbStep (.begin fresh (autonomousReceipt c deployment))
  | .deploymentsChange deployments =>
    -- a deployment that has ended stays as it ended
    if s.db.deployments.rows.all (fun e => !e.2.status.settled ||
        (deployments.get e.1).any (fun d => d.status = e.2.status))
    then s.dbStep (.deploymentsChange deployments) else s
  | .markInterrupted => s.dbStep .markInterrupted
  | .expireStale => s.dbStep .expireStale
  | .reconcile => s.dbStep .reconcile

def start : State where
  db := ReceiptRows.start
  granted := none
  autonomous := false
  unattended := false
  turn := 0
  turnStarted := 0
  phase := .paused
  executions := []
  skips := []
  approvals := []

/-- An execution that is known not to have succeeded: the tool said so, or the
deployment it launched did not succeed. -/
def didFail (deployments : Table Uuid Deployment) (e : Execution) : Bool :=
  match e.ended with
  | some (.failed,_) => true
  | some (.ok (some deployment),_) =>
    (deployments.get deployment).any (fun d => d.status.settled && d.status ≠ .success)
  | _ => false

/-- The action is being checked or executed, or the turn has executed it. -/
def active (s : State) (hash : String) : Bool :=
  match s.phase with
  | .paused => false
  | .checked call => call.hash = hash || s.executions.any (inThisTurn s hash)
  | _ => s.started.any (inThisTurn s hash)

/-- An approval that lets an open receipt run again was given after the
action's executions of the earlier turns; the receipt consumed was created in
the turn; the action does not start on the autonomous setting alone; and no
reconciliation settles an older receipt of an action of the turn. -/
def orderly (s : State) : Action → Bool
  | .check call picked _ => match s.phase, picked.bind s.row, s.granted with
    | .idle, some r, some g =>
      !(isNewest c s call.hash picked && r.status.open && r.createdAt < g) ||
        s.executions.all (fun e => !(e.hash = call.hash && e.turn < s.turn) ||
          didFail s.db.deployments e || e.instant < g)
    | _, _, _ => true
  | .startCall picked _ => match s.phase, picked with
    | .checked _, some k => (s.row k).all (fun r => s.turnStarted ≤ r.createdAt)
    | .checked call, none => publishAllowed s || !autonomousAllowed s call
    | _, _ => true
  | .reconcile => s.db.rows.rows.all (fun e =>
      !(e.2.runUuid = some c.run && e.2.createdAt < s.turnStarted && e.2.status.open &&
        (endedDeployment s.db.deployments e.2).isSome) || !active s e.2.actionHash)
  | _ => true

end DevForge.ReplayGuard
