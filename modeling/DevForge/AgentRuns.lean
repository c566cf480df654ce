import DevForge.Sql
import DevForge.Table

/-!
# Persisted agent runs

Rows of `agent_runs`, `agent_messages` and `project_agents`, and the SQL
statements that change them. A statement is atomic; a function of several
statements is given by its pieces, so that calls can interleave between them.
-/

set_option autoImplicit false

namespace DevForge.AgentRuns

/-- Duration of a lease, renewed by the run while it executes. -/
def LEASE_SECS : ℕ := 90

/-- Past this count an interrupted run is not restarted on its own. -/
def MAX_ATTEMPTS : ℕ := 3

inductive RunStatus where
  | queued
  | pending
  | running
  | paused
  | completed
  | failed
  | cancelled
  deriving DecidableEq, Repr

def RunStatus.name : RunStatus → String
  | .queued => "queued"
  | .pending => "pending"
  | .running => "running"
  | .paused => "paused"
  | .completed => "completed"
  | .failed => "failed"
  | .cancelled => "cancelled"

/-- `OPEN_STATUSES`: what the end of a run may still overwrite. -/
def RunStatus.isOpen : RunStatus → Bool
  | .pending | .queued | .running => true
  | _ => false

def RunStatus.isTerminal : RunStatus → Bool
  | .completed | .failed | .cancelled => true
  | _ => false

structure AgentRun where
  projectUuid : Uuid
  agentUuid : Uuid
  messageUuid : Uuid
  status : RunStatus
  error : Option String
  title : Option String
  cancelRequested : Bool
  leaseOwner : Option Uuid
  leaseUntil : Option Instant
  attempts : ℕ
  createdAt : Instant
  updatedAt : Instant
  deriving DecidableEq, Repr

inductive Role where
  | user
  | assistant
  deriving DecidableEq, Repr

structure AgentMessage where
  id : ℕ
  projectUuid : Uuid
  agentUuid : Uuid
  role : Role
  content : String
  createdAt : Instant
  deriving DecidableEq, Repr

inductive AgentStatus where
  | idle
  | working
  deriving DecidableEq, Repr

structure Db where
  runs : Table Uuid AgentRun
  messages : Table Uuid AgentMessage
  agents : Table Uuid AgentStatus
  /-- The identity column of `agent_messages`. -/
  nextMessageId : ℕ

def Db.status (db : Db) (run : Uuid) : Option RunStatus := (db.runs.get run).map AgentRun.status

def setAgentStatus (agent : Uuid) (status : AgentStatus) (db : Db) : Db :=
  { db with agents := db.agents.update (fun a _ => a = agent) (fun _ _ => status) }

def insertMessage (uuid project agent : Uuid) (role : Role) (content : String) (now : Instant)
    (db : Db) : Db :=
  { db with
    messages := db.messages.insert uuid ⟨db.nextMessageId,project,agent,role,content,now⟩
    nextMessageId := db.nextMessageId+1 }

def AgentRun.new (project agent message : Uuid) (now : Instant) : AgentRun :=
  ⟨project,agent,message,.pending,none,none,false,none,none,0,now,now⟩

/-- Idempotent on the message: `fresh` names the row of a new run. -/
def enqueue (fresh project agent message : Uuid) (now : Instant) (db : Db) : Uuid × Db :=
  match db.runs.rows.find? (fun e => e.2.messageUuid = message) with
  | some e => (e.1,db)
  | none => (fresh,{ db with runs := db.runs.insert fresh (AgentRun.new project agent message now) })

def AgentRun.claimed (owner : Uuid) (now : Instant) (r : AgentRun) : AgentRun :=
  { r with
    status := .running
    updatedAt := now
    error := none
    leaseOwner := some owner
    leaseUntil := some (now+LEASE_SECS)
    attempts := r.attempts+1 }

/-- Takes the lease of a `pending` run: one winner, one attempt counted. -/
def tryClaimAs (run owner : Uuid) (now : Instant) (db : Db) : Bool × Db :=
  let pending (k : Uuid) (r : AgentRun) : Bool := k = run && r.status = .pending
  (db.status run = some .pending,
   { db with runs := db.runs.update pending (fun _ => AgentRun.claimed owner now) })

def holdsLease (owner : Uuid) (r : AgentRun) : Bool :=
  r.status = .running && r.leaseOwner = some owner

def renewLease (run owner : Uuid) (now : Instant) (db : Db) : Bool × Db :=
  ((db.runs.get run).any (holdsLease owner),
   { db with runs := db.runs.update (fun k r => k = run && holdsLease owner r) (fun _ r =>
       { r with leaseUntil := some (now+LEASE_SECS) }) })

/-- The `expired` condition; `includeUnleased` is set at startup only. -/
def expired (includeUnleased : Bool) (now : Instant) (r : AgentRun) : Bool :=
  r.status = .running &&
    if includeUnleased then r.leaseUntil.all (· < now)
    else r.leaseOwner.isSome && r.leaseUntil.any (· < now)

def interruptedError (r : AgentRun) : String :=
  if MAX_ATTEMPTS ≤ r.attempts then
    "Interrompu "++toString r.attempts++" fois (redémarrages). Relance-le quand tu veux."
  else "Interrompu par un redémarrage de DevForge."

/-- Cut too often, or without a message to replay. -/
def beyondRecovery (db : Db) (includeUnleased : Bool) (now : Instant) (r : AgentRun) : Bool :=
  expired includeUnleased now r &&
    (MAX_ATTEMPTS ≤ r.attempts || (db.messages.get r.messageUuid).isNone)

def AgentRun.interrupted (now : Instant) (r : AgentRun) : AgentRun :=
  { r with
    status := .failed
    updatedAt := now
    leaseOwner := none
    leaseUntil := none
    error := some (interruptedError r) }

def AgentRun.requeued (now : Instant) (r : AgentRun) : AgentRun :=
  { r with
    status := .pending
    updatedAt := now
    leaseOwner := none
    leaseUntil := none }

/-- First UPDATE of `recover_expired`, with the idling of the agents concerned. -/
def recoverFailed (includeUnleased : Bool) (now : Instant) (db : Db) : List Uuid × Db :=
  let failed := db.runs.affected (fun _ => beyondRecovery db includeUnleased now)
  let agents := failed.filterMap (fun k => (db.runs.get k).map AgentRun.agentUuid)
  (failed,
   { db with
     runs := db.runs.update (fun _ => beyondRecovery db includeUnleased now)
       (fun _ => AgentRun.interrupted now)
     agents := db.agents.update (fun a _ => a ∈ agents) (fun _ _ => .idle) })

/-- Second UPDATE of `recover_expired`. -/
def recoverRequeued (includeUnleased : Bool) (now : Instant) (db : Db) : List Uuid × Db :=
  (db.runs.affected (fun _ => expired includeUnleased now),
   { db with
     runs := db.runs.update (fun _ => expired includeUnleased now)
       (fun _ => AgentRun.requeued now) })

/-- An assistant message of the agent stands after this message. -/
def assistantAlreadyReplied (agent message : Uuid) (db : Db) : Bool :=
  let after := ((db.messages.get message).map AgentMessage.id).getD 0
  db.messages.rows.any (fun e =>
    e.2.agentUuid = agent && e.2.role = .assistant && after < e.2.id)

inductive Control where
  | pause
  | resume
  | retry
  deriving DecidableEq, Repr

inductive ControlOutcome where
  | changed (status : RunStatus) (restart : Bool)
  | unchanged (status : RunStatus)
  | refused (message : String)
  deriving DecidableEq, Repr

/-- The rules checked on the status read; `none` lets the control proceed. -/
def controlRules (action : Control) (status : RunStatus) : Option ControlOutcome :=
  match action with
  | .pause =>
    if status = .paused then some (.unchanged status)
    else if !status.isOpen then some (.refused "Ce run est déjà terminé")
    else none
  | .resume =>
    if status.isOpen then some (.unchanged status)
    else if status ≠ .paused then some (.refused "Seul un run en pause peut reprendre")
    else none
  | .retry =>
    if status = .paused then some (.refused "Ce run est en pause : reprends-le")
    else if status.isOpen then some (.unchanged status)
    else if status ≠ .failed then some (.refused "Seul un run en échec peut être relancé")
    else none

def AgentRun.paused (now : Instant) (r : AgentRun) : AgentRun :=
  { r with
    status := .paused
    updatedAt := now
    leaseOwner := none
    leaseUntil := none
    cancelRequested := r.status = .running }

/-- UPDATE of a pause, fenced on the status that was read. -/
def pauseUpdate (run : Uuid) (row : AgentRun) (now : Instant) (db : Db) : ControlOutcome × Db :=
  if db.status run = some row.status then
    (.changed .paused false,
     setAgentStatus row.agentUuid .idle
       { db with
         runs := db.runs.update (fun k r => k = run && r.status = row.status)
           (fun _ => AgentRun.paused now) })
  else (.refused "Le run a changé, réessaie",db)

def replayContent (action : Control) (title : Option String) : String :=
  let label := (title.filter (fun t => trim t ≠ "")).getD "la tâche"
  if action = .resume then "Reprends "++label++" là où tu t'étais arrêté."
  else "Relance "++label++" : reprends depuis le début si besoin."

/-- The message to replay: the run's own, or a new one when it was answered. -/
def replayMessage (fresh : Uuid) (action : Control) (row : AgentRun) (now : Instant) (db : Db) :
    Option (Uuid × Db) :=
  if (db.messages.get row.messageUuid).isNone then none
  else if assistantAlreadyReplied row.agentUuid row.messageUuid db then
    some (fresh,insertMessage fresh row.projectUuid row.agentUuid .user
      (replayContent action row.title) now db)
  else some (row.messageUuid,db)

/-- The status that `resume` and `retry` start from. -/
def expectedStatus (action : Control) : RunStatus :=
  if action = .resume then .paused else .failed

def AgentRun.restarted (action : Control) (next : Uuid) (now : Instant) (r : AgentRun) : AgentRun :=
  { r with
    status := .pending
    updatedAt := now
    error := none
    cancelRequested := false
    messageUuid := next
    leaseOwner := none
    leaseUntil := none
    attempts := if action = .retry then 0 else r.attempts }

/-- UPDATE of a resume or a retry, fenced on the expected status. -/
def restartUpdate (run : Uuid) (action : Control) (next : Uuid) (now : Instant) (db : Db) :
    ControlOutcome × Db :=
  if db.status run = some (expectedStatus action) then
    (.changed .pending true,
     { db with
       runs := db.runs.update (fun k r => k = run && r.status = expectedStatus action)
         (fun _ => AgentRun.restarted action next now) })
  else (.refused "Le run a changé, réessaie",db)

def control (run fresh : Uuid) (action : Control) (now : Instant) (db : Db) :
    ControlOutcome × Db :=
  match db.runs.get run with
  | none => (.refused "Run introuvable",db)
  | some row =>
    match controlRules action row.status with
    | some outcome => (outcome,db)
    | none =>
      if action = .pause then pauseUpdate run row now db
      else match replayMessage fresh action row now db with
        | none => (.refused "Ce run ne peut pas être rejoué : relance la routine",db)
        | some (next,db') => restartUpdate run action next now db'

/-- The statuses that an execution ends with. -/
inductive EndStatus where
  | completed
  | failed
  | cancelled
  deriving DecidableEq, Repr

def EndStatus.toRun : EndStatus → RunStatus
  | .completed => .completed
  | .failed => .failed
  | .cancelled => .cancelled

def AgentRun.ended (status : EndStatus) (error : Option String) (now : Instant) (r : AgentRun) :
    AgentRun :=
  { r with
    status := status.toRun
    error := error
    updatedAt := now
    leaseOwner := none
    leaseUntil := none }

/-- A recorded pause, cancellation or resumption is meant not to be overwritten. -/
def finish (run : Uuid) (status : EndStatus) (error : Option String) (now : Instant) (db : Db) :
    Db :=
  { db with
    runs := db.runs.update (fun k r => k = run && r.status.isOpen)
      (fun _ => AgentRun.ended status error now) }

def failRun (run agent : Uuid) (error : String) (now : Instant) (db : Db) : Db :=
  setAgentStatus agent .idle (finish run .failed (some error) now db)

theorem RunStatus.closed_ne {status : RunStatus} (h : status.isOpen = false) :
    status ≠ .pending ∧ status ≠ .queued ∧ status ≠ .running := by
  cases status <;> simp_all [isOpen]

section ClosedRow

variable (db : Db) (k : Uuid) (r : AgentRun) (hr : db.runs.get k = some r)
  (hc : r.status.isOpen = false)
include hr hc

theorem tryClaimAs_closed (run owner : Uuid) (now : Instant) :
    (tryClaimAs run owner now db).2.runs.get k = some r := by
  simp [tryClaimAs, Table.get_update, hr, (RunStatus.closed_ne hc).1]

theorem renewLease_closed (run owner : Uuid) (now : Instant) :
    (renewLease run owner now db).2.runs.get k = some r := by
  simp [renewLease, Table.get_update, hr, holdsLease, (RunStatus.closed_ne hc).2.2]

theorem recoverFailed_closed (includeUnleased : Bool) (now : Instant) :
    (recoverFailed includeUnleased now db).2.runs.get k = some r := by
  simp [recoverFailed, Table.get_update, hr, beyondRecovery, expired, (RunStatus.closed_ne hc).2.2]

theorem recoverRequeued_closed (includeUnleased : Bool) (now : Instant) :
    (recoverRequeued includeUnleased now db).2.runs.get k = some r := by
  simp [recoverRequeued, Table.get_update, hr, expired, (RunStatus.closed_ne hc).2.2]

theorem finish_closed (run : Uuid) (status : EndStatus) (error : Option String) (now : Instant) :
    (finish run status error now db).runs.get k = some r := by
  simp [finish, Table.get_update, hr, hc]

omit hc in
theorem enqueue_get_of_some (fresh project agent message : Uuid) (now : Instant) :
    (enqueue fresh project agent message now db).2.runs.get k = some r := by
  unfold enqueue
  split
  · exact hr
  · have hk : k ∈ db.runs.keys := by
      by_contra hn
      simp [(Table.get_none_iff db.runs k).mpr hn] at hr
    rw [Table.get_insert]
    split
    · rename_i h
      exact absurd (h.1 ▸ hk) h.2
    · exact hr

/-- The pause of an open row leaves every closed row alone. -/
theorem pauseUpdate_closed (run : Uuid) (row : AgentRun) (now : Instant)
    (ho : row.status.isOpen) : (pauseUpdate run row now db).2.runs.get k = some r := by
  unfold pauseUpdate
  split
  · have hs : r.status ≠ row.status := fun he => by simp [← he, hc] at ho
    simp [setAgentStatus, Table.get_update, hr, hs]
  · exact hr

end ClosedRow

theorem restartUpdate_get (run : Uuid) (action : Control) (next : Uuid) (now : Instant) (db : Db)
    (k : Uuid) (h : k ≠ run) : (restartUpdate run action next now db).2.runs.get k = db.runs.get k := by
  unfold restartUpdate
  split
  · simp [Table.get_update, h]
  · rfl

/-- The rules let a pause proceed on open rows only. -/
theorem controlRules_pause {status : RunStatus} (h : controlRules .pause status = none) :
    status.isOpen := by
  cases status <;> simp_all [controlRules, RunStatus.isOpen]

theorem EndStatus.not_open (status : EndStatus) : status.toRun.isOpen = false := by
  cases status <;> rfl

theorem finish_get (run : Uuid) (status : EndStatus) (error : Option String) (now : Instant)
    (db : Db) (k : Uuid) : (finish run status error now db).runs.get k =
      (db.runs.get k).map (fun r =>
        if k = run ∧ r.status.isOpen then r.ended status error now else r) := by
  simp [finish, Table.get_update]

/-- The end of a run leaves its row alone exactly when the row is not open. -/
theorem finish_unchanged_iff (run : Uuid) (status : EndStatus) (error : Option String)
    (now : Instant) (db : Db) : (finish run status error now db).runs.get run = db.runs.get run ↔
      ∀ r, db.runs.get run = some r → r.status.isOpen = false := by
  rw [finish_get]
  cases hr : db.runs.get run with
  | none => simp
  | some r =>
    cases ho : r.status.isOpen with
    | false => simp [ho]
    | true =>
      have hs : status.toRun ≠ r.status := fun he => by
        have := EndStatus.not_open status
        rw [he,ho] at this
        exact Bool.noConfusion this
      simp only [Option.map_some, true_and, ho, if_true, Option.some.injEq, forall_eq']
      constructor
      · intro he
        exact absurd (congrArg AgentRun.status he) hs
      · intro he
        exact Bool.noConfusion he

end DevForge.AgentRuns
