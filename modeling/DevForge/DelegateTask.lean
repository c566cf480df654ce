import DevForge.AgentRuns
import DevForge.MemoryRules
import Mathlib.Data.List.MinMax

/-!
# Delegated tasks

The coordinator of a project hands a task to a worker: a run of kind `worker`, pending while a slot
is free and queued otherwise. The end of a worker promotes the oldest queued one. A call of several
statements is given by its pieces.
-/

set_option autoImplicit false

namespace DevForge.DelegateTask
open AgentRuns MemoryRules

/-- At most this many workers of a project are pending or running; the others wait. -/
def MAX_ACTIVE_WORKERS : ℕ := 2

section
variable (T : Texts)

/-- The normalised title, which tells the tasks apart. -/
def titleKey (title : String) : String :=
  String.ofList ([' '].intercalate (splitWhitespace
    ((T.lowercase title.toList).map (fun c => if T.isAlphanumeric c then c else ' '))))

def initialStatus (active : ℕ) : RunStatus := if MAX_ACTIVE_WORKERS ≤ active then .queued else .pending

/-- A row of `project_agents`. -/
structure ProjectAgent where
  projectUuid : Uuid
  role : String
  kind : String
  parentAgentUuid : Option Uuid
deriving DecidableEq, Repr

structure Db where
  rows : AgentRuns.Db
  /-- The runs whose column `kind` is `worker`. -/
  workers : List Uuid
  agents : Table Uuid ProjectAgent

def isActive : RunStatus → Bool
  | .pending | .running => true
  | _ => false

/-- The worker runs of a project whose status is one of these. -/
def workerRuns (db : Db) (project : Uuid) (among : RunStatus → Bool) : List Uuid :=
  db.rows.runs.affected (fun k r => k ∈ db.workers && r.projectUuid = project && among r.status)

structure DelegateArgs where
  projectUuid : Option Uuid
  callerAgentUuid : Option Uuid
  title : String
  instructions : String
  reuseWorkerUuid : Option Uuid
deriving DecidableEq, Repr

inductive DelegateOutcome where
  | refused (error : String)
  | failed
  | alreadyRunning (status : RunStatus) (run worker : Uuid)
  | started (run worker : Uuid)
  | queued (run worker : Uuid)
deriving DecidableEq, Repr

structure Task where
  project : Uuid
  caller : Uuid
  title : String
  instructions : String
  reuse : Option Uuid
  now : Instant
deriving DecidableEq, Repr

/-- Where a call of `delegate_task` stands between its statements. -/
inductive DelegateCall where
  /-- The workers have been read; so many of them were pending or running. -/
  | decided (task : Task) (running : ℕ)
  | posted (task : Task) (running : ℕ) (worker message : Uuid)
  | done (outcome : DelegateOutcome)
deriving DecidableEq, Repr

/-- The runs that a delegation finds, with their rows. -/
def activeWorkers (db : Db) (project : Uuid) : List (Uuid × AgentRun) :=
  db.rows.runs.rows.filter (fun e => e.1 ∈ db.workers && e.2.projectUuid = project && e.2.status.isOpen)

def delegateRead (args : DelegateArgs) (now : Instant) (db : Db) : DelegateCall :=
  let title := String.ofList ((trim args.title).toList.take 80)
  let instructions := trim args.instructions
  match args.projectUuid, args.callerAgentUuid with
  | some project, some caller =>
    if title = "" || instructions = "" then .done (.refused "title et instructions requis")
    else match (db.agents.get caller).filter (fun a => a.projectUuid = project) with
      | none => .done (.refused "agent appelant introuvable")
      | some a =>
        if a.role ≠ "coordinator" then .done (.refused "delegate_task est réservé au Coordinateur")
        else
          let active := activeWorkers db project
          match active.find? (fun e => e.2.title.map (titleKey T) = some (titleKey T title)) with
          | some e => .done (.alreadyRunning e.2.status e.1 e.2.agentUuid)
          | none => .decided ⟨project,caller,title,instructions,args.reuseWorkerUuid,now⟩
              (active.filter (fun e => e.2.status ≠ .queued)).length
  | _, _ => .done (.refused "delegate_task doit être appelé depuis un fil agent de projet")

def delegateBody (title instructions : String) : String :=
  "TÂCHE DÉLÉGUÉE PAR LE COORDINATEUR : "++title++"\n\n"++instructions++
    "\n\nTravaille en local (brouillon). Termine par un résumé d'une ligne : ce qui est fait et comment c'est vérifié."

/-- The worker of a task: a subagent of the project that is reused, or a new one. -/
def reused (task : Task) (db : Db) : Option Uuid :=
  task.reuse.filter (fun w => (db.agents.get w).any (fun a => a.projectUuid = task.project && a.kind = "subagent"))

/-- The worker and its message are stored. -/
def delegatePost (worker message : Uuid) (db : Db) : DelegateCall → DelegateCall × Db
  | .decided task running =>
    let w := (reused task db).getD worker
    let rows := if (reused task db).isSome then db.rows
      else { db.rows with agents := db.rows.agents.insert worker .idle }
    (.posted task running w message,
      { db with
        agents := if (reused task db).isSome then db.agents
          else db.agents.insert worker ⟨task.project,"worker","subagent",some task.caller⟩
        rows := insertMessage message task.project w .user (delegateBody task.title task.instructions) task.now rows })
  | d => (d,db)

/-- The worker and its message are no runs. -/
theorem delegatePost_runs (worker message : Uuid) (db : Db) (call : DelegateCall) :
    (delegatePost worker message db call).2.rows.runs = db.rows.runs ∧
      (delegatePost worker message db call).2.workers = db.workers := by
  cases call with
  | posted task running worker message => exact ⟨rfl,rfl⟩
  | done outcome => exact ⟨rfl,rfl⟩
  | decided task running =>
    refine ⟨?_,rfl⟩
    simp only [delegatePost, insertMessage]
    split <;> rfl

def workerRun (task : Task) (running : ℕ) (worker message : Uuid) : AgentRun :=
  { AgentRun.new task.project worker message task.now with
    status := initialStatus running
    title := some task.title }

/-- The INSERT of the run. -/
def delegateInsert (run : Uuid) (db : Db) : DelegateCall → DelegateCall × Db
  | .posted task running worker message =>
    if run ∈ db.rows.runs.keys then (.done .failed,db)
    else
      (.done (if initialStatus running = .pending then .started run worker else .queued run worker),
        { db with
          workers := run::db.workers
          rows := setAgentStatus worker .working
            { db.rows with runs := db.rows.runs.insert run (workerRun task running worker message) } })
  | d => (d,db)

end

/-- Where a call of `promote_queued` stands. -/
inductive PromotePhase where
  | asked
  /-- The workers have been counted and a slot was free. -/
  | counted
  | done
deriving DecidableEq, Repr

/-- SELECT COUNT of `promote_queued`. -/
def promoteCount (project : Uuid) (db : Db) : PromotePhase :=
  if MAX_ACTIVE_WORKERS ≤ (workerRuns db project isActive).length then .done else .counted

/-- The queued worker of a project that was created first. -/
def oldestQueued (project : Uuid) (db : Db) : Option Uuid :=
  ((db.rows.runs.rows.filter (fun e => e.1 ∈ db.workers && e.2.projectUuid = project && e.2.status = .queued)).argmin
    (fun e => e.2.createdAt)).map Prod.fst

theorem oldestQueued_none {project : Uuid} {db : Db} (h : oldestQueued project db = none) :
    workerRuns db project (· = .queued) = [] := by
  have hnone := List.argmin_eq_none.mp (Option.map_eq_none_iff.mp h)
  exact congrArg (List.map Prod.fst) hnone

theorem oldestQueued_some {project run : Uuid} {db : Db} (h : oldestQueued project db = some run) :
    run ∈ db.workers ∧ ∃ r, db.rows.runs.get run = some r ∧ r.projectUuid = project ∧ r.status = .queued := by
  obtain ⟨e,he,rfl⟩ := Option.map_eq_some_iff.mp h
  obtain ⟨hmem,hp⟩ := List.mem_filter.mp (List.argmin_mem he)
  simp only [Bool.and_eq_true, decide_eq_true_eq] at hp
  exact ⟨hp.1.1,e.2,(Table.mem_iff_get ..).mp hmem,hp.1.2,hp.2⟩

/-- UPDATE of `promote_queued`. -/
def promoteUpdate (project : Uuid) (now : Instant) (db : Db) : Db :=
  match oldestQueued project db with
  | none => db
  | some run => { db with rows := { db.rows with
      runs := db.rows.runs.update (fun k r => k = run && r.status = .queued)
        (fun _ r => { r with status := .pending, updatedAt := now }) } }

theorem promoteUpdate_workers (project : Uuid) (now : Instant) (db : Db) :
    (promoteUpdate project now db).workers = db.workers := by
  unfold promoteUpdate
  split <;> rfl

end DevForge.DelegateTask
