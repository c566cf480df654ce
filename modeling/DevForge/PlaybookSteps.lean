import DevForge.Milestones
import DevForge.Redact
import DevForge.MemoryRules

/-!
# The steps of a playbook run

The card of a run shows three steps and a verdict. A step is decided by what the run has noted
with evidence, and in a swarm by the runs of its workers. The events of the run and of the workers
come in one list.
-/

set_option autoImplicit false

namespace DevForge.PlaybookSteps
open WakeGate (Json)
open WakeGate.Json (asStr asBool)
open ToolArguments (toLowercase)

structure Playbook where
  id : String
  steps : List String
  usesWorkers : Bool
  three : steps.length = 3

structure RunLite where
  uuid : String
  status : String
  agentName : Option String
deriving DecidableEq, Repr

structure EventLite where
  runUuid : String
  ty : String
  payload : Json

structure ReceiptLite where
  uuid : String
  actionLabel : String
  target : String
  status : String
  detail : Option String
  approvedByLabel : Option String
  createdAt : String

/-- An entry of the journal. -/
structure Decision where
  source : String
  runUuid : Option String
  agentName : Option String
  what : String
  why : String
  evidence : String
  outcome : String
  step : Option ℤ
  detail : Option String
  createdAt : Option String

inductive StepState where
  | pending
  | running
  | ok
  | failed
  | skipped
  | missing
deriving DecidableEq, Repr

structure Step where
  n : ℕ
  label : String
  state : StepState
deriving DecidableEq, Repr

inductive Verdict where
  | running
  | ok
  | failed
  | incomplete
deriving DecidableEq, Repr

def isOkStatus (s : String) : Bool := s = "completed"

def isFailedStatus (s : String) : Bool := s = "failed" || s = "cancelled"

def isTerminal (s : String) : Bool := isOkStatus s || isFailedStatus s

/-! ## The journal -/

def MAX_EVIDENCE : ℕ := 300

def isEvidence (raw : String) : Bool :=
  let s := (trim raw).toList
  let lower := (toLowercase (trim raw)).toList
  let starts := fun p : String => p.toList.isPrefixOf lower
  if s.isEmpty || MAX_EVIDENCE < s.length || s.any isWhitespace then false
  else if starts "http://" || starts "https://" then
    let rest := (Redact.splitAtSub Redact.SEPARATOR s).elim [] (fun x => x.2.drop 3)
    !rest.isEmpty && rest.head? ≠ some '/'
  else if Dotenv.contains "://".toList lower || starts "javascript:" || starts "data:" then false
  else s.head? = some '/' || "./".toList.isPrefixOf s || "../".toList.isPrefixOf s || "~/".toList.isPrefixOf s ||
    s.contains '/' || s.contains '.' && s.getLast? ≠ some '.'

/-- The decision that an event records, if its tool call has recorded one. -/
def decisionFromEvent (names : String → Option String) (e : EventLite) : Option Decision :=
  if e.ty ≠ "tool_done" || (e.payload.get "name").bind asStr ≠ some "record_decision" then none
  else (e.payload.get "result").bind (fun r =>
    if (r.get "ok").bind asBool ≠ some true then none
    else (r.get "decision").bind (fun d =>
      let s := fun k => ((d.get k).bind asStr).getD ""
      if isEvidence (s "evidence") then
        some ⟨"agent",some e.runUuid,names e.runUuid,s "what",s "why",s "evidence",s "outcome",
          (d.get "step").bind Milestones.asI64,none,none⟩
      else none))

def decisionsFromEvents (events : List EventLite) (names : String → Option String) : List Decision :=
  events.filterMap (decisionFromEvent names)

def oneLine (s : String) (max : ℕ) : String :=
  let t := [' '].intercalate (MemoryRules.splitWhitespace s.toList)
  String.ofList (if max < t.length then t.take max++['…'] else t)

def receiptOutcome (status : String) : String :=
  if status = "done" then "ok"
  else if ["failed","refused","expired"].contains status then "failed"
  else if ["executing","pending","approved"].contains status then "running"
  else "unknown"

def decisionFromReceipt (r : ReceiptLite) : Decision where
  source := "receipt"
  runUuid := none
  agentName := none
  what := oneLine (if r.target = "" then r.actionLabel else r.actionLabel++" · "++r.target) 120
  why := match r.approvedByLabel with
    | some approver => if approver = "" then "Action soumise à accord" else "Accord donné par "++approver
    | none => "Action soumise à accord"
  evidence := "/app/receipts#"++r.uuid
  outcome := receiptOutcome r.status
  step := none
  detail := r.detail.map (oneLine · 200)
  createdAt := some r.createdAt

def decisionsFromReceipts (receipts : List ReceiptLite) : List Decision := receipts.map decisionFromReceipt

/-! ## The steps -/

/-- What the decisions say about a step, a failure first. -/
def decidedBy (decisions : List Decision) (n : ℕ) : Option StepState :=
  let mine := (decisions.filter (fun d => d.step = some (n : ℤ))).map Decision.outcome
  if mine.contains "failed" then some .failed
  else if mine.contains "ok" then some .ok
  else if mine.contains "skipped" then some .skipped
  else none

/-- What the workers of a swarm say about a step. -/
def followed (p : Playbook) (workers : List RunLite) (n : ℕ) : Option StepState :=
  let anyFailed := workers.any (fun w => isFailedStatus w.status)
  let allDone := workers.all (fun w => isTerminal w.status)
  if p.usesWorkers && !workers.isEmpty then
    some (if n = 1 || n = 2 then .ok else if allDone && anyFailed then .failed else if allDone then .ok else .running)
  else none

/-- The steps from the `n`-th on; of those without a result, the first is the current one. -/
def stepsFrom (decided : ℕ → Option StepState) (terminal failed : Bool) : ℕ → Bool → List String → List Step
  | _, _, [] => []
  | n, assigned, label::labels =>
    match decided n with
    | some state => ⟨n,label,state⟩::stepsFrom decided terminal failed (n+1) assigned labels
    | none =>
      if terminal then
        if failed && !assigned then ⟨n,label,.failed⟩::stepsFrom decided terminal failed (n+1) true labels
        else ⟨n,label,.missing⟩::stepsFrom decided terminal failed (n+1) assigned labels
      else if !assigned then ⟨n,label,.running⟩::stepsFrom decided terminal failed (n+1) true labels
      else ⟨n,label,.pending⟩::stepsFrom decided terminal failed (n+1) assigned labels

/-- The run and its workers have ended. -/
def ended (run : RunLite) (workers : List RunLite) : Bool :=
  isTerminal run.status && !workers.any (fun w => !isTerminal w.status)

def stepStates (run : RunLite) (playbook : Option Playbook) (decisions : List Decision) (workers : List RunLite) :
    List Step :=
  match playbook with
  | none => []
  | some p =>
    stepsFrom (fun n => (decidedBy decisions n).or (followed p workers n)) (ended run workers) (isFailedStatus run.status)
      1 false p.steps

def verdict (run : RunLite) (steps : List Step) (workers : List RunLite) : Verdict :=
  if !isTerminal run.status || workers.any (fun w => !isTerminal w.status) then .running
  else if isFailedStatus run.status || steps.any (fun s => s.state = .failed) ||
    workers.any (fun w => isFailedStatus w.status) then .failed
  else if steps.any (fun s => s.state = .missing) then .incomplete
  else .ok

structure Counters where
  toolsOk : ℕ
  toolsFailed : ℕ
  workersTotal : ℕ
  workersDone : ℕ
  workersFailed : ℕ
  decisions : ℕ
deriving DecidableEq, Repr

structure Live where
  runUuid : String
  status : String
  live : Bool
  verdict : Verdict
  steps : List Step
  counters : Counters
  decisions : List Decision

def nameOf (run : RunLite) (workers : List RunLite) (uuid : String) : Option String :=
  if uuid = run.uuid then run.agentName else (workers.find? (fun w => w.uuid = uuid)).bind RunLite.agentName

def toolsEnded (events : List EventLite) (ok : Bool) : ℕ :=
  events.countP (fun e => e.ty = "tool_done" && (e.payload.get "ok").bind asBool = some ok)

def computeLive (run : RunLite) (playbook : Option Playbook) (events : List EventLite) (workers : List RunLite)
    (receipts : List ReceiptLite) : Live :=
  let decisions := decisionsFromEvents events (nameOf run workers)++decisionsFromReceipts receipts
  let steps := stepStates run playbook decisions workers
  let v := verdict run steps workers
  ⟨run.uuid,run.status,v = .running,v,steps,
    ⟨toolsEnded events true,toolsEnded events false,workers.length,
      workers.countP (fun w => isOkStatus w.status),workers.countP (fun w => isFailedStatus w.status),decisions.length⟩,
    decisions⟩

end DevForge.PlaybookSteps
