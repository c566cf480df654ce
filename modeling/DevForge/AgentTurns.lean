import DevForge.AgentRuns
import DevForge.Transition
import Mathlib.Data.List.Sort

/-!
# Turns of the agents

A user turn, a wake and a trigger insert a message, enqueue its run, claim it
and execute it, each as a task of pieces; the boot resumes the runs that were
cut, and the lease watch starts again those whose lease expired. The state
keeps which execution wrote which reply, and what each wake left behind.
-/

set_option autoImplicit false

namespace DevForge.AgentTurns
open AgentRuns Transition

inductive Origin where
  /-- A turn in front of the screen: claims its own run. -/
  | chat
  /-- `record_user_turn`, then `trigger_agent_turn`. -/
  | turn
  | wake
  | trigger
  /-- `start_run_now`, or a run spawned by the resumption. -/
  | started
  deriving DecidableEq, Repr

inductive Pc where
  /-- SELECT of `enqueue`, for the caller's own message or for the last one. -/
  | enqueue (own : Bool) (message : Uuid)
  /-- INSERT of `enqueue`. -/
  | insert (own : Bool) (message : Uuid)
  | select
  | check (run message : Uuid)
  | answered (run message : Uuid)
  | load (run : Uuid)
  | claim (run message : Uuid)
  | executing (run message : Uuid)
  | saved (run message : Uuid) (status : EndStatus)
  | ended (run message : Uuid)
  | returned
  deriving DecidableEq, Repr

structure Task where
  origin : Origin
  project : Uuid
  agent : Uuid
  /-- The message that the caller inserted. -/
  own : Option Uuid
  pc : Pc
  deriving DecidableEq, Repr

structure RunRow where
  uuid : Uuid
  project : Uuid
  agent : Uuid
  message : Uuid
  content : String
  deriving DecidableEq, Repr

inductive Resume where
  | off
  | failed
  | recovered
  | claiming (todo : List RunRow)
  | checking (run : RunRow) (todo : List RunRow)
  | answered (run : RunRow) (todo : List RunRow)
  deriving DecidableEq, Repr

structure State where
  now : Instant
  db : Db
  /-- `instance_id` of the process. -/
  owner : Uuid
  tasks : List Task
  resume : Resume
  /-- Between the two UPDATEs of the lease watch. -/
  watching : Bool
  /-- The assistant message that each execution of a run wrote. -/
  replies : List (Uuid × Uuid)
  /-- For each wake that returned, its message and whether its run was left
  pending without a claimer. -/
  wakes : List (Uuid × Bool)

def start (agents : Table Uuid AgentStatus) (owner : Uuid) : State :=
  ⟨0,⟨Table.empty,Table.empty,agents,0⟩,owner,[],.off,false,[],[]⟩

/-- `SELECT uuid FROM agent_runs WHERE message_uuid = $1`. -/
def runOf (message : Uuid) (db : Db) : Option Uuid :=
  (db.runs.rows.find? (fun e => e.2.messageUuid = message)).map Prod.fst

/-- INSERT of a run; the message is unique. -/
def insertRun (fresh project agent message : Uuid) (now : Instant) (db : Db) : Bool × Db :=
  if (runOf message db).isSome ∨ fresh ∈ db.runs.keys then (false,db)
  else (true,{ db with runs := db.runs.insert fresh (AgentRun.new project agent message now) })

/-- The last message of a user in the thread of the agent. -/
def lastUserMessage (agent : Uuid) (db : Db) : Option Uuid :=
  let thread := db.messages.rows.filter (fun e => e.2.agentUuid = agent && e.2.role = .user)
  (thread.foldl (fun best e =>
    if best.all (fun b => b.2.id < e.2.id) then some e else best) none).map Prod.fst

def loadRun (run : Uuid) (db : Db) : Option RunRow :=
  (db.runs.get run).bind (fun r => (db.messages.get r.messageUuid).map (fun m =>
    ⟨run,r.projectUuid,r.agentUuid,r.messageUuid,m.content⟩))

/-- The oldest pending runs, at most 20. -/
def listPending (db : Db) : List RunRow :=
  (((db.runs.rows.filter (·.2.status = .pending)).insertionSort
    (fun a b => a.2.createdAt ≤ b.2.createdAt)).filterMap (fun e => loadRun e.1 db)).take 20

/-- A task that is on its way to claim the run. -/
def Task.claims (db : Db) (run : Uuid) (t : Task) : Bool :=
  match t.pc with
  | .enqueue _ message | .insert _ message => runOf message db = some run
  | .check r _ | .claim r _ | .load r => r = run
  | _ => false

def Resume.claims (run : Uuid) : Resume → Bool
  | .claiming todo | .checking _ todo | .answered _ todo => todo.any (·.uuid = run)
  | _ => false

def setTask (i : ℕ) (t : Task) (s : State) : State := { s with tasks := s.tasks.set i t }

def move (i : ℕ) (t : Task) (pc : Pc) (s : State) : State := setTask i { t with pc := pc } s

/-- The run of this message is pending, and nobody is about to claim it. -/
def abandoned (message : Uuid) (s : State) : Bool :=
  (runOf message s.db).any (fun run => s.db.status run = some .pending &&
    !s.tasks.any (Task.claims s.db run) && !s.resume.claims run)

/-- A wake returns `Ok` whatever its turn returned. -/
def leave (i : ℕ) (t : Task) (s : State) : State :=
  let s := move i t .returned s
  match t.origin, t.own with
  | .wake, some message => { s with wakes := s.wakes++[(message,abandoned message s)] }
  | _, _ => s

/-- After `enqueue` of the caller's own message. -/
def afterOwn (t : Task) (run message : Uuid) : Pc :=
  if t.origin = .chat then .claim run message else .select

/-- The next piece of a task. -/
def next (i : ℕ) (t : Task) (fresh : Uuid) (s : State) : State :=
  match t.pc with
  | .enqueue own message =>
    match runOf message s.db with
    | some run => move i t (if own then afterOwn t run message else .check run message) s
    | none => move i t (.insert own message) s
  | .insert own message =>
    let r := insertRun fresh t.project t.agent message s.now s.db
    if fresh ∈ s.db.runs.keys then s
    else if r.1 then
      move i t (if own then afterOwn t fresh message else .check fresh message) { s with db := r.2 }
    else if own ∧ t.origin = .wake then move i t .select s
    else leave i t s
  | .select =>
    match lastUserMessage t.agent s.db with
    | some message => move i t (.enqueue false message) s
    | none => leave i t s
  | .check run message =>
    if assistantAlreadyReplied t.agent message s.db then move i t (.answered run message) s
    else move i t (.claim run message) s
  | .answered run message =>
    move i t (.ended run message) { s with db := finish run .completed none s.now s.db }
  | .load run =>
    match loadRun run s.db with
    | some r => setTask i { t with project := r.project, agent := r.agent, pc := .claim run r.message } s
    | none => leave i t s
  | .claim run message =>
    let r := tryClaimAs run s.owner s.now s.db
    if r.1 then move i t (.executing run message) { s with db := r.2 }
    else leave i t { s with db := r.2 }
  | .executing _ _ => s
  | .saved run message status =>
    move i t (.ended run message)
      { s with db := setAgentStatus t.agent .idle (finish run status none s.now s.db) }
  | .ended _ _ => leave i t s
  | .returned => s

/-- The INSERT of `save_assistant_and_finish_as`. -/
def reply (i : ℕ) (t : Task) (uuid : Uuid) (content : String) (status : EndStatus) (s : State) :
    State :=
  match t.pc with
  | .executing run message =>
    if uuid ∈ s.db.messages.keys ∨ status = .failed then s
    else move i t (.saved run message status)
      { s with
        db := insertMessage uuid t.project t.agent .assistant content s.now s.db
        replies := s.replies++[(run,uuid)] }
  | _ => s

def fail (i : ℕ) (t : Task) (error : String) (s : State) : State :=
  match t.pc with
  | .executing run message =>
    move i t (.ended run message) { s with db := failRun run t.agent error s.now s.db }
  | _ => s

/-- The heartbeat of the lease while a run executes. -/
def renew (t : Task) (s : State) : State :=
  match t.pc with
  | .executing run _ => { s with db := (renewLease run s.owner s.now s.db).2 }
  | _ => s

/-- A caller inserts its message and goes on to enqueue it. -/
def say (origin : Origin) (uuid project agent : Uuid) (content : String) (s : State) : State :=
  if uuid ∈ s.db.messages.keys then s
  else { s with
    db := setAgentStatus agent .working
      (insertMessage uuid project agent .user content s.now s.db)
    tasks := s.tasks++[⟨origin,project,agent,some uuid,.enqueue true uuid⟩] }

def wakeBody (marker content : String) : String :=
  if marker = "" then content else marker++"\n\n"++content

/-- Other messages: cards, notes of the system, messages left by tools. -/
def post (uuid project agent : Uuid) (role : Role) (content : String) (s : State) : State :=
  if uuid ∈ s.db.messages.keys then s
  else { s with db := insertMessage uuid project agent role content s.now s.db }

/-- `start_pending_run` of a run that was requeued. -/
def pendingStart (db : Db) (run : Uuid) : Option Task :=
  (db.runs.get run).map (fun r => ⟨.started,r.projectUuid,r.agentUuid,none,.load run⟩)

/-- The lease watch runs once the boot has recovered its runs. -/
def watch (s : State) : State :=
  if s.resume = .off ∨ s.resume = .failed then s
  else if s.watching then
    let r := recoverRequeued false s.now s.db
    { s with db := r.2, watching := false, tasks := s.tasks++r.1.filterMap (pendingStart r.2) }
  else { s with db := (recoverFailed false s.now s.db).2, watching := true }

/-- One piece of `resume_agent_runs`. -/
def resumeNext (s : State) : State :=
  match s.resume with
  | .off => { s with db := (recoverFailed true s.now s.db).2, resume := .failed }
  | .failed => { s with db := (recoverRequeued true s.now s.db).2, resume := .recovered }
  | .recovered => { s with resume := .claiming (listPending s.db) }
  | .claiming [] => s
  | .claiming (run::todo) =>
    let r := tryClaimAs run.uuid s.owner s.now s.db
    { s with db := r.2, resume := if r.1 then .checking run todo else .claiming todo }
  | .checking run todo =>
    if assistantAlreadyReplied run.agent run.message s.db then { s with resume := .answered run todo }
    else { s with
      tasks := s.tasks++[⟨.started,run.project,run.agent,none,.executing run.uuid run.message⟩]
      resume := .claiming todo }
  | .answered run todo =>
    { s with db := finish run.uuid .completed none s.now s.db, resume := .claiming todo }

/-- The tasks die with the process. -/
def restart (owner : Uuid) (s : State) : State :=
  { s with owner := owner, tasks := [], resume := .off, watching := false }

inductive Action where
  | tick (seconds : ℕ)
  | chat (uuid project agent : Uuid) (content : String)
  | turn (uuid project agent : Uuid) (content : String)
  | wake (uuid project agent : Uuid) (marker content : String)
  | trigger (project agent : Uuid)
  | post (uuid project agent : Uuid) (role : Role) (content : String)
  | next (task : ℕ) (fresh : Uuid)
  | reply (task : ℕ) (uuid : Uuid) (content : String) (status : EndStatus)
  | fail (task : ℕ) (error : String)
  | renew (task : ℕ)
  | watch
  | resumeNext
  | restart (owner : Uuid)
  deriving DecidableEq, Repr

def onTask (i : ℕ) (f : Task → State → State) (s : State) : State :=
  match s.tasks[i]? with
  | some t => f t s
  | none => s

def step (s : State) : Action → State
  | .tick seconds => { s with now := s.now+seconds }
  | .chat uuid project agent content => say .chat uuid project agent content s
  | .turn uuid project agent content => say .turn uuid project agent content s
  | .wake uuid project agent marker content =>
    say .wake uuid project agent (wakeBody marker content) s
  | .trigger project agent => { s with tasks := s.tasks++[⟨.trigger,project,agent,none,.select⟩] }
  | .post uuid project agent role content => post uuid project agent role content s
  | .next i fresh => onTask i (fun t => next i t fresh) s
  | .reply i uuid content status => onTask i (fun t => reply i t uuid content status) s
  | .fail i error => onTask i (fun t => fail i t error) s
  | .renew i => onTask i renew s
  | .watch => watch s
  | .resumeNext => resumeNext s
  | .restart owner => restart owner s

def replied (s : State) (run : Uuid) : Bool := s.replies.any (·.1 = run)

/-- A completed run was answered by an execution of its own: the assistant
message that it wrote stands after the run's message in the same thread. -/
def Answered (s : State) : Prop :=
  ∀ k r, s.db.runs.get k = some r → r.status = .completed →
    ∃ e ∈ s.replies, e.1 = k ∧ ∃ m a, s.db.messages.get r.messageUuid = some m ∧
      s.db.messages.get e.2 = some a ∧ a.role = .assistant ∧ a.agentUuid = r.agentUuid ∧ m.id < a.id

/-- No wake that returned left its run pending without a claimer. -/
def NoneAbandoned (s : State) : Prop := ∀ w ∈ s.wakes, w.2 = false

def TurnOrderly (s : State) (t : Task) : Prop :=
  match t.pc with
  | .select => t.origin = .wake → lastUserMessage t.agent s.db = t.own
  | .check run message => assistantAlreadyReplied t.agent message s.db → replied s run
  | _ => True

def ResumeOrderly (s : State) : Prop :=
  match s.resume with
  | .checking run _ => assistantAlreadyReplied run.agent run.message s.db → replied s run.uuid
  | _ => True

instance (s : State) (t : Task) : Decidable (TurnOrderly s t) := by
  unfold TurnOrderly
  split <;> infer_instance

instance (s : State) : Decidable (ResumeOrderly s) := by
  unfold ResumeOrderly
  split <;> infer_instance

/-- A wake selects the message that it inserted; when a run is checked for an
answer, no assistant message stands after its message unless an execution of
this run has replied. -/
def Orderly (s : State) : Action → Prop
  | .next i _ => ∀ t ∈ s.tasks[i]?, TurnOrderly s t
  | .resumeNext => ResumeOrderly s
  | _ => True

instance (s : State) (a : Action) : Decidable (Orderly s a) := by
  unfold Orderly
  split <;> infer_instance

end DevForge.AgentTurns
