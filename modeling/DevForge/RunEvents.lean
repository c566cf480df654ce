import DevForge.Sql
import DevForge.Table
import Mathlib.Data.List.Sort

/-!
# Events of one run

An execution of the run opens (or finds) its live channel, reads the last
number in the database, then numbers, publishes and writes its events until
its senders are gone, and closes the channel. The channels, the executions
and the rows of other runs are disjoint from those of this run.
-/

set_option autoImplicit false

namespace DevForge.RunEvents

/-- Window in which streamed pieces of text are merged, in milliseconds. -/
def DELTA_WINDOW : ℕ := 150

inductive MilestoneStatus where
  | running
  | done
  | failed
  deriving DecidableEq, Repr

/-- `other` stands for the variants that the sink only numbers and stores. -/
inductive AgentEvent where
  | delta (text : String) (round : ℕ)
  | milestone (label : String) (status : MilestoneStatus)
  | other (type payload : String)
  deriving DecidableEq, Repr

inductive Payload where
  | delta (text : String) (round : ℕ)
  | milestone (label : String) (status : MilestoneStatus)
  | json (text : String)
  deriving DecidableEq, Repr

structure RunEvent where
  seq : ℤ
  type : String
  payload : Payload
  deriving DecidableEq, Repr

def toPayload : AgentEvent → String × Payload
  | .delta text round => ("delta",.delta text round)
  | .milestone label status => ("milestone",.milestone label status)
  | .other type payload => (type,.json payload)

/-- Numbering, merging of the deltas, current milestones. -/
structure Sequencer where
  nextSeq : ℤ
  delta : Option (String × ℕ × Instant)
  milestones : List (String × MilestoneStatus)
  progressDirty : Bool
  deriving DecidableEq, Repr

namespace Sequencer

def startingAt (nextSeq : ℤ) : Sequencer := ⟨nextSeq,none,[],false⟩

def make (type : String) (payload : Payload) (q : Sequencer) : RunEvent × Sequencer :=
  (⟨q.nextSeq,type,payload⟩,{ q with nextSeq := q.nextSeq+1 })

/-- The delta that waits becomes one event. -/
def flushDelta (q : Sequencer) : List RunEvent × Sequencer :=
  match q.delta with
  | none => ([],q)
  | some (text,round,_) =>
    let r := make "delta" (.delta text round) { q with delta := none }
    ([r.1],r.2)

def deltaDue (now : Instant) (q : Sequencer) : Bool :=
  q.delta.any (fun d => DELTA_WINDOW ≤ now-d.2.2)

def setMilestone (label : String) (status : MilestoneStatus) :
    List (String × MilestoneStatus) → List (String × MilestoneStatus)
  | [] => [(label,status)]
  | m::ms => if m.1 = label then (label,status)::ms else m::setMilestone label status ms

def pushDelta (text : String) (round : ℕ) (now : Instant) (q : Sequencer) :
    List RunEvent × Sequencer :=
  match q.delta with
  | some (buf,r,t) =>
    if r = round then ([],{ q with delta := some (buf++text,r,t) })
    else (q.flushDelta.1,{ q.flushDelta.2 with delta := some (text,round,now) })
  | none => (q.flushDelta.1,{ q.flushDelta.2 with delta := some (text,round,now) })

def noteMilestone (ev : AgentEvent) (q : Sequencer) : Sequencer :=
  match ev with
  | .milestone label status =>
    { q with milestones := setMilestone label status q.milestones, progressDirty := true }
  | _ => q

/-- Events to emit for an agent event: the waiting delta, then the event. -/
def push (ev : AgentEvent) (now : Instant) (q : Sequencer) : List RunEvent × Sequencer :=
  match ev with
  | .delta text round => q.pushDelta text round now
  | _ =>
    let flushed := q.flushDelta
    let made := (noteMilestone ev flushed.2).make (toPayload ev).1 (toPayload ev).2
    (flushed.1++[made.1],made.2)

end Sequencer

/-- The broadcast carries the events of the buffer in order, then the end. -/
structure Channel where
  /-- How many events the run had emitted when the channel was opened. -/
  base : ℕ
  buffer : List RunEvent
  ended : Bool
  cancelled : Bool
  deriving DecidableEq, Repr

inductive Phase where
  | opened
  | sinking
  | draining
  | written
  | closed
  deriving DecidableEq, Repr

structure Execution where
  /-- The channel whose cancellation token the execution received. -/
  channel : ℕ
  /-- Whether that token was already cancelled. -/
  bornCancelled : Bool
  phase : Phase
  sequencer : Sequencer
  /-- Numbered, not yet published. -/
  outbox : List RunEvent
  /-- Published, not yet written. -/
  rows : List RunEvent
  deriving DecidableEq, Repr

abbrev Rows := Table ℤ (String × Payload)

structure State where
  channels : List Channel
  /-- The entry of the run in the hub. -/
  hub : Option ℕ
  executions : List Execution
  /-- The execution that read the last number most recently. -/
  latest : Option ℕ
  persisted : Rows
  progress : List (String × MilestoneStatus)
  /-- Every event published, with its execution. -/
  emitted : List (ℕ × RunEvent)

def start : State := ⟨[],none,[],none,Table.empty,[],[]⟩

/-- `INSERT … ON CONFLICT (run_uuid, seq) DO NOTHING`, with `seq as i32`. -/
def insertRow (t : Rows) (e : RunEvent) : Rows := t.insert (asI32 e.seq) (e.type,e.payload)

/-- `SELECT MAX(seq)`, 0 when there is no row. -/
def lastSeq (t : Rows) : ℤ := t.keys.max?.getD 0

/-- The first 5000 rows with `seq > after as i32`, in order. -/
def history (after : ℤ) (t : Rows) : List RunEvent :=
  let rows := (t.rows.filter (fun r => asI32 after < r.1)).insertionSort (fun a b => a.1 ≤ b.1)
  (rows.take 5000).map (fun r => ⟨r.1,r.2.1,r.2.2⟩)

inductive Action where
  | openChannel
  | readLastSeq (execution : ℕ)
  | push (execution : ℕ) (ev : AgentEvent) (now : Instant)
  | flushDelta (execution : ℕ) (now : Instant)
  | publish (execution : ℕ)
  | writeBatch (execution : ℕ)
  | sendersGone (execution : ℕ)
  | close (execution : ℕ)
  | cancelLocal
  | cancelWatch (execution : ℕ)
  deriving DecidableEq, Repr

/-- `open`: the entry of the hub, or a new channel. -/
def openChannel (s : State) : State :=
  match s.hub with
  | some c => { s with
      executions := s.executions++[⟨c,(s.channels[c]?).any Channel.cancelled,.opened,
        .startingAt 0,[],[]⟩] }
  | none => { s with
      channels := s.channels++[⟨s.emitted.length,[],false,false⟩]
      hub := some s.channels.length
      executions := s.executions++[⟨s.channels.length,false,.opened,.startingAt 0,[],[]⟩] }

def readLastSeq (i : ℕ) (x : Execution) (s : State) : State :=
  { s with
    executions := s.executions.set i
      { x with phase := .sinking, sequencer := .startingAt (lastSeq s.persisted+1) }
    latest := some i }

def numbered (i : ℕ) (x : Execution) (r : List RunEvent × Sequencer) (s : State) : State :=
  { s with executions := s.executions.set i { x with sequencer := r.2, outbox := r.1 } }

/-- The next event of the outbox goes to the entry of the hub and to the batch. -/
def publish (i : ℕ) (x : Execution) (e : RunEvent) (rest : List RunEvent) (s : State) : State :=
  { s with
    channels := match s.hub with
      | some c => s.channels.modify c (fun ch => { ch with buffer := ch.buffer++[e] })
      | none => s.channels
    executions := s.executions.set i { x with outbox := rest, rows := x.rows++[e] }
    emitted := s.emitted++[(i,e)] }

/-- The batch is inserted, then the progress when it changed. -/
def writeBatch (i : ℕ) (x : Execution) (phase : Phase) (s : State) : State :=
  { s with
    executions := s.executions.set i
      { x with
        phase := phase
        rows := []
        sequencer := { x.sequencer with progressDirty := false } }
    persisted := x.rows.foldl insertRow s.persisted
    progress := if x.sequencer.progressDirty then x.sequencer.milestones else s.progress }

/-- `close`: the entry of the hub is removed, its subscribers see the end. -/
def close (i : ℕ) (x : Execution) (s : State) : State :=
  { s with
    channels := match s.hub with
      | some c => s.channels.modify c (fun ch => { ch with ended := true })
      | none => s.channels
    hub := none
    executions := s.executions.set i { x with phase := .closed } }

def cancelToken (c : ℕ) (s : State) : State :=
  { s with channels := s.channels.modify c (fun ch => { ch with cancelled := true }) }

/-- What an execution does when it is scheduled for an action. -/
def advance (i : ℕ) (x : Execution) (s : State) : Action → State
  | .readLastSeq _ => if x.phase = .opened then readLastSeq i x s else s
  | .push _ ev now =>
    if x.phase = .sinking ∧ x.outbox = [] then numbered i x (x.sequencer.push ev now) s else s
  | .flushDelta _ now =>
    if x.phase = .sinking ∧ x.outbox = [] ∧ x.sequencer.deltaDue now then
      numbered i x x.sequencer.flushDelta s
    else s
  | .publish _ => match x.outbox with
    | e::rest => publish i x e rest s
    | [] => s
  | .writeBatch _ =>
    if x.outbox ≠ [] then s
    else if x.phase = .sinking then writeBatch i x .sinking s
    else if x.phase = .draining then writeBatch i x .written s
    else s
  | .sendersGone _ =>
    if x.phase = .sinking ∧ x.outbox = [] then
      numbered i { x with phase := .draining } x.sequencer.flushDelta s
    else s
  | .close _ => if x.phase = .written then close i x s else s
  | .cancelWatch _ => if x.phase = .sinking then cancelToken x.channel s else s
  | _ => s

/-- The execution that an action schedules. -/
def Action.execution : Action → Option ℕ
  | .readLastSeq i | .push i _ _ | .flushDelta i _ | .publish i | .writeBatch i | .sendersGone i
  | .close i | .cancelWatch i => some i
  | .openChannel | .cancelLocal => none

def step (s : State) (a : Action) : State :=
  match a.execution with
  | some i => match s.executions[i]? with
    | some x => advance i x s a
    | none => s
  | none => match a with
    | .openChannel => openChannel s
    | .cancelLocal => match s.hub with
      | some c => cancelToken c s
      | none => s
    | _ => s

end DevForge.RunEvents
