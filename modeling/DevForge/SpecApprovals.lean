import DevForge.Sql
import DevForge.Transition

/-!
# Approvals of a spec

The status of a spec is a file. An approval, by an agent or by a user, reads
it, writes it back as being implemented, creates a worker row by row, and
writes the worker in the file. A retry of a failed spec and a refusal go the
same way. Calls interleave, and each of their steps may be the last.
-/

set_option autoImplicit false

namespace DevForge.SpecApprovals

inductive SpecPhase where
  | awaitingValidation
  | implement
  | converged
  | failed
  | rejected
  deriving DecidableEq, Repr

def SpecPhase.name : SpecPhase → String
  | .awaitingValidation => "awaiting_validation"
  | .implement => "implement"
  | .converged => "converged"
  | .failed => "failed"
  | .rejected => "rejected"

structure FeatureStatus where
  slug : String
  title : String
  phase : SpecPhase
  attempts : ℕ
  workerUuid : Option Uuid
  note : String
  provider : String
  dismissed : Bool
  blocker : String
  updatedAt : Instant
  /-- How often the spec was reopened; the file does not have it. -/
  round : ℕ
  deriving DecidableEq, Repr

/-- The attempt that a status stands for. -/
def FeatureStatus.attempt (st : FeatureStatus) : ℕ × ℕ := (st.round,st.attempts)

def NOTE_IN_PROGRESS : String := "En cours."

def NOTE_NO_TOOL_PROVIDER : String :=
  "Ollama ne peut pas écrire cette fonctionnalité : il n'appelle pas les outils. Aucun autre modèle configuré n'est utilisable."

def specify (slug title : String) (now : Instant) : FeatureStatus :=
  { slug := slug
    title := title
    phase := .awaitingValidation
    attempts := 0
    workerUuid := none
    note := "En attente de ton accord."
    provider := ""
    dismissed := false
    blocker := ""
    updatedAt := now
    round := 0 }

def wrongPhase (what : String) (st : FeatureStatus) : String :=
  what++" impossible : phase actuelle « "++st.phase.name++" »"

/-- What `approve` writes for what it has read. -/
def approve (now : Instant) : Option FeatureStatus → Except String FeatureStatus
  | none => .error "spec introuvable"
  | some st =>
    if st.phase ≠ .awaitingValidation then .error (wrongPhase "validation" st)
    else .ok { st with
      phase := .implement
      attempts := 1
      note := NOTE_IN_PROGRESS
      blocker := ""
      updatedAt := now }

def reject (note : String) (now : Instant) : Option FeatureStatus → Except String FeatureStatus
  | none => .error "spec introuvable"
  | some st =>
    if st.phase ≠ .awaitingValidation then .error (wrongPhase "rejet" st)
    else .ok { st with
      phase := .rejected
      dismissed := true
      note := if trim note = "" then "Spec refusée. Aucun code." else trim note
      updatedAt := now }

def reopenForRetry (now : Instant) : Option FeatureStatus → Except String FeatureStatus
  | none => .error "spec introuvable"
  | some st =>
    if st.dismissed then .error "spec retirée"
    else if st.phase ≠ .failed then .error (wrongPhase "nouvel essai" st)
    else .ok { st with
      phase := .implement
      attempts := 1
      blocker := ""
      provider := ""
      note := NOTE_IN_PROGRESS
      updatedAt := now
      round := st.round+1 }

def blockNoToolProvider (now : Instant) (st : FeatureStatus) : FeatureStatus :=
  { st with
    phase := .failed
    blocker := "no_provider"
    note := NOTE_NO_TOOL_PROVIDER
    provider := ""
    updatedAt := now }

/-- The last change of `approve_and_start`. -/
def started (worker : Uuid) (label : String) (st : FeatureStatus) : FeatureStatus :=
  { st with
    workerUuid := some worker
    note := NOTE_IN_PROGRESS
    blocker := ""
    provider := if label = "" then st.provider else label }

/-- The first line of the message of the worker, by which its end finds the spec. -/
def promptHead (slug : String) (attempt : ℕ) : String :=
  "SDD-IMPLEMENT:"++slug++":attempt="++toString attempt

/-- A pending run of a worker, with the head of its message. -/
structure Run where
  agentUuid : Uuid
  head : String
  attempt : ℕ × ℕ
  deriving DecidableEq, Repr

inductive Caller where
  | agent
  | user
  | retry
  | refuse (note : String)
  deriving DecidableEq, Repr

inductive Reply where
  | error (text : String)
  | alreadyStarted (worker : Uuid)
  | blocked
  | started (worker : Uuid)
  | refused
  deriving DecidableEq, Repr

inductive Pc where
  | read
  | load
  | store (st : FeatureStatus)
  | plan (st : FeatureStatus)
  | block (st : FeatureStatus)
  | coordinator (st : FeatureStatus) (label : String)
  | worker (st : FeatureStatus) (label : String)
  | message (st : FeatureStatus) (label : String) (worker : Uuid)
  | run (st : FeatureStatus) (label : String) (worker : Uuid)
  | record (st : FeatureStatus) (label : String) (worker : Uuid)
  | returned (reply : Reply)
  deriving DecidableEq, Repr

def Pc.isReturned : Pc → Bool
  | .returned _ => true
  | _ => false

/-- Before the spec is marked as being implemented. -/
def Pc.unmarked : Pc → Bool
  | .read | .load | .store _ => true
  | _ => false

structure Call where
  caller : Caller
  pc : Pc
  deriving DecidableEq, Repr

structure State where
  file : Option FeatureStatus
  workers : List Uuid
  messages : List (Uuid × String)
  runs : List Run
  calls : List Call
  deriving DecidableEq, Repr

def start (slug title : String) (now : Instant) : State :=
  ⟨some (specify slug title now),[],[],[],[]⟩

/-- What a step gets from outside: the time, the answer of the search for a
model that can call tools (`none` when it fails), and a new identifier. -/
structure Oracle where
  now : Instant
  plan : Option (Bool × String)
  uuid : Uuid
  deriving DecidableEq, Repr

def entry : Caller → Pc
  | .agent => .read
  | _ => .load

def load (caller : Caller) (now : Instant) (file : Option FeatureStatus) :
    Except String FeatureStatus :=
  match caller with
  | .agent | .user => approve now file
  | .retry => reopenForRetry now file
  | .refuse note => reject note now file

namespace State

def goto (s : State) (n : ℕ) (c : Call) (pc : Pc) : State :=
  { s with calls := s.calls.set n { c with pc := pc } }

/-- The next step of a call, which succeeds. -/
def next (s : State) (n : ℕ) (c : Call) (o : Oracle) : State :=
  match c.pc with
  | .read =>
    match s.file with
    | some st =>
      if st.phase = .implement then
        match st.workerUuid with
        | some worker => s.goto n c (.returned (.alreadyStarted worker))
        | none => s.goto n c (.plan st)
      else s.goto n c .load
    | none => s.goto n c .load
  | .load =>
    match load c.caller o.now s.file with
    | .error e => s.goto n c (.returned (.error e))
    | .ok st => s.goto n c (.store st)
  | .store st =>
    let s' := { s with file := some st }
    match c.caller with
    | .refuse _ => s'.goto n c (.returned .refused)
    | _ => s'.goto n c (.plan st)
  | .plan st =>
    match o.plan with
    | some (false,_) => s.goto n c (.block st)
    | some (true,label) => s.goto n c (.coordinator st label)
    | none => s.goto n c (.coordinator st "")
  | .block st =>
    { s with file := some (blockNoToolProvider o.now st) }.goto n c (.returned .blocked)
  | .coordinator st label => s.goto n c (.worker st label)
  | .worker st label => { s with workers := s.workers++[o.uuid] }.goto n c (.message st label o.uuid)
  | .message st label worker =>
    { s with messages := s.messages++[(worker,promptHead st.slug st.attempts)] }.goto n c
      (.run st label worker)
  | .run st label worker =>
    let run := Run.mk worker (promptHead st.slug st.attempts) st.attempt
    { s with runs := s.runs++[run] }.goto n c (.record st label worker)
  | .record st label worker =>
    { s with file := some (SpecApprovals.started worker label st) }.goto n c
      (.returned (.started worker))
  | .returned _ => s

/-- The next step of a call fails, or the call is cut off. -/
def fail (s : State) (n : ℕ) (c : Call) (error : String) : State :=
  if c.pc.isReturned then s else s.goto n c (.returned (.error error))

end State

inductive Action where
  | call (caller : Caller)
  | next (n : ℕ) (o : Oracle)
  | fail (n : ℕ) (error : String)
  deriving DecidableEq, Repr

def step (s : State) : Action → State
  | .call caller => { s with calls := s.calls++[Call.mk caller (entry caller)] }
  | .next n o =>
    match s.calls[n]? with
    | some c => s.next n c o
    | none => s
  | .fail n error =>
    match s.calls[n]? with
    | some c => s.fail n c error
    | none => s

end DevForge.SpecApprovals
