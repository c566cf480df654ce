import DevForge.PageWatches
import DevForge.Transition

/-!
# Checks of page watches by several instances

Claims, results of checks, pauses, resumptions, edits and deletions are
separate statements, in any order. A lease is taken under a token drawn anew;
a check that lost its lease has no way to get it back.
-/

set_option autoImplicit false

namespace DevForge.WatchRuns
open PageWatches SeparatedParts Transition

/-- A check in progress, with the row as it was claimed. It is lost once the
row has been deleted, paused or leased under another token. -/
structure Task where
  w : PageWatch
  owner : String
  lost : Bool

def Task.token (t : Task) : String := t.w.leaseOwner.getD t.owner

def Task.holds (rows : Rows) (t : Task) : Bool := (rows.get t.w.uuid).any (PageWatch.held t.token)

/-- A state of the page that a check has recorded, or a change of the address
or of the condition. -/
inductive Event where
  | observed (watch : Uuid) (stateHash : String) (alerted : Bool)
  | edited (watch : Uuid)
  deriving DecidableEq, Repr

def Event.watch : Event → Uuid
  | .observed watch _ _ => watch
  | .edited watch => watch

structure State where
  now : Instant
  store : Store
  tasks : List Task
  /-- The identifiers and the tokens drawn so far. -/
  uuids : List Uuid
  tokens : List String
  history : List Event

inductive Action where
  | tick (seconds : ℕ)
  | create (uuid workspace : Uuid) (e : WatchEdit)
  | claimDue (picked : List Uuid) (owner token : String)
  | claimOne (uuid : Uuid) (owner token : String)
  | apply (i : ℕ) (page : Except String Reading) (httpStatus : Option ℕ) (durationMs : ℕ)
  | abandon (i : ℕ)
  | pause (workspace uuid : Uuid)
  | resume (workspace uuid : Uuid)
  | delete (workspace uuid : Uuid)
  | update (workspace : Uuid) (current : PageWatch) (e : WatchEdit)

variable (digest : String → String)

def State.withRows (s : State) (rows : Rows) : State :=
  { s with store := { s.store with rows := rows } }

/-- The rows claimed, as the statement returns them. -/
def claim (s : State) (p : Uuid → PageWatch → Bool) (rows : Rows) (owner token : String) : State :=
  if token ∈ s.tokens then s
  else { s.withRows rows with
    tokens := s.tokens++[token]
    tasks := s.tasks++(s.store.rows.affected p).filterMap (fun k =>
      (rows.get k).map (fun w => ⟨w,owner,false⟩)) }

/-- What a check has read, evaluated against the row that it has claimed. -/
def evaluated (w : PageWatch) (page : Except String Reading) : Except String Evaluation :=
  match page with
  | .error e => .error e
  | .ok reading => evaluate digest w.spec reading w.lastHash

def observation (w : PageWatch) (result : Except String Evaluation) (alerts : Alerts) : List Event :=
  match result with
  | .error _ => []
  | .ok ev => [.observed w.uuid ev.stateHash
      ((w.decide digest result).alert.any (fun a => a.dedupeKey ∉ alerts.keys))]

def finish (s : State) (t : Task) (input : CheckInput) : State :=
  { s with
    store := applyCheck digest t.w t.owner input s.now s.store
    history := if t.holds s.store.rows
      then s.history++observation digest t.w input.result s.store.alerts else s.history }

/-- The edit changes the address or the condition of the row, or resets it. -/
def changes (workspace : Uuid) (current : PageWatch) (e : WatchEdit) (rows : Rows) : Bool :=
  (rows.get current.uuid).any (fun w => w.workspaceUuid = workspace &&
    (e.url ≠ current.url || e.spec ≠ current.spec || e.url ≠ w.url || e.spec ≠ w.spec))

def act (s : State) : Action → State
  | .tick seconds => { s with now := s.now+seconds }
  | .create uuid workspace e =>
    if uuid ∈ s.uuids then s
    else { s.withRows (s.store.rows.insert uuid (newWatch uuid workspace e s.now)) with
      uuids := s.uuids++[uuid] }
  | .claimDue picked owner token =>
    claim s (duePicked picked s.now) (claimDue picked token s.now s.store.rows) owner token
  | .claimOne uuid owner token =>
    claim s (claimable uuid s.now) (claimOne uuid token s.now s.store.rows) owner token
  | .apply i page httpStatus durationMs => match s.tasks[i]? with
    | some t => finish digest { s with tasks := s.tasks.eraseIdx i } t
        ⟨evaluated digest t.w page,httpStatus,durationMs⟩
    | none => s
  | .abandon i => { s with tasks := s.tasks.eraseIdx i }
  | .pause workspace uuid => s.withRows (pause workspace uuid s.store.rows)
  | .resume workspace uuid => s.withRows (resume workspace uuid s.now s.store.rows)
  | .delete workspace uuid => { s with store := delete workspace uuid s.store }
  | .update workspace current e =>
    { s.withRows (applyUpdate workspace current e s.now s.store.rows) with
      history := if changes workspace current e s.store.rows
        then s.history++[.edited current.uuid] else s.history }

/-- Whatever has lost its lease is marked. -/
def mark (s : State) : State :=
  { s with tasks := s.tasks.map (fun t => { t with lost := t.lost || !t.holds s.store.rows }) }

def step (s : State) (a : Action) : State := mark (act digest s a)

def start : State := ⟨0,⟨Table.empty,Table.empty,[]⟩,[],[],[],[]⟩

def alertCount (s : Store) (k : Uuid) : ℕ :=
  (s.alerts.rows.filter (fun e => e.2.watchUuid = k)).length

/-- A different state of the watch. -/
def Event.differs (k : Uuid) (h : String) : Event → Bool
  | .observed watch stateHash _ => watch = k && stateHash ≠ h
  | .edited _ => false

/-- A different state of the watch, or an edit of it. -/
def Event.breaks (k : Uuid) (h : String) (e : Event) : Bool :=
  e.differs k h || e = .edited k

/-- Between two alerts on the same state there is an event of that kind. -/
def NoRepeat (breaks : Uuid → String → Event → Bool) (history : List Event) : Prop :=
  ∀ (i j : ℕ) (k : Uuid) (h : String), i < j → history[i]? = some (Event.observed k h true) →
    history[j]? = some (Event.observed k h true) →
    ∃ n e, i < n ∧ n < j ∧ history[n]? = some e ∧ breaks k h e

/-- The state alerted last, if nothing has broken the series since. -/
def streak (history : List Event) (k : Uuid) : Option String :=
  history.foldl (fun last e => match e with
    | .observed watch h alerted =>
      if watch ≠ k then last
      else if alerted then some h
      else if last = some h then last else none
    | .edited watch => if watch = k then none else last) none

end DevForge.WatchRuns
