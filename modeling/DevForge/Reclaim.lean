import DevForge.InterimLeader
import DevForge.Transition

/-!
# The preferred leader takes the control plane back

`maybe_reclaim_preferred`, call by call: it asks every node for its status,
closes the writes of an interim that it must yield to, copies its database
physically or takes its snapshot file, closes its own writes, demotes the
interim and restarts from the copy. A call that fails may still be carried out
by the node it was sent to.
-/

set_option autoImplicit false

namespace DevForge.Reclaim
open ClusterLocal InterimLeader Transition

def mustYieldToInterim (myId : String) (myTerm : ℤ) (remoteId : String) (remoteActing : Bool)
    (remoteTerm : ℤ) : Bool :=
  if !remoteActing || remoteId = "" || remoteId = myId then false
  else remoteTerm = 0 || myTerm ≤ remoteTerm

inductive Phase where
  | idle
  | listing
  /-- Writes were reopened by hand; the nodes that remain to be asked. -/
  | holding (todo : List ℕ)
  | checking
  | quiescing (call : ℕ)
  | staging
  | arming
  | resuming (call : ℕ)
  /-- On its way to the snapshot file; `false` when a staged clone could not be
  armed. -/
  | fetching (resumed : Bool)
  | fetched (resumed : Bool) (copy : Copy)
  | fencing
  /-- The fence was not written, the interim is asked to resume. -/
  | unfencing (call : ℕ)
  | flagging
  | demoting (call : ℕ)
  | down
  | reopening
  deriving DecidableEq, Repr

/-- A restart, the interim it was for and the copy it was from. -/
structure Restart where
  interim : ℕ
  copy : Option Copy
  deriving Repr

def Restart.holds (r : Restart) (k : ℕ) : Prop := ∃ c ∈ r.copy, c.interim = r.interim ∧ k < c.commits

instance (r : Restart) (k : ℕ) : Decidable (r.holds k) := by
  unfold Restart.holds
  infer_instance

structure State where
  row : LocalClusterState
  hold : Bool
  /-- The `.pending-restore` file. -/
  pending : Option Copy
  staged : Option Copy
  armed : Bool
  flag : Option LocalClusterState
  interims : List Interim
  phase : Phase
  /-- The row as the attempt read it. -/
  loc : LocalClusterState
  /-- The nodes that are left, the one in hand and its term. -/
  rest : List ℕ
  target : ℕ
  term : ℤ
  restarts : List Restart
  /-- The interims on which the last attempt gave up. -/
  gaveUp : List ℕ
  /-- The last attempt ended without a restart. -/
  ended : Bool
  deriving Repr

def start (row : LocalClusterState) (hold : Bool) (interims : List (LocalClusterState × Bool)) :
    State :=
  ⟨row,hold,none,none,false,none,interims.map (fun n => Interim.start n.1 n.2),.idle,row,[],0,0,
    [],[],false⟩

def setInterim (i : ℕ) (n : Interim) (s : State) : State := { s with interims := s.interims.set i n }

def onInterim (i : ℕ) (f : Interim → State → State) (s : State) : State :=
  match s.interims[i]? with
  | some n => f n s
  | none => s

/-- A call to the node in hand. -/
def send (op : Op) (phase : ℕ → Phase) (s : State) : State :=
  onInterim s.target
    (fun n s => { setInterim s.target (n.receive op) s with phase := phase n.tasks.length }) s

/-- The call has been carried out. -/
def answered (call : ℕ) (s : State) : Bool :=
  s.interims[s.target]?.any (fun n => n.answered call)

def yieldsTo (s : State) (n : Interim) : Bool :=
  mustYieldToInterim s.loc.nodeId s.loc.leaderTerm n.row.nodeId n.row.actingLeader n.row.leaderTerm

/-- The next node; its status fails. -/
def skip (s : State) : State :=
  match s.phase with
  | .holding (_::todo) => { s with phase := .holding todo }
  | .checking => { s with rest := s.rest.tail }
  | _ => s

/-- The interim in hand is left for the next node. -/
def giveUp (s : State) : State := { s with gaveUp := s.gaveUp++[s.target], phase := .checking }

/-- The status of the next node. -/
def status (s : State) : State :=
  match s.phase with
  | .holding (j::_) => onInterim j
    (fun n s => if yieldsTo s n then { s with phase := .reopening } else skip s) s
  | .holding [] => { s with hold := false, phase := .checking }
  | .checking => match s.rest with
    | j::rest => onInterim j (fun n s =>
        if yieldsTo s n then
          send .failoverQuiesce .quiescing { s with
            target := j
            term := n.row.leaderTerm
            rest := rest
            gaveUp := s.gaveUp.filter (· ≠ j) }
        else skip s) s
    | [] => { s with phase := .reopening }
  | _ => s

def replicates (s : State) : Bool := s.interims[s.target]?.any Interim.replicates

/-- The call in hand is answered. -/
def callOk (s : State) : State :=
  match s.phase with
  | .quiescing call =>
    if answered call s then
      if replicates s then { s with staged := none, phase := .staging }
      else send .failoverResume .resuming s
    else s
  | .resuming call => if answered call s then { s with phase := .fetching true } else s
  | .unfencing call => if answered call s then giveUp s else s
  | .demoting call => if answered call s then { s with phase := .down } else s
  | _ => s

/-- The call in hand fails: no answer, or an error. -/
def callFails (s : State) : State :=
  match s.phase with
  | .quiescing _ => { s with phase := .fetching true }
  | .resuming _ => { s with phase := .fetching true }
  | .unfencing _ => giveUp s
  | .demoting _ => { s with phase := .down }
  | _ => s

def fetch (s : State) : State :=
  match s.phase with
  | .fetching resumed => onInterim s.target (fun n s =>
      match n.file with
      | some copy => { s with phase := .fetched resumed copy }
      | none => s) s
  | _ => s

/-- No snapshot, not one of Postgres, or one that cannot be written. -/
def copyFails (s : State) : State :=
  match s.phase with
  | .fetching _ | .fetched _ _ => giveUp s
  | _ => s

def save (s : State) : State :=
  match s.phase with
  | .fetched _ copy => { s with pending := some copy, phase := .fencing }
  | _ => s

def prefUrl (l : LocalClusterState) : String :=
  if l.advertiseUrl = "" then l.leaderUrl else l.advertiseUrl

def fenced (s : State) : LocalClusterState := (Op.reclaimFence s.term).apply s.loc

/-- What the boot restores: a pending dump over an armed clone. -/
def bootSource (s : State) : Option Copy := s.pending.or (if s.armed then s.staged else none)

def booted (restored : Option Copy) (flag : Option LocalClusterState) (row : LocalClusterState) :
    LocalClusterState :=
  let row := (restored.map Copy.row).getD row
  releaseOrphanFence ((flag.map (fun l => setLocal (reclaimed l))).getD row)

/-- The process starts again; a clone may fail to be adopted. -/
def boot (adopted : Bool) (s : State) : State :=
  let restored := s.pending.or (if s.armed && adopted then s.staged else none)
  { s with
    row := booted restored s.flag s.row
    pending := none
    staged := if s.armed && adopted then none else s.staged
    armed := s.armed && !adopted
    flag := none
    phase := .idle
    restarts := s.restarts++[⟨s.target,restored⟩]
    gaveUp := []
    ended := false }

/-- `reopen_writes`, and the end of the attempt. -/
def reopen (written : Bool) (s : State) : State :=
  { s with
    row := if s.loc.writesFenced && written then setLocal (Op.reopenWrites.apply s.loc) else s.row
    phase := .idle
    ended := true }

inductive Action where
  | interim (i : ℕ) (event : Event)
  | begin
  | list (nodes : List ℕ)
  | listFails
  | status
  | statusFails
  | callOk
  | callFails
  | stage
  | stageFails
  | arm
  | armFails
  | fetch
  | copyFails
  | save
  | fence
  | fenceFails
  | flag (written : Bool)
  | boot (adopted : Bool)
  | reopen (written : Bool)
  deriving Repr

def step (s : State) : Action → State
  | .interim i e => onInterim i (fun n => setInterim i (n.next i e)) s
  | .begin => match s.phase with
    | .idle => if mayReclaim s.row then
        { s with loc := s.row, phase := .listing, gaveUp := [], ended := false }
      else s
    | _ => s
  | .list nodes => match s.phase with
    | .listing => { s with
        rest := nodes
        phase := if s.hold then .holding nodes else .checking }
    | _ => s
  | .listFails => match s.phase with
    | .listing => { s with phase := .reopening }
    | _ => s
  | .status => status s
  | .statusFails => skip s
  | .callOk => callOk s
  | .callFails => callFails s
  | .stage => match s.phase with
    | .staging => onInterim s.target
      (fun n s => { s with staged := some (n.copy s.target), phase := .arming }) s
    | _ => s
  | .stageFails => match s.phase with
    | .staging => send .failoverResume .resuming s
    | _ => s
  | .arm => match s.phase with
    | .arming => { s with armed := true, phase := .fencing }
    | _ => s
  | .armFails => match s.phase with
    | .arming => { s with phase := .fetching false }
    | _ => s
  | .fetch => fetch s
  | .copyFails => copyFails s
  | .save => save s
  | .fence => match s.phase with
    | .fencing => { s with row := setLocal (fenced s), phase := .flagging }
    | _ => s
  | .fenceFails => match s.phase with
    | .fencing => send .failoverResume .unfencing s
    | _ => s
  | .flag written => match s.phase with
    | .flagging => send (.failoverDemote (prefUrl s.loc)) .demoting
        { s with flag := if written then some (Op.reclaimFlag.apply (fenced s)) else s.flag }
    | _ => s
  | .boot adopted => match s.phase with
    | .down => boot adopted s
    | _ => s
  | .reopen written => match s.phase with
    | .reopening => reopen written s
    | _ => s

/-- The copy from which the leader restarts holds the writes that the interim
acknowledged before it was demoted; an attempt that gives up leaves the writes
of the interim and of the leader open. -/
structure Keeps (s : State) : Prop where
  copies : ∀ r ∈ s.restarts, ∀ n ∈ s.interims[r.interim]?, ∀ k ∈ n.acknowledged, r.holds k
  interims : ∀ i ∈ s.gaveUp, ∀ n ∈ s.interims[i]?, n.row.writesFenced = false
  preferred : s.ended → s.row.writesFenced = false

/-- The leader has closed its writes and goes down. -/
def Phase.leaving : Phase → Bool
  | .flagging | .demoting _ | .down => true
  | _ => false

/-- A commit of an interim that has not been demoted: the leader neither goes
down for it nor has restarted from it. -/
def CommitOrderly (i : ℕ) (n : Interim) (s : State) : Prop :=
  n.demotedAt = none → (s.phase.leaving → s.target ≠ i) ∧ ∀ r ∈ s.restarts, r.interim ≠ i

instance (i : ℕ) (n : Interim) (s : State) : Decidable (CommitOrderly i n s) := by
  unfold CommitOrderly
  infer_instance

def EventOrderly (i : ℕ) (n : Interim) (s : State) : Event → Prop
  | .commit => CommitOrderly i n s
  | .writeTask k => ∀ t ∈ n.tasks[k]?, FlagKept n t
  | _ => True

instance (i : ℕ) (n : Interim) (s : State) (e : Event) : Decidable (EventOrderly i n s e) := by
  unfold EventOrderly
  split <;> infer_instance

/-- A quiesce that fails is not in force and not under way; a resume that fails
has been carried out. -/
def FailOrderly (n : Interim) : Phase → Prop
  | .quiescing call => n.row.writesFenced = false ∧ n.fencing call = false
  | .resuming _ | .unfencing _ => n.row.writesFenced = false
  | _ => True

instance (n : Interim) (phase : Phase) : Decidable (FailOrderly n phase) := by
  unfold FailOrderly
  split <;> infer_instance

/-- The attempt may give up: a clone that could not be armed leaves the interim
closed until the quiesce expires. -/
def CopyFailOrderly (n : Interim) : Phase → Prop
  | .fetching false | .fetched false _ => n.row.writesFenced = false
  | _ => True

instance (n : Interim) (phase : Phase) : Decidable (CopyFailOrderly n phase) := by
  unfold CopyFailOrderly
  split <;> infer_instance

def Orderly (s : State) : Action → Prop
  | .interim i e => ∀ n ∈ s.interims[i]?, EventOrderly i n s e
  | .callFails => ∀ n ∈ s.interims[s.target]?, FailOrderly n s.phase
  | .copyFails => ∀ n ∈ s.interims[s.target]?, CopyFailOrderly n s.phase
  | .arm => s.pending = none
  | .fence => ∀ n ∈ s.interims[s.target]?, ∀ c ∈ bootSource s, n.reign ≤ c.commits
  | .boot adopted => s.pending = none → adopted
  | .reopen written => s.loc.writesFenced → written
  | _ => True

instance (s : State) (a : Action) : Decidable (Orderly s a) := by
  unfold Orderly
  split <;> infer_instance

end DevForge.Reclaim
