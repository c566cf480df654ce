import DevForge.ClusterLocal
import DevForge.Transition

/-!
# Replication of snapshots

The leader dumps its database, numbers the dump and pushes it to one peer
before a write is answered `replicated`; workers also fetch the leader's file
after a heartbeat. When the leader is gone, a worker elects itself by its
roster and is promoted from its own file. Commits are counted, and a dump
holds those made before it.
-/

set_option autoImplicit false

namespace DevForge.SnapshotReplication
open ClusterLocal Transition

abbrev NodeId := ℕ

structure ClusterNode where
  id : NodeId
  role : NodeRole
  online : Bool
  drained : Bool
  advertiseUrl : String
  /-- `is_loopback_advertise_url`. -/
  loopback : Bool
  deriving DecidableEq, Repr

structure RosterEntry where
  id : NodeId
  role : NodeRole
  advertiseUrl : String
  drained : Bool
  deriving DecidableEq, Repr

def ClusterNode.entry (n : ClusterNode) : RosterEntry := ⟨n.id,n.role,n.advertiseUrl,n.drained⟩

def workerEligible (n : ClusterNode) : Bool :=
  n.role = .worker && !n.drained && n.online && trim n.advertiseUrl ≠ "" && !n.loopback

/-- In the order of the list. -/
def replicationPeers (nodes : List ClusterNode) (self : NodeId) : List NodeId :=
  (nodes.filter (fun n => n.id ≠ self && workerEligible n)).map ClusterNode.id

def RosterEntry.candidate (e : RosterEntry) : Bool :=
  e.role = .worker && !e.drained && trim e.advertiseUrl ≠ ""

/-- The smallest id among the candidates. -/
def pickFailoverWinner (roster : List RosterEntry) : Option NodeId :=
  ((roster.filter RosterEntry.candidate).map RosterEntry.id).min?

def iAmFailoverWinner (me : NodeId) (roster : List RosterEntry) : Bool :=
  pickFailoverWinner roster = some me

def earlierCandidates (me : NodeId) (roster : List RosterEntry) : List NodeId :=
  ((roster.filter (fun e => e.candidate && e.id < me)).map RosterEntry.id)

def FAILOVER_FAIL_STREAK : ℕ := 4

/-- The generation of a dump and the number of commits it holds. -/
structure Snapshot where
  generation : ℕ
  commits : ℕ
  deriving DecidableEq, Repr

/-- A snapshot as the leader read it from its file, the how manieth time. -/
structure Copy where
  serial : ℕ
  snapshot : Snapshot
  deriving DecidableEq, Repr

/-- A job for the lock of the leader: to replicate a write, or the periodic dump. -/
structure Job where
  write : Option ℕ
  deriving DecidableEq, Repr

inductive Phase where
  | free
  | locked (job : Job)
  | ready (job : Job) (peers : List NodeId)
  | dumped (job : Job) (peers : List NodeId) (commits : ℕ)
  | renamed (job : Job) (peers : List NodeId)
  | counted (job : Job) (peers : List NodeId)
  | pushing (write : ℕ) (copy : Copy) (generation : ℕ) (peers : List NodeId)
  | awaiting (write : ℕ) (copy : Copy) (generation push : ℕ) (peer : NodeId) (peers : List NodeId)
  deriving Repr

inductive AcceptPc where
  | sent
  | read (generation : ℕ)
  | written (generation : ℕ)
  | done
  | refused
  deriving DecidableEq, Repr

/-- A pushed copy at a peer: `accept_cluster_snapshot`. -/
structure Accept where
  push : ℕ
  copy : Copy
  generation : ℕ
  pc : AcceptPc
  deriving DecidableEq, Repr

structure Ack where
  generation : ℕ
  roster : List RosterEntry
  deriving DecidableEq, Repr

inductive LoopPc where
  | idle
  | acked (ack : Ack) (needSnap : Bool)
  | fetching
  | fetched (copy : Copy)
  | electing
  deriving DecidableEq, Repr

structure Worker where
  id : NodeId
  generation : ℕ
  file : Option Copy
  roster : List RosterEntry
  fails : ℕ
  loop : LoopPc
  accepts : List Accept
  elected : Bool
  deriving DecidableEq, Repr

/-- A promotion, and whether the leader was dead. -/
structure Election where
  worker : NodeId
  snapshot : Snapshot
  leaderDead : Bool
  deriving DecidableEq, Repr

structure State where
  self : NodeId
  alive : Bool
  nodes : List ClusterNode
  commits : ℕ
  generation : ℕ
  file : Option Snapshot
  waiting : List Job
  phase : Phase
  pushes : ℕ
  workers : List Worker
  /-- What the leader has read from its file. -/
  reads : List Snapshot
  /-- Writes answered `replicated`, with the copy that the peer accepted. -/
  replicated : List (ℕ × Copy)
  /-- Files of workers that were replaced: the old one and the new one. -/
  replaced : List (Snapshot × Snapshot)
  elections : List Election

def start (self : NodeId) (ids : List NodeId) : State :=
  ⟨self,true,[],0,0,none,[],.free,0,ids.map (fun id => ⟨id,0,none,[],0,.idle,[],false⟩),[],[],[],[]⟩

/-- The leader reads its file. -/
def readFile (f : Snapshot) (s : State) : Copy × State :=
  (⟨s.reads.length,f⟩,{ s with reads := s.reads++[f] })

def setWorker (i : ℕ) (w : Worker) (s : State) : State := { s with workers := s.workers.set i w }

def onWorker (i : ℕ) (f : Worker → State → State) (s : State) : State :=
  match s.workers[i]? with
  | some w => f w s
  | none => s

/-- A worker's file is replaced. -/
def writeFile (i : ℕ) (w : Worker) (copy : Copy) (s : State) : State :=
  setWorker i { w with file := some copy }
    { s with replaced := s.replaced++(w.file.map (fun old => (old.snapshot,copy.snapshot))).toList }

/-- The request of a push, at the peer it is sent to. -/
def send (peer : NodeId) (a : Accept) (s : State) : State :=
  { s with
    workers := s.workers.map (fun w => if w.id = peer then { w with accepts := w.accepts++[a] } else w)
    pushes := s.pushes+1 }

def accepted (peer : NodeId) (push : ℕ) (s : State) : Bool :=
  s.workers.any (fun w => w.id = peer && w.accepts.any (fun a => a.push = push && a.pc = .done))

/-- The next piece of the job that holds the lock. -/
def leaderNext (s : State) : State :=
  if !s.alive then s else
  match s.phase with
  | .free => s
  | .locked job =>
    let peers := replicationPeers s.nodes s.self
    if job.write.isSome && peers.isEmpty then { s with phase := .free }
    else { s with phase := .ready job peers }
  | .ready job peers => { s with phase := .dumped job peers s.commits }
  | .dumped job peers commits =>
    { s with file := some ⟨s.generation+1,commits⟩, phase := .renamed job peers }
  | .renamed job peers => { s with generation := s.generation+1, phase := .counted job peers }
  | .counted job peers =>
    match job.write, s.file with
    | some write, some f =>
      let r := readFile f s
      { r.2 with phase := .pushing write r.1 s.generation peers }
    | _, _ => { s with phase := .free }
  | .pushing _ _ _ [] => { s with phase := .free }
  | .pushing write copy generation (peer::peers) =>
    { send peer ⟨s.pushes,copy,generation,.sent⟩ s with
      phase := .awaiting write copy generation s.pushes peer peers }
  | .awaiting write copy _ push peer _ =>
    if accepted peer push s then
      { s with replicated := s.replicated++[(write,copy)], phase := .free }
    else s

/-- A push that fails or times out may still be carried out by the peer. -/
def pushFailed (s : State) : State :=
  match s.phase with
  | .awaiting write copy generation _ _ peers => { s with phase := .pushing write copy generation peers }
  | _ => s

/-- One piece of `accept_cluster_snapshot`: the generations are compared once
the file has been replaced. -/
def acceptNext (i k : ℕ) (w : Worker) (s : State) : State :=
  match w.accepts[k]? with
  | none => s
  | some a =>
    let at_ (pc : AcceptPc) (w : Worker) : Worker := { w with accepts := w.accepts.set k { a with pc := pc } }
    match a.pc with
    | .sent => setWorker i (at_ (if w.elected then .refused else .read w.generation) w) s
    | .read generation => writeFile i (at_ (.written generation) w) a.copy s
    | .written generation =>
      setWorker i (at_ .done { w with
        generation := if generation < a.generation then a.generation else w.generation }) s
    | .done | .refused => s

/-- The leader answers a heartbeat. -/
def heartbeat (i : ℕ) (due : Bool) (w : Worker) (s : State) : State :=
  if s.alive && !w.elected && w.loop = .idle then
    let ack : Ack := ⟨s.generation,s.nodes.map ClusterNode.entry⟩
    setWorker i { w with loop := .acked ack (w.generation < ack.generation || due), fails := 0 } s
  else s

/-- The next piece of the worker loop after a heartbeat that was answered. -/
def loopNext (i : ℕ) (standby : Bool) (w : Worker) (s : State) : State :=
  match w.loop with
  | .acked ack needSnap => setWorker i { w with
      generation := ack.generation
      roster := if ack.roster.isEmpty then w.roster else ack.roster
      loop := if needSnap && !standby then .fetching else .idle } s
  | .fetching =>
    match s.alive, s.file with
    | true, some f =>
      let r := readFile f s
      setWorker i { w with loop := .fetched r.1 } r.2
    | true, none => setWorker i { w with loop := .idle } { s with waiting := s.waiting++[⟨none⟩] }
    | false, _ => setWorker i { w with loop := .idle } s
  | .fetched copy => writeFile i { w with loop := .idle } copy s
  | .idle | .electing => s

def missHeartbeat (i : ℕ) (w : Worker) (s : State) : State :=
  if !w.elected && w.loop = .idle then
    if w.fails+1 < FAILOVER_FAIL_STREAK then setWorker i { w with fails := w.fails+1 } s
    else setWorker i { w with loop := .electing, fails := 0 } s
  else s

/-- The worker promotes itself: it wins by its roster, and no earlier candidate
has answered that it leads. -/
def wins (answered : Bool) (w : Worker) (s : State) : Bool :=
  !(answered && s.workers.any (fun u => u.elected && u.id ∈ earlierCandidates w.id w.roster)) &&
    iAmFailoverWinner w.id w.roster

/-- `try_elect`, promoted from the snapshot. -/
def tryElect (i : ℕ) (answered : Bool) (w : Worker) (s : State) : State :=
  if w.loop = .electing then
    match wins answered w s, w.file with
    | true, some copy => setWorker i { w with loop := .idle, elected := true }
        { s with elections := s.elections++[⟨w.id,copy.snapshot,!s.alive⟩] }
    | _, _ => setWorker i { w with loop := .idle } s
  else s

inductive Action where
  | setNodes (nodes : List ClusterNode)
  | write
  | refresh
  | acquire (job : ℕ)
  | leaderNext
  | giveUp
  | pushFailed
  | die
  | heartbeat (worker : ℕ) (due : Bool)
  | loopNext (worker : ℕ) (standby : Bool)
  | loopFails (worker : ℕ)
  | acceptNext (worker accept : ℕ)
  | missHeartbeat (worker : ℕ)
  | tryElect (worker : ℕ) (answered : Bool)
  deriving Repr

def step (s : State) : Action → State
  | .setNodes nodes => { s with nodes := nodes }
  | .write =>
    if s.alive then { s with commits := s.commits+1, waiting := s.waiting++[⟨some s.commits⟩] } else s
  | .refresh => { s with waiting := s.waiting++[⟨none⟩] }
  | .acquire k => match s.phase, s.waiting[k]? with
    | .free, some job => { s with phase := .locked job, waiting := s.waiting.eraseIdx k }
    | _, _ => s
  | .leaderNext => leaderNext s
  | .giveUp => { s with phase := .free }
  | .pushFailed => pushFailed s
  | .die => { s with alive := false }
  | .heartbeat i due => onWorker i (heartbeat i due) s
  | .loopNext i standby => onWorker i (loopNext i standby) s
  | .loopFails i => onWorker i (fun w => setWorker i { w with loop := .idle }) s
  | .acceptNext i k => onWorker i (acceptNext i k) s
  | .missHeartbeat i => onWorker i (missHeartbeat i) s
  | .tryElect i answered => onWorker i (tryElect i answered) s

/-- Writes answered `replicated` are in the snapshot that a worker was promoted
from after the leader's death; no file of a worker was replaced by an older one. -/
structure Survives (s : State) : Prop where
  elected : ∀ e ∈ s.elections, e.leaderDead → ∀ r ∈ s.replicated, r.1 < e.snapshot.commits
  replaced : ∀ r ∈ s.replaced, r.1.generation ≤ r.2.generation

def NotOverLater (w : Worker) (copy : Copy) : Prop := ∀ old ∈ w.file, old.serial ≤ copy.serial

instance (w : Worker) (copy : Copy) : Decidable (NotOverLater w copy) := by
  unfold NotOverLater
  infer_instance

def AcceptOrderly (w : Worker) (a : Accept) : Prop :=
  match a.pc with
  | .read _ => NotOverLater w a.copy
  | _ => True

def FetchOrderly (w : Worker) : Prop :=
  match w.loop with
  | .fetched copy => NotOverLater w copy
  | _ => True

instance (w : Worker) (a : Accept) : Decidable (AcceptOrderly w a) := by
  unfold AcceptOrderly
  split <;> infer_instance

instance (w : Worker) : Decidable (FetchOrderly w) := by
  unfold FetchOrderly
  split <;> infer_instance

/-- A worker writes the copies in the order in which the leader read them; the
one that wins after the leader's death holds a copy read no earlier than every
copy that was acknowledged. -/
def Orderly (s : State) : Action → Prop
  | .acceptNext i k => ∀ w ∈ s.workers[i]?, ∀ a ∈ w.accepts[k]?, AcceptOrderly w a
  | .loopNext i _ => ∀ w ∈ s.workers[i]?, FetchOrderly w
  | .tryElect i answered => ∀ w ∈ s.workers[i]?, w.loop = .electing → s.alive = false →
      wins answered w s → ∀ copy ∈ w.file, ∀ r ∈ s.replicated, r.2.serial ≤ copy.serial
  | _ => True

instance (s : State) (a : Action) : Decidable (Orderly s a) := by
  unfold Orderly
  split <;> infer_instance

end DevForge.SnapshotReplication
