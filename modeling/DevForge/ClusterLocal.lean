import DevForge.Sql
import DevForge.WriteBack

/-!
# The local cluster state

The one row of `cluster_local`, the operations that read it, change the copy
in memory and write it back whole, and the fields that each of them is meant
to change.
-/

set_option autoImplicit false

namespace DevForge.ClusterLocal

inductive NodeRole where
  | leader
  | worker
  deriving DecidableEq, Repr

def LEADER_NODE_ID : String := "default"

structure LocalClusterState where
  role : NodeRole
  leaderUrl : String
  nodeId : String
  nodeSecret : String
  nodeName : String
  advertiseUrl : String
  preferredLeaderId : String
  preferredLeaderUrl : String
  failoverSecret : String
  snapshotGeneration : ℤ
  actingLeader : Bool
  leaderTerm : ℤ
  writesFenced : Bool
  deriving DecidableEq, Repr

inductive Field where
  | role
  | leaderUrl
  | nodeId
  | nodeSecret
  | nodeName
  | advertiseUrl
  | preferredLeaderId
  | preferredLeaderUrl
  | failoverSecret
  | snapshotGeneration
  | actingLeader
  | leaderTerm
  | writesFenced
  deriving DecidableEq, Repr

def Field.all : Finset Field :=
  {.role,.leaderUrl,.nodeId,.nodeSecret,.nodeName,.advertiseUrl,.preferredLeaderId,
    .preferredLeaderUrl,.failoverSecret,.snapshotGeneration,.actingLeader,.leaderTerm,.writesFenced}

instance : Fintype Field := ⟨Field.all,fun f => by cases f <;> decide⟩

inductive Value where
  | role (role : NodeRole)
  | text (text : String)
  | number (number : ℤ)
  | flag (flag : Bool)
  deriving DecidableEq, Repr

def LocalClusterState.value (l : LocalClusterState) : Field → Value
  | .role => .role l.role
  | .leaderUrl => .text l.leaderUrl
  | .nodeId => .text l.nodeId
  | .nodeSecret => .text l.nodeSecret
  | .nodeName => .text l.nodeName
  | .advertiseUrl => .text l.advertiseUrl
  | .preferredLeaderId => .text l.preferredLeaderId
  | .preferredLeaderUrl => .text l.preferredLeaderUrl
  | .failoverSecret => .text l.failoverSecret
  | .snapshotGeneration => .number l.snapshotGeneration
  | .actingLeader => .flag l.actingLeader
  | .leaderTerm => .number l.leaderTerm
  | .writesFenced => .flag l.writesFenced

/-- `saturating_add(1)` of a 64-bit integer. -/
def saturatingSucc (n : ℤ) : ℤ := if n = 2^63-1 then n else n+1

/-- What `get_local` reads after `set_local`. -/
def setLocal (l : LocalClusterState) : LocalClusterState :=
  { l with
    preferredLeaderId := if l.preferredLeaderId = "" then LEADER_NODE_ID else l.preferredLeaderId
    leaderTerm := if l.leaderTerm < 1 then 1 else l.leaderTerm }

/-- `trim().trim_end_matches('/')`. -/
def trimUrl (raw : String) : String :=
  String.ofList ((trim raw).toList.reverse.dropWhile (· = '/')).reverse

def normalizeHttpUrl (raw : String) : Option String :=
  let u := trimUrl raw
  if "http://".toList.isPrefixOf u.toList || "https://".toList.isPrefixOf u.toList then some u
  else none

def clusterAuthOk (l : LocalClusterState) (provided : String) : Bool :=
  provided ≠ "" && ((l.nodeSecret ≠ "" && provided = l.nodeSecret) ||
    (l.failoverSecret ≠ "" && provided = l.failoverSecret))

/-- What the worker loop keeps of the answer to a heartbeat. -/
structure HeartbeatAck where
  generation : ℤ
  preferredLeaderId : String
  preferredLeaderUrl : String
  failoverSecret : String
  leaderTerm : ℤ
  deriving DecidableEq, Repr

inductive Op where
  | failoverQuiesce
  /-- The task that reopens writes 120 s after a quiesce. -/
  | quiesceExpired
  | failoverResume
  | failoverDemote (preferredLeaderUrl : String)
  | writeClusterSnapshot
  | acceptClusterSnapshot (generation : ℤ)
  | persistAck (ack : HeartbeatAck)
  /-- The worker loop goes back to the preferred leader. -/
  | followPreferred
  /-- `try_elect` follows an interim leader. -/
  | followPeer (advertiseUrl : String)
  /-- `try_elect` won: the identity and the promotion flag are written. -/
  | elect
  | patchLocal (leaderUrl advertiseUrl : Option String)
  | reopenWrites
  | reopenClusterWrites
  /-- `maybe_reclaim_preferred` closes its writes before the restart. -/
  | reclaimFence (leaderTerm : ℤ)
  /-- The reclaim flag is written. -/
  | reclaimFlag
  deriving DecidableEq, Repr

def preferredUrl (l : LocalClusterState) : String :=
  if trim l.preferredLeaderUrl = "" then l.leaderUrl else l.preferredLeaderUrl

def mayReclaim (l : LocalClusterState) : Bool :=
  l.role = .leader && !l.actingLeader &&
    (l.nodeId = l.preferredLeaderId || l.nodeId = LEADER_NODE_ID)

/-- The checks of an operation on the row it reads; one that fails them, or
that has nothing to write, ends there. -/
def Op.opens (op : Op) (l : LocalClusterState) : Bool :=
  match op with
  | .failoverQuiesce => l.actingLeader || l.role = .leader
  | .quiesceExpired => l.writesFenced && l.actingLeader
  | .failoverResume => true
  | .failoverDemote _ => l.actingLeader
  | .writeClusterSnapshot => true
  | .acceptClusterSnapshot generation => l.role = .worker && l.snapshotGeneration < generation
  | .persistAck _ | .followPeer _ | .elect => l.role = .worker && l.nodeSecret ≠ ""
  | .followPreferred => l.role = .worker && l.nodeSecret ≠ "" && preferredUrl l ≠ l.leaderUrl
  | .patchLocal leaderUrl advertiseUrl =>
    (leaderUrl.isSome || advertiseUrl.isSome) &&
      leaderUrl.all (fun u => (normalizeHttpUrl u).isSome) &&
      advertiseUrl.all (fun u => (normalizeHttpUrl u).isSome)
  | .reopenWrites => mayReclaim l && l.writesFenced
  | .reopenClusterWrites => true
  | .reclaimFence _ => mayReclaim l
  | .reclaimFlag => false

/-- Requests between nodes carry a secret. -/
def Op.authenticated : Op → Bool
  | .failoverQuiesce | .failoverResume | .failoverDemote _ | .acceptClusterSnapshot _ => true
  | _ => false

/-- The value if it is not empty. -/
def orKeep (new old : String) : String := if new = "" then old else new

/-- The copy that an operation writes back. -/
def Op.apply (op : Op) (l : LocalClusterState) : LocalClusterState :=
  match op with
  | .failoverQuiesce => { l with writesFenced := true }
  | .quiesceExpired => { l with writesFenced := false }
  | .failoverResume => { l with writesFenced := false }
  | .failoverDemote url => { l with
      leaderUrl := orKeep (trimUrl url) l.leaderUrl
      preferredLeaderUrl := orKeep (trimUrl url) l.preferredLeaderUrl
      role := .worker
      actingLeader := false
      writesFenced := false }
  | .writeClusterSnapshot => { l with snapshotGeneration := saturatingSucc l.snapshotGeneration }
  | .acceptClusterSnapshot generation => { l with snapshotGeneration := generation }
  | .persistAck ack => { l with
      preferredLeaderId := orKeep ack.preferredLeaderId l.preferredLeaderId
      preferredLeaderUrl := orKeep ack.preferredLeaderUrl l.preferredLeaderUrl
      failoverSecret := orKeep ack.failoverSecret l.failoverSecret
      leaderTerm := if l.leaderTerm < ack.leaderTerm then ack.leaderTerm else l.leaderTerm
      snapshotGeneration := ack.generation }
  | .followPreferred => { l with leaderUrl := preferredUrl l, actingLeader := false }
  | .followPeer advertiseUrl => { l with leaderUrl := advertiseUrl }
  | .elect => l
  | .patchLocal leaderUrl advertiseUrl =>
    let leader := leaderUrl.bind normalizeHttpUrl
    { l with
      leaderUrl := leader.getD l.leaderUrl
      advertiseUrl := (advertiseUrl.bind normalizeHttpUrl).getD
        (if l.role = .leader then leader.getD l.advertiseUrl else l.advertiseUrl) }
  | .reopenWrites => { l with writesFenced := false }
  | .reopenClusterWrites => { l with actingLeader := false, writesFenced := false }
  | .reclaimFence leaderTerm => { l with
      leaderTerm := if l.leaderTerm < leaderTerm then leaderTerm else l.leaderTerm
      writesFenced := true
      actingLeader := false
      role := .leader }
  | .reclaimFlag => { l with writesFenced := false }

/-- The fields that an operation is meant to change. -/
def Op.meant (op : Op) (l : LocalClusterState) (f : Field) : Bool :=
  match op with
  | .failoverQuiesce | .quiesceExpired | .failoverResume | .reopenWrites => f = .writesFenced
  | .failoverDemote url => f ∈ [.role,.actingLeader,.writesFenced] ||
    (trimUrl url ≠ "" && f ∈ [.leaderUrl,.preferredLeaderUrl])
  | .writeClusterSnapshot | .acceptClusterSnapshot _ => f = .snapshotGeneration
  | .persistAck ack => f = .snapshotGeneration ||
    (ack.preferredLeaderId ≠ "" && f = .preferredLeaderId) ||
    (ack.preferredLeaderUrl ≠ "" && f = .preferredLeaderUrl) ||
    (ack.failoverSecret ≠ "" && f = .failoverSecret) ||
    (l.leaderTerm < ack.leaderTerm && f = .leaderTerm)
  | .followPreferred => f ∈ [.leaderUrl,.actingLeader]
  | .followPeer _ => f = .leaderUrl
  | .patchLocal leaderUrl advertiseUrl => (leaderUrl.isSome && f = .leaderUrl) ||
    ((advertiseUrl.isSome || (l.role = .leader && leaderUrl.isSome)) && f = .advertiseUrl)
  | .reopenClusterWrites => f = .writesFenced || (l.actingLeader && f = .actingLeader)
  | .reclaimFence leaderTerm => f = .writesFenced || (l.leaderTerm < leaderTerm && f = .leaderTerm)
  | .elect | .reclaimFlag => false

/-- `apply_promote_flag`: the identity becomes that of an interim leader. -/
def promoted (l : LocalClusterState) : LocalClusterState :=
  { l with
    role := .leader
    actingLeader := true
    writesFenced := false
    leaderTerm := max (saturatingSucc l.leaderTerm) 1
    leaderUrl := l.advertiseUrl }

def promotedFields : Field → Bool
  | .role | .actingLeader | .writesFenced | .leaderTerm | .leaderUrl => true
  | _ => false

/-- `apply_reclaim_flag`: the leader of origin is back. -/
def reclaimed (l : LocalClusterState) : LocalClusterState :=
  { l with
    role := .leader
    actingLeader := false
    writesFenced := false
    leaderUrl := if trim l.advertiseUrl = "" then l.leaderUrl else l.advertiseUrl }

def reclaimedFields (l : LocalClusterState) : Field → Bool
  | .writesFenced => true
  | .leaderUrl => trim l.advertiseUrl ≠ ""
  | _ => false

/-- A row as the store returns it. -/
structure Normal (l : LocalClusterState) : Prop where
  preferred : l.preferredLeaderId ≠ ""
  term : 1 ≤ l.leaderTerm

theorem setLocal_normal (l : LocalClusterState) : Normal (setLocal l) where
  preferred := by
    simp only [setLocal]
    split
    · decide
    · assumption
  term := by
    simp only [setLocal]
    split <;> omega

theorem Normal.setLocal_eq {l : LocalClusterState} (h : Normal l) : setLocal l = l := by
  have ht : ¬ l.leaderTerm < 1 := by
    have := h.term
    omega
  simp [setLocal, h.preferred, ht]

theorem orKeep_ne {new old : String} (h : old ≠ "") : orKeep new old ≠ "" := by
  unfold orKeep
  split <;> assumption

/-- The copy of an operation never has a lower term. -/
theorem Op.term_le (op : Op) (l : LocalClusterState) : l.leaderTerm ≤ (op.apply l).leaderTerm := by
  cases op
  case persistAck => simp only [Op.apply]; split <;> omega
  case reclaimFence => simp only [Op.apply]; split <;> omega
  all_goals simp only [Op.apply, le_refl]

theorem Normal.apply {l : LocalClusterState} (h : Normal l) (op : Op) : Normal (op.apply l) where
  preferred := by
    cases op
    case persistAck => exact orKeep_ne h.preferred
    all_goals
      simp only [Op.apply]
      exact h.preferred
  term := le_trans h.term (op.term_le l)

theorem Normal.promoted {l : LocalClusterState} (h : Normal l) : Normal (promoted l) where
  preferred := h.preferred
  term := le_max_right _ _

theorem Normal.reclaimed {l : LocalClusterState} (h : Normal l) : Normal (reclaimed l) :=
  ⟨h.preferred,h.term⟩

theorem term_le_promoted (l : LocalClusterState) : l.leaderTerm ≤ (promoted l).leaderTerm := by
  simp only [promoted, saturatingSucc]
  split <;> omega

/-- A fence and its flag are written by a leader that is not acting. -/
def Op.ofLeader : Op → Bool
  | .reclaimFence _ | .reclaimFlag => true
  | _ => false

/-- An operation changes no other field than those it is meant to change. -/
theorem Op.apply_frame (op : Op) (l : LocalClusterState)
    (h : op.ofLeader → l.role = .leader ∧ l.actingLeader = false) (hf : op ≠ .reclaimFlag) :
    WriteBack.AgreeOff LocalClusterState.value (op.meant l) (op.apply l) l := by
  intro f hm
  cases op with
  | failoverDemote url =>
    simp only [meant] at hm
    cases f <;> simp_all [apply, LocalClusterState.value, orKeep]
  | persistAck ack =>
    simp only [meant] at hm
    cases f <;> simp_all [apply, LocalClusterState.value, orKeep]
  | patchLocal leaderUrl advertiseUrl =>
    simp only [meant] at hm
    cases f <;> cases leaderUrl <;> cases advertiseUrl <;>
      simp_all [apply, LocalClusterState.value]
  | reclaimFence leaderTerm =>
    obtain ⟨hr,ha⟩ := h rfl
    simp only [meant] at hm
    cases f <;> simp_all [apply, LocalClusterState.value]
  | reopenClusterWrites =>
    simp only [meant] at hm
    cases f <;> simp_all [apply, LocalClusterState.value]
  | reclaimFlag => exact absurd rfl hf
  | _ =>
    simp only [meant] at hm
    cases f <;> first | (simp at hm; done) | simp only [apply, LocalClusterState.value]

theorem promoted_frame (l : LocalClusterState) :
    WriteBack.AgreeOff LocalClusterState.value promotedFields (promoted l) l := by
  intro f hm
  cases f <;> first | rfl | simp [promotedFields] at hm

theorem reclaimed_frame (l : LocalClusterState) (hr : l.role = .leader)
    (ha : l.actingLeader = false) :
    WriteBack.AgreeOff LocalClusterState.value (reclaimedFields l) (reclaimed l) l := by
  intro f hm
  cases f <;> simp_all [reclaimedFields, reclaimed, LocalClusterState.value]

/-- Only a demotion is meant to change the role. -/
theorem Op.meant_role {op : Op} {l : LocalClusterState} (h : op.meant l .role) :
    ∃ url, op = .failoverDemote url := by
  cases op <;> simp_all [Op.meant]

/-- No operation is meant to make the node an acting leader. -/
theorem Op.meant_acting {op : Op} {l : LocalClusterState} (h : op.meant l .actingLeader) :
    (op.apply l).actingLeader = false := by
  cases op <;> simp_all [Op.meant, Op.apply]

end DevForge.ClusterLocal
