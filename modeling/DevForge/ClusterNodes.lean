import DevForge.ClusterLocal
import DevForge.Dotenv
import DevForge.Table
import Mathlib.Data.Bool.AllAny
import Mathlib.Data.List.Sort
import Mathlib.Logic.Function.Basic

/-!
# The nodes of a cluster

The rows of `cluster_nodes` and who reads them: the listing derives a status from the last
heartbeat and the leader's row, the placement chooses among the listed nodes, and a join or a
heartbeat reads and writes the stored status.
-/

set_option autoImplicit false

namespace DevForge.ClusterNodes
open ClusterLocal

/-! ## Identifiers and addresses -/

def normalizeServerId (id : String) : String := if trim id = "" then LEADER_NODE_ID else trim id

structure NodeId where
  text : String
  normal : normalizeServerId text = text
deriving DecidableEq

/-- `Uuid::simple`, 32 digits. -/
def simple (u : Uuid) : List Char := (List.range 32).map (fun i => Nat.digitChar (u/16^(31-i)%16))

theorem digitChar_not_space : ∀ d < 16, isWhitespace (Nat.digitChar d) = false := by decide

theorem simple_not_space {u : Uuid} {c : Char} (h : c ∈ simple u) : isWhitespace c = false := by
  obtain ⟨i,-,rfl⟩ := List.mem_map.mp h
  exact digitChar_not_space _ (Nat.mod_lt _ (by decide))

theorem dropWhile_of_no_space {l : List Char} (h : ∀ c ∈ l, isWhitespace c = false) :
    l.dropWhile isWhitespace = l := by
  cases l with
  | nil => rfl
  | cons c l => simp [h c List.mem_cons_self]

theorem normalize_of_no_space {l : List Char} (h : ∀ c ∈ l, isWhitespace c = false) (hne : l ≠ []) :
    normalizeServerId (String.ofList l) = String.ofList l := by
  have htrim : trim (String.ofList l) = String.ofList l := by
    simp only [trim, trimBy, String.toList_ofList]
    rw [dropWhile_of_no_space h, dropWhile_of_no_space (fun c hc => h c (List.mem_reverse.mp hc)),
      List.reverse_reverse]
  rw [normalizeServerId, htrim, if_neg]
  intro he
  have hl := congrArg String.toList he
  rw [String.toList_ofList] at hl
  exact hne hl

def nodeText (u : Uuid) : List Char := "node_".toList++(simple u).take 12

theorem nodeText_not_space (u : Uuid) : ∀ c ∈ nodeText u, isWhitespace c = false := by
  intro c hc
  rcases List.mem_append.mp hc with hc | hc
  · have hnode : ∀ c ∈ "node_".toList, isWhitespace c = false := List.all_iff_forall_prop.mp (by decide)
    exact hnode c hc
  · exact simple_not_space (List.mem_of_mem_take hc)

theorem nodeText_ne_nil (u : Uuid) : nodeText u ≠ [] :=
  List.append_ne_nil_of_left_ne_nil (by decide) _

def newNodeId (u : Uuid) : NodeId := 
  ⟨String.ofList (nodeText u),normalize_of_no_space (nodeText_not_space u) (nodeText_ne_nil u)⟩

def leaderId : NodeId := ⟨LEADER_NODE_ID,by decide⟩

def newNodeSecret (u : Uuid) : String := String.ofList ("dfnode_".toList++simple u)

def startsWith (s start : String) : Bool := start.toList.isPrefixOf s.toList

def isHttp (url : String) : Bool := startsWith url "http://" || startsWith url "https://"

def isLoopbackHost (host : String) : Bool :=
  let h := toAsciiLowercase (trimBy (fun c => c = '[' || c = ']') (trim host))
  h ∈ ["localhost","127.0.0.1","::1","0.0.0.0"] || ".localhost".toList.isSuffixOf h.toList

/-- What follows `https://` or `http://`, up to the first slash and from the last `@`. -/
def urlHost (url : String) : Option (List Char) :=
  let u := (trim url).toList
  let rest := if startsWith (trim url) "https://" then some (u.drop 8)
    else if startsWith (trim url) "http://" then some (u.drop 7) else none
  (rest.bind (fun r => ((r.takeWhile (· ≠ '/')).splitOn '@').getLast?)).filter (fun hp => !hp.isEmpty)

def isLoopbackAdvertiseUrl (url : String) : Bool :=
  match urlHost url with
  | none => false
  | some hp =>
    if hp.head? = some '[' then isLoopbackHost (String.ofList ((hp.drop 1).takeWhile (· ≠ ']')))
    else if hp.count ':' = 1 then isLoopbackHost (String.ofList (hp.takeWhile (· ≠ ':')))
    else isLoopbackHost (String.ofList hp)

def validateWorkerAdvertiseUrl (raw : String) : Except String String :=
  let u := trimUrl raw
  if u = "" then .error "URL d’annonce requise pour un worker (pas 127.0.0.1)"
  else if !isHttp u then .error "URL invalide — http:// ou https://"
  else if isLoopbackAdvertiseUrl u then
    .error "URL d’annonce loopback interdite (127.0.0.1 / localhost) — utilise l’IP LAN ou un hostname joignable depuis le leader"
  else .ok u

/-! ## Rows -/

inductive NodeStatus where
  | online
  | offline
  | joining
deriving DecidableEq, Repr

structure NodeMetrics where
  cpuPercent : Option Float
  memUsedBytes : Option UInt64
  memTotalBytes : Option UInt64

structure ClusterNode where
  name : String
  role : NodeRole
  advertiseUrl : String
  status : NodeStatus
  os : String
  arch : String
  capabilities : List String
  sshHost : Option String
  sshUser : Option String
  sshPort : Option UInt16
  /-- In nanoseconds; absent when the column is empty or no date. -/
  lastSeenAt : Option Instant
  drained : Bool
  ingressHost : String
  metrics : NodeMetrics
  createdAt : Instant

structure JoinTokenRow where
  tokenHash : String
  expiresAt : Option Instant
  revoked : Bool
deriving DecidableEq

structure World where
  now : Instant
  row : LocalClusterState
  nodes : Table NodeId ClusterNode
  secrets : NodeId → Option String
  invitations : List JoinTokenRow
  /-- The `server_id` of each project. -/
  projects : List (Option String)
  placementAuto : Bool

def getNode (w : World) (id : String) : Option (NodeId × ClusterNode) :=
  w.nodes.rows.find? (fun e => e.1.text = id)

def upsertNode (id : NodeId) (n : ClusterNode) (w : World) : World :=
  { w with nodes :=
      if id ∈ w.nodes.keys then w.nodes.update (fun k _ => k = id) (fun _ old => { n with createdAt := old.createdAt })
      else w.nodes.insert id n }

/-- The database's collation and SHA-256. -/
structure Externals where
  collates : String → String → Bool
  hashSecret : String → String

section
variable (X : Externals)

/-- `ORDER BY name`. -/
def storedNodes (w : World) : List (NodeId × ClusterNode) :=
  w.nodes.rows.insertionSort (fun a b => X.collates a.2.name b.2.name)

/-! ## The listing -/

def HEARTBEAT_STALE_SECS : ℕ := 45

/-- The last heartbeat is missing or older than 45 s. -/
def stale (now : Instant) (n : ClusterNode) : Bool := n.lastSeenAt.all (fun t => t+HEARTBEAT_STALE_SECS*1000000000 < now)

def leads (e : NodeId × ClusterNode) : Bool := e.1.text = LEADER_NODE_ID || e.2.role = .leader

def listedStatus (row : LocalClusterState) (now : Instant) (e : NodeId × ClusterNode) : NodeStatus :=
  if leads e && row.actingLeader && e.1.text = row.preferredLeaderId then .offline
  else if leads e && !row.actingLeader && (row.nodeId = e.1.text || e.1.text = LEADER_NODE_ID) then .online
  else if e.2.status = .joining then .joining
  else if stale now e.2 then .offline
  else .online

def listNode (w : World) (e : NodeId × ClusterNode) : NodeId × ClusterNode :=
  (e.1,{ e.2 with status := listedStatus w.row w.now e })

def listNodes (w : World) : List (NodeId × ClusterNode) := (storedNodes X w).map (listNode w)

/-! ## Placement -/

structure PlacementWeights where
  appPenalty : Float
  cpuPenalty : Float
  memPenalty : Float
  leaderPenaltyIfWorkers : Float
  emptyIngressPenalty : Float

def PlacementWeights.default : PlacementWeights := ⟨10.0,0.35,40.0,28.0,12.0⟩

/-- The address of a node can be reached from the leader. -/
def reachable (n : ClusterNode) : Bool := trim n.advertiseUrl ≠ "" && !isLoopbackAdvertiseUrl n.advertiseUrl

def eliminated (n : ClusterNode) : Bool :=
  n.drained || n.status ≠ .online || (n.role = .worker && !reachable n)

def clamp (x lo hi : Float) : Float := if x < lo then lo else if x > hi then hi else x

def cpuCost (m : NodeMetrics) (weights : PlacementWeights) : Float :=
  match m.cpuPercent with
  | some cpu => clamp cpu 0.0 100.0*weights.cpuPenalty
  | none => 0.0

def memCost (m : NodeMetrics) (weights : PlacementWeights) : Float :=
  match m.memUsedBytes, m.memTotalBytes with
  | some used, some total => if total > 0 then used.toFloat/total.toFloat*weights.memPenalty else 0.0
  | _, _ => 0.0

def scoreNode (n : ClusterNode) (appCount : ℕ) (hasEligibleWorker : Bool) (weights : PlacementWeights) :
    Option Float :=
  if eliminated n then none
  else
    let score := 100.0-appCount.toFloat*weights.appPenalty-cpuCost n.metrics weights-memCost n.metrics weights
    let score := if trim n.ingressHost = "" then score-weights.emptyIngressPenalty else score
    some (if hasEligibleWorker && n.role = .leader then score-weights.leaderPenaltyIfWorkers else score)

def workerEligible (n : ClusterNode) : Bool :=
  n.role = .worker && !n.drained && n.status = .online && reachable n

def EPSILON : Float := 2.220446049250313e-16

/-- One node of the loop of `pick_placement`. -/
def better (counts : String → ℕ) (hasEligibleWorker : Bool) (weights : PlacementWeights)
    (best : Option (NodeId × Float)) (e : NodeId × ClusterNode) : Option (NodeId × Float) :=
  match scoreNode e.2 (counts e.1.text) hasEligibleWorker weights, best with
  | none, _ => best
  | some score, none => some (e.1,score)
  | some score, some (bestId,bestScore) =>
    if score > bestScore then some (e.1,score)
    else if (score-bestScore).abs < EPSILON && e.1.text < bestId.text then some (e.1,score)
    else best

def pickPlacement (nodes : List (NodeId × ClusterNode)) (counts : String → ℕ) (weights : PlacementWeights) :
    Option (NodeId × Float) :=
  nodes.foldl (better counts (nodes.any (fun e => workerEligible e.2)) weights) none

/-- The projects of a node, as `u32`. -/
def projectCountsByNode (w : World) (id : String) : ℕ :=
  w.projects.countP (fun server => normalizeServerId (server.getD "") = id)%2^32

def resolveServerId (w : World) (requested : Option String) : String :=
  let raw := (requested.map trim).getD ""
  if !(raw = "" || toAsciiLowercase raw = "auto") then normalizeServerId raw
  else if !w.placementAuto then LEADER_NODE_ID
  else match pickPlacement (listNodes X w) (projectCountsByNode w) PlacementWeights.default with
    | some (id,_) => normalizeServerId id.text
    | none => LEADER_NODE_ID

/-- The check of `ensure_live_server_id`, on the stored row. -/
def storedLive (n : ClusterNode) : Bool :=
  !n.drained && n.status = .online && (n.role = .leader || reachable n)

def ensureLiveServerId (w : World) (current : String) : String :=
  let sid := normalizeServerId current
  if (getNode w sid).any (fun e => storedLive e.2) then sid
  else if w.placementAuto then resolveServerId X w (some "auto")
  else sid

/-! ## Joins and heartbeats -/

inductive DevForgeError where
  | message (text : String)
  | notFound (text : String)
deriving DecidableEq

structure JoinRequest where
  token : String
  name : String
  advertiseUrl : String
  os : String
  arch : String
  capabilities : List String
  sshHost : Option String
  sshUser : Option String
  sshPort : Option UInt16

def extractJoinToken (raw : String) : Option String :=
  let compact := raw.toList.filter (fun c => !isWhitespace c)
  let isToken := fun tok : List Char => "dfjoin_".toList.isPrefixOf tok
  match Dotenv.splitOnce '@' compact with
  | some (tok,url) =>
    if isToken tok && isHttp (String.ofList url) then some (String.ofList tok)
    else ((compact.splitOn '@').find? isToken).map String.ofList
  | none => ((compact.splitOn '@').find? isToken).map String.ofList

/-- The checks of a join: the trimmed name and the address. -/
def joinChecks (req : JoinRequest) (w : World) : Except DevForgeError (String × String) :=
  match (extractJoinToken req.token).bind
      (fun token => w.invitations.find? (fun t => t.tokenHash = X.hashSecret token)) with
  | none => .error (.message "invitation invalide")
  | some t =>
    if t.revoked then .error (.message "invitation révoquée")
    else if t.expiresAt.all (fun e => e < w.now) then .error (.message "invitation expirée")
    else if trim req.name = "" then .error (.message "nom du nœud requis")
    else match validateWorkerAdvertiseUrl req.advertiseUrl with
      | .error e => .error (.message e)
      | .ok advertise => .ok (trim req.name,advertise)

/-- The entry is that of a worker that is stored as away, under one of the three. -/
def reusable (name advertise : String) (sshHost : Option String) (e : NodeId × ClusterNode) : Bool :=
  e.2.role = .worker && (e.2.status = .joining || e.2.status = .offline) &&
    (e.2.name = name || (advertise ≠ "" && e.2.advertiseUrl = advertise) ||
      (sshHost.isSome && e.2.sshHost = sshHost))

def reuse (req : JoinRequest) (name advertise : String) (w : World) : Option (NodeId × ClusterNode) :=
  (storedNodes X w).find? (reusable name advertise req.sshHost)

def defaultCapabilities (capabilities : List String) : List String :=
  if capabilities.isEmpty then ["docker"] else capabilities

/-- The row that a join writes. -/
def joined (req : JoinRequest) (name advertise : String) (old : Option ClusterNode) (now : Instant) : ClusterNode where
  name := name
  role := .worker
  advertiseUrl := advertise
  status := .online
  os := req.os
  arch := req.arch
  capabilities := defaultCapabilities req.capabilities
  sshHost := (req.sshHost.filter (fun s => trim s ≠ "")).or (old.bind ClusterNode.sshHost)
  sshUser := (req.sshUser.filter (fun s => trim s ≠ "")).or (old.bind ClusterNode.sshUser)
  sshPort := (req.sshPort.filter (fun p => 0 < p)).or (old.bind ClusterNode.sshPort)
  lastSeenAt := some now
  drained := (old.map ClusterNode.drained).getD false
  ingressHost := (old.map ClusterNode.ingressHost).getD ""
  metrics := (old.map ClusterNode.metrics).getD ⟨none,none,none⟩
  createdAt := (old.map ClusterNode.createdAt).getD now

structure JoinResponse where
  id : NodeId
  node : ClusterNode
  secret : String

def join (req : JoinRequest) (id secret : Uuid) (w : World) : Except DevForgeError (JoinResponse × World) :=
  match joinChecks X req w with
  | .error e => .error e
  | .ok (name,advertise) =>
    let old := reuse X req name advertise w
    let k := (old.map Prod.fst).getD (newNodeId id)
    let node := joined req name advertise (old.map Prod.snd) w.now
    let w' := upsertNode k node w
    .ok (⟨k,node,newNodeSecret secret⟩,{ w' with secrets := Function.update w'.secrets k (some (newNodeSecret secret)) })

structure HeartbeatPayload where
  nodeId : String
  advertiseUrl : Option String
  os : Option String
  arch : Option String
  capabilities : Option (List String)
  metrics : Option NodeMetrics

def verifyNodeSecret (provided stored : String) : Bool :=
  X.hashSecret provided = X.hashSecret stored || provided = stored

/-- The address that a heartbeat announces. -/
def announced (n : ClusterNode) (url : Option String) : Except String String :=
  match url with
  | none => .ok n.advertiseUrl
  | some url =>
    if trim url = "" then .ok n.advertiseUrl
    else if n.role = .worker then validateWorkerAdvertiseUrl url
    else .ok (trimUrl url)

def heartbeat (secret : String) (payload : HeartbeatPayload) (w : World) : Except DevForgeError (ClusterNode × World) :=
  match getNode w payload.nodeId with
  | none => .error (.notFound ("nœud "++payload.nodeId))
  | some (id,n) => match w.secrets id with
    | none => .error (.message "secret nœud manquant")
    | some stored =>
      if !verifyNodeSecret X secret stored then .error (.message "secret nœud invalide")
      else match announced n payload.advertiseUrl with
        | .error e => .error (.message e)
        | .ok url =>
          let updated := { n with
            status := .online
            lastSeenAt := some w.now
            advertiseUrl := url
            os := (payload.os.filter (fun s => s ≠ "")).getD n.os
            arch := (payload.arch.filter (fun s => s ≠ "")).getD n.arch
            capabilities := (payload.capabilities.filter (fun c => !c.isEmpty)).getD n.capabilities
            metrics := payload.metrics.getD n.metrics }
          .ok (updated,upsertNode id updated w)

structure AddNodeRequest where
  name : String
  host : String
  user : String
  port : UInt16
  advertiseUrl : Option String

/-- The row of a machine whose bootstrap over SSH has succeeded. -/
def addViaSsh (req : AddNodeRequest) (id : Uuid) (w : World) : World :=
  let host := trim req.host
  if host = "" then w
  else upsertNode (newNodeId id)
    { name := if trim req.name = "" then host else trim req.name
      role := .worker
      advertiseUrl := (((req.advertiseUrl.map trim).filter (fun s => s ≠ "")).map trimUrl).getD ("http://"++host++":8000")
      status := .joining
      os := ""
      arch := ""
      capabilities := ["docker"]
      sshHost := some host
      sshUser := some (if trim req.user = "" then "root" else trim req.user)
      sshPort := some (if req.port = 0 then 22 else req.port)
      lastSeenAt := none
      drained := false
      ingressHost := ""
      metrics := ⟨none,none,none⟩
      createdAt := w.now } w

inductive Action where
  | join (req : JoinRequest) (id secret : Uuid)
  | heartbeat (secret : String) (payload : HeartbeatPayload)
  | silence (nanoseconds : ℕ)
  | addViaSsh (req : AddNodeRequest) (id : Uuid)
  | removeNode (id : NodeId)

def removeNode (id : NodeId) (w : World) : World :=
  if id.text = LEADER_NODE_ID then w
  else { w with
    nodes := w.nodes.delete (fun k _ => k = id)
    secrets := Function.update w.secrets id none }

/-- A request that is refused changes nothing. -/
def step (w : World) : Action → World
  | .join req id secret => match join X req id secret w with
    | .ok r => r.2
    | .error _ => w
  | .heartbeat secret payload => match heartbeat X secret payload w with
    | .ok r => r.2
    | .error _ => w
  | .silence nanoseconds => { w with now := w.now+nanoseconds }
  | .addViaSsh req id => addViaSsh req id w
  | .removeNode id => removeNode id w

end

end DevForge.ClusterNodes
