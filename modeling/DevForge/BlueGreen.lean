import DevForge.Sql
import DevForge.Table
import DevForge.Transition

/-!
# Blue/green deployments

A deployment starts the new container under a temporary name, waits until it is ready and
then renames it. Every command may fail, or end in an error of the executor before or after
it has taken effect. The labels, networks and mounts that a container is started with do
not decide which containers exist, and stand outside; so do the logs.
-/

set_option autoImplicit false

namespace DevForge.BlueGreen
open Transition

/-! ## The node -/

inductive Status | created | running | restarting | paused | exited | dead
deriving DecidableEq, Repr

structure PublishedPort where
  host : ℕ
  container : ℕ
  protocol : String
deriving DecidableEq, Repr

structure Container where
  id : ℕ
  image : String
  status : Status
  ports : List PublishedPort
  /-- The label `devforge.proxy`. -/
  proxyLabel : Bool
deriving DecidableEq, Repr

/-- A container that was removed, with the node's containers at that time and those that
had answered the readiness probe. -/
structure Removal where
  name : String
  container : Container
  containers : Table String Container
  answered : List ℕ

structure Node where
  containers : Table String Container
  nextId : ℕ
  answered : List ℕ
  removed : List Removal

def isProxyReservedHostPort (port : ℕ) : Bool := port = 0 || port = 80 || port = 443

def Container.publishes (port : ℕ) (c : Container) : Bool :=
  c.ports.any (fun p => p.host = port && p.protocol = "tcp")

/-- `PROXY_GUARD_SH`. -/
def guarded (name : String) (c : Container) : Bool :=
  "devforge-traefik".toList.isPrefixOf name.toList || c.proxyLabel

/-! ## Commands -/

inductive Outcome | ok | failed | errorBefore | errorAfter
deriving DecidableEq, Repr

def Outcome.takes : Outcome → Bool
  | .ok | .errorAfter => true
  | _ => false

inductive Reply | ok | nonzero | error
deriving DecidableEq, Repr

/-- A command whose effect says whether it worked. -/
def attempt (o : Outcome) (effect : Node → Bool × Node) (n : Node) : Reply × Node :=
  match o with
  | .ok => (if (effect n).1 then .ok else .nonzero,(effect n).2)
  | .failed => (.nonzero,n)
  | .errorBefore => (.error,n)
  | .errorAfter => (.error,(effect n).2)

/-- `docker rm -f`. -/
def rm (k : String) (n : Node) : Bool × Node :=
  match n.containers.get k with
  | none => (false,n)
  | some c => (true,{ n with
      containers := n.containers.delete (fun x _ => x = k)
      removed := n.removed++[⟨k,c,n.containers,n.answered⟩] })

def setStatus (k : String) (status : Status) (n : Node) : Node :=
  { n with containers := n.containers.update (fun x _ => x = k) (fun _ c => { c with status := status }) }

/-- `docker stop`. -/
def stop (k : String) (n : Node) : Bool × Node :=
  ((n.containers.get k).isSome,setStatus k .exited n)

/-- A host port is held by a container that runs; port zero is chosen by Docker. -/
def portTaken (ports : List PublishedPort) (n : Node) : Bool :=
  ports.any (fun p => p.host ≠ 0 && n.containers.rows.any (fun e => e.2.status = .running &&
    e.2.ports.any (fun q => q.host = p.host && q.protocol = p.protocol)))

/-- `docker run -d`: without its ports, a container is created but does not start. -/
def runContainer (k image : String) (ports : List PublishedPort) (proxyLabel : Bool) (n : Node) :
    Bool × Node :=
  if k ∈ n.containers.keys then (false,n)
  else (!portTaken ports n,{ n with
    containers := n.containers.insert k
      ⟨n.nextId,image,if portTaken ports n then .created else .running,ports,proxyLabel⟩
    nextId := n.nextId+1 })

/-- `docker rename`. -/
def rename (k k' : String) (n : Node) : Bool × Node :=
  match n.containers.get k with
  | none => (false,n)
  | some c =>
    if k' ∈ n.containers.keys then (false,n)
    else (true,{ n with containers := (n.containers.delete (fun x _ => x = k)).insert k' c })

/-! ## Readiness -/

def isSafeDockerName (s : String) : Bool :=
  s ≠ "" && s.utf8ByteSize ≤ 128 && s.toList.all (fun c => c.isAlphanum || c ∈ ['-','_','.'])

inductive ReadyProbe | ready | wait | notFound | dead | noProbe
deriving DecidableEq, Repr

/-- `str::parse::<u16>`. -/
def parseU16 (s : String) : Option ℕ :=
  let cs : List Char := match s.toList with
    | '+'::cs => cs
    | cs => cs
  let n : ℕ := cs.foldl (fun n c => 10*n+(c.toNat-48)) 0
  if cs ≠ [] ∧ cs.all Char.isDigit = true ∧ n < 65536 then some n else none

/-- The fields of the line that the probe prints; none without such a line. -/
structure ProbeLine where
  status : Option Status
  health : String
  code : String
deriving DecidableEq, Repr

def classifyReadyProbe : Option ProbeLine → ReadyProbe
  | none => .dead
  | some line => match line.status with
    | some .created | some .restarting => .wait
    | some .running =>
      if line.health ≠ "" then (if line.health = "healthy" then .ready else .wait)
      else if line.code = "noprobe" ∨ line.code = "" then .noProbe
      else match parseU16 line.code with
        | some code => if code = 404 then .notFound else if 100 ≤ code ∧ code < 500 then .ready else .wait
        | none => .wait
    | _ => .dead

/-- One round of the probe: what the container has become by then, whether the executor
answers, and the seconds since the wait began. -/
structure Probe where
  status : Status
  answers : Bool
  health : String
  code : String
  elapsed : ℕ
deriving DecidableEq, Repr

def containerIsHealthy (k : String) (answers : Bool) (n : Node) : Bool :=
  answers && (n.containers.get k).any (fun c => c.status = .running)

def probeLine (k : String) (p : Probe) (n : Node) : Option ProbeLine :=
  if p.answers then some ⟨(n.containers.get k).map Container.status,p.health,p.code⟩ else none

/-- The loop of `wait_container_ready`; the probes last until the deadline. -/
def waitLoop (k : String) (timeout : ℕ) (healthAnswers : Bool) :
    Option ℕ → ℕ → List Probe → Node → Bool × Node
  | _, _, [], n => (false,n)
  | first404, noprobe, p::ps, n =>
    let n := setStatus k p.status n
    let goOn (first404 : Option ℕ) (noprobe : ℕ) : Bool × Node :=
      if timeout ≤ p.elapsed then (false,n) else waitLoop k timeout healthAnswers first404 noprobe ps n
    match classifyReadyProbe (probeLine k p n) with
    | .ready => (true,n)
    | .dead => (false,n)
    | .noProbe =>
      if 3 ≤ noprobe+1 then (containerIsHealthy k healthAnswers n,n) else goOn first404 (noprobe+1)
    | .notFound =>
      if 30 ≤ p.elapsed-first404.getD p.elapsed then (true,n)
      else goOn (some (first404.getD p.elapsed)) noprobe
    | .wait => goOn none noprobe

/-- `DEVFORGE_DEPLOY_READY_TIMEOUT_SECS`. -/
def readyTimeout (configured : Option ℕ) : ℕ :=
  (configured.filter (fun v => 5 ≤ v && v ≤ 900)).getD 90

structure Wait where
  probes : List Probe
  healthAnswers : Bool
deriving DecidableEq, Repr

def answer (k : String) (n : Node) : Node :=
  { n with answered := n.answered++((n.containers.get k).map Container.id).toList }

/-- A container that is found ready has answered. -/
def waitContainerReady (k : String) (network : Option String) (configured : Option ℕ) (w : Wait)
    (n : Node) : Bool × Node :=
  let r := if (network.filter (fun net => isSafeDockerName k && isSafeDockerName net)).isSome then
      waitLoop k (readyTimeout configured) w.healthAnswers none 0 w.probes n
    else (containerIsHealthy k w.healthAnswers n,n)
  if r.1 then (true,answer k r.2) else r

/-! ## The call -/

structure Sidecar where
  name : String
  image : String
  ports : List PublishedPort
deriving DecidableEq, Repr

structure Deployment where
  image : String
  hostPort : ℕ
  containerPort : ℕ
  proxyLabels : Bool
  extraPorts : List PublishedPort
  sidecars : List Sidecar
  /-- `DEVFORGE_DOCKER_NETWORK`. -/
  envNetwork : Option String
  readyTimeout : Option ℕ
deriving DecidableEq, Repr

/-- What the commands of one call meet. -/
structure Answers where
  exists_ : Outcome
  listed : Bool
  prepare : List Outcome
  detected : Option String
  fallbacks : List String
  cleanup : Outcome
  sidecars : List (Outcome × Outcome)
  start : Outcome
  wait : Wait
  drop : Outcome
  labels : Outcome × Outcome × Outcome
  waitLabels : Wait
  dropLabels : Outcome
  stopOld : Outcome × Outcome
  rename : Outcome
deriving DecidableEq, Repr

def newName (name : String) : String := name++"-new"

def containerExists (name : String) (o : Outcome) (n : Node) : Bool :=
  o = .ok && (n.containers.get name).isSome

/-- The containers that `docker_prepare_run_except` removes. -/
def evicted (name : String) (port : ℕ) (n : Node) : List String :=
  (n.containers.rows.filter (fun e => e.2.publishes port && !guarded e.1 e.2 && e.1 ≠ name)).map Prod.fst

/-- Removals in a loop, up to an error of the executor. -/
def rmAll : List String → List Outcome → Node → Node
  | k::ks, o::os, n => match attempt o (rm k) n with
    | (.error,n') => n'
    | (_,n') => rmAll ks os n'
  | _, _, n => n

def prepare (name : String) (d : Deployment) (a : Answers) (n : Node) : Node :=
  if isProxyReservedHostPort d.hostPort || !a.listed then n
  else rmAll (evicted name d.hostPort n) a.prepare n

def chosenNetwork (d : Deployment) (a : Answers) : Option String :=
  match d.envNetwork.filter (fun s => trim s ≠ "") with
  | some net => some net
  | none =>
    if !d.proxyLabels then none
    else match a.detected.filter (fun out => trim out ≠ "") with
      | some out => if trim out = "host-network-detected" then none else some (trim out)
      | none => ["devforge-net","traefik-public","traefik"].find? (fun net => net ∈ a.fallbacks)

def ports (d : Deployment) (a : Answers) : List PublishedPort :=
  (if d.proxyLabels && (chosenNetwork d a).isSome then []
  else if isProxyReservedHostPort d.hostPort then [⟨0,d.containerPort,"tcp"⟩]
  else [⟨d.hostPort,d.containerPort,"tcp"⟩])++d.extraPorts

def sidecarName (name : String) (s : Sidecar) : String := name++"-"++s.name

def startSidecar (name : String) (s : Sidecar) (o : Outcome × Outcome) (n : Node) : Reply × Node :=
  match attempt o.1 (rm (sidecarName name s)) n with
  | (.error,n') => (.error,n')
  | (_,n') => attempt o.2 (runContainer (sidecarName name s) s.image s.ports false) n'

def startSidecars (name : String) : List Sidecar → List (Outcome × Outcome) → Node → Bool × Node
  | [], _, n => (true,n)
  | _::_, [], n => (false,n)
  | s::ss, o::os, n => match startSidecar name s o n with
    | (.ok,n') => startSidecars name ss os n'
    | (_,n') => (false,n')

/-- `docker_recreate_with_labels`, up to its first failure. -/
def recreate (k : String) (o : Outcome × Outcome × Outcome) (n : Node) : Node :=
  match n.containers.get k with
  | none => n
  | some c => match attempt o.1 (stop k) n with
    | (.ok,n1) => match attempt o.2.1 (rm k) n1 with
      | (.ok,n2) => (attempt o.2.2 (runContainer k c.image c.ports c.proxyLabel) n2).2
      | (_,n2) => n2
    | (_,n1) => n1

/-- `docker stop … && docker rm -f …`. -/
def stopOld (name : String) (o : Outcome × Outcome) (n : Node) : Node :=
  match attempt o.1 (stop name) n with
  | (.ok,n') => (attempt o.2 (rm name) n').2
  | (_,n') => n'

/-- From the call to the start of the new container. -/
def startNew (name : String) (d : Deployment) (a : Answers) (n : Node) : Bool × Node :=
  let n := prepare name d a { n with answered := [], removed := [] }
  let n := (attempt a.cleanup (rm (newName name)) n).2
  match startSidecars name d.sidecars a.sidecars n with
  | (false,n) => (false,n)
  | (true,n) => match attempt a.start (runContainer (newName name) d.image (ports d a) false) n with
    | (.ok,n) => (true,n)
    | (_,n) => (false,n)

/-- From there until the new container is found ready, with its labels. -/
def readyNew (name : String) (d : Deployment) (a : Answers) (n : Node) : Bool × Node :=
  match waitContainerReady (newName name) (chosenNetwork d a) d.readyTimeout a.wait n with
  | (false,n) => (false,(attempt a.drop (rm (newName name)) n).2)
  | (true,n) =>
    if d.proxyLabels then
      match waitContainerReady (newName name) (chosenNetwork d a) d.readyTimeout a.waitLabels
        (recreate (newName name) a.labels n) with
      | (false,n) => (false,(attempt a.dropLabels (rm (newName name)) n).2)
      | (true,n) => (true,n)
    else (true,n)

def beforeSwap (name : String) (d : Deployment) (a : Answers) (n : Node) : Bool × Node :=
  match startNew name d a n with
  | (false,n) => (false,n)
  | (true,n) => readyNew name d a n

/-- `docker rename` is taken for done unless the executor fails; the call succeeds either way. -/
def swap (name : String) (oldExists : Bool) (a : Answers) (n : Node) : Node :=
  (attempt a.rename (rename (newName name) name) (if oldExists then stopOld name a.stopOld n else n)).2

def dockerRestartContainer (name : String) (d : Deployment) (a : Answers) (n : Node) : Bool × Node :=
  let oldExists := containerExists name a.exists_ n
  match beforeSwap name d a n with
  | (false,n) => (false,n)
  | (true,n) => (true,swap name oldExists a n)

/-! ## Runs -/

structure Call where
  deployment : Deployment
  answers : Answers
deriving DecidableEq, Repr

/-- Successive deployments of one project. -/
def step (name : String) (n : Node) (c : Call) : Node :=
  (dockerRestartContainer name c.deployment c.answers n).2

/-! ## The property -/

def Node.runs (n : Node) (k : String) : Bool := (n.containers.get k).any (fun c => c.status = .running)

def ofProject (name k : String) : Bool := k = name || (name++"-").toList.isPrefixOf k.toList

/-- A sidecar of the project; the temporary name is one only if the deployment says so. -/
def isSidecar (name : String) (d : Deployment) (k : String) : Bool :=
  k ≠ name && ofProject name k && (k ≠ newName name || d.sidecars.any (fun s => s.name = "new"))

/-- The container that serves the project: the one of its name, else the temporary one. -/
def serving (name k : String) (t : Table String Container) : Bool :=
  (t.get k).any (fun c => c.status = .running) &&
    (k = name || (k = newName name && !(t.get name).any (fun c => c.status = .running)))

structure Removal.Allowed (name : String) (d : Deployment) (r : Removal) : Prop where
  proxy : ofProject name r.name = false → guarded r.name r.container = false
  others : ofProject name r.name = false → r.container.publishes d.hostPort = true
  serving : serving name r.name r.containers = true →
    ∃ k c, k ≠ r.name ∧ r.containers.get k = some c ∧ c.status = .running ∧ c.id ∈ r.answered

/-- What a deployment leaves behind, by its reply. -/
structure Served (name : String) (d : Deployment) (n : Node) (r : Bool × Node) : Prop where
  kept : r.1 = false → ∀ k c, n.containers.get k = some c → c.status = .running →
    (k = name ∨ isSidecar name d k = true) → r.2.containers.get k = some c
  live : r.1 = true → ∃ c, r.2.containers.get name = some c ∧ c.image = d.image ∧
    c.status = .running ∧ c.id ∈ r.2.answered
  removals : ∀ x ∈ r.2.removed, x.Allowed name d

def CallServed (name : String) (n : Node) (c : Call) : Prop :=
  Served name c.deployment n (dockerRestartContainer name c.deployment c.answers n)

/-! ## The condition -/

/-- A call that comes to the swap sees the old container, removes it and renames the new one. -/
def Answers.swaps (a : Answers) : Bool :=
  a.exists_ = .ok && a.stopOld.1 = .ok && a.stopOld.2.takes && a.rename.takes

/-- A call that gives up has met no sidecar that runs: neither one of its own, nor one that
publishes the port it asks for. -/
def noSidecarRuns (name : String) (d : Deployment) (n : Node) : Prop :=
  ∀ e ∈ n.containers.rows, e.2.status = .running → isSidecar name d e.1 = true →
    e.1 ≠ newName name ∧ (∀ s ∈ d.sidecars, e.1 ≠ sidecarName name s) ∧
      (isProxyReservedHostPort d.hostPort = false → e.2.publishes d.hostPort = false)

def Orderly (name : String) (n : Node) (c : Call) : Prop :=
  if (beforeSwap name c.deployment c.answers n).1 then c.answers.swaps = true
  else noSidecarRuns name c.deployment n

instance (name : String) (d : Deployment) (n : Node) : Decidable (noSidecarRuns name d n) := by
  unfold noSidecarRuns
  infer_instance

instance (name : String) (n : Node) (c : Call) : Decidable (Orderly name n c) := by
  unfold Orderly
  infer_instance

end DevForge.BlueGreen
