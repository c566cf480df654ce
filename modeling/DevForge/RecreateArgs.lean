import DevForge.ComposePorts
import DevForge.LastWins

/-!
# Arguments of a recreation

An update recreates the container of DevForge: what `docker inspect` says of the old one becomes
the arguments of `docker run`. What they describe is read back as docker reads them.
-/

set_option autoImplicit false

namespace DevForge.RecreateArgs
open Dotenv (splitOnce)
open ComposePorts (rsplitOnce)
open ToolArguments (digits)
open WakeGate (Json)

/-! ## The old container -/

structure AbsPath where
  text : String
  absolute : text.toList.head? = some '/'
deriving DecidableEq

inductive Kind
  | bind (source : AbsPath)
  | volume (name : String)
  | tmpfs
deriving DecidableEq

structure Mount where
  kind : Kind
  destination : AbsPath
  rw : Bool
deriving DecidableEq

inductive Proto | tcp | udp | sctp
deriving DecidableEq

def Proto.text : Proto → String
  | .tcp => "tcp"
  | .udp => "udp"
  | .sctp => "sctp"

structure HostIp where
  text : String
  plain : '/' ∉ text.toList

structure PortKey where
  port : ℕ
  proto : Proto

/-- Without a port, docker chooses one. -/
structure Binding where
  hostIp : HostIp
  hostPort : Option ℕ

structure EnvKey where
  text : String
  plain : text ≠ "" ∧ '=' ∉ text.toList

/-- A published port. No address and `0.0.0.0` both stand for every address. -/
structure Published where
  address : String
  hostPort : Option ℕ
  port : ℕ
  proto : Proto
deriving DecidableEq

def everyAddress (ip : String) : String := if ip = "0.0.0.0" then "" else ip

/-! ## What `docker run` reads -/

def MODES : List String :=
  ["ro","rw","z","Z","shared","slave","private","rshared","rslave","rprivate","nocopy","consistent","cached","delegated"]

def mountOf (source destination : List Char) (rw : Bool) : Option Mount :=
  if hd : (String.ofList destination).toList.head? = some '/' then
    if hs : (String.ofList source).toList.head? = some '/' then some ⟨.bind ⟨String.ofList source,hs⟩,⟨String.ofList destination,hd⟩,rw⟩
    else if source = [] then none
    else some ⟨.volume (String.ofList source),⟨String.ofList destination,hd⟩,rw⟩
  else none

/-- `-v source:destination[:modes]`. -/
def readVolume (spec : String) : Option Mount :=
  match spec.toList.splitOn ':' with
  | [source,destination] => mountOf source destination true
  | [source,destination,modes] =>
    if (modes.splitOn ',').all (fun m => MODES.any (fun mode => mode.toList = m)) then
      mountOf source destination (!(modes.splitOn ',').contains "ro".toList)
    else none
  | _ => none

def readProto (text : List Char) : Option Proto :=
  if text = "tcp".toList then some .tcp
  else if text = "udp".toList then some .udp
  else if text = "sctp".toList then some .sctp
  else none

/-- `[[ip:]hostPort:]port`. -/
def readEnds (proto : Proto) (ends : List Char) : Option Published :=
  match rsplitOnce ':' ends with
  | none => (digits ends).map (fun port => ⟨"",none,port,proto⟩)
  | some (front,port) => (digits port).bind (fun port =>
    match rsplitOnce ':' front with
    | none => (digits front).map (fun hostPort => ⟨"",some hostPort,port,proto⟩)
    | some (ip,hostPort) =>
      (digits hostPort).map (fun hostPort => ⟨everyAddress (String.ofList ip),some hostPort,port,proto⟩))

/-- `-p [[ip:]hostPort:]port[/proto]`. -/
def readPublish (spec : String) : Option Published :=
  match rsplitOnce '/' spec.toList with
  | none => readEnds .tcp spec.toList
  | some (ends,proto) => (readProto proto).bind (fun proto => readEnds proto ends)

/-- `key=value`. -/
def readPair (entry : String) : Option (String × String) :=
  (splitOnce '=' entry.toList).map (fun kv => (String.ofList kv.1,String.ofList kv.2))

inductive Opt
  | name (text : String)
  | restart (policy : String)
  | volume (m : Mount)
  | publish (p : Published)
  | env (entry : String × String)
  | label (entry : String × String)
  | network (name : String)

def readOpt (flag value : String) : Option Opt :=
  if flag = "--name" then some (.name value)
  else if flag = "--restart" then some (.restart value)
  else if flag = "-v" then (readVolume value).map Opt.volume
  else if flag = "-p" then (readPublish value).map Opt.publish
  else if flag = "-e" then (readPair value).map Opt.env
  else if flag = "--label" then (readPair value).map Opt.label
  else if flag = "--network" then some (.network value)
  else none

/-- The options, and the image behind them. -/
def readOpts : List String → Option (List Opt × String)
  | [] => none
  | [image] => some ([],image)
  | flag::value::rest => (readOpt flag value).bind (fun o => (readOpts rest).map (fun r => (o::r.1,r.2)))

structure Config where
  image : String
  mounts : List Mount
  ports : List Published
  env : List (String × String)
  labels : List (String × String)
  networks : List String

def Opt.mount? : Opt → Option Mount
  | .volume m => some m
  | _ => none

def Opt.port? : Opt → Option Published
  | .publish p => some p
  | _ => none

def Opt.env? : Opt → Option (String × String)
  | .env e => some e
  | _ => none

def Opt.label? : Opt → Option (String × String)
  | .label e => some e
  | _ => none

def Opt.network? : Opt → Option String
  | .network n => some n
  | _ => none

/-- A container with no network of its own is on the bridge. -/
def networksOf (opts : List Opt) : List String :=
  if opts.filterMap Opt.network? = [] then ["bridge"] else opts.filterMap Opt.network?

def Config.of (r : List Opt × String) : Config :=
  ⟨r.2,r.1.filterMap Opt.mount?,r.1.filterMap Opt.port?,r.1.filterMap Opt.env?,r.1.filterMap Opt.label?,networksOf r.1⟩

def dockerRun (args : List String) : Option Config :=
  if args.take 3 = ["docker","run","-d"] then (readOpts (args.drop 3)).map Config.of else none

/-! ## The arguments -/

def asArray : Json → List Json
  | .arr vs => vs
  | _ => []

def strings (v : Json) : List String := (asArray v).filterMap Json.asStr

def flag (f : String) (values : List String) : List String := values.flatMap (fun v => [f,v])

def strField (v : Json) (key : String) : String := ((v.get key).bind Json.asStr).getD ""

/-- The mount of an entry, for the kinds that are taken over. -/
def mountSpec (m : Json) : Option String :=
  let typ := ((m.get "Type").bind Json.asStr).getD "bind"
  if typ ≠ "bind" ∧ typ ≠ "volume" then none
  else
    let src := strField m "Source"
    let dst := (((m.get "Destination").or (m.get "Target")).bind Json.asStr).getD ""
    if src = "" ∨ dst = "" then none
    else if ((m.get "RW").bind Json.asBool).getD true then some (src++":"++dst)
    else some (src++":"++dst++":ro")

/-- The binds, or the mounts where there are none. -/
def volumeSpecs (binds mounts : Json) : List String :=
  if strings binds ≠ [] then strings binds else (asArray mounts).filterMap mountSpec

/-- `str::replace` with nothing. -/
def remove (pattern : List Char) : ℕ → List Char → List Char
  | _, [] => []
  | skip+1, _::cs => remove pattern skip cs
  | 0, c::cs => if pattern.isPrefixOf (c::cs) then remove pattern (pattern.length-1) cs else c::remove pattern 0 cs

def portKey (containerPort : String) : String :=
  String.ofList (remove "/udp".toList 0 (remove "/tcp".toList 0 containerPort.toList))

def portSpec (portKey : String) (host : Json) : Option String :=
  let ip := strField host "HostIp"
  let port := strField host "HostPort"
  if port = "" then none
  else if ip = "" ∨ ip = "0.0.0.0" then some (port++":"++portKey)
  else some (ip++":"++port++":"++portKey)

def portSpecs (ports : Json) : List String :=
  ports.members.flatMap (fun p => (asArray p.2).filterMap (portSpec (portKey p.1)))

def VERSION : String := "DEVFORGE_VERSION"

def envSpec (target e : String) : String :=
  if (VERSION++"=").toList.isPrefixOf e.toList then VERSION++"="++target else e

def envSpecs (target : String) : Json → List String
  | .arr vs => (vs.filterMap Json.asStr).map (envSpec target)
  | _ => [VERSION++"="++target]

def labelSpecs (labels : Json) : List String :=
  labels.members.filterMap (fun l => l.2.asStr.map (fun v => l.1++"="++v))

/-- The first network. -/
def networkSpecs (networks : Json) : List String := (networks.members.map Prod.fst).take 1

def buildDockerRunArgs (name imageRef target restart : String) (binds mounts ports env networks labels : Json) :
    List String :=
  ["docker","run","-d"]++flag "--name" [name]++
    flag "--restart" (if restart ≠ "no" ∧ restart ≠ "" then [restart] else [])++
    flag "-v" (volumeSpecs binds mounts)++flag "-p" (portSpecs ports)++flag "-e" (envSpecs target env)++
    flag "--label" (labelSpecs labels)++flag "--network" (networkSpecs networks)++[imageRef]

/-! ## What is inspected -/

/-- A container as docker has it. Its binds are listed among its mounts. -/
structure Inspect where
  binds : Option (List String)
  mounts : List Mount
  ports : List (PortKey × List Binding)
  env : Option (List (EnvKey × String))
  labels : Option (List (String × String))
  networks : List String
  listed : ∀ b ∈ binds.getD [], ∃ m ∈ mounts, readVolume b = some m
  distinct : networks.Nodup

def arrayOrNull : Option (List Json) → Json
  | none => .null
  | some vs => .arr vs

def bindsJson (i : Inspect) : Json := arrayOrNull (i.binds.map (fun bs => bs.map Json.str))

/-- Where docker keeps a volume is its own choice. -/
def mountJson (volumePath : String → AbsPath) (m : Mount) : Json :=
  .obj (match m.kind with
    | .bind source => [("Type",.str "bind"),("Source",.str source.text),("Destination",.str m.destination.text),
        ("RW",.bool m.rw)]
    | .volume name => [("Type",.str "volume"),("Name",.str name),("Source",.str (volumePath name).text),
        ("Destination",.str m.destination.text),("RW",.bool m.rw)]
    | .tmpfs => [("Type",.str "tmpfs"),("Source",.str ""),("Destination",.str m.destination.text),("RW",.bool m.rw)])

def mountsJson (volumePath : String → AbsPath) (i : Inspect) : Json := .arr (i.mounts.map (mountJson volumePath))

def bindingJson (b : Binding) : Json :=
  .obj [("HostIp",.str b.hostIp.text),("HostPort",.str ((b.hostPort.map toString).getD ""))]

def portsJson (i : Inspect) : Json :=
  .obj (i.ports.map (fun p => (toString p.1.port++"/"++p.1.proto.text,.arr (p.2.map bindingJson))))

def envJson (i : Inspect) : Json := arrayOrNull (i.env.map (fun es => es.map (fun e => .str (e.1.text++"="++e.2))))

def labelsJson (i : Inspect) : Json :=
  (i.labels.map (fun ls => Json.obj (ls.map (fun l => (l.1,.str l.2))))).getD .null

def networksJson (i : Inspect) : Json := .obj (i.networks.map (fun n => (n,.obj [])))

def recreateArgs (volumePath : String → AbsPath) (name imageRef target restart : String) (i : Inspect) : List String :=
  buildDockerRunArgs name imageRef target restart (bindsJson i) (mountsJson volumePath i) (portsJson i) (envJson i)
    (networksJson i) (labelsJson i)

/-! ## The same configuration -/

def Inspect.published (i : Inspect) : List Published :=
  i.ports.flatMap (fun p => p.2.map (fun b => ⟨everyAddress b.hostIp.text,b.hostPort,p.1.port,p.1.proto⟩))

def Inspect.envPairs (i : Inspect) : List (String × String) := (i.env.getD []).map (fun e => (e.1.text,e.2))

structure Same (i : Inspect) (target : String) (c : Config) : Prop where
  mounts : ∀ m, m ∈ c.mounts ↔ m ∈ i.mounts
  ports : ∀ p, p ∈ c.ports ↔ p ∈ i.published
  env : ∀ key, key ≠ VERSION → LastWins.get c.env key = LastWins.get i.envPairs key
  version : LastWins.get c.env VERSION = some target
  labels : ∀ key, LastWins.get c.labels key = LastWins.get (i.labels.getD []) key
  networks : ∀ n, n ∈ c.networks ↔ n ∈ i.networks

end DevForge.RecreateArgs
