import DevForge.TraefikLabels
import DevForge.Dotenv
import Mathlib.Data.List.DropRight

/-!
# Synchronisation of routes

The routes of a project are written to its container as labels. Docker cannot change the labels of
a container, so a script stops it, removes it and runs another under its name. Before that, the
server is asked for each host which container has a rule on it.
-/

set_option autoImplicit false

namespace DevForge.RouteSync
open TraefikLabels
open Dotenv (contains lines splitOnce carriageReturn)

/-! ## Containers -/

inductive Owner
  | project (uuid : String)
  | preview (uuid : String) (pr : ℤ)
  | other
deriving DecidableEq

structure Container where
  id : ℕ
  name : String
  running : Bool
  labels : List (String × String)
  owner : Owner
deriving DecidableEq

/-- The containers of a server in docker's order, which is the newest first. -/
@[ext] structure Docker where
  containers : List Container
  next : ℕ
  names : (containers.map Container.name).Nodup
  ids : ∀ c ∈ containers, c.id < next

def Docker.named (d : Docker) (name : String) : Option Container := d.containers.find? (fun c => c.name = name)

def hostRule (host : String) : String := "Host(`"++host++"`)"

def isRouterRule (key : String) : Bool :=
  contains "traefik.http.routers.".toList key.toList && contains ".rule".toList key.toList

def onHost (host rule : String) : Bool := contains (hostRule host).toList rule.toList

/-- The container has a router rule on the host. -/
def Container.claims (c : Container) (host : String) : Bool :=
  c.labels.any (fun l => isRouterRule l.1 && onHost host l.2)

/-- What `docker_check_host_conflicts` prints: the first running container with a rule on the host. -/
def Docker.checkHostConflicts (d : Docker) (host : String) : String :=
  ((d.containers.find? (fun c => c.running && c.claims host)).map Container.name).getD ""++"\n"

/-! ## Commands -/

structure ExecResult where
  ok : Bool
  output : String
deriving DecidableEq

/-- What comes back from a command that only reads: what it prints, the output of a failure, or
nothing. -/
inductive Reply
  | printed
  | failed (output : String)
  | lost (error : String)
deriving DecidableEq

def Reply.exec (result : ExecResult) : Reply → Except String ExecResult
  | .printed => .ok result
  | .failed output => .ok ⟨false,output⟩
  | .lost error => .error error

/-- How far the script of a recreation comes. -/
inductive Stage | kept | stopped | removed | replaced
deriving DecidableEq

def Succeeded (reply : Except String ExecResult) : Prop := ∃ output, reply = .ok ⟨true,output⟩

/-- The script succeeds only at its end, and may be done although its answer is lost. -/
structure Recreation where
  stage : Stage
  reply : Except String ExecResult
  done : Succeeded reply → stage = .replaced

/-- What becomes of the commands of one synchronisation, the checks by the place of the route. -/
structure Executor where
  check : ℕ → Reply
  inspect : Reply
  recreation : Recreation

def labelTexts (m : Labels) : List (String × String) := m.map (fun e => (e.1.text,e.2))

/-- What `docker inspect` prints of the labels, one `key=value` a line. -/
def printLabels (labels : List (String × String)) : String :=
  String.ofList (labels.flatMap (fun l => l.1.toList++ '='::(l.2.toList++['\n'])))

/-- The stop: the container no longer runs. -/
def Docker.stop (d : Docker) (name : String) : Docker where
  containers := d.containers.map (fun c => if c.name = name then { c with running := false } else c)
  next := d.next
  names := by
    have h : (d.containers.map (fun c => if c.name = name then { c with running := false } else c)).map
        Container.name = d.containers.map Container.name := by
      rw [List.map_map]
      apply List.map_congr_left
      intro c _
      by_cases hc : c.name = name
      · simp [hc]
      · simp [hc]
    rw [h]
    exact d.names
  ids := by
    intro c hc
    obtain ⟨c',hc',rfl⟩ := List.mem_map.mp hc
    have hid := d.ids c' hc'
    by_cases h : c'.name = name
    · simpa [h] using hid
    · simpa [h] using hid

def Docker.rm (d : Docker) (name : String) : Docker where
  containers := d.containers.filter (fun c => c.name ≠ name)
  next := d.next
  names := d.names.sublist (List.filter_sublist.map _)
  ids := fun c hc => d.ids c (List.mem_of_mem_filter hc)

/-- `docker run` under a name that is free after the removal. -/
def Docker.replace (d : Docker) (c : Container) (labels : List (String × String)) : Docker where
  containers := { c with id := d.next, running := true, labels }::(d.rm c.name).containers
  next := d.next+1
  names := by
    rw [List.map_cons, List.nodup_cons]
    constructor
    · intro h
      obtain ⟨c',hc',hname⟩ := List.mem_map.mp h
      have hne := List.of_mem_filter hc'
      simp [hname] at hne
    · exact (d.rm c.name).names
  ids := by
    intro c' hc'
    obtain rfl | hc' := List.mem_cons.mp hc'
    · exact Nat.lt_succ_self d.next
    · exact Nat.lt_succ_of_lt ((d.rm c.name).ids c' hc')

/-- What the script has done when it ends at a stage. -/
def Docker.reach (d : Docker) (c : Container) (labels : List (String × String)) : Stage → Docker
  | .kept => d
  | .stopped => d.stop c.name
  | .removed => d.rm c.name
  | .replaced => d.replace c labels

/-- `docker_recreate_with_labels`. -/
def Docker.recreate (d : Docker) (name : String) (labels : List (String × String)) (r : Recreation) :
    Docker × Except String ExecResult :=
  match d.named name with
  | none => (d,r.reply.map (fun _ => ⟨false,"container "++name++" introuvable\n"⟩))
  | some c => (d.reach c labels r.stage,r.reply)

/-! ## Labels already in place -/

def isTraefik (key : String) : Bool := "traefik.".toList.isPrefixOf key.toList

/-- The two lists are sorted and compared. -/
def traefikLabelsMatch (current : String) (wanted : List (String × String)) : Bool :=
  let cur := (((lines current.toList).filterMap (splitOnce '=')).map
    (fun l => (String.ofList l.1,String.ofList (l.2.rdropWhile (· = carriageReturn))))).filter (fun l => isTraefik l.1)
  let want := wanted.filter (fun l => isTraefik l.1)
  !want.isEmpty && cur.isPerm want

/-! ## Synchronisation -/

def containerName (uuid : ProjectUuid) : String := "df-"++String.ofList (uuid.text.toList.take 12)

structure Conflict where
  host : String
  owner : Option String
  reason : String
deriving DecidableEq

structure Report where
  ok : Bool
  synced : ℕ
  hosts : List String
  container : Option String
  labels : Labels
  sso : Bool
  conflicts : List Conflict
  unchanged : Bool
  note : Option String
  output : Option String

/-- The answer about one route: none, where it may be applied. -/
def conflictOf (container host : String) (reply : Except String ExecResult) : Option Conflict :=
  match reply with
  | .error _ => some ⟨host,none,"Échec vérification conflit"⟩
  | .ok res =>
    let owner := trim res.output
    if owner = "" then none
    else if owner = container || contains container.toList owner.toList then none
    else some ⟨host,some owner,"Host déjà revendiqué par un autre conteneur"⟩

variable (d : Docker) (uuid : ProjectUuid) (sso : Option String) (routes : List Route)

/-- The check of a route. Without an executor nothing is checked. -/
def checkRoute (exec : Option Executor) (r : Route × ℕ) : Option Conflict :=
  exec.bind (fun x => conflictOf (containerName uuid) r.1.host
    ((x.check r.2).exec ⟨true,d.checkHostConflicts r.1.host⟩))

def safeRoutes (exec : Option Executor) : List Route :=
  (routes.zipIdx.filter (fun r => (checkRoute d uuid exec r).isNone)).map Prod.fst

def conflicts (exec : Option Executor) : List Conflict := routes.zipIdx.filterMap (checkRoute d uuid exec)

def wantedLabels (exec : Option Executor) : Labels :=
  traefikLabelsForRoutes uuid.text (safeRoutes d uuid routes exec) sso

/-- `docker inspect` of the container fails where there is none. -/
def inspected (x : Executor) : Except String ExecResult :=
  x.inspect.exec (match d.named (containerName uuid) with
    | none => ⟨false,"Error: No such object: "++containerName uuid⟩
    | some c => ⟨true,printLabels c.labels⟩)

def unchanged (x : Executor) : Bool :=
  match inspected d uuid x with
  | .error _ => false
  | .ok cur => cur.ok && traefikLabelsMatch cur.output (labelTexts (wantedLabels d uuid sso routes (some x)))

def syncWith (exec : Option Executor) : Docker × Except String Report :=
  let container := containerName uuid
  let safe := safeRoutes d uuid routes exec
  let conflicts := conflicts d uuid routes exec
  let labels := wantedLabels d uuid sso routes exec
  let report : Report :=
    ⟨true,safe.length,safe.map Route.host,some container,labels,sso.isSome,conflicts,false,none,none⟩
  if safe = [] then
    (d,.ok { report with
      sso := false
      note := some (if conflicts = [] then "aucune route proxy — rien à appliquer"
        else "tous les Hosts en conflit — aucun label appliqué") })
  else match exec with
    | none =>
      (d,.ok { report with container := none, note := some "executor non branché — labels générés seulement" })
    | some x =>
      if unchanged d uuid sso routes x then
        (d,.ok { report with unchanged := true, note := some "labels déjà à jour — conteneur non recréé" })
      else
        let res := d.recreate container (labelTexts labels) x.recreation
        (res.1,res.2.map (fun r => { report with ok := r.ok, output := some r.output }))

end DevForge.RouteSync
