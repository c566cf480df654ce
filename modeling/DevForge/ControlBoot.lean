import DevForge.ClusterLocal
import DevForge.CrashLogic

/-!
# The boot of the control plane

The volumes and containers of the control-plane Postgres, the flag and pending files, and
the commands of a boot in the order of `AppState::new` and `main`. A command does what
docker, Postgres and the file system do: it succeeds where it can. The copies of the data
directories run under the fixed names, which are valid volume names.
-/

set_option autoImplicit false

namespace DevForge.ControlBoot
open ClusterLocal CrashLogic

/-! ## Databases -/

/-- What a database holds: its data, none in the tables of a new one, and its row of
`cluster_local`. -/
structure Database where
  data : Option ℕ
  row : Option LocalClusterState
deriving DecidableEq, Repr

def Database.fresh : Database := ⟨none,none⟩

/-- The schema `public`; `tables` holds the table `projects`. -/
inductive Public where
  | missing
  | blank
  | tables (d : Database)
deriving DecidableEq, Repr

def Public.isTables : Public → Bool
  | .tables _ => true
  | _ => false

structure Cluster where
  inRecovery : Bool
  schema : Public
deriving DecidableEq, Repr

inductive Contents where
  | absent
  | empty
  | cluster (c : Cluster)
deriving DecidableEq, Repr

/-- `VOLUME`, `INCOMING_VOLUME` and `STANDBY_VOLUME`. -/
inductive Volume | control | incoming | standby
deriving DecidableEq, Repr

/-- `CONTAINER` and `STANDBY_CONTAINER`. -/
inductive Container | control | standby
deriving DecidableEq, Repr

inductive Status | absent | stopped | running
deriving DecidableEq, Repr

def Container.volume : Container → Volume
  | .control => .control
  | .standby => .standby

/-- What the promotion flag says, trimmed. -/
inductive PromoteMode | standby | other
deriving DecidableEq, Repr

/-- A pending file, by its header. -/
inductive Pending where
  | postgres (d : Database)
  | sqlite (d : Database)
deriving DecidableEq, Repr

def Pending.database : Pending → Database
  | .postgres d => d
  | .sqlite d => d

structure World where
  volumes : Volume → Contents
  containers : Container → Status
  /-- `cluster-reclaim-volume`. -/
  armed : Bool
  promoteFlag : Option PromoteMode
  /-- The failover identity file, none when it cannot be read. -/
  identity : Option LocalClusterState
  /-- The reclaim flag file and what it holds, none when it cannot be read. -/
  reclaimFlag : Option (Option LocalClusterState)
  pending : Option Pending
  /-- The SQLite file of `DATABASE_URL`. -/
  dbFile : Option Database

/-- The world, and the local variables of the boot that outlive a command. -/
structure State where
  world : World
  restoredSqlite : Bool
  promoting : Option LocalClusterState

/-- What the death of the process leaves. -/
def State.reset (s : State) : State := ⟨s.world,false,none⟩

/-! ## Commands -/

def onWorld (f : World → Bool × World) (s : State) : Bool × State :=
  ((f s.world).1,{ s with world := (f s.world).2 })

def setVolume (v : Volume) (c : Contents) (w : World) : World :=
  { w with volumes := Function.update w.volumes v c }

def setContainer (c : Container) (status : Status) (w : World) : World :=
  { w with containers := Function.update w.containers c status }

/-- `docker stop`. -/
def stop (c : Container) (w : World) : Bool × World :=
  if w.containers c = .absent then (false,w) else (true,setContainer c .stopped w)

/-- `docker rm`, which refuses a container that runs. -/
def rm (c : Container) (w : World) : Bool × World :=
  if w.containers c = .stopped then (true,setContainer c .absent w) else (false,w)

/-- Mounting a named volume creates it. -/
def mount (v : Volume) (w : World) : World :=
  if w.volumes v = .absent then setVolume v .empty w else w

def volumeCreate (v : Volume) (w : World) : Bool × World := (true,mount v w)

/-- `docker volume rm`, which refuses a volume that a container uses. -/
def volumeRm (v : Volume) (w : World) : Bool × World :=
  if w.volumes v = .absent ∨ ∃ c ∈ [Container.control,.standby], c.volume = v ∧ w.containers c ≠ .absent
  then (false,w)
  else (true,setVolume v .absent w)

/-- `docker run --rm` of the copy: both volumes are mounted, `to` is emptied and filled. -/
def copyVolume (source target : Volume) (w : World) : Bool × World :=
  (true,setVolume target ((mount source w).volumes source) (mount target (mount source w)))

/-- The entrypoint of the image initialises an empty data directory. -/
def initdb (c : Container) (w : World) : World :=
  match w.volumes c.volume with
  | .cluster _ => w
  | _ => setVolume c.volume (.cluster ⟨false,.blank⟩) w

/-- `docker run -d --name`. -/
def runContainer (c : Container) (w : World) : Bool × World :=
  if w.containers c = .absent then (true,setContainer c .running (initdb c (mount c.volume w)))
  else (false,w)

/-- `docker start`. -/
def start (c : Container) (w : World) : Bool × World :=
  if w.containers c = .absent then (false,w) else (true,setContainer c .running (initdb c (mount c.volume w)))

/-- The server of a container that runs. -/
def server (c : Container) (w : World) : Option Cluster :=
  match w.containers c, w.volumes c.volume with
  | .running, .cluster k => some k
  | _, _ => none

/-- `pg_ctl promote`, which fails on a server that is not a standby. -/
def pgCtlPromote (c : Container) (w : World) : Bool × World :=
  match server c w with
  | some k => if k.inRecovery then (true,setVolume c.volume (.cluster { k with inRecovery := false }) w)
    else (false,w)
  | none => (false,w)

/-- `SELECT pg_is_in_recovery()` answers `f`. -/
def isPromoted (c : Container) (w : World) : Bool × World :=
  ((server c w).any (fun k => !k.inRecovery),w)

/-- `pg_isready`. -/
def pgIsReady (c : Container) (w : World) : Bool × World := ((server c w).isSome,w)

/-- A statement that writes: refused by a standby, or by what the schema is. -/
def psql (f : Public → Option Public) (w : World) : Bool × World :=
  match server .control w with
  | some k =>
    if k.inRecovery then (false,w)
    else match f k.schema with
      | some schema => (true,setVolume .control (.cluster { k with schema := schema }) w)
      | none => (false,w)
  | none => (false,w)

/-- The role and the settings of `configure_primary`. -/
def configure : Public → Option Public := some

/-- `DROP SCHEMA IF EXISTS public CASCADE; CREATE SCHEMA public; …` -/
def resetSchema : Public → Option Public := fun _ => some .blank

def dropSchema : Public → Option Public := fun _ => some .missing

def createSchema : Public → Option Public
  | .missing => some .blank
  | _ => none

/-- The statements of a dump, or of an import from `BEGIN` to `COMMIT`. -/
def load (d : Database) : Public → Option Public
  | .blank => some (.tables d)
  | _ => none

/-- `CREATE TABLE IF NOT EXISTS …` -/
def migrateTables : Public → Option Public
  | .missing => none
  | .blank => some (.tables .fresh)
  | .tables d => some (.tables d)

/-- `set_local`, on the row of `cluster_local`. -/
def upsertLocal (l : LocalClusterState) : Public → Option Public
  | .tables d => some (.tables { d with row := some (setLocal l) })
  | _ => none

def removeArmed (w : World) : Bool × World := (w.armed,{ w with armed := false })

def removePromoteFlag (w : World) : Bool × World :=
  (w.promoteFlag.isSome,{ w with promoteFlag := none })

def removeReclaimFlag (w : World) : Bool × World :=
  (w.reclaimFlag.isSome,{ w with reclaimFlag := none })

def removePending (w : World) : Bool × World := (w.pending.isSome,{ w with pending := none })

def writeIdentity (l : LocalClusterState) (w : World) : Bool × World :=
  (true,{ w with identity := some l })

/-- The rename of the SQLite file to its backup. -/
def setAsideDb (w : World) : Bool × World := (w.dbFile.isSome,{ w with dbFile := none })

/-- The rename of the pending file to the SQLite file; the boot then knows that it restored. -/
def movePending (d : Database) (s : State) : Bool × State :=
  (true,{ s with world := { s.world with pending := none, dbFile := some d }, restoredSqlite := true })

/-! ## The boot -/

abbrev Boot (α : Type) := Prog State α

/-- A command whose failure is ignored. -/
def attempt (f : World → Bool × World) (p : Boot Bool) : Boot Bool := Prog.andThen (onWorld f) p

/-- A command whose failure ends the function. -/
def need (f : World → Bool × World) (p : Boot Bool) : Boot Bool := Prog.orElse (onWorld f) false p

def replaceVolume (source target : Volume) : Boot Bool :=
  need (volumeCreate target) <| need (copyVolume source target) <| .ret true

def adoptStagedCloneIfArmed : Boot Bool := .look fun s =>
  if s.world.armed then
    attempt (stop .control) <| (replaceVolume .incoming .control).bind fun ok =>
      if ok then attempt (volumeRm .incoming) <| attempt removeArmed <| .ret true
      else .ret false
  else .ret true

/-- The query is asked until it answers `f`, for 30 s at most. -/
def promoteContainer (c : Container) : Boot Bool :=
  need (pgCtlPromote c) <| need (isPromoted c) <| .ret true

def takeoverFromStandby : Boot Bool :=
  (promoteContainer .standby).bind fun ok =>
    if ok then attempt (stop .control) <| attempt (rm .control) <| attempt (stop .standby) <|
      (replaceVolume .standby .control).bind fun ok =>
        if ok then attempt (rm .standby) <| .ret true else .ret false
    else .ret false

/-- `InstanceBackupService::apply_pending_restore`. -/
def applyPendingRestore : Boot Unit := .look fun s =>
  match s.world.pending with
  | some (.sqlite d) =>
    if s.world.dbFile.isSome then
      Prog.andThen (onWorld setAsideDb) <| Prog.andThen (movePending d) <| .ret ()
    else Prog.andThen (movePending d) <| .ret ()
  | _ => .ret ()

/-- `container_needs_recreate` answers `recreate` about a container that exists. -/
def startContainer (recreate : Bool) : Boot Bool :=
  let settled : Boot Bool := need (pgIsReady .control) <| need (psql configure) <| .ret true
  let started : Boot Bool := .look fun s =>
    match s.world.containers .control with
    | .absent => need (runContainer .control) settled
    | .stopped => need (start .control) settled
    | .running => settled
  .look fun s =>
    if recreate && s.world.containers .control ≠ .absent then
      attempt (stop .control) <| attempt (rm .control) started
    else started

def restoreSnapshot (d : Database) : Boot Bool :=
  need (psql resetSchema) <| need (psql (load d)) <| .ret true

def importLegacySqlite : Boot Bool := .look fun s =>
  match s.world.dbFile with
  | some d =>
    if (server .control s.world).any (fun k => k.schema.isTables) then .ret true
    else need (psql (load d)) <| .ret true
  | none => .ret true

def replaceFromSqlite : Boot Bool :=
  need (psql dropSchema) <| need (psql createSchema) importLegacySqlite

def migrate : Boot Bool := need (psql migrateTables) <| .ret true

/-- The pool, and what it does with the database before the boot goes on. -/
def connect (restoredPg : Bool) : Boot Bool :=
  need (pgIsReady .control) <| .look fun s =>
  (if s.restoredSqlite then replaceFromSqlite
    else if !restoredPg then importLegacySqlite else .ret true).bind fun ok =>
  if ok then migrate else .ret false

def restorePending : Boot Bool := .look fun s =>
  match s.world.pending with
  | some (.postgres d) => (restoreSnapshot d).bind fun ok =>
    if ok then attempt removePending (connect true) else .ret false
  | _ => connect false

/-- `AppState::new` up to the migration. -/
def newState (recreate : Bool) : Boot Bool :=
  adoptStagedCloneIfArmed.bind fun _ => .look fun s =>
  (if s.world.promoteFlag = some .standby then takeoverFromStandby else .ret true).bind fun taken =>
  if taken then applyPendingRestore.bind fun _ => (startContainer recreate).bind fun ready =>
    if ready then restorePending else .ret false
  else .ret false

def setLocalRow (l : LocalClusterState) (s : State) : Bool × State :=
  onWorld (psql (upsertLocal l)) { s with promoting := some l }

def applyPromoteFlag : Boot Unit := .look fun s =>
  match s.world.promoteFlag, s.world.identity with
  | none, _ => .ret ()
  | some _, none => Prog.andThen (onWorld removePromoteFlag) <| .ret ()
  | some _, some ident =>
    Prog.orElse (setLocalRow (promoted ident)) () <|
    Prog.andThen (onWorld (writeIdentity (promoted ident))) <|
    Prog.andThen (onWorld removePromoteFlag) <| .ret ()

def applyReclaimFlag : Boot Unit := .look fun s =>
  match s.world.reclaimFlag with
  | some (some ident) =>
    Prog.orElse (onWorld (psql (upsertLocal (reclaimed ident)))) () <|
    Prog.andThen (onWorld (writeIdentity (reclaimed ident))) <|
    Prog.andThen (onWorld removeReclaimFlag) <| .ret ()
  | _ => .ret ()

/-- Whether the boot completes; a boot that fails ends the process. -/
def boot (recreate : Bool) : Boot Bool :=
  (newState recreate).bind fun up =>
  if up then applyPromoteFlag.bind fun _ => applyReclaimFlag.bind fun _ => .ret true
  else .ret false

end DevForge.ControlBoot
