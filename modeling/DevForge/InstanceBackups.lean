import DevForge.FixedDigits
import DevForge.NewestKept
import DevForge.Table

/-!
# Instance backups

Copies of the instance database in the local backup directory and under
`instance/` in the bucket, the pruning of both, and one scheduler cycle.
Dates are to the second, as the names and the local listing have them.
-/

set_option autoImplicit false

namespace DevForge.InstanceBackups
open NewestKept

/-- The numbers that `%Y%m%d` and `%H%M%S` spell. -/
structure Moment where
  date : Fin (10^8)
  time : Fin (10^6)
deriving DecidableEq

def Moment.number (m : Moment) : ℕ := m.date*10^6+m.time

def Moment.text (m : Moment) : List Char :=
  FixedDigits.pad 8 m.date++[ '-']++FixedDigits.pad 6 m.time

inductive Ext | sql | db
deriving DecidableEq

def Ext.text : Ext → List Char
  | .sql => ".sql".toList
  | .db => ".db".toList

/-- What the name of a copy is made of; the id is the part after `ib_`. -/
structure CopyName where
  stamp : Moment
  id : {l : List Char // l.length = 8}
  ext : Ext
deriving DecidableEq

def localBackupName (k : CopyName) : List Char :=
  "devforge-".toList++(k.stamp.text++("-ib_".toList++(k.id.1++k.ext.text)))

def storageKey (k : CopyName) : List Char := "instance/".toList++localBackupName k

/-- An entry of the backup directory; `modified` is in seconds since the epoch,
`none` where it cannot be read or given as a date. -/
structure DirEntry where
  isFile : Bool
  modified : Option ℕ
deriving DecidableEq

structure Bucket where
  objects : List CopyName
  nodup : objects.Nodup

structure Stores where
  dir : Table (List Char) DirEntry
  bucket : Bucket

/-- The order in which a directory is read. -/
structure Reading where
  order : List (List Char × DirEntry) → List (List Char × DirEntry)
  perm : ∀ l, (order l).Perm l

/-- What a prune meets outside the program. -/
structure Outside where
  /-- `none` where reading the directory fails. -/
  readDir : Option Reading
  /-- The clock, in nanoseconds, when an entry is listed. -/
  now : List Char → ℕ
  removed : List Char → Bool
  listed : Bool
  deleted : List Char → Bool

/-! ## Listings -/

def isBackup (e : List Char × DirEntry) : Bool :=
  e.2.isFile && (".db".toList.isSuffixOf e.1 || ".sql".toList.isSuffixOf e.1)

/-- RFC 3339 texts of UTC instants stand in the order of the instants. -/
def createdAt (w : Outside) (e : List Char × DirEntry) : ℕ :=
  match e.2.modified with
  | some secs => secs*10^9
  | none => w.now e.1

def newerFirst (w : Outside) (a b : List Char × DirEntry) : Prop := createdAt w b ≤ createdAt w a

instance (w : Outside) : DecidableRel (newerFirst w) :=
  fun a b => inferInstanceAs (Decidable (createdAt w b ≤ createdAt w a))

def listLocal (w : Outside) (dir : Table (List Char) DirEntry) :
    Option (List (List Char × DirEntry)) :=
  w.readDir.map (fun r => ((r.order dir.rows).filter isBackup).insertionSort (newerFirst w))

/-- A reply to ListObjectsV2 has one page of keys, in ascending order. -/
def maxKeys : ℕ := 1000

def keyLe (a b : CopyName) : Prop := storageKey a ≤ storageKey b

instance : DecidableRel keyLe := fun a b => inferInstanceAs (Decidable (storageKey a ≤ storageKey b))

/-- Blocks are read in the order of the reply; one without a key is dropped. -/
def parseListObjectsV2 (contents : List (Option (List Char))) : List (List Char) :=
  contents.filterMap (fun key =>
    let key := key.getD []
    if key.isEmpty then none else some key)

def listRemote (w : Outside) (b : Bucket) : Option (List (List Char)) :=
  if w.listed then
    some (parseListObjectsV2
      (((b.objects.insertionSort keyLe).take maxKeys).map (fun k => some (storageKey k))))
  else none

/-! ## Pruning -/

structure Pruned where
  stores : Stores
  deletedLocal : ℕ
  deletedS3 : ℕ

def skip {α : Type*} (retentionCount : ℕ) (listing : List α) : List α :=
  if listing.length > retentionCount then listing.drop retentionCount else []

def Bucket.delete (b : Bucket) (keys : List (List Char)) : Bucket where
  objects := b.objects.filter (fun k => storageKey k ∉ keys)
  nodup := b.nodup.filter _

def toDelete (w : Outside) (ready : Bool) (retentionCount : ℕ) (b : Bucket) : List (List Char) :=
  if ready then
    match listRemote w b with
    | some keys => (skip retentionCount keys).filter w.deleted
    | none => []
  else []

/-- `none` where the local backups cannot be listed; nothing is deleted then. -/
def prune (w : Outside) (ready : Bool) (retentionCount : ℕ) (s : Stores) : Option Pruned :=
  (listLocal w s.dir).map (fun backups =>
    let files := (skip retentionCount (backups.map Prod.fst)).filter w.removed
    let keys := toDelete w ready retentionCount s.bucket
    { stores :=
        { dir := s.dir.delete (fun name _ => name ∈ files), bucket := s.bucket.delete keys }
      deletedLocal := files.length
      deletedS3 := keys.length })

/-! ## One cycle of the scheduler -/

def sqliteMagic : List Char := "SQLite format 3\u0000".toList

def postgresMagic : List Char := "-- DevForge postgres snapshot\n".toList

def bytesOf (cs : List Char) : List UInt8 := cs.map (fun c => UInt8.ofNat c.toNat)

def snapshotIsPostgres (bytes : List UInt8) : Bool := (bytesOf postgresMagic).isPrefixOf bytes

def snapshotOk (bytes : List UInt8) : Bool :=
  100 ≤ bytes.length && ((bytesOf sqliteMagic).isPrefixOf bytes || snapshotIsPostgres bytes)

def snapshotExt (bytes : List UInt8) : Ext := if snapshotIsPostgres bytes then .sql else .db

structure SchedulerConfig where
  enabled : Bool
  retentionCount : ℕ

/-- The row holds the flag and the retention count. -/
def loadConfig : Option (ℤ × ℤ) → SchedulerConfig
  | some (enabled,retention) => ⟨enabled != 0,(max retention 1).toNat⟩
  | none => ⟨true,7⟩

/-- What one cycle meets. -/
structure Cycle where
  settings : Option (ℤ × ℤ)
  dump : Option (List UInt8)
  ready : Bool
  /-- The copy is written, to the bucket or to the directory. -/
  written : Bool
  stamp : Moment
  id : {l : List Char // l.length = 8}
  modified : Option ℕ
  outside : Outside

inductive Copy
  | s3 (key : CopyName)
  | file (name : List Char)
deriving DecidableEq

def Bucket.put (b : Bucket) (k : CopyName) : Bucket :=
  if h : k ∈ b.objects then b else
    ⟨k::b.objects,List.nodup_cons.mpr ⟨h,b.nodup⟩⟩

def writeFile (dir : Table (List Char) DirEntry) (name : List Char) (e : DirEntry) :
    Table (List Char) DirEntry :=
  (dir.delete (fun n _ => n = name)).insert name e

/-- The copy that is made, where one is. -/
def createFromBytes (c : Cycle) (bytes : List UInt8) (s : Stores) : Option Copy × Stores :=
  let key := CopyName.mk c.stamp c.id (snapshotExt bytes)
  if snapshotOk bytes && c.written then
    if c.ready then (some (.s3 key),{ s with bucket := s.bucket.put key })
    else (some (.file (localBackupName key)),
      { s with dir := writeFile s.dir (localBackupName key) ⟨true,c.modified⟩ })
  else (none,s)

def create (c : Cycle) (s : Stores) : Option Copy × Stores :=
  if (loadConfig c.settings).enabled then
    match c.dump with
    | some bytes => createFromBytes c bytes s
    | none => (none,s)
  else (none,s)

/-- A prune that fails is logged. -/
def pruneAfter (c : Cycle) (s : Stores) : Stores :=
  match prune c.outside c.ready (loadConfig c.settings).retentionCount s with
  | some p => p.stores
  | none => s

def runOnce (s : Stores) (c : Cycle) : Stores :=
  if (loadConfig c.settings).enabled then
    match c.dump with
    | some bytes => pruneAfter c (createFromBytes c bytes s).2
    | none => s
  else s

end DevForge.InstanceBackups
