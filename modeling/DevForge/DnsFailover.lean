import DevForge.ClusterLocal
import DevForge.Transition
import Mathlib.Data.List.DropRight
import Mathlib.Logic.Function.Basic

/-!
# DNS failover of the interim leader

An interim leader points at its own tunnel the records that no longer answer, and restores them when
it steps down. What it changed is kept in `cluster-dns-failover.json`, so that a restart can restore
it. A run interleaves ticks and restore passes in any order; a crash, or a restore that times out,
may end either of them after any step.
-/

set_option autoImplicit false

namespace DevForge.DnsFailover
open ClusterLocal (LEADER_NODE_ID)
open Transition

/-! ## Decisions -/

inductive ControlPlaneProbe where
  | healthy (nodeId : Option String)
  | down
deriving DecidableEq, Repr

inductive AppProbe where
  | originAlive
  | tunnelDown
deriving DecidableEq, Repr

def controlPlaneShouldPointHere (actingLeader : Bool) (probe : ControlPlaneProbe) (myNodeId myIngress : String) : Bool :=
  if !actingLeader || trim myIngress = "" then false
  else match probe with
    | .down => true
    | .healthy (some id) => id = myNodeId
    | .healthy none => false

def appShouldPointHere (actingLeader appOnOriginalLeader liveIsMine : Bool) (probe : AppProbe) (myIngress : String) : Bool :=
  if !actingLeader || !appOnOriginalLeader || trim myIngress = "" then false
  else liveIsMine || probe = .tunnelDown

/-- `trim_end_matches('.')`. -/
def trimEndDots (s : String) : String := String.ofList (s.toList.rdropWhile (· = '.'))

def normalTarget (s : String) : String := toAsciiLowercase (trimEndDots (trim s))

def sameTarget (a b : String) : Bool := trim a ≠ "" && normalTarget a = normalTarget b

/-! ## The failover state -/

structure FailoverEntry where
  fqdn : String
  original : Option String
  target : String
  controlPlane : Bool
deriving DecidableEq, Repr

def names (fqdn : String) (e : FailoverEntry) : Bool := toAsciiLowercase e.fqdn = toAsciiLowercase fqdn

def get (st : List FailoverEntry) (fqdn : String) : Option FailoverEntry := st.find? (names fqdn)

def retarget (target : String) (fqdn : String) : List FailoverEntry → List FailoverEntry
  | [] => []
  | e::es => if names fqdn e then { e with target := target }::es else e::retarget target fqdn es

/-- The original is recorded once: a second move only changes the target. -/
def record (st : List FailoverEntry) (fqdn : String) (original : Option String) (target : String) (cp : Bool) :
    List FailoverEntry :=
  if st.any (names fqdn) then retarget target fqdn st
  else st++[⟨toAsciiLowercase fqdn,original,target,cp⟩]

/-! ## Ticks and restore passes -/

/-- Where an interim tick stands: its ingress, its node, and the failover state it has loaded. -/
structure Tick where
  myIngress : String
  nodeId : String
  preferredLeaderId : String
  st : List FailoverEntry
  changed : Bool
deriving DecidableEq, Repr

inductive Pc where
  | idle
  | ticking (t : Tick)
  | recording (t : Tick) (fqdn : String) (truncated : Bool)
  | pointing (t : Tick) (fqdn : String)
  | finishing (st : List FailoverEntry) (truncated : Bool)
  | restoring (todo left : List FailoverEntry)
  | leaving (left : List FailoverEntry) (truncated : Bool)
deriving DecidableEq, Repr

/-- `dns` holds the target of each lower-cased name; `file` what `load_state` can read back; `moved`
the names an interim has already begun to point at itself. -/
structure State where
  dns : String → Option String
  file : Option (List FailoverEntry)
  moved : String → Bool
  pc : Pc

inductive Action where
  | startTick (myIngress nodeId preferredLeaderId : String)
  | controlPlane (fqdn : String) (probe : ControlPlaneProbe) (readable : Bool)
  | app (fqdn node : String) (probe : AppProbe) (readable : Bool)
  | save (ok : Bool)
  | point (ok : Bool) (holds : Option String)
  | endTick
  | startRestore
  | restoreNext (ok : Bool) (holds : Option String)
  | crash
deriving DecidableEq, Repr

def loadState (s : State) : List FailoverEntry := s.file.getD []

def start (origin : String → Option String) : State := ⟨origin,none,fun _ => false,.idle⟩

/-- A step of `save_state`, and whether it was the last one. The file is removed when the state is
empty, else emptied and then written; errors are ignored. -/
def saveStep (st : List FailoverEntry) (truncated ok : Bool) (file : Option (List FailoverEntry)) :
    Option (List FailoverEntry) × Bool :=
  if st = [] then (if ok then none else file,true)
  else if truncated then (if ok then some st else none,true)
  else if ok then (none,false) else (file,true)

/-- The target is recorded and saved before a record is pointed here for the first time. -/
def move (t : Tick) (fqdn : String) (live : Option String) (cp : Bool) : Pc :=
  if (get t.st fqdn).isNone then .recording { t with st := record t.st fqdn live t.myIngress cp } fqdn false
  else .pointing t fqdn

def controlPlane (s : State) (t : Tick) (fqdn : String) (probe : ControlPlaneProbe) (readable : Bool) : State :=
  let live := s.dns (toAsciiLowercase fqdn)
  if !controlPlaneShouldPointHere true probe t.nodeId t.myIngress || !readable then s
  else if live.any (sameTarget · t.myIngress) then s
  else { s with pc := move t fqdn live true }

def app (s : State) (t : Tick) (fqdn node : String) (probe : AppProbe) (readable : Bool) : State :=
  let preferred := if trim t.preferredLeaderId = "" then LEADER_NODE_ID else t.preferredLeaderId
  let live := s.dns (toAsciiLowercase fqdn)
  let liveIsMine := live.any (sameTarget · t.myIngress)
  let probe := if liveIsMine then .originAlive else probe
  if fqdn = "" || !(node = preferred || node = LEADER_NODE_ID) || !readable then s
  else if !appShouldPointHere true true liveIsMine probe t.myIngress || liveIsMine then s
  else { s with pc := move t fqdn live false }

/-- Names are not told apart by letter case. -/
@[irreducible] def setName {α : Type} (f : String → α) (fqdn : String) (v : α) : String → α :=
  Function.update f (toAsciiLowercase fqdn) v

/-- A DNS write leaves the record with `holds`: with the wanted target when it succeeds, with anything
when it fails. -/
def succeeds (target : String) (ok : Bool) (holds : Option String) : Bool :=
  ok && holds.any (sameTarget · target)

def original (e : FailoverEntry) : Option String := e.original.filter (fun o => trim o ≠ "")

/-- An entry without an original target is dropped: its record is left to the normal DNS loop. -/
def restoreNext (s : State) (ok : Bool) (holds : Option String) (left : List FailoverEntry) :
    List FailoverEntry → State
  | [] => { s with pc := .leaving left false }
  | e::todo =>
    match original e with
    | none => { s with pc := .restoring todo left }
    | some orig =>
      let left := if succeeds orig ok holds then left else left++[e]
      { s with dns := setName s.dns e.fqdn holds, pc := .restoring todo left }

def save (s : State) (st : List FailoverEntry) (truncated ok : Bool) (more done : Pc) : State :=
  let saved := saveStep st truncated ok s.file
  { s with file := saved.1, pc := if saved.2 then done else more }

def step (s : State) : Action → State
  | .startTick myIngress nodeId preferredLeaderId =>
    match s.pc with
    | .idle =>
      if myIngress = "" then s
      else { s with pc := .ticking ⟨myIngress,nodeId,preferredLeaderId,loadState s,false⟩ }
    | _ => s
  | .controlPlane fqdn probe readable =>
    match s.pc with
    | .ticking t => controlPlane s t fqdn probe readable
    | _ => s
  | .app fqdn node probe readable =>
    match s.pc with
    | .ticking t => app s t fqdn node probe readable
    | _ => s
  | .save ok =>
    match s.pc with
    | .recording t fqdn truncated => save s t.st truncated ok (.recording t fqdn true) (.pointing t fqdn)
    | .finishing st truncated => save s st truncated ok (.finishing st true) .idle
    | .leaving left truncated => save s left truncated ok (.leaving left true) .idle
    | _ => s
  | .point ok holds =>
    match s.pc with
    | .pointing t fqdn =>
      { s with
        dns := setName s.dns fqdn holds
        moved := setName s.moved fqdn true
        pc := .ticking { t with changed := t.changed || succeeds t.myIngress ok holds } }
    | _ => s
  | .endTick =>
    match s.pc with
    | .ticking t => { s with pc := if t.changed then .finishing t.st false else .idle }
    | _ => s
  | .startRestore =>
    match s.pc with
    | .idle => if loadState s = [] then s else { s with pc := .restoring (loadState s) [] }
    | _ => s
  | .restoreNext ok holds =>
    match s.pc with
    | .restoring todo left => restoreNext s ok holds left todo
    | _ => s
  | .crash => { s with pc := .idle }

/-! ## Targets -/

def HasTarget (o : Option String) : Prop := ∃ x, o = some x ∧ trim x ≠ ""

/-- The same DNS target, letter case and a final dot aside. -/
def SameOriginal (a b : Option String) : Prop :=
  a = b ∨ ∃ x y, a = some x ∧ b = some y ∧ sameTarget x y = true ∧ sameTarget y x = true

theorem toLower_toLower (c : Char) : c.toLower.toLower = c.toLower := by
  unfold Char.toLower
  grind

@[simp] theorem lowercase_lowercase (s : String) : toAsciiLowercase (toAsciiLowercase s) = toAsciiLowercase s := by
  simp [toAsciiLowercase, Function.comp_def, toLower_toLower]

theorem sameTarget_iff {a b : String} : sameTarget a b = true ↔ trim a ≠ "" ∧ normalTarget a = normalTarget b := by
  simp [sameTarget]

theorem SameOriginal.trans {a b c : Option String} (h : SameOriginal a b) (h' : SameOriginal b c) : SameOriginal a c := by
  rcases h with rfl | ⟨x,y,rfl,rfl,hxy,hyx⟩
  · exact h'
  · rcases h' with rfl | ⟨x',z,hx',rfl,hyz,hzy⟩
    · exact .inr ⟨x,y,rfl,rfl,hxy,hyx⟩
    · obtain rfl := Option.some.inj hx'
      rw [sameTarget_iff] at hxy hyx hyz hzy
      exact .inr ⟨x,z,rfl,rfl,sameTarget_iff.mpr ⟨hxy.1,hxy.2.trans hyz.2⟩,sameTarget_iff.mpr ⟨hzy.1,hzy.2.trans hyx.2⟩⟩

theorem SameOriginal.symm {a b : Option String} (h : SameOriginal a b) : SameOriginal b a := by
  rcases h with rfl | ⟨x,y,rfl,rfl,hxy,hyx⟩
  · exact .inl rfl
  · exact .inr ⟨y,x,rfl,rfl,hyx,hxy⟩

theorem SameOriginal.hasTarget {a b : Option String} (h : SameOriginal a b) (ha : HasTarget a) : HasTarget b := by
  rcases h with rfl | ⟨x,y,rfl,rfl,-,hyx⟩
  · exact ha
  · exact ⟨y,rfl,(sameTarget_iff.mp hyx).1⟩

theorem original_some {e : FailoverEntry} {o : String} (h : original e = some o) : e.original = some o ∧ trim o ≠ "" := by
  simpa [original, Option.filter_eq_some_iff] using h

theorem original_none {e : FailoverEntry} (h : original e = none) : ¬HasTarget e.original := by
  rintro ⟨x,hx,hne⟩
  simp [original, hx, hne] at h

/-- A restored record has the target it is given. -/
theorem succeeds_sameOriginal {target : String} {ok : Bool} {holds : Option String} (hne : trim target ≠ "")
    (h : succeeds target ok holds = true) : SameOriginal holds (some target) := by
  simp only [succeeds, Bool.and_eq_true] at h
  cases holds with
  | none => simp at h
  | some c =>
    have hc : sameTarget c target = true := by simpa using h.2
    exact .inr ⟨c,target,rfl,rfl,hc,sameTarget_iff.mpr ⟨hne,(sameTarget_iff.mp hc).2.symm⟩⟩

/-! ## Entries -/

def entryKey (e : FailoverEntry) : String := toAsciiLowercase e.fqdn

def keys (st : List FailoverEntry) : List String := st.map entryKey

@[simp] theorem setName_self {α : Type} (f : String → α) (fqdn : String) (v : α) :
    setName f fqdn v (toAsciiLowercase fqdn) = v := by
  rw [setName, Function.update_self]

theorem setName_of_ne {α : Type} {f : String → α} {fqdn k : String} {v : α} (h : k ≠ toAsciiLowercase fqdn) :
    setName f fqdn v k = f k := by
  rw [setName, Function.update_of_ne h]

theorem get_isNone_iff {st : List FailoverEntry} {fqdn : String} :
    (get st fqdn).isNone = true ↔ toAsciiLowercase fqdn ∉ keys st := by
  simp [get, keys, names, entryKey, Option.isNone_iff_eq_none]

theorem record_new {st : List FailoverEntry} {fqdn : String} (live : Option String) (target : String) (cp : Bool)
    (h : (get st fqdn).isNone = true) : record st fqdn live target cp = st++[⟨toAsciiLowercase fqdn,live,target,cp⟩] := by
  rw [record, if_neg]
  simpa [get, Option.isNone_iff_eq_none] using h

/-- An entry that stays keeps its original target. -/
def KeepsStored (st st' : List FailoverEntry) : Prop :=
  ∀ e ∈ st, ∀ e' ∈ st', entryKey e = entryKey e' → e'.original = e.original

theorem keepsStored_of_sublist {st st' : List FailoverEntry} (h : (keys st).Nodup) (hsub : st'.Sublist st) :
    KeepsStored st st' := by
  intro e he e' he' hkey
  rw [List.inj_on_of_nodup_map h he (hsub.subset he') hkey]

theorem keepsStored_append {st : List FailoverEntry} {e : FailoverEntry} (h : (keys st).Nodup) (hnew : entryKey e ∉ keys st) :
    KeepsStored st (st++[e]) := by
  intro a ha b hb hkey
  rcases List.mem_append.mp hb with hb | hb
  · exact keepsStored_of_sublist h (List.Sublist.refl _) a ha b hb hkey
  · obtain rfl := List.mem_singleton.mp hb
    exact absurd (hkey ▸ List.mem_map_of_mem ha) hnew

/-! ## The invariant -/

/-- What the file holds, or is being given once it has been emptied for it. -/
def book (s : State) : List FailoverEntry :=
  match s.pc with
  | .recording t _ true => t.st
  | .finishing st true => st
  | .leaving left true => left
  | _ => loadState s

/-- The entries whose records are still to be restored. -/
def pending (s : State) : List FailoverEntry :=
  match s.pc with
  | .restoring todo left => left++todo
  | .leaving left _ => left
  | _ => book s

/-- Records whose original is known: they are not moved yet, or had a target. -/
def Known (origin : String → Option String) (s : State) (k : String) : Prop := s.moved k = false ∨ HasTarget (origin k)

def Tracks (origin : String → Option String) (s : State) (e : FailoverEntry) : Prop :=
  Known origin s (entryKey e) → SameOriginal e.original (origin (entryKey e))

def PcOk (origin : String → Option String) (s : State) : Prop :=
  match s.pc with
  | .idle => True
  | .ticking t => t.st = loadState s
  | .recording t fqdn false =>
    ∃ e, t.st = loadState s++[e] ∧ entryKey e = toAsciiLowercase fqdn ∧ entryKey e ∉ keys (loadState s) ∧ Tracks origin s e
  | .recording t fqdn true => s.file = none ∧ toAsciiLowercase fqdn ∈ keys t.st
  | .pointing t fqdn => t.st = loadState s ∧ toAsciiLowercase fqdn ∈ keys t.st
  | .finishing st false => st = loadState s
  | .finishing _ true => s.file = none
  | .restoring todo left => (left++todo).Sublist (loadState s)
  | .leaving left false => left.Sublist (loadState s)
  | .leaving _ true => s.file = none

structure Inv (origin : String → Option String) (s : State) : Prop where
  tracks : ∀ e ∈ book s, Tracks origin s e
  unique : (keys (book s)).Nodup
  covered : ∀ k, Known origin s k → SameOriginal (s.dns k) (origin k) ∨ k ∈ keys (pending s)
  untouched : ∀ k, s.moved k = false → ¬HasTarget (origin k) → s.dns k = origin k
  pcOk : PcOk origin s

/-- What a step keeps: the invariant, and the originals that are stored. -/
structure Advance (origin : String → Option String) (s s' : State) : Prop where
  inv : Inv origin s'
  kept : KeepsStored (book s) (book s')

variable {origin : String → Option String} {s : State}

theorem inv_start : Inv origin (start origin) := by
  constructor
  · simp [book, start, loadState]
  · simp [book, start, loadState, keys]
  · exact fun k _ => .inl (.inl rfl)
  · exact fun k _ _ => rfl
  · trivial

theorem Inv.advance_of_sublist {s' : State} (h : Inv origin s) (hdns : s'.dns = s.dns) (hmoved : s'.moved = s.moved)
    (hbook : (book s').Sublist (book s)) (hpending : ∀ k ∈ keys (pending s), k ∈ keys (pending s'))
    (hok : PcOk origin s') : Advance origin s s' := by
  have hknown (k : String) : Known origin s' k ↔ Known origin s k := by rw [Known, Known, hmoved]
  refine ⟨⟨?_,?_,?_,?_,hok⟩,keepsStored_of_sublist h.unique hbook⟩
  · intro e he hk
    exact h.tracks e (hbook.subset he) ((hknown _).mp hk)
  · exact h.unique.sublist (hbook.map entryKey)
  · intro k hk
    rw [hdns]
    exact (h.covered k ((hknown k).mp hk)).imp_right (hpending k)
  · rw [hdns, hmoved]
    exact h.untouched

theorem Inv.advance_self (h : Inv origin s) : Advance origin s s :=
  ⟨h,keepsStored_of_sublist h.unique (List.Sublist.refl _)⟩

/-! ## Operations -/

theorem inv_startTick (h : Inv origin s) (myIngress nodeId preferred : String) :
    Advance origin s (step s (.startTick myIngress nodeId preferred)) := by
  simp only [step]
  split
  · next hpc =>
    split
    · exact h.advance_self
    · exact h.advance_of_sublist rfl rfl (by simp [book, hpc, loadState]) (by simp [pending, book, hpc, loadState]) rfl
  · exact h.advance_self

theorem inv_endTick (h : Inv origin s) : Advance origin s (step s .endTick) := by
  simp only [step]
  split
  · next t hpc =>
    have hst : t.st = loadState s := by simpa [PcOk, hpc] using h.pcOk
    cases t.changed with
    | true => exact h.advance_of_sublist rfl rfl (by simp [book, hpc, loadState]) (by simp [pending, book, hpc, loadState]) hst
    | false => exact h.advance_of_sublist rfl rfl (by simp [book, hpc, loadState]) (by simp [pending, book, hpc, loadState]) trivial
  · exact h.advance_self

theorem inv_startRestore (h : Inv origin s) : Advance origin s (step s .startRestore) := by
  simp only [step]
  split
  · next hpc =>
    split
    · exact h.advance_self
    · exact h.advance_of_sublist rfl rfl (by simp [book, hpc, loadState]) (by simp [pending, book, hpc, loadState])
        (List.Sublist.refl _)
  · exact h.advance_self

/-- A record is moved only when its original is stored, or about to be: what it holds then is the
original, since no entry is pending for it. -/
theorem inv_move (h : Inv origin s) {t : Tick} (hpc : s.pc = .ticking t) (fqdn : String) (cp : Bool) :
    Advance origin s { s with pc := move t fqdn (s.dns (toAsciiLowercase fqdn)) cp } := by
  have hst : t.st = loadState s := by simpa [PcOk, hpc] using h.pcOk
  have hpending : pending s = loadState s := by simp [pending, book, hpc]
  unfold move
  split
  · next hnone =>
    have hkey := get_isNone_iff.mp hnone
    refine h.advance_of_sublist rfl rfl ?_ ?_ ?_
    · simp [book, hpc, loadState]
    · simp [pending, book, hpc, loadState]
    · refine ⟨⟨toAsciiLowercase fqdn,s.dns (toAsciiLowercase fqdn),t.myIngress,cp⟩,?_,?_,?_,?_⟩
      · exact (record_new _ _ _ hnone).trans (congrArg (·++[_]) hst)
      · exact lowercase_lowercase fqdn
      · show toAsciiLowercase (toAsciiLowercase fqdn) ∉ keys (loadState s)
        rwa [lowercase_lowercase, ← hst]
      · intro hknown
        rw [entryKey, lowercase_lowercase] at hknown ⊢
        exact (h.covered _ hknown).resolve_right (by rwa [hpending, ← hst])
  · next hsome =>
    refine h.advance_of_sublist rfl rfl ?_ ?_ ?_
    · simp [book, hpc, loadState]
    · simp [pending, book, hpc, loadState]
    · exact ⟨hst,by rwa [get_isNone_iff, not_not] at hsome⟩

theorem inv_controlPlane (h : Inv origin s) (fqdn : String) (probe : ControlPlaneProbe) (readable : Bool) :
    Advance origin s (step s (.controlPlane fqdn probe readable)) := by
  simp only [step]
  split
  · next t hpc =>
    simp only [controlPlane]
    split
    · exact h.advance_self
    · split
      · exact h.advance_self
      · exact inv_move h hpc fqdn true
  · exact h.advance_self

theorem inv_app (h : Inv origin s) (fqdn node : String) (probe : AppProbe) (readable : Bool) :
    Advance origin s (step s (.app fqdn node probe readable)) := by
  simp only [step]
  split
  · next t hpc =>
    simp only [app]
    generalize (if trim t.preferredLeaderId = "" then LEADER_NODE_ID else t.preferredLeaderId) = preferred
    generalize (if (s.dns (toAsciiLowercase fqdn)).any (sameTarget · t.myIngress) then .originAlive else probe) = probe
    split
    · exact h.advance_self
    · split
      · exact h.advance_self
      · exact inv_move h hpc fqdn false
  · exact h.advance_self

/-- A DNS write: the other records are left, and the written one has an entry or its original target. -/
theorem covered_write (h : Inv origin s) {s' : State} {fqdn : String} {holds : Option String}
    (hdns : s'.dns = setName s.dns fqdn holds) (hknown : ∀ k, Known origin s' k → Known origin s k)
    (hpending : ∀ k ∈ keys (pending s), k ≠ toAsciiLowercase fqdn → k ∈ keys (pending s'))
    (hself : Known origin s' (toAsciiLowercase fqdn) → SameOriginal holds (origin (toAsciiLowercase fqdn)) ∨
      toAsciiLowercase fqdn ∈ keys (pending s')) :
    ∀ k, Known origin s' k → SameOriginal (s'.dns k) (origin k) ∨ k ∈ keys (pending s') := by
  intro k hk
  rw [hdns]
  by_cases heq : k = toAsciiLowercase fqdn
  · subst heq
    rw [setName_self]
    exact hself hk
  · rw [setName_of_ne heq]
    exact (h.covered k (hknown k hk)).imp_right (fun hmem => hpending k hmem heq)

theorem inv_point (h : Inv origin s) (ok : Bool) (holds : Option String) :
    Advance origin s (step s (.point ok holds)) := by
  simp only [step]
  split
  · next t fqdn hpc =>
    have hok : t.st = loadState s ∧ toAsciiLowercase fqdn ∈ keys t.st := by simpa [PcOk, hpc] using h.pcOk
    have hbook : book s = loadState s := by simp [book, hpc]
    have hpending : pending s = loadState s := by simp [pending, book, hpc]
    have hknown (k : String)
        (hk : setName s.moved fqdn true k = false ∨ HasTarget (origin k)) : Known origin s k := by
      by_cases heq : k = toAsciiLowercase fqdn
      · subst heq
        exact .inr (by simpa using hk)
      · rwa [setName_of_ne heq] at hk
    have hunique : (keys (loadState s)).Nodup := hbook ▸ h.unique
    refine ⟨⟨?_,hunique,?_,?_,hok.1⟩,?_⟩
    · intro e he hk
      exact h.tracks e (hbook ▸ he) (hknown _ hk)
    · refine covered_write h rfl hknown ?_ ?_
      · intro k hk _
        rwa [hpending] at hk
      · intro _
        have hmem := hok.2
        rw [hok.1] at hmem
        exact .inr hmem
    · intro k hmoved hno
      have hne : k ≠ toAsciiLowercase fqdn := by
        rintro rfl
        simp at hmoved
      simp only [setName_of_ne hne] at hmoved ⊢
      exact h.untouched k hmoved hno
    · rw [hbook]
      exact keepsStored_of_sublist hunique (List.Sublist.refl _)
  · exact h.advance_self

theorem keys_append (st st' : List FailoverEntry) : keys (st++st') = keys st++keys st' := List.map_append

@[simp] theorem mem_keys_append_cons {k : String} {e : FailoverEntry} {left todo : List FailoverEntry} :
    k ∈ keys (left++e::todo) ↔ k = entryKey e ∨ k ∈ keys (left++todo) := by
  simp [keys]
  grind

/-- An entry is dropped when its record has its target again, or never had one. -/
theorem inv_restoreNext (h : Inv origin s) (ok : Bool) (holds : Option String) :
    Advance origin s (step s (.restoreNext ok holds)) := by
  simp only [step]
  split
  · next todo left hpc =>
    have hsub : (left++todo).Sublist (loadState s) := by simpa [PcOk, hpc] using h.pcOk
    have hbook : book s = loadState s := by simp [book, hpc]
    have hpending : pending s = left++todo := by simp [pending, hpc]
    have hunique : (keys (loadState s)).Nodup := hbook ▸ h.unique
    cases todo with
    | nil =>
      have hleft : left.Sublist (loadState s) := by simpa using hsub
      refine h.advance_of_sublist rfl rfl ?_ ?_ hleft
      · simp [book, hpc, restoreNext, loadState]
      · simp [pending, hpc, restoreNext]
    | cons e todo =>
      have htracks : Tracks origin s e := h.tracks e (hbook ▸ hsub.subset (by simp))
      have hdropped : (left++todo).Sublist (loadState s) :=
        ((List.sublist_cons_self e todo).append_left left).trans hsub
      simp only [restoreNext]
      cases horig : original e with
      | none =>
        have hfree (k : String) (hk : Known origin s k) : SameOriginal (s.dns k) (origin k) ∨ k ∈ keys (left++todo) := by
          by_cases heq : k = entryKey e
          · subst heq
            have hno : ¬HasTarget (origin (entryKey e)) :=
              fun htarget => original_none horig ((htracks hk).symm.hasTarget htarget)
            exact .inl (.inl (h.untouched _ (hk.resolve_right hno) hno))
          · have hcovered := h.covered k hk
            rw [hpending, mem_keys_append_cons] at hcovered
            exact hcovered.imp_right (fun hmem => hmem.resolve_left heq)
        refine ⟨⟨?_,hunique,hfree,h.untouched,hdropped⟩,?_⟩
        · exact fun e he hk => h.tracks e (hbook ▸ he) hk
        · rw [hbook]
          exact keepsStored_of_sublist hunique (List.Sublist.refl _)
      | some orig =>
        obtain ⟨horiginal,hne⟩ := original_some horig
        refine ⟨⟨?_,hunique,?_,?_,?_⟩,?_⟩
        · exact fun e he hk => h.tracks e (hbook ▸ he) hk
        · refine covered_write h rfl (fun k hk => hk) ?_ ?_
          · intro k hk hother
            rw [hpending, mem_keys_append_cons] at hk
            have hrest := hk.resolve_left hother
            dsimp only [pending]
            split
            · exact hrest
            · rw [List.append_assoc]
              exact mem_keys_append_cons.mpr (.inr hrest)
          · intro hk
            dsimp only [pending]
            split
            · next hdone =>
              exact .inl ((succeeds_sameOriginal hne hdone).trans (horiginal ▸ htracks hk))
            · rw [List.append_assoc]
              exact .inr (mem_keys_append_cons.mpr (.inl rfl))
        · intro k hmoved hno
          have hother : k ≠ toAsciiLowercase e.fqdn := by
            rintro rfl
            exact hno ((htracks (.inl hmoved)).hasTarget ⟨orig,horiginal,hne⟩)
          simp only [setName_of_ne hother]
          exact h.untouched k hmoved hno
        · show List.Sublist ((if succeeds orig ok holds then left else left++[e])++todo) (loadState s)
          split
          · exact hdropped
          · simpa using hsub
        · rw [hbook]
          exact keepsStored_of_sublist hunique (List.Sublist.refl _)
  · exact h.advance_self

/-! ## Saving the state -/

def truncated : Pc → Bool
  | .recording _ _ b | .finishing _ b | .leaving _ b => b
  | _ => false

/-- A write of the state file goes through: it does not fail, and no crash leaves the file empty. -/
def Completes (s : State) : Action → Prop
  | .save ok => ok = true
  | .crash => truncated s.pc = false
  | _ => True

instance (s : State) (a : Action) : Decidable (Completes s a) :=
  match a with
  | .save ok => inferInstanceAs (Decidable (ok = true))
  | .crash => inferInstanceAs (Decidable (truncated s.pc = false))
  | .startTick .. | .controlPlane .. | .app .. | .point .. | .endTick | .startRestore | .restoreNext .. =>
    inferInstanceAs (Decidable True)

theorem save_all {st : List FailoverEntry} {b : Bool} (more done : Pc) (h : st = [] ∨ b = true) :
    save s st b true more done = { s with file := if st = [] then none else some st, pc := done } := by
  rcases h with rfl | rfl
  · rfl
  · cases st <;> rfl

theorem save_truncates {st : List FailoverEntry} (more done : Pc) (h : st ≠ []) :
    save s st false true more done = { s with file := none, pc := more } := by
  simp [save, saveStep, h]

theorem getD_saved (st : List FailoverEntry) : (if st = [] then none else some st : Option _).getD [] = st := by
  cases st <;> rfl

/-- A save that ends: the file now holds what the state was to become. -/
theorem Inv.advance_saved (h : Inv origin s) {st : List FailoverEntry} {b : Bool} {more done : Pc} (hb : st = [] ∨ b = true)
    (hst : st.Sublist (book s)) (hpending : ∀ k ∈ keys (pending s), k ∈ keys st)
    (hdone : done = .idle ∨ ∃ t fqdn, done = .pointing t fqdn ∧ t.st = st ∧ toAsciiLowercase fqdn ∈ keys st) :
    Advance origin s (save s st b true more done) := by
  rw [save_all more done hb]
  have hload : loadState { s with file := if st = [] then none else some st, pc := done } = st := getD_saved st
  rcases hdone with rfl | ⟨t,fqdn,rfl,rfl,hmem⟩
  · refine h.advance_of_sublist rfl rfl ?_ ?_ trivial
    · exact (congrArg (List.Sublist · (book s)) hload).mpr hst
    · intro k hk
      exact (congrArg (k ∈ keys ·) hload).mpr (hpending k hk)
  · refine h.advance_of_sublist rfl rfl ?_ ?_ ⟨hload.symm,hmem⟩
    · exact (congrArg (List.Sublist · (book s)) hload).mpr hst
    · intro k hk
      exact (congrArg (k ∈ keys ·) hload).mpr (hpending k hk)

/-- The state file is emptied to receive the entry of a record that is about to be moved. -/
theorem inv_recording (h : Inv origin s) {t : Tick} {fqdn : String} (hpc : s.pc = .recording t fqdn false) :
    Advance origin s (save s t.st false true (.recording t fqdn true) (.pointing t fqdn)) := by
  obtain ⟨e,hst,hkey,hnew,htracks⟩ : ∃ e, t.st = loadState s++[e] ∧ entryKey e = toAsciiLowercase fqdn ∧
    entryKey e ∉ keys (loadState s) ∧ Tracks origin s e := by simpa [PcOk, hpc] using h.pcOk
  have hbook : book s = loadState s := by simp [book, hpc]
  have hpending : pending s = loadState s := by simp [pending, book, hpc]
  have hunique : (keys (loadState s)).Nodup := hbook ▸ h.unique
  rw [save_truncates _ _ (by simp [hst])]
  have hafter : book { s with file := none, pc := .recording t fqdn true } = loadState s++[e] := hst
  have hkeys : keys (loadState s++[e]) = keys (loadState s)++[entryKey e] := keys_append _ _
  refine ⟨⟨?_,?_,?_,h.untouched,?_⟩,?_⟩
  · intro a ha hk
    rw [hafter] at ha
    rcases List.mem_append.mp ha with ha | ha
    · exact h.tracks a (hbook ▸ ha) hk
    · obtain rfl := List.mem_singleton.mp ha
      exact htracks hk
  · rw [hafter, hkeys, List.nodup_append]
    refine ⟨hunique,List.nodup_singleton _,?_⟩
    intro k hk k' hk' heq
    obtain rfl := List.mem_singleton.mp hk'
    exact hnew (heq ▸ hk)
  · intro k hk
    have hcovered := h.covered k hk
    rw [hpending] at hcovered
    show SameOriginal (s.dns k) (origin k) ∨ k ∈ keys t.st
    rw [hst, hkeys]
    exact hcovered.imp_right (List.mem_append_left _)
  · refine ⟨rfl,?_⟩
    rw [hst, hkeys, hkey]
    simp
  · rw [hbook, hafter]
    exact keepsStored_append hunique hnew

theorem inv_finishing (h : Inv origin s) {st : List FailoverEntry} {b : Bool} (hpc : s.pc = .finishing st b) :
    Advance origin s (save s st b true (.finishing st true) .idle) := by
  have hbook : book s = st := by
    cases b with
    | true => simp [book, hpc]
    | false =>
      have hst : st = loadState s := by simpa [PcOk, hpc] using h.pcOk
      simp [book, hpc, hst]
  have hpending : pending s = st := by
    rw [← hbook]
    simp [pending, hpc]
  by_cases hdone : st = [] ∨ b = true
  · exact h.advance_saved hdone (hbook ▸ List.Sublist.refl _) (by simp [hpending]) (.inl rfl)
  · obtain ⟨hne,rfl⟩ : st ≠ [] ∧ b = false := by simpa using hdone
    rw [save_truncates _ _ hne]
    exact h.advance_of_sublist rfl rfl (hbook ▸ List.Sublist.refl _) (by rw [hpending]; simp [pending, book]) rfl

theorem inv_leaving (h : Inv origin s) {left : List FailoverEntry} {b : Bool} (hpc : s.pc = .leaving left b) :
    Advance origin s (save s left b true (.leaving left true) .idle) := by
  have hbook : left.Sublist (book s) := by
    cases b with
    | true => simp [book, hpc]
    | false => simpa [PcOk, book, hpc] using h.pcOk
  have hpending : pending s = left := by simp [pending, hpc]
  by_cases hdone : left = [] ∨ b = true
  · exact h.advance_saved hdone hbook (by simp [hpending]) (.inl rfl)
  · obtain ⟨hne,rfl⟩ : left ≠ [] ∧ b = false := by simpa using hdone
    rw [save_truncates _ _ hne]
    exact h.advance_of_sublist rfl rfl hbook (by rw [hpending]; simp [pending]) rfl

theorem inv_save (h : Inv origin s) : Advance origin s (step s (.save true)) := by
  simp only [step]
  split
  · next t fqdn b hpc =>
    cases b with
    | false => exact inv_recording h hpc
    | true =>
      have hmem : s.file = none ∧ toAsciiLowercase fqdn ∈ keys t.st := by simpa [PcOk, hpc] using h.pcOk
      have hbook : book s = t.st := by simp [book, hpc]
      have hpending : pending s = t.st := by simp [pending, book, hpc]
      exact h.advance_saved (.inr rfl) (hbook ▸ List.Sublist.refl _) (by simp [hpending])
        (.inr ⟨t,fqdn,rfl,rfl,hmem.2⟩)
  · next st b hpc => exact inv_finishing h hpc
  · next left b hpc => exact inv_leaving h hpc
  · exact h.advance_self

theorem inv_crash (h : Inv origin s) (ht : truncated s.pc = false) : Advance origin s (step s .crash) := by
  have hbook : book s = loadState s := by
    unfold book
    split <;> simp_all [truncated]
  have hpending (k : String) (hk : k ∈ keys (pending s)) : k ∈ keys (loadState s) := by
    have hok := h.pcOk
    unfold pending at hk
    split at hk
    · next todo left hpc =>
      have hsub : (left++todo).Sublist (loadState s) := by simpa [PcOk, hpc] using hok
      exact (hsub.map entryKey).subset hk
    · next left b hpc =>
      obtain rfl : b = false := by simpa [truncated, hpc] using ht
      have hsub : left.Sublist (loadState s) := by simpa [PcOk, hpc] using hok
      exact (hsub.map entryKey).subset hk
    · exact hbook ▸ hk
  exact h.advance_of_sublist rfl rfl (hbook ▸ List.Sublist.refl _) hpending trivial

/-- Every step keeps the invariant and the stored originals. -/
theorem step_advance (h : Inv origin s) {a : Action} (ha : Completes s a) : Advance origin s (step s a) := by
  cases a with
  | startTick myIngress nodeId preferred => exact inv_startTick h myIngress nodeId preferred
  | controlPlane fqdn probe readable => exact inv_controlPlane h fqdn probe readable
  | app fqdn node probe readable => exact inv_app h fqdn node probe readable
  | save ok =>
    obtain rfl : ok = true := ha
    exact inv_save h
  | point ok holds => exact inv_point h ok holds
  | endTick => exact inv_endTick h
  | startRestore => exact inv_startRestore h
  | restoreNext ok holds => exact inv_restoreNext h ok holds
  | crash => exact inv_crash h ha

/-! ## What survives a failover -/

/-- A record about to be pointed here has an entry, with the original of the record when this is the
first time. -/
def RecordedFirst (origin : String → Option String) (s : State) : Prop :=
  ∀ t fqdn, s.pc = .pointing t fqdn → ∃ e ∈ loadState s, entryKey e = toAsciiLowercase fqdn ∧
    (s.moved (toAsciiLowercase fqdn) = false → SameOriginal e.original (origin (toAsciiLowercase fqdn)))

/-- The stored original of a record that had a target is that target, never an address of the interim. -/
def StoredOriginals (origin : String → Option String) (s : State) : Prop :=
  ∀ e ∈ loadState s, HasTarget (origin (entryKey e)) → SameOriginal e.original (origin (entryKey e))

/-- No tick or restore pass is under way, and no entry is left. -/
def NoneLeft (s : State) : Prop := s.pc = .idle ∧ loadState s = []

instance (s : State) : Decidable (NoneLeft s) := inferInstanceAs (Decidable (_ ∧ _))

def Restored (origin : String → Option String) (s : State) (k : String) : Prop :=
  s.moved k = true → SameOriginal (s.dns k) (origin k)

/-- The records that had a target get it back. -/
def Safe (origin : String → Option String) (s : State) : Prop :=
  RecordedFirst origin s ∧ StoredOriginals origin s ∧ (NoneLeft s → ∀ k, HasTarget (origin k) → Restored origin s k)

theorem Inv.recordedFirst (h : Inv origin s) : RecordedFirst origin s := by
  intro t fqdn hpc
  have hok : t.st = loadState s ∧ toAsciiLowercase fqdn ∈ keys t.st := by simpa [PcOk, hpc] using h.pcOk
  have hbook : book s = loadState s := by simp [book, hpc]
  obtain ⟨e,he,hkey⟩ := List.mem_map.mp (hok.1 ▸ hok.2)
  refine ⟨e,he,hkey,?_⟩
  intro hmoved
  rw [← hkey] at hmoved ⊢
  exact h.tracks e (hbook ▸ he) (.inl hmoved)

/-- While the file is being written it can be read as empty, else it holds the book. -/
theorem Inv.mem_book (h : Inv origin s) {e : FailoverEntry} (he : e ∈ loadState s) : e ∈ book s := by
  have hok := h.pcOk
  unfold book
  unfold PcOk at hok
  split at hok
  all_goals simp_all [loadState]

theorem Inv.storedOriginals (h : Inv origin s) : StoredOriginals origin s := by
  intro e he htarget
  exact h.tracks e (h.mem_book he) (.inr htarget)

theorem Inv.safe (h : Inv origin s) : Safe origin s := by
  refine ⟨h.recordedFirst,h.storedOriginals,?_⟩
  rintro ⟨hpc,hnone⟩ k htarget -
  refine (h.covered k (.inr htarget)).resolve_right ?_
  simp [pending, book, hpc, hnone, keys]

theorem inv_run (acts : List Action) (hacts : Guarded step Completes acts (start origin)) :
    Inv origin (run step acts (start origin)) :=
  guarded_invariant step Completes (Inv origin) (fun _ _ h ha => (step_advance h ha).inv) acts _ inv_start hacts

/-- Whatever the probes, the DNS errors and the crashes: originals are stored first and kept, and the
records that had a target have it again once no entry is left. -/
theorem originals_survive (origin : String → Option String) (acts : List Action)
    (hacts : Guarded step Completes acts (start origin)) :
    Safe origin (run step acts (start origin)) ∧
      ∀ a, Completes (run step acts (start origin)) a →
        KeepsStored (book (run step acts (start origin))) (book (step (run step acts (start origin)) a)) := by
  have hinv := inv_run acts hacts
  exact ⟨hinv.safe,fun a ha => (step_advance hinv ha).kept⟩

def tunnelMoved : List Action :=
  [.startTick "interim.tunnel" "node_2" "default", .app "app.example" "default" .tunnelDown true, .save true, .save true,
    .point true (some "interim.tunnel"), .endTick, .save true]

def restoredTwice : List Action :=
  [.save true, .startRestore, .restoreNext false none, .crash, .startRestore, .restoreNext true (some "leader.tunnel"),
    .restoreNext true none, .save true]

/-- The record of an app is moved; the first restore pass loses it and crashes, the second gives it back. -/
theorem moved_app_restored :
    let s := run step (tunnelMoved++restoredTwice) (start fun _ => some "Leader.tunnel.")
    s.moved "app.example" = true ∧ Restored (fun _ => some "Leader.tunnel.") s "app.example" := by
  have hrun : Guarded step Completes (tunnelMoved++restoredTwice) (start fun _ => some "Leader.tunnel.") ∧
      NoneLeft (run step (tunnelMoved++restoredTwice) (start fun _ => some "Leader.tunnel.")) ∧
      (run step (tunnelMoved++restoredTwice) (start fun _ => some "Leader.tunnel.")).moved "app.example" = true := by
    decide +kernel
  have hsafe := (originals_survive (fun _ => some "Leader.tunnel.") (tunnelMoved++restoredTwice) hrun.1).1
  exact ⟨hrun.2.2,hsafe.2.2 hrun.2.1 "app.example" ⟨"Leader.tunnel.",rfl,by decide +kernel⟩⟩

/-- A record without a target is not given back, and a crash between the two steps of a write loses
every entry. -/
theorem lost_originals :
    (¬∀ acts, Guarded step Completes acts (start fun _ => none) →
      NoneLeft (run step acts (start fun _ => none)) → ∀ k, Restored (fun _ => none) (run step acts (start fun _ => none)) k) ∧
    ¬∀ acts, NoneLeft (run step acts (start fun _ => some "leader.tunnel")) →
      ∀ k, Restored (fun _ => some "leader.tunnel") (run step acts (start fun _ => some "leader.tunnel")) k := by
  constructor
  · intro h
    obtain ⟨hguarded,hnone,hmoved,hdns⟩ : Guarded step Completes (tunnelMoved++restoredTwice) (start fun _ => none) ∧
        NoneLeft (run step (tunnelMoved++restoredTwice) (start fun _ => none)) ∧
        (run step (tunnelMoved++restoredTwice) (start fun _ => none)).moved "app.example" = true ∧
        (run step (tunnelMoved++restoredTwice) (start fun _ => none)).dns "app.example" = some "interim.tunnel" := by
      decide +kernel
    have hlost := h _ hguarded hnone "app.example" hmoved
    rw [hdns] at hlost
    simp [SameOriginal] at hlost
  · intro h
    obtain ⟨hnone,hmoved,hdns⟩ : NoneLeft (run step (tunnelMoved++[Action.crash]) (start fun _ => some "leader.tunnel")) ∧
        (run step (tunnelMoved++[Action.crash]) (start fun _ => some "leader.tunnel")).moved "app.example" = true ∧
        (run step (tunnelMoved++[Action.crash]) (start fun _ => some "leader.tunnel")).dns "app.example" =
          some "interim.tunnel" := by
      decide +kernel
    have hlost := h _ hnone "app.example" hmoved
    rw [hdns] at hlost
    rcases hlost with hlost | ⟨x,y,hx,hy,hsame,-⟩
    · exact absurd hlost (by decide)
    · rw [← Option.some.inj hx, ← Option.some.inj hy] at hsame
      exact absurd hsame (by decide +kernel)

end DevForge.DnsFailover
