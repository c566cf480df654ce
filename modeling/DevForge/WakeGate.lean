import DevForge.AgentRuns
import DevForge.ChangeGate
import DevForge.Transition
import Mathlib.Data.List.Sort
import Mathlib.Data.Set.Function

/-!
# The wake gate

Before an automatic wake the state observed is compared with the last one
recorded for the key. A call of `check` reads the record, then answers and
records a launch, then writes the journal; ends of runs come in any order.
The digest of a canonical state stands for the truncated SHA-256.
-/

set_option autoImplicit false

namespace DevForge.WakeGate
open AgentRuns Transition

inductive Json where
  | null
  | bool (b : Bool)
  | num (text : String)
  | str (s : String)
  | arr (vs : List Json)
  | obj (members : List (String × Json))

mutual

/-- Members of objects in the order of their keys, at every depth. -/
def canonical : Json → Json
  | .obj ms => .obj ((canonicalMembers ms).insertionSort (fun a b => a.1 ≤ b.1))
  | .arr vs => .arr (canonicalList vs)
  | v => v

def canonicalList : List Json → List Json
  | [] => []
  | v::vs => canonical v::canonicalList vs

def canonicalMembers : List (String × Json) → List (String × Json)
  | [] => []
  | (k,v)::ms => (k,canonical v)::canonicalMembers ms

end

inductive Outcome where
  | launched
  | skipped
  | done
  | failed
  deriving DecidableEq, Repr

inductive Decision where
  | launch (cause : String)
  | skip (cause : String)
  deriving DecidableEq, Repr

def Decision.cause : Decision → String
  | .launch cause => cause
  | .skip cause => cause

def Decision.isLaunch : Decision → Bool
  | .launch _ => true
  | .skip _ => false

/-- `prev` is the fingerprint and the outcome of the last passage. -/
def decide (prev : Option (String × Outcome)) (hash : String) : Decision :=
  match prev with
  | none => .launch "premier passage"
  | some (h,outcome) =>
    if h ≠ hash then .launch "état changé"
    else match outcome with
      | .failed => .skip "même état que l'échec précédent — nouvel essai au prochain changement"
      | .launched => .skip "run déjà lancé sur cet état"
      | _ => .skip "état inchangé"

theorem decide_launch_iff (prev : Option (String × Outcome)) (hash : String) :
    (decide prev hash).isLaunch ↔ prev.map Prod.fst ≠ some hash := by
  cases prev with
  | none => simp [decide, Decision.isLaunch]
  | some p =>
    obtain ⟨h,outcome⟩ := p
    by_cases he : h = hash
    · cases outcome <;> simp [decide, he, Decision.isLaunch]
    · simp [decide, he, Decision.isLaunch]

/-- Project and key of a wake. -/
abbrev WakeKey := Uuid × String

structure LogRow where
  id : ℕ
  wake : WakeKey
  source : String
  label : String
  outcome : Outcome
  cause : String
  stateHash : String
  runUuid : Option Uuid
  repeats : ℕ
  deriving DecidableEq, Repr

/-- `agent_wake_state` and `agent_wake_log`. -/
structure Db where
  state : Table WakeKey (String × Outcome)
  log : List LogRow
  nextLogId : ℕ

def clip (max : ℕ) (s : String) : String := String.ofList (s.toList.take max)

def setState (wake : WakeKey) (hash : String) (outcome : Outcome) (db : Db) : Db :=
  { db with
    state := (db.state.insert wake (hash,outcome)).update (fun k _ => k = wake)
      (fun _ _ => (hash,outcome)) }

def updateLog (id : ℕ) (f : LogRow → LogRow) (db : Db) : Db :=
  { db with log := db.log.map (fun r => if r.id = id then f r else r) }

def insertLog (r : LogRow) (db : Db) : ℕ × Db :=
  (db.nextLogId,{ db with
    log := db.log++[{ r with id := db.nextLogId }]
    nextLogId := db.nextLogId+1 })

/-- Consecutive identical skips are grouped in one line. -/
def record (wake : WakeKey) (source label : String) (outcome : Outcome) (cause hash : String)
    (run : Option Uuid) (db : Db) : ℕ × Db :=
  let cause := clip 240 cause
  let row : LogRow := ⟨db.nextLogId,wake,source,clip 120 label,outcome,cause,hash,run,1⟩
  match (db.log.filter (·.wake = wake)).getLast? with
  | some last =>
    if outcome = .skipped ∧ last.outcome = .skipped ∧ last.stateHash = hash ∧ last.cause = cause then
      (last.id,updateLog last.id (fun r => { r with repeats := r.repeats+1 }) db)
    else insertLog row db
  | none => insertLog row db

structure Gate where
  decision : Decision
  hash : String
  logId : Option ℕ
  deriving DecidableEq, Repr

structure FinishCall where
  wake : WakeKey
  gate : Gate
  ok : Bool
  cause : String
  run : Option Uuid
  deriving DecidableEq, Repr

/-- The outcome kept for the next decision. -/
def finish (c : FinishCall) (db : Db) : Db :=
  let outcome : Outcome := if c.ok then .done else .failed
  let db := setState c.wake c.gate.hash outcome db
  match c.gate.logId with
  | none => db
  | some id => updateLog id (fun r => { r with
      outcome := outcome
      cause := if c.cause = "" then r.cause else clip 240 c.cause
      runUuid := coalesce c.run r.runUuid }) db

/-- The call of `finish` that `after_wake` makes, if any: the wake failed or
started no run. -/
def afterWakeFinish (wake : WakeKey) (gate : Gate) (res : Except String Unit)
    (run : Option Uuid) : Option FinishCall :=
  match res, run, gate.logId with
  | .error e, _, _ => some ⟨wake,gate,false,"réveil impossible : "++e,none⟩
  | .ok _, some _, some _ => none
  | .ok _, _, _ =>
    some ⟨wake,gate,true,"aucun run (réveil déjà envoyé ou agent désactivé)",none⟩

/-- The call of `finish` at the end of a run that a launched line waits for;
`row` is the status and the error read for the run. -/
def finishByRun (run : Uuid) (row : Option (RunStatus × Option String)) (db : Db) :
    Option FinishCall :=
  ((db.log.filter (fun r => r.runUuid = some run ∧ r.outcome = .launched)).getLast?).map (fun r =>
    let (status,error) := row.getD (.failed,some "run introuvable")
    let ok : Bool := status = .completed
    let cause := if ok then "" else
      (error.filter (fun e => trim e ≠ "")).getD ("run "++status.name)
    ⟨r.wake,⟨.launch "",r.stateHash,some r.id⟩,ok,cause,some run⟩)

inductive CheckPhase where
  | read (prev : Option (String × Outcome))
  | answered (decision : Decision)
  | recorded (gate : Gate)
  deriving DecidableEq, Repr

structure Check where
  wake : WakeKey
  source : String
  label : String
  hash : String
  phase : CheckPhase
  deriving DecidableEq, Repr

structure Answer where
  wake : WakeKey
  hash : String
  launch : Bool
  deriving DecidableEq, Repr

structure State where
  db : Db
  checks : List Check
  /-- The answers of `check`, in the order in which they were given. -/
  answers : List Answer

def start (db : Db) : State := ⟨db,[],[]⟩

inductive Action where
  | check (wake : WakeKey) (source label : String) (observed : Json)
  | answer (check : ℕ)
  | record (check : ℕ)
  | finish (check : ℕ) (ok : Bool) (cause : String) (run : Option Uuid)
  | afterWake (check : ℕ) (res : Except String Unit) (run : Option Uuid)
  | finishByRun (run : Uuid) (row : Option (RunStatus × Option String))

def stored (s : State) (wake : WakeKey) : Option String := (s.db.state.get wake).map Prod.fst

/-- The gate that a call of `check` has returned. -/
def gateOf (s : State) (i : ℕ) : Option (WakeKey × Gate) :=
  match s.checks[i]? with
  | some ⟨wake,_,_,_,.recorded gate⟩ => some (wake,gate)
  | _ => none

/-- The call of `finish` that an action makes. -/
def finishCall (s : State) : Action → Option FinishCall
  | .finish i ok cause run => (gateOf s i).bind (fun (wake,gate) =>
      if gate.decision.isLaunch then some ⟨wake,gate,ok,cause,run⟩ else none)
  | .afterWake i res run => (gateOf s i).bind (fun (wake,gate) =>
      if gate.decision.isLaunch then afterWakeFinish wake gate res run else none)
  | .finishByRun run row => WakeGate.finishByRun run row s.db
  | _ => none

/-- The answer that an action gives, for a check whose record was read. -/
def answering (s : State) : Action → Option (Check × Decision)
  | .answer i => match s.checks[i]? with
    | some c => match c.phase with
      | .read prev => some (c,WakeGate.decide prev c.hash)
      | _ => none
    | none => none
  | _ => none

def answer (i : ℕ) (c : Check) (d : Decision) (s : State) : State where
  db := if d.isLaunch then setState c.wake c.hash .launched s.db else s.db
  checks := s.checks.set i { c with phase := .answered d }
  answers := s.answers++[⟨c.wake,c.hash,d.isLaunch⟩]

/-- The journal line of an answer; only a launch keeps it for its end. -/
def recordAnswer (i : ℕ) (s : State) : State :=
  match s.checks[i]? with
  | some c => match c.phase with
    | .answered d =>
      let r := WakeGate.record c.wake c.source c.label (if d.isLaunch then .launched else .skipped)
        d.cause c.hash none s.db
      { s with
        db := r.2
        checks := s.checks.set i
          { c with phase := .recorded ⟨d,c.hash,if d.isLaunch then some r.1 else none⟩ } }
    | _ => s
  | none => s

/-- The link of the launched line to its run, when `after_wake` found one. -/
def linkRun (i : ℕ) (run : Option Uuid) (s : State) : State :=
  match (gateOf s i).bind (fun p => p.2.logId), run with
  | some id, some run =>
    { s with db := updateLog id (fun r => { r with runUuid := some run }) s.db }
  | _, _ => s

section Run

variable (digest : Json → String)

/-- `fingerprint`: the digest of the canonical state. -/
def fingerprint (observed : Json) : String := digest (canonical observed)

def step (s : State) (a : Action) : State :=
  match finishCall s a with
  | some c => { s with db := finish c s.db }
  | none => match a with
    | .check wake source label observed =>
      { s with checks := s.checks++[⟨wake,source,label,fingerprint digest observed,
          .read (s.db.state.get wake)⟩] }
    | .answer i => match answering s a with
      | some (c,d) => answer i c d s
      | none => s
    | .record i => recordAnswer i s
    | .afterWake i _ run => linkRun i run s
    | _ => s

end Run

/-- The answers of the checks of one key. -/
def observations (s : State) (wake : WakeKey) : List (String × Bool) :=
  (s.answers.filter (·.wake = wake)).map (fun a => (a.hash,a.launch))

/-- A gate finishes while the fingerprint stored is its own, and a check that
launches does not find that its fingerprint was stored since it read. -/
def Orderly (s : State) (a : Action) : Prop :=
  (∀ c ∈ finishCall s a, stored s c.wake = some c.gate.hash) ∧
  (∀ p ∈ answering s a, p.2.isLaunch → stored s p.1.wake ≠ some p.1.hash)

instance (s : State) (a : Action) : Decidable (Orderly s a) := by unfold Orderly; infer_instance

def Tracked (s : State) : Prop :=
  ∀ wake, ChangeGate.Tracks (stored s wake) (observations s wake)

theorem setState_get (wake : WakeKey) (hash : String) (outcome : Outcome) (db : Db) (k : WakeKey) :
    (setState wake hash outcome db).state.get k =
      if k = wake then some (hash,outcome) else db.state.get k := by
  simp only [setState, Table.get_update, Table.get_insert]
  by_cases hk : k = wake
  · subst hk
    by_cases hm : k ∈ db.state.keys
    · obtain ⟨r,hr⟩ := Option.ne_none_iff_exists'.mp
        (fun hn => (Table.get_none_iff db.state k).mp hn hm)
      simp [hm, hr]
    · simp [hm]
  · simp [hk]

theorem finish_state (c : FinishCall) (db : Db) (k : WakeKey) :
    ((finish c db).state.get k).map Prod.fst =
      if k = c.wake then some c.gate.hash else (db.state.get k).map Prod.fst := by
  have hs : (finish c db).state = (setState c.wake c.gate.hash
      (if c.ok then .done else .failed) db).state := by
    unfold finish
    cases c.gate.logId <;> rfl
  rw [hs, setState_get]
  split <;> rfl

theorem record_state (wake : WakeKey) (source label : String) (outcome : Outcome)
    (cause hash : String) (run : Option Uuid) (db : Db) :
    (record wake source label outcome cause hash run db).2.state = db.state := by
  unfold record
  simp only
  split
  · split <;> rfl
  · rfl

theorem answer_observations (i : ℕ) (c : Check) (d : Decision) (s : State) (wake : WakeKey) :
    observations (answer i c d s) wake =
      observations s wake++if c.wake = wake then [(c.hash,d.isLaunch)] else [] := by
  by_cases h : c.wake = wake <;> simp [observations, answer, h]

theorem answer_tracked (i : ℕ) (c : Check) (d : Decision) (s : State) (hs : Tracked s)
    (hl : d.isLaunch → stored s c.wake ≠ some c.hash) : Tracked (answer i c d s) := by
  intro wake
  rw [answer_observations]
  have ht := hs wake
  cases hd : d.isLaunch with
  | false =>
    have hst : stored (answer i c d s) wake = stored s wake := by simp [stored, answer, hd]
    rw [hst]
    by_cases hw : c.wake = wake
    · simpa [hw] using ht.skip c.hash
    · simpa [hw] using ht
  | true =>
    by_cases hw : c.wake = wake
    · subst hw
      have hst : stored (answer i c d s) c.wake = some c.hash := by
        simp [stored, answer, hd, setState_get]
      simpa [hst] using ht.launch c.hash (hl hd)
    · have hst : stored (answer i c d s) wake = stored s wake := by
        simp [stored, answer, hd, setState_get, Ne.symm hw]
      simpa [hst, hw] using ht

theorem step_tracked (digest : Json → String) (s : State) (a : Action) (hs : Tracked s)
    (ho : Orderly s a) : Tracked (step digest s a) := by
  unfold step
  cases hf : finishCall s a with
  | some c =>
    intro wake
    have hst : stored { s with db := finish c s.db } wake = stored s wake := by
      simp only [stored, finish_state]
      split
      · rename_i hw
        exact hw ▸ (ho.1 c hf).symm
      · rfl
    exact hst ▸ hs wake
  | none =>
    cases a with
    | check wake source label observed => exact hs
    | answer i =>
      cases ha : answering s (.answer i) with
      | none => simpa [ha] using hs
      | some p =>
        obtain ⟨c,d⟩ := p
        simpa [ha] using answer_tracked i c d s hs (ho.2 (c,d) ha)
    | record i =>
      simp only [recordAnswer]
      split
      · split
        · intro wake
          simpa [stored, observations, record_state] using hs wake
        · exact hs
      · exact hs
    | finish i ok cause run => exact hs
    | afterWake i res run =>
      simp only [linkRun]
      split
      · exact hs
      · exact hs
    | finishByRun run row => exact hs

/-- Over every orderly run, no fingerprint is launched on twice without the
observation of another one in between. -/
theorem no_relaunch_of_orderly (digest : Json → String) (db : Db) (acts : List Action)
    (hg : Guarded (step digest) Orderly acts (start db)) (wake : WakeKey) :
    ChangeGate.NoRelaunch (observations (run (step digest) acts (start db)) wake) :=
  have h0 : Tracked (start db) := fun _ => ChangeGate.tracks_nil _
  (guarded_invariant (step digest) Orderly Tracked (step_tracked digest) acts _ h0 hg wake).no_relaunch

/-- A digest that tells texts apart. -/
def text : Json → String
  | .str s => s
  | _ => ""

def empty : Db := ⟨Table.empty,[],0⟩

def routine : WakeKey := (7,"routine:42")

def passage (i : ℕ) (observed : String) : List Action :=
  [.check routine "routine" "Smoke" (.str observed),.answer i,.record i]

theorem change_launches_again :
    Guarded (step text) Orderly
      (passage 0 "a"++[Action.finish 0 true "" none]++passage 1 "b"++passage 2 "b"++passage 3 "a")
      (start empty) ∧
    ChangeGate.NoRelaunch (observations (run (step text)
      (passage 0 "a"++[Action.finish 0 true "" none]++passage 1 "b"++passage 2 "b"++passage 3 "a")
      (start empty)) routine) :=
  have hg : Guarded (step text) Orderly
      (passage 0 "a"++[Action.finish 0 true "" none]++passage 1 "b"++passage 2 "b"++passage 3 "a")
      (start empty) := by decide
  ⟨hg,no_relaunch_of_orderly text empty _ hg routine⟩

/-- The states that the checks of a run observe. -/
def observedBy (acts : List Action) : Set Json := {v | ∃ wake source label, Action.check wake source label v ∈ acts}

/-- The gate of the first state finishes after the second was observed. -/
def lateFinish : List Action :=
  passage 0 "a"++passage 1 "b"++[Action.finish 0 true "" none]++passage 2 "b"

theorem late_finish_relaunches :
    ¬ ∀ (digest : Json → String) (db : Db) (acts : List Action) (wake : WakeKey),
      Set.InjOn (fingerprint digest) (observedBy acts) →
        ChangeGate.NoRelaunch (observations (run (step digest) acts (start db)) wake) := by
  intro h
  have hi : Set.InjOn (fingerprint text) (observedBy lateFinish) := by
    rintro v ⟨w,s,l,hv⟩ v' ⟨w',s',l',hv'⟩ he
    simp [lateFinish, passage] at hv hv'
    rcases hv with ⟨_,_,_,rfl⟩ | ⟨_,_,_,rfl⟩ | ⟨_,_,_,rfl⟩ <;>
      rcases hv' with ⟨_,_,_,rfl⟩ | ⟨_,_,_,rfl⟩ | ⟨_,_,_,rfl⟩ <;>
        simp_all [fingerprint, canonical, text]
  have ho : observations (run (step text) lateFinish (start empty)) routine =
      [("a",true),("b",true),("b",true)] := by decide
  obtain ⟨o,hm,_⟩ := h text empty lateFinish routine hi [("a",true)] "b" [] [] (by rw [ho]; rfl)
  simp at hm

end DevForge.WakeGate
