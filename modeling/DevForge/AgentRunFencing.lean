import DevForge.AgentRuns
import DevForge.Transition
import Mathlib.Logic.Function.Iterate

/-!
# Fencing of agent runs

Executors claim runs, renew and lose their leases, and end the runs they have
claimed; users pause, resume and retry. The calls of `control` interleave
statement by statement with everything else. A claim is lost when its run is
paused or its expired lease is recovered; the history records, for each call
of `finish`, whether its claim was lost and what the call did to the row.
-/

set_option autoImplicit false

namespace DevForge.AgentRunFencing
open AgentRuns Transition

/-- Where a call of `control` stands between its statements. -/
inductive ControlPhase where
  | allowed (row : AgentRun)
  | replayable (row : AgentRun)
  | answered (row : AgentRun)
  | ready (next : Uuid)
  | done (outcome : ControlOutcome)

structure ControlCall where
  run : Uuid
  action : Control
  now : Instant
  phase : ControlPhase

/-- The SELECT of the row and the rules checked on it. -/
def ControlCall.read (run : Uuid) (action : Control) (now : Instant) (db : Db) : ControlCall :=
  ⟨run,action,now,match db.runs.get run with
    | none => .done (.refused "Run introuvable")
    | some row => match controlRules action row.status with
      | some outcome => .done outcome
      | none => .allowed row⟩

/-- The next statement of a call; `fresh` names the message it may insert. -/
def ControlCall.next (c : ControlCall) (fresh : Uuid) (db : Db) : ControlCall × Db :=
  match c.phase with
  | .allowed row =>
    if c.action = .pause then
      let r := pauseUpdate c.run row c.now db
      ({ c with phase := .done r.1 },r.2)
    else if (db.messages.get row.messageUuid).isNone then
      ({ c with phase := .done (.refused "Ce run ne peut pas être rejoué : relance la routine") },db)
    else ({ c with phase := .replayable row },db)
  | .replayable row =>
    if assistantAlreadyReplied row.agentUuid row.messageUuid db then
      ({ c with phase := .answered row },db)
    else ({ c with phase := .ready row.messageUuid },db)
  | .answered row =>
    ({ c with phase := .ready fresh },insertMessage fresh row.projectUuid row.agentUuid .user
      (replayContent c.action row.title) c.now db)
  | .ready next =>
    let r := restartUpdate c.run c.action next c.now db
    ({ c with phase := .done r.1 },r.2)
  | .done _ => (c,db)

@[simp] theorem ControlCall.next_done (run : Uuid) (action : Control) (now : Instant)
    (o : ControlOutcome) (fresh : Uuid) (db : Db) :
    ControlCall.next ⟨run,action,now,.done o⟩ fresh db = (⟨run,action,now,.done o⟩,db) := rfl

@[simp] theorem ControlCall.next_ready (run : Uuid) (action : Control) (now : Instant)
    (next fresh : Uuid) (db : Db) : ControlCall.next ⟨run,action,now,.ready next⟩ fresh db =
      (⟨run,action,now,.done (restartUpdate run action next now db).1⟩,
        (restartUpdate run action next now db).2) := rfl

/-- A call whose statements follow one another is the function `control`. -/
theorem control_of_next (run fresh : Uuid) (action : Control) (now : Instant) (db : Db) :
    (fun p : ControlCall × Db => p.1.next fresh p.2)^[4] (ControlCall.read run action now db,db) =
      (⟨run,action,now,.done (AgentRuns.control run fresh action now db).1⟩,
        (AgentRuns.control run fresh action now db).2) := by
  simp only [Function.iterate_succ, Function.iterate_zero, Function.comp_apply, id]
  cases hg : db.runs.get run with
  | none => simp [AgentRuns.control, ControlCall.read, hg]
  | some row =>
    cases hc : controlRules action row.status with
    | some outcome => simp [AgentRuns.control, ControlCall.read, hg, hc]
    | none =>
      have hr : ControlCall.read run action now db = ⟨run,action,now,.allowed row⟩ := by
        simp [ControlCall.read, hg, hc]
      rw [hr]
      simp only [AgentRuns.control, hg, hc, replayMessage]
      by_cases hp : action = .pause
      · simp [ControlCall.next, hp]
      by_cases hm : (db.messages.get row.messageUuid).isNone
      · simp [ControlCall.next, hp, hm]
      by_cases ha : assistantAlreadyReplied row.agentUuid row.messageUuid db <;>
        simp [ControlCall.next, hp, hm, ha]

inductive ClaimState where
  | held
  | lost
  | ended
  deriving DecidableEq, Repr

structure Claim where
  run : Uuid
  owner : Uuid
  state : ClaimState
  deriving DecidableEq, Repr

structure Finish where
  run : Uuid
  lost : Bool
  before : Option AgentRun
  after : Option AgentRun
  deriving DecidableEq, Repr

structure State where
  now : Instant
  db : Db
  claims : List Claim
  controls : List ControlCall
  finishes : List Finish

def start (now : Instant) (db : Db) : State := ⟨now,db,[],[],[]⟩

/-- The claims on these runs that are held are lost. -/
def lose (runs : List Uuid) (claims : List Claim) : List Claim :=
  claims.map (fun c => if c.run ∈ runs ∧ c.state = .held then { c with state := .lost } else c)

/-- The run that the next statement of a call pauses. -/
def ControlCall.pauses (c : ControlCall) (db : Db) : List Uuid :=
  match c.phase with
  | .allowed row => if c.action = .pause ∧ db.status c.run = some row.status then [c.run] else []
  | _ => []

inductive Action where
  | tick (seconds : ℕ)
  | insertMessage (uuid project agent : Uuid) (role : Role) (content : String)
  | enqueue (fresh project agent message : Uuid)
  | tryClaimAs (run owner : Uuid)
  | renewLease (claim : ℕ)
  | recoverFailed (includeUnleased : Bool)
  | recoverRequeued (includeUnleased : Bool)
  | controlRead (run : Uuid) (action : Control)
  | controlNext (call : ℕ) (fresh : Uuid)
  | finish (claim : ℕ) (status : EndStatus) (error : Option String)
  deriving Repr

def finishBy (i : ℕ) (c : Claim) (status : EndStatus) (error : Option String) (s : State) : State :=
  let db := AgentRuns.finish c.run status error s.now s.db
  { s with
    db := db
    claims := if c.state = .held then s.claims.set i { c with state := .ended } else s.claims
    finishes := s.finishes++[⟨c.run,c.state = .lost,s.db.runs.get c.run,db.runs.get c.run⟩] }

def step (s : State) : Action → State
  | .tick seconds => { s with now := s.now+seconds }
  | .insertMessage uuid project agent role content =>
    { s with db := AgentRuns.insertMessage uuid project agent role content s.now s.db }
  | .enqueue fresh project agent message =>
    { s with db := (AgentRuns.enqueue fresh project agent message s.now s.db).2 }
  | .tryClaimAs run owner =>
    let r := AgentRuns.tryClaimAs run owner s.now s.db
    { s with db := r.2, claims := if r.1 then s.claims++[⟨run,owner,.held⟩] else s.claims }
  | .renewLease i => match s.claims[i]? with
    | none => s
    | some c => { s with db := (AgentRuns.renewLease c.run c.owner s.now s.db).2 }
  | .recoverFailed includeUnleased =>
    let r := AgentRuns.recoverFailed includeUnleased s.now s.db
    { s with db := r.2, claims := lose r.1 s.claims }
  | .recoverRequeued includeUnleased =>
    let r := AgentRuns.recoverRequeued includeUnleased s.now s.db
    { s with db := r.2, claims := lose r.1 s.claims }
  | .controlRead run action =>
    { s with controls := s.controls++[ControlCall.read run action s.now s.db] }
  | .controlNext i fresh => match s.controls[i]? with
    | none => s
    | some c =>
      let r := c.next fresh s.db
      { s with db := r.2, controls := s.controls.set i r.1, claims := lose (c.pauses s.db) s.claims }
  | .finish i status error => match s.claims[i]? with
    | none => s
    | some c => finishBy i c status error s

/-- No call of `finish` for a lost claim has changed the row. -/
def FinishFenced (s : State) : Prop := ∀ f ∈ s.finishes, f.lost → f.after = f.before

instance (s : State) : Decidable (FinishFenced s) := by unfold FinishFenced; infer_instance

/-- A call of `finish` for a lost claim finds the row outside `OPEN_STATUSES`. -/
def StaleFinishClosed (s : State) : Action → Prop
  | .finish i _ _ => ∀ c, s.claims[i]? = some c → c.state = .lost →
      ∀ r, s.db.runs.get c.run = some r → r.status.isOpen = false
  | _ => True

theorem finishBy_fenced_iff (i : ℕ) (c : Claim) (status : EndStatus) (error : Option String)
    (s : State) : FinishFenced (finishBy i c status error s) ↔
      FinishFenced s ∧ (c.state = .lost →
        ∀ r, s.db.runs.get c.run = some r → r.status.isOpen = false) := by
  have h := finish_unchanged_iff c.run status error s.now s.db
  simp only [FinishFenced, finishBy, List.forall_mem_append, List.forall_mem_singleton,
    decide_eq_true_eq, h]

theorem step_fenced_iff (s : State) (a : Action) :
    FinishFenced (step s a) ↔ FinishFenced s ∧ StaleFinishClosed s a := by
  cases a with
  | finish i status error =>
    cases hc : s.claims[i]? with
    | none => simp [step, StaleFinishClosed, hc]
    | some c => simp [step, StaleFinishClosed, hc, finishBy_fenced_iff]
  | renewLease i => cases hc : s.claims[i]? <;> simp [step, StaleFinishClosed, FinishFenced, hc]
  | controlNext i fresh =>
    cases hc : s.controls[i]? <;> simp [step, StaleFinishClosed, FinishFenced, hc]
  | _ => simp [step, StaleFinishClosed, FinishFenced]

/-- Over every run: the ends of lost claims change nothing exactly when each of
them arrives while its row is neither pending, queued nor running. -/
theorem fenced_iff_stale_finishes_closed (now : Instant) (db : Db) (acts : List Action) :
    FinishFenced (run step acts (start now db)) ↔
      Guarded step StaleFinishClosed acts (start now db) := by
  rw [recorded step StaleFinishClosed FinishFenced step_fenced_iff]
  exact and_iff_right (by simp [FinishFenced, start])

/-- One pending run of one agent, with the message it answers. -/
def oneRun : Db where
  runs := Table.empty.insert 1 (AgentRun.new 7 8 9 0)
  messages := Table.empty.insert 9 ⟨1,7,8,.user,"",0⟩
  agents := Table.empty.insert 8 .idle
  nextMessageId := 2

/-- The first owner lets its lease expire; its late end completes the run under
the lease of the second. -/
def lateEnd : List Action :=
  [.tryClaimAs 1 10,.tick (LEASE_SECS+1),.recoverFailed false,.recoverRequeued false,
    .tryClaimAs 1 20,.finish 0 .completed none]

theorem not_every_run_fenced :
    ¬ ∀ (now : Instant) (db : Db) (acts : List Action),
      FinishFenced (run step acts (start now db)) := by
  intro h
  exact absurd (h 0 oneRun lateEnd) (by decide)

/-- The rows that a call of `control` has let through for a pause are open. -/
def PausesOpen (s : State) : Prop := ∀ c ∈ s.controls, ∀ row,
  c.phase = .allowed row → c.action = .pause → row.status.isOpen

theorem read_pauses_open (run : Uuid) (action : Control) (now : Instant) (db : Db)
    (row : AgentRun) (h : (ControlCall.read run action now db).phase = .allowed row)
    (ha : action = .pause) : row.status.isOpen := by
  subst ha
  unfold ControlCall.read at h
  cases hg : db.runs.get run with
  | none => simp [hg] at h
  | some r =>
    cases hc : controlRules .pause r.status with
    | some o => simp [hg, hc] at h
    | none =>
      simp only [hg, hc, ControlPhase.allowed.injEq] at h
      exact h ▸ controlRules_pause hc

theorem next_not_allowed (c : ControlCall) (fresh : Uuid) (db : Db) (row : AgentRun) :
    (c.next fresh db).1.phase ≠ .allowed row := by
  unfold ControlCall.next
  split
  · split
    · simp
    · split <;> simp
  · split <;> simp
  · simp
  · simp
  · simp [*]

theorem step_pauses_open (s : State) (a : Action) (hs : PausesOpen s) : PausesOpen (step s a) := by
  cases a with
  | controlRead run action =>
    intro c hc row hp ha
    simp only [step, List.mem_append, List.mem_singleton] at hc
    rcases hc with hc | rfl
    · exact hs c hc row hp ha
    · exact read_pauses_open run action s.now s.db row hp ha
  | controlNext i fresh =>
    cases hi : s.controls[i]? with
    | none => simpa [step, hi] using hs
    | some c₀ =>
      intro c hc row hp ha
      simp only [step, hi] at hc
      rcases List.mem_or_eq_of_mem_set hc with hc | rfl
      · exact hs c hc row hp ha
      · exact absurd hp (next_not_allowed c₀ fresh s.db row)
  | renewLease i => cases hi : s.claims[i]? <;> simpa [step, hi, PausesOpen] using hs
  | finish i status error =>
    cases hi : s.claims[i]? <;> simpa [step, hi, finishBy, PausesOpen] using hs
  | _ => exact hs

/-- The step is the UPDATE of a resume or a retry of this run. -/
def Restarts (k : Uuid) (s : State) : Action → Prop
  | .controlNext i _ => ∃ c, s.controls[i]? = some c ∧ c.run = k ∧ ∃ next, c.phase = .ready next
  | _ => False

theorem next_closed (c : ControlCall) (fresh : Uuid) (db : Db) (k : Uuid) (r : AgentRun)
    (hr : db.runs.get k = some r) (hc : r.status.isOpen = false)
    (hp : ∀ row, c.phase = .allowed row → c.action = .pause → row.status.isOpen)
    (hn : c.run = k → ∀ next, c.phase ≠ .ready next) :
    (c.next fresh db).2.runs.get k = some r := by
  unfold ControlCall.next
  split
  · rename_i row hph
    split
    · rename_i ha
      exact pauseUpdate_closed db k r hr hc c.run row c.now (hp row hph ha)
    · split <;> exact hr
  · split <;> exact hr
  · exact hr
  · rename_i next hph
    have hk : k ≠ c.run := fun he => hn he.symm next hph
    simpa [restartUpdate_get c.run c.action next c.now db k hk] using hr
  · exact hr

theorem step_closed (k : Uuid) (r : AgentRun) (hc : r.status.isOpen = false) (s : State)
    (a : Action) (hs : PausesOpen s ∧ s.db.runs.get k = some r) (ha : ¬ Restarts k s a) :
    PausesOpen (step s a) ∧ (step s a).db.runs.get k = some r := by
  refine ⟨step_pauses_open s a hs.1,?_⟩
  have hr := hs.2
  cases a with
  | tick seconds => exact hr
  | insertMessage uuid project agent role content => exact hr
  | enqueue fresh project agent message =>
    exact enqueue_get_of_some s.db k r hr fresh project agent message s.now
  | tryClaimAs run owner => exact tryClaimAs_closed s.db k r hr hc run owner s.now
  | renewLease i =>
    cases hi : s.claims[i]? with
    | none => simpa [step, hi] using hr
    | some c => simpa [step, hi] using renewLease_closed s.db k r hr hc c.run c.owner s.now
  | recoverFailed includeUnleased => exact recoverFailed_closed s.db k r hr hc includeUnleased s.now
  | recoverRequeued includeUnleased =>
    exact recoverRequeued_closed s.db k r hr hc includeUnleased s.now
  | controlRead run action => exact hr
  | controlNext i fresh =>
    cases hi : s.controls[i]? with
    | none => simpa [step, hi] using hr
    | some c =>
      have hm := List.mem_of_getElem? hi
      have hn : c.run = k → ∀ next, c.phase ≠ .ready next := fun he next hp =>
        ha ⟨c,hi,he,next,hp⟩
      simpa [step, hi] using next_closed c fresh s.db k r hr hc (hs.1 c hm) hn
  | finish i status error =>
    cases hi : s.claims[i]? with
    | none => simpa [step, hi] using hr
    | some c =>
      simpa [step, hi, finishBy] using finish_closed s.db k r hr hc c.run status error s.now

/-- Once paused or ended, a run that nobody resumes or retries keeps its row,
whatever the executors that once claimed it still do. -/
theorem closed_until_restart (k : Uuid) (r : AgentRun) (hc : r.status.isOpen = false)
    (acts : List Action) (s : State) (hs : PausesOpen s) (hr : s.db.runs.get k = some r)
    (hg : Guarded step (fun s a => ¬ Restarts k s a) acts s) :
    (run step acts s).db.runs.get k = some r :=
  (guarded_invariant step _ (fun s => PausesOpen s ∧ s.db.runs.get k = some r)
    (step_closed k r hc) acts s ⟨hs,hr⟩ hg).2

end DevForge.AgentRunFencing
