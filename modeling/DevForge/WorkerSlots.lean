import DevForge.DelegateTask
import DevForge.RestartBound
import Mathlib.Data.List.Perm.Subperm

/-!
# Worker slots

Tasks are delegated, workers are claimed and end, and users resume or retry them. The statements of
a delegation, of a promotion and of a control call interleave with everything else. The end of an
execution asks for a promotion in the project of its run.
-/

set_option autoImplicit false

namespace DevForge.WorkerSlots
open AgentRuns AgentRunFencing DelegateTask MemoryRules Transition

structure Promotion where
  project : Uuid
  phase : PromotePhase
deriving DecidableEq, Repr

structure State where
  base : AgentRunFencing.State
  workers : List Uuid
  agents : Table Uuid ProjectAgent
  delegations : List DelegateCall
  promotions : List Promotion

def State.db (s : State) : DelegateTask.Db := ⟨s.base.db,s.workers,s.agents⟩

def start (now : Instant) (db : DelegateTask.Db) : State := ⟨AgentRunFencing.start now db.rows,db.workers,db.agents,[],[]⟩

inductive Action where
  | tick (seconds : ℕ)
  /-- An assistant has answered. -/
  | insertMessage (uuid project agent : Uuid) (role : Role) (content : String)
  | delegateRead (args : DelegateArgs)
  | delegatePost (call : ℕ) (worker message : Uuid)
  | delegateInsert (call : ℕ) (run : Uuid)
  | tryClaimAs (run owner : Uuid)
  | renewLease (claim : ℕ)
  /-- The end of an execution. The boot resume ends a run that was answered without reporting it. -/
  | finish (claim : ℕ) (status : EndStatus) (error : Option String) (reported : Bool)
  | promoteCount (promotion : ℕ)
  | promoteUpdate (promotion : ℕ)
  /-- A resume, or a retry. -/
  | controlRead (run : Uuid) (retry : Bool)
  | controlNext (call : ℕ) (fresh : Uuid)
deriving Repr

/-- The action among those on any run. -/
def Action.onRuns : Action → Option AgentRunFencing.Action
  | .tick seconds => some (.tick seconds)
  | .insertMessage uuid project agent role content => some (.insertMessage uuid project agent role content)
  | .tryClaimAs run owner => some (.tryClaimAs run owner)
  | .renewLease claim => some (.renewLease claim)
  | .finish claim status error _ => some (.finish claim status error)
  | .controlRead run retry => some (.controlRead run (if retry then .retry else .resume))
  | .controlNext call fresh => some (.controlNext call fresh)
  | _ => none

/-- `on_run_finished`, up to its promotion: the end of a worker asks for one. -/
def onRunFinished (s : State) (claim : ℕ) : List Promotion :=
  match (s.base.claims[claim]?).bind (fun c => if c.run ∈ s.workers then s.base.db.runs.get c.run else none) with
  | some r => [⟨r.projectUuid,.asked⟩]
  | none => []

def stepOnRuns (s : State) (a : Action) : State :=
  match a.onRuns with
  | some b => { s with base := AgentRunFencing.step s.base b }
  | none => s

def withDb (s : State) (db : DelegateTask.Db) : State :=
  { s with base := { s.base with db := db.rows }, workers := db.workers, agents := db.agents }

section
variable (T : Texts)

def step (s : State) : Action → State
  | .delegateRead args => { s with delegations := s.delegations++[delegateRead T args s.base.now s.db] }
  | .delegatePost i worker message => match s.delegations[i]? with
    | none => s
    | some call =>
      let r := delegatePost worker message s.db call
      { withDb s r.2 with delegations := s.delegations.set i r.1 }
  | .delegateInsert i run => match s.delegations[i]? with
    | none => s
    | some call =>
      let r := delegateInsert run s.db call
      { withDb s r.2 with delegations := s.delegations.set i r.1 }
  | .promoteCount i => match s.promotions[i]? with
    | some ⟨project,.asked⟩ => { s with promotions := s.promotions.set i ⟨project,promoteCount project s.db⟩ }
    | _ => s
  | .promoteUpdate i => match s.promotions[i]? with
    | some ⟨project,.counted⟩ =>
      { withDb s (promoteUpdate project s.base.now s.db) with promotions := s.promotions.set i ⟨project,.done⟩ }
    | _ => s
  | .finish i status error reported =>
    let next := stepOnRuns s (.finish i status error reported)
    if reported then { next with promotions := s.promotions++onRunFinished s i } else next
  | a => stepOnRuns s a

end

def active (s : State) (project : Uuid) : ℕ := (workerRuns s.db project isActive).length

def waiting (s : State) (project : Uuid) : ℕ := (workerRuns s.db project (· = .queued)).length

/-- The promotions of a project that have not ended. -/
def underWay (s : State) (project : Uuid) : ℕ :=
  s.promotions.countP (fun m => m.project = project && m.phase ≠ .done)

def isDone : DelegateCall → Bool
  | .done _ => true
  | _ => false

def controlDone (c : ControlCall) : Bool :=
  match c.phase with
  | .done _ => true
  | _ => false

/-- No call stands between two of its statements. -/
def Quiet (s : State) : Prop :=
  (∀ d ∈ s.delegations, isDone d = true) ∧ (∀ c ∈ s.base.controls, controlDone c = true) ∧
    ∀ m ∈ s.promotions, m.phase = .done

section
variable (T : Texts)

/-- No other open worker of the project has a title with this key. -/
def NoTwin (s : State) (run project : Uuid) (title : String) : Prop :=
  ∀ k ∈ workerRuns s.db project RunStatus.isOpen, k ≠ run → ∀ r ∈ s.base.db.runs.get k,
    r.title.map (titleKey T) ≠ some (titleKey T title)

structure Kept (s : State) : Prop where
  slots : ∀ project, active s project ≤ MAX_ACTIVE_WORKERS
  titles : ∀ k ∈ s.workers, ∀ r ∈ s.base.db.runs.get k, r.status.isOpen = true → ∀ title ∈ r.title,
    NoTwin T s k r.projectUuid title
  queue : Quiet s → ∀ project, active s project < MAX_ACTIVE_WORKERS → waiting s project = 0

/-- The promotions under way reach the queued workers, up to the slots that are free. -/
def Covered (queued free underWay : ℕ) : Prop := min queued free ≤ underWay

instance (queued free underWay : ℕ) : Decidable (Covered queued free underWay) := by
  unfold Covered
  infer_instance

/-- What a delegation has read still holds at its INSERT. -/
def InsertOrderly (s : State) (run : Uuid) : DelegateCall → Prop
  | .posted task running _ _ => run ∉ s.base.db.runs.keys →
      NoTwin T s run task.project task.title ∧
      (initialStatus running = .pending → active s task.project < MAX_ACTIVE_WORKERS) ∧
      (initialStatus running = .queued →
        Covered (waiting s task.project+1) (MAX_ACTIVE_WORKERS-active s task.project) (underWay s task.project))
  | _ => True

/-- Moreover a promotion and a restart find a free slot at their UPDATE, a restart finds no open
worker on the same subject, and an end that is not reported leaves no queued worker without a
promotion. -/
def Orderly (s : State) : Action → Prop
  | .delegateInsert i run => ∀ d ∈ s.delegations[i]?, InsertOrderly T s run d
  | .promoteUpdate i => ∀ m ∈ s.promotions[i]?, m.phase = .counted → 0 < waiting s m.project →
      active s m.project < MAX_ACTIVE_WORKERS
  | .controlNext i fresh => ∀ c ∈ s.base.controls[i]?, RestartBound.takesEffect c fresh s.base.db = true →
      c.run ∈ s.workers → ∀ r ∈ s.base.db.runs.get c.run,
        active s r.projectUuid < MAX_ACTIVE_WORKERS ∧ ∀ title ∈ r.title, NoTwin T s c.run r.projectUuid title
  | .finish i _ _ false => ∀ c ∈ s.base.claims[i]?, ∀ r ∈ s.base.db.runs.get c.run,
      c.run ∈ workerRuns s.db r.projectUuid isActive →
        Covered (waiting s r.projectUuid) (MAX_ACTIVE_WORKERS+1-active s r.projectUuid) (underWay s r.projectUuid)
  | _ => True

instance (s : State) (run project : Uuid) (title : String) : Decidable (NoTwin T s run project title) := by
  unfold NoTwin
  infer_instance

instance (s : State) (run : Uuid) (d : DelegateCall) : Decidable (InsertOrderly T s run d) := by
  unfold InsertOrderly
  split <;> infer_instance

instance (s : State) (a : Action) : Decidable (Orderly T s a) := by
  unfold Orderly
  split <;> infer_instance

end

/-! ## What a statement does to the workers -/

/-- A worker takes a slot, waits for one or needs none. -/
inductive Standing where
  | active
  | queued
  | closed
deriving DecidableEq

def standing : RunStatus → Standing
  | .pending | .running => .active
  | .queued => .queued
  | _ => .closed

theorem isActive_iff (status : RunStatus) : isActive status = true ↔ standing status = .active := by
  cases status <;> decide

theorem queued_iff (status : RunStatus) : decide (status = .queued) = true ↔ standing status = .queued := by
  cases status <;> decide

theorem isOpen_iff (status : RunStatus) : status.isOpen = true ↔ standing status ≠ .closed := by
  cases status <;> decide

/-- What counts of a row. -/
structure Label where
  project : Uuid
  title : Option String
  standing : Standing

def label (r : AgentRun) : Label := ⟨r.projectUuid,r.title,standing r.status⟩

def view (s : State) (k : Uuid) : Option Label := (s.base.db.runs.get k).map label

theorem mem_workerRuns (s : State) (project : Uuid) (among : RunStatus → Bool) (k : Uuid) :
    k ∈ workerRuns s.db project among ↔
      k ∈ s.workers ∧ ∃ r, s.base.db.runs.get k = some r ∧ r.projectUuid = project ∧ among r.status = true := by
  rw [workerRuns, Table.mem_affected_iff]
  constructor
  · rintro ⟨r,hr,hp⟩
    simp only [Bool.and_eq_true, decide_eq_true_eq] at hp
    exact ⟨hp.1.1,r,hr,hp.1.2,hp.2⟩
  · rintro ⟨hw,r,hr,hp,hs⟩
    have hkind : k ∈ s.db.workers := hw
    exact ⟨r,hr,by simp [hp, hs, hkind]⟩

/-- The worker runs whose label stands so. -/
theorem mem_standing (s : State) (project : Uuid) (among : RunStatus → Bool) (st : Standing)
    (h : ∀ status, among status = true ↔ standing status = st) (k : Uuid) :
    k ∈ workerRuns s.db project among ↔
      k ∈ s.workers ∧ ∃ l, view s k = some l ∧ l.project = project ∧ l.standing = st := by
  rw [mem_workerRuns]
  simp only [view, Option.map_eq_some_iff, h]
  constructor
  · rintro ⟨hw,r,hr,hp,hs⟩
    exact ⟨hw,label r,⟨r,hr,rfl⟩,hp,hs⟩
  · rintro ⟨hw,-,⟨r,hr,rfl⟩,hp,hs⟩
    exact ⟨hw,r,hr,hp,hs⟩

theorem workerRuns_nodup (s : State) (project : Uuid) (among : RunStatus → Bool) :
    (workerRuns s.db project among).Nodup := Table.affected_nodup ..

theorem length_le {l l' : List Uuid} (hl : l.Nodup) (h : l ⊆ l') : l.length ≤ l'.length :=
  (List.subperm_of_subset hl h).length_le

section
variable (T : Texts)

/-- Two open workers of a project have titles with different keys. -/
def Distinct (s : State) : Prop := ∀ k ∈ s.workers, ∀ k' ∈ s.workers, ∀ l l', view s k = some l → view s k' = some l' →
  l.standing ≠ .closed → l'.standing ≠ .closed → l.project = l'.project →
  ∀ t t', l.title = some t → l'.title = some t' → titleKey T t = titleKey T t' → k = k'

structure Inv (s : State) : Prop where
  slots : ∀ project, active s project ≤ MAX_ACTIVE_WORKERS
  distinct : Distinct T s
  covered : ∀ project, Covered (waiting s project) (MAX_ACTIVE_WORKERS-active s project) (underWay s project)
  noPause : ∀ c ∈ s.base.controls, c.action ≠ .pause

variable {T}

theorem noTwin_iff (s : State) (run project : Uuid) (title : String) :
    NoTwin T s run project title ↔ ∀ k ∈ s.workers, k ≠ run → ∀ l, view s k = some l → l.standing ≠ .closed →
      l.project = project → ∀ t, l.title = some t → titleKey T t ≠ titleKey T title := by
  constructor
  · intro h k hk hne l hl hst hp t ht hkey
    obtain ⟨r,hr,rfl⟩ := Option.map_eq_some_iff.mp hl
    have hmem := (mem_workerRuns s project RunStatus.isOpen k).mpr ⟨hk,r,hr,hp,(isOpen_iff _).mpr hst⟩
    have htitle : r.title = some t := ht
    exact h k hmem hne r hr (by rw [htitle, Option.map_some, hkey])
  · intro h k hk hne r hr hkey
    obtain ⟨hw,r',hr',hp,hst⟩ := (mem_workerRuns ..).mp hk
    cases hr.symm.trans hr'
    obtain ⟨t,ht,he⟩ := Option.map_eq_some_iff.mp hkey
    exact h k hw hne (label r) (Option.map_eq_some_iff.mpr ⟨r,hr,rfl⟩) ((isOpen_iff _).mp hst) hp t ht he

theorem titles_iff (s : State) : (∀ k ∈ s.workers, ∀ r ∈ s.base.db.runs.get k, r.status.isOpen = true →
    ∀ title ∈ r.title, NoTwin T s k r.projectUuid title) ↔ Distinct T s := by
  constructor
  · intro h k hk k' hk' l l' hl hl' hst hst' hp t t' ht ht' hkey
    by_contra hne
    obtain ⟨r,hr,rfl⟩ := Option.map_eq_some_iff.mp hl
    have htwin := (noTwin_iff ..).mp (h k hk r hr ((isOpen_iff _).mpr hst) t ht)
    exact htwin k' hk' (Ne.symm hne) l' hl' hst' hp.symm t' ht' hkey.symm
  · intro h k hk r hr hst title ht
    rw [noTwin_iff]
    intro k' hk' hne l' hl' hst' hp t' ht' hkey
    have hview : view s k = some (label r) := Option.map_eq_some_iff.mpr ⟨r,hr,rfl⟩
    exact hne (h k' hk' k hk l' (label r) hl' hview hst' ((isOpen_iff _).mp hst) hp t' title ht' ht hkey)

theorem underWay_quiet {s : State} (h : Quiet s) (project : Uuid) : underWay s project = 0 := by
  rw [underWay, List.countP_eq_zero]
  intro m hm
  simp [h.2.2 m hm]

theorem Inv.kept {s : State} (h : Inv T s) : Kept T s where
  slots := h.slots
  titles := (titles_iff s).mpr h.distinct
  queue hquiet project hfree := by
    have hcovered := h.covered project
    rw [Covered, underWay_quiet hquiet] at hcovered
    omega

/-- All that changes is this run. -/
def Apart (run : Uuid) (s s' : State) : Prop :=
  ∀ k, k ≠ run → (k ∈ s'.workers ↔ k ∈ s.workers) ∧ view s' k = view s k

theorem Apart.symm {run : Uuid} {s s' : State} (h : Apart run s s') : Apart run s' s :=
  fun k hk => ⟨(h k hk).1.symm,(h k hk).2.symm⟩

section Counts
variable {run : Uuid} {s s' : State} (h : Apart run s s') {among : RunStatus → Bool} {st : Standing}
  (hst : ∀ status, among status = true ↔ standing status = st) (project : Uuid)
include h hst

theorem Apart.mem {k : Uuid} (hk : k ≠ run) :
    k ∈ workerRuns s'.db project among ↔ k ∈ workerRuns s.db project among := by
  rw [mem_standing _ _ _ _ hst, mem_standing _ _ _ _ hst, (h k hk).1, (h k hk).2]

theorem Apart.le : (workerRuns s'.db project among).length ≤ (workerRuns s.db project among).length+1 := by
  have hsub : workerRuns s'.db project among ⊆ run::workerRuns s.db project among := by
    intro k hk
    by_cases he : k = run
    · exact he ▸ List.mem_cons_self
    · exact List.mem_cons_of_mem _ ((h.mem hst project he).mp hk)
  exact length_le (workerRuns_nodup ..) hsub

theorem Apart.le_of_not_mem (hrun : run ∉ workerRuns s'.db project among) :
    (workerRuns s'.db project among).length ≤ (workerRuns s.db project among).length := by
  apply length_le (workerRuns_nodup ..)
  intro k hk
  have he : k ≠ run := fun he => hrun (he ▸ hk)
  exact (h.mem hst project he).mp hk

theorem Apart.lt (hnot : run ∉ workerRuns s.db project among) (hrun : run ∈ workerRuns s'.db project among) :
    (workerRuns s.db project among).length < (workerRuns s'.db project among).length := by
  have hnodup : (run::workerRuns s.db project among).Nodup := List.nodup_cons.mpr ⟨hnot,workerRuns_nodup ..⟩
  apply length_le hnodup
  intro k hk
  rcases List.mem_cons.mp hk with rfl | hk
  · exact hrun
  · have he : k ≠ run := fun he => hnot (he ▸ hk)
    exact (h.mem hst project he).mpr hk

end Counts

theorem Distinct.noTwin {s : State} (h : Distinct T s) {run : Uuid} (hrun : run ∈ s.workers) {l : Label}
    (hl : view s run = some l) (hst : l.standing ≠ .closed) {t : String} (ht : l.title = some t) :
    NoTwin T s run l.project t := by
  rw [noTwin_iff]
  intro k hk hne l' hl' hst' hp t' ht' hkey
  exact hne (h k hk run hrun l' l hl' hl hst' hst hp t' t ht' ht hkey)

theorem Apart.distinct {run : Uuid} {s s' : State} (h : Apart run s s') (hd : Distinct T s)
    (hrun : run ∈ s'.workers → ∀ l, view s' run = some l → l.standing ≠ .closed → ∀ t, l.title = some t →
      NoTwin T s run l.project t) : Distinct T s' := by
  intro k hk k' hk' l l' hl hl' hst hst' hp t t' ht ht' hkey
  by_cases he : k = run
  · by_cases he' : k' = run
    · rw [he, he']
    · subst he
      have htwin := (noTwin_iff ..).mp (hrun hk l hl hst t ht)
      exact absurd hkey.symm (htwin k' ((h k' he').1.mp hk') he' l' ((h k' he').2 ▸ hl') hst' hp.symm t' ht')
  · by_cases he' : k' = run
    · subst he'
      have htwin := (noTwin_iff ..).mp (hrun hk' l' hl' hst' t' ht')
      exact absurd hkey (htwin k ((h k he).1.mp hk) he l ((h k he).2 ▸ hl) hst hp t ht)
    · exact hd k ((h k he).1.mp hk) k' ((h k' he').1.mp hk') l l' ((h k he).2 ▸ hl) ((h k' he').2 ▸ hl') hst hst' hp
        t t' ht ht' hkey

/-! ## A step -/

/-- A statement that changes neither the workers nor their labels, and takes no promotion away. -/
theorem Inv.same {s s' : State} (h : Inv T s) (hworkers : s'.workers = s.workers)
    (hview : ∀ k ∈ s.workers, view s' k = view s k) (hunder : ∀ project, underWay s project ≤ underWay s' project)
    (hpause : ∀ c ∈ s'.base.controls, c.action ≠ .pause) : Inv T s' := by
  have hlength : ∀ (among : RunStatus → Bool) (st : Standing), (∀ status, among status = true ↔ standing status = st) →
      ∀ project, (workerRuns s'.db project among).length = (workerRuns s.db project among).length := by
    intro among st hst project
    have hmem : ∀ k, k ∈ workerRuns s'.db project among ↔ k ∈ workerRuns s.db project among := by
      intro k
      rw [mem_standing _ _ _ _ hst, mem_standing _ _ _ _ hst, hworkers]
      exact and_congr_right (fun hk => by rw [hview k hk])
    exact Nat.le_antisymm (length_le (workerRuns_nodup ..) (fun k hk => (hmem k).mp hk))
      (length_le (workerRuns_nodup ..) (fun k hk => (hmem k).mpr hk))
  have hactive : ∀ project, active s' project = active s project := hlength _ _ isActive_iff
  have hwaiting : ∀ project, waiting s' project = waiting s project := hlength _ _ queued_iff
  constructor
  · intro project
    rw [hactive]
    exact h.slots project
  · intro k hk k' hk' l l' hl hl'
    rw [hworkers] at hk hk'
    exact h.distinct k hk k' hk' l l' (hview k hk ▸ hl) (hview k' hk' ▸ hl')
  · intro project
    rw [hactive, hwaiting]
    exact Nat.le_trans (h.covered project) (hunder project)
  · exact hpause

/-- A run is closed, or its row stays. -/
theorem Inv.closes {s s' : State} (h : Inv T s) {run : Uuid} (ha : Apart run s s') (hworkers : s'.workers = s.workers)
    (hrun : view s' run = view s run ∨ ∀ l, view s' run = some l → l.standing = .closed)
    (hunder : ∀ project, underWay s project ≤ underWay s' project)
    (hcover : ∀ project, run ∈ workerRuns s.db project isActive →
      Covered (waiting s project) (MAX_ACTIVE_WORKERS+1-active s project) (underWay s' project))
    (hpause : ∀ c ∈ s'.base.controls, c.action ≠ .pause) : Inv T s' := by
  rcases hrun with hrun | hrun
  · apply h.same hworkers _ hunder hpause
    intro k _
    by_cases he : k = run
    · rw [he, hrun]
    · exact (ha k he).2
  · have hout : ∀ (among : RunStatus → Bool) (st : Standing), st ≠ .closed →
        (∀ status, among status = true ↔ standing status = st) → ∀ project, run ∉ workerRuns s'.db project among := by
      intro among st hne hst project hmem
      obtain ⟨-,l,hl,-,hl'⟩ := (mem_standing _ _ _ _ hst _).mp hmem
      exact hne (hl'.symm.trans (hrun l hl))
    have hactive : ∀ project, active s' project ≤ active s project := fun project =>
      ha.le_of_not_mem isActive_iff project (hout _ _ (by decide) isActive_iff project)
    have hwaiting : ∀ project, waiting s' project ≤ waiting s project := fun project =>
      ha.le_of_not_mem queued_iff project (hout _ _ (by decide) queued_iff project)
    constructor
    · intro project
      exact Nat.le_trans (hactive project) (h.slots project)
    · apply ha.distinct h.distinct
      intro _ l hl hst
      exact absurd (hrun l hl) hst
    · intro project
      by_cases hmem : run ∈ workerRuns s.db project isActive
      · have hback : active s project ≤ active s' project+1 := ha.symm.le isActive_iff project
        have hfree := hcover project hmem
        have hq := hwaiting project
        unfold Covered at hfree ⊢
        omega
      · have hback : active s project ≤ active s' project := ha.symm.le_of_not_mem isActive_iff project hmem
        have hfree := h.covered project
        have hq := hwaiting project
        have hu := hunder project
        unfold Covered at hfree ⊢
        omega
    · exact hpause

/-- A worker takes a slot; one that was queued uses a promotion. -/
theorem Inv.activates {s s' : State} (h : Inv T s) {run : Uuid} (ha : Apart run s s') (hworkers : s'.workers = s.workers)
    {l : Label} (hl : view s run = some l) (hl' : view s' run = some { l with standing := .active })
    (hnot : l.standing ≠ .active) (hrun : run ∈ s.workers) (hfree : active s l.project < MAX_ACTIVE_WORKERS)
    (htitle : ∀ t, l.title = some t → NoTwin T s run l.project t)
    (hunder : ∀ project, underWay s project ≤
      underWay s' project+(if project = l.project ∧ l.standing = .queued then 1 else 0))
    (hpause : ∀ c ∈ s'.base.controls, c.action ≠ .pause) : Inv T s' := by
  have hmem : ∀ project (among : RunStatus → Bool) (st : Standing),
      (∀ status, among status = true ↔ standing status = st) →
      (run ∈ workerRuns s.db project among ↔ l.project = project ∧ l.standing = st) ∧
      (run ∈ workerRuns s'.db project among ↔ l.project = project ∧ st = .active) := by
    intro project among st hst
    rw [mem_standing _ _ _ _ hst, mem_standing _ _ _ _ hst, hworkers, hl, hl']
    constructor
    · simp [hrun]
    · simp [hrun, eq_comm]
  have hother : ∀ project, project ≠ l.project → active s' project ≤ active s project := by
    intro project hne
    apply ha.le_of_not_mem isActive_iff
    rw [(hmem project _ _ isActive_iff).2]
    exact fun hc => hne hc.1.symm
  have hwaiting : ∀ project, waiting s' project ≤ waiting s project := by
    intro project
    apply ha.le_of_not_mem queued_iff
    rw [(hmem project _ _ queued_iff).2]
    exact fun hc => nomatch hc.2
  have hmore : ∀ project, active s project ≤ active s' project := by
    intro project
    apply ha.symm.le_of_not_mem isActive_iff
    rw [(hmem project _ _ isActive_iff).1]
    exact fun hc => hnot hc.2
  constructor
  · intro project
    by_cases hp : project = l.project
    · have hone : active s' project ≤ active s project+1 := ha.le isActive_iff project
      rw [hp] at hone ⊢
      omega
    · exact Nat.le_trans (hother project hp) (h.slots project)
  · apply ha.distinct h.distinct
    intro _ l₁ hl₁ _ t ht
    cases hl₁.symm.trans hl'
    exact htitle t ht
  · intro project
    have hfree := h.covered project
    have hu := hunder project
    have hq := hwaiting project
    have hm := hmore project
    by_cases hp : project = l.project ∧ l.standing = .queued
    · have hlt : active s project < active s' project := ha.lt isActive_iff project
        (by rw [(hmem project _ _ isActive_iff).1]; exact fun hc => hnot hc.2)
        (by rw [(hmem project _ _ isActive_iff).2]; exact ⟨hp.1.symm,rfl⟩)
      have hless : waiting s' project < waiting s project := ha.symm.lt queued_iff project
        (by rw [(hmem project _ _ queued_iff).2]; exact fun hc => nomatch hc.2)
        (by rw [(hmem project _ _ queued_iff).1]; exact ⟨hp.1.symm,hp.2⟩)
      rw [if_pos hp] at hu
      unfold Covered at hfree ⊢
      omega
    · rw [if_neg hp] at hu
      unfold Covered at hfree ⊢
      omega
  · exact hpause

/-- A worker is inserted, on a subject that no open worker has. -/
theorem Inv.inserts {s s' : State} (h : Inv T s) (run : Uuid) (l : Label) (ha : Apart run s s')
    (hnew : view s run = none) (hl : view s' run = some l) (htitle : ∀ t, l.title = some t → NoTwin T s run l.project t)
    (hactive : l.standing = .active → active s l.project < MAX_ACTIVE_WORKERS)
    (hqueued : l.standing = .queued →
      Covered (waiting s l.project+1) (MAX_ACTIVE_WORKERS-active s l.project) (underWay s l.project))
    (hunder : ∀ project, underWay s' project = underWay s project)
    (hpause : ∀ c ∈ s'.base.controls, c.action ≠ .pause) : Inv T s' := by
  have hbefore : ∀ project (among : RunStatus → Bool) (st : Standing),
      (∀ status, among status = true ↔ standing status = st) → run ∉ workerRuns s.db project among := by
    intro project among st hst hmem
    obtain ⟨-,l₁,hl₁,-⟩ := (mem_standing _ _ _ _ hst _).mp hmem
    cases hnew.symm.trans hl₁
  have hafter : ∀ project (among : RunStatus → Bool) (st : Standing),
      (∀ status, among status = true ↔ standing status = st) → ¬(l.project = project ∧ l.standing = st) →
      run ∉ workerRuns s'.db project among := by
    intro project among st hst hne hmem
    obtain ⟨-,l₁,hl₁,hp,hs⟩ := (mem_standing _ _ _ _ hst _).mp hmem
    cases hl.symm.trans hl₁
    exact hne ⟨hp,hs⟩
  have hmore : ∀ project, active s project ≤ active s' project := fun project =>
    ha.symm.le_of_not_mem isActive_iff project (hbefore project _ _ isActive_iff)
  constructor
  · intro project
    by_cases hp : l.project = project ∧ l.standing = .active
    · have hone : active s' project ≤ active s project+1 := ha.le isActive_iff project
      have hfree := hactive hp.2
      rw [hp.1] at hfree
      omega
    · have hsame : active s' project ≤ active s project :=
        ha.le_of_not_mem isActive_iff project (hafter project _ _ isActive_iff hp)
      exact Nat.le_trans hsame (h.slots project)
  · apply ha.distinct h.distinct
    intro _ l₁ hl₁ _ t ht
    cases hl₁.symm.trans hl
    exact htitle t ht
  · intro project
    have hm := hmore project
    have hu := hunder project
    by_cases hp : l.project = project ∧ l.standing = .queued
    · have hone : waiting s' project ≤ waiting s project+1 := ha.le queued_iff project
      have hfree := hqueued hp.2
      rw [hp.1] at hfree
      unfold Covered at hfree ⊢
      omega
    · have hsame : waiting s' project ≤ waiting s project :=
        ha.le_of_not_mem queued_iff project (hafter project _ _ queued_iff hp)
      have hfree := h.covered project
      unfold Covered at hfree ⊢
      omega
  · exact hpause

theorem Inv.delegateInsert {s : State} (h : Inv T s) (i : ℕ) (run : Uuid) (ho : Orderly T s (.delegateInsert i run)) :
    Inv T (step T s (.delegateInsert i run)) := by
  simp only [step]
  cases hd : s.delegations[i]? with
  | none => exact h
  | some call =>
    have hcall := ho call hd
    cases call with
    | decided task running => exact h.same rfl (fun _ _ => rfl) (fun _ => Nat.le_refl _) h.noPause
    | done outcome => exact h.same rfl (fun _ _ => rfl) (fun _ => Nat.le_refl _) h.noPause
    | posted task running worker message =>
      by_cases hkey : run ∈ s.base.db.runs.keys
      · have hsame : DelegateTask.delegateInsert run s.db (.posted task running worker message) = (.done .failed,s.db) := by
          simp [DelegateTask.delegateInsert, State.db, hkey]
        dsimp only
        rw [hsame]
        exact h.same rfl (fun _ _ => rfl) (fun _ => Nat.le_refl _) h.noPause
      · obtain ⟨htwin,hactive,hqueued⟩ := hcall hkey
        have hnew : s.base.db.runs.get run = none := (Table.get_none_iff _ _).mpr hkey
        have hget : ∀ k, (DelegateTask.delegateInsert run s.db (.posted task running worker message)).2.rows.runs.get k =
            if k = run then some (workerRun task running worker message) else s.base.db.runs.get k := by
          intro k
          simp [DelegateTask.delegateInsert, State.db, hkey, setAgentStatus, Table.get_insert]
        have hworkers : (DelegateTask.delegateInsert run s.db (.posted task running worker message)).2.workers =
            run::s.workers := by
          simp [DelegateTask.delegateInsert, State.db, hkey]
        have hst : standing (initialStatus running) = .active → initialStatus running = .pending := by
          unfold initialStatus
          split <;> decide
        have hst' : standing (initialStatus running) = .queued → initialStatus running = .queued := by
          unfold initialStatus
          split <;> decide
        refine h.inserts run (label (workerRun task running worker message)) ?_ ?_ ?_ ?_
          (fun hs => hactive (hst hs)) (fun hs => hqueued (hst' hs)) (fun _ => rfl) h.noPause
        · intro k hk
          refine ⟨?_,?_⟩
          · show k ∈ (DelegateTask.delegateInsert run s.db _).2.workers ↔ _
            rw [hworkers, List.mem_cons]
            exact or_iff_right hk
          · show ((DelegateTask.delegateInsert run s.db _).2.rows.runs.get k).map label = _
            rw [hget, if_neg hk]
            rfl
        · rw [view, hnew]
          rfl
        · show ((DelegateTask.delegateInsert run s.db _).2.rows.runs.get run).map label = _
          rw [hget, if_pos rfl]
          rfl
        · intro t ht
          cases ht
          exact htwin

theorem Inv.delegatePost {s : State} (h : Inv T s) (i : ℕ) (worker message : Uuid) :
    Inv T (step T s (.delegatePost i worker message)) := by
  simp only [step]
  cases s.delegations[i]? with
  | none => exact h
  | some call =>
    obtain ⟨hruns,hworkers⟩ := delegatePost_runs worker message s.db call
    dsimp only
    have hview : ∀ k, ((DelegateTask.delegatePost worker message s.db call).2.rows.runs.get k).map label = view s k := by
      intro k
      rw [hruns]
      rfl
    exact h.same hworkers (fun k _ => hview k) (fun _ => Nat.le_refl _) h.noPause

/-- The promotions of a project after one of them has changed its phase. -/
theorem underWay_set {s : State} {i : ℕ} {promoted : Uuid} {old : PromotePhase}
    (hi : s.promotions[i]? = some ⟨promoted,old⟩) (hm : old ≠ .done) (phase : PromotePhase) (project : Uuid) :
    underWay s project ≤ underWay { s with promotions := s.promotions.set i ⟨promoted,phase⟩ } project+
      (if project = promoted ∧ phase = .done then 1 else 0) := by
  obtain ⟨hlt,hget⟩ := List.getElem?_eq_some_iff.mp hi
  unfold underWay
  rw [List.countP_set hlt, hget]
  have hpos : promoted = project → 0 < s.promotions.countP (fun m => m.project = project && m.phase ≠ .done) := by
    intro hp
    exact List.countP_pos_iff.mpr ⟨_,List.mem_of_getElem? hi,by simp [hp, hm]⟩
  by_cases hp : promoted = project
  · have hcount := hpos hp
    by_cases hdone : phase = .done
    · simp [hp, hm, hdone]
      omega
    · simp [hp, hm, hdone]
      omega
  · simp [hp]

theorem Inv.promoteCount {s : State} (h : Inv T s) (i : ℕ) : Inv T (step T s (.promoteCount i)) := by
  simp only [step]
  split
  · next project hi =>
    refine ⟨h.slots,h.distinct,fun p => ?_,h.noPause⟩
    have hunder := underWay_set hi (by decide) (DelegateTask.promoteCount project s.db) p
    have hfree := h.covered p
    have hdone : DelegateTask.promoteCount project s.db = .done → MAX_ACTIVE_WORKERS ≤ active s project := by
      unfold DelegateTask.promoteCount
      split
      · exact fun _ => ‹_›
      · exact nofun
    show Covered (waiting s p) (MAX_ACTIVE_WORKERS-active s p) _
    by_cases hp : p = project ∧ DelegateTask.promoteCount project s.db = .done
    · have hfull := hdone hp.2
      rw [← hp.1] at hfull
      unfold Covered
      omega
    · rw [if_neg hp] at hunder
      exact Nat.le_trans hfree hunder
  · exact h

theorem Inv.promoteUpdate {s : State} (h : Inv T s) (i : ℕ) (ho : Orderly T s (.promoteUpdate i)) :
    Inv T (step T s (.promoteUpdate i)) := by
  simp only [step]
  split
  · next project hi =>
    have hunder := underWay_set hi (by decide) .done
    have hroom := ho _ hi rfl
    cases hq : oldestQueued project s.db with
    | none =>
      have hnone : waiting s project = 0 := congrArg List.length (oldestQueued_none hq)
      have hdb : DelegateTask.promoteUpdate project s.base.now s.db = s.db := by simp [DelegateTask.promoteUpdate, hq]
      rw [hdb]
      refine ⟨h.slots,h.distinct,fun p => ?_,h.noPause⟩
      show Covered (waiting s p) (MAX_ACTIVE_WORKERS-active s p) _
      have hu := hunder p
      have hfree := h.covered p
      by_cases hp : p = project
      · rw [hp, hnone]
        exact Nat.le_trans (Nat.min_le_left ..) (Nat.zero_le _)
      · rw [if_neg (fun hc => hp hc.1)] at hu
        exact Nat.le_trans hfree hu
    | some run =>
      obtain ⟨hw,r,hr,hp,hs⟩ := oldestQueued_some hq
      have hget : ∀ k, (DelegateTask.promoteUpdate project s.base.now s.db).rows.runs.get k =
          (s.base.db.runs.get k).map (fun r => if k = run && r.status = .queued then
            { r with status := .pending, updatedAt := s.base.now } else r) := by
        intro k
        simp only [DelegateTask.promoteUpdate, hq, Table.get_update]
        rfl
      have hworkers : (DelegateTask.promoteUpdate project s.base.now s.db).workers = s.workers :=
        promoteUpdate_workers ..
      have hl : view s run = some (label r) := congrArg (Option.map label) hr
      have hlabel : (label r).standing = .queued := by simp [label, hs, standing]
      have hmem : run ∈ workerRuns s.db project (· = .queued) :=
        (mem_workerRuns ..).mpr ⟨hw,r,hr,hp,decide_eq_true hs⟩
      have hfree : active s (label r).project < MAX_ACTIVE_WORKERS := by
        show active s r.projectUuid < _
        rw [hp]
        exact hroom (List.length_pos_of_mem hmem)
      refine h.activates ?_ hworkers hl ?_ (by rw [hlabel]; decide) hw hfree
        (fun t ht => h.distinct.noTwin hw hl (by rw [hlabel]; decide) ht) ?_ h.noPause
      · intro k hk
        refine ⟨iff_of_eq (congrArg (k ∈ ·) hworkers),?_⟩
        show ((DelegateTask.promoteUpdate project s.base.now s.db).rows.runs.get k).map label = _
        rw [hget]
        simp [view, hk]
      · show ((DelegateTask.promoteUpdate project s.base.now s.db).rows.runs.get run).map label = _
        have hrow : s.base.db.runs.get run = some r := hr
        rw [hget, hrow]
        simp [hs, label, standing]
      · intro p
        have hcond : (p = (label r).project ∧ (label r).standing = .queued) ↔
            (p = project ∧ PromotePhase.done = .done) := by
          rw [hlabel, ← hp]
          exact and_congr Iff.rfl (by simp)
        rw [if_congr hcond rfl rfl]
        exact hunder p
  · exact h

theorem Inv.finish {s : State} (h : Inv T s) (i : ℕ) (status : EndStatus) (error : Option String) (reported : Bool)
    (ho : Orderly T s (.finish i status error reported)) : Inv T (step T s (.finish i status error reported)) := by
  cases hc : s.base.claims[i]? with
  | none =>
    have hsame : step T s (.finish i status error reported) = s := by
      simp [step, stepOnRuns, Action.onRuns, AgentRunFencing.step, onRunFinished, hc]
    rw [hsame]
    exact h
  | some c =>
    have hget : ∀ k, (step T s (.finish i status error reported)).base.db.runs.get k =
        (s.base.db.runs.get k).map (fun r =>
          if k = c.run ∧ r.status.isOpen then r.ended status error s.base.now else r) := by
      intro k
      cases reported <;> simp [step, stepOnRuns, Action.onRuns, AgentRunFencing.step, finishBy, finish_get, hc]
    have hworkers : (step T s (.finish i status error reported)).workers = s.workers := by
      cases reported <;> rfl
    have hcontrols : (step T s (.finish i status error reported)).base.controls = s.base.controls := by
      cases reported <;> simp [step, stepOnRuns, Action.onRuns, AgentRunFencing.step, finishBy, hc]
    have hpromotions : (step T s (.finish i status error reported)).promotions =
        if reported then s.promotions++onRunFinished s i else s.promotions := by
      cases reported <;> rfl
    have hunder : ∀ project, underWay s project ≤ underWay (step T s (.finish i status error reported)) project := by
      intro project
      rw [underWay, underWay, hpromotions]
      split
      · rw [List.countP_append]
        exact Nat.le_add_right _ _
      · exact Nat.le_refl _
    apply h.closes _ hworkers _ hunder _ (hcontrols ▸ h.noPause)
    · exact c.run
    · intro k hk
      refine ⟨by rw [hworkers],?_⟩
      rw [view, hget]
      simp [view, hk]
    · rw [view, view, hget]
      cases hr : s.base.db.runs.get c.run with
      | none => exact Or.inl rfl
      | some r =>
        by_cases hopen : r.status.isOpen = true
        · right
          intro l hl
          simp only [Option.map_some, hopen, and_self, if_true, Option.some.injEq] at hl
          subst hl
          cases status <;> rfl
        · left
          simp [hopen]
    · intro project hmem
      obtain ⟨hw,r,hr,hp,-⟩ := (mem_workerRuns ..).mp hmem
      cases reported with
      | false =>
        have hcovered := ho c hc r hr (hp ▸ hmem)
        rw [hp] at hcovered
        exact Nat.le_trans hcovered (hunder project)
      | true =>
        have hmore : underWay (step T s (.finish i status error true)) project = underWay s project+1 := by
          rw [underWay, underWay, hpromotions, if_pos rfl, List.countP_append]
          simp [onRunFinished, hc, hw, hr, hp]
        have hcovered := h.covered project
        rw [hmore]
        unfold Covered at hcovered ⊢
        omega

/-- A claim starts a pending run. -/
theorem Inv.claim {s : State} (h : Inv T s) (run owner : Uuid) : Inv T (step T s (.tryClaimAs run owner)) := by
  refine h.same rfl (fun k _ => ?_) (fun _ => Nat.le_refl _) h.noPause
  have hget : (step T s (.tryClaimAs run owner)).base.db.runs.get k = (s.base.db.runs.get k).map (fun r =>
      if k = run && r.status = .pending then r.claimed owner s.base.now else r) := by
    simp [step, stepOnRuns, Action.onRuns, AgentRunFencing.step, tryClaimAs, Table.get_update]
  rw [view, hget, view, Option.map_map]
  congr 1
  funext r
  simp only [Function.comp_apply]
  split
  · next hguard =>
    simp only [Bool.and_eq_true, decide_eq_true_eq] at hguard
    simp [label, AgentRun.claimed, hguard.2, standing]
  · rfl

theorem Inv.renew {s : State} (h : Inv T s) (i : ℕ) : Inv T (step T s (.renewLease i)) := by
  cases hc : s.base.claims[i]? with
  | none =>
    have hsame : step T s (.renewLease i) = s := by
      simp [step, stepOnRuns, Action.onRuns, AgentRunFencing.step, hc]
    rw [hsame]
    exact h
  | some c =>
    have hcontrols : (step T s (.renewLease i)).base.controls = s.base.controls := by
      simp [step, stepOnRuns, Action.onRuns, AgentRunFencing.step, hc]
    refine h.same rfl (fun k _ => ?_) (fun _ => Nat.le_refl _) (by rw [hcontrols]; exact h.noPause)
    have hget : (step T s (.renewLease i)).base.db.runs.get k = (s.base.db.runs.get k).map (fun r =>
        if k = c.run && holdsLease c.owner r then { r with leaseUntil := some (s.base.now+LEASE_SECS) } else r) := by
      simp [step, stepOnRuns, Action.onRuns, AgentRunFencing.step, renewLease, Table.get_update, hc]
    rw [view, hget, view, Option.map_map]
    congr 1
    funext r
    simp only [Function.comp_apply]
    split <;> rfl

theorem Inv.controlRead {s : State} (h : Inv T s) (run : Uuid) (retry : Bool) :
    Inv T (step T s (.controlRead run retry)) := by
  refine h.same rfl (fun _ _ => rfl) (fun _ => Nat.le_refl _) (fun c hc => ?_)
  rcases List.mem_append.mp hc with hc | hc
  · exact h.noPause c hc
  · rw [List.mem_singleton.mp hc]
    cases retry <;> exact nofun

theorem next_action (c : ControlCall) (fresh : Uuid) (db : AgentRuns.Db) : (c.next fresh db).1.action = c.action := by
  unfold ControlCall.next
  split
  · split
    · rfl
    · split <;> rfl
  · split <;> rfl
  · rfl
  · rfl
  · rfl

theorem expected_closed (action : Control) : standing (expectedStatus action) = .closed := by
  unfold expectedStatus
  split <;> rfl

/-- A call whose next statement takes effect finds its run in the status it expects. -/
theorem takesEffect_status {c : ControlCall} {fresh : Uuid} {db : AgentRuns.Db} (hp : c.action ≠ .pause)
    (h : RestartBound.takesEffect c fresh db = true) : db.status c.run = some (expectedStatus c.action) := by
  cases hc : c.phase with
  | done o => simp [RestartBound.takesEffect, hc] at h
  | ready next =>
    by_contra hne
    simp [RestartBound.takesEffect, ControlCall.next, restartUpdate, hc, hne] at h
  | allowed row =>
    by_cases hm : (db.messages.get row.messageUuid).isNone = true <;>
      simp [RestartBound.takesEffect, ControlCall.next, hc, hp, hm] at h
  | replayable row =>
    by_cases hm : assistantAlreadyReplied row.agentUuid row.messageUuid db = true <;>
      simp [RestartBound.takesEffect, ControlCall.next, hc, hm] at h
  | answered row => simp [RestartBound.takesEffect, ControlCall.next, hc] at h

theorem Inv.controlNext {s : State} (h : Inv T s) (i : ℕ) (fresh : Uuid) (ho : Orderly T s (.controlNext i fresh)) :
    Inv T (step T s (.controlNext i fresh)) := by
  cases hc : s.base.controls[i]? with
  | none =>
    have hsame : step T s (.controlNext i fresh) = s := by
      simp [step, stepOnRuns, Action.onRuns, AgentRunFencing.step, hc]
    rw [hsame]
    exact h
  | some c =>
    have haction : c.action ≠ .pause := h.noPause c (List.mem_of_getElem? hc)
    have hbase : (step T s (.controlNext i fresh)).base.db = (c.next fresh s.base.db).2 := by
      simp [step, stepOnRuns, Action.onRuns, AgentRunFencing.step, hc]
    have hpause : ∀ d ∈ (step T s (.controlNext i fresh)).base.controls, d.action ≠ .pause := by
      have hcontrols : (step T s (.controlNext i fresh)).base.controls =
          s.base.controls.set i (c.next fresh s.base.db).1 := by
        simp [step, stepOnRuns, Action.onRuns, AgentRunFencing.step, hc]
      rw [hcontrols]
      intro d hd
      rcases List.mem_or_eq_of_mem_set hd with hd | rfl
      · exact h.noPause d hd
      · rw [next_action]
        exact haction
    obtain ⟨f,hget,hrow⟩ := RestartBound.next_rows c fresh s.base.db
    have hview : ∀ k, view (step T s (.controlNext i fresh)) k = ((s.base.db.runs.get k).map (f k)).map label := by
      intro k
      rw [view, hbase, hget]
    -- off its run the call changes nothing
    have hkept : ∀ k, k ≠ c.run → view (step T s (.controlNext i fresh)) k = view s k := by
      intro k hk
      rw [hview, view]
      cases hr : s.base.db.runs.get k with
      | none => rfl
      | some r =>
        have hchanged := hrow k r hr
        simp only [Option.map_some]
        generalize f k r = r' at hchanged
        cases hchanged with
        | kept => rfl
        | paused hrun _ => exact absurd hrun.symm hk
        | restarted next hrun _ => exact absurd hrun.symm hk
    by_cases hchange : view (step T s (.controlNext i fresh)) c.run = view s c.run ∨ c.run ∉ s.workers
    · refine h.same rfl (fun k hk => ?_) (fun _ => Nat.le_refl _) hpause
      by_cases he : k = c.run
      · subst he
        exact hchange.resolve_right (fun hn => hn hk)
      · exact hkept k he
    · obtain ⟨hne,hw⟩ := not_or.mp hchange
      have hw := not_not.mp hw
      cases hr : s.base.db.runs.get c.run with
      | none => exact absurd (by rw [hview, view, hr]; rfl) hne
      | some r =>
        have hv := hview c.run
        rw [hr, Option.map_some, Option.map_some] at hv
        have hl : view s c.run = some (label r) := congrArg (Option.map label) hr
        have hchanged := hrow c.run r hr
        generalize f c.run r = r' at hchanged hv
        cases hchanged with
        | kept => exact absurd (hv.trans hl.symm) hne
        | paused _ hpaused => exact absurd hpaused haction
        | restarted next _ heffect =>
          have hstatus := takesEffect_status haction heffect
          rw [Db.status, hr] at hstatus
          have hclosed : (label r).standing = .closed := by
            show standing r.status = .closed
            rw [Option.some.inj hstatus, expected_closed]
          obtain ⟨hfree,htwin⟩ := ho c hc heffect hw r hr
          refine h.activates ?_ rfl hl ?_ (by rw [hclosed]; decide) hw hfree htwin
            (fun _ => Nat.le_add_right _ _) hpause
          · exact fun k hk => ⟨Iff.rfl,hkept k hk⟩
          · rw [hv]
            rfl

theorem Inv.step {s : State} (h : Inv T s) (a : Action) (ho : Orderly T s a) : Inv T (step T s a) := by
  cases a with
  | tick seconds => exact h.same rfl (fun _ _ => rfl) (fun _ => Nat.le_refl _) h.noPause
  | insertMessage uuid project agent role content => exact h.same rfl (fun _ _ => rfl) (fun _ => Nat.le_refl _) h.noPause
  | delegateRead args => exact h.same rfl (fun _ _ => rfl) (fun _ => Nat.le_refl _) h.noPause
  | delegatePost i worker message => exact h.delegatePost i worker message
  | delegateInsert i run => exact h.delegateInsert i run ho
  | tryClaimAs run owner => exact h.claim run owner
  | renewLease i => exact h.renew i
  | finish i status error reported => exact h.finish i status error reported ho
  | promoteCount i => exact h.promoteCount i
  | promoteUpdate i => exact h.promoteUpdate i ho
  | controlRead run retry => exact h.controlRead run retry
  | controlNext i fresh => exact h.controlNext i fresh ho

theorem running_eq (s : State) (project : Uuid) :
    ((activeWorkers s.db project).filter (fun e => e.2.status ≠ .queued)).length = active s project := by
  rw [active, workerRuns, Table.affected, List.length_map, activeWorkers, List.filter_filter]
  congr 2
  funext e
  cases e.2.status <;> simp [RunStatus.isOpen, isActive]

/-- A delegation whose INSERT follows what it has read, with nothing in between, is orderly. -/
theorem delegate_in_turn (s : State) (args : DelegateArgs) (now : Instant) {task : Task} {running : ℕ} (run worker message : Uuid)
    (h : DelegateTask.delegateRead T args now s.db = .decided task running) :
    InsertOrderly T s run (.posted task running worker message) := by
  unfold DelegateTask.delegateRead at h
  dsimp only at h
  split at h
  case h_2 => cases h
  next project caller _ _ =>
  split at h
  · cases h
  split at h
  · cases h
  split at h
  · cases h
  split at h
  · cases h
  next hfind =>
    cases h
    intro _
    dsimp only
    refine ⟨?_,?_,?_⟩
    · intro k hk _ r hr hkey
      obtain ⟨hw,r',hr',hp,hopen⟩ := (mem_workerRuns ..).mp hk
      cases hr.symm.trans hr'
      have hmem : (k,r) ∈ activeWorkers s.db project :=
        List.mem_filter.mpr ⟨(Table.mem_iff_get ..).mpr hr',by
          have hkind : k ∈ s.db.workers := hw
          simp [hkind, hp, hopen]⟩
      exact absurd (decide_eq_true hkey) (List.find?_eq_none.mp hfind _ hmem)
    · rw [running_eq]
      unfold initialStatus
      split
      · exact fun h => RunStatus.noConfusion h
      · exact fun _ => Nat.lt_of_not_le ‹_›
    · rw [running_eq]
      unfold initialStatus
      split
      · intro _
        unfold Covered
        omega
      · exact fun h => RunStatus.noConfusion h

/-! ## Runs -/

theorem inv_start (now : Instant) (db : DelegateTask.Db) (h : Kept T (start now db)) : Inv T (start now db) where
  slots := h.slots
  distinct := (titles_iff _).mp h.titles
  covered project := by
    have hquiet : Quiet (start now db) :=
      ⟨fun _ hd => absurd hd List.not_mem_nil,fun _ hc => absurd hc List.not_mem_nil,fun _ hm => absurd hm List.not_mem_nil⟩
    have hqueue := h.queue hquiet project
    unfold Covered
    omega
  noPause _ hc := absurd hc List.not_mem_nil

/-- In every run whose steps are orderly the slots, the titles and the queue are kept. -/
theorem slots_kept (T : Texts) (now : Instant) (db : DelegateTask.Db) (acts : List Action) (hstart : Kept T (start now db))
    (h : Guarded (WorkerSlots.step T) (Orderly T) acts (start now db)) :
    Kept T (run (WorkerSlots.step T) acts (start now db)) :=
  (guarded_invariant (WorkerSlots.step T) (Orderly T) (Inv T) (fun _ a hs ho => hs.step a ho) acts _
    (inv_start now db hstart) h).kept

end

/-- A project with its coordinator. -/
def coordinated : DelegateTask.Db :=
  ⟨⟨Table.empty,Table.empty,Table.empty,1⟩,[],Table.empty.insert 5 ⟨7,"coordinator","required",none⟩⟩

theorem coordinated_kept : Kept asciiTexts (start 0 coordinated) where
  slots _ := Nat.zero_le _
  titles _ hk := absurd hk List.not_mem_nil
  queue _ _ _ := rfl

/-- Read, message and INSERT of a delegation, one after the other. -/
def delegate (call : ℕ) (title : String) : List Action :=
  [.delegateRead ⟨some 7,some 5,title,"go",none⟩,.delegatePost call (10+call) (20+call),.delegateInsert call (30+call)]

/-- The third worker waits; the end of the first one promotes it. -/
def threeInTurn : List Action :=
  delegate 0 "Home"++delegate 1 "Contact"++delegate 2 "Prices"++
    [Action.tryClaimAs 30 1,.finish 0 .failed none true,.promoteCount 0,.promoteUpdate 0,.controlRead 31 true,.controlNext 0 40]

theorem threeInTurn_kept : Kept asciiTexts (run (step asciiTexts) threeInTurn (start 0 coordinated)) :=
  slots_kept asciiTexts 0 coordinated threeInTurn coordinated_kept (by decide +kernel)

/-- Three delegations read the workers before any of them is inserted. -/
def threeAtOnce : List Action :=
  [.delegateRead ⟨some 7,some 5,"Home","go",none⟩,.delegateRead ⟨some 7,some 5,"Contact","go",none⟩,
    .delegateRead ⟨some 7,some 5,"Prices","go",none⟩,.delegatePost 0 10 20,.delegateInsert 0 30,.delegatePost 1 11 21,
    .delegateInsert 1 31,.delegatePost 2 12 22,.delegateInsert 2 32]

theorem third_worker_active : ¬∀ (T : Texts) (now : Instant) (db : DelegateTask.Db) (acts : List Action),
    Kept T (start now db) → Kept T (run (step T) acts (start now db)) := by
  intro h
  have hslots := (h asciiTexts 0 coordinated threeAtOnce coordinated_kept).slots 7
  have hthree : active (run (step asciiTexts) threeAtOnce (start 0 coordinated)) 7 = 3 := by decide +kernel
  rw [hthree] at hslots
  exact absurd hslots (by decide)

end DevForge.WorkerSlots
