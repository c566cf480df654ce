import DevForge.SnapshotReplication

/-!
# Acknowledged writes survive an orderly failover

What the leader reads from its file only grows, so copies written in the order
of these reads never go back, and a copy read late enough holds every write
that was acknowledged.
-/

set_option autoImplicit false

namespace DevForge.SnapshotSurvival
open ClusterLocal SnapshotReplication Transition

instance : Preorder Snapshot where
  le a b := a.generation ≤ b.generation ∧ a.commits ≤ b.commits
  le_refl a := ⟨le_refl _,le_refl _⟩
  le_trans a b c hab hbc := ⟨le_trans hab.1 hbc.1,le_trans hab.2 hbc.2⟩

/-- In a rising list an earlier entry is below a later one. -/
theorem le_of_index {α : Type*} [Preorder α] {l : List α} (h : l.Pairwise (· ≤ ·)) {i j : ℕ}
    {a b : α} (hi : l[i]? = some a) (hj : l[j]? = some b) (hij : i ≤ j) : a ≤ b := by
  obtain ⟨hil,rfl⟩ := List.getElem?_eq_some_iff.mp hi
  obtain ⟨hjl,rfl⟩ := List.getElem?_eq_some_iff.mp hj
  rcases Nat.lt_or_eq_of_le hij with hlt | rfl
  · exact List.pairwise_iff_getElem.mp h i j hil hjl hlt
  · exact le_refl _

/-- The copy is what the leader read that time. -/
def Read (reads : List Snapshot) (c : Copy) : Prop := reads[c.serial]? = some c.snapshot

theorem Read.mono {reads reads' : List Snapshot} {c : Copy} (hp : reads <+: reads')
    (h : Read reads c) : Read reads' c := by
  obtain ⟨t,rfl⟩ := hp
  obtain ⟨hlt,_⟩ := List.getElem?_eq_some_iff.mp h
  rw [Read, List.getElem?_append_left hlt]
  exact h

structure WorkerOk (reads : List Snapshot) (w : Worker) : Prop where
  file : ∀ c ∈ w.file, Read reads c
  loop : ∀ c, w.loop = .fetched c → Read reads c
  accepts : ∀ a ∈ w.accepts, Read reads a.copy

theorem WorkerOk.mono {reads reads' : List Snapshot} {w : Worker} (hp : reads <+: reads')
    (h : WorkerOk reads w) : WorkerOk reads' w :=
  ⟨fun c hc => (h.file c hc).mono hp,fun c hc => (h.loop c hc).mono hp,
    fun a ha => (h.accepts a ha).mono hp⟩

/-- The write of a job was committed before the dump of the job. -/
def PhaseOk (reads : List Snapshot) (commits : ℕ) (file : Option Snapshot) : Phase → Prop
  | .free => True
  | .locked job | .ready job _ => ∀ w ∈ job.write, w < commits
  | .dumped job _ n => n ≤ commits ∧ (∀ f ∈ file, f.commits ≤ n) ∧ ∀ w ∈ job.write, w < n
  | .renamed job _ | .counted job _ => ∀ w ∈ job.write, ∀ f ∈ file, w < f.commits
  | .pushing w copy _ _ | .awaiting w copy _ _ _ _ => Read reads copy ∧ w < copy.snapshot.commits

structure Inv (s : State) : Prop where
  file : ∀ f ∈ s.file, f.generation ≤ s.generation+1 ∧ f.commits ≤ s.commits
  rising : s.reads.Pairwise (· ≤ ·)
  last : ∀ r ∈ s.reads, ∃ f ∈ s.file, r ≤ f
  workers : ∀ w ∈ s.workers, WorkerOk s.reads w
  waiting : ∀ job ∈ s.waiting, ∀ w ∈ job.write, w < s.commits
  phase : PhaseOk s.reads s.commits s.file s.phase
  replicated : ∀ r ∈ s.replicated, Read s.reads r.2 ∧ r.1 < r.2.snapshot.commits
  dead : ∀ e ∈ s.elections, e.leaderDead → s.alive = false
  survives : Survives s

theorem start_inv (self : NodeId) (ids : List NodeId) : Inv (start self ids) where
  file _ h := by simp [start] at h
  rising := List.Pairwise.nil
  last _ h := by simp [start] at h
  workers w h := by
    obtain ⟨id,_,rfl⟩ := List.mem_map.mp h
    exact ⟨fun _ h => by simp at h,fun _ h => by simp at h,fun _ h => by simp at h⟩
  waiting _ h := by simp [start] at h
  phase := trivial
  replicated _ h := by simp [start] at h
  dead _ h := by simp [start] at h
  survives := ⟨fun _ h => by simp [start] at h,fun _ h => by simp [start] at h⟩

theorem Inv.setWorker {s : State} (hs : Inv s) (i : ℕ) (w : Worker) (hw : WorkerOk s.reads w) :
    Inv (setWorker i w s) where
  file := hs.file
  rising := hs.rising
  last := hs.last
  workers u hu := by
    rcases List.mem_or_eq_of_mem_set hu with hu | rfl
    · exact hs.workers u hu
    · exact hw
  waiting := hs.waiting
  phase := hs.phase
  replicated := hs.replicated
  dead := hs.dead
  survives := ⟨hs.survives.elected,hs.survives.replaced⟩

theorem Inv.setPhase {s : State} (hs : Inv s) (phase : Phase)
    (hp : PhaseOk s.reads s.commits s.file phase) : Inv { s with phase := phase } :=
  ⟨hs.file,hs.rising,hs.last,hs.workers,hs.waiting,hp,hs.replicated,hs.dead,
    ⟨hs.survives.elected,hs.survives.replaced⟩⟩

theorem Inv.setWaiting {s : State} (hs : Inv s) (waiting : List Job)
    (hw : ∀ job ∈ waiting, ∀ w ∈ job.write, w < s.commits) : Inv { s with waiting := waiting } :=
  ⟨hs.file,hs.rising,hs.last,hs.workers,hw,hs.phase,hs.replicated,hs.dead,
    ⟨hs.survives.elected,hs.survives.replaced⟩⟩

/-- The leader reads its file: the new copy is above all the earlier ones. -/
theorem Inv.readFile {s : State} (hs : Inv s) (f : Snapshot) (hf : s.file = some f) :
    Inv (readFile f s).2 ∧ Read (readFile f s).2.reads (readFile f s).1 := by
  have hp : s.reads <+: s.reads++[f] := List.prefix_append _ _
  have hle : ∀ r ∈ s.reads, r ≤ f := by
    intro r hr
    obtain ⟨f',hf',h⟩ := hs.last r hr
    rw [hf] at hf'
    exact Option.mem_some.mp hf' ▸ h
  refine ⟨⟨hs.file,?_,?_,fun w hw => (hs.workers w hw).mono hp,hs.waiting,?_,
    fun r hr => ⟨(hs.replicated r hr).1.mono hp,(hs.replicated r hr).2⟩,hs.dead,
    ⟨hs.survives.elected,hs.survives.replaced⟩⟩,?_⟩
  · exact List.pairwise_append.mpr ⟨hs.rising,List.pairwise_singleton _ _,
      fun a ha b hb => List.mem_singleton.mp hb ▸ hle a ha⟩
  · intro r hr
    refine ⟨f,hf,?_⟩
    rcases List.mem_append.mp hr with hr | hr
    · exact hle r hr
    · rw [List.mem_singleton.mp hr]
  · have hph := hs.phase
    simp only [SnapshotReplication.readFile]
    cases hphase : s.phase with
    | pushing w copy n peers =>
      rw [hphase] at hph
      exact ⟨hph.1.mono hp,hph.2⟩
    | awaiting w copy n push peer peers =>
      rw [hphase] at hph
      exact ⟨hph.1.mono hp,hph.2⟩
    | _ =>
      rw [hphase] at hph
      exact hph
  · simp [Read, SnapshotReplication.readFile]

/-- A worker's file is replaced by a copy that was read no earlier. -/
theorem Inv.writeFile {s : State} (hs : Inv s) (i : ℕ) (w : Worker) (copy : Copy)
    (hw : WorkerOk s.reads w) (hc : Read s.reads copy) (ho : NotOverLater w copy) :
    Inv (writeFile i w copy s) := by
  have hreplaced : Inv { s with
      replaced := s.replaced++(w.file.map (fun old => (old.snapshot,copy.snapshot))).toList } := by
    refine ⟨hs.file,hs.rising,hs.last,hs.workers,hs.waiting,hs.phase,hs.replicated,hs.dead,
      ⟨hs.survives.elected,fun r hr => ?_⟩⟩
    rcases List.mem_append.mp hr with hr | hr
    · exact hs.survives.replaced r hr
    · obtain ⟨old,hold,rfl⟩ := Option.map_eq_some_iff.mp (Option.mem_toList.mp hr)
      exact (le_of_index hs.rising (hw.file old hold) hc (ho old hold)).1
  exact hreplaced.setWorker i { w with file := some copy }
    ⟨fun c h => Option.mem_some.mp h ▸ hc,hw.loop,hw.accepts⟩

theorem Inv.send {s : State} (hs : Inv s) (peer : NodeId) (a : Accept) (ha : Read s.reads a.copy) :
    Inv (send peer a s) where
  file := hs.file
  rising := hs.rising
  last := hs.last
  workers u hu := by
    obtain ⟨w,hw,rfl⟩ := List.mem_map.mp hu
    have h := hs.workers w hw
    split
    · refine ⟨h.file,h.loop,fun b hb => ?_⟩
      rcases List.mem_append.mp hb with hb | hb
      · exact h.accepts b hb
      · exact List.mem_singleton.mp hb ▸ ha
    · exact h
  waiting := hs.waiting
  phase := hs.phase
  replicated := hs.replicated
  dead := hs.dead
  survives := ⟨hs.survives.elected,hs.survives.replaced⟩

theorem Inv.leaderNext {s : State} (hs : Inv s) : Inv (leaderNext s) := by
  have hph := hs.phase
  unfold SnapshotReplication.leaderNext
  split
  · exact hs
  · rename_i halive
    cases hphase : s.phase with
    | free => exact hs
    | locked job =>
      rw [hphase] at hph
      simp only
      split
      · exact hs.setPhase .free trivial
      · exact hs.setPhase (.ready job _) hph
    | ready job peers =>
      rw [hphase] at hph
      exact hs.setPhase (.dumped job peers s.commits) ⟨le_refl _,fun f hf => (hs.file f hf).2,hph⟩
    | dumped job peers n =>
      rw [hphase] at hph
      obtain ⟨hn,hold,hw⟩ := hph
      refine ⟨fun f hf => ?_,hs.rising,fun r hr => ?_,hs.workers,hs.waiting,fun w hjw f hf => ?_,
        hs.replicated,hs.dead,⟨hs.survives.elected,hs.survives.replaced⟩⟩
      · rw [← Option.mem_some.mp hf]
        exact ⟨le_refl _,hn⟩
      · obtain ⟨f,hf,hle⟩ := hs.last r hr
        exact ⟨⟨s.generation+1,n⟩,rfl,le_trans hle ⟨(hs.file f hf).1,hold f hf⟩⟩
      · rw [← Option.mem_some.mp hf]
        exact hw w hjw
    | renamed job peers =>
      rw [hphase] at hph
      refine ⟨fun f hf => ?_,hs.rising,hs.last,hs.workers,hs.waiting,hph,hs.replicated,hs.dead,
        ⟨hs.survives.elected,hs.survives.replaced⟩⟩
      obtain ⟨h1,h2⟩ := hs.file f hf
      exact ⟨le_trans h1 (Nat.le_succ _),h2⟩
    | counted job peers =>
      rw [hphase] at hph
      simp only
      split
      · rename_i write f hwrite hf
        obtain ⟨hr,hc⟩ := hs.readFile f hf
        exact hr.setPhase _ ⟨hc,hph write hwrite f hf⟩
      · exact hs.setPhase .free trivial
    | pushing w copy n peers =>
      rw [hphase] at hph
      cases peers with
      | nil => exact hs.setPhase .free trivial
      | cons peer peers =>
        exact (hs.send peer ⟨s.pushes,copy,n,.sent⟩ hph.1).setPhase _ hph
    | awaiting w copy n push peer peers =>
      rw [hphase] at hph
      simp only
      split
      · refine ⟨hs.file,hs.rising,hs.last,hs.workers,hs.waiting,trivial,fun r hr => ?_,hs.dead,
          ⟨fun e he hd => ?_,hs.survives.replaced⟩⟩
        · rcases List.mem_append.mp hr with hr | hr
          · exact hs.replicated r hr
          · rw [List.mem_singleton.mp hr]
            exact hph
        · have hdead := hs.dead e he hd
          simp [hdead] at halive
      · exact hs

theorem Inv.acceptNext {s : State} (hs : Inv s) (i k : ℕ) (w : Worker) (hw : WorkerOk s.reads w)
    (ho : ∀ a ∈ w.accepts[k]?, AcceptOrderly w a) : Inv (acceptNext i k w s) := by
  unfold SnapshotReplication.acceptNext
  cases ha : w.accepts[k]? with
  | none => exact hs
  | some a =>
    have hra := hw.accepts a (List.mem_of_getElem? ha)
    have hset : ∀ pc, ∀ b ∈ w.accepts.set k { a with pc := pc }, Read s.reads b.copy := by
      intro pc b hb
      rcases List.mem_or_eq_of_mem_set hb with hb | rfl
      · exact hw.accepts b hb
      · exact hra
    have hord := ho a ha
    unfold AcceptOrderly at hord
    simp only
    cases hpc : a.pc with
    | sent => exact hs.setWorker i _ ⟨hw.file,hw.loop,hset _⟩
    | read n =>
      rw [hpc] at hord
      exact hs.writeFile i _ a.copy ⟨hw.file,hw.loop,hset _⟩ hra hord
    | written n => exact hs.setWorker i _ ⟨hw.file,hw.loop,hset _⟩
    | done => exact hs
    | refused => exact hs

theorem Inv.loopNext {s : State} (hs : Inv s) (i : ℕ) (standby : Bool) (w : Worker)
    (hw : WorkerOk s.reads w) (ho : FetchOrderly w) : Inv (loopNext i standby w s) := by
  unfold FetchOrderly at ho
  unfold SnapshotReplication.loopNext
  cases hl : w.loop with
  | acked ack needSnap =>
    refine hs.setWorker i _ ⟨hw.file,fun c hc => ?_,hw.accepts⟩
    simp only at hc
    split at hc <;> simp at hc
  | fetching =>
    simp only
    split
    · rename_i f _ hf
      obtain ⟨hr,hc⟩ := hs.readFile f hf
      have hmono : s.reads <+: (SnapshotReplication.readFile f s).2.reads := List.prefix_append _ _
      refine hr.setWorker i _ ⟨(hw.mono hmono).file,fun c h => ?_,(hw.mono hmono).accepts⟩
      rw [← LoopPc.fetched.inj h]
      exact hc
    · have hwait : Inv { s with waiting := s.waiting++[⟨none⟩] } :=
        hs.setWaiting _ (fun job hj => by
          rcases List.mem_append.mp hj with hj | hj
          · exact hs.waiting job hj
          · rw [List.mem_singleton.mp hj]
            simp)
      exact hwait.setWorker i _ ⟨hw.file,fun _ h => by simp at h,hw.accepts⟩
    · exact hs.setWorker i _ ⟨hw.file,fun _ h => by simp at h,hw.accepts⟩
  | fetched copy =>
    rw [hl] at ho
    exact hs.writeFile i _ copy ⟨hw.file,fun _ h => by simp at h,hw.accepts⟩ (hw.loop copy hl) ho
  | idle => exact hs
  | electing => exact hs

/-- The worker that wins holds every write that was acknowledged. -/
theorem Inv.tryElect {s : State} (hs : Inv s) (i : ℕ) (answered : Bool) (w : Worker)
    (hw : WorkerOk s.reads w) (ho : w.loop = .electing → s.alive = false → wins answered w s →
      ∀ copy ∈ w.file, ∀ r ∈ s.replicated, r.2.serial ≤ copy.serial) :
    Inv (tryElect i answered w s) := by
  unfold SnapshotReplication.tryElect
  split
  · rename_i hl
    split
    · rename_i copy hwins hfile
      have helected : Inv { s with elections := s.elections++[⟨w.id,copy.snapshot,!s.alive⟩] } := by
        refine ⟨hs.file,hs.rising,hs.last,hs.workers,hs.waiting,hs.phase,hs.replicated,fun e he hd => ?_,
          ⟨fun e he hd r hr => ?_,hs.survives.replaced⟩⟩
        · rcases List.mem_append.mp he with he | he
          · exact hs.dead e he hd
          · rw [List.mem_singleton.mp he] at hd
            simpa using hd
        · rcases List.mem_append.mp he with he | he
          · exact hs.survives.elected e he hd r hr
          · rw [List.mem_singleton.mp he] at hd ⊢
            have hdead : s.alive = false := by simpa using hd
            obtain ⟨hread,hlt⟩ := hs.replicated r hr
            have hserial := ho hl hdead hwins copy hfile r hr
            have hle := le_of_index hs.rising hread (hw.file copy hfile) hserial
            exact lt_of_lt_of_le hlt hle.2
      exact helected.setWorker i _ ⟨hw.file,fun _ h => by simp at h,hw.accepts⟩
    · exact hs.setWorker i _ ⟨hw.file,fun _ h => by simp at h,hw.accepts⟩
  · exact hs

theorem Inv.onWorker {s : State} (hs : Inv s) (i : ℕ) (f : Worker → State → State)
    (hf : ∀ w, s.workers[i]? = some w → WorkerOk s.reads w → Inv (f w s)) : Inv (onWorker i f s) := by
  unfold SnapshotReplication.onWorker
  cases hw : s.workers[i]? with
  | none => exact hs
  | some w => exact hf w hw (hs.workers w (List.mem_of_getElem? hw))

/-- More commits change nothing for the jobs under way. -/
theorem PhaseOk.commit {reads : List Snapshot} {commits : ℕ} {file : Option Snapshot}
    {phase : Phase} (h : PhaseOk reads commits file phase) :
    PhaseOk reads (commits+1) file phase := by
  cases phase with
  | free => trivial
  | locked job => exact fun w hw => Nat.lt_succ_of_lt (h w hw)
  | ready job peers => exact fun w hw => Nat.lt_succ_of_lt (h w hw)
  | dumped job peers n => exact ⟨Nat.le_succ_of_le h.1,h.2⟩
  | renamed job peers => exact h
  | counted job peers => exact h
  | pushing w copy n peers => exact h
  | awaiting w copy n push peer peers => exact h

theorem Inv.write {s : State} (hs : Inv s) :
    Inv { s with commits := s.commits+1, waiting := s.waiting++[⟨some s.commits⟩] } where
  file f hf := ⟨(hs.file f hf).1,Nat.le_succ_of_le (hs.file f hf).2⟩
  rising := hs.rising
  last := hs.last
  workers := hs.workers
  waiting job hj w hw := by
    rcases List.mem_append.mp hj with hj | hj
    · exact Nat.lt_succ_of_lt (hs.waiting job hj w hw)
    · rw [List.mem_singleton.mp hj] at hw
      rw [← Option.mem_some.mp hw]
      exact Nat.lt_succ_self _
  phase := hs.phase.commit
  replicated := hs.replicated
  dead := hs.dead
  survives := ⟨hs.survives.elected,hs.survives.replaced⟩

theorem step_inv (s : State) (a : Action) (hs : Inv s) (ho : Orderly s a) : Inv (step s a) := by
  cases a with
  | setNodes nodes =>
    exact ⟨hs.file,hs.rising,hs.last,hs.workers,hs.waiting,hs.phase,hs.replicated,hs.dead,
      ⟨hs.survives.elected,hs.survives.replaced⟩⟩
  | write =>
    simp only [step]
    split
    · exact hs.write
    · exact hs
  | refresh =>
    refine hs.setWaiting _ (fun job hj => ?_)
    rcases List.mem_append.mp hj with hj | hj
    · exact hs.waiting job hj
    · rw [List.mem_singleton.mp hj]
      simp
  | acquire k =>
    simp only [step]
    split
    · rename_i job _ hjob
      have hw := hs.waiting job (List.mem_of_getElem? hjob)
      exact (hs.setPhase (.locked job) hw).setWaiting _
        (fun j hj => hs.waiting j (List.eraseIdx_subset hj))
    · exact hs
  | leaderNext => exact hs.leaderNext
  | giveUp => exact hs.setPhase .free trivial
  | pushFailed =>
    have hph := hs.phase
    simp only [step, SnapshotReplication.pushFailed]
    split
    · rename_i w copy n _ _ peers hphase
      rw [hphase] at hph
      exact hs.setPhase (.pushing w copy n peers) hph
    · exact hs
  | die =>
    exact ⟨hs.file,hs.rising,hs.last,hs.workers,hs.waiting,hs.phase,hs.replicated,fun _ _ _ => rfl,
      ⟨hs.survives.elected,hs.survives.replaced⟩⟩
  | heartbeat i due =>
    refine hs.onWorker i _ (fun w _ hw => ?_)
    unfold SnapshotReplication.heartbeat
    split
    · exact hs.setWorker i _ ⟨hw.file,fun _ h => by simp at h,hw.accepts⟩
    · exact hs
  | loopNext i standby => exact hs.onWorker i _ (fun w hi hw => hs.loopNext i standby w hw (ho w hi))
  | loopFails i =>
    exact hs.onWorker i _ (fun w _ hw => hs.setWorker i _ ⟨hw.file,fun _ h => by simp at h,hw.accepts⟩)
  | acceptNext i k => exact hs.onWorker i _ (fun w hi hw => hs.acceptNext i k w hw (ho w hi))
  | missHeartbeat i =>
    refine hs.onWorker i _ (fun w _ hw => ?_)
    unfold SnapshotReplication.missHeartbeat
    split
    · split
      · exact hs.setWorker i _ ⟨hw.file,hw.loop,hw.accepts⟩
      · exact hs.setWorker i _ ⟨hw.file,fun _ h => by simp at h,hw.accepts⟩
    · exact hs
  | tryElect i answered => exact hs.onWorker i _ (fun w hi hw => hs.tryElect i answered w hw (ho w hi))

/-- Over every orderly run the replicated writes survive the failover, and the
files of the workers never go back. -/
theorem survives_of_orderly (self : NodeId) (ids : List NodeId) (acts : List Action)
    (hg : Guarded step Orderly acts (start self ids)) : Survives (run step acts (start self ids)) :=
  (guarded_invariant step Orderly Inv step_inv acts _ (start_inv self ids) hg).survives

def worker (id : NodeId) : ClusterNode := ⟨id,.worker,true,false,"w",false⟩

/-- A write is pushed to the first peer, the worker at index `i`, and answered. -/
def replicate (i k : ℕ) : List Action :=
  [Action.write,.acquire 0]++List.replicate 6 Action.leaderNext++List.replicate 3 (Action.acceptNext i k)++[Action.leaderNext]

def fetch (i : ℕ) : List Action := .heartbeat i true::List.replicate 3 (.loopNext i false)

def failover (i : ℕ) : List Action :=
  Action.die::List.replicate 4 (Action.missHeartbeat i)++[Action.tryElect i false]

/-- The first worker of the list is also the smallest, and receives the copies. -/
def sameOrder : List Action :=
  [Action.setNodes [worker 1,worker 2]]++replicate 0 0++fetch 0++fetch 1++replicate 0 1++failover 0

theorem same_order_survives :
    (run step sameOrder (start 0 [1,2])).elections.map Election.snapshot = [⟨2,2⟩] ∧
    Guarded step Orderly sameOrder (start 0 [1,2]) ∧
    Survives (run step sameOrder (start 0 [1,2])) :=
  have hg : Guarded step Orderly sameOrder (start 0 [1,2]) := by decide +kernel
  ⟨by decide +kernel,hg,survives_of_orderly 0 [1,2] sameOrder hg⟩

/-- The list of the leader starts with the second worker, which receives the
last copy; the smallest one elects itself. -/
def otherOrder : List Action :=
  [Action.setNodes [worker 2,worker 1]]++replicate 1 0++fetch 0++replicate 1 1++failover 0

theorem other_order_loses_write :
    ¬ ∀ (self : NodeId) (ids : List NodeId) (acts : List Action),
      Survives (run step acts (start self ids)) := by
  intro h
  have hlost : ¬ ∀ e ∈ (run step otherOrder (start 0 [1,2])).elections, e.leaderDead →
      ∀ r ∈ (run step otherOrder (start 0 [1,2])).replicated, r.1 < e.snapshot.commits := by decide +kernel
  exact hlost (h 0 [1,2] otherOrder).elected

end DevForge.SnapshotSurvival
