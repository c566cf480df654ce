import DevForge.ClusterLocal

/-!
# An interim leader

The writes that it accepts, its snapshot file and the requests that change its
row of `cluster_local`. A write passes the fence first and commits later, so a
fence that is closed in between does not stop it. Commits are counted, and a
copy of the database holds those made before it.
-/

set_option autoImplicit false

namespace DevForge.InterimLeader
open ClusterLocal

/-- A copy of the database of an interim, by a dump or by a base backup. -/
structure Copy where
  interim : ℕ
  commits : ℕ
  row : LocalClusterState
  deriving DecidableEq, Repr

inductive TaskPc where
  | waiting
  | read (copy : LocalClusterState)
  | done
  /-- Refused, failed or lost. -/
  | refused
  deriving DecidableEq, Repr

/-- A request to the node, or a task of its own: it reads the row and writes
its copy back. -/
structure Task where
  op : Op
  pc : TaskPc
  deriving DecidableEq, Repr

def Task.underWay (t : Task) : Bool := t.pc ≠ .done && t.pc ≠ .refused

structure Interim where
  row : LocalClusterState
  /-- `replication_advertisement` names a host. -/
  replicates : Bool
  commits : ℕ
  /-- Writes that passed the fence and have not committed. -/
  admitted : ℕ
  unanswered : List ℕ
  dumping : Option Copy
  file : Option Copy
  tasks : List Task
  /-- The writes that were acknowledged before the demotion. -/
  acknowledged : List ℕ
  demotedAt : Option ℕ
  deriving Repr

def Interim.start (row : LocalClusterState) (replicates : Bool) : Interim :=
  ⟨row,replicates,0,0,[],none,none,[],[],none⟩

/-- The commits made before the demotion. -/
def Interim.reign (n : Interim) : ℕ := n.demotedAt.getD n.commits

/-- The database as it stands. -/
def Interim.copy (i : ℕ) (n : Interim) : Copy := ⟨i,n.commits,n.row⟩

def Interim.answered (n : Interim) (k : ℕ) : Bool := n.tasks[k]?.any (fun t => t.pc = .done)

def Interim.receive (op : Op) (n : Interim) : Interim :=
  { n with tasks := n.tasks++[⟨op,.waiting⟩] }

def isDemote : Op → Bool
  | .failoverDemote _ => true
  | _ => false

/-- A task reads the row; one whose check fails is refused. -/
def Interim.beginTask (k : ℕ) (n : Interim) : Interim :=
  match n.tasks[k]? with
  | some ⟨op,.waiting⟩ =>
    { n with tasks := n.tasks.set k ⟨op,if op.opens n.row then .read n.row else .refused⟩ }
  | _ => n

/-- What a task leaves behind: a quiesce expires after 120 s. -/
def spawned (op : Op) : List Task :=
  if op = .failoverQuiesce then [⟨.quiesceExpired,.waiting⟩] else []

def Interim.writeTask (k : ℕ) (n : Interim) : Interim :=
  match n.tasks[k]? with
  | some ⟨op,.read copy⟩ => { n with
      row := setLocal (op.apply copy)
      tasks := n.tasks.set k ⟨op,.done⟩ ++ spawned op
      demotedAt := if isDemote op then n.demotedAt.or (some n.commits) else n.demotedAt }
  | _ => n

def Task.stop (t : Task) : Task := if t.underWay then { t with pc := .refused } else t

def Interim.refuseTask (k : ℕ) (n : Interim) : Interim := { n with tasks := n.tasks.modify k Task.stop }

/-- `release_orphan_fence`: the task that would have reopened is gone. -/
def releaseOrphanFence (l : LocalClusterState) : LocalClusterState :=
  if l.writesFenced && l.actingLeader then { l with writesFenced := false } else l

inductive Event where
  /-- `fence_stale_leader`, with a row that can be read or not. -/
  | arrive (readable : Bool)
  | commit
  | answer (k : ℕ)
  | dump
  | rename
  | dumpFails
  | beginTask (k : ℕ)
  | writeTask (k : ℕ)
  | refuseTask (k : ℕ)
  | restart (released : Bool)
  deriving DecidableEq, Repr

def Interim.next (i : ℕ) (n : Interim) : Event → Interim
  | .arrive readable =>
    if readable && n.row.writesFenced then n else { n with admitted := n.admitted+1 }
  | .commit =>
    if n.admitted = 0 then n
    else { n with
      admitted := n.admitted-1
      commits := n.commits+1
      unanswered := n.unanswered++[n.commits] }
  | .answer k => match n.unanswered[k]? with
    | some c => { n with
        unanswered := n.unanswered.eraseIdx k
        acknowledged := if n.demotedAt = none then n.acknowledged++[c] else n.acknowledged }
    | none => n
  | .dump => if n.dumping = none then { n with dumping := some (n.copy i) } else n
  | .rename => match n.dumping with
    | some c => { n.receive .writeClusterSnapshot with dumping := none, file := some c }
    | none => n
  | .dumpFails => { n with dumping := none }
  | .beginTask k => n.beginTask k
  | .writeTask k => n.writeTask k
  | .refuseTask k => n.refuseTask k
  | .restart released => { n with
      row := if released then releaseOrphanFence n.row else n.row
      admitted := 0
      unanswered := []
      dumping := none
      tasks := n.tasks.map Task.stop }

structure Ok (i : ℕ) (n : Interim) : Prop where
  unanswered : ∀ c ∈ n.unanswered, c < n.commits
  acknowledged : ∀ c ∈ n.acknowledged, c < n.reign
  dumping : ∀ c ∈ n.dumping, c.interim = i
  file : ∀ c ∈ n.file, c.interim = i

theorem Ok.start (i : ℕ) (row : LocalClusterState) (replicates : Bool) :
    Ok i (Interim.start row replicates) :=
  ⟨fun _ h => by simp [Interim.start] at h,fun _ h => by simp [Interim.start] at h,
    fun _ h => by simp [Interim.start] at h,fun _ h => by simp [Interim.start] at h⟩

/-- A demotion ends the reign at the commits that there are. -/
theorem writeTask_reign (k : ℕ) (n : Interim) : (n.writeTask k).reign = n.reign := by
  unfold Interim.writeTask
  split
  · simp only [Interim.reign]
    split
    · cases n.demotedAt <;> rfl
    · rfl
  · rfl

theorem beginTask_reign (k : ℕ) (n : Interim) : (n.beginTask k).reign = n.reign := by
  unfold Interim.beginTask
  split <;> rfl

/-- Only a commit before the demotion lengthens the reign. -/
theorem next_reign {i : ℕ} {n : Interim} {e : Event} (h : e = .commit → n.demotedAt ≠ none) :
    (n.next i e).reign = n.reign := by
  cases e with
  | commit =>
    simp only [Interim.next]
    split
    · rfl
    · obtain ⟨m,hm⟩ := Option.ne_none_iff_exists'.mp (h rfl)
      simp [Interim.reign, hm]
  | beginTask k => exact beginTask_reign k n
  | writeTask k => exact writeTask_reign k n
  | arrive readable =>
    simp only [Interim.next]
    split <;> rfl
  | answer k =>
    simp only [Interim.next]
    split <;> rfl
  | dump =>
    simp only [Interim.next]
    split <;> rfl
  | rename =>
    simp only [Interim.next]
    split <;> rfl
  | dumpFails => rfl
  | refuseTask k => rfl
  | restart released => rfl

theorem reign_le_next (i : ℕ) (n : Interim) (e : Event) : n.reign ≤ (n.next i e).reign := by
  by_cases h : e = .commit → n.demotedAt ≠ none
  · exact (next_reign h).ge
  · push Not at h
    obtain ⟨rfl,hd⟩ := h
    simp only [Interim.next]
    split
    · exact le_refl _
    · simp [Interim.reign, hd]

/-- The events of a task leave the writes and the files alone. -/
theorem Ok.task {i : ℕ} {n n' : Interim} (h : Ok i n) (hc : n'.commits = n.commits)
    (hu : n'.unanswered = n.unanswered) (ha : n'.acknowledged = n.acknowledged)
    (hd : n'.dumping = n.dumping) (hf : n'.file = n.file) (hr : n'.reign = n.reign) : Ok i n' where
  unanswered := by rw [hu, hc]; exact h.unanswered
  acknowledged := by rw [ha, hr]; exact h.acknowledged
  dumping := by rw [hd]; exact h.dumping
  file := by rw [hf]; exact h.file

theorem Ok.receive {i : ℕ} {n : Interim} (h : Ok i n) (op : Op) : Ok i (n.receive op) :=
  ⟨h.unanswered,h.acknowledged,h.dumping,h.file⟩

theorem Ok.next {i : ℕ} {n : Interim} (h : Ok i n) (e : Event) : Ok i (n.next i e) := by
  have hle := reign_le_next i n e
  cases e with
  | arrive readable =>
    simp only [Interim.next]
    split
    · exact h
    · exact ⟨h.unanswered,h.acknowledged,h.dumping,h.file⟩
  | commit =>
    simp only [Interim.next] at hle ⊢
    split
    · exact h
    · rename_i hz
      rw [if_neg hz] at hle
      refine ⟨?_,fun c hc => lt_of_lt_of_le (h.acknowledged c hc) hle,h.dumping,h.file⟩
      intro c hc
      rcases List.mem_append.mp hc with hc | hc
      · exact Nat.lt_succ_of_lt (h.unanswered c hc)
      · rw [List.mem_singleton.mp hc]
        exact Nat.lt_succ_self _
  | answer k =>
    simp only [Interim.next]
    split
    · rename_i c hk
      refine ⟨fun d hd => h.unanswered d (List.mem_of_mem_eraseIdx hd),?_,h.dumping,h.file⟩
      intro d hd
      simp only at hd
      split at hd
      · rename_i hnone
        rcases List.mem_append.mp hd with hd | hd
        · exact h.acknowledged d hd
        · rw [List.mem_singleton.mp hd]
          simpa [Interim.reign, hnone] using h.unanswered c (List.mem_of_getElem? hk)
      · exact h.acknowledged d hd
    · exact h
  | dump =>
    simp only [Interim.next]
    split
    · exact ⟨h.unanswered,h.acknowledged,fun c hc => by
        rw [← Option.some.inj hc]; rfl,h.file⟩
    · exact h
  | rename =>
    simp only [Interim.next]
    split
    · rename_i c hc
      exact ⟨h.unanswered,h.acknowledged,fun _ hd => (Option.not_mem_none _ hd).elim,
        fun d hd => by rw [← Option.some.inj hd]; exact h.dumping c hc⟩
    · exact h
  | dumpFails =>
    exact ⟨h.unanswered,h.acknowledged,fun _ hd => (Option.not_mem_none _ hd).elim,h.file⟩
  | beginTask k =>
    simp only [Interim.next, Interim.beginTask]
    split
    · exact ⟨h.unanswered,h.acknowledged,h.dumping,h.file⟩
    · exact h
  | writeTask k =>
    have hr := writeTask_reign k n
    simp only [Interim.next]
    unfold Interim.writeTask at hr ⊢
    split
    · rename_i heq
      rw [heq] at hr
      exact h.task rfl rfl rfl rfl rfl hr
    · exact h
  | refuseTask k => exact ⟨h.unanswered,h.acknowledged,h.dumping,h.file⟩
  | restart released =>
    exact ⟨fun _ hd => by simp [Interim.next] at hd,h.acknowledged,
      fun _ hd => (Option.not_mem_none _ hd).elim,h.file⟩

/-- The operations that close the writes of the node that runs them. -/
def fences : Op → Bool
  | .failoverQuiesce | .reclaimFence _ => true
  | _ => false

/-- A copy is written back fenced by an operation that fences, or by one that
is not meant to change the flag. -/
theorem fenced_apply {op : Op} {l : LocalClusterState} (h : (op.apply l).writesFenced)
    (hf : fences op = false) : op.meant l .writesFenced = false ∧ l.writesFenced := by
  cases op <;> simp_all [Op.apply, Op.meant, fences]

/-- A task that fences and is still under way. -/
def Interim.fencing (n : Interim) (k : ℕ) : Bool :=
  n.tasks[k]?.any (fun t => fences t.op && t.underWay)

/-- A write back of a row whose flag the task is not meant to change. -/
def FlagKept (n : Interim) (t : Task) : Prop :=
  match t.pc with
  | .read copy => t.op.meant copy .writesFenced = false →
      copy.writesFenced = n.row.writesFenced
  | _ => True

instance (n : Interim) (t : Task) : Decidable (FlagKept n t) := by
  unfold FlagKept
  split <;> infer_instance

theorem releaseOrphanFence_fenced {l : LocalClusterState}
    (h : (releaseOrphanFence l).writesFenced) : l.writesFenced := by
  unfold releaseOrphanFence at h
  split at h
  · simp at h
  · exact h

/-- Writes are closed by a fencing task alone. -/
theorem next_fenced {i : ℕ} {n : Interim} {e : Event}
    (hk : ∀ k, e = .writeTask k → ∀ t ∈ n.tasks[k]?, FlagKept n t)
    (h : (n.next i e).row.writesFenced) :
    n.row.writesFenced ∨ ∃ k, e = .writeTask k ∧ n.fencing k := by
  cases e with
  | arrive readable => simp only [Interim.next] at h; split at h <;> exact .inl h
  | commit => simp only [Interim.next] at h; split at h <;> exact .inl h
  | answer k => simp only [Interim.next] at h; split at h <;> exact .inl h
  | dump => simp only [Interim.next] at h; split at h <;> exact .inl h
  | rename => simp only [Interim.next] at h; split at h <;> exact .inl h
  | dumpFails => exact .inl h
  | beginTask k =>
    simp only [Interim.next, Interim.beginTask] at h
    split at h <;> exact .inl h
  | writeTask k =>
    simp only [Interim.next, Interim.writeTask] at h
    split at h
    · rename_i op copy hkt
      cases hf : fences op with
      | true => exact .inr ⟨k,rfl,by simp [Interim.fencing, hkt, hf, Task.underWay]⟩
      | false =>
        obtain ⟨hm,hl⟩ := fenced_apply h hf
        have hrow := hk k rfl _ hkt hm
        exact .inl (by rw [← hrow]; exact hl)
    · exact .inl h
  | refuseTask k => exact .inl h
  | restart released =>
    simp only [Interim.next] at h
    split at h
    · exact .inl (releaseOrphanFence_fenced h)
    · exact .inl h

/-- What a task becomes in one event of the node. -/
def Follows (n : Interim) (e : Event) (k : ℕ) (t t' : Task) : Prop :=
  t'.op = t.op ∧ (t'.underWay → t.underWay) ∧
    (t'.pc = .done → t.pc = .done ∨ ∃ copy, e = .writeTask k ∧ t = ⟨t.op,.read copy⟩ ∧
      n.tasks[k]? = some t)

theorem Follows.refl (n : Interim) (e : Event) (k : ℕ) (t : Task) : Follows n e k t t :=
  ⟨rfl,id,.inl⟩

theorem stop_follows (n : Interim) (e : Event) (k : ℕ) (t : Task) : Follows n e k t t.stop := by
  unfold Task.stop
  split
  · exact ⟨rfl,fun h => by simp [Task.underWay] at h,fun h => by simp at h⟩
  · exact Follows.refl n e k t

/-- A task that the node already has goes on. -/
theorem next_task {i : ℕ} {n : Interim} (e : Event) {k : ℕ} {t : Task} (h : n.tasks[k]? = some t) :
    ∃ t', (n.next i e).tasks[k]? = some t' ∧ Follows n e k t t' := by
  have hlt : k < n.tasks.length := (List.getElem?_eq_some_iff.mp h).1
  have same : ∀ m : Interim, m.tasks = n.tasks →
      ∃ t', m.tasks[k]? = some t' ∧ Follows n e k t t' :=
    fun m hm => ⟨t,by rw [hm]; exact h,Follows.refl n e k t⟩
  cases e with
  | beginTask j =>
    simp only [Interim.next, Interim.beginTask]
    split
    · rename_i op hj
      by_cases hjk : j = k
      · subst hjk
        have ht : t = ⟨op,.waiting⟩ := Option.some.inj (h.symm.trans hj)
        refine ⟨_,List.getElem?_set_self hlt,?_⟩
        subst ht
        refine ⟨rfl,fun _ => rfl,fun hd => ?_⟩
        simp only at hd
        split at hd <;> simp at hd
      · exact ⟨t,by rw [List.getElem?_set_ne hjk]; exact h,Follows.refl _ _ _ t⟩
    · exact same n rfl
  | writeTask j =>
    simp only [Interim.next, Interim.writeTask]
    split
    · rename_i op copy hj
      have hl : k < (n.tasks.set j ⟨op,.done⟩).length := by rwa [List.length_set]
      simp only [List.getElem?_append_left hl]
      by_cases hjk : j = k
      · subst hjk
        have ht : t = ⟨op,.read copy⟩ := Option.some.inj (h.symm.trans hj)
        subst ht
        exact ⟨_,List.getElem?_set_self hlt,rfl,fun hu => by simp [Task.underWay] at hu,
          fun _ => .inr ⟨copy,rfl,rfl,h⟩⟩
      · exact ⟨t,by rw [List.getElem?_set_ne hjk]; exact h,Follows.refl _ _ _ t⟩
    · exact same n rfl
  | refuseTask j =>
    simp only [Interim.next, Interim.refuseTask, List.getElem?_modify, h]
    by_cases hjk : j = k
    · exact ⟨t.stop,by simp [hjk],stop_follows _ _ _ t⟩
    · exact ⟨t,by simp [hjk],Follows.refl _ _ _ t⟩
  | restart released =>
    exact ⟨t.stop,by simp [Interim.next, h],stop_follows _ _ _ t⟩
  | rename =>
    simp only [Interim.next]
    split
    · exact ⟨t,by
        simp only [Interim.receive]
        rw [List.getElem?_append_left hlt]
        exact h,Follows.refl _ _ _ t⟩
    · exact same n rfl
  | arrive readable => simp only [Interim.next]; split <;> exact same _ rfl
  | commit => simp only [Interim.next]; split <;> exact same _ rfl
  | answer j => simp only [Interim.next]; split <;> exact same _ rfl
  | dump => simp only [Interim.next]; split <;> exact same _ rfl
  | dumpFails => exact same _ rfl

/-- A task that the node starts by itself does not fence. -/
theorem next_new_task {i : ℕ} {n : Interim} {e : Event} {k : ℕ} {t : Task}
    (hk : n.tasks[k]? = none) (h : (n.next i e).tasks[k]? = some t) : fences t.op = false := by
  have hle : n.tasks.length ≤ k := List.getElem?_eq_none_iff.mp hk
  have same : ∀ m : Interim, m.tasks = n.tasks → m.tasks[k]? = some t → fences t.op = false := by
    intro m hm hm'
    rw [hm, hk] at hm'
    exact absurd hm' (by simp)
  cases e with
  | beginTask j =>
    simp only [Interim.next, Interim.beginTask] at h
    split at h
    · rw [List.getElem?_eq_none (by rw [List.length_set]; exact hle)] at h
      exact absurd h (by simp)
    · exact same n rfl h
  | writeTask j =>
    simp only [Interim.next, Interim.writeTask] at h
    split at h
    · rename_i op copy hj
      rw [List.getElem?_append_right (by rw [List.length_set]; exact hle)] at h
      have hm := List.mem_of_getElem? h
      simp only [spawned] at hm
      split at hm
      · rw [List.mem_singleton.mp hm]
        rfl
      · simp at hm
    · exact same n rfl h
  | refuseTask j =>
    simp [Interim.next, Interim.refuseTask, List.getElem?_modify, hk] at h
  | restart released => simp [Interim.next, hk] at h
  | rename =>
    simp only [Interim.next] at h
    split at h
    · simp only [Interim.receive] at h
      rw [List.getElem?_append_right hle] at h
      rw [List.mem_singleton.mp (List.mem_of_getElem? h)]
      rfl
    · exact same n rfl h
  | arrive readable => simp only [Interim.next] at h; split at h <;> exact same _ rfl h
  | commit => simp only [Interim.next] at h; split at h <;> exact same _ rfl h
  | answer j => simp only [Interim.next] at h; split at h <;> exact same _ rfl h
  | dump => simp only [Interim.next] at h; split at h <;> exact same _ rfl h
  | dumpFails => exact same _ rfl h

/-- No event of the node puts a fencing task under way. -/
theorem next_fencing {i : ℕ} {n : Interim} {e : Event} {k : ℕ} (h : (n.next i e).fencing k) :
    n.fencing k := by
  simp only [Interim.fencing, Option.any_eq_true] at h
  obtain ⟨t',ht',h⟩ := h
  rw [Bool.and_eq_true] at h
  cases hk : n.tasks[k]? with
  | none => rw [next_new_task hk ht'] at h; exact absurd h.1 (by simp)
  | some t =>
    obtain ⟨t'',ht'',hop,hu,_⟩ := next_task (i := i) e hk
    obtain rfl : t' = t'' := Option.some.inj (ht'.symm.trans ht'')
    simp [Interim.fencing, hk, ← hop, h.1, hu h.2]

/-- A resume that is done has left the writes open. -/
def Interim.Resumes (n : Interim) (k : ℕ) : Prop :=
  ∃ t, n.tasks[k]? = some t ∧ t.op = .failoverResume ∧ (t.pc = .done → n.row.writesFenced = false)

theorem Interim.Resumes.next {i : ℕ} {n : Interim} {e : Event} {k : ℕ} (h : n.Resumes k)
    (hk : ∀ k, e = .writeTask k → ∀ t ∈ n.tasks[k]?, FlagKept n t)
    (hf : ∀ k, n.fencing k = false) : (n.next i e).Resumes k := by
  obtain ⟨t,ht,hop,hd⟩ := h
  obtain ⟨t',ht',hop',_,hdone⟩ := next_task (i := i) e ht
  refine ⟨t',ht',hop'.trans hop,fun hpc => ?_⟩
  rcases hdone hpc with hpc | ⟨copy,rfl,hcopy,_⟩
  · by_contra hrow
    rcases next_fenced hk (by simpa using hrow) with h | ⟨j,_,hj⟩
    · rw [hd hpc] at h
      exact absurd h (by simp)
    · rw [hf j] at hj
      exact absurd hj (by simp)
  · rw [hcopy, hop] at ht
    simp [Interim.next, Interim.writeTask, ht, setLocal, Op.apply]

end DevForge.InterimLeader
