import DevForge.AgentTurns

/-!
# Every completed turn was answered by its own run

What each piece may do to the rows, what each place of a task says about the
run it works for, and the run rule for orderly turns.
-/

set_option autoImplicit false

namespace DevForge.TurnReplies
open AgentRuns AgentTurns Transition

/-- The messages of the runs stand in the threads of their agents. -/
structure Sound (db : Db) : Prop where
  ids : ∀ k m, db.messages.get k = some m → m.id < db.nextMessageId
  thread : ∀ k r, db.runs.get k = some r →
    ∃ m, db.messages.get r.messageUuid = some m ∧ m.agentUuid = r.agentUuid
  unique : ∀ k k' r r', db.runs.get k = some r → db.runs.get k' = some r' →
    r.messageUuid = r'.messageUuid → k = k'

/-- What a piece may do to the rows: messages stay, runs keep their message
and their agent, closed rows stay, and at most `ks` become completed. -/
structure Change (db db' : Db) (ks : List Uuid) : Prop where
  sound : Sound db → Sound db'
  messages : ∀ k m, db.messages.get k = some m → db'.messages.get k = some m
  row : ∀ k r, db.runs.get k = some r → ∃ r', db'.runs.get k = some r' ∧
    r'.messageUuid = r.messageUuid ∧ r'.agentUuid = r.agentUuid ∧
      (r.status.isOpen = false → r' = r)
  completes : ∀ k r', db'.runs.get k = some r' → r'.status = .completed →
    k ∈ ks ∨ db.runs.get k = some r'

theorem Change.agents {db db' : Db} {ks : List Uuid} (hc : Change db db' ks)
    (agents : Table Uuid AgentStatus) : Change db { db' with agents := agents } ks where
  sound h := ⟨(hc.sound h).ids,(hc.sound h).thread,(hc.sound h).unique⟩
  messages := hc.messages
  row := hc.row
  completes := hc.completes

/-- The rule for an UPDATE whose condition asks for an open run. -/
theorem update_change (db : Db) (p : Uuid → AgentRun → Bool) (f : Uuid → AgentRun → AgentRun)
    (ks : List Uuid) (hp : ∀ k r, p k r → r.status.isOpen)
    (hf : ∀ k r, (f k r).messageUuid = r.messageUuid ∧ (f k r).agentUuid = r.agentUuid)
    (hc : ∀ k r, p k r → (f k r).status = .completed → k ∈ ks) :
    Change db { db with runs := db.runs.update p f } ks := by
  have hget : ∀ k r', (db.runs.update p f).get k = some r' → ∃ r, db.runs.get k = some r ∧
      r' = (if p k r then f k r else r) := by
    intro k r' hr'
    rw [Table.get_update, Option.map_eq_some_iff] at hr'
    obtain ⟨r,hr,rfl⟩ := hr'
    exact ⟨r,hr,rfl⟩
  have hsame : ∀ k r, (if p k r then f k r else r).messageUuid = r.messageUuid ∧
      (if p k r then f k r else r).agentUuid = r.agentUuid := by
    intro k r
    split
    · exact hf k r
    · exact ⟨rfl,rfl⟩
  refine ⟨fun hs => ⟨hs.ids,fun k r' hr' => ?_,fun k k' r r' hr hr' hm => ?_⟩,fun _ _ h => h,
    fun k r hr => ?_,fun k r' hr' hdone => ?_⟩
  · obtain ⟨r,hr,rfl⟩ := hget k r' hr'
    rw [(hsame k r).1, (hsame k r).2]
    exact hs.thread k r hr
  · obtain ⟨q,hq,rfl⟩ := hget k r hr
    obtain ⟨q',hq',rfl⟩ := hget k' r' hr'
    rw [(hsame k q).1, (hsame k' q').1] at hm
    exact hs.unique k k' q q' hq hq' hm
  · refine ⟨if p k r then f k r else r,by simp [Table.get_update, hr],(hsame k r).1,(hsame k r).2,
      fun hclosed => ?_⟩
    have hn : p k r = false := by
      by_contra h
      simp [hp k r (by simpa using h)] at hclosed
    simp [hn]
  · obtain ⟨r,hr,rfl⟩ := hget k r' hr'
    split at hdone
    · exact Or.inl (hc k r ‹_› hdone)
    · exact Or.inr (by simp_all)

theorem tryClaimAs_change (run owner : Uuid) (now : Instant) (db : Db) :
    Change db (tryClaimAs run owner now db).2 [] :=
  update_change db _ _ _ (fun _ _ h => by
      simp only [Bool.and_eq_true, decide_eq_true_eq] at h
      simp [h.2, RunStatus.isOpen])
    (fun _ _ => ⟨rfl,rfl⟩) (fun _ _ _ h => by simp [AgentRun.claimed] at h)

theorem renewLease_change (run owner : Uuid) (now : Instant) (db : Db) :
    Change db (renewLease run owner now db).2 [] :=
  update_change db _ _ _ (fun _ _ h => by
      simp only [holdsLease, Bool.and_eq_true, decide_eq_true_eq] at h
      simp [h.2.1, RunStatus.isOpen])
    (fun _ _ => ⟨rfl,rfl⟩) (fun _ r h hs => by
      simp only [holdsLease, Bool.and_eq_true, decide_eq_true_eq] at h
      simp [h.2.1] at hs)

theorem expired_open {includeUnleased : Bool} {now : Instant} {r : AgentRun}
    (h : expired includeUnleased now r) : r.status.isOpen := by
  simp only [expired, Bool.and_eq_true, decide_eq_true_eq] at h
  simp [h.1, RunStatus.isOpen]

theorem recoverFailed_change (includeUnleased : Bool) (now : Instant) (db : Db) :
    Change db (recoverFailed includeUnleased now db).2 [] :=
  (update_change db (fun _ => beyondRecovery db includeUnleased now)
    (fun _ => AgentRun.interrupted now) [] (fun _ _ h => by
      simp only [beyondRecovery, Bool.and_eq_true] at h
      exact expired_open h.1)
    (fun _ _ => ⟨rfl,rfl⟩) (fun _ _ _ h => by simp [AgentRun.interrupted] at h)).agents _

theorem recoverRequeued_change (includeUnleased : Bool) (now : Instant) (db : Db) :
    Change db (recoverRequeued includeUnleased now db).2 [] :=
  update_change db _ _ _ (fun _ _ h => expired_open h)
    (fun _ _ => ⟨rfl,rfl⟩) (fun _ _ _ h => by simp [AgentRun.requeued] at h)

theorem finish_change (run : Uuid) (status : EndStatus) (error : Option String) (now : Instant)
    (db : Db) (ks : List Uuid) (hk : status = .completed → run ∈ ks) :
    Change db (finish run status error now db) ks :=
  update_change db _ _ _ (fun _ _ h => by
      simp only [Bool.and_eq_true] at h
      exact h.2)
    (fun _ _ => ⟨rfl,rfl⟩) (fun k r h hs => by
      simp only [Bool.and_eq_true, decide_eq_true_eq] at h
      rw [h.1]
      exact hk (by cases status <;> simp_all [AgentRun.ended, EndStatus.toRun]))

theorem insertMessage_change (uuid project agent : Uuid) (role : Role) (content : String)
    (now : Instant) (db : Db) (hnew : uuid ∉ db.messages.keys) :
    Change db (insertMessage uuid project agent role content now db) [] where
  sound hs := by
    have hold : ∀ k m, db.messages.get k = some m →
        (insertMessage uuid project agent role content now db).messages.get k = some m := by
      intro k m hm
      have hne : k ≠ uuid := by
        rintro rfl
        simp [(Table.get_none_iff db.messages k).mpr hnew] at hm
      simp [insertMessage, Table.get_insert, hne, hm]
    refine ⟨fun k m hm => ?_,fun k r hr => ?_,hs.unique⟩
    · simp only [insertMessage, Table.get_insert] at hm ⊢
      split at hm
      · rw [← Option.some.inj hm]
        exact Nat.lt_succ_self _
      · exact Nat.lt_succ_of_lt (hs.ids k m hm)
    · obtain ⟨m,hm,ha⟩ := hs.thread k r hr
      exact ⟨m,hold _ m hm,ha⟩
  messages k m hm := by
    have hne : k ≠ uuid := by
      rintro rfl
      simp [(Table.get_none_iff db.messages k).mpr hnew] at hm
    simp [insertMessage, Table.get_insert, hne, hm]
  row _ r hr := ⟨r,hr,rfl,rfl,fun _ => rfl⟩
  completes _ _ hr _ := Or.inr hr

theorem runOf_none {message : Uuid} {db : Db} (h : runOf message db = none) :
    ∀ k r, db.runs.get k = some r → r.messageUuid ≠ message := by
  intro k r hr he
  simp only [runOf, Option.map_eq_none_iff, List.find?_eq_none, decide_eq_true_eq] at h
  exact h (k,r) ((Table.mem_iff_get _ k r).mpr hr) he

theorem runOf_some {message run : Uuid} {db : Db} (h : runOf message db = some run) :
    ∃ r, db.runs.get run = some r ∧ r.messageUuid = message := by
  obtain ⟨e,he,rfl⟩ := Option.map_eq_some_iff.mp h
  have hm := List.find?_some he
  exact ⟨e.2,(Table.mem_iff_get _ _ _).mp (List.mem_of_find?_eq_some he),of_decide_eq_true hm⟩

/-- The run of a message is the one that has it. -/
theorem runOf_eq {db : Db} (hs : Sound db) {run : Uuid} {r : AgentRun}
    (hr : db.runs.get run = some r) : runOf r.messageUuid db = some run := by
  cases h : runOf r.messageUuid db with
  | none => exact absurd rfl (runOf_none h run r hr)
  | some run' =>
    obtain ⟨r',hr',hm⟩ := runOf_some h
    rw [hs.unique run' run r' r hr' hr hm]

def HasRow (db : Db) (run message agent : Uuid) : Prop :=
  ∃ r, db.runs.get run = some r ∧ r.messageUuid = message ∧ r.agentUuid = agent

def InThread (db : Db) (message agent : Uuid) : Prop :=
  ∃ m, db.messages.get message = some m ∧ m.agentUuid = agent

def HasRun (db : Db) (message : Uuid) : Prop :=
  ∃ k r, db.runs.get k = some r ∧ r.messageUuid = message

def Closed (db : Db) (run : Uuid) : Prop :=
  ∃ r, db.runs.get run = some r ∧ r.status.isOpen = false

def Replied (replies : List (Uuid × Uuid)) (run : Uuid) : Prop := ∃ e ∈ replies, e.1 = run

/-- The run that `insertRun` added, in the thread of its message. -/
theorem insertRun_change (fresh project agent message : Uuid) (now : Instant) (db : Db)
    (ht : InThread db message agent) (h : (insertRun fresh project agent message now db).1) :
    Change db (insertRun fresh project agent message now db).2 [] ∧
      HasRow (insertRun fresh project agent message now db).2 fresh message agent := by
  unfold insertRun at h ⊢
  split at h
  · simp at h
  · rename_i hfree
    push Not at hfree
    obtain ⟨hnone,hnew⟩ := hfree
    have hnone := runOf_none (by simpa using hnone)
    rw [if_neg (by simp_all)]
    have hget : ∀ k, (db.runs.insert fresh (AgentRun.new project agent message now)).get k =
        if k = fresh then some (AgentRun.new project agent message now) else db.runs.get k := by
      intro k
      simp [Table.get_insert, hnew]
    have hold : ∀ k r, db.runs.get k = some r → k ≠ fresh := by
      rintro k r hr rfl
      simp [(Table.get_none_iff db.runs k).mpr hnew] at hr
    refine ⟨⟨fun hs => ⟨hs.ids,fun k r hr => ?_,fun k k' r r' hr hr' hm => ?_⟩,fun _ _ h => h,
      fun k r hr => ⟨r,?_,rfl,rfl,fun _ => rfl⟩,fun k r hr hdone => ?_⟩,
      AgentRun.new project agent message now,?_,rfl,rfl⟩
    · simp only [hget] at hr
      split at hr
      · rw [← Option.some.inj hr]
        exact ht
      · exact hs.thread k r hr
    · simp only [hget] at hr hr'
      split at hr <;> split at hr'
      · simp_all
      · exact absurd (hm.symm.trans (congrArg AgentRun.messageUuid (Option.some.inj hr)).symm)
          (hnone k' r' hr')
      · exact absurd (hm.trans (congrArg AgentRun.messageUuid (Option.some.inj hr')).symm)
          (hnone k r hr)
      · exact hs.unique k k' r r' hr hr' hm
    · rw [hget, if_neg (hold k r hr), hr]
    · simp only [hget] at hr
      split at hr
      · rw [← Option.some.inj hr] at hdone
        simp [AgentRun.new] at hdone
      · exact Or.inr hr
    · rw [hget, if_pos rfl]

section Later

variable {db db' : Db} {ks : List Uuid} (hc : Change db db' ks)
include hc

theorem HasRow.change {run message agent : Uuid} (h : HasRow db run message agent) :
    HasRow db' run message agent := by
  obtain ⟨r,hr,hm,ha⟩ := h
  obtain ⟨r',hr',hm',ha',_⟩ := hc.row run r hr
  exact ⟨r',hr',hm'.trans hm,ha'.trans ha⟩

theorem InThread.change {message agent : Uuid} (h : InThread db message agent) :
    InThread db' message agent := by
  obtain ⟨m,hm,ha⟩ := h
  exact ⟨m,hc.messages message m hm,ha⟩

theorem HasRun.change {message : Uuid} (h : HasRun db message) : HasRun db' message := by
  obtain ⟨k,r,hr,hm⟩ := h
  obtain ⟨r',hr',hm',_⟩ := hc.row k r hr
  exact ⟨k,r',hr',hm'.trans hm⟩

theorem Closed.change {run : Uuid} (h : Closed db run) : Closed db' run := by
  obtain ⟨r,hr,ho⟩ := h
  obtain ⟨r',hr',_,_,hsame⟩ := hc.row run r hr
  exact ⟨r',hr',hsame ho ▸ ho⟩

end Later

theorem Replied.mono {replies replies' : List (Uuid × Uuid)} {run : Uuid}
    (hr : replies ⊆ replies') (h : Replied replies run) : Replied replies' run := by
  obtain ⟨e,he,hrun⟩ := h
  exact ⟨e,hr he,hrun⟩

/-- What the place of a task says about the run it works for. -/
def PcOk (db : Db) (replies : List (Uuid × Uuid)) (agent : Uuid) : Pc → Prop
  | .enqueue _ message | .insert _ message => InThread db message agent
  | .check run message | .claim run message | .executing run message =>
    HasRow db run message agent
  | .answered run message | .saved run message _ =>
    HasRow db run message agent ∧ Replied replies run
  | .ended run message => HasRow db run message agent ∧ Closed db run
  | .select | .load _ | .returned => True

/-- A wake works for the message that it inserted. -/
def WakePc (db : Db) (own : Uuid) : Pc → Prop
  | .enqueue true message | .insert true message => message = own
  | .enqueue false message => message = own ∧ HasRun db own
  | .insert false _ | .load _ => False
  | .select => HasRun db own
  | .check _ message | .claim _ message | .executing _ message | .answered _ message
  | .saved _ message _ | .ended _ message => message = own
  | .returned => True

structure TaskOk (db : Db) (replies : List (Uuid × Uuid)) (t : Task) : Prop where
  pc : PcOk db replies t.agent t.pc
  wake : t.origin = .wake → ∃ own, t.own = some own ∧ WakePc db own t.pc

theorem PcOk.change {db db' : Db} {ks : List Uuid} {replies replies' : List (Uuid × Uuid)}
    {agent : Uuid} {pc : Pc} (hc : Change db db' ks) (hr : replies ⊆ replies')
    (h : PcOk db replies agent pc) : PcOk db' replies' agent pc := by
  cases pc with
  | enqueue own message => exact InThread.change hc h
  | insert own message => exact InThread.change hc h
  | check run message => exact HasRow.change hc h
  | claim run message => exact HasRow.change hc h
  | executing run message => exact HasRow.change hc h
  | answered run message => exact ⟨h.1.change hc,h.2.mono hr⟩
  | saved run message status => exact ⟨h.1.change hc,h.2.mono hr⟩
  | ended run message => exact ⟨h.1.change hc,h.2.change hc⟩
  | select => trivial
  | load run => trivial
  | returned => trivial

theorem WakePc.change {db db' : Db} {ks : List Uuid} {own : Uuid} {pc : Pc} (hc : Change db db' ks)
    (h : WakePc db own pc) : WakePc db' own pc := by
  cases pc with
  | enqueue mine message => cases mine with
    | true => exact h
    | false => exact ⟨h.1,HasRun.change hc h.2⟩
  | insert mine message => cases mine <;> exact h
  | select => exact HasRun.change hc h
  | _ => exact h

theorem TaskOk.change {db db' : Db} {ks : List Uuid} {replies replies' : List (Uuid × Uuid)}
    {t : Task} (hc : Change db db' ks) (hr : replies ⊆ replies') (h : TaskOk db replies t) :
    TaskOk db' replies' t where
  pc := h.pc.change hc hr
  wake hw := by
    obtain ⟨own,ho,hp⟩ := h.wake hw
    exact ⟨own,ho,hp.change hc⟩

/-- The same task at another place. -/
theorem TaskOk.move {db : Db} {replies : List (Uuid × Uuid)} {t : Task} (h : TaskOk db replies t)
    (pc : Pc) (hpc : PcOk db replies t.agent pc)
    (hw : ∀ own, t.origin = .wake → t.own = some own → WakePc db own t.pc → WakePc db own pc) :
    TaskOk db replies { t with pc := pc } where
  pc := hpc
  wake ho := by
    obtain ⟨own,hown,hp⟩ := h.wake ho
    exact ⟨own,hown,hw own ho hown hp⟩

def ResumeOk (db : Db) (replies : List (Uuid × Uuid)) : Resume → Prop
  | .off | .failed | .recovered => True
  | .claiming todo => ∀ r ∈ todo, HasRow db r.uuid r.message r.agent
  | .checking run todo =>
    HasRow db run.uuid run.message run.agent ∧ ∀ r ∈ todo, HasRow db r.uuid r.message r.agent
  | .answered run todo => Replied replies run.uuid ∧ ∀ r ∈ todo, HasRow db r.uuid r.message r.agent

theorem ResumeOk.change {db db' : Db} {ks : List Uuid} {replies replies' : List (Uuid × Uuid)}
    {resume : Resume} (hc : Change db db' ks) (hr : replies ⊆ replies')
    (h : ResumeOk db replies resume) : ResumeOk db' replies' resume := by
  cases resume with
  | claiming todo => exact fun r hm => HasRow.change hc (h r hm)
  | checking run todo => exact ⟨HasRow.change hc h.1,fun r hm => HasRow.change hc (h.2 r hm)⟩
  | answered run todo => exact ⟨h.1.mono hr,fun r hm => HasRow.change hc (h.2 r hm)⟩
  | _ => trivial

/-- A reply stands after the message of the run that wrote it. -/
def ReplyOk (db : Db) (e : Uuid × Uuid) : Prop :=
  ∃ r m a, db.runs.get e.1 = some r ∧ db.messages.get r.messageUuid = some m ∧
    db.messages.get e.2 = some a ∧ a.role = .assistant ∧ a.agentUuid = r.agentUuid ∧ m.id < a.id

theorem ReplyOk.change {db db' : Db} {ks : List Uuid} {e : Uuid × Uuid} (hc : Change db db' ks)
    (h : ReplyOk db e) : ReplyOk db' e := by
  obtain ⟨r,m,a,hr,hm,ha,hrole,hagent,hlt⟩ := h
  obtain ⟨r',hr',hm',ha',_⟩ := hc.row e.1 r hr
  exact ⟨r',m,a,hr',hm' ▸ hc.messages _ m hm,hc.messages _ a ha,hrole,hagent.trans ha'.symm,hlt⟩

structure Inv (s : State) : Prop where
  sound : Sound s.db
  tasks : ∀ t ∈ s.tasks, TaskOk s.db s.replies t
  resume : ResumeOk s.db s.replies s.resume
  replies : ∀ e ∈ s.replies, ReplyOk s.db e
  completed : ∀ k r, s.db.runs.get k = some r → r.status = .completed → Replied s.replies k
  wakes : NoneAbandoned s

theorem Inv.answered {s : State} (hs : Inv s) : Answered s := by
  intro k r hr hdone
  obtain ⟨e,he,rfl⟩ := hs.completed k r hr hdone
  obtain ⟨r',m,a,hr',hm,ha,hrest⟩ := hs.replies e he
  rw [Option.some.inj (hr'.symm.trans hr)] at hm hrest
  exact ⟨e,he,rfl,m,a,hm,ha,hrest⟩

theorem start_inv (agents : Table Uuid AgentStatus) (owner : Uuid) :
    Inv (AgentTurns.start agents owner) where
  sound := ⟨fun _ _ h => by simp [AgentTurns.start] at h,fun _ _ h => by simp [AgentTurns.start] at h,
    fun _ _ _ _ h => by simp [AgentTurns.start] at h⟩
  tasks _ h := by simp [AgentTurns.start] at h
  resume := trivial
  replies _ h := by simp [AgentTurns.start] at h
  completed _ _ h := by simp [AgentTurns.start] at h
  wakes _ h := by simp [AgentTurns.start] at h

/-- A piece that changes rows; what it completes has been answered. -/
theorem Inv.db {s : State} (hs : Inv s) (db' : Db) {ks : List Uuid} (hc : Change s.db db' ks)
    (hk : ∀ k ∈ ks, Replied s.replies k) : Inv { s with db := db' } where
  sound := hc.sound hs.sound
  tasks t ht := (hs.tasks t ht).change hc (List.Subset.refl _)
  resume := hs.resume.change hc (List.Subset.refl _)
  replies e he := (hs.replies e he).change hc
  completed k r hr hdone := by
    rcases hc.completes k r hr hdone with h | h
    · exact hk k h
    · exact hs.completed k r h hdone
  wakes := hs.wakes

theorem Inv.setTask {s : State} (hs : Inv s) (i : ℕ) (t : Task) (ht : TaskOk s.db s.replies t) :
    Inv (setTask i t s) where
  sound := hs.sound
  tasks u hu := by
    rcases List.mem_or_eq_of_mem_set hu with hu | rfl
    · exact hs.tasks u hu
    · exact ht
  resume := hs.resume
  replies := hs.replies
  completed := hs.completed
  wakes := hs.wakes

theorem Inv.addTasks {s : State} (hs : Inv s) (ts : List Task)
    (ht : ∀ t ∈ ts, TaskOk s.db s.replies t) : Inv { s with tasks := s.tasks++ts } where
  sound := hs.sound
  tasks u hu := (List.mem_append.mp hu).elim (hs.tasks u) (ht u)
  resume := hs.resume
  replies := hs.replies
  completed := hs.completed
  wakes := hs.wakes

theorem Inv.setResume {s : State} (hs : Inv s) (resume : Resume)
    (hr : ResumeOk s.db s.replies resume) : Inv { s with resume := resume } :=
  ⟨hs.sound,hs.tasks,hr,hs.replies,hs.completed,hs.wakes⟩

/-- A task that is not a wake, or a wake whose run is not pending, returns. -/
theorem Inv.leave {s : State} (hs : Inv s) (i : ℕ) (t : Task) (ht : TaskOk s.db s.replies t)
    (hw : t.origin = .wake → ∃ run r, s.db.runs.get run = some r ∧ t.own = some r.messageUuid ∧
      r.status ≠ .pending) : Inv (leave i t s) := by
  have hmove : Inv (AgentTurns.move i t .returned s) :=
    hs.setTask i _ (ht.move .returned trivial (fun _ _ _ _ => trivial))
  unfold AgentTurns.leave
  simp only
  split
  · rename_i message ho hown
    obtain ⟨run,r,hr,hm,hne⟩ := hw ho
    have hmsg : message = r.messageUuid := Option.some.inj (hown.symm.trans hm)
    have hnot : abandoned message (AgentTurns.move i t .returned s) = false := by
      simp [abandoned, AgentTurns.move, AgentTurns.setTask, hmsg, runOf_eq hs.sound hr, Db.status, hr, hne]
    refine ⟨hmove.sound,hmove.tasks,hmove.resume,hmove.replies,hmove.completed,fun w hmem => ?_⟩
    rcases List.mem_append.mp hmem with h | h
    · exact hs.wakes w h
    · rw [List.mem_singleton.mp h]
      exact hnot
  · exact hmove

theorem finish_closes {db : Db} {run message agent : Uuid} (h : HasRow db run message agent)
    (status : EndStatus) (error : Option String) (now : Instant) :
    Closed (finish run status error now db) run := by
  obtain ⟨r,hr,_⟩ := h
  refine ⟨_,by rw [finish_get, hr]; rfl,?_⟩
  by_cases ho : r.status.isOpen
  · simp [ho, AgentRun.ended, EndStatus.not_open]
  · simp [ho]

/-- A row found by its message stands in the thread of the message. -/
theorem hasRow_of_runOf {db : Db} (hs : Sound db) {run message agent : Uuid}
    (h : runOf message db = some run) (ht : InThread db message agent) :
    HasRow db run message agent := by
  obtain ⟨r,hr,rfl⟩ := runOf_some h
  obtain ⟨m,hm,ha⟩ := ht
  obtain ⟨m',hm',ha'⟩ := hs.thread run r hr
  have hmm := Option.some.inj (hm.symm.trans hm')
  exact ⟨r,hr,rfl,by rw [← ha', ← hmm, ha]⟩

theorem HasRow.hasRun {db : Db} {run message agent : Uuid} (h : HasRow db run message agent) :
    HasRun db message := by
  obtain ⟨r,hr,hm,_⟩ := h
  exact ⟨run,r,hr,hm⟩

theorem newest_mem (l : List (Uuid × AgentMessage)) (best e : Option (Uuid × AgentMessage)) :
    l.foldl (fun best e => if best.all (fun b => b.2.id < e.2.id) then some e else best) best = e →
      e = best ∨ ∃ x ∈ l, e = some x := by
  induction l generalizing best with
  | nil => exact fun h => Or.inl h.symm
  | cons a l ih =>
    intro h
    rcases ih _ h with h' | ⟨x,hx,h'⟩
    · beta_reduce at h'
      split at h'
      · exact Or.inr ⟨a,by simp,h'⟩
      · exact Or.inl h'
    · exact Or.inr ⟨x,List.mem_cons_of_mem _ hx,h'⟩

theorem lastUserMessage_inThread {agent message : Uuid} {db : Db}
    (h : lastUserMessage agent db = some message) : InThread db message agent := by
  obtain ⟨e,he,rfl⟩ := Option.map_eq_some_iff.mp h
  rcases newest_mem _ none _ he with h' | ⟨x,hx,h'⟩
  · simp at h'
  · obtain ⟨hm,hp⟩ := List.mem_filter.mp hx
    rw [Option.some.inj h']
    simp only [Bool.and_eq_true, decide_eq_true_eq] at hp
    exact ⟨x.2,(Table.mem_iff_get _ _ _).mp hm,hp.1⟩

theorem loadRun_some {run : Uuid} {db : Db} {r : RunRow} (h : loadRun run db = some r) :
    r.uuid = run ∧ HasRow db run r.message r.agent := by
  obtain ⟨row,hrow,h⟩ := Option.bind_eq_some_iff.mp h
  obtain ⟨m,_,rfl⟩ := Option.map_eq_some_iff.mp h
  exact ⟨rfl,row,hrow,rfl,rfl⟩

/-- The place after the caller's own message was enqueued. -/
theorem afterOwn_ok {db : Db} (replies : List (Uuid × Uuid)) (t : Task) {run message : Uuid}
    (h : HasRow db run message t.agent) : PcOk db replies t.agent (afterOwn t run message) ∧
      ∀ own, message = own → WakePc db own (afterOwn t run message) := by
  unfold afterOwn
  split
  · exact ⟨h,fun _ he => he⟩
  · exact ⟨trivial,fun _ he => he ▸ h.hasRun⟩

/-- A claim that fails finds the run not pending. -/
theorem tryClaimAs_lost {db : Db} {run owner : Uuid} {now : Instant} {r : AgentRun}
    (hr : db.runs.get run = some r) (h : ¬(tryClaimAs run owner now db).1) :
    (tryClaimAs run owner now db).2.runs.get run = some r ∧ r.status ≠ .pending := by
  have hne : r.status ≠ .pending := by simpa [tryClaimAs, Db.status, hr] using h
  exact ⟨by simp [tryClaimAs, Table.get_update, hr, hne],hne⟩

theorem Inv.next {s : State} (hs : Inv s) (i : ℕ) (t : Task) (fresh : Uuid)
    (ht : TaskOk s.db s.replies t) (ho : TurnOrderly s t) : Inv (AgentTurns.next i t fresh s) := by
  obtain ⟨origin,project,agent,own,pc⟩ := t
  have hpc := ht.pc
  have hwake := ht.wake
  simp only at hpc hwake
  unfold AgentTurns.next
  cases pc with
  | enqueue mine message =>
    simp only
    cases hrun : runOf message s.db with
    | some run =>
      have hrow := hasRow_of_runOf hs.sound hrun hpc
      cases mine with
      | true =>
        obtain ⟨h1,h2⟩ := afterOwn_ok s.replies
          ⟨origin,project,agent,own,.enqueue true message⟩ hrow
        exact hs.setTask i _ (ht.move _ h1 (fun own _ _ he => h2 own he))
      | false => exact hs.setTask i _ (ht.move (.check run message) hrow (fun _ _ _ hw => hw.1))
    | none =>
      refine hs.setTask i _ (ht.move (.insert mine message) hpc (fun own' _ _ hw => ?_))
      cases mine with
      | true => exact hw
      | false =>
        obtain ⟨rfl,k,r,hr,hm⟩ := hw
        exact runOf_none hrun k r hr hm
  | insert mine message =>
    simp only
    split
    · exact hs
    · rename_i hfresh
      split
      · rename_i hins
        obtain ⟨hc,hrow⟩ := insertRun_change fresh project agent message s.now s.db hpc hins
        have ht' := ht.change hc (List.Subset.refl _)
        have hdb := hs.db _ hc (by simp)
        cases mine with
        | true =>
          obtain ⟨h1,h2⟩ := afterOwn_ok s.replies
            ⟨origin,project,agent,own,.insert true message⟩ hrow
          exact hdb.setTask i _ (ht'.move _ h1 (fun own _ _ he => h2 own he))
        | false => exact hdb.setTask i _ (ht'.move (.check fresh message) hrow (fun _ _ _ hw => hw.elim))
      · rename_i hins
        split
        · rename_i hmine
          obtain ⟨rfl,_⟩ := hmine
          -- the message has a run already
          refine hs.setTask i _ (ht.move .select trivial (fun own' _ _ hw => ?_))
          have hsome : (runOf message s.db).isSome := by
            by_contra hn
            exact hins (by simp [insertRun, hn, hfresh])
          obtain ⟨run,hrun⟩ := Option.isSome_iff_exists.mp hsome
          obtain ⟨r,hr,hm⟩ := runOf_some hrun
          exact ⟨run,r,hr,hm.trans hw⟩
        · rename_i hmine
          refine hs.leave i _ ht (fun ho' => ?_)
          obtain ⟨own',_,hw⟩ := hwake ho'
          cases mine with
          | true => exact absurd ⟨rfl,ho'⟩ hmine
          | false => exact hw.elim
  | select =>
    simp only
    cases hlast : lastUserMessage agent s.db with
    | some message =>
      refine hs.setTask i _ (ht.move (.enqueue false message) (lastUserMessage_inThread hlast)
        (fun own' ho' hown hw => ?_))
      have hsel : some message = own := hlast ▸ ho ho'
      simp only at hown
      have hmo : message = own' := Option.some.inj (hsel.trans hown)
      exact ⟨hmo,hw⟩
    | none =>
      refine hs.leave i _ ht (fun ho' => ?_)
      obtain ⟨own',hown,_⟩ := hwake ho'
      have hsel : none = own := hlast ▸ ho ho'
      simp [← hsel] at hown
  | check run message =>
    simp only
    split
    · rename_i hrep
      have hr : Replied s.replies run := by
        obtain ⟨e,he,hrun⟩ := List.any_eq_true.mp (ho hrep)
        exact ⟨e,he,of_decide_eq_true hrun⟩
      exact hs.setTask i _ (ht.move (.answered run message) ⟨hpc,hr⟩ (fun _ _ _ hw => hw))
    · exact hs.setTask i _ (ht.move (.claim run message) hpc (fun _ _ _ hw => hw))
  | answered run message =>
    have hc := finish_change run .completed none s.now s.db [run] (fun _ => by simp)
    have hdb := hs.db _ hc (fun k hk => List.mem_singleton.mp hk ▸ hpc.2)
    exact hdb.setTask i _ ((ht.change hc (List.Subset.refl _)).move (.ended run message)
      ⟨hpc.1.change hc,finish_closes hpc.1 _ _ _⟩ (fun _ _ _ hw => hw))
  | load run =>
    simp only
    cases hload : loadRun run s.db with
    | some r =>
      obtain ⟨_,hrow⟩ := loadRun_some hload
      exact hs.setTask i _ ⟨hrow,fun ho' => by
        obtain ⟨_,_,hw⟩ := hwake ho'
        exact hw.elim⟩
    | none =>
      refine hs.leave i _ ht (fun ho' => ?_)
      obtain ⟨_,_,hw⟩ := hwake ho'
      exact hw.elim
  | claim run message =>
    have hc := tryClaimAs_change run s.owner s.now s.db
    have hdb := hs.db _ hc (by simp)
    have ht' := ht.change hc (List.Subset.refl _)
    simp only
    split
    · exact hdb.setTask i _ (ht'.move (.executing run message) (HasRow.change hc hpc) (fun _ _ _ hw => hw))
    · rename_i hlost
      refine hdb.leave i _ ht' (fun ho' => ?_)
      obtain ⟨own',hown,hw⟩ := hwake ho'
      obtain ⟨r,hr,hm,_⟩ := hpc
      obtain ⟨hr',hne⟩ := tryClaimAs_lost hr hlost
      exact ⟨run,r,hr',hown.trans (congrArg some (hm.trans hw).symm),hne⟩
  | executing run message => exact hs
  | saved run message status =>
    have hc := (finish_change run status none s.now s.db [run] (fun _ => by simp)).agents
      (setAgentStatus agent .idle (finish run status none s.now s.db)).agents
    have hdb := hs.db _ hc (fun k hk => List.mem_singleton.mp hk ▸ hpc.2)
    exact hdb.setTask i _ ((ht.change hc (List.Subset.refl _)).move (.ended run message)
      ⟨hpc.1.change hc,finish_closes hpc.1 _ _ _⟩ (fun _ _ _ hw => hw))
  | ended run message =>
    refine hs.leave i _ ht (fun ho' => ?_)
    obtain ⟨own',hown,hw⟩ := hwake ho'
    obtain ⟨⟨r,hr,hm,_⟩,r',hr',hclosed⟩ := hpc
    have hrr := Option.some.inj (hr.symm.trans hr')
    exact ⟨run,r,hr,hown.trans (congrArg some (hm.trans hw).symm),
      (RunStatus.closed_ne (hrr ▸ hclosed)).1⟩
  | returned => exact hs

/-- The execution of a run writes its reply after the run's message. -/
theorem Inv.reply {s : State} (hs : Inv s) (i : ℕ) (t : Task) (uuid : Uuid) (content : String)
    (status : EndStatus) (ht : TaskOk s.db s.replies t) :
    Inv (AgentTurns.reply i t uuid content status s) := by
  obtain ⟨origin,project,agent,own,pc⟩ := t
  unfold AgentTurns.reply
  split
  · rename_i run message hpc
    simp only at hpc
    subst hpc
    simp only
    split
    · exact hs
    · rename_i hnew
      push Not at hnew
      have hc := insertMessage_change uuid project agent .assistant content s.now s.db hnew.1
      have hrow : HasRow s.db run message agent := ht.pc
      obtain ⟨r,hr,hmsg,hagent⟩ := id hrow
      obtain ⟨m,hm,_⟩ := hs.sound.thread run r hr
      have hnewrow : (insertMessage uuid project agent .assistant content s.now s.db).messages.get uuid =
          some ⟨s.db.nextMessageId,project,agent,.assistant,content,s.now⟩ := by
        simp [insertMessage, Table.get_insert, hnew.1]
      have hreply : ReplyOk (insertMessage uuid project agent .assistant content s.now s.db) (run,uuid) :=
        ⟨r,m,_,hr,hc.messages _ m hm,hnewrow,rfl,hagent.symm,hs.sound.ids _ m hm⟩
      have hsub : s.replies ⊆ s.replies++[(run,uuid)] := List.subset_append_left _ _
      have hs' : Inv { s with
          db := insertMessage uuid project agent .assistant content s.now s.db
          replies := s.replies++[(run,uuid)] } := by
        refine ⟨hc.sound hs.sound,fun u hu => (hs.tasks u hu).change hc hsub,hs.resume.change hc hsub,
          fun e he => ?_,fun k r hr hdone => ?_,hs.wakes⟩
        · rcases List.mem_append.mp he with he | he
          · exact (hs.replies e he).change hc
          · exact List.mem_singleton.mp he ▸ hreply
        · rcases hc.completes k r hr hdone with h | h
          · simp at h
          · exact (hs.completed k r h hdone).mono hsub
      exact hs'.setTask i _ ((ht.change hc hsub).move (.saved run message status)
        ⟨HasRow.change hc hrow,(run,uuid),by simp,rfl⟩ (fun _ _ _ hw => hw))
  · exact hs

theorem Inv.fail {s : State} (hs : Inv s) (i : ℕ) (t : Task) (error : String)
    (ht : TaskOk s.db s.replies t) : Inv (AgentTurns.fail i t error s) := by
  obtain ⟨origin,project,agent,own,pc⟩ := t
  unfold AgentTurns.fail
  split
  · rename_i run message hpc
    simp only at hpc
    subst hpc
    have hrow : HasRow s.db run message agent := ht.pc
    have hc := (finish_change run .failed (some error) s.now s.db [] (by simp)).agents
      (failRun run agent error s.now s.db).agents
    have hdb := hs.db (failRun run agent error s.now s.db) hc (by simp)
    exact hdb.setTask i _ ((ht.change hc (List.Subset.refl _)).move (.ended run message)
      ⟨hrow.change hc,finish_closes hrow _ _ _⟩ (fun _ _ _ hw => hw))
  · exact hs

theorem Inv.say {s : State} (hs : Inv s) (origin : Origin) (uuid project agent : Uuid)
    (content : String) : Inv (AgentTurns.say origin uuid project agent content s) := by
  unfold AgentTurns.say
  split
  · exact hs
  · rename_i hnew
    have hc := (insertMessage_change uuid project agent .user content s.now s.db hnew).agents
      (setAgentStatus agent .working
        (insertMessage uuid project agent .user content s.now s.db)).agents
    have hdb := hs.db (setAgentStatus agent .working
      (insertMessage uuid project agent .user content s.now s.db)) hc (by simp)
    have hin : InThread (setAgentStatus agent .working
        (insertMessage uuid project agent .user content s.now s.db)) uuid agent :=
      ⟨⟨s.db.nextMessageId,project,agent,.user,content,s.now⟩,
        by simp [setAgentStatus, insertMessage, Table.get_insert, hnew],rfl⟩
    refine hdb.addTasks [⟨origin,project,agent,some uuid,.enqueue true uuid⟩] (fun t ht => ?_)
    rw [List.mem_singleton.mp ht]
    exact ⟨hin,fun _ => ⟨uuid,rfl,rfl⟩⟩

theorem pendingStart_ok {db : Db} {replies : List (Uuid × Uuid)} (runs : List Uuid) :
    ∀ t ∈ runs.filterMap (pendingStart db), TaskOk db replies t := by
  intro t ht
  obtain ⟨run,_,h⟩ := List.mem_filterMap.mp ht
  obtain ⟨r,_,rfl⟩ := Option.map_eq_some_iff.mp h
  exact ⟨trivial,fun ho => by simp at ho⟩

theorem Inv.watch {s : State} (hs : Inv s) : Inv (AgentTurns.watch s) := by
  unfold AgentTurns.watch
  split
  · exact hs
  · split
    · have hdb := hs.db _ (recoverRequeued_change false s.now s.db) (by simp)
      have h := hdb.addTasks _ (pendingStart_ok (recoverRequeued false s.now s.db).1)
      exact ⟨h.sound,h.tasks,h.resume,h.replies,h.completed,h.wakes⟩
    · have h := hs.db _ (recoverFailed_change false s.now s.db) (by simp)
      exact ⟨h.sound,h.tasks,h.resume,h.replies,h.completed,h.wakes⟩

theorem listPending_ok {db : Db} : ∀ r ∈ listPending db, HasRow db r.uuid r.message r.agent := by
  intro r hr
  obtain ⟨e,_,h⟩ := List.mem_filterMap.mp (List.mem_of_mem_take hr)
  obtain ⟨he,hrow⟩ := loadRun_some h
  rw [he]
  exact hrow

theorem Inv.resumeNext {s : State} (hs : Inv s) (ho : ResumeOrderly s) :
    Inv (AgentTurns.resumeNext s) := by
  unfold AgentTurns.resumeNext
  have hres := hs.resume
  unfold ResumeOrderly at ho
  cases hr : s.resume with
  | off => exact (hs.db _ (recoverFailed_change true s.now s.db) (by simp)).setResume .failed trivial
  | failed =>
    exact (hs.db _ (recoverRequeued_change true s.now s.db) (by simp)).setResume .recovered trivial
  | recovered => exact hs.setResume (.claiming (listPending s.db)) listPending_ok
  | claiming todo =>
    rw [hr] at hres
    cases todo with
    | nil => exact hs
    | cons run todo =>
      have hc := tryClaimAs_change run.uuid s.owner s.now s.db
      have hdb := hs.db _ hc (by simp)
      have hrun : HasRow s.db run.uuid run.message run.agent := hres run (by simp)
      have htodo : ∀ r ∈ todo, HasRow (tryClaimAs run.uuid s.owner s.now s.db).2 r.uuid r.message
          r.agent := fun r hm => HasRow.change hc (hres r (List.mem_cons_of_mem _ hm))
      refine hdb.setResume _ ?_
      split
      · exact ⟨hrun.change hc,htodo⟩
      · exact htodo
  | checking run todo =>
    rw [hr] at hres
    simp only [hr] at ho
    simp only
    split
    · rename_i hrep
      obtain ⟨e,he,hrun⟩ := List.any_eq_true.mp (ho hrep)
      exact hs.setResume (.answered run todo) ⟨⟨e,he,of_decide_eq_true hrun⟩,hres.2⟩
    · have h := hs.addTasks [⟨.started,run.project,run.agent,none,.executing run.uuid run.message⟩]
        (fun t ht => by
          rw [List.mem_singleton.mp ht]
          exact ⟨hres.1,fun ho' => by simp at ho'⟩)
      exact h.setResume (.claiming todo) hres.2
  | answered run todo =>
    rw [hr] at hres
    have hc := finish_change run.uuid .completed none s.now s.db [run.uuid] (fun _ => by simp)
    have hdb := hs.db _ hc (fun k hk => List.mem_singleton.mp hk ▸ hres.1)
    exact hdb.setResume (.claiming todo) (fun r hm => HasRow.change hc (hres.2 r hm))

theorem Inv.onTask {s : State} (hs : Inv s) (i : ℕ) (f : Task → State → State)
    (hf : ∀ t, s.tasks[i]? = some t → TaskOk s.db s.replies t → Inv (f t s)) :
    Inv (AgentTurns.onTask i f s) := by
  unfold AgentTurns.onTask
  cases ht : s.tasks[i]? with
  | none => exact hs
  | some t => exact hf t ht (hs.tasks t (List.mem_of_getElem? ht))

theorem step_inv (s : State) (a : Action) (hs : Inv s) (ho : Orderly s a) : Inv (step s a) := by
  cases a with
  | tick seconds => exact ⟨hs.sound,hs.tasks,hs.resume,hs.replies,hs.completed,hs.wakes⟩
  | chat uuid project agent content => exact hs.say .chat uuid project agent content
  | turn uuid project agent content => exact hs.say .turn uuid project agent content
  | wake uuid project agent marker content =>
    exact hs.say .wake uuid project agent (wakeBody marker content)
  | trigger project agent =>
    refine hs.addTasks [⟨.trigger,project,agent,none,.select⟩] (fun t ht => ?_)
    rw [List.mem_singleton.mp ht]
    exact ⟨trivial,fun h => by simp at h⟩
  | post uuid project agent role content =>
    simp only [step, AgentTurns.post]
    split
    · exact hs
    · exact hs.db _ (insertMessage_change uuid project agent role content s.now s.db ‹_›) (by simp)
  | next i fresh => exact hs.onTask i _ (fun t ht hok => hs.next i t fresh hok (ho t ht))
  | reply i uuid content status => exact hs.onTask i _ (fun t _ hok => hs.reply i t uuid content status hok)
  | fail i error => exact hs.onTask i _ (fun t _ hok => hs.fail i t error hok)
  | renew i =>
    refine hs.onTask i _ (fun t _ _ => ?_)
    unfold AgentTurns.renew
    split
    · exact hs.db _ (renewLease_change _ s.owner s.now s.db) (by simp)
    · exact hs
  | watch => exact hs.watch
  | resumeNext => exact hs.resumeNext ho
  | restart owner =>
    exact ⟨hs.sound,fun _ h => by simp [step, AgentTurns.restart] at h,trivial,hs.replies,hs.completed,
      hs.wakes⟩

/-- Over every orderly run of turns, wakes and resumptions, a run is completed
only with a reply of its own, and no wake leaves its run behind. -/
theorem answered_of_orderly (agents : Table Uuid AgentStatus) (owner : Uuid) (acts : List Action)
    (hg : Guarded step Orderly acts (AgentTurns.start agents owner)) :
    Answered (run step acts (AgentTurns.start agents owner)) ∧
      NoneAbandoned (run step acts (AgentTurns.start agents owner)) :=
  have h := guarded_invariant step Orderly Inv step_inv acts _ (start_inv agents owner) hg
  ⟨h.answered,h.wakes⟩

def oneAgent : Table Uuid AgentStatus := Table.empty.insert 3 .idle

def nexts (n i : ℕ) (fresh : Uuid) : List Action := List.replicate n (.next i fresh)

/-- A chat turn is answered; a wake is cut by a restart and resumed; another
wake goes through. -/
def turnsInOrder : List Action :=
  [Action.chat 1 7 3 "bonjour"]++nexts 3 0 101++[Action.reply 0 11 "salut" .completed]++nexts 2 0 0++
    [Action.wake 2 7 3 "[smoke]" "vérifie"]++nexts 6 1 102++[Action.restart 9,.tick 100]++
    List.replicate 5 Action.resumeNext++[Action.reply 0 12 "vu" .completed]++nexts 2 0 0++
    [Action.wake 4 7 3 "" "encore"]++nexts 6 1 103++[Action.reply 1 13 "rien" .completed]++nexts 2 1 0

theorem turns_in_order_answered :
    (run step turnsInOrder (AgentTurns.start oneAgent 8)).wakes = [(4,false)] ∧
    Guarded step Orderly turnsInOrder (AgentTurns.start oneAgent 8) ∧
    Answered (run step turnsInOrder (AgentTurns.start oneAgent 8)) ∧
    NoneAbandoned (run step turnsInOrder (AgentTurns.start oneAgent 8)) :=
  have hg : Guarded step Orderly turnsInOrder (AgentTurns.start oneAgent 8) := by decide +kernel
  ⟨by decide +kernel,hg,answered_of_orderly oneAgent 8 turnsInOrder hg⟩

/-- A wake inserts its message while a chat turn of the agent executes. -/
def wakeDuringTurn : List Action :=
  [Action.chat 1 7 3 "bonjour"]++nexts 3 0 101++[Action.wake 2 7 3 "" "vérifie"]++nexts 2 1 102++
    [Action.reply 0 11 "salut" .completed]++nexts 4 1 0

theorem wake_during_turn_lost :
    ¬ ∀ (agents : Table Uuid AgentStatus) (owner : Uuid) (acts : List Action),
      Answered (run step acts (AgentTurns.start agents owner)) ∧
        NoneAbandoned (run step acts (AgentTurns.start agents owner)) := by
  intro h
  have hlost : (run step wakeDuringTurn (AgentTurns.start oneAgent 8)).db.status 102 =
      some .completed := by decide +kernel
  obtain ⟨r,hr,hdone⟩ := Option.map_eq_some_iff.mp hlost
  obtain ⟨e,he,hk,_⟩ := (h oneAgent 8 wakeDuringTurn).1 102 r hr hdone
  have hreplies : ∀ e ∈ (run step wakeDuringTurn (AgentTurns.start oneAgent 8)).replies, e.1 ≠ 102 := by
    decide
  exact hreplies e he hk

end DevForge.TurnReplies
