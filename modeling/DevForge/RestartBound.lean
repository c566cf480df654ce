import DevForge.AgentRunFencing

/-!
# How often an interrupted run is restarted

A recovery fails the expired runs that were cut too often, and then puts the expired runs back to
pending. Leases expire, runs are claimed and users pause, resume and retry them between its two
statements. For each run the claims since the last command that took effect are counted.
-/

set_option autoImplicit false

namespace DevForge.RestartBound
open AgentRuns AgentRunFencing Transition

/-- A recovery between its two statements. -/
structure Recovery where
  includeUnleased : Bool
  begun : Instant
deriving DecidableEq, Repr

structure State where
  base : AgentRunFencing.State
  /-- The recoveries, `none` once they have ended. -/
  recoveries : List (Option Recovery)
  /-- The claims of a run since the last command on it. -/
  since : Uuid → ℕ
  /-- The rows that recoveries have changed, with the status they gave them. -/
  touched : List (AgentRun × RunStatus)

def start (now : Instant) (db : Db) : State := ⟨AgentRunFencing.start now db,[],fun _ => 0,[]⟩

inductive Action where
  /-- Anything but a recovery. -/
  | act (a : AgentRunFencing.Action)
  | recoverBegin (includeUnleased : Bool)
  | recoverEnd (recovery : ℕ)
deriving Repr

def isRecovery : AgentRunFencing.Action → Bool
  | .recoverFailed _ | .recoverRequeued _ => true
  | _ => false

/-- The next statement of the call changes its run. -/
def takesEffect (c : ControlCall) (fresh : Uuid) (db : Db) : Bool :=
  match c.phase, (c.next fresh db).1.phase with
  | .done _, _ => false
  | _, .done (.changed _ _) => true
  | _, _ => false

def counted (s : State) (a : AgentRunFencing.Action) (k : Uuid) : ℕ :=
  match a with
  | .tryClaimAs run _ => if k = run && s.base.db.status run = some .pending then s.since k+1 else s.since k
  | .controlNext i fresh =>
    if (s.base.controls[i]?).any (fun c => c.run = k && takesEffect c fresh s.base.db) then 0 else s.since k
  | _ => s.since k

def changedBy (keys : List Uuid) (before after : Db) : List (AgentRun × RunStatus) :=
  keys.filterMap (fun k => (before.runs.get k).bind (fun r => (after.status k).map (fun status => (r,status))))

def recoverBegin (includeUnleased : Bool) (s : State) : State :=
  let r := recoverFailed includeUnleased s.base.now s.base.db
  { s with
    base := AgentRunFencing.step s.base (.recoverFailed includeUnleased)
    recoveries := s.recoveries++[some ⟨includeUnleased,s.base.now⟩]
    touched := s.touched++changedBy r.1 s.base.db r.2 }

def recoverEnd (i : ℕ) (s : State) : State :=
  match s.recoveries[i]? with
  | some (some c) =>
    let r := recoverRequeued c.includeUnleased s.base.now s.base.db
    { s with
      base := AgentRunFencing.step s.base (.recoverRequeued c.includeUnleased)
      recoveries := s.recoveries.set i none
      touched := s.touched++changedBy r.1 s.base.db r.2 }
  | _ => s

def step (s : State) : Action → State
  | .act a => if isRecovery a then s else { s with base := AgentRunFencing.step s.base a, since := counted s a }
  | .recoverBegin includeUnleased => recoverBegin includeUnleased s
  | .recoverEnd i => recoverEnd i s

/-- A run that has used its attempts is failed by a recovery, never put back to pending; and a run
is claimed at most `MAX_ATTEMPTS` times between two commands. -/
structure Bounded (s : State) : Prop where
  failed : ∀ e ∈ s.touched, MAX_ATTEMPTS ≤ e.1.attempts → e.2 = .failed
  claims : ∀ k, s.since k ≤ MAX_ATTEMPTS

/-- No run that has used its attempts expires between the two statements of a recovery. -/
def Orderly (s : State) : Action → Prop
  | .recoverEnd i => ∀ c ∈ (s.recoveries[i]?).join, ∀ e ∈ s.base.db.runs.rows, MAX_ATTEMPTS ≤ e.2.attempts →
      expired c.includeUnleased s.base.now e.2 → expired c.includeUnleased c.begun e.2
  | _ => True

instance (s : State) (a : Action) : Decidable (Orderly s a) := by
  unfold Orderly
  split <;> infer_instance

/-! ## A row -/

/-- What holds of a row, with the count of its claims. -/
structure RowOk (recoveries : List (Option Recovery)) (n : ℕ) (r : AgentRun) : Prop where
  counted : n ≤ r.attempts
  pending : r.status = .pending → n < MAX_ATTEMPTS
  expired : ∀ c, some c ∈ recoveries → r.status = .running → MAX_ATTEMPTS ≤ r.attempts →
    expired c.includeUnleased c.begun r = false

section
variable {recoveries : List (Option Recovery)} {n : ℕ} {r : AgentRun}

theorem RowOk.closed (h : n ≤ r.attempts) (hp : r.status ≠ .pending) (hr : r.status ≠ .running) :
    RowOk recoveries n r := ⟨h,fun hs => absurd hs hp,fun _ _ hs => absurd hs hr⟩

theorem RowOk.mono {m : ℕ} (h : RowOk recoveries n r) (hm : m ≤ n) : RowOk recoveries m r :=
  ⟨Nat.le_trans hm h.counted,fun hs => Nat.lt_of_le_of_lt hm (h.pending hs),h.expired⟩

theorem RowOk.waiting (h : n ≤ r.attempts) (hn : n < MAX_ATTEMPTS) (hr : r.status ≠ .running) :
    RowOk recoveries n r := ⟨h,fun _ => hn,fun _ _ hs => absurd hs hr⟩

/-- A lease that is taken or renewed after a recovery began is not expired for it. -/
theorem expired_leased {c : Recovery} {now : Instant} (hc : c.begun ≤ now) (r : AgentRun)
    (hlease : r.leaseUntil = some (now+LEASE_SECS)) : AgentRuns.expired c.includeUnleased c.begun r = false := by
  have hnot : ¬now+LEASE_SECS < c.begun := Nat.not_lt.mpr (Nat.le_trans hc (Nat.le_add_right _ _))
  simp [AgentRuns.expired, hlease, hnot]

theorem RowOk.claimed (h : RowOk recoveries n r) {now : Instant}
    (hnow : ∀ c, some c ∈ recoveries → c.begun ≤ now) (owner : Uuid) : RowOk recoveries (n+1) (r.claimed owner now) where
  counted := Nat.succ_le_succ h.counted
  pending hs := by cases hs
  expired c hc _ _ := expired_leased (hnow c hc) _ rfl

theorem RowOk.renewed (h : RowOk recoveries n r) {now : Instant} (hnow : ∀ c, some c ∈ recoveries → c.begun ≤ now) :
    RowOk recoveries n { r with leaseUntil := some (now+LEASE_SECS) } where
  counted := h.counted
  pending := h.pending
  expired c hc _ _ := expired_leased (hnow c hc) _ rfl

end

/-! ## A step -/

structure Inv (s : State) : Prop where
  begun : ∀ c, some c ∈ s.recoveries → c.begun ≤ s.base.now
  rows : ∀ k r, s.base.db.runs.get k = some r → RowOk s.recoveries (s.since k) r
  fresh : ∀ k, s.base.db.runs.get k = none → s.since k = 0
  bounded : Bounded s

theorem inv_start (now : Instant) (db : Db) : Inv (start now db) where
  begun := nofun
  rows _ _ _ := ⟨Nat.zero_le _,fun _ => Nat.zero_lt_succ _,nofun⟩
  fresh _ _ := rfl
  bounded := ⟨fun _ he => absurd he List.not_mem_nil,fun _ => Nat.zero_le _⟩

/-- A statement that is no recovery: what it does to each row, and to the count. -/
theorem Inv.act {s : State} (h : Inv s) {base : AgentRunFencing.State} {since : Uuid → ℕ}
    (hnow : s.base.now ≤ base.now)
    (hrows : ∀ k r, base.db.runs.get k = some r → RowOk s.recoveries (since k) r)
    (hfresh : ∀ k, base.db.runs.get k = none → since k = 0) (hclaims : ∀ k, since k ≤ MAX_ATTEMPTS) :
    Inv { s with base := base, since := since } where
  begun c hc := Nat.le_trans (h.begun c hc) hnow
  rows := hrows
  fresh := hfresh
  bounded := ⟨h.bounded.failed,hclaims⟩

/-- The rows stay. -/
theorem Inv.sameRows {s : State} (h : Inv s) {base : AgentRunFencing.State} (hnow : s.base.now ≤ base.now)
    (hruns : base.db.runs = s.base.db.runs) : Inv { s with base := base } :=
  h.act hnow (by rw [hruns]; exact h.rows) (by rw [hruns]; exact h.fresh) h.bounded.claims

theorem Inv.claim {s : State} (h : Inv s) (run owner : Uuid) : Inv (step s (.act (.tryClaimAs run owner))) := by
  have hget : ∀ k, (tryClaimAs run owner s.base.now s.base.db).2.runs.get k = (s.base.db.runs.get k).map (fun r =>
      if k = run && r.status = .pending then r.claimed owner s.base.now else r) := by
    intro k
    simp [tryClaimAs, Table.get_update]
  have hcount : ∀ k, counted s (.tryClaimAs run owner) k =
      if k = run && s.base.db.status run = some .pending then s.since k+1 else s.since k := fun _ => rfl
  refine h.act (Nat.le_refl _) (fun k r' hr' => ?_) (fun k hk => ?_) (fun k => ?_)
  · obtain ⟨r,hr,rfl⟩ := Option.map_eq_some_iff.mp ((hget k).symm.trans hr')
    rw [hcount]
    by_cases hrun : k = run
    · subst hrun
      have hstatus : s.base.db.status k = some r.status := by rw [Db.status, hr]; rfl
      by_cases hp : r.status = .pending
      · simp only [hstatus, hp, decide_true, Bool.and_self, if_true]
        exact (h.rows k r hr).claimed h.begun owner
      · have hne : ¬some r.status = some RunStatus.pending := fun he => hp (Option.some.inj he)
        simp only [hstatus, hp, hne, decide_true, decide_false, Bool.and_false, Bool.false_eq_true, if_false]
        exact h.rows k r hr
    · simp only [hrun, decide_false, Bool.false_and, Bool.false_eq_true, if_false]
      exact h.rows k r hr
  · have hnone : s.base.db.runs.get k = none := by simpa [hget] using (hget k).symm.trans hk
    rw [hcount]
    split
    · next hguard =>
      rw [Bool.and_eq_true, decide_eq_true_eq, decide_eq_true_eq] at hguard
      rw [Db.status, ← hguard.1, hnone] at hguard
      cases hguard.2
    · exact h.fresh k hnone
  · rw [hcount]
    split
    · next hguard =>
      rw [Bool.and_eq_true, decide_eq_true_eq, decide_eq_true_eq] at hguard
      obtain ⟨r,hr,hp⟩ := Option.map_eq_some_iff.mp hguard.2
      rw [hguard.1]
      exact (h.rows run r hr).pending hp
    · exact h.bounded.claims k

/-- Each row stays well, with a count that does not grow. -/
theorem Inv.rewritten {s : State} (h : Inv s) {base : AgentRunFencing.State} {since : Uuid → ℕ}
    (hnow : base.now = s.base.now) (hsince : ∀ k, since k ≤ s.since k)
    (hnone : ∀ k, base.db.runs.get k = none → s.base.db.runs.get k = none)
    (hrows : ∀ k r', base.db.runs.get k = some r' → ∃ r, s.base.db.runs.get k = some r ∧
      (RowOk s.recoveries (s.since k) r → RowOk s.recoveries (since k) r')) :
    Inv { s with base := base, since := since } := by
  apply h.act (Nat.le_of_eq hnow.symm)
  · intro k r' hr'
    obtain ⟨r,hr,hok⟩ := hrows k r' hr'
    exact hok (h.rows k r hr)
  · intro k hk
    exact Nat.le_zero.mp (Nat.le_trans (hsince k) (Nat.le_of_eq (h.fresh k (hnone k hk))))
  · intro k
    exact Nat.le_trans (hsince k) (h.bounded.claims k)

theorem Inv.renew {s : State} (h : Inv s) (i : ℕ) : Inv (step s (.act (.renewLease i))) := by
  cases hc : s.base.claims[i]? with
  | none => exact h.sameRows (by simp [AgentRunFencing.step, hc]) (by simp [AgentRunFencing.step, hc])
  | some c =>
    have hget : ∀ k, (AgentRunFencing.step s.base (.renewLease i)).db.runs.get k = (s.base.db.runs.get k).map (fun r =>
        if k = c.run && holdsLease c.owner r then { r with leaseUntil := some (s.base.now+LEASE_SECS) } else r) := by
      intro k
      simp [AgentRunFencing.step, hc, renewLease, Table.get_update]
    apply h.rewritten (by simp [AgentRunFencing.step, hc]) (fun _ => Nat.le_refl _)
    · intro k hk
      simpa [hget] using hk
    · intro k r' hr'
      obtain ⟨r,hr,rfl⟩ := Option.map_eq_some_iff.mp ((hget k).symm.trans hr')
      refine ⟨r,hr,fun hok => ?_⟩
      split
      · exact hok.renewed h.begun
      · exact hok

theorem Inv.finish {s : State} (h : Inv s) (i : ℕ) (status : EndStatus) (error : Option String) :
    Inv (step s (.act (.finish i status error))) := by
  cases hc : s.base.claims[i]? with
  | none => exact h.sameRows (by simp [AgentRunFencing.step, hc]) (by simp [AgentRunFencing.step, hc])
  | some c =>
    have hget : ∀ k, (AgentRunFencing.step s.base (.finish i status error)).db.runs.get k =
        (s.base.db.runs.get k).map (fun r =>
          if k = c.run ∧ r.status.isOpen then r.ended status error s.base.now else r) := by
      intro k
      simp [AgentRunFencing.step, hc, finishBy, finish_get]
    apply h.rewritten (by simp [AgentRunFencing.step, hc, finishBy]) (fun _ => Nat.le_refl _)
    · intro k hk
      simpa [hget] using hk
    · intro k r' hr'
      obtain ⟨r,hr,rfl⟩ := Option.map_eq_some_iff.mp ((hget k).symm.trans hr')
      refine ⟨r,hr,fun hok => ?_⟩
      split
      · have hclosed := RunStatus.closed_ne (EndStatus.not_open status)
        exact RowOk.closed hok.counted hclosed.1 hclosed.2.2
      · exact hok

theorem Inv.enqueue {s : State} (h : Inv s) (fresh project agent message : Uuid) :
    Inv (step s (.act (.enqueue fresh project agent message))) := by
  have hdb : (AgentRunFencing.step s.base (.enqueue fresh project agent message)).db =
      (AgentRuns.enqueue fresh project agent message s.base.now s.base.db).2 := rfl
  unfold AgentRuns.enqueue at hdb
  split at hdb
  · exact h.sameRows (Nat.le_refl _) (congrArg Db.runs hdb)
  · have hget : ∀ k, (AgentRunFencing.step s.base (.enqueue fresh project agent message)).db.runs.get k =
        if k = fresh ∧ fresh ∉ s.base.db.runs.keys then some (AgentRun.new project agent message s.base.now)
        else s.base.db.runs.get k := by
      intro k
      rw [hdb]
      exact Table.get_insert ..
    have hnow : s.base.now ≤ (AgentRunFencing.step s.base (.enqueue fresh project agent message)).now := Nat.le_refl _
    apply h.act hnow
    · intro k r' hr'
      rw [hget] at hr'
      split at hr'
      · next hnew =>
        cases hr'
        have hzero : s.since k = 0 := h.fresh k (hnew.1 ▸ (Table.get_none_iff _ _).mpr hnew.2)
        show RowOk s.recoveries (s.since k) _
        rw [hzero]
        exact RowOk.waiting (Nat.zero_le _) (Nat.zero_lt_succ _) (fun h => RunStatus.noConfusion h)
      · exact h.rows k r' hr'
    · intro k hk
      rw [hget] at hk
      split at hk
      · cases hk
      · exact h.fresh k hk
    · exact h.bounded.claims

/-- What the next statement of a call does to a row. -/
inductive Controlled (c : ControlCall) (effect : Bool) (k : Uuid) (r : AgentRun) : AgentRun → Prop
  | kept : Controlled c effect k r r
  | paused : c.run = k → c.action = .pause → Controlled c effect k r (r.paused c.now)
  | restarted (next : Uuid) : c.run = k → effect = true → Controlled c effect k r (r.restarted c.action next c.now)

/-- A message changes no run. -/
theorem insertMessage_runs (uuid project agent : Uuid) (role : Role) (content : String) (now : Instant) (db : Db) :
    (insertMessage uuid project agent role content now db).runs = db.runs := rfl

theorem takesEffect_ready (c : ControlCall) (fresh next : Uuid) (db : Db) (hp : c.phase = .ready next)
    (hs : db.status c.run = some (expectedStatus c.action)) : takesEffect c fresh db = true := by
  simp [takesEffect, ControlCall.next, restartUpdate, hp, hs]

theorem next_rows (c : ControlCall) (fresh : Uuid) (db : Db) : ∃ f : Uuid → AgentRun → AgentRun,
    (∀ k, (c.next fresh db).2.runs.get k = (db.runs.get k).map (f k)) ∧
    ∀ k r, db.runs.get k = some r → Controlled c (takesEffect c fresh db) k r (f k r) := by
  have hkept : ∀ db' : Db, db'.runs = db.runs → ∃ f : Uuid → AgentRun → AgentRun,
      (∀ k, db'.runs.get k = (db.runs.get k).map (f k)) ∧
      ∀ k r, db.runs.get k = some r → Controlled c (takesEffect c fresh db) k r (f k r) := by
    intro db' he
    exact ⟨fun _ r => r,fun k => by rw [he]; exact (Option.map_id' ..).symm,fun _ _ _ => .kept⟩
  cases hp : c.phase with
  | allowed row =>
    by_cases hact : c.action = .pause
    · by_cases hs : db.status c.run = some row.status
      · refine ⟨fun k r => if k = c.run && r.status = row.status then r.paused c.now else r,fun k => ?_,fun k r _ => ?_⟩
        · simp [ControlCall.next, hp, hact, pauseUpdate, hs, setAgentStatus, Table.get_update]
        · show Controlled _ _ _ _ (if _ then _ else _)
          split
          · next hguard =>
            rw [Bool.and_eq_true, decide_eq_true_eq] at hguard
            exact .paused hguard.1.symm hact
          · exact .kept
      · exact hkept _ (by simp [ControlCall.next, hp, hact, pauseUpdate, hs])
    · apply hkept
      by_cases hm : (db.messages.get row.messageUuid).isNone <;> simp [ControlCall.next, hp, hact, hm]
  | replayable row =>
    apply hkept
    by_cases hm : assistantAlreadyReplied row.agentUuid row.messageUuid db <;> simp [ControlCall.next, hp, hm]
  | answered row => exact hkept _ (by simp [ControlCall.next, hp, insertMessage_runs])
  | ready next =>
    by_cases hs : db.status c.run = some (expectedStatus c.action)
    · refine ⟨fun k r => if k = c.run && r.status = expectedStatus c.action then r.restarted c.action next c.now else r,
        fun k => ?_,fun k r _ => ?_⟩
      · simp [ControlCall.next, hp, restartUpdate, hs, Table.get_update]
      · show Controlled _ _ _ _ (if _ then _ else _)
        split
        · next hguard =>
          rw [Bool.and_eq_true, decide_eq_true_eq] at hguard
          exact .restarted next hguard.1.symm (takesEffect_ready c fresh next db hp hs)
        · exact .kept
    · exact hkept _ (by simp [ControlCall.next, hp, restartUpdate, hs])
  | done o => exact hkept _ (by simp [ControlCall.next, hp])

theorem Inv.controlNext {s : State} (h : Inv s) (i : ℕ) (fresh : Uuid) :
    Inv (step s (.act (.controlNext i fresh))) := by
  have hcount : ∀ k, counted s (.controlNext i fresh) k ≤ s.since k := by
    intro k
    show (if _ then _ else _) ≤ _
    split
    · exact Nat.zero_le _
    · exact Nat.le_refl _
  cases hc : s.base.controls[i]? with
  | none =>
    exact h.rewritten (by simp [AgentRunFencing.step, hc]) hcount (by simp [AgentRunFencing.step, hc])
      (fun k r' hr' => ⟨r',by simpa [AgentRunFencing.step, hc] using hr',fun hok => hok.mono (hcount k)⟩)
  | some c =>
    obtain ⟨f,hget,hrow⟩ := next_rows c fresh s.base.db
    have hdb : (AgentRunFencing.step s.base (.controlNext i fresh)).db = (c.next fresh s.base.db).2 := by
      simp [AgentRunFencing.step, hc]
    apply h.rewritten (by simp [AgentRunFencing.step, hc]) hcount
    · intro k hk
      rw [hdb, hget] at hk
      simpa using hk
    · intro k r' hr'
      rw [hdb, hget] at hr'
      obtain ⟨r,hr,he⟩ := Option.map_eq_some_iff.mp hr'
      refine ⟨r,hr,fun hok => ?_⟩
      cases he ▸ hrow k r hr with
      | kept => exact hok.mono (hcount k)
      | paused _ _ =>
        have hpaused : (r.paused c.now).status = .paused := rfl
        refine RowOk.closed (Nat.le_trans (hcount k) hok.counted) ?_ ?_
        · rw [hpaused]
          exact fun h => RunStatus.noConfusion h
        · rw [hpaused]
          exact fun h => RunStatus.noConfusion h
      | restarted next hrun heffect =>
        have hzero : counted s (.controlNext i fresh) k = 0 := by simp [counted, hc, hrun, heffect]
        rw [hzero]
        exact RowOk.waiting (Nat.zero_le _) (Nat.zero_lt_succ _) (fun h => RunStatus.noConfusion h)

/-! ## Recoveries -/

theorem mem_changedBy {keys : List Uuid} {before after : Db} {e : AgentRun × RunStatus}
    (h : e ∈ changedBy keys before after) :
    ∃ k ∈ keys, before.runs.get k = some e.1 ∧ after.status k = some e.2 := by
  obtain ⟨k,hk,he⟩ := List.mem_filterMap.mp h
  obtain ⟨r,hr,hs⟩ := Option.bind_eq_some_iff.mp he
  obtain ⟨status,hstatus,rfl⟩ := Option.map_eq_some_iff.mp hs
  exact ⟨k,hk,hr,hstatus⟩

theorem Inv.recoverBegin {s : State} (h : Inv s) (includeUnleased : Bool) :
    Inv (step s (.recoverBegin includeUnleased)) := by
  have hget : ∀ k, (recoverFailed includeUnleased s.base.now s.base.db).2.runs.get k = (s.base.db.runs.get k).map
      (fun r => if beyondRecovery s.base.db includeUnleased s.base.now r then r.interrupted s.base.now else r) := by
    intro k
    simp [recoverFailed, Table.get_update]
  have hcs : ∀ c, some c ∈ s.recoveries++[some ⟨includeUnleased,s.base.now⟩] →
      some c ∈ s.recoveries ∨ c = ⟨includeUnleased,s.base.now⟩ := by
    intro c hc
    simpa using hc
  constructor
  · intro c hc
    rcases hcs c hc with hc | rfl
    · exact h.begun c hc
    · exact Nat.le_refl _
  · intro k r' hr'
    obtain ⟨r,hr,he⟩ := Option.map_eq_some_iff.mp ((hget k).symm.trans hr')
    have hok := h.rows k r hr
    split at he
    · subst he
      exact RowOk.closed hok.counted (fun h => RunStatus.noConfusion h) (fun h => RunStatus.noConfusion h)
    · next hbeyond =>
      subst he
      refine ⟨hok.counted,hok.pending,fun c hc hs hmax => ?_⟩
      rcases hcs c hc with hc | rfl
      · exact hok.expired c hc hs hmax
      · have hnot : ¬(beyondRecovery s.base.db includeUnleased s.base.now r = true) := hbeyond
        simpa [beyondRecovery, hmax] using hnot
  · intro k hk
    have hnone : s.base.db.runs.get k = none := by simpa [hget] using (hget k).symm.trans hk
    exact h.fresh k hnone
  · refine ⟨fun e he hmax => ?_,h.bounded.claims⟩
    rcases List.mem_append.mp he with he | he
    · exact h.bounded.failed e he hmax
    · obtain ⟨k,hk,hr,hs⟩ := mem_changedBy he
      obtain ⟨r,hrow,hbeyond⟩ := (Table.mem_affected_iff s.base.db.runs
        (fun _ => beyondRecovery s.base.db includeUnleased s.base.now) k).mp hk
      cases hr.symm.trans hrow
      rw [Db.status, hget, hr] at hs
      simpa [hbeyond, AgentRun.interrupted] using hs.symm

theorem Inv.recoverEnd {s : State} (h : Inv s) (i : ℕ) (ho : Orderly s (.recoverEnd i)) :
    Inv (step s (.recoverEnd i)) := by
  cases hi : s.recoveries[i]? with
  | none => 
    have hsame : step s (.recoverEnd i) = s := by simp [step, RestartBound.recoverEnd, hi]
    rw [hsame]
    exact h
  | some o =>
    cases o with
    | none => 
      have hsame : step s (.recoverEnd i) = s := by simp [step, RestartBound.recoverEnd, hi]
      rw [hsame]
      exact h
    | some c =>
      have hmem : some c ∈ s.recoveries := List.mem_of_getElem? hi
      have hstep : step s (.recoverEnd i) =
          { s with
            base := AgentRunFencing.step s.base (.recoverRequeued c.includeUnleased)
            recoveries := s.recoveries.set i none
            touched := s.touched++changedBy (recoverRequeued c.includeUnleased s.base.now s.base.db).1 s.base.db
              (recoverRequeued c.includeUnleased s.base.now s.base.db).2 } := by
        simp only [step, RestartBound.recoverEnd, hi]
      have hget : ∀ k, (recoverRequeued c.includeUnleased s.base.now s.base.db).2.runs.get k =
          (s.base.db.runs.get k).map
            (fun r => if expired c.includeUnleased s.base.now r then r.requeued s.base.now else r) := by
        intro k
        simp [recoverRequeued, Table.get_update]
      -- the first statement has failed the runs that had used their attempts and were expired then
      have hfew : ∀ k r, s.base.db.runs.get k = some r → expired c.includeUnleased s.base.now r = true →
          r.attempts < MAX_ATTEMPTS := by
        intro k r hr hexp
        by_contra hmax
        have hrunning : r.status = .running := by
          simp only [expired, Bool.and_eq_true, decide_eq_true_eq] at hexp
          exact hexp.1
        have hnot := (h.rows k r hr).expired c hmem hrunning (Nat.le_of_not_lt hmax)
        have hbegun := ho c (by simp [hi]) (k,r) ((Table.mem_iff_get ..).mpr hr) (Nat.le_of_not_lt hmax) hexp
        exact Bool.noConfusion (hnot.symm.trans hbegun)
      have hsub : ∀ d, some d ∈ s.recoveries.set i none → some d ∈ s.recoveries := by
        intro d hd
        rcases List.mem_or_eq_of_mem_set hd with hd | hd
        · exact hd
        · cases hd
      rw [hstep]
      constructor
      · exact fun d hd => h.begun d (hsub d hd)
      · intro k r' hr'
        obtain ⟨r,hr,he⟩ := Option.map_eq_some_iff.mp ((hget k).symm.trans hr')
        have hok := h.rows k r hr
        split at he
        · next hexp =>
          subst he
          exact RowOk.waiting hok.counted (Nat.lt_of_le_of_lt hok.counted (hfew k r hr hexp))
            (fun h => RunStatus.noConfusion h)
        · subst he
          exact ⟨hok.counted,hok.pending,fun d hd => hok.expired d (hsub d hd)⟩
      · intro k hk
        have hnone : s.base.db.runs.get k = none := by simpa [hget] using (hget k).symm.trans hk
        exact h.fresh k hnone
      · refine ⟨fun e he hmax => ?_,h.bounded.claims⟩
        rcases List.mem_append.mp he with he | he
        · exact h.bounded.failed e he hmax
        · obtain ⟨k,hk,hr,-⟩ := mem_changedBy he
          obtain ⟨r,hrow,hexp⟩ := (Table.mem_affected_iff s.base.db.runs
            (fun _ => expired c.includeUnleased s.base.now) k).mp hk
          cases hr.symm.trans hrow
          exact absurd hmax (Nat.not_le.mpr (hfew k e.1 hr hexp))

/-! ## Runs -/

theorem Inv.step {s : State} (h : Inv s) (a : Action) (ho : Orderly s a) : Inv (step s a) := by
  cases a with
  | recoverBegin includeUnleased => exact h.recoverBegin includeUnleased
  | recoverEnd i => exact h.recoverEnd i ho
  | act a =>
    cases a with
    | tick seconds => exact h.sameRows (Nat.le_add_right _ _) rfl
    | insertMessage uuid project agent role content => exact h.sameRows (Nat.le_refl _) rfl
    | enqueue fresh project agent message => exact h.enqueue fresh project agent message
    | tryClaimAs run owner => exact h.claim run owner
    | renewLease i => exact h.renew i
    | recoverFailed includeUnleased => exact h
    | recoverRequeued includeUnleased => exact h
    | controlRead run action => exact h.sameRows (Nat.le_refl _) rfl
    | controlNext i fresh => exact h.controlNext i fresh
    | finish i status error => exact h.finish i status error

/-- In every run in which no run that has used its attempts expires between the two statements of
a recovery, recoveries fail the runs that have used their attempts, and no run is claimed more than
`MAX_ATTEMPTS` times between two commands. -/
theorem restarts_bounded (now : Instant) (db : Db) (acts : List Action)
    (h : Guarded step Orderly acts (start now db)) : Bounded (run step acts (start now db)) :=
  (guarded_invariant step Orderly Inv (fun _ a hs ho => hs.step a ho) acts _ (inv_start now db) h).bounded

/-- An executor claims the run and its lease expires. -/
def cut : List Action := [.act (.tryClaimAs 1 10),.act (.tick (LEASE_SECS+1))]

/-- The run is cut three times, and a recovery follows each time. -/
def threeCuts : List Action :=
  cut++[Action.recoverBegin false,.recoverEnd 0]++cut++[Action.recoverBegin false,.recoverEnd 1]++cut++
    [Action.recoverBegin false,.recoverEnd 2]

theorem threeCuts_bounded : Bounded (run step threeCuts (start 0 oneRun)) :=
  restarts_bounded 0 oneRun threeCuts (by decide +kernel)

/-- The third lease of the run ends between the two statements of a recovery. -/
def cutBetween : List Action :=
  cut++[Action.recoverBegin false,.recoverEnd 0]++cut++[Action.recoverBegin false,.recoverEnd 1]++
    [Action.act (.tryClaimAs 1 10),.act (.tick LEASE_SECS),.recoverBegin false,.act (.tick 1),.recoverEnd 2,
      .act (.tryClaimAs 1 10)]

theorem fourth_claim : ¬∀ (now : Instant) (db : Db) (acts : List Action), Bounded (run step acts (start now db)) := by
  intro h
  have hclaims := (h 0 oneRun cutBetween).claims 1
  have hfour : (run step cutBetween (start 0 oneRun)).since 1 = 4 := by decide +kernel
  rw [hfour] at hclaims
  exact absurd hclaims (by decide)

end DevForge.RestartBound
