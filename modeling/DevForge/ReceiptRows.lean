import DevForge.Receipts
import DevForge.Transition

/-!
# The life of a receipt

The statements run in any order, from the agent loops, the handlers, the
reconciliation and the boot. A proposal first looks for a live receipt of the
same action and inserts its own later, whatever happened in between.
-/

set_option autoImplicit false

namespace DevForge.ReceiptRows
open DeployQueue (Deployment)
open Receipts Transition

/-- An execution that an approved receipt has let start. -/
structure Start where
  receipt : Uuid
  project : Uuid
  hash : String
  startedAt : Instant
  deriving DecidableEq, Repr

structure State where
  now : Instant
  rows : Rows
  deployments : Table Uuid Deployment
  /-- The proposals that found no live receipt and have still to insert theirs. -/
  proposals : List NewReceipt
  /-- The receipts approved so far, with the instant of the approval. -/
  approvals : List (Uuid × Instant)
  starts : List Start

inductive Action where
  | tick (seconds : ℕ)
  | deploymentsChange (deployments : Table Uuid Deployment)
  | propose (r : NewReceipt)
  | insertProposal (i : ℕ) (uuid : Uuid)
  | begin (uuid : Uuid) (r : NewReceipt)
  | approvePending (project : Uuid) (user : Option Uuid) (label : Option String)
  | consume (picked project : Uuid) (hash : String) (run : Option Uuid)
  | finish (uuid : Uuid) (outcome : Outcome) (detail : Option String)
  | linkDeployment (uuid deployment : Uuid)
  | markInterrupted
  | expireStale
  | reconcile

def step (s : State) : Action → State
  | .tick seconds => { s with now := s.now+seconds }
  | .deploymentsChange deployments => { s with deployments := deployments }
  | .propose r =>
    if liveProposal r s.now s.rows then s else { s with proposals := s.proposals++[r] }
  | .insertProposal i uuid => match s.proposals[i]? with
    | some r =>
      { s with
        proposals := s.proposals.eraseIdx i
        rows := insert uuid r .pending s.now s.rows }
    | none => s
  | .begin uuid r => { s with rows := Receipts.begin uuid r s.now s.rows }
  | .approvePending project user label =>
    let (approved,rows) := Receipts.approvePending project user label s.now s.rows
    { s with rows := rows, approvals := s.approvals++approved.map (fun k => (k,s.now)) }
  | .consume picked project hash run =>
    let (consumed,rows) := Receipts.consume picked project hash run s.now s.rows
    { s with rows := rows, starts := s.starts++consumed.map (fun k => ⟨k,project,hash,s.now⟩) }
  | .finish uuid outcome detail =>
    { s with rows := Receipts.finish uuid outcome detail s.now s.rows }
  | .linkDeployment uuid deployment =>
    { s with rows := Receipts.linkDeployment uuid deployment s.rows }
  | .markInterrupted => { s with rows := Receipts.markInterrupted s.rows }
  | .expireStale => { s with rows := Receipts.expireStale s.now s.rows }
  | .reconcile => { s with rows := Receipts.reconcile s.deployments s.now s.rows }

def start : State := ⟨0,Table.empty,Table.empty,[],[],[]⟩

/-! ## What a step does to one row -/

/-- Every way in which a statement changes a receipt. -/
inductive RowStep (s : State) (k : Uuid) (r : Receipt) : Action → Receipt → Prop where
  | same (a : Action) : RowStep s k r a r
  | link (deployment : Uuid) :
      RowStep s k r (.linkDeployment k deployment) { r with deploymentUuid := some deployment }
  | approve (project : Uuid) (user : Option Uuid) (label : Option String)
      (h : approvable project s.now r) :
      RowStep s k r (.approvePending project user label) (r.approve user label s.now)
  | consume (project : Uuid) (hash : String) (run : Option Uuid)
      (h : consumable project hash s.now r) :
      RowStep s k r (.consume k project hash run) (r.consume run s.now)
  | finish (outcome : Outcome) (detail : Option String) (h : r.status.open) :
      RowStep s k r (.finish k outcome detail) (r.finish outcome detail s.now)
  | interrupt (h : r.status = .executing) : RowStep s k r .markInterrupted r.interrupt
  | expire (h : r.stale s.now) : RowStep s k r .expireStale r.expire
  | reconcile (d : Deployment) (hd : endedDeployment s.deployments r = some d) (h : r.status.open) :
      RowStep s k r .reconcile (r.reconciled d s.now)

theorem insert_row (uuid : Uuid) (r' : NewReceipt) (status : Status) (now : Instant) (rows : Rows)
    (k : Uuid) (r : Receipt) (h : rows.get k = some r) :
    (insert uuid r' status now rows).get k = some r := by
  rw [get_insert, if_neg, h]
  rintro ⟨rfl,hn⟩
  rw [← Table.get_none_iff, h] at hn
  simp at hn

theorem step_row (s : State) (a : Action) (k : Uuid) (r : Receipt) (h : s.rows.get k = some r) :
    ∃ r', (step s a).rows.get k = some r' ∧ RowStep s k r a r' := by
  cases a with
  | tick seconds => exact ⟨r,h,.same _⟩
  | deploymentsChange deployments => exact ⟨r,h,.same _⟩
  | propose p =>
    refine ⟨r,?_,.same _⟩
    simp only [step]
    split <;> exact h
  | insertProposal i uuid =>
    refine ⟨r,?_,.same _⟩
    simp only [step]
    split
    · exact insert_row uuid _ .pending s.now s.rows k r h
    · exact h
  | begin uuid p => exact ⟨r,insert_row uuid p .executing s.now s.rows k r h,.same _⟩
  | approvePending project user label =>
    have hg := get_approvePending project user label s.now s.rows k
    rw [h, Option.map_some] at hg
    by_cases hc : approvable project s.now r
    · exact ⟨_,hg.trans (by rw [if_pos hc]),.approve project user label hc⟩
    · exact ⟨_,hg.trans (by rw [if_neg hc]),.same _⟩
  | consume picked project hash run =>
    have hg := get_consume picked project hash run s.now s.rows k
    rw [h, Option.map_some] at hg
    by_cases hc : k = picked ∧ consumable project hash s.now r
    · obtain ⟨rfl,hc⟩ := hc
      exact ⟨_,hg.trans (by simp [hc]),.consume project hash run hc⟩
    · exact ⟨_,hg.trans (by rw [if_neg (by simpa using hc)]),.same _⟩
  | finish uuid outcome detail =>
    have hg := get_finish uuid outcome detail s.now s.rows k
    rw [h, Option.map_some] at hg
    by_cases hc : k = uuid ∧ r.status.open
    · obtain ⟨rfl,hc⟩ := hc
      exact ⟨_,hg.trans (by simp [hc]),.finish outcome detail hc⟩
    · exact ⟨_,hg.trans (by rw [if_neg (by simpa using hc)]),.same _⟩
  | linkDeployment uuid deployment =>
    have hg := get_linkDeployment uuid deployment s.rows k
    rw [h, Option.map_some] at hg
    by_cases hc : k = uuid
    · subst hc
      exact ⟨_,hg.trans (by rw [if_pos rfl]),.link deployment⟩
    · exact ⟨_,hg.trans (by rw [if_neg hc]),.same _⟩
  | markInterrupted =>
    have hg := get_markInterrupted s.rows k
    rw [h, Option.map_some] at hg
    by_cases hc : r.status = .executing
    · exact ⟨_,hg.trans (by rw [if_pos hc]),.interrupt hc⟩
    · exact ⟨_,hg.trans (by rw [if_neg hc]),.same _⟩
  | expireStale =>
    have hg := get_expireStale s.now s.rows k
    rw [h, Option.map_some] at hg
    by_cases hc : r.stale s.now
    · exact ⟨_,hg.trans (by rw [if_pos hc]),.expire hc⟩
    · exact ⟨_,hg.trans (by rw [if_neg hc]),.same _⟩
  | reconcile =>
    have hg := get_reconcile s.deployments s.now s.rows k
    rw [h, Option.map_some] at hg
    cases hd : endedDeployment s.deployments r with
    | none => exact ⟨r,hg.trans (by simp [hd]),.same _⟩
    | some d =>
      by_cases hc : r.status.open
      · exact ⟨_,hg.trans (by simp [hd, hc, Receipt.reconcile]),.reconcile d hd hc⟩
      · exact ⟨r,hg.trans (by simp [hc]),.same _⟩

/-- A row that a step creates is a proposal or an execution. -/
theorem step_new (s : State) (a : Action) (k : Uuid) (r' : Receipt) (h : s.rows.get k = none)
    (h' : (step s a).rows.get k = some r') :
    ∃ r status, r' = NewReceipt.row r status s.now ∧ (status = .pending ∨ status = .executing) ∧
      ((∃ i, a = .insertProposal i k) ∨ ∃ p, a = .begin k p) := by
  have hmap : ∀ f : Receipt → Receipt, some r' ≠ (s.rows.get k).map f := by
    intro f hf
    rw [h] at hf
    simp at hf
  cases a with
  | tick seconds => exact absurd (h.symm.trans h') (by simp)
  | deploymentsChange deployments => exact absurd (h.symm.trans h') (by simp)
  | propose p =>
    simp only [step] at h'
    split at h' <;> exact absurd (h.symm.trans h') (by simp)
  | insertProposal i uuid =>
    simp only [step] at h' ⊢
    split at h'
    · rename_i p hp
      have hi := (get_insert uuid p .pending s.now s.rows k).symm.trans h'
      split at hi
      · rename_i hk
        obtain ⟨rfl,_⟩ := hk
        exact ⟨p,.pending,(Option.some.inj hi).symm,Or.inl rfl,Or.inl ⟨i,rfl⟩⟩
      · exact absurd (h.symm.trans hi) (by simp)
    · exact absurd (h.symm.trans h') (by simp)
  | begin uuid p =>
    have hi := (get_insert uuid p .executing s.now s.rows k).symm.trans h'
    split at hi
    · rename_i hk
      obtain ⟨rfl,_⟩ := hk
      exact ⟨p,.executing,(Option.some.inj hi).symm,Or.inr rfl,Or.inr ⟨p,rfl⟩⟩
    · exact absurd (h.symm.trans hi) (by simp)
  | approvePending project user label =>
    exact absurd (h'.symm.trans (get_approvePending project user label s.now s.rows k)) (hmap _)
  | consume picked project hash run =>
    exact absurd (h'.symm.trans (get_consume picked project hash run s.now s.rows k)) (hmap _)
  | finish uuid outcome detail =>
    exact absurd (h'.symm.trans (get_finish uuid outcome detail s.now s.rows k)) (hmap _)
  | linkDeployment uuid deployment =>
    exact absurd (h'.symm.trans (get_linkDeployment uuid deployment s.rows k)) (hmap _)
  | markInterrupted => exact absurd (h'.symm.trans (get_markInterrupted s.rows k)) (hmap _)
  | expireStale => exact absurd (h'.symm.trans (get_expireStale s.now s.rows k)) (hmap _)
  | reconcile => exact absurd (h'.symm.trans (get_reconcile s.deployments s.now s.rows k)) (hmap _)

/-! ## The invariant -/

/-- A receipt whose action has not started. -/
def waiting (status : Status) : Bool := status = .pending || status = .approved

theorem RowStep.kept {s : State} {k : Uuid} {r r' : Receipt} {a : Action} (h : RowStep s k r a r') :
    r'.actionHash = r.actionHash ∧ r'.projectUuid = r.projectUuid ∧ r'.createdAt = r.createdAt := by
  cases h <;> exact ⟨rfl,rfl,rfl⟩

theorem RowStep.final {s : State} {k : Uuid} {r r' : Receipt} {a : Action} (h : RowStep s k r a r')
    (hf : r.status.final) :
    r' = r ∨ ∃ deployment, a = .linkDeployment k deployment ∧
      r' = { r with deploymentUuid := some deployment } := by
  cases h with
  | same => exact Or.inl rfl
  | link deployment => exact Or.inr ⟨deployment,rfl,rfl⟩
  | approve project user label h => simp [approvable] at h; simp [h.1.2, Status.final] at hf
  | consume project hash run h => simp [consumable] at h; simp [h.1.2, Status.final] at hf
  | finish outcome detail h => cases hs : r.status <;> simp [hs, Status.final, Status.open] at hf h
  | interrupt h => simp [h, Status.final] at hf
  | expire h => cases hs : r.status <;> simp [hs, Status.final, Receipt.stale] at hf h
  | reconcile d hd h => cases hs : r.status <;> simp [hs, Status.final, Status.open] at hf h

theorem outcome_started (outcome : Outcome) :
    waiting outcome.status = false ∧ outcome.status ≠ .executing := by
  cases outcome <;> decide

theorem reconciled_started (r : Receipt) (d : Deployment) (now : Instant) :
    waiting (r.reconciled d now).status = false ∧ (r.reconciled d now).status ≠ .executing := by
  unfold Receipt.reconciled
  dsimp only
  split <;> decide

theorem RowStep.started {s : State} {k : Uuid} {r r' : Receipt} {a : Action} (h : RowStep s k r a r')
    (hw : waiting r.status = false) :
    waiting r'.status = false ∧ (r'.status = .executing → r.status = .executing) := by
  cases h with
  | same => exact ⟨hw,id⟩
  | link deployment => exact ⟨hw,id⟩
  | approve project user label h => simp [approvable] at h; simp [h.1.2, waiting] at hw
  | consume project hash run h => simp [consumable] at h; simp [h.1.2, waiting] at hw
  | finish outcome detail h => exact ⟨(outcome_started outcome).1,fun he => absurd he (outcome_started outcome).2⟩
  | interrupt h => exact ⟨rfl,fun _ => h⟩
  | expire h => exact ⟨rfl,fun he => absurd he (by simp [Receipt.expire])⟩
  | reconcile d hd h =>
    have hr := reconciled_started r d s.now
    exact ⟨hr.1,fun he => absurd he hr.2⟩

theorem RowStep.pending {s : State} {k : Uuid} {r r' : Receipt} {a : Action} (h : RowStep s k r a r')
    (hp : r'.status = .pending) : r.status = .pending ∧
      ∀ project user label, a = .approvePending project user label → r' = r := by
  by_cases hw : waiting r.status = false
  · have := h.started hw
    simp [hp, waiting] at this
  · cases h with
    | same => exact ⟨hp,fun _ _ _ _ => rfl⟩
    | link deployment => exact ⟨hp,fun _ _ _ he => by cases he⟩
    | approve project user label h => simp [Receipt.approve] at hp
    | consume project hash run h => simp [Receipt.consume] at hp
    | finish outcome detail h => cases outcome <;> simp [Receipt.finish, Outcome.status] at hp
    | interrupt h => simp [Receipt.interrupt] at hp
    | expire h => simp [Receipt.expire] at hp
    | reconcile d hd h =>
      have hr := (reconciled_started r d s.now).1
      simp [waiting, hp] at hr

theorem RowStep.approved {s : State} {k : Uuid} {r r' : Receipt} {a : Action} (h : RowStep s k r a r')
    (hp : r'.status = .approved) :
    (r.status = .approved ∧ r'.expiresAt = r.expiresAt) ∨
    ∃ project user label, a = .approvePending project user label ∧ approvable project s.now r ∧
      r'.expiresAt = s.now+APPROVAL_TTL := by
  cases h with
  | same => exact Or.inl ⟨hp,rfl⟩
  | link deployment => exact Or.inl ⟨hp,rfl⟩
  | approve project user label h => exact Or.inr ⟨project,user,label,rfl,h,rfl⟩
  | consume project hash run h => simp [Receipt.consume] at hp
  | finish outcome detail h => cases outcome <;> simp [Receipt.finish, Outcome.status] at hp
  | interrupt h => simp [Receipt.interrupt] at hp
  | expire h => simp [Receipt.expire] at hp
  | reconcile d hd h =>
    have hr := (reconciled_started r d s.now).1
    simp [waiting, hp] at hr

theorem step_approvals (s : State) (a : Action) :
    (step s a).approvals = s.approvals ∨
    ∃ project user label, a = .approvePending project user label ∧
      (step s a).approvals = s.approvals++
        (s.rows.affected (fun _ => approvable project s.now)).map (fun k => (k,s.now)) := by
  cases a with
  | approvePending project user label => exact Or.inr ⟨project,user,label,rfl,rfl⟩
  | propose p => left; simp only [step]; split <;> rfl
  | insertProposal i uuid => left; simp only [step]; split <;> rfl
  | _ => exact Or.inl rfl

theorem step_starts (s : State) (a : Action) :
    (step s a).starts = s.starts ∨
    ∃ picked project hash run, a = .consume picked project hash run ∧
      (step s a).starts = s.starts++
        (s.rows.affected (fun k r => k = picked && consumable project hash s.now r)).map
          (fun k => ⟨k,project,hash,s.now⟩) := by
  cases a with
  | consume picked project hash run => exact Or.inr ⟨picked,project,hash,run,rfl,rfl⟩
  | propose p => left; simp only [step]; split <;> rfl
  | insertProposal i uuid => left; simp only [step]; split <;> rfl
  | _ => exact Or.inl rfl

theorem step_now (s : State) (a : Action) : s.now ≤ (step s a).now := by
  cases a with
  | tick seconds => exact Nat.le_add_right _ _
  | propose p => simp only [step]; split <;> exact le_rfl
  | insertProposal i uuid => simp only [step]; split <;> exact le_rfl
  | _ => exact le_rfl

/-- The approval that an execution rests on, and the row of its receipt. -/
def Rests (s : State) (e : Start) : Prop :=
  ∃ t r, (e.receipt,t) ∈ s.approvals ∧ t ≤ e.startedAt ∧ e.startedAt < t+APPROVAL_TTL ∧
    s.rows.get e.receipt = some r ∧ waiting r.status = false ∧ r.actionHash = e.hash ∧
    r.projectUuid = some e.project

structure Inv (s : State) : Prop where
  approvedOnce : (s.approvals.map Prod.fst).Nodup
  approvedRow : ∀ k t, (k,t) ∈ s.approvals → t ≤ s.now ∧
    ∃ r, s.rows.get k = some r ∧ r.status ≠ .pending ∧
      (r.status = .approved → r.expiresAt = t+APPROVAL_TTL)
  approvedKnown : ∀ k r, s.rows.get k = some r → r.status = .approved → ∃ t, (k,t) ∈ s.approvals
  startedOnce : (s.starts.map Start.receipt).Nodup
  rests : ∀ e ∈ s.starts, Rests s e
  consumed : ∀ k r, s.rows.get k = some r → r.consumedAt.isSome → waiting r.status = false

theorem start_inv : Inv start := by
  constructor <;> simp [start]

theorem Inv.approvals {s : State} (h : Inv s) (a : Action) :
    ((step s a).approvals.map Prod.fst).Nodup := by
  rcases step_approvals s a with he | ⟨project,user,label,rfl,he⟩
  · rw [he]
    exact h.approvedOnce
  · have hid : Prod.fst ∘ (fun k : Uuid => (k,s.now)) = id := rfl
    rw [he, List.map_append, List.map_map, hid, List.map_id]
    refine List.nodup_append.mpr ⟨h.approvedOnce,Table.affected_nodup _ _,?_⟩
    · intro k hk k' hk' heq
      subst heq
      obtain ⟨⟨_,t⟩,hm,rfl⟩ := List.mem_map.mp hk
      obtain ⟨_,r,hr,hp,_⟩ := h.approvedRow _ t hm
      obtain ⟨r',hr',ha⟩ := (Table.mem_affected_iff _ _ _).mp hk'
      obtain rfl := Option.some.inj (hr.symm.trans hr')
      simp [approvable] at ha
      exact hp ha.1.2

theorem Inv.starts {s : State} (h : Inv s) (a : Action) :
    ((step s a).starts.map Start.receipt).Nodup := by
  rcases step_starts s a with he | ⟨picked,project,hash,run,rfl,he⟩
  · rw [he]
    exact h.startedOnce
  · have hid : Start.receipt ∘ (fun k : Uuid => (⟨k,project,hash,s.now⟩ : Start)) = id := rfl
    rw [he, List.map_append, List.map_map, hid, List.map_id]
    refine List.nodup_append.mpr ⟨h.startedOnce,Table.affected_nodup _ _,?_⟩
    · intro k hk k' hk' heq
      subst heq
      obtain ⟨e,hm,rfl⟩ := List.mem_map.mp hk
      obtain ⟨t,r,_,_,_,hr,hw,_⟩ := h.rests e hm
      obtain ⟨r',hr',ha⟩ := (Table.mem_affected_iff _ _ _).mp hk'
      obtain rfl := Option.some.inj (hr.symm.trans hr')
      simp [consumable] at ha
      simp [waiting, ha.2.1.2] at hw

theorem RowStep.consumed {s : State} {k : Uuid} {r r' : Receipt} {a : Action}
    (h : RowStep s k r a r') : r'.consumedAt = r.consumedAt ∨ waiting r'.status = false := by
  cases h with
  | consume project hash run h => exact Or.inr rfl
  | _ => exact Or.inl rfl

theorem approvals_grow (s : State) (a : Action) (e : Uuid × Instant) (h : e ∈ s.approvals) :
    e ∈ (step s a).approvals := by
  rcases step_approvals s a with he | ⟨_,_,_,_,he⟩ <;> simp [he, h]

theorem Inv.approvedRow_step {s : State} (h : Inv s) (a : Action) (k : Uuid) (t : Instant)
    (hm : (k,t) ∈ (step s a).approvals) : t ≤ (step s a).now ∧
      ∃ r, (step s a).rows.get k = some r ∧ r.status ≠ .pending ∧
        (r.status = .approved → r.expiresAt = t+APPROVAL_TTL) := by
  have hold : (k,t) ∈ s.approvals → t ≤ (step s a).now ∧
      ∃ r, (step s a).rows.get k = some r ∧ r.status ≠ .pending ∧
        (r.status = .approved → r.expiresAt = t+APPROVAL_TTL) := by
    intro hm
    obtain ⟨ht,r,hr,hp,hx⟩ := h.approvedRow k t hm
    obtain ⟨r',hr',hstep⟩ := step_row s a k r hr
    refine ⟨le_trans ht (step_now s a),r',hr',fun hp' => hp (hstep.pending hp').1,fun ha => ?_⟩
    rcases hstep.approved ha with ⟨hra,hre⟩ | ⟨project,user,label,_,happ,_⟩
    · exact hre.trans (hx hra)
    · simp [approvable] at happ
      exact absurd happ.1.2 hp
  rcases step_approvals s a with he | ⟨project,user,label,rfl,he⟩
  · exact hold (he ▸ hm)
  · rw [he, List.mem_append] at hm
    rcases hm with hm | hm
    · exact hold hm
    · obtain ⟨k',hk',heq⟩ := List.mem_map.mp hm
      obtain ⟨rfl,rfl⟩ := Prod.mk.inj heq
      obtain ⟨r,hr,ha⟩ := (Table.mem_affected_iff _ _ _).mp hk'
      have hg := get_approvePending project user label s.now s.rows k'
      rw [hr, Option.map_some, if_pos ha] at hg
      exact ⟨le_rfl,_,hg,by simp [Receipt.approve],fun _ => rfl⟩

theorem Inv.approvedKnown_step {s : State} (h : Inv s) (a : Action) (k : Uuid) (r' : Receipt)
    (hr' : (step s a).rows.get k = some r') (ha : r'.status = .approved) :
    ∃ t, (k,t) ∈ (step s a).approvals := by
  cases hr : s.rows.get k with
  | none =>
    obtain ⟨p,status,rfl,hs,_⟩ := step_new s a k r' hr hr'
    rcases hs with rfl | rfl <;> simp [NewReceipt.row] at ha
  | some r =>
    obtain ⟨r'',hr'',hstep⟩ := step_row s a k r hr
    obtain rfl := Option.some.inj (hr''.symm.trans hr')
    rcases hstep.approved ha with ⟨hra,_⟩ | ⟨project,user,label,rfl,happ,_⟩
    · obtain ⟨t,ht⟩ := h.approvedKnown k r hr hra
      exact ⟨t,approvals_grow s a _ ht⟩
    · refine ⟨s.now,List.mem_append.mpr (Or.inr (List.mem_map.mpr ⟨k,?_,rfl⟩))⟩
      exact (Table.mem_affected_iff _ _ _).mpr ⟨r,hr,happ⟩

theorem Rests.step {s : State} {e : Start} (h : Rests s e) (a : Action) : Rests (step s a) e := by
  obtain ⟨t,r,hm,ht,hx,hr,hw,hh,hp⟩ := h
  obtain ⟨r',hr',hstep⟩ := step_row s a _ r hr
  obtain ⟨hh',hp',_⟩ := hstep.kept
  exact ⟨t,r',approvals_grow s a _ hm,ht,hx,hr',(hstep.started hw).1,hh'.trans hh,hp'.trans hp⟩

theorem Inv.rests_step {s : State} (h : Inv s) (a : Action) (e : Start)
    (he : e ∈ (step s a).starts) : Rests (step s a) e := by
  rcases step_starts s a with hs | ⟨picked,project,hash,run,rfl,hs⟩
  · exact (h.rests e (hs ▸ he)).step a
  · rw [hs, List.mem_append] at he
    rcases he with he | he
    · exact (h.rests e he).step _
    · obtain ⟨k,hk,rfl⟩ := List.mem_map.mp he
      obtain ⟨r,hr,hc⟩ := (Table.mem_affected_iff _ _ _).mp hk
      have hg := get_consume picked project hash run s.now s.rows k
      rw [hr, Option.map_some, if_pos hc] at hg
      simp only [consumable, Bool.and_eq_true, decide_eq_true_eq] at hc
      obtain ⟨_,⟨⟨hp,hh⟩,ha⟩,hx⟩ := hc
      obtain ⟨t,ht⟩ := h.approvedKnown k r hr ha
      obtain ⟨hle,r',hr',_,hexp⟩ := h.approvedRow k t ht
      obtain rfl := Option.some.inj (hr.symm.trans hr')
      exact ⟨t,_,approvals_grow s _ _ ht,hle,hexp ha ▸ hx,hg,rfl,hh,hp⟩

theorem Inv.consumed_step {s : State} (h : Inv s) (a : Action) (k : Uuid) (r' : Receipt)
    (hr' : (step s a).rows.get k = some r') (hc : r'.consumedAt.isSome) :
    waiting r'.status = false := by
  cases hr : s.rows.get k with
  | none =>
    obtain ⟨p,status,rfl,hs,_⟩ := step_new s a k r' hr hr'
    rcases hs with rfl | rfl
    · simp [NewReceipt.row] at hc
    · rfl
  | some r =>
    obtain ⟨r'',hr'',hstep⟩ := step_row s a k r hr
    obtain rfl := Option.some.inj (hr''.symm.trans hr')
    rcases hstep.consumed with heq | hw
    · exact (hstep.started (h.consumed k r hr (heq ▸ hc))).1
    · exact hw

theorem step_inv (s : State) (a : Action) (h : Inv s) : Inv (step s a) :=
  ⟨h.approvals a,h.approvedRow_step a,h.approvedKnown_step a,h.starts a,h.rests_step a,
    h.consumed_step a⟩

/-! ## Runs -/

theorem run_inv (acts : List Action) : Inv (run step acts start) :=
  invariant step Inv step_inv acts start start_inv

/-- A receipt in a final status keeps everything but its link to a deployment. -/
theorem run_final (acts : List Action) (s : State) (k : Uuid) (r : Receipt)
    (h : s.rows.get k = some r) (hf : r.status.final) :
    ∃ deployment, (run step acts s).rows.get k = some { r with deploymentUuid := deployment } ∧
      ((∀ d, .linkDeployment k d ∉ acts) → deployment = r.deploymentUuid) := by
  induction acts generalizing s r with
  | nil => exact ⟨r.deploymentUuid,h,fun _ => rfl⟩
  | cons a acts ih =>
    obtain ⟨r',hr',hstep⟩ := step_row s a k r h
    rcases hstep.final hf with rfl | ⟨d,rfl,rfl⟩
    · obtain ⟨deployment,hg,hd⟩ := ih (step s a) r' hr' hf
      exact ⟨deployment,hg,fun hn => hd (fun d hm => hn d (by simp [hm]))⟩
    · obtain ⟨deployment,hg,_⟩ := ih _ _ hr' hf
      exact ⟨deployment,hg,fun hn => absurd (hn d) (by simp)⟩

theorem run_started (acts : List Action) (s : State) (k : Uuid) (r : Receipt)
    (h : s.rows.get k = some r) (hw : waiting r.status = false) (he : r.status ≠ .executing) :
    ∃ r', (run step acts s).rows.get k = some r' ∧ r'.status ≠ .executing := by
  induction acts generalizing s r with
  | nil => exact ⟨r,h,he⟩
  | cons a acts ih =>
    obtain ⟨r',hr',hstep⟩ := step_row s a k r h
    obtain ⟨hw',he'⟩ := hstep.started hw
    exact ih (step s a) r' hr' hw' (fun hx => he (he' hx))

theorem markInterrupted_row (s : State) (k : Uuid) (r' : Receipt)
    (h : (step s .markInterrupted).rows.get k = some r') : r'.status ≠ .executing := by
  have hg := (get_markInterrupted s.rows k).symm.trans h
  cases hr : s.rows.get k with
  | none => rw [hr] at hg; simp at hg
  | some r =>
    rw [hr, Option.map_some, Option.some.injEq] at hg
    subst hg
    by_cases hc : r.status = .executing
    · simp [hc, Receipt.interrupt]
    · simp [hc]

theorem step_settled (s : State) (a : Action) (k : Uuid) (r' : Receipt)
    (hr' : (step s a).rows.get k = some r') (hs : r'.status = .done ∨ r'.status = .failed) :
    ∃ r, s.rows.get k = some r ∧ (r.status = r'.status ∨ r.status.open) := by
  cases hr : s.rows.get k with
  | none =>
    obtain ⟨p,status,rfl,hst,_⟩ := step_new s a k r' hr hr'
    rcases hst with rfl | rfl <;> simp [NewReceipt.row] at hs
  | some r =>
    obtain ⟨r'',hr'',hstep⟩ := step_row s a k r hr
    obtain rfl := Option.some.inj (hr''.symm.trans hr')
    refine ⟨r,rfl,?_⟩
    cases hstep with
    | same => exact Or.inl rfl
    | link deployment => exact Or.inl rfl
    | approve project user label h => simp [Receipt.approve] at hs
    | consume project hash run h => simp [Receipt.consume] at hs
    | finish outcome detail h => exact Or.inr h
    | interrupt h => simp [Receipt.interrupt] at hs
    | expire h => simp [Receipt.expire] at hs
    | reconcile d hd h => exact Or.inr h

/-- Over every run of the statements, then every later run: final receipts,
approvals and the executions they let start, the way to an outcome, and the
boot. -/
theorem receipt_lifecycle (acts later : List Action) :
    (∀ k r, (run step acts start).rows.get k = some r → r.status.final →
      ∃ deployment, (run step later (run step acts start)).rows.get k =
          some { r with deploymentUuid := deployment } ∧
        ((∀ d, .linkDeployment k d ∉ later) → deployment = r.deploymentUuid)) ∧
    (((run step acts start).approvals.map Prod.fst).Nodup ∧
      ((run step acts start).starts.map Start.receipt).Nodup ∧
      ∀ e ∈ (run step acts start).starts, Rests (run step acts start) e) ∧
    (∀ a k r', (step (run step acts start) a).rows.get k = some r' →
      r'.status = .done ∨ r'.status = .failed →
      ∃ r, (run step acts start).rows.get k = some r ∧ (r.status = r'.status ∨ r.status.open)) ∧
    (∀ k r, (step (run step acts start) .markInterrupted).rows.get k = some r →
      r.status ≠ .executing) ∧
    ∀ k r, (run step acts start).rows.get k = some r → r.consumedAt.isSome →
      ∃ r', (run step later (step (run step acts start) .markInterrupted)).rows.get k = some r' ∧
        r'.status ≠ .executing := by
  have h := run_inv acts
  generalize run step acts start = s at h ⊢
  refine ⟨fun k r hr hf => run_final later s k r hr hf,⟨h.approvedOnce,h.startedOnce,h.rests⟩,
    fun a k r' hr' hs => step_settled s a k r' hr' hs,
    fun k r hr => markInterrupted_row s k r hr,fun k r hr hc => ?_⟩
  obtain ⟨r',hr',hstep⟩ := step_row s .markInterrupted k r hr
  exact run_started later _ k r' hr' (hstep.started (h.consumed k r hr hc)).1
    (markInterrupted_row s k r' hr')

/-- A tool call of the agent, cut by a restart. -/
def toolCall : NewReceipt := ⟨some 1,none,none,none,none,some 5,some "trigger_deploy",none,none,"h"⟩

def cutCall : List Action := [.begin 9 toolCall,.markInterrupted]

/-- Its outcome, known only after the restart. -/
def cleared : Receipt :=
  ((toolCall.row .executing 0).interrupt).finish .done none 0

theorem done_after_unknown :
    ¬ ∀ (acts : List Action) (a : Action) (k : Uuid) (r' : Receipt),
      (step (run step acts start) a).rows.get k = some r' →
      r'.status = .done ∨ r'.status = .failed →
      ∃ r, (run step acts start).rows.get k = some r ∧
        (r.status = r'.status ∨ r.status = .executing) := by
  intro h
  have hs : ((run step cutCall start).rows.get 9).map Receipt.status = some .unknown := by
    decide +kernel
  obtain ⟨r,hr,hst⟩ := h cutCall (.finish 9 .done none) 9 cleared (by decide +kernel) (Or.inl rfl)
  rw [hr, Option.map_some, Option.some.injEq] at hs
  rw [hs] at hst
  rcases hst with hst | hst <;> exact absurd hst (by decide)

end DevForge.ReceiptRows
