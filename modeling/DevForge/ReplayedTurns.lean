import DevForge.ReplayGuard

/-!
# No replay without a new approval

Every execution of the run leaves a receipt that later turns find, and a call
let through finds none of an action that has not failed, unless an approval
was given since.
-/

set_option autoImplicit false

namespace DevForge.ReplayedTurns
open DeployQueue (Deployment)
open Receipts ReplayGuard Transition
open ReceiptRows (RowStep waiting step_row step_new)

variable (c : Setting)

/-- What the receipt of an execution looks like, by how it ended. -/
def Recorded (deployments : Table Uuid Deployment) (e : Execution) (r : Receipt) : Prop :=
  r.runUuid = some c.run ∧ r.actionHash = e.hash ∧
  match e.ended with
  | none | some (.cancelled,_) => r.status.open ∧ r.deploymentUuid = none
  | some (.ok none,_) => r.status = .done
  | some (.ok (some deployment),_) => r.deploymentUuid = some deployment ∧
      (r.status.open ∨ r.status = .done ∨
        (r.status = .failed ∧ didFail deployments e))
  | some (.failed,_) => r.status = .failed

/-- An earlier execution that has not failed was followed by an approval. -/
def Approved (s : State) (e f : Execution) : Prop :=
  e.hash = f.hash → e.turn < f.turn → didFail s.db.deployments e = false →
    ∃ t ∈ s.approvals, e.instant < t ∧ t ≤ f.startedAt

def Cleared (s : State) (hash : String) (limit : Instant) : Prop :=
  ∀ e ∈ s.executions, e.hash = hash → e.turn < s.turn → didFail s.db.deployments e = false →
    ∃ t ∈ s.approvals, e.instant < t ∧ t ≤ limit

structure Inv (s : State) : Prop where
  quiet : s.db.proposals = []
  created : ∀ k r, s.row k = some r → r.createdAt ≤ s.now
  distinct : ∀ k k' r r', s.row k = some r → s.row k' = some r' → r.createdAt = r'.createdAt → k = k'
  turnStarted : s.turnStarted ≤ s.now
  unlinked : ∀ k r, s.row k = some r → waiting r.status → r.deploymentUuid = none
  recorded : ∀ e ∈ s.started, ∃ k r, e.receipt = some k ∧ s.row k = some r ∧
    Recorded c s.db.deployments e r ∧ (e.turn < s.turn → r.createdAt < s.turnStarted) ∧
    (e.turn = s.turn → s.turnStarted ≤ r.createdAt)
  alone : (s.started.map Execution.receipt).Nodup
  turns : ∀ e ∈ s.started, e.turn ≤ s.turn
  inFlight : ∀ call e, s.phase = .executing call e →
    e.turn = s.turn ∧ e.hash = call.hash ∧ e.ended = none ∧ Cleared s call.hash e.startedAt
  checked : ∀ call, s.phase = .checked call → Cleared s call.hash s.now
  granted : ∀ g, s.granted = some g → g ∈ s.approvals ∧ g ≤ s.now
  approved : s.executions.Pairwise (Approved s)
  skips : ∀ k ∈ s.skips, k.repeated = false
  /-- In the turn of an action, its newest older receipt is not done. -/
  notDone : ∀ hash k r, active s hash → isNewest c s hash (some k) → s.row k = some r →
    r.status ≠ .done

theorem isNewest_iff (s : State) (hash : String) (k : Uuid) :
    isNewest c s hash (some k) ↔ ∃ r, s.row k = some r ∧ candidate c s hash r ∧
      ∀ k' r', s.row k' = some r' → candidate c s hash r' → r'.createdAt ≤ r.createdAt := by
  simp only [isNewest, Option.any_eq_true, Bool.and_eq_true, List.all_eq_true, Bool.or_eq_true,
    Bool.not_eq_true', decide_eq_true_eq, Prod.forall]
  apply exists_congr
  intro r
  apply and_congr_right
  intro _
  apply and_congr_right
  intro _
  constructor
  · intro h k' r' hr' hc
    have := h k' r' ((Table.mem_iff_get _ _ _).mpr hr')
    simpa [hc] using this
  · intro h k' r' hm
    by_cases hc : candidate c s hash r'
    · exact Or.inr (h k' r' ((Table.mem_iff_get _ _ _).mp hm) hc)
    · exact Or.inl (by simpa using hc)

theorem isNewest_none (s : State) (hash : String) (h : isNewest c s hash none) (k : Uuid)
    (r : Receipt) (hr : s.row k = some r) : candidate c s hash r = false := by
  simp only [isNewest, List.all_eq_true, Bool.not_eq_true', Prod.forall] at h
  exact h k r ((Table.mem_iff_get _ _ _).mpr hr)

theorem start_inv : Inv c start := by
  constructor <;> simp [start, State.started, State.row, State.now, ReceiptRows.start, active]

/-! ## Changes of the receipts under the executions -/

/-- The deployments that have ended keep the status they ended with. -/
def Settles (deployments deployments' : Table Uuid Deployment) : Prop :=
  ∀ k d, deployments.get k = some d → d.status.settled →
    ∃ d', deployments'.get k = some d' ∧ d'.status = d.status

theorem didFail_settles (deployments deployments' : Table Uuid Deployment) (e : Execution)
    (hs : Settles deployments deployments') (h : didFail deployments e) : didFail deployments' e := by
  unfold didFail at h ⊢
  split at h
  · rfl
  · rename_i k _ _
    obtain ⟨d,hd,hf⟩ := (Option.any_eq_true _ _).mp h
    simp only [Bool.and_eq_true, decide_eq_true_eq] at hf
    obtain ⟨d',hd',hst⟩ := hs k d hd hf.1
    simp [hd', hst, hf]
  · simp at h

theorem Recorded.settles {deployments deployments' : Table Uuid Deployment} {e : Execution}
    {r : Receipt} (hs : Settles deployments deployments') (h : Recorded c deployments e r) :
    Recorded c deployments' e r := by
  obtain ⟨hrun,hhash,hst⟩ := h
  refine ⟨hrun,hhash,?_⟩
  split at hst
  · exact hst
  · exact hst
  · exact hst
  · obtain ⟨hd,ho | ho | ⟨hf,hdf⟩⟩ := hst
    · exact ⟨hd,Or.inl ho⟩
    · exact ⟨hd,Or.inr (Or.inl ho)⟩
    · exact ⟨hd,Or.inr (Or.inr ⟨hf,didFail_settles _ _ e hs hdf⟩)⟩
  · exact hst

theorem Recorded.started {deployments : Table Uuid Deployment} {e : Execution} {r : Receipt}
    (h : Recorded c deployments e r) : waiting r.status = false := by
  have hopen : r.status.open → waiting r.status = false := by
    intro ho
    cases hs : r.status <;> simp [hs, Status.open] at ho <;> rfl
  obtain ⟨_,_,hst⟩ := h
  split at hst
  · exact hopen hst.1
  · exact hopen hst.1
  · rw [hst]; rfl
  · obtain ⟨_,ho | ho | ⟨ho,_⟩⟩ := hst
    · exact hopen ho
    · rw [ho]; rfl
    · rw [ho]; rfl
  · rw [hst]; rfl

theorem endedDeployment_some {deployments : Table Uuid Deployment} {r : Receipt} {d : Deployment}
    (h : endedDeployment deployments r = some d) :
    ∃ k, r.deploymentUuid = some k ∧ deployments.get k = some d ∧ d.status.settled := by
  unfold endedDeployment at h
  obtain ⟨hb,hd⟩ := Option.filter_eq_some_iff.mp h
  obtain ⟨k,hk,hg⟩ := Option.bind_eq_some_iff.mp hb
  exact ⟨k,hk,hg,hd⟩

/-- What happens to the receipt of an execution while it is not its end. -/
theorem Recorded.row {s : ReceiptRows.State} {k : Uuid} {r r' : Receipt} {a : ReceiptRows.Action}
    {e : Execution} (h : Recorded c s.deployments e r) (hstep : RowStep s k r a r')
    (hfin : ∀ outcome detail, a ≠ .finish k outcome detail)
    (hlink : ∀ d, a ≠ .linkDeployment k d) : Recorded c s.deployments e r' := by
  have hw := h.started
  cases hstep with
  | same => exact h
  | link d => exact absurd rfl (hlink d)
  | approve project user label ha => simp [approvable] at ha; simp [ha.1.2, waiting] at hw
  | consume project hash run ha => simp [consumable] at ha; simp [ha.1.2, waiting] at hw
  | finish outcome detail ho => exact absurd rfl (hfin outcome detail)
  | expire hs => cases hr : r.status <;> simp [hr, Receipt.stale, waiting] at hs hw
  | interrupt hx =>
    obtain ⟨hrun,hhash,hst⟩ := h
    refine ⟨hrun,hhash,?_⟩
    split at hst
    · exact ⟨rfl,hst.2⟩
    · exact ⟨rfl,hst.2⟩
    · simp [hst] at hx
    · exact ⟨hst.1,Or.inl rfl⟩
    · simp [hst] at hx
  | reconcile d hd ho =>
    obtain ⟨k',hk',hg,hset⟩ := endedDeployment_some hd
    obtain ⟨hrun,hhash,hst⟩ := h
    refine ⟨hrun,hhash,?_⟩
    split at hst
    · simp [hst.2] at hk'
    · simp [hst.2] at hk'
    · simp [hst, Status.open] at ho
    · rename_i deployment t he
      obtain rfl : deployment = k' := Option.some.inj (hst.1.symm.trans hk')
      refine ⟨hst.1,Or.inr ?_⟩
      by_cases hsucc : d.status = .success
      · exact Or.inl (by simp [Receipt.reconciled, hsucc])
      · exact Or.inr ⟨by simp [Receipt.reconciled, hsucc],by simp [didFail, he, hg, hset, hsucc]⟩
    · simp [hst, Status.open] at ho

/-- The older receipts of the actions of the turn keep their place. -/
theorem candidate_row {s : State} {k : Uuid} {r r' : Receipt} {a : ReceiptRows.Action}
    (hstep : RowStep s.db k r a r')
    (hfin : ∀ outcome detail, a = .finish k outcome detail → s.turnStarted ≤ r.createdAt)
    (hcons : ∀ p hash run, a = .consume k p hash run → s.turnStarted ≤ r.createdAt)
    (hrec : a = .reconcile → r.status.open → (endedDeployment s.db.deployments r).isSome →
      r.runUuid = some c.run → r.createdAt < s.turnStarted → active s r.actionHash = false)
    (hash : String) (hact : active s hash) :
    candidate c s hash r' = candidate c s hash r ∧
      (candidate c s hash r → (r'.status = .done ↔ r.status = .done)) := by
  have hlate : ∀ q : Receipt, s.turnStarted ≤ q.createdAt → candidate c s hash q = false := by
    intro q hq
    simp [candidate, Nat.not_lt.mpr hq]
  cases hstep with
  | same => exact ⟨rfl,fun _ => Iff.rfl⟩
  | link d => exact ⟨rfl,fun _ => Iff.rfl⟩
  | approve project user label ha =>
    simp [approvable] at ha
    simp [candidate, ha.1.2, Receipt.approve, Status.open]
  | consume project hash' run ha =>
    have hr := hlate r (hcons _ _ _ rfl)
    have hr' := hlate (r.consume run s.db.now) (hcons _ _ _ rfl)
    exact ⟨hr'.trans hr.symm,fun h => absurd (hr.symm.trans h) (by decide)⟩
  | finish outcome detail ho =>
    have hr := hlate r (hfin _ _ rfl)
    have hr' := hlate (r.finish outcome detail s.db.now) (hfin _ _ rfl)
    exact ⟨hr'.trans hr.symm,fun h => absurd (hr.symm.trans h) (by decide)⟩
  | interrupt hx =>
    constructor
    · simp [candidate, hx, Receipt.interrupt, Status.open]
      rfl
    · simp [hx, Receipt.interrupt]
  | expire hs =>
    have hne : r.status = .pending ∨ r.status = .approved := by
      simp only [Receipt.stale, Bool.and_eq_true, Bool.or_eq_true, decide_eq_true_eq] at hs
      exact hs.1
    rcases hne with hx | hx <;> simp [candidate, hx, Receipt.expire, Status.open]
  | reconcile d hd ho =>
    by_cases hc : r.runUuid = some c.run ∧ r.actionHash = hash ∧ r.createdAt < s.turnStarted
    · have := hrec rfl ho (by simp [hd]) hc.1 hc.2.2
      rw [hc.2.1, hact] at this
      exact absurd this (by decide)
    · have hnot : ∀ q : Receipt, q.runUuid = r.runUuid → q.actionHash = r.actionHash →
          q.createdAt = r.createdAt → candidate c s hash q = false := by
        intro q hq1 hq2 hq3
        simp only [candidate, hq1, hq2, hq3, Bool.and_eq_false_iff, decide_eq_false_iff_not]
        by_contra hn
        simp only [not_or, not_not] at hn
        exact hc ⟨hn.1.1.1,hn.1.1.2,hn.1.2⟩
      have hr := hnot r rfl rfl rfl
      have hr' := hnot (r.reconciled d s.db.now) rfl rfl rfl
      exact ⟨hr'.trans hr.symm,fun h => absurd (hr.symm.trans h) (by decide)⟩

/-- What a change of the receipts keeps, for the run. -/
structure Kept (s : State) (db : ReceiptRows.State) : Prop where
  quiet : db.proposals = []
  now : s.now ≤ db.now
  settles : Settles s.db.deployments db.deployments
  row : ∀ k r, s.row k = some r → ∃ r', db.rows.get k = some r' ∧ r'.createdAt = r.createdAt ∧
    (waiting r'.status → waiting r.status ∧ r'.deploymentUuid = r.deploymentUuid) ∧
    ∀ hash, active s hash → candidate c s hash r' = candidate c s hash r ∧
      (candidate c s hash r → (r'.status = .done ↔ r.status = .done))
  fresh : ∀ k r', s.row k = none → db.rows.get k = some r' →
    s.now < r'.createdAt ∧ r'.createdAt ≤ db.now ∧
    (waiting r'.status → r'.deploymentUuid = none)
  once : ∀ k k' r r', s.row k = none → db.rows.get k = some r → s.row k' = none →
    db.rows.get k' = some r' → k = k'

variable {c} in
theorem Kept.created {s : State} {db : ReceiptRows.State} (hk : Kept c s db) (h : Inv c s)
    (k : Uuid) (r' : Receipt) (hr' : db.rows.get k = some r') : r'.createdAt ≤ db.now := by
  cases hr : s.row k with
  | none => exact (hk.fresh k r' hr hr').2.1
  | some r =>
    obtain ⟨r'',hr'',hc,_⟩ := hk.row k r hr
    obtain rfl := Option.some.inj (hr''.symm.trans hr')
    rw [hc]
    exact le_trans (h.created k r hr) hk.now

variable {c} in
theorem Kept.distinct {s : State} {db : ReceiptRows.State} (hk : Kept c s db) (h : Inv c s)
    (k k' : Uuid) (r r' : Receipt) (hr : db.rows.get k = some r) (hr' : db.rows.get k' = some r')
    (heq : r.createdAt = r'.createdAt) : k = k' := by
  have hnew : ∀ k k' r r', db.rows.get k = some r → db.rows.get k' = some r' → s.row k = none →
      ∀ q, s.row k' = some q → r'.createdAt < r.createdAt := by
    intro k k' r r' hr hr' hn q hq
    obtain ⟨r'',hr'',hc,_⟩ := hk.row k' q hq
    obtain rfl := Option.some.inj (hr''.symm.trans hr')
    rw [hc]
    exact lt_of_le_of_lt (h.created k' q hq) (hk.fresh k r hn hr).1
  cases hq : s.row k with
  | none =>
    cases hq' : s.row k' with
    | none => exact hk.once k k' r r' hq hr hq' hr'
    | some q' => exact absurd heq (Nat.ne_of_gt (hnew k k' r r' hr hr' hq q' hq'))
  | some q =>
    cases hq' : s.row k' with
    | none => exact absurd heq (Nat.ne_of_lt (hnew k' k r' r hr' hr hq' q hq))
    | some q' =>
      obtain ⟨x,hx,hc,_⟩ := hk.row k q hq
      obtain ⟨x',hx',hc',_⟩ := hk.row k' q' hq'
      obtain rfl := Option.some.inj (hx.symm.trans hr)
      obtain rfl := Option.some.inj (hx'.symm.trans hr')
      exact h.distinct k k' q q' hq hq' (by rw [← hc, ← hc', heq])

variable {c} in
theorem Kept.unlinked {s : State} {db : ReceiptRows.State} (hk : Kept c s db) (h : Inv c s)
    (k : Uuid) (r' : Receipt) (hr' : db.rows.get k = some r') (hw : waiting r'.status) :
    r'.deploymentUuid = none := by
  cases hr : s.row k with
  | none => exact (hk.fresh k r' hr hr').2.2 hw
  | some r =>
    obtain ⟨r'',hr'',_,hu,_⟩ := hk.row k r hr
    obtain rfl := Option.some.inj (hr''.symm.trans hr')
    exact (hu hw).2.trans (h.unlinked k r hr (hu hw).1)

variable {c} in
/-- The newest older receipt of an action of the turn is the one it was. -/
theorem Kept.notDone {s : State} (s' : State) (hk : Kept c s s'.db) (h : Inv c s)
    (hts : s'.turnStarted = s.turnStarted) (hash : String) (k : Uuid) (r' : Receipt)
    (hact : active s hash) (hnew : isNewest c s' hash (some k)) (hr' : s'.row k = some r') :
    r'.status ≠ .done := by
  have hsame : ∀ q, candidate c s' hash q = candidate c s hash q := by
    intro q
    simp [candidate, hts]
  obtain ⟨q,hq,hcand,hmax⟩ := (isNewest_iff c s' hash k).mp hnew
  obtain rfl := Option.some.inj (hq.symm.trans hr')
  rw [hsame] at hcand
  cases hr : s.row k with
  | none =>
    have hlt := lt_of_le_of_lt h.turnStarted (hk.fresh k q hr hr').1
    simp only [candidate, Bool.and_eq_true, decide_eq_true_eq] at hcand
    exact absurd hcand.1.2 (Nat.lt_asymm hlt)
  | some r =>
    obtain ⟨x,hx,hc,_,hkeep⟩ := hk.row k r hr
    obtain rfl := Option.some.inj (hx.symm.trans hr')
    obtain ⟨hce,hdone⟩ := hkeep hash hact
    have hcr : candidate c s hash r := hce ▸ hcand
    have hold : isNewest c s hash (some k) := by
      apply (isNewest_iff c s hash k).mpr
      refine ⟨r,hr,hcr,?_⟩
      intro k2 r2 hr2 hc2
      obtain ⟨x2,hx2,hcx2,_,hkeep2⟩ := hk.row k2 r2 hr2
      have := hmax k2 x2 hx2 (by rw [hsame, (hkeep2 hash hact).1]; exact hc2)
      rw [← hc, ← hcx2]
      exact this
    intro hd
    exact h.notDone hash k r hact hold hr ((hdone hcr).mp hd)

theorem Approved.mono {s : State} (s' : State) (hs : Settles s.db.deployments s'.db.deployments)
    (ha : s.approvals ⊆ s'.approvals) {e f : Execution} (h : Approved s e f) : Approved s' e f := by
  intro hh ht hf
  have hf' : didFail s.db.deployments e = false := by
    by_contra hc
    have := didFail_settles _ _ e hs (by simpa using hc)
    simp [this] at hf
  obtain ⟨t,hm,ht⟩ := h hh ht hf'
  exact ⟨t,ha hm,ht⟩

theorem Cleared.mono {s : State} (s' : State) (hs : Settles s.db.deployments s'.db.deployments)
    (ha : s.approvals ⊆ s'.approvals) (he : s'.executions = s.executions) (ht : s'.turn = s.turn)
    {hash : String} {limit limit' : Instant} (hl : limit ≤ limit') (h : Cleared s hash limit) :
    Cleared s' hash limit' := by
  intro e hm hh htn hf
  have hf' : didFail s.db.deployments e = false := by
    by_contra hc
    have := didFail_settles _ _ e hs (by simpa using hc)
    simp [this] at hf
  obtain ⟨t,hm',hlt,hle⟩ := h e (he ▸ hm) hh (ht ▸ htn) hf'
  exact ⟨t,ha hm',hlt,le_trans hle hl⟩

theorem Settles.refl (deployments : Table Uuid Deployment) : Settles deployments deployments :=
  fun _ d hd _ => ⟨d,hd,rfl⟩

variable {c} in
theorem Inv.change {s : State} (h : Inv c s) (db : ReceiptRows.State) (hk : Kept c s db)
    (hrec : ∀ e ∈ s.started, ∀ k r r', e.receipt = some k → s.row k = some r →
      db.rows.get k = some r' → Recorded c s.db.deployments e r →
      Recorded c db.deployments e r') : Inv c { s with db := db } := by
  have hsub : s.approvals ⊆ s.approvals := fun _ hm => hm
  have hcleared : ∀ hash limit limit', limit ≤ limit' → Cleared s hash limit →
      Cleared { s with db := db } hash limit' :=
    fun _ _ _ hl hc => hc.mono { s with db := db } hk.settles hsub rfl rfl hl
  constructor
  · exact hk.quiet
  · exact hk.created h
  · exact hk.distinct h
  · exact le_trans h.turnStarted hk.now
  · exact hk.unlinked h
  · intro e he
    obtain ⟨k,r,hek,hr,hrc,hlt,hge⟩ := h.recorded e he
    obtain ⟨r',hr',hc,_⟩ := hk.row k r hr
    exact ⟨k,r',hek,hr',hrec e he k r r' hek hr hr' hrc,hc ▸ hlt,hc ▸ hge⟩
  · exact h.alone
  · exact h.turns
  · intro call e hp
    obtain ⟨h1,h2,h3,h4⟩ := h.inFlight call e hp
    exact ⟨h1,h2,h3,hcleared _ _ _ le_rfl h4⟩
  · intro call hp
    exact hcleared _ _ _ hk.now (h.checked call hp)
  · intro g hg
    exact ⟨(h.granted g hg).1,le_trans (h.granted g hg).2 hk.now⟩
  · have happ : ∀ {e f}, Approved s e f → Approved { s with db := db } e f :=
      fun hx => hx.mono { s with db := db } hk.settles hsub
    exact h.approved.imp happ
  · exact h.skips
  · intro hash k r hact hnew hr
    exact hk.notDone { s with db := db } h rfl hash k r hact hnew hr

/-- A statement that inserts no row and settles no older receipt of the turn. -/
theorem Kept.statement (s : State) (a : ReceiptRows.Action) (hq : s.db.proposals = [])
    (hp : (ReceiptRows.step s.db a).proposals = s.db.proposals)
    (hs : Settles s.db.deployments (ReceiptRows.step s.db a).deployments)
    (hi : ∀ i k, a ≠ .insertProposal i k) (hb : ∀ k p, a ≠ .begin k p)
    (hfin : ∀ k r outcome detail, a = .finish k outcome detail → s.row k = some r →
      s.turnStarted ≤ r.createdAt)
    (hcons : ∀ k r p hash run, a = .consume k p hash run → s.row k = some r →
      s.turnStarted ≤ r.createdAt)
    (hlink : ∀ k r d, a = .linkDeployment k d → s.row k = some r → waiting r.status = false)
    (hrec : a = .reconcile → orderly c s .reconcile) :
    Kept c s (ReceiptRows.step s.db a) := by
  have hnew : ∀ k r', s.row k = none → (ReceiptRows.step s.db a).rows.get k ≠ some r' := by
    intro k r' hr hr'
    obtain ⟨_,_,_,_,⟨i,ha⟩ | ⟨p,ha⟩⟩ := step_new s.db a k r' hr hr'
    · exact hi i k ha
    · exact hb k p ha
  constructor
  · exact hp.trans hq
  · exact ReceiptRows.step_now s.db a
  · exact hs
  · intro k r hr
    obtain ⟨r',hr',hstep⟩ := step_row s.db a k r hr
    refine ⟨r',hr',hstep.kept.2.2,?_,?_⟩
    · intro hw
      by_cases hwr : waiting r.status
      · refine ⟨hwr,?_⟩
        cases hstep with
        | link d => exact absurd (hlink k r d rfl hr) (by simp [hwr])
        | _ => rfl
      · have := (hstep.started (by simpa using hwr)).1
        simp [hw] at this
    · apply candidate_row c hstep
      · intro outcome detail ha
        exact hfin k r outcome detail ha hr
      · intro p hash run ha
        exact hcons k r p hash run ha hr
      · intro ha ho hd hrun hlt
        have hord := hrec ha
        simp only [orderly, List.all_eq_true, Prod.forall] at hord
        have := hord k r ((Table.mem_iff_get _ _ _).mpr hr)
        simpa [ho, hd, hrun, hlt] using this
  · intro k r' hr hr'
    exact absurd hr' (hnew k r' hr)
  · intro k k' r r' hr hr'
    exact absurd hr' (hnew k r hr)

/-- The receipts, one second later, with a new row. -/
def inserted (s : State) (fresh : Uuid) (p : NewReceipt) (status : Status) : ReceiptRows.State :=
  { s.db with
    now := s.db.now+1
    rows := Receipts.insert fresh p status (s.db.now+1) s.db.rows }

theorem Kept.insertion (s : State) (fresh : Uuid) (p : NewReceipt) (status : Status)
    (hq : s.db.proposals = []) (hp : waiting status → p.deploymentUuid = none) :
    Kept c s (inserted s fresh p status) := by
  have hnew : ∀ k r', s.row k = none → (inserted s fresh p status).rows.get k = some r' →
      k = fresh ∧ r' = p.row status (s.db.now+1) := by
    intro k r' hr hr'
    have hg := (get_insert fresh p status (s.db.now+1) s.db.rows k).symm.trans hr'
    split at hg
    · rename_i hk
      exact ⟨hk.1,(Option.some.inj hg).symm⟩
    · exact absurd (hr.symm.trans hg) (by simp)
  constructor
  · exact hq
  · exact Nat.le_succ _
  · exact Settles.refl _
  · intro k r hr
    refine ⟨r,ReceiptRows.insert_row fresh p status _ s.db.rows k r hr,rfl,?_,?_⟩
    · exact fun hw => ⟨hw,rfl⟩
    · exact fun hash _ => ⟨rfl,fun _ => Iff.rfl⟩
  · intro k r' hr hr'
    obtain ⟨_,rfl⟩ := hnew k r' hr hr'
    exact ⟨Nat.lt_succ_self _,le_rfl,hp⟩
  · intro k k' r r' hr hr' hr2 hr2'
    exact (hnew k r hr hr').1.trans (hnew k' r' hr2 hr2').1.symm

variable {c} in
theorem Inv.inserted {s : State} (h : Inv c s) (fresh : Uuid) (p : NewReceipt) (status : Status)
    (hp : waiting status → p.deploymentUuid = none) :
    Inv c { s with db := inserted s fresh p status } := by
  apply h.change _ (Kept.insertion c s fresh p status h.quiet hp)
  intro e _ k r r' _ hr hr' hrec
  have hsame := ReceiptRows.insert_row fresh p status (s.db.now+1) s.db.rows k r hr
  obtain rfl := Option.some.inj (hsame.symm.trans hr')
  exact hrec

variable {c} in
/-- The statements of others, that concern no execution of the run. -/
theorem Inv.statement {s : State} (h : Inv c s) (a : ReceiptRows.Action)
    (hk : Kept c s (ReceiptRows.step s.db a))
    (hfin : ∀ k outcome detail, a ≠ .finish k outcome detail)
    (hlink : ∀ k d, a ≠ .linkDeployment k d) : Inv c (s.dbStep a) := by
  apply h.change _ hk
  intro e _ k r r' _ hr hr' hrec
  obtain ⟨r'',hr'',hstep⟩ := step_row s.db a k r hr
  obtain rfl := Option.some.inj (hr''.symm.trans hr')
  exact (hrec.row c hstep (hfin k) (hlink k)).settles c hk.settles

/-! ## The actions -/

variable {c} in
theorem Inv.tick {s : State} (h : Inv c s) (seconds : ℕ) : Inv c (s.dbStep (.tick seconds)) := by
  have hk : Kept c s (ReceiptRows.step s.db (.tick seconds)) := by
    apply Kept.statement c s _ h.quiet rfl (Settles.refl _) <;> intros <;> simp_all
  exact h.statement _ hk (by simp) (by simp)

/-- Fields that no clause of the invariant reads. -/
theorem Inv.modes {s : State} (h : Inv c s) (autonomous unattended : Bool) :
    Inv c { s with autonomous := autonomous, unattended := unattended } :=
  ⟨h.quiet,h.created,h.distinct,h.turnStarted,h.unlinked,h.recorded,h.alone,h.turns,h.inFlight,
    h.checked,h.granted,h.approved,h.skips,h.notDone⟩

theorem Inv.grant {s : State} (h : Inv c s) :
    Inv c { s with granted := some s.now, approvals := s.approvals++[s.now] } := by
  have hsub : s.approvals ⊆ s.approvals++[s.now] := List.subset_append_left _ _
  have hcleared : ∀ hash limit, Cleared s hash limit →
      Cleared { s with granted := some s.now, approvals := s.approvals++[s.now] } hash limit :=
    fun _ _ hc => hc.mono (s := s) { s with granted := some s.now, approvals := s.approvals++[s.now] }
      (Settles.refl _) hsub rfl rfl le_rfl
  have happ : ∀ {e f}, Approved s e f →
      Approved { s with granted := some s.now, approvals := s.approvals++[s.now] } e f :=
    fun hx => hx.mono (s := s) { s with granted := some s.now, approvals := s.approvals++[s.now] }
      (Settles.refl _) hsub
  constructor
  · exact h.quiet
  · exact h.created
  · exact h.distinct
  · exact h.turnStarted
  · exact h.unlinked
  · exact h.recorded
  · exact h.alone
  · exact h.turns
  · intro call e hp
    obtain ⟨h1,h2,h3,h4⟩ := h.inFlight call e hp
    exact ⟨h1,h2,h3,hcleared _ _ h4⟩
  · intro call hp
    exact hcleared _ _ (h.checked call hp)
  · intro g hg
    obtain rfl := Option.some.inj hg
    exact ⟨by simp,le_rfl⟩
  · exact h.approved.imp happ
  · exact h.skips
  · exact h.notDone

variable {c} in
/-- The execution in progress counts among those it must not repeat. -/
theorem Inv.startedApproved {s : State} (h : Inv c s) : s.started.Pairwise (Approved s) := by
  rw [State.started]
  cases hp : s.phase with
  | executing call e =>
    obtain ⟨h1,h2,_,h4⟩ := h.inFlight call e hp
    apply List.pairwise_append.mpr
    refine ⟨h.approved,by simp,?_⟩
    intro x hx y hy hh ht hf
    obtain rfl := List.mem_singleton.mp hy
    exact h4 x hx (hh.trans h2) (h1 ▸ ht) hf
  | _ => simpa using h.approved

theorem Inv.cut {s : State} (h : Inv c s) :
    Inv c { s with phase := .paused, executions := s.started } := by
  have hst : ({ s with phase := .paused, executions := s.started } : State).started = s.started := by
    simp [State.started]
  constructor
  · exact h.quiet
  · exact h.created
  · exact h.distinct
  · exact h.turnStarted
  · exact h.unlinked
  · rw [hst]
    exact h.recorded
  · rw [hst]
    exact h.alone
  · rw [hst]
    exact h.turns
  · intro call e hp
    simp at hp
  · intro call hp
    simp at hp
  · exact h.granted
  · exact h.startedApproved
  · exact h.skips
  · intro hash k r hact
    simp [active] at hact

theorem Inv.resume {s : State} (h : Inv c s) (unattended : Bool) (gap : ℕ) (hp : s.phase = .paused) :
    Inv c { s.dbStep (.tick (gap+1)) with
      unattended := unattended, turn := s.turn+1, turnStarted := s.now+(gap+1), phase := .idle } := by
  have ht := h.tick (gap+1)
  have hst : ∀ db t u, ({ s with
      db := db, unattended := u, turn := s.turn+1, turnStarted := t, phase := .idle } : State).started =
      s.started := by
    intro db t u
    simp [State.started, hp]
  have hno : ∀ e ∈ s.started, e.turn ≠ s.turn+1 :=
    fun e he => Nat.ne_of_lt (Nat.lt_succ_of_le (h.turns e he))
  constructor
  · exact ht.quiet
  · exact ht.created
  · exact ht.distinct
  · exact le_rfl
  · exact ht.unlinked
  · intro e he
    have he' : e ∈ s.started := (hst _ _ _) ▸ he
    obtain ⟨k,r,hek,hr,hrc,_,_⟩ := h.recorded e he'
    refine ⟨k,r,hek,hr,hrc,?_,?_⟩
    · intro _
      exact Nat.lt_of_le_of_lt (h.created k r hr) (Nat.lt_add_of_pos_right (Nat.succ_pos gap))
    · intro heq
      exact absurd heq (hno e he')
  · exact (hst _ _ _).symm ▸ h.alone
  · intro e he
    exact Nat.le_succ_of_le (h.turns e ((hst _ _ _) ▸ he))
  · intro call e hp'
    simp at hp'
  · intro call hp'
    simp at hp'
  · exact ht.granted
  · exact h.approved
  · exact h.skips
  · intro hash k r hact
    simp only [active, List.any_eq_true, inThisTurn, Bool.and_eq_true, decide_eq_true_eq] at hact
    obtain ⟨e,he,_,heq⟩ := hact
    exact absurd heq (hno e ((hst _ _ _) ▸ he))

variable {c} in
theorem Inv.propose {s : State} (h : Inv c s) (call : Call) (fresh : Uuid) :
    Inv c (propose c s call fresh) := by
  have hq : (s.dbStep (.tick 1)).db.proposals = [] := h.quiet
  by_cases hl : liveProposal { toolReceipt c s call with approvedAt := none } (s.db.now+1) s.db.rows
  · have heq : ReplayGuard.propose c s call fresh = s.dbStep (.tick 1) := by
      simp [ReplayGuard.propose, State.dbStep, ReceiptRows.step, hl, h.quiet]
    rw [heq]
    exact h.tick 1
  · have heq : ReplayGuard.propose c s call fresh = { s with
        db := ReplayedTurns.inserted s fresh { toolReceipt c s call with approvedAt := none }
          .pending } := by
      simp [ReplayGuard.propose, State.dbStep, ReceiptRows.step, hl, h.quiet,
        ReplayedTurns.inserted]
    rw [heq]
    exact h.inserted fresh _ .pending (fun _ => rfl)

theorem Recorded.candidate {s : State} {e : Execution} {r : Receipt}
    (h : Recorded c s.db.deployments e r) (hlt : r.createdAt < s.turnStarted)
    (hf : didFail s.db.deployments e = false) : candidate c s e.hash r := by
  obtain ⟨hrun,hhash,hst⟩ := h
  have hfound : r.status = .done ∨ r.status.open := by
    split at hst
    · exact Or.inr hst.1
    · exact Or.inr hst.1
    · exact Or.inl hst
    · obtain ⟨_,ho | hd | ⟨_,hdf⟩⟩ := hst
      · exact Or.inr ho
      · exact Or.inl hd
      · simp [hf] at hdf
    · rename_i he
      simp [didFail, he] at hf
  simp [ReplayGuard.candidate, hrun, hhash, hlt, hfound]

variable {c} in
/-- A call let through by the receipts repeats nothing without an approval. -/
theorem Inv.cleared {s : State} (h : Inv c s) (call : Call) (picked : Option Uuid) (fresh : Uuid)
    (hp : s.phase = .idle) (hnew : isNewest c s call.hash picked) (hprior : prior s picked = .none)
    (hord : orderly c s (.check call picked fresh)) : Cleared s call.hash s.now := by
  intro e he hh ht hf
  have hst : e ∈ s.started := List.mem_append_left _ he
  obtain ⟨k,r,_,hr,hrec,hlt,_⟩ := h.recorded e hst
  have hcand := hrec.candidate c (hlt ht) hf
  rw [hh] at hcand
  cases picked with
  | none => simp [isNewest_none c s call.hash hnew k r hr] at hcand
  | some k' =>
    obtain ⟨q,hq,hqc,_⟩ := (isNewest_iff c s call.hash k').mp hnew
    simp only [prior, Option.bind_some, hq] at hprior
    by_cases hd : q.status = .done
    · simp [hd] at hprior
    · rw [if_neg hd] at hprior
      cases hg : s.granted with
      | none => simp [hg] at hprior
      | some g =>
        have hlate : q.createdAt < g := by
          by_contra hn
          simp [hg, hn] at hprior
        have hopen : q.status.open := by
          simp only [ReplayGuard.candidate, Bool.and_eq_true, Bool.or_eq_true, decide_eq_true_eq] at hqc
          exact hqc.2.resolve_left hd
        simp only [orderly, hp, Option.bind_some, hq, hg, hnew, hopen, hlate, Bool.and_self,
          decide_true, Bool.not_true, Bool.false_or, List.all_eq_true] at hord
        have := hord e he
        simp only [hh, ht, hf, decide_true, Bool.and_self, Bool.not_true, Bool.false_or,
          decide_eq_true_eq] at this
        exact ⟨g,(h.granted g hg).1,this,(h.granted g hg).2⟩

/-- A repetition of the turn is not answered from the receipts. -/
theorem Inv.skip {s : State} (h : Inv c s) (call : Call) (picked : Option Uuid)
    (hp : s.phase = .idle) (hnew : isNewest c s call.hash picked) (hprior : prior s picked = .done) :
    s.executions.any (inThisTurn s call.hash) = false := by
  by_contra hc
  cases picked with
  | none => simp [prior] at hprior
  | some k =>
    obtain ⟨r,hr,_⟩ := (isNewest_iff c s call.hash k).mp hnew
    have hact : active s call.hash := by
      simpa [active, hp, State.started] using hc
    have hd := h.notDone call.hash k r hact hnew hr
    simp only [prior, Option.bind_some, hr, if_neg hd] at hprior
    split at hprior <;> simp at hprior

theorem Inv.check {s : State} (h : Inv c s) (call : Call) (picked : Option Uuid) (fresh : Uuid)
    (hp : s.phase = .idle) (hord : orderly c s (.check call picked fresh)) :
    Inv c (check c s call picked fresh) := by
  simp only [ReplayGuard.check]
  split
  · exact h
  · rename_i hnew
    simp only [Bool.not_eq_true', Bool.not_eq_false] at hnew
    split
    · exact h.propose call fresh
    · split
      · rename_i hprior
        have hs := h.skip c call picked hp hnew hprior
        refine ⟨h.quiet,h.created,h.distinct,h.turnStarted,h.unlinked,h.recorded,h.alone,h.turns,
          h.inFlight,h.checked,h.granted,h.approved,?_,h.notDone⟩
        intro k hk
        rcases List.mem_append.mp hk with hk | hk
        · exact h.skips k hk
        · rw [List.mem_singleton.mp hk]
          exact hs
      · exact h
      · rename_i hprior
        have hst : ({ s with phase := .checked call } : State).started = s.started := by
          simp [State.started, hp]
        constructor
        · exact h.quiet
        · exact h.created
        · exact h.distinct
        · exact h.turnStarted
        · exact h.unlinked
        · rw [hst]
          exact h.recorded
        · rw [hst]
          exact h.alone
        · rw [hst]
          exact h.turns
        · intro call' e hp'
          simp at hp'
        · intro call' hp'
          obtain rfl := Phase.checked.inj hp'
          exact h.cleared call picked fresh hp hnew hprior hord
        · exact h.granted
        · exact h.approved
        · exact h.skips
        · intro hash k r hact hnew' hr hd
          have hact' : call.hash = hash ∨ active s hash := by
            simpa [active, hp, State.started, inThisTurn] using hact
          rcases hact' with heq | ha
          · subst heq
            -- the row that let the call through is this newest one
            cases picked with
            | none =>
              obtain ⟨q,hq,hqc,_⟩ := (isNewest_iff c _ call.hash k).mp hnew'
              have := isNewest_none c s call.hash hnew k q hq
              exact absurd hqc (by simpa [candidate] using this)
            | some k' =>
              obtain ⟨q,hq,hqc,hmax⟩ := (isNewest_iff c s call.hash k').mp hnew
              obtain ⟨q',hq',hqc',hmax'⟩ := (isNewest_iff c _ call.hash k).mp hnew'
              have hle := hmax k q' hq' hqc'
              have hle' := hmax' k' q hq hqc
              obtain rfl := h.distinct k k' q' q hq' hq (Nat.le_antisymm hle hle')
              obtain rfl := Option.some.inj (hq.symm.trans hr)
              simp [prior, hq, hd] at hprior
          · exact h.notDone hash k r ha hnew' hr hd

theorem Inv.execute {s : State} (h : Inv c s) (call : Call) (k : Uuid) (r : Receipt)
    (startedAt : Instant) (hp : s.phase = .checked call) (hcl : Cleared s call.hash startedAt)
    (hr : s.row k = some r) (hge : s.turnStarted ≤ r.createdAt) (hrun : r.runUuid = some c.run)
    (hhash : r.actionHash = call.hash) (hx : r.status = .executing)
    (hd : r.deploymentUuid = none) (hnk : ∀ e ∈ s.started, e.receipt ≠ some k) :
    Inv c (s.execute call (some k) startedAt) := by
  have hold : s.started = s.executions := by
    simp [State.started, hp]
  have hnew : (s.execute call (some k) startedAt).started =
      s.executions++[⟨some k,call.hash,s.turn,startedAt,none⟩] := rfl
  constructor
  · exact h.quiet
  · exact h.created
  · exact h.distinct
  · exact h.turnStarted
  · exact h.unlinked
  · intro e he
    rcases List.mem_append.mp (hnew ▸ he) with he | he
    · exact h.recorded e (hold ▸ he)
    · obtain rfl := List.mem_singleton.mp he
      refine ⟨k,r,rfl,hr,⟨hrun,hhash,by simp [hx, Status.open],hd⟩,?_,fun _ => hge⟩
      exact fun hlt => absurd hlt (Nat.lt_irrefl _)
  · rw [hnew, List.map_append]
    have hn := h.alone
    rw [hold] at hn hnk
    refine List.nodup_append.mpr ⟨hn,by simp,?_⟩
    intro x hx y hy hxy
    obtain ⟨e,he,rfl⟩ := List.mem_map.mp hx
    obtain rfl : y = some k := by simpa using hy
    exact hnk e he hxy
  · intro e he
    rcases List.mem_append.mp (hnew ▸ he) with he | he
    · exact h.turns e (hold ▸ he)
    · obtain rfl := List.mem_singleton.mp he
      exact le_rfl
  · intro call' e hp'
    obtain ⟨rfl,rfl⟩ := Phase.executing.inj hp'
    exact ⟨rfl,rfl,rfl,hcl⟩
  · intro call' hp'
    simp [State.execute] at hp'
  · exact h.granted
  · exact h.approved
  · exact h.skips
  · intro hash k' r' hact
    apply h.notDone hash k' r'
    have hact' : (s.executions.any (inThisTurn s hash) || call.hash = hash) = true := by
      simpa [active, State.execute, State.started, inThisTurn] using hact
    rw [active, hp]
    exact (Bool.or_comm _ _).trans hact'

theorem Inv.startCall {s : State} (h : Inv c s) (call : Call) (picked : Option Uuid) (fresh : Uuid)
    (hp : s.phase = .checked call) (hord : orderly c s (.startCall picked fresh)) :
    Inv c (startCall c s call picked fresh) := by
  have hcl := h.checked call hp
  cases picked with
  | some k =>
    simp only [ReplayGuard.startCall]
    split
    · rename_i hany
      obtain ⟨r,hr,hc⟩ := (Option.any_eq_true _ _).mp hany
      have hge : s.turnStarted ≤ r.createdAt := by
        simpa [orderly, hp, hr] using hord
      have hk : Kept c s (ReceiptRows.step s.db (.consume k c.project call.hash (some c.run))) := by
        apply Kept.statement c s _ h.quiet rfl (Settles.refl _) <;> intros <;> simp_all
      have hs := h.statement _ hk (by simp) (by simp)
      have hrow : (s.dbStep (.consume k c.project call.hash (some c.run))).row k =
          some (r.consume (some c.run) s.now) := by
        have hg := get_consume k c.project call.hash (some c.run) s.now s.db.rows k
        have hr' : s.db.rows.get k = some r := hr
        rw [hr', Option.map_some, if_pos (by simp [hc])] at hg
        exact hg
      simp only [consumable, Bool.and_eq_true, decide_eq_true_eq] at hc
      apply hs.execute c call k _ s.now hp hcl hrow hge rfl hc.1.1.2 rfl
      · exact h.unlinked k r hr (by simp [waiting, hc.1.2])
      · intro e he hek
        obtain ⟨k',q,hek',hq,hrec,_⟩ := h.recorded e he
        obtain rfl := Option.some.inj (hek.symm.trans hek')
        obtain rfl := Option.some.inj (hr.symm.trans hq)
        have := hrec.started
        simp [waiting, hc.1.2] at this
    · exact h
  | none =>
    have hgate : ¬ (!publishAllowed s && autonomousAllowed s call) := by
      have hor : publishAllowed s = true ∨ autonomousAllowed s call = false := by
        simpa [orderly, hp] using hord
      rcases hor with hor | hor <;> simp [hor]
    simp only [ReplayGuard.startCall, if_neg hgate]
    split
    · exact h
    · rename_i hfresh
      have hs := h.inserted fresh (toolReceipt c s call) .executing (fun _ => rfl)
      have hrow : ({ s with db := ReplayedTurns.inserted s fresh (toolReceipt c s call) .executing }
          : State).row fresh = some ((toolReceipt c s call).row .executing (s.now+1)) := by
        have hg := get_insert fresh (toolReceipt c s call) .executing (s.now+1) s.db.rows fresh
        rw [if_pos ⟨rfl,hfresh⟩] at hg
        exact hg
      have hcl' : Cleared { s with
          db := ReplayedTurns.inserted s fresh (toolReceipt c s call) .executing } call.hash
          (s.now+1) :=
        hcl.mono (s := s) { s with
          db := ReplayedTurns.inserted s fresh (toolReceipt c s call) .executing }
          (Settles.refl _) (fun _ hm => hm) rfl rfl (Nat.le_succ _)
      apply hs.execute c call fresh _ (s.now+1) hp hcl' hrow
        (le_trans h.turnStarted (Nat.le_succ _)) rfl rfl rfl rfl
      intro e he hek
      obtain ⟨k',q,hek',hq,_⟩ := h.recorded e he
      obtain rfl := Option.some.inj (hek.symm.trans hek')
      exact hfresh (by_contra fun hn => by
        have := (Table.get_none_iff s.db.rows fresh).mpr hn
        exact absurd (hq.symm.trans this) (by simp))

/-- The end of an execution, in its receipt. -/
theorem Recorded.finished {s : State} {k : Uuid} {call : Call} {e : Execution} {r r' : Receipt}
    {ended : Ended} (h : Recorded c s.db.deployments e r) (he : e.ended = none)
    (hr : s.row k = some r)
    (hr' : (ReceiptRows.step s.db (finishReceipt k (launched call ended))).rows.get k = some r') :
    Recorded c s.db.deployments { e with ended := some (launched call ended,s.now) } r' := by
  obtain ⟨hrun,hhash,hst⟩ := h
  simp only [he] at hst
  obtain ⟨ho,hd⟩ := hst
  have hrow : s.db.rows.get k = some r := hr
  have hlink := fun d => get_linkDeployment k d s.db.rows k
  have hfin := fun outcome => get_finish k outcome none s.db.now s.db.rows k
  simp only [hrow, Option.map_some, if_true] at hlink
  simp only [hrow, Option.map_some, ho, Bool.and_true, decide_true, if_true] at hfin
  cases hl : launched call ended with
  | ok deployment =>
    rw [hl] at hr'
    cases deployment with
    | some d =>
      obtain rfl := Option.some.inj ((hlink d).symm.trans hr')
      exact ⟨hrun,hhash,rfl,Or.inl ho⟩
    | none =>
      obtain rfl := Option.some.inj ((hfin .done).symm.trans hr')
      exact ⟨hrun,hhash,rfl⟩
  | failed =>
    rw [hl] at hr'
    obtain rfl := Option.some.inj ((hfin .failed).symm.trans hr')
    exact ⟨hrun,hhash,rfl⟩
  | cancelled =>
    rw [hl] at hr'
    obtain rfl := Option.some.inj ((hfin .unknown).symm.trans hr')
    exact ⟨hrun,hhash,rfl,hd⟩

theorem finishReceipt_kept {s : State} (h : Inv c s) (k : Uuid) (r : Receipt) (ended : Ended)
    (hr : s.row k = some r) (hge : s.turnStarted ≤ r.createdAt) (hw : waiting r.status = false) :
    Kept c s (ReceiptRows.step s.db (finishReceipt k ended)) := by
  have hrow : ∀ q, s.row k = some q → q = r := by
    intro q hq
    exact Option.some.inj (hq.symm.trans hr)
  have hend : ∀ outcome, Kept c s (ReceiptRows.step s.db (.finish k outcome none)) := by
    intro outcome
    apply Kept.statement c s _ h.quiet rfl (Settles.refl _) <;> intros <;> simp_all
  cases ended with
  | ok deployment =>
    cases deployment with
    | none => exact hend .done
    | some d =>
      show Kept c s (ReceiptRows.step s.db (.linkDeployment k d))
      apply Kept.statement c s _ h.quiet rfl (Settles.refl _) <;> intros <;> simp_all
  | failed => exact hend .failed
  | cancelled => exact hend .unknown

theorem finishReceipt_key (k : Uuid) (ended : Ended) :
    (∀ k' outcome detail, finishReceipt k ended = .finish k' outcome detail → k' = k) ∧
    ∀ k' d, finishReceipt k ended = .linkDeployment k' d → k' = k := by
  cases ended with
  | ok deployment => cases deployment <;> simp_all [finishReceipt]
  | failed => simp_all [finishReceipt]
  | cancelled => simp_all [finishReceipt]

theorem Inv.finishCall {s : State} (h : Inv c s) (call : Call) (e : Execution) (ended : Ended)
    (hp : s.phase = .executing call e) : Inv c (finishCall s call e ended) := by
  have hold : s.started = s.executions++[e] := by
    simp [State.started, hp]
  have hmem : e ∈ s.started := by simp [hold]
  obtain ⟨hturn,hhash,hended,hcl⟩ := h.inFlight call e hp
  obtain ⟨k,r,hek,hr,hrec,_,hge⟩ := h.recorded e hmem
  have hk := finishReceipt_kept c h k r (launched call ended) hr (hge hturn) hrec.started
  have hothers : ∀ x ∈ s.executions, x.receipt ≠ some k := by
    intro x hx heq
    have hn := h.alone
    rw [hold, List.map_append] at hn
    have hdis := (List.nodup_append.mp hn).2.2
    exact hdis x.receipt (List.mem_map_of_mem hx) e.receipt (by simp) (heq.trans hek.symm)
  have hsub : s.approvals ⊆ s.approvals := fun _ hm => hm
  obtain ⟨s',hs'⟩ : ∃ s', s' = ReplayGuard.finishCall s call e ended := ⟨_,rfl⟩
  have hdb : s'.db = ReceiptRows.step s.db (finishReceipt k (launched call ended)) := by
    simp [hs', ReplayGuard.finishCall, hek, State.dbStep]
  have hex : s'.executions =
      s.executions++[{ e with ended := some (launched call ended,s.now) }] := by
    simp [hs', ReplayGuard.finishCall, hek, State.dbStep]
  have hph : s'.phase = if ended = .cancelled then .paused else .idle := by
    simp [hs', ReplayGuard.finishCall, hek, State.dbStep]
  have hsame : s'.turn = s.turn ∧ s'.turnStarted = s.turnStarted ∧ s'.approvals = s.approvals ∧
      s'.granted = s.granted ∧ s'.skips = s.skips := by
    simp [hs', ReplayGuard.finishCall, hek, State.dbStep]
  obtain ⟨ht,hts,hap,hgr,hsk⟩ := hsame
  have hst : s'.started = s'.executions := by
    by_cases hc : ended = .cancelled <;> simp [State.started, hph, hc]
  have hrow : ∀ q, s'.row q =
      (ReceiptRows.step s.db (finishReceipt k (launched call ended))).rows.get q := by
    intro q
    rw [State.row, hdb]
  rw [← hs']
  rw [← hdb] at hk
  constructor
  · exact hk.quiet
  · exact hk.created h
  · exact hk.distinct h
  · rw [hts]
    exact le_trans h.turnStarted hk.now
  · exact hk.unlinked h
  · intro x hx
    rw [hts, ht]
    rw [hst, hex] at hx
    rcases List.mem_append.mp hx with hx | hx
    · obtain ⟨k',q,hxk,hq,hqrec,hqlt,hqge⟩ := h.recorded x (hold ▸ List.mem_append_left _ hx)
      obtain ⟨q',hq',hstep⟩ := step_row s.db (finishReceipt k (launched call ended)) k' q hq
      have hne : k' ≠ k := fun heq => hothers x hx (hxk.trans (congrArg some heq))
      have hfinal : Recorded c s.db.deployments x q' := by
        apply hqrec.row c hstep
        · intro outcome detail ha
          exact hne ((finishReceipt_key k _).1 k' outcome detail ha)
        · intro d ha
          exact hne ((finishReceipt_key k _).2 k' d ha)
      have hkept := hstep.kept.2.2
      exact ⟨k',q',hxk,(hrow k').trans hq',hfinal.settles c hk.settles,hkept ▸ hqlt,hkept ▸ hqge⟩
    · obtain rfl := List.mem_singleton.mp hx
      obtain ⟨r',hr',hstep⟩ := step_row s.db (finishReceipt k (launched call ended)) k r hr
      refine ⟨k,r',hek,(hrow k).trans hr',(hrec.finished c hended hr hr').settles c hk.settles,?_,?_⟩
      · intro hlt
        exact absurd hturn (Nat.ne_of_lt hlt)
      · intro _
        exact hstep.kept.2.2 ▸ hge hturn
  · have hn := h.alone
    rw [hold] at hn
    rw [hst, hex]
    simpa using hn
  · intro x hx
    rw [ht]
    rw [hst, hex] at hx
    rcases List.mem_append.mp hx with hx | hx
    · exact h.turns x (hold ▸ List.mem_append_left _ hx)
    · obtain rfl := List.mem_singleton.mp hx
      exact le_of_eq hturn
  · intro call' x hp'
    rw [hph] at hp'
    split at hp' <;> simp at hp'
  · intro call' hp'
    rw [hph] at hp'
    split at hp' <;> simp at hp'
  · intro g hg
    rw [hap]
    exact ⟨(h.granted g (hgr ▸ hg)).1,le_trans (h.granted g (hgr ▸ hg)).2 hk.now⟩
  · rw [hex]
    apply List.pairwise_append.mpr
    have happ : ∀ {x y}, Approved s x y → Approved s' x y :=
      fun hx => hx.mono s' hk.settles (hap ▸ hsub)
    refine ⟨h.approved.imp happ,by simp,?_⟩
    intro x hx y hy
    obtain rfl := List.mem_singleton.mp hy
    apply happ
    intro hh hlt hf
    exact hcl x hx (hh.trans hhash) (hturn ▸ hlt) hf
  · rw [hsk]
    exact h.skips
  · intro hash k' r' hact hnew hr'
    have hact' : active s hash := by
      have hany : s'.started.any (inThisTurn s' hash) := by
        by_cases hc : ended = .cancelled
        · simp [active, hph, hc] at hact
        · simpa [active, hph, hc] using hact
      rw [hst, hex] at hany
      rw [active, hp, hold]
      simpa [inThisTurn, ht] using hany
    exact hk.notDone s' h hts hash k' r' hact' hnew hr'

theorem step_inv (s : State) (a : Action) (h : Inv c s) (hord : orderly c s a) :
    Inv c (step c s a) := by
  have hplain : ∀ b, b = .markInterrupted ∨ b = .expireStale ∨ b = .reconcile →
      (b = .reconcile → orderly c s .reconcile) → Inv c (s.dbStep b) := by
    intro b hb hr
    have hk : Kept c s (ReceiptRows.step s.db b) := by
      apply Kept.statement c s _ h.quiet <;> rcases hb with rfl | rfl | rfl <;>
        first
        | rfl
        | exact Settles.refl _
        | exact hr
        | simp
    apply h.statement _ hk <;> rcases hb with rfl | rfl | rfl <;> simp
  cases a with
  | tick seconds => exact h.tick seconds
  | grant => exact h.grant
  | approvePending user label =>
    have hk : Kept c s (ReceiptRows.step s.db (.approvePending c.project user label)) := by
      apply Kept.statement c s _ h.quiet rfl (Settles.refl _) <;> intros <;> simp_all
    exact h.statement _ hk (by simp) (by simp)
  | setAutonomous enabled => exact h.modes c enabled s.unattended
  | resume unattended gap =>
    simp only [step]
    split
    · rename_i hp
      exact h.resume c unattended gap hp
    · exact h
  | cut => exact h.cut
  | check call picked fresh =>
    simp only [step]
    split
    · rename_i hp
      exact h.check c call picked fresh hp hord
    · exact h
  | startCall picked fresh =>
    simp only [step]
    split
    · rename_i call hp
      exact h.startCall c call picked fresh hp hord
    · exact h
  | finishCall ended =>
    simp only [step]
    split
    · rename_i call e hp
      exact h.finishCall c call e ended hp
    · exact h
  | recordAutonomous fresh deployment =>
    exact h.inserted fresh (autonomousReceipt c deployment) .executing (by simp [waiting])
  | deploymentsChange deployments =>
    simp only [step]
    split
    · rename_i hall
      have hs : Settles s.db.deployments deployments := by
        intro k d hd hset
        have hmem := List.all_eq_true.mp hall (k,d) ((Table.mem_iff_get _ _ _).mpr hd)
        simp only [hset, Bool.not_true, Bool.false_or, Option.any_eq_true, decide_eq_true_eq] at hmem
        exact hmem
      have hk : Kept c s (ReceiptRows.step s.db (.deploymentsChange deployments)) := by
        apply Kept.statement c s (.deploymentsChange deployments) h.quiet rfl hs <;> intros <;> simp_all
      exact h.statement _ hk (by simp) (by simp)
    · exact h
  | markInterrupted => exact hplain _ (by simp) (by simp)
  | expireStale => exact hplain _ (by simp) (by simp)
  | reconcile => exact hplain _ (by simp) (fun _ => hord)

/-- Over an orderly run, an action that an earlier turn has executed and that
has not failed is not executed again without an approval given in between,
and no repetition inside a turn is answered from the receipts. -/
theorem no_replay (acts : List Action)
    (h : Guarded (step c) (fun s a => orderly c s a) acts start) :
    (run (step c) acts start).started.Pairwise (Approved (run (step c) acts start)) ∧
    ∀ k ∈ (run (step c) acts start).skips, k.repeated = false := by
  have hinv := guarded_invariant (step c) _ (Inv c) (fun s a hs ho => step_inv c s a hs ho) acts
    start (start_inv c) h
  exact ⟨hinv.startedApproved,hinv.skips⟩

/-- A deployment, cut before its end and confirmed again. -/
def setting : Setting := ⟨1,5⟩

def deploy : Call := ⟨"trigger_deploy","h"⟩

def confirmedTwice : List Action :=
  [.grant,.resume false 0,.check deploy none 8,.startCall none 9,.cut,.markInterrupted,.tick 60,
    .grant,.resume false 0,.check deploy (some 9) 10,.startCall none 11,.finishCall (.ok none)]

theorem confirmedTwice_no_replay :
    (run (step setting) confirmedTwice start).started.Pairwise
      (Approved (run (step setting) confirmedTwice start)) ∧
    ∀ k ∈ (run (step setting) confirmedTwice start).skips, k.repeated = false :=
  no_replay setting confirmedTwice (by decide +kernel)

/-- Twice the same publication, in two turns, on the project's setting. -/
def autonomousTwice : List Action :=
  [.setAutonomous true,.resume true 0,.check deploy none 8,.startCall none 9,
    .finishCall (.ok (some 7)),.recordAutonomous 10 7,.cut,.resume true 0,.check deploy none 11,
    .startCall none 12]

/-- Proposed by a turn, approved, then executed and repeated by the next. -/
def approvedProposal : List Action :=
  [.resume false 0,.check deploy none 8,.cut,.grant,.approvePending none none,.resume false 0,
    .check deploy none 9,.startCall (some 8) 10,.finishCall (.ok none),.check deploy (some 8) 11]

theorem replayed_or_skipped :
    (¬ ∀ (c : Setting) (acts : List Action), (run (step c) acts start).started.Pairwise
      (Approved (run (step c) acts start))) ∧
    ¬ ∀ (c : Setting) (acts : List Action),
      ∀ k ∈ (run (step c) acts start).skips, k.repeated = false := by
  constructor
  · intro h
    have hp := h setting autonomousTwice
    have hs : (run (step setting) autonomousTwice start).started =
        [⟨none,"h",1,1,some (.ok (some 7),1)⟩,⟨none,"h",2,3,none⟩] := by decide +kernel
    have hf : didFail (run (step setting) autonomousTwice start).db.deployments
        ⟨none,"h",1,1,some (.ok (some 7),1)⟩ = false := by decide +kernel
    have ha : (run (step setting) autonomousTwice start).approvals = [] := by decide +kernel
    rw [hs] at hp
    obtain ⟨t,ht,_⟩ := List.rel_of_pairwise_cons hp (List.mem_singleton.mpr rfl) rfl (by decide) hf
    simp [ha] at ht
  · intro h
    have hs : (run (step setting) approvedProposal start).skips.any (fun k => k.repeated) := by
      decide +kernel
    obtain ⟨k,hk,hr⟩ := List.any_eq_true.mp hs
    simp [h setting approvedProposal k hk] at hr

end DevForge.ReplayedTurns
