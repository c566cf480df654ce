import DevForge.DeploymentStarts

/-!
# The order in which starts supersede

What keeps starts from cancelling each other: channels are only raised for
settled rows, so a start leaves its slot as cancelled only when its row is
settled, and every cancelled row was cancelled by the user or by a newer start.
-/

set_option autoImplicit false

namespace DevForge.SupersedeOrder
open DeployQueue DeploymentStarts Transition

def KnownStatus (d : Deployment) : Prop := d.status.inProgress ∨ d.status.settled

def Known (db : Db) : Prop := ∀ k d, db.deployments.get k = some d → KnownStatus d

def Dead (db : Db) (k : Uuid) : Prop := ∃ d, db.deployments.get k = some d ∧ d.status.settled

/-- Two rows of one project and environment. -/
def Siblings (db : Db) (k k' : Uuid) : Prop :=
  ∃ d d', db.deployments.get k = some d ∧ db.deployments.get k' = some d' ∧
    d'.projectId = d.projectId ∧ d'.environment = d.environment

/-- The phases in which a start may hold a receiver. -/
def listens (t : Start) : Bool :=
  match t.phase with
  | .left _ => false
  | _ => t.isRegistered

structure StartOk (s : State) (t : Start) : Prop where
  row : ∃ d, s.db.deployments.get t.uuid = some d ∧ d.projectId = t.project ∧
    d.environment = t.environment
  cancelled : t.phase = .left .cancelled ∨ t.phase = .unregistered .cancelled → Dead s.db t.uuid
  signalling : ∀ vs, t.phase = .signalling vs → ∀ v ∈ vs, Dead s.db v
  sender : t.isRegistered → ∃ c, s.cancels.sender t.uuid = some c
  rx : ∀ c, t.rx = some c → s.cancels.sender t.uuid = some c
  quiet : listens t = false → t.rx = none

/-- At most one start of a deployment is not finished. -/
def Unique (l : List Start) : Prop :=
  ∀ (i j : ℕ) t u, l[i]? = some t → l[j]? = some u → t.phase ≠ .finished → u.phase ≠ .finished →
    t.uuid = u.uuid → i = j

/-- The invariant; the history of the supersedings is part of it in runs that are `ordered`. -/
structure Inv (ordered : Prop) (s : State) : Prop where
  known : Known s.db
  starts : ∀ t ∈ s.starts, StartOk s t
  unique : Unique s.starts
  senders : ∀ k c, s.cancels.sender k = some c → c < s.nextChannel ∧
    ∃ t ∈ s.starts, t.uuid = k ∧ t.isRegistered
  distinct : ∀ k k' c, s.cancels.sender k = some c → s.cancels.sender k' = some c → k = k'
  raised_lt : ∀ c ∈ s.cancels.raised, c < s.nextChannel
  raised : ∀ k c, s.cancels.sender k = some c → c ∈ s.cancels.raised → Dead s.db k
  signals : ∀ k ∈ s.signals, Dead s.db k
  userCancelled : ∀ k ∈ s.userCancelled, status s k = some .cancelled
  cause : ∀ k d, s.db.deployments.get k = some d → d.status = .cancelled →
    k ∈ s.userCancelled ∨ ∃ e ∈ s.supersedings, k ∈ e.superseded
  history : ordered → ∀ e ∈ s.supersedings, ∀ k ∈ e.superseded, age s k < age s e.keep ∧
    Siblings s.db k e.keep ∧ e.keepStatus ≠ some .cancelled ∧ e.keep ∉ s.userCancelled

variable {ordered : Prop}

theorem start_inv (projects : Table ℕ Project) : Inv ordered (DeploymentStarts.start projects) := by
  constructor <;> simp [DeploymentStarts.start, Known, Cancels.sender, Unique]

theorem Dead.change {db db' : Db} {ks : List Uuid} {k : Uuid} (hc : Change db db' ks)
    (h : Dead db k) : Dead db' k := by
  obtain ⟨d,hd,hs⟩ := h
  obtain ⟨d',hd',_,_,hsame⟩ := hc.row k d hd
  exact ⟨d',hd',hsame (DeployStatus.settled_inactive hs) ▸ hs⟩

theorem Siblings.change {db db' : Db} {ks : List Uuid} {k k' : Uuid} (hc : Change db db' ks)
    (h : Siblings db k k') : Siblings db' k k' := by
  obtain ⟨d,e,hd,he,hp,hv⟩ := h
  obtain ⟨d',hd',hdp,hdv,_⟩ := hc.row k d hd
  obtain ⟨e',he',hep,hev,_⟩ := hc.row k' e he
  exact ⟨d',e',hd',he',by rw [hep, hdp, hp],by rw [hev, hdv, hv]⟩

theorem mem_keys {db : Db} {k : Uuid} {d : Deployment} (hd : db.deployments.get k = some d) :
    k ∈ db.deployments.keys := by
  by_contra hn
  simp [(Table.get_none_iff db.deployments k).mpr hn] at hd

theorem idxOf_change {db db' : Db} {ks : List Uuid} {k : Uuid} (hc : Change db db' ks)
    (hk : k ∈ db.deployments.keys) :
    db'.deployments.keys.idxOf k = db.deployments.keys.idxOf k := by
  obtain ⟨t,ht⟩ := hc.keys
  rw [← ht, List.idxOf_append_of_mem hk]

/-- A change that cancels only settled rows cancels none. -/
theorem change_of_dead {db db' : Db} {ks : List Uuid} (hc : Change db db' ks)
    (hk : ∀ k ∈ ks, Dead db k) : Change db db' [] where
  keys := hc.keys
  row := hc.row
  cancels k d' hd' hs := by
    rcases hc.cancels k d' hd' hs with h | h
    · obtain ⟨d,hd,hsd⟩ := hk k h
      obtain ⟨d'',hd'',_,_,hsame⟩ := hc.row k d hd
      have hdd : d' = d := by
        rw [← hsame (DeployStatus.settled_inactive hsd)]
        exact Option.some.inj (hd'.symm.trans hd'')
      exact Or.inr (hdd ▸ hd)
    · exact Or.inr h

theorem StartOk.change {s s' : State} {t : Start} {ks : List Uuid} (h : StartOk s t)
    (hc : Change s.db s'.db ks) (hcan : s'.cancels = s.cancels) : StartOk s' t where
  row := by
    obtain ⟨d,hd,hp,hv⟩ := h.row
    obtain ⟨d',hd',hdp,hdv,_⟩ := hc.row _ d hd
    exact ⟨d',hd',hdp.trans hp,hdv.trans hv⟩
  cancelled hp := (h.cancelled hp).change hc
  signalling vs hp v hv := (h.signalling vs hp v hv).change hc
  sender := hcan ▸ h.sender
  rx := hcan ▸ h.rx
  quiet := h.quiet

theorem status_change {s : State} (s' : State) {ks : List Uuid} {k : Uuid} (hc : Change s.db s'.db ks)
    (h : status s k = some .cancelled) : status s' k = some .cancelled := by
  obtain ⟨d,hd,hs⟩ := Option.map_eq_some_iff.mp h
  obtain ⟨d',hd',_,_,hsame⟩ := hc.row k d hd
  have hdd := hsame (by simp [hs, DeployStatus.active])
  simp [status, hd', hdd, hs]

/-- The history read in a later database. -/
theorem history_change {s : State} (s' : State) {ks : List Uuid} (hc : Change s.db s'.db ks) {k k' : Uuid}
    (h : age s k < age s k' ∧ Siblings s.db k k') : age s' k < age s' k' ∧ Siblings s'.db k k' := by
  obtain ⟨hage,hsib⟩ := h
  obtain ⟨d,d',hd,hd',_,_⟩ := id hsib
  refine ⟨?_,hsib.change hc⟩
  rw [age, age, idxOf_change hc (mem_keys hd), idxOf_change hc (mem_keys hd')]
  exact hage

/-- A statement that cancels no row. -/
theorem Inv.db {s : State} (hs : Inv ordered s) (db' : Db) (hc : Change s.db db' []) (hk : Known db') :
    Inv ordered { s with db := db' } where
  known := hk
  starts t ht := (hs.starts t ht).change hc rfl
  unique := hs.unique
  senders := hs.senders
  distinct := hs.distinct
  raised_lt := hs.raised_lt
  raised k c hsend hr := (hs.raised k c hsend hr).change hc
  signals k hm := (hs.signals k hm).change hc
  userCancelled k hm := status_change { s with db := db' } hc (hs.userCancelled k hm)
  cause k d hd hcan := by
    rcases hc.cancels k d hd hcan with h | h
    · simp at h
    · exact hs.cause k d h hcan
  history hord e he k hk := by
    obtain ⟨h1,h2,h3⟩ := hs.history hord e he k hk
    obtain ⟨h1',h2'⟩ := history_change { s with db := db' } hc ⟨h1,h2⟩
    exact ⟨h1',h2',h3⟩

/-- A start moves to another phase, with what the phase asks for. -/
theorem StartOk.move {s : State} {t : Start} (h : StartOk s t) (phase : Phase) (rx : Option ℕ)
    (hcan : phase = .left .cancelled ∨ phase = .unregistered .cancelled → Dead s.db t.uuid)
    (hsig : ∀ vs, phase = .signalling vs → ∀ v ∈ vs, Dead s.db v)
    (hreg : ({ t with phase := phase, rx := rx } : Start).isRegistered →
      ∃ c, s.cancels.sender t.uuid = some c)
    (hrx : ∀ c, rx = some c → s.cancels.sender t.uuid = some c)
    (hquiet : listens { t with phase := phase, rx := rx } = false → rx = none) :
    StartOk s { t with phase := phase, rx := rx } :=
  ⟨h.row,hcan,hsig,hreg,hrx,hquiet⟩

theorem mem_of_mem_set {l : List Start} {i : ℕ} {t' u : Start} (h : u ∈ l.set i t') :
    u ∈ l ∨ u = t' := List.mem_or_eq_of_mem_set h

theorem Unique.set {l : List Start} (h : Unique l) (i : ℕ) (t t' : Start) (ht : l[i]? = some t)
    (hu : t'.uuid = t.uuid) (hlive : t'.phase ≠ .finished → t.phase ≠ .finished) :
    Unique (l.set i t') := by
  have old : ∀ (j : ℕ) u, (l.set i t')[j]? = some u → u.phase ≠ .finished →
      ∃ u', l[j]? = some u' ∧ u'.phase ≠ .finished ∧ u'.uuid = u.uuid := by
    intro j u hj hul
    rw [List.getElem?_set] at hj
    split at hj
    · rename_i hij
      split at hj
      · rw [← Option.some.inj hj] at hul ⊢
        exact ⟨t,hij ▸ ht,hlive hul,hu.symm⟩
      · simp at hj
    · exact ⟨u,hj,hul,rfl⟩
  intro j k u v hj hk hul hvl huv
  obtain ⟨u',hj',hul',hu'⟩ := old j u hj hul
  obtain ⟨v',hk',hvl',hv'⟩ := old k v hk hvl
  exact h j k u' v' hj' hk' hul' hvl' (by rw [hu', hv', huv])

theorem Unique.concat {l : List Start} (h : Unique l) (t : Start)
    (ht : ∀ u ∈ l, u.uuid = t.uuid → u.phase = .finished) : Unique (l++[t]) := by
  intro j k u v hj hk hul hvl huv
  have hlen : ∀ (j : ℕ) u, (l++[t])[j]? = some u → l[j]? = some u ∨ (j = l.length ∧ u = t) := by
    intro j u hj
    rw [List.getElem?_append] at hj
    split at hj
    · exact Or.inl hj
    · rw [List.getElem?_singleton] at hj
      split at hj
      · exact Or.inr ⟨by omega,(Option.some.inj hj).symm⟩
      · simp at hj
  rcases hlen j u hj with hj' | ⟨hj',hu⟩ <;> rcases hlen k v hk with hk' | ⟨hk',hv⟩
  · exact h j k u v hj' hk' hul hvl huv
  · exact absurd (ht u (List.mem_of_getElem? hj') (huv.trans (congrArg Start.uuid hv))) hul
  · exact absurd (ht v (List.mem_of_getElem? hk') (huv.symm.trans (congrArg Start.uuid hu))) hvl
  · rw [hj', hk']

/-- A registered start stays one when it moves without unregistering. -/
theorem registered_set {l : List Start} {i : ℕ} {t t' : Start} {k : Uuid} (ht : l[i]? = some t)
    (hu : t'.uuid = t.uuid) (hreg : t.isRegistered → t'.isRegistered)
    (h : ∃ u ∈ l, u.uuid = k ∧ u.isRegistered) : ∃ u ∈ l.set i t', u.uuid = k ∧ u.isRegistered := by
  obtain ⟨u,hm,huk,hur⟩ := h
  obtain ⟨j,hj⟩ := List.getElem?_of_mem hm
  have hi := (List.getElem?_eq_some_iff.mp ht).1
  by_cases hij : i = j
  · subst hij
    have hut := Option.some.inj (ht.symm.trans hj)
    subst hut
    have hnew : (l.set i t')[i]? = some t' := by simp [hi]
    exact ⟨t',List.mem_of_getElem? hnew,hu.trans huk,hreg hur⟩
  · have hold : (l.set i t')[j]? = some u := by rwa [List.getElem?_set_ne hij]
    exact ⟨u,List.mem_of_getElem? hold,huk,hur⟩

theorem Inv.setStart {s : State} (hs : Inv ordered s) (i : ℕ) (t t' : Start) (ht : s.starts[i]? = some t)
    (hu : t'.uuid = t.uuid) (hok : StartOk s t') (hreg : t.isRegistered → t'.isRegistered)
    (hlive : t'.phase ≠ .finished → t.phase ≠ .finished) : Inv ordered (setStart i t' s) where
  known := hs.known
  starts u hm := by
    have hok' : ∀ u, StartOk s u → StartOk (DeploymentStarts.setStart i t' s) u :=
      fun u h => ⟨h.row,h.cancelled,h.signalling,h.sender,h.rx,h.quiet⟩
    rcases mem_of_mem_set hm with hm | rfl
    · exact hok' u (hs.starts u hm)
    · exact hok' _ hok
  unique := hs.unique.set i t t' ht hu hlive
  senders k c hsend :=
    ⟨(hs.senders k c hsend).1,registered_set ht hu hreg (hs.senders k c hsend).2⟩
  distinct := hs.distinct
  raised_lt := hs.raised_lt
  raised := hs.raised
  signals := hs.signals
  userCancelled := hs.userCancelled
  cause := hs.cause
  history := hs.history

theorem send_sender (heard : ℕ → Bool) (c : ℕ) (r : Cancels) (k : Uuid) :
    (r.send heard c).sender k = r.sender k := by
  unfold Cancels.send
  split <;> rfl

theorem signal_sender (heard : ℕ → Bool) (k k' : Uuid) (r : Cancels) :
    (r.signal heard k).sender k' = r.sender k' := by
  unfold Cancels.signal
  split
  · rfl
  · exact send_sender heard _ r k'

theorem signal_raised {heard : ℕ → Bool} {k : Uuid} {r : Cancels} {c : ℕ}
    (h : c ∈ (r.signal heard k).raised) : c ∈ r.raised ∨ r.sender k = some c := by
  unfold Cancels.signal at h
  split at h
  · exact Or.inl h
  · rename_i channel hk
    unfold Cancels.send at h
    split at h
    · rcases List.mem_cons.mp h with rfl | h
      · exact Or.inr hk
      · exact Or.inl h
    · exact Or.inl h

/-- Only settled rows are signalled. -/
theorem Inv.signal {s : State} (hs : Inv ordered s) (k : Uuid) (hk : Dead s.db k) :
    Inv ordered (signalCancel k s) where
  known := hs.known
  starts t ht := by
    have h := hs.starts t ht
    exact ⟨h.row,h.cancelled,h.signalling,fun hr => by
      simpa [signalCancel, signal_sender] using h.sender hr,fun c hc => by
      simpa [signalCancel, signal_sender] using h.rx c hc,h.quiet⟩
  unique := hs.unique
  senders k' c hsend := by
    simp only [signalCancel, signal_sender] at hsend
    exact hs.senders k' c hsend
  distinct k' k'' c h h' := by
    simp only [signalCancel, signal_sender] at h h'
    exact hs.distinct k' k'' c h h'
  raised_lt c hc := by
    rcases signal_raised hc with hc | hc
    · exact hs.raised_lt c hc
    · exact (hs.senders k c hc).1
  raised k' c hsend hc := by
    simp only [signalCancel, signal_sender] at hsend
    rcases signal_raised hc with hc | hc
    · exact hs.raised k' c hsend hc
    · exact hs.distinct k' k c hsend hc ▸ hk
  signals := hs.signals
  userCancelled := hs.userCancelled
  cause := hs.cause
  history := hs.history

theorem unregister_sender (k k' : Uuid) (r : Cancels) :
    (r.unregister k).sender k' = if k' = k then none else r.sender k' := by
  unfold Cancels.unregister Cancels.sender
  induction r.senders with
  | nil => simp
  | cons e l ih =>
    obtain ⟨a,c⟩ := e
    by_cases ha : a = k
    · subst ha
      by_cases hk : k' = a
      · simpa [hk] using ih
      · simpa [hk, Table.lookup_cons] using ih
    · by_cases hk : k' = a
      · subst hk
        simp [ha]
      · simpa [ha, hk, Table.lookup_cons] using ih

theorem register_sender (heard : ℕ → Bool) (k k' : Uuid) (c : ℕ) (r : Cancels) :
    (r.register heard k c).sender k' = if k' = k then some c else r.sender k' := by
  have hl : (r.register heard k c).sender k' =
      if k' = k then some c else ((r.signal heard k).unregister k).sender k' :=
    Table.lookup_cons _ _ _ _
  rw [hl, unregister_sender, signal_sender]
  split <;> rfl

/-- A start registers when no sender stands for its deployment. -/
theorem Inv.register {s : State} (hs : Inv ordered s) (i : ℕ) (t : Start) (ht : s.starts[i]? = some t)
    (hp : t.phase = .locked) : Inv ordered (DeploymentStarts.register i t s) := by
  have htm := List.mem_of_getElem? ht
  have hok := hs.starts t htm
  -- another live start of this deployment does not exist
  have hnone : s.cancels.sender t.uuid = none := by
    cases hsend : s.cancels.sender t.uuid with
    | none => rfl
    | some c =>
      obtain ⟨_,u,hu,huu,hur⟩ := hs.senders _ c hsend
      obtain ⟨j,hj⟩ := List.getElem?_of_mem hu
      have hul : u.phase ≠ .finished := fun h => by simp [Start.isRegistered, h] at hur
      have hij := hs.unique j i u t hj ht hul (by simp [hp]) huu
      subst hij
      have hut := Option.some.inj (hj.symm.trans ht)
      subst hut
      simp [Start.isRegistered, hp] at hur
  have hraised : (s.cancels.register (heard s) t.uuid s.nextChannel).raised = s.cancels.raised := by
    simp [Cancels.register, Cancels.unregister, Cancels.signal, hnone]
  have hsender : ∀ k, (s.cancels.register (heard s) t.uuid s.nextChannel).sender k =
      if k = t.uuid then some s.nextChannel else s.cancels.sender k :=
    fun k => register_sender _ _ _ _ _
  have hself : (s.cancels.register (heard s) t.uuid s.nextChannel).sender t.uuid =
      some s.nextChannel := by rw [hsender, if_pos rfl]
  have hold : ∀ k c, s.cancels.sender k = some c →
      (s.cancels.register (heard s) t.uuid s.nextChannel).sender k = some c := by
    intro k c hk
    have hne : k ≠ t.uuid := fun he => by simp [he, hnone] at hk
    rw [hsender, if_neg hne, hk]
  have hcases : ∀ k c, (s.cancels.register (heard s) t.uuid s.nextChannel).sender k = some c →
      (k = t.uuid ∧ c = s.nextChannel) ∨ s.cancels.sender k = some c := by
    intro k c hk
    rw [hsender] at hk
    split at hk
    · exact Or.inl ⟨‹_›,(Option.some.inj hk).symm⟩
    · exact Or.inr hk
  have hi := (List.getElem?_eq_some_iff.mp ht).1
  constructor
  · exact hs.known
  · intro u hm
    rcases mem_of_mem_set hm with hm | rfl
    · have h := hs.starts u hm
      refine ⟨h.row,h.cancelled,h.signalling,fun hr => ?_,fun c hc => hold _ _ (h.rx c hc),h.quiet⟩
      obtain ⟨c,hc⟩ := h.sender hr
      exact ⟨c,hold _ _ hc⟩
    · refine ⟨hok.row,fun h => by simp at h,fun vs h => by simp at h,fun _ => ⟨_,hself⟩,fun c hc => ?_,
        fun h => by simp [listens, Start.isRegistered] at h⟩
      simp only at hc
      split at hc
      · exact hself.trans hc
      · simp at hc
  · exact hs.unique.set i t _ ht rfl (fun _ => by simp [hp])
  · intro k c hk
    simp only [DeploymentStarts.register, DeploymentStarts.setStart]
    rcases hcases k c hk with ⟨rfl,rfl⟩ | hk
    · refine ⟨Nat.lt_succ_self _,_,List.mem_of_getElem? (List.getElem?_set_self hi),rfl,?_⟩
      simp [Start.isRegistered]
    · obtain ⟨hlt,hreg⟩ := hs.senders k c hk
      exact ⟨by omega,registered_set ht rfl (fun h => by simp [Start.isRegistered, hp] at h) hreg⟩
  · intro k k' c hk hk'
    rcases hcases k c hk with ⟨rfl,rfl⟩ | hk <;> rcases hcases k' _ hk' with ⟨h1,h2⟩ | hk'
    · exact h1.symm
    · exact absurd (hs.senders k' _ hk').1 (lt_irrefl _)
    · rw [h2] at hk
      exact absurd (hs.senders k _ hk).1 (lt_irrefl _)
    · exact hs.distinct k k' c hk hk'
  · intro c hc
    have hc' : c ∈ (s.cancels.register (heard s) t.uuid s.nextChannel).raised := hc
    rw [hraised] at hc'
    exact Nat.lt_succ_of_lt (hs.raised_lt c hc')
  · intro k c hk hc
    have hc' : c ∈ (s.cancels.register (heard s) t.uuid s.nextChannel).raised := hc
    rw [hraised] at hc'
    rcases hcases k c hk with ⟨rfl,rfl⟩ | hk
    · exact absurd (hs.raised_lt _ hc') (lt_irrefl _)
    · exact hs.raised k c hk hc'
  · exact hs.signals
  · exact hs.userCancelled
  · exact hs.cause
  · exact hs.history

/-- A start that left its slot unregisters. -/
theorem Inv.unregister {s : State} (hs : Inv ordered s) (i : ℕ) (t : Start) (o : SlotOutcome)
    (ht : s.starts[i]? = some t) (hp : t.phase = .left o) :
    Inv ordered (DeploymentStarts.setStart i { t with phase := .unregistered o }
      { s with cancels := s.cancels.unregister t.uuid }) := by
  have htm := List.mem_of_getElem? ht
  have hok := hs.starts t htm
  have hold : ∀ k c, (s.cancels.unregister t.uuid).sender k = some c →
      k ≠ t.uuid ∧ s.cancels.sender k = some c := by
    intro k c hk
    rw [unregister_sender] at hk
    split at hk
    · simp at hk
    · exact ⟨‹_›,hk⟩
  have hnew : ∀ k c, k ≠ t.uuid → s.cancels.sender k = some c →
      (s.cancels.unregister t.uuid).sender k = some c := by
    intro k c hne hk
    rw [unregister_sender, if_neg hne, hk]
  -- a start of this deployment other than this one is finished, and holds nothing
  have hother : ∀ u ∈ s.starts.set i { t with phase := .unregistered o }, u.uuid = t.uuid →
      u.isRegistered = false ∧ u.rx = none := by
    intro u hu huu
    obtain ⟨j,hj⟩ := List.getElem?_of_mem hu
    have hi := (List.getElem?_eq_some_iff.mp ht).1
    by_cases hij : i = j
    · subst hij
      rw [List.getElem?_set_self hi] at hj
      have := Option.some.inj hj
      subst this
      exact ⟨rfl,hok.quiet (by simp [listens, hp])⟩
    · rw [List.getElem?_set_ne hij] at hj
      have hfin : u.phase = .finished := by
        by_contra hul
        exact hij (hs.unique i j t u ht hj (by simp [hp]) hul huu.symm)
      exact ⟨by simp [Start.isRegistered, hfin],(hs.starts u (List.mem_of_getElem? hj)).quiet
        (by simp [listens, Start.isRegistered, hfin])⟩
  have hbase := hs.unique.set i t { t with phase := .unregistered o } ht rfl (fun _ => by simp [hp])
  constructor
  · exact hs.known
  · intro u hm
    have hu : StartOk s u := by
      rcases mem_of_mem_set hm with hm' | rfl
      · exact hs.starts u hm'
      · refine ⟨hok.row,fun h => ?_,fun vs h => by simp at h,fun h => by simp [Start.isRegistered] at h,
          hok.rx,fun _ => hok.quiet (by simp [listens, hp])⟩
        rcases h with h | h
        · simp at h
        · exact hok.cancelled (Or.inl (by rw [hp, (Phase.unregistered.inj h)]))
    refine ⟨hu.row,hu.cancelled,hu.signalling,fun hr => ?_,fun c hc => ?_,hu.quiet⟩
    · have hne : u.uuid ≠ t.uuid := fun he => by simp [(hother u hm he).1] at hr
      obtain ⟨c,hc⟩ := hu.sender hr
      exact ⟨c,hnew _ c hne hc⟩
    · have hne : u.uuid ≠ t.uuid := fun he => by simp [(hother u hm he).2] at hc
      exact hnew _ c hne (hu.rx c hc)
  · exact hbase
  · intro k c hk
    obtain ⟨hne,hk'⟩ := hold k c hk
    obtain ⟨hlt,u,hm,huk,hur⟩ := hs.senders k c hk'
    refine ⟨hlt,u,?_,huk,hur⟩
    obtain ⟨j,hj⟩ := List.getElem?_of_mem hm
    have hij : i ≠ j := by
      rintro rfl
      have := Option.some.inj (ht.symm.trans hj)
      exact hne (by rw [← huk, ← this])
    have hset : (s.starts.set i { t with phase := .unregistered o })[j]? = some u := by
      rwa [List.getElem?_set_ne hij]
    exact List.mem_of_getElem? hset
  · intro k k' c hk hk'
    exact hs.distinct k k' c (hold k c hk).2 (hold k' c hk').2
  · exact hs.raised_lt
  · intro k c hk hc
    exact hs.raised k c (hold k c hk).2 hc
  · exact hs.signals
  · exact hs.userCancelled
  · exact hs.cause
  · exact hs.history

theorem update_known (db : Db) (p : Uuid → Deployment → Bool) (f : Uuid → Deployment → Deployment)
    (hk : Known db) (hf : ∀ k d, p k d → KnownStatus d → KnownStatus (f k d)) :
    Known { db with deployments := db.deployments.update p f } := by
  intro k d' hd'
  simp only [Table.get_update, Option.map_eq_some_iff] at hd'
  obtain ⟨d,hd,rfl⟩ := hd'
  split
  · exact hf k d ‹_› (hk k d hd)
  · exact hk k d hd

theorem superseded_dead {project : ℕ} {keep k : Uuid} {now : Instant} {db : Db}
    (hk : k ∈ (supersedeInProgress project keep now db).1) :
    Dead (supersedeInProgress project keep now db).2 k := by
  obtain ⟨d,hd,hp⟩ := (Table.mem_affected_iff _ _ k).mp hk
  exact ⟨d.superseded keep now,by simp [supersedeInProgress, Table.get_update, hd, hp],rfl⟩

theorem superseded_row {s : State} {t : Start} (hok : StartOk s t) {k : Uuid}
    (hk : k ∈ (supersedeInProgress t.project t.uuid s.now s.db).1) :
    ∃ d, s.db.deployments.get k = some d ∧ k ≠ t.uuid ∧ d.projectId = t.project ∧
      d.environment = t.environment ∧ d.status.inProgress := by
  obtain ⟨d,hd,hp⟩ := (Table.mem_affected_iff _ _ k).mp hk
  obtain ⟨d',hd',_,henv⟩ := hok.row
  simp only [supersedes, Bool.and_eq_true, decide_eq_true_eq, keptEnvironment, hd', Option.map_some,
    Option.getD_some] at hp
  obtain ⟨⟨⟨hproj,hne⟩,hprog⟩,he⟩ := hp
  exact ⟨d,hd,hne,hproj,he.trans henv,hprog⟩

theorem Inv.supersede {s : State} (hs : Inv ordered s) (i : ℕ) (t : Start) (ht : s.starts[i]? = some t)
    (hp : t.phase = .registered) (ho : ordered → SupersedesOlder s t) :
    Inv ordered (DeploymentStarts.supersede i t s) := by
  have hok := hs.starts t (List.mem_of_getElem? ht)
  have hc := supersedeInProgress_change t.project t.uuid s.now s.db
  have hknown : Known (supersedeInProgress t.project t.uuid s.now s.db).2 :=
    update_known s.db _ _ hs.known (fun _ _ _ _ => Or.inr rfl)
  have hs' : Inv ordered { s with
      db := (supersedeInProgress t.project t.uuid s.now s.db).2
      supersedings := s.supersedings++[⟨t.uuid,status s t.uuid,
        (supersedeInProgress t.project t.uuid s.now s.db).1⟩] } := by
    constructor
    · exact hknown
    · exact fun u hu => (hs.starts u hu).change hc rfl
    · exact hs.unique
    · exact hs.senders
    · exact hs.distinct
    · exact hs.raised_lt
    · exact fun k c hk hr => (hs.raised k c hk hr).change hc
    · exact fun k hk => (hs.signals k hk).change hc
    · exact fun k hk => status_change { s with db := _ } hc (hs.userCancelled k hk)
    · intro k d hd hcd
      rcases hc.cancels k d hd hcd with h | h
      · exact Or.inr ⟨_,List.mem_append_right _ (List.mem_singleton.mpr rfl),h⟩
      · rcases hs.cause k d h hcd with h | ⟨e,he,hke⟩
        · exact Or.inl h
        · exact Or.inr ⟨e,List.mem_append_left _ he,hke⟩
    · intro hord e he k hk
      rcases List.mem_append.mp he with he | he
      · obtain ⟨h1,h2,h3⟩ := hs.history hord e he k hk
        obtain ⟨h1',h2'⟩ := history_change { s with db := _ } hc ⟨h1,h2⟩
        exact ⟨h1',h2',h3⟩
      · rw [List.mem_singleton.mp he] at hk ⊢
        obtain ⟨d,hd,hne,hproj,henv,hprog⟩ := superseded_row hok hk
        obtain ⟨hage,hlive⟩ := ho hord (k,d) ((Table.mem_iff_get _ k d).mpr hd) ⟨hne,hproj,henv,hprog⟩
        obtain ⟨d',hd',hproj',henv'⟩ := hok.row
        have hsib : Siblings s.db k t.uuid := ⟨d,d',hd,hd',hproj'.trans hproj.symm,henv'.trans henv.symm⟩
        obtain ⟨h1,h2⟩ := history_change { s with db := _ } hc ⟨hage,hsib⟩
        exact ⟨h1,h2,hlive,fun hu => hlive (hs.userCancelled _ hu)⟩
  refine hs'.setStart i t _ ht rfl ?_ (fun _ => rfl) (fun _ => by simp [hp])
  have hok' := hs'.starts t (List.mem_of_getElem? ht)
  exact hok'.move (.signalling (supersedeInProgress t.project t.uuid s.now s.db).1) t.rx
    (fun h => by simp at h)
    (fun vs h v hv => superseded_dead (by rw [Phase.signalling.inj h]; exact hv))
    (fun _ => hok'.sender (by simp [Start.isRegistered, hp])) hok'.rx
    (fun h => by simp [listens, Start.isRegistered] at h)

theorem Inv.userCancel {s : State} (hs : Inv ordered s) (uuid : Uuid)
    (ho : ordered → ∀ e ∈ s.supersedings, e.keep = uuid → e.superseded = []) :
    Inv ordered (DeploymentStarts.userCancel uuid s) := by
  unfold DeploymentStarts.userCancel
  simp only
  split
  · rename_i hr
    have hc := cancelOneDeployment_change uuid s.now s.db
    have hget : ∃ d, (cancelOneDeployment uuid s.now s.db).2.deployments.get uuid = some d ∧
        d.status = .cancelled := by
      unfold cancelOneDeployment at hr ⊢
      cases hf : (s.db.deployments.get uuid).filter (·.status.active) with
      | none => simp [hf] at hr
      | some d =>
        obtain ⟨hd,ha⟩ := Option.filter_eq_some_iff.mp hf
        exact ⟨d.cancelledByUser s.now,by
          simp [recomputeProjectStatusAfterDeployChange, setProjectStatus, Table.get_update, hd, ha],rfl⟩
    have hknown : Known (cancelOneDeployment uuid s.now s.db).2 := by
      intro k d' hd'
      by_cases hcd : d'.status = .cancelled
      · exact Or.inr (by simp [hcd, DeployStatus.settled])
      · unfold cancelOneDeployment at hd'
        cases hf : (s.db.deployments.get uuid).filter (·.status.active) with
        | none =>
          simp only [hf] at hd'
          exact hs.known k d' hd'
        | some d =>
          simp only [hf] at hd'
          exact update_known s.db (fun k d => k = uuid && d.status.active)
            (fun _ => .cancelledByUser s.now) hs.known (fun _ _ _ _ => Or.inr rfl) k d' hd'
    obtain ⟨du,hdu,hsu⟩ := hget
    have hdead : Dead (cancelOneDeployment uuid s.now s.db).2 uuid :=
      ⟨du,hdu,by simp [hsu, DeployStatus.settled]⟩
    constructor
    · exact hknown
    · exact fun u hu => (hs.starts u hu).change hc rfl
    · exact hs.unique
    · exact hs.senders
    · exact hs.distinct
    · exact hs.raised_lt
    · exact fun k c hk hr => (hs.raised k c hk hr).change hc
    · intro k hk
      rcases List.mem_append.mp hk with hk | hk
      · exact (hs.signals k hk).change hc
      · exact List.mem_singleton.mp hk ▸ hdead
    · intro k hk
      rcases List.mem_append.mp hk with hk | hk
      · exact status_change { s with db := _ } hc (hs.userCancelled k hk)
      · rw [List.mem_singleton.mp hk]
        simp [status, hdu, hsu]
    · intro k d hd hcd
      rcases hc.cancels k d hd hcd with h | h
      · exact Or.inl (List.mem_append_right _ h)
      · rcases hs.cause k d h hcd with h | h
        · exact Or.inl (List.mem_append_left _ h)
        · exact Or.inr h
    · intro hord e he k hk
      obtain ⟨h1,h2,h3,h4⟩ := hs.history hord e he k hk
      obtain ⟨h1',h2'⟩ := history_change { s with db := _ } hc ⟨h1,h2⟩
      refine ⟨h1',h2',h3,fun hu => ?_⟩
      rcases List.mem_append.mp hu with hu | hu
      · exact h4 hu
      · simp [ho hord e he (List.mem_singleton.mp hu)] at hk
  · exact hs

/-- A new start of a deployment that no other start holds. -/
theorem Inv.addStart {s : State} (hs : Inv ordered s) (t : Start) (hp : t.phase = .spawned)
    (hrx : t.rx = none) (hrow : ∃ d, s.db.deployments.get t.uuid = some d ∧
      d.projectId = t.project ∧ d.environment = t.environment)
    (hfree : ∀ u ∈ s.starts, u.uuid = t.uuid → u.phase = .finished) :
    Inv ordered { s with starts := s.starts++[t] } where
  known := hs.known
  starts u hm := by
    have hu : StartOk s u := by
      rcases List.mem_append.mp hm with hm | hm
      · exact hs.starts u hm
      · rw [List.mem_singleton.mp hm]
        exact ⟨hrow,fun h => by simp [hp] at h,fun vs h => by simp [hp] at h,
          fun h => by simp [Start.isRegistered, hp] at h,fun c h => by simp [hrx] at h,fun _ => hrx⟩
    exact ⟨hu.row,hu.cancelled,hu.signalling,hu.sender,hu.rx,hu.quiet⟩
  unique := hs.unique.concat t hfree
  senders k c hk := by
    obtain ⟨hlt,u,hm,huk,hur⟩ := hs.senders k c hk
    exact ⟨hlt,u,List.mem_append_left _ hm,huk,hur⟩
  distinct := hs.distinct
  raised_lt := hs.raised_lt
  raised := hs.raised
  signals := hs.signals
  userCancelled := hs.userCancelled
  cause := hs.cause
  history := hs.history

/-- A start moves on without registering or unregistering. -/
theorem Inv.move {s : State} (hs : Inv ordered s) (i : ℕ) (t : Start) (phase : Phase) (rx : Option ℕ)
    (ht : s.starts[i]? = some t)
    (hcan : phase = .left .cancelled ∨ phase = .unregistered .cancelled → Dead s.db t.uuid)
    (hsig : ∀ vs, phase = .signalling vs → ∀ v ∈ vs, Dead s.db v)
    (hreg : ({ t with phase := phase, rx := rx } : Start).isRegistered = t.isRegistered)
    (hrx : ∀ c, rx = some c → s.cancels.sender t.uuid = some c)
    (hquiet : listens { t with phase := phase, rx := rx } = false → rx = none)
    (hlive : t.phase ≠ .finished) :
    Inv ordered (DeploymentStarts.setStart i { t with phase := phase, rx := rx } s) := by
  have hok := hs.starts t (List.mem_of_getElem? ht)
  exact hs.setStart i t _ ht rfl
    (hok.move phase rx hcan hsig (fun h => hok.sender (hreg ▸ h)) hrx hquiet)
    (fun h => hreg.symm ▸ h) (fun _ => hlive)

theorem Inv.leave {s : State} (hs : Inv ordered s) (i : ℕ) (t : Start) (o : SlotOutcome)
    (ht : s.starts[i]? = some t) (hreg : t.isRegistered)
    (hdead : o = .cancelled → Dead s.db t.uuid) : Inv ordered (DeploymentStarts.leave i t o s) :=
  hs.move i t (.left o) none ht
    (fun h => hdead (by rcases h with h | h <;> simp at h; exact h))
    (fun _ h => by simp at h) (by rw [hreg]; rfl) (fun _ h => by simp at h)
    (fun _ => rfl) (fun h => by simp [Start.isRegistered, h] at hreg)

/-- A receiver that was raised belongs to a settled row. -/
theorem Inv.raised_dead {s : State} (hs : Inv ordered s) {t : Start} (hok : StartOk s t)
    (h : s.cancels.isCancelled t.uuid ∨ t.rx.any (· ∈ s.cancels.raised)) : Dead s.db t.uuid := by
  have hraised : ∃ c, s.cancels.sender t.uuid = some c ∧ c ∈ s.cancels.raised := by
    rcases h with h | h
    · simpa [Cancels.isCancelled, Option.any_eq_true] using h
    · obtain ⟨c,hc,hm⟩ := (Option.any_eq_true _ _).mp h
      exact ⟨c,hok.rx c hc,of_decide_eq_true hm⟩
  obtain ⟨c,hc,hm⟩ := hraised
  exact hs.raised _ c hc hm

theorem noteWaitingForNode_known {db : Db} (hk : Known db) (server : String) (uuid : Uuid) :
    Known (noteWaitingForNode server uuid db) :=
  update_known db _ _ hk (fun _ _ _ h => h)

theorem markRunningIfActive_known {db : Db} (hk : Known db) (uuid : Uuid) (now : Instant) :
    Known (markRunningIfActive uuid now db).2 :=
  update_known db _ _ hk (fun _ _ _ _ => Or.inl rfl)

theorem requeueInterrupted_known {db : Db} (hk : Known db) (now : Instant) :
    Known (requeueInterrupted now db) :=
  update_known db _ _ hk (fun _ _ _ _ => Or.inl rfl)

theorem tryClaimDeployment_known {db : Db} (hk : Known db) (uuid : Uuid) (now : Instant) :
    Known (tryClaimDeployment uuid now db).2 :=
  update_known db _ _ hk (fun _ _ _ _ => Or.inl rfl)

theorem finalizeIfActive_known {db : Db} (hk : Known db) (uuid : Uuid) (o : Outcome)
    (now : Instant) (ho : o.status.settled) : Known (finalizeIfActive uuid o now db).2 :=
  update_known db _ _ hk (fun _ _ _ _ => Or.inr ho)

theorem insertQueued_known {db : Db} (hk : Known db) (uuid : Uuid) (project : ℕ)
    (environment : Environment) (gitSha : Option String) (message : String) (now : Instant) :
    Known (insertQueued uuid project environment gitSha message now db) := by
  intro k d hd
  simp only [insertQueued, Table.get_insert] at hd
  split at hd
  · rw [← Option.some.inj hd]
    exact Or.inl rfl
  · exact hk k d hd

/-- The end of a start cancels no row: it reports `cancelled` for settled rows only. -/
theorem finalizeStart_change {db : Db} {t : Start} {o : SlotOutcome} (report : Outcome)
    (now : Instant) (hk : Known db) (hdead : o = .cancelled → Dead db t.uuid) :
    Change db (finalizeStart t o report now db) [] ∧ Known (finalizeStart t o report now db) := by
  cases o with
  | cancelled =>
    simp only [finalizeStart]
    split
    · exact ⟨Change.same _ _ rfl _,hk⟩
    · refine ⟨change_of_dead (finalizeIfActive_change t.uuid _ now db [t.uuid] ?_) ?_,
        finalizeIfActive_known hk _ _ _ rfl⟩
      · exact fun _ => List.mem_singleton.mpr rfl
      · exact fun k hm => List.mem_singleton.mp hm ▸ hdead rfl
  | completed ok =>
    have hc := finalizeIfActive_change t.uuid
      { report with status := if ok then .success else .failed } now db []
      (fun h => by cases ok <;> simp at h)
    have hk' := finalizeIfActive_known hk t.uuid
      { report with status := if ok then .success else .failed } now (by cases ok <;> rfl)
    rw [finalizeStart]
    by_cases hp : t.environment = .production ∧ (!t.resumed ∨ (finalizeIfActive t.uuid
        { report with status := if ok then .success else .failed } now db).1)
    · rw [if_pos hp]
      exact ⟨hc.of_deployments rfl,hk'⟩
    · rw [if_neg hp]
      exact ⟨hc,hk'⟩

/-- A row that no longer is in progress is settled. -/
theorem dead_of_not_active {db : Db} (hk : Known db) {t : Start}
    (hrow : ∃ d, db.deployments.get t.uuid = some d ∧ d.projectId = t.project ∧
      d.environment = t.environment) (now : Instant)
    (h : (markRunningIfActive t.uuid now db).1 = false) : Dead db t.uuid := by
  obtain ⟨d,hd,_⟩ := hrow
  simp only [markRunningIfActive, hd, Option.any_some] at h
  rcases hk _ d hd with hp | hp
  · simp [h] at hp
  · exact ⟨d,hd,hp⟩

theorem Inv.next {s : State} (hs : Inv ordered s) (i : ℕ) (t : Start) (report : Outcome)
    (ht : s.starts[i]? = some t) (ho : ordered → Orderly s (.next i report)) :
    Inv ordered (DeploymentStarts.next i t report s) := by
  have hok := hs.starts t (List.mem_of_getElem? ht)
  unfold DeploymentStarts.next
  cases hp : t.phase with
  | spawned =>
    simp only
    split
    · exact hs
    · exact hs.move i t .locked t.rx ht (by simp) (by simp) (by simp [Start.isRegistered, hp]) hok.rx
        (fun _ => hok.quiet (by simp [listens, Start.isRegistered, hp])) (by simp [hp])
  | locked => exact hs.register i t ht hp
  | registered => exact hs.supersede i t ht hp (fun hord => ho hord t ht hp)
  | signalling vs =>
    cases vs with
    | nil =>
      exact hs.move i t .unlocked none ht (by simp) (by simp) (by simp [Start.isRegistered, hp])
        (by simp) (by simp) (by simp [hp])
    | cons v vs =>
      have hdead := hok.signalling _ hp
      exact (hs.signal v (hdead v (by simp))).move i t (.signalling vs) t.rx ht (by simp)
        (fun ws hw w hm => hdead w (by rw [← Phase.signalling.inj hw] at hm; exact List.mem_cons_of_mem _ hm))
        (by simp [Start.isRegistered, hp])
        (fun c hc => by simpa [signalCancel, signal_sender] using hok.rx c hc)
        (fun h => by simp [listens, Start.isRegistered] at h) (by simp [hp])
  | unlocked =>
    exact hs.move i t .subscribed _ ht (by simp) (by simp) (by simp [Start.isRegistered, hp])
      (fun _ h => h) (fun h => by simp [listens, Start.isRegistered] at h) (by simp [hp])
  | subscribed =>
    simp only
    split
    · rename_i hc
      exact hs.leave i t .cancelled ht (by simp [Start.isRegistered, hp])
        (fun _ => hs.raised_dead hok (by simpa using hc))
    · refine Inv.move ?_ i t .waiting t.rx ?_ (by simp) (by simp)
        (by simp [Start.isRegistered, hp]) ?_
        (fun h => by simp [listens, Start.isRegistered] at h) (by simp [hp])
      · split
        · exact hs.db _ (noteWaitingForNode_change _ _ _) (noteWaitingForNode_known hs.known _ _)
        · exact hs
      · split <;> exact ht
      · split <;> exact hok.rx
  | waiting =>
    simp only
    split
    · exact hs
    · exact hs.move i t .holding t.rx ht (by simp) (by simp) (by simp [Start.isRegistered, hp]) hok.rx
        (fun h => by simp [listens, Start.isRegistered] at h) (by simp [hp])
  | holding =>
    simp only
    split
    · rename_i hc
      exact hs.leave i t .cancelled ht (by simp [Start.isRegistered, hp])
        (fun _ => hs.raised_dead hok (Or.inl hc))
    · exact hs.move i t .rechecked t.rx ht (by simp) (by simp) (by simp [Start.isRegistered, hp]) hok.rx
        (fun h => by simp [listens, Start.isRegistered] at h) (by simp [hp])
  | rechecked =>
    have hdb := hs.db _ (markRunningIfActive_change t.uuid s.now s.db)
      (markRunningIfActive_known hs.known t.uuid s.now)
    simp only
    split
    · exact hdb.move i t .building t.rx ht (by simp) (by simp) (by simp [Start.isRegistered, hp]) hok.rx
        (fun h => by simp [listens, Start.isRegistered] at h) (by simp [hp])
    · rename_i hr
      exact hdb.leave i t .cancelled ht (by simp [Start.isRegistered, hp])
        (fun _ => (dead_of_not_active hs.known hok.row s.now (by simpa using hr)).change
          (markRunningIfActive_change t.uuid s.now s.db))
  | building => exact hs
  | left o => exact hs.unregister i t o ht hp
  | unregistered o =>
    have hdead : o = .cancelled → Dead s.db t.uuid :=
      fun h => hok.cancelled (Or.inr (by rw [hp, h]))
    obtain ⟨hc,hk⟩ := finalizeStart_change report s.now hs.known hdead
    exact (hs.db _ hc hk).move i t .finished t.rx ht (by simp) (by simp)
      (by simp [Start.isRegistered, hp]) hok.rx
      (fun _ => hok.quiet (by simp [listens, Start.isRegistered, hp])) (by simp [hp])
  | finished => exact hs

theorem Inv.of_same {s : State} (hs : Inv ordered s) (now : Instant) (resume : Resume) (signals : List Uuid)
    (hsig : ∀ k ∈ signals, k ∈ s.signals) :
    Inv ordered { s with now := now, resume := resume, signals := signals } where
  known := hs.known
  starts t ht := by
    have h := hs.starts t ht
    exact ⟨h.row,h.cancelled,h.signalling,h.sender,h.rx,h.quiet⟩
  unique := hs.unique
  senders := hs.senders
  distinct := hs.distinct
  raised_lt := hs.raised_lt
  raised := hs.raised
  signals k hk := hs.signals k (hsig k hk)
  userCancelled := hs.userCancelled
  cause := hs.cause
  history := hs.history

theorem Inv.stopped {s : State} (hs : Inv ordered s) (i : ℕ) (t : Start) (ht : s.starts[i]? = some t) :
    Inv ordered (DeploymentStarts.stopped i t s) := by
  have hok := hs.starts t (List.mem_of_getElem? ht)
  unfold DeploymentStarts.stopped
  split
  · rename_i h
    obtain ⟨hphase,hstop⟩ := h
    obtain ⟨c,hc,hstop⟩ := (Option.any_eq_true _ _).mp hstop
    have hsend := hok.rx c hc
    -- the sender of a receiver that is held has not been dropped
    have hmem : c ∈ s.cancels.senders.map Prod.snd := by
      obtain ⟨l,l',hl,_⟩ := List.lookup_eq_some_iff.mp hsend
      simp [hl]
    have hraised : c ∈ s.cancels.raised := by simpa [Cancels.stops, hmem] using hstop
    exact hs.leave i t .cancelled ht (by rcases hphase with h | h <;> simp [Start.isRegistered, h])
      (fun _ => hs.raised _ c hsend hraised)
  · exact hs

theorem Inv.create {s : State} (hs : Inv ordered s) (uuid : Uuid) (project : ℕ) (environment : Environment)
    (server : String) (gitSha : Option String) (message : String) :
    Inv ordered (DeploymentStarts.create uuid project environment server gitSha message s) := by
  unfold DeploymentStarts.create
  split
  · exact hs
  · rename_i h
    have hnew : uuid ∉ s.db.deployments.keys := fun hm => h (Or.inl hm)
    have hc := insertQueued_change uuid project environment gitSha message s.now s.db
    have hdb := hs.db (setProjectStatus (fun k _ => k = project && environment = .production)
      .deploying s.now (insertQueued uuid project environment gitSha message s.now s.db))
      (hc.of_deployments rfl) (insertQueued_known hs.known _ _ _ _ _ _)
    refine hdb.addStart
      ⟨uuid,project,environment,server,false,.spawned,none⟩ rfl rfl
      ⟨Deployment.new project environment gitSha message s.now,?_,rfl,rfl⟩ (fun u hu he => ?_)
    · simp [insertQueued, setProjectStatus, Table.get_insert, hnew]
    · obtain ⟨d,hd,_⟩ := (hs.starts u hu).row
      exact absurd (mem_keys (he ▸ hd)) hnew

theorem Inv.claimNext {s : State} (hs : Inv ordered s) (uuid : Uuid) (todo : List Uuid) (server : String)
    (hfree : status s uuid = some .queued → ∀ t ∈ s.starts, t.uuid = uuid → t.phase = .finished) :
    Inv ordered (DeploymentStarts.claimNext uuid todo server s) := by
  have hdb := hs.db _ (tryClaimDeployment_change uuid s.now s.db)
    (tryClaimDeployment_known hs.known uuid s.now)
  unfold DeploymentStarts.claimNext
  simp only
  split
  · rename_i d hclaim hd
    have hqueued : status s uuid = some .queued := by
      simp only [tryClaimDeployment, Option.any_eq_true, decide_eq_true_eq] at hclaim
      obtain ⟨d₀,hd₀,hq⟩ := hclaim
      simp [status, hd₀, hq]
    split
    · exact (hdb.db _ (finalizeIfActive_change _ _ _ _ [] (by simp))
        (finalizeIfActive_known hdb.known _ _ _ rfl)).of_same s.now _ s.signals (fun _ h => h)
    · exact (hdb.addStart ⟨uuid,d.projectId,d.environment,server,true,.spawned,none⟩ rfl rfl
        ⟨d,hd,rfl,rfl⟩ (hfree hqueued)).of_same s.now _ s.signals (fun _ h => h)
  · exact hdb.of_same s.now _ s.signals (fun _ h => h)

theorem Inv.resumeNext {s : State} (hs : Inv ordered s) (server : String)
    (ho : Orderly s (.resumeNext server)) : Inv ordered (DeploymentStarts.resumeNext server s) := by
  unfold DeploymentStarts.resumeNext
  split
  · exact (hs.db _ (requeueInterrupted_change _ _) (requeueInterrupted_known hs.known _)).of_same
      s.now _ s.signals (fun _ h => h)
  · exact hs.of_same s.now _ s.signals (fun _ h => h)
  · rename_i todo current hr
    split
    · cases todo with
      | nil => exact hs
      | cons uuid todo => exact hs.claimNext uuid todo server (ho uuid (by simp [hr]))
    · exact hs

theorem Inv.restart {s : State} (hs : Inv ordered s) : Inv ordered (DeploymentStarts.restart s) where
  known := hs.known
  starts t ht := by simp [DeploymentStarts.restart] at ht
  unique := by simp [DeploymentStarts.restart, Unique]
  senders k c h := by simp [DeploymentStarts.restart, Cancels.sender] at h
  distinct k k' c h := by simp [DeploymentStarts.restart, Cancels.sender] at h
  raised_lt c h := by simp [DeploymentStarts.restart] at h
  raised k c h := by simp [DeploymentStarts.restart, Cancels.sender] at h
  signals k h := by simp [DeploymentStarts.restart] at h
  userCancelled := hs.userCancelled
  cause := hs.cause
  history := hs.history

theorem Inv.onStart {s : State} (hs : Inv ordered s) (i : ℕ) (f : Start → State → State)
    (hf : ∀ t, s.starts[i]? = some t → Inv ordered (f t s)) : Inv ordered (DeploymentStarts.onStart i f s) := by
  unfold DeploymentStarts.onStart
  cases ht : s.starts[i]? with
  | none => exact hs
  | some t => exact hf t ht

def resumes : Action → Bool
  | .resumeNext _ => true
  | _ => false

theorem step_inv (s : State) (a : Action) (hs : Inv ordered s) (ho : resumes a ∨ ordered → Orderly s a) :
    Inv ordered (step s a) := by
  cases a with
  | tick seconds => exact hs.of_same _ s.resume s.signals (fun _ h => h)
  | create uuid project environment server gitSha message =>
    exact hs.create uuid project environment server gitSha message
  | next i report => exact hs.onStart i _ (fun t ht => hs.next i t report ht (fun hord => ho (Or.inr hord)))
  | stopped i => exact hs.onStart i _ (fun t ht => hs.stopped i t ht)
  | built i ok =>
    refine hs.onStart i _ (fun t ht => ?_)
    simp only [DeploymentStarts.built]
    split
    · rename_i hp
      exact hs.leave i t (.completed ok) ht (by simp [Start.isRegistered, hp]) (by simp)
    · exact hs
  | aborted i =>
    refine hs.onStart i _ (fun t ht => ?_)
    simp only [DeploymentStarts.aborted]
    split
    · rename_i hp
      have hok := hs.starts t (List.mem_of_getElem? ht)
      exact hs.move i t (.unregistered (.completed false)) t.rx ht (by simp) (by simp)
        (by simp [Start.isRegistered, hp.1]) hok.rx
        (fun _ => hok.quiet (by simp [listens, Start.isRegistered, hp.1])) (by simp [hp.1])
    · exact hs
  | userCancel uuid => exact hs.userCancel uuid (fun hord => ho (Or.inr hord))
  | userSignal =>
    simp only [step]
    cases hsig : s.signals with
    | nil => exact hs
    | cons uuid rest =>
      have hrest := hs.of_same s.now s.resume rest (fun k hk => by simp [hsig, hk])
      exact hrest.signal uuid (hs.signals uuid (by simp [hsig]))
  | restart => exact hs.restart
  | resumeNext server => exact hs.resumeNext server (ho (Or.inl rfl))

theorem Inv.fair {s : State} (hs : Inv True s) : StartsFair s := by
  refine ⟨fun e he k hk => (hs.history trivial e he k hk).1,fun e he hcan => ?_,
    fun _ k d hd hk hnewest hcan => ?_⟩
  · by_contra hne
    obtain ⟨k,hk⟩ := List.exists_mem_of_ne_nil _ hne
    exact (hs.history trivial e he k hk).2.2.1 hcan
  · -- the one that superseded it is a newer sibling that the user left alone
    rcases hs.cause k d hd hcan with h | ⟨e,he,hke⟩
    · exact hk h
    · obtain ⟨hage,⟨d₁,d₂,hd₁,hd₂,hp,hv⟩,_,hfree⟩ := hs.history trivial e he k hke
      have hdd := Option.some.inj (hd.symm.trans hd₁)
      subst hdd
      exact hfree (hnewest e.keep d₂ hd₂ hp hv hage)

/-- Orderly starts do not cancel each other: only newer deployments supersede,
no cancelled one does, and the newest survives. -/
theorem starts_fair_of_orderly (projects : Table ℕ Project) (acts : List Action)
    (hg : Guarded step Orderly acts (DeploymentStarts.start projects)) :
    StartsFair (run step acts (DeploymentStarts.start projects)) :=
  (guarded_invariant step Orderly (Inv True) (fun s a hs ho => step_inv s a hs (fun _ => ho)) acts _
    (start_inv projects) hg).fair

def oneProject : Table ℕ Project := Table.empty.insert 7 ⟨"blog",none,.idle,none⟩

def deployed : Outcome := ⟨.success,"abc","built",none,none,none⟩

def create (uuid : Uuid) : Action := .create uuid 7 .production "" none "commit"

def nexts (n i : ℕ) : List Action := List.replicate n (.next i deployed)

/-- The second start takes the slot from the first, is interrupted by a
restart, and the resumption runs it to its end. -/
def secondWins : List Action :=
  [create 1]++nexts 9 0++[create 2]++nexts 4 1++[Action.stopped 0]++nexts 2 0++nexts 5 1++[Action.restart,
    .resumeNext "",.resumeNext "",.resumeNext ""]++nexts 9 0++[Action.built 0 true]++nexts 2 0

theorem second_start_supersedes_first :
    (status (run step secondWins (start oneProject)) 1 = some .cancelled ∧
      status (run step secondWins (start oneProject)) 2 = some .success) ∧
    Guarded step Orderly secondWins (start oneProject) ∧
    StartsFair (run step secondWins (start oneProject)) :=
  have hg : Guarded step Orderly secondWins (start oneProject) := by decide
  ⟨by decide,hg,starts_fair_of_orderly oneProject secondWins hg⟩

/-- The start of the newer deployment takes the lock of the project first. -/
def olderLast : List Action := [create 1,create 2]++nexts 5 1++nexts 3 0

theorem older_start_cancels_newer :
    ¬ ∀ (projects : Table ℕ Project) (acts : List Action),
      StartsFair (run step acts (start projects)) := by
  intro h
  have hn : ¬ SupersededByNewer (run step olderLast (start oneProject)) := by decide
  exact hn (h oneProject olderLast).1

end DevForge.SupersedeOrder
