import DevForge.PullPreviews

/-!
# When the preview of a pull request settles

The last event, a request or a teardown, writes the row last as long as what came
before it does not write after it, and as long as nothing ends the deployment of a
request but its own task.
-/

set_option autoImplicit false

namespace DevForge.PreviewsSettle
open DeployQueue PullPreviews Transition
open DeploymentStarts (SlotOutcome)

/-! ## What a statement does to a deployment -/

def Over (db : Db) (k : Uuid) : Prop :=
  ∃ d, db.deployments.get k = some d ∧ d.status.active = false

theorem Over.change {db db' : Db} {ks : List Uuid} {k : Uuid} (hc : Change db db' ks)
    (h : Over db k) : Over db' k := by
  obtain ⟨d,hd,ha⟩ := h
  obtain ⟨d',hd',-,-,hsame⟩ := hc.row k d hd
  exact ⟨d',hd',by rw [hsame ha]; exact ha⟩

theorem status_change {db db' : Db} {ks : List Uuid} {k : Uuid} {x : DeployStatus}
    (hc : Change db db' ks) (h : status db k = some x) (hx : x.active = false) :
    status db' k = some x := by
  obtain ⟨d,hd,rfl⟩ := Option.map_eq_some_iff.mp h
  obtain ⟨d',hd',-,-,hsame⟩ := hc.row k d hd
  rw [status, hd', hsame hx]
  rfl

theorem inProgress_iff {db : Db} {k : Uuid} : inProgress db k = true ↔
    ∃ d, db.deployments.get k = some d ∧ d.status.inProgress = true := by
  cases h : db.deployments.get k <;> simp [inProgress, status, h]

theorem Over.not_inProgress {db : Db} {k : Uuid} (h : Over db k) : inProgress db k = false := by
  obtain ⟨d,hd,ha⟩ := h
  rw [Bool.eq_false_iff, ne_eq, inProgress_iff]
  rintro ⟨d',hd',hp⟩
  obtain rfl := Option.some.inj (hd.symm.trans hd')
  rw [inProgress_active hp] at ha
  simp at ha

theorem inProgress_update {db : Db} {p : Uuid → Deployment → Bool}
    {f : Uuid → Deployment → Deployment} {k : Uuid}
    (h : ∀ d, db.deployments.get k = some d → p k d → (f k d).status.inProgress)
    (hk : inProgress db k = true) :
    inProgress { db with deployments := db.deployments.update p f } k = true := by
  obtain ⟨d,hd,hp⟩ := inProgress_iff.mp hk
  apply inProgress_iff.mpr
  by_cases hpd : p k d = true
  · exact ⟨f k d,by simp [Table.get_update, hd, hpd],h d hd hpd⟩
  · exact ⟨d,by simp [Table.get_update, hd, hpd],hp⟩

theorem update_over {db : Db} {p : Uuid → Deployment → Bool} {f : Uuid → Deployment → Deployment}
    {k : Uuid} (hf : ∀ d, (f k d).status.active = false) (hk : k ∈ db.deployments.affected p) :
    Over { db with deployments := db.deployments.update p f } k := by
  obtain ⟨d,hd,hpd⟩ := (Table.mem_affected_iff _ _ k).mp hk
  exact ⟨f k d,by simp [Table.get_update, hd, hpd],hf d⟩

/-! ## The invariant -/

/-- The task of the last request ends with the end of its deployment. -/
def OnTrack (db : Db) (t : Task) : Prop :=
  match t.phase with
  | .upserted => True
  | .left .cancelled | .unregistered .cancelled | .finalized .cancelled | .finished => False
  | .finalized (.completed ok) => status db t.uuid = some (if ok then .success else .failed)
  | _ => inProgress db t.uuid = true

structure Inv (s : State) : Prop where
  unique : (s.tasks.map Task.uuid).Nodup
  upserted : ∀ t ∈ s.tasks, t.phase = .upserted → t.uuid ∉ s.db.deployments.keys
  signalled : ∀ t ∈ s.tasks, t.signalled = true → Over s.db t.uuid
  signalling : ∀ t ∈ s.tasks, ∀ vs, t.phase = .signalling vs → ∀ v ∈ vs, Over s.db v
  tearing : ∀ vs, Teardown.signalling vs ∈ s.teardowns → ∀ v ∈ vs, Over s.db v
  signals : ∀ v ∈ s.signals, Over s.db v
  claimed : ∀ u todo, s.resume = .claimed u todo →
    requested s ≠ some u ∧ u ∈ s.db.deployments.keys
  row : s.tasks ≠ [] ∨ requested s ≠ none → s.row ≠ none
  track : ∀ t ∈ s.tasks, requested s = some t.uuid → t.phase ≠ .finished → OnTrack s.db t
  settled : pending s = true ∨ Final s

theorem start_inv (db : Db) : Inv (PullPreviews.start db) := by
  constructor <;> simp [PullPreviews.start, requested, Final]

theorem pending_of_task {s : State} {t : Task} (ht : t ∈ s.tasks) (hr : requested s = some t.uuid)
    (hp : t.phase ≠ .finished) : pending s = true := by
  unfold requested at hr
  unfold pending
  split at hr
  · rename_i u hu
    obtain rfl : u = t.uuid := Option.some.inj hr
    simp only [hu, List.any_eq_true, Bool.and_eq_true, decide_eq_true_eq]
    exact ⟨t,ht,rfl,hp⟩
  · simp at hr

/-- What an answered request says stays, whatever a statement does. -/
theorem Final.change {s s' : State} {ks : List Uuid} (h : Final s) (hc : Change s.db s'.db ks)
    (hl : s'.last = s.last) (hr : s'.row = s.row) : Final s' := by
  unfold Final at h ⊢
  rw [hl, hr]
  split
  · simpa [*] using h
  · simpa [*] using h
  · rename_i u hu
    rw [hu] at h
    obtain ⟨r,hrow,hend⟩ := h
    refine ⟨r,hr.trans hrow,?_⟩
    rcases hend with ⟨h1,h2⟩ | ⟨h1,h2⟩
    · exact Or.inl ⟨h1,status_change hc h2 rfl⟩
    · exact Or.inr ⟨h1,status_change hc h2 rfl⟩

theorem OnTrack.change {db db' : Db} {ks : List Uuid} {t : Task} (h : OnTrack db t)
    (hc : Change db db' ks) (hp : inProgress db t.uuid = true → inProgress db' t.uuid = true) :
    OnTrack db' t := by
  obtain ⟨uuid,headSha,phase,signalled⟩ := t
  cases phase with
  | finalized outcome =>
    cases outcome with
    | cancelled => exact h
    | completed ok => cases ok <;> exact status_change hc h rfl
  | left outcome => cases outcome <;> first | exact h | exact hp h
  | unregistered outcome => cases outcome <;> first | exact h | exact hp h
  | upserted => exact h
  | finished => exact h
  | _ => exact hp h

/-- A statement that leaves the last request's deployment in progress. -/
theorem Inv.db {s : State} (hs : Inv s) (db' : Db) {ks : List Uuid} (hc : Change s.db db' ks)
    (hk : db'.deployments.keys = s.db.deployments.keys)
    (hp : ∀ u, requested s = some u → inProgress s.db u = true → inProgress db' u = true) :
    Inv { s with db := db' } where
  unique := hs.unique
  upserted t ht h := hk ▸ hs.upserted t ht h
  signalled t ht h := (hs.signalled t ht h).change hc
  signalling t ht vs h v hv := (hs.signalling t ht vs h v hv).change hc
  tearing vs h v hv := (hs.tearing vs h v hv).change hc
  signals v hv := (hs.signals v hv).change hc
  claimed u todo h := ⟨(hs.claimed u todo h).1,hk ▸ (hs.claimed u todo h).2⟩
  row := hs.row
  track t ht hr hf := (hs.track t ht hr hf).change hc (hp t.uuid hr)
  settled := hs.settled.imp_right (fun h => Final.change h hc rfl rfl)

/-! ## One task moves -/

/-- After a move, the other tasks are those with other deployments. -/
theorem mem_set {l : List Task} {i : ℕ} {t t' u : Task} (hn : (l.map Task.uuid).Nodup)
    (ht : l[i]? = some t) (h : u ∈ l.set i t') : u = t' ∨ (u ∈ l ∧ u.uuid ≠ t.uuid) := by
  obtain ⟨j,hj⟩ := List.mem_iff_getElem?.mp h
  have hi : i < l.length := (List.getElem?_eq_some_iff.mp ht).1
  by_cases hij : i = j
  · subst hij
    rw [List.getElem?_set_self hi] at hj
    exact Or.inl (Option.some.inj hj).symm
  · rw [List.getElem?_set_ne hij] at hj
    refine Or.inr ⟨List.mem_of_getElem? hj,fun huu => hij ?_⟩
    have heq : (l.map Task.uuid)[i]? = (l.map Task.uuid)[j]? := by
      rw [List.getElem?_map, List.getElem?_map, ht, hj, Option.map_some, Option.map_some, huu]
    exact (List.getElem?_inj (by rw [List.length_map]; exact hi) hn).mp heq

theorem set_uuids {l : List Task} {i : ℕ} {t : Task} (t' : Task) (ht : l[i]? = some t)
    (hu : t'.uuid = t.uuid) : (l.set i t').map Task.uuid = l.map Task.uuid := by
  rw [List.map_set, hu]
  apply List.ext_getElem?
  intro j
  by_cases hij : i = j
  · subst hij
    rw [List.getElem?_set_self' , List.getElem?_map, ht]
    rfl
  · rw [List.getElem?_set_ne hij]

/-- Another task than the one that moves stays. -/
theorem mem_set_of_ne {l : List Task} {i : ℕ} {t t' u : Task} (ht : l[i]? = some t) (hu : u ∈ l)
    (hne : u ≠ t) : u ∈ l.set i t' := by
  obtain ⟨j,hj⟩ := List.mem_iff_getElem?.mp hu
  have hij : i ≠ j := by
    rintro rfl
    exact hne (Option.some.inj (hj.symm.trans ht))
  exact List.mem_iff_getElem?.mpr ⟨j,by rw [List.getElem?_set_ne hij, hj]⟩

theorem self_mem_set {l : List Task} {i : ℕ} {t t' : Task} (ht : l[i]? = some t) : t' ∈ l.set i t' := by
  have hi : i < l.length := (List.getElem?_eq_some_iff.mp ht).1
  exact List.mem_iff_getElem?.mpr ⟨i,List.getElem?_set_self hi⟩

theorem pending_iff {s : State} : pending s = true ↔
    (s.last = some .tornDown ∧ ∃ d ∈ s.teardowns, d.unmarked = true) ∨
    ∃ u, requested s = some u ∧ ∃ t ∈ s.tasks, t.uuid = u ∧ t.phase ≠ .finished := by
  unfold pending requested
  split
  · simp [*]
  · simp [*]
  · rename_i u hu
    simp only [hu, List.any_eq_true, Bool.and_eq_true, decide_eq_true_eq]
    constructor
    · exact fun h => Or.inr ⟨u,rfl,h⟩
    · rintro (⟨h,-⟩ | ⟨u',h,ht⟩)
      · simp at h
      · rwa [Option.some.inj h]

/-- Where a task moves on, what is pending stays pending, unless it was its own end. -/
theorem pending_set {s : State} {i : ℕ} {t t' : Task} (ht : s.tasks[i]? = some t)
    (hu : t'.uuid = t.uuid) (h : pending s = true)
    (hf : requested s = some t.uuid → t'.phase ≠ .finished) : pending (setTask i t' s) = true := by
  rw [pending_iff] at h ⊢
  refine h.imp id ?_
  rintro ⟨u,hr,u',hu',rfl,hp⟩
  by_cases hut : u' = t
  · subst hut
    exact ⟨u'.uuid,hr,t',self_mem_set ht,hu,hf hr⟩
  · exact ⟨u'.uuid,hr,u',mem_set_of_ne ht hu' hut,rfl,hp⟩

/-- A task goes on to a phase that ends nothing, with a statement of its own. -/
theorem Inv.move {s : State} (hs : Inv s) {i : ℕ} {t : Task} (ht : s.tasks[i]? = some t)
    (t' : Task) (db' : Db) {ks : List Uuid} (hc : Change s.db db' ks) (hu : t'.uuid = t.uuid)
    (hkeys : ∀ k ∈ db'.deployments.keys, k ∈ s.db.deployments.keys ∨ k = t.uuid)
    (hup : t'.phase ≠ .upserted) (hfin : t'.phase ≠ .finished)
    (hsig : t'.signalled = true → Over db' t.uuid)
    (hvs : ∀ vs, t'.phase = .signalling vs → ∀ v ∈ vs, Over db' v)
    (hother : ∀ u, requested s = some u → u ≠ t.uuid → inProgress s.db u = true →
      inProgress db' u = true)
    (hown : requested s = some t.uuid → OnTrack db' t') :
    Inv (setTask i t' { s with db := db' }) := by
  have hset : ∀ {u : Task}, u ∈ s.tasks.set i t' → u = t' ∨ (u ∈ s.tasks ∧ u.uuid ≠ t.uuid) :=
    mem_set hs.unique ht
  constructor
  · show ((s.tasks.set i t').map Task.uuid).Nodup
    rw [set_uuids _ ht hu]
    exact hs.unique
  · intro u hmem hp hk
    rcases hset hmem with rfl | ⟨hmem,hne⟩
    · exact hup hp
    · exact (hkeys _ hk).elim (hs.upserted u hmem hp) hne
  · intro u hmem h
    rcases hset hmem with rfl | ⟨hmem,-⟩
    · exact hu ▸ hsig h
    · exact (hs.signalled u hmem h).change hc
  · intro u hmem vs h
    rcases hset hmem with rfl | ⟨hmem,-⟩
    · exact hvs vs h
    · exact fun v hv => (hs.signalling u hmem vs h v hv).change hc
  · exact fun vs h v hv => (hs.tearing vs h v hv).change hc
  · exact fun v hv => (hs.signals v hv).change hc
  · exact fun u todo h => ⟨(hs.claimed u todo h).1,hc.keys.subset (hs.claimed u todo h).2⟩
  · exact fun h => hs.row (h.imp (fun hne he => hne (by simp [setTask, he])) id)
  · intro u hmem hr hf
    rcases hset hmem with rfl | ⟨hmem,hne⟩
    · exact hown (hu ▸ hr)
    · exact (hs.track u hmem hr hf).change hc (hother u.uuid hr hne)
  · rcases hs.settled with h | h
    · exact Or.inl (pending_set (s := { s with db := db' }) ht hu h (fun _ => hfin))
    · exact Or.inr (Final.change h hc rfl rfl)

/-- A task goes on by itself. -/
theorem Inv.advance {s : State} (hs : Inv s) {i : ℕ} {t : Task} (ht : s.tasks[i]? = some t)
    (t' : Task) (hu : t'.uuid = t.uuid) (hup : t'.phase ≠ .upserted) (hfin : t'.phase ≠ .finished)
    (hsig : t'.signalled = true → t.signalled = true)
    (hvs : ∀ vs, t'.phase = .signalling vs → ∀ v ∈ vs, Over s.db v)
    (hown : requested s = some t.uuid → OnTrack s.db t') : Inv (setTask i t' s) :=
  hs.move ht t' s.db (Change.same _ _ rfl []) hu (fun _ h => Or.inl h) hup hfin
    (fun h => hs.signalled t (List.mem_of_getElem? ht) (hsig h)) hvs (fun _ _ _ h => h) hown

/-- A task ends: if it is the last request's, the row has the end of its deployment. -/
theorem Inv.finish {s : State} (hs : Inv s) {i : ℕ} {t : Task} (ht : s.tasks[i]? = some t)
    (hf : requested s = some t.uuid → Final s) :
    Inv (setTask i { t with phase := .finished } s) := by
  have hset : ∀ {u : Task}, u ∈ s.tasks.set i { t with phase := .finished } →
      u = { t with phase := .finished } ∨ (u ∈ s.tasks ∧ u.uuid ≠ t.uuid) := mem_set hs.unique ht
  constructor
  · show ((s.tasks.set i { t with phase := .finished }).map Task.uuid).Nodup
    rw [set_uuids { t with phase := .finished } ht rfl]
    exact hs.unique
  · intro u hmem hp
    rcases hset hmem with rfl | ⟨hmem,-⟩
    · simp at hp
    · exact hs.upserted u hmem hp
  · intro u hmem h
    rcases hset hmem with rfl | ⟨hmem,-⟩
    · exact hs.signalled t (List.mem_of_getElem? ht) h
    · exact hs.signalled u hmem h
  · intro u hmem vs h
    rcases hset hmem with rfl | ⟨hmem,-⟩
    · simp at h
    · exact hs.signalling u hmem vs h
  · exact hs.tearing
  · exact hs.signals
  · exact hs.claimed
  · exact fun h => hs.row (h.imp (fun hne he => hne (by simp [setTask, he])) id)
  · intro u hmem hr hp
    rcases hset hmem with rfl | ⟨hmem,-⟩
    · simp at hp
    · exact hs.track u hmem hr hp
  · by_cases hr : requested s = some t.uuid
    · exact Or.inr (hf hr)
    · exact hs.settled.imp_left (fun h => pending_set ht rfl h (fun h' => absurd h' hr))

/-- Whatever is written while the last event has still to write. -/
theorem Inv.write {s : State} (hs : Inv s) (x : PreviewStatus) (hp : pending s = true) :
    Inv (setStatus x s) where
  unique := hs.unique
  upserted := hs.upserted
  signalled := hs.signalled
  signalling := hs.signalling
  tearing := hs.tearing
  signals := hs.signals
  claimed := hs.claimed
  row h := by
    have := hs.row h
    simpa [setStatus] using this
  track := hs.track
  settled := Or.inl hp

/-- The identifier of the deployment is no part of the status. -/
theorem Inv.setUuid {s : State} (hs : Inv s) (uuid : Uuid) :
    Inv { s with row := s.row.map (fun r => { r with deploymentUuid := some uuid }) } where
  unique := hs.unique
  upserted := hs.upserted
  signalled := hs.signalled
  signalling := hs.signalling
  tearing := hs.tearing
  signals := hs.signals
  claimed := hs.claimed
  row h := by
    have := hs.row h
    simpa using this
  track := hs.track
  settled := by
    refine hs.settled.imp_right (fun h => ?_)
    unfold Final at h ⊢
    split
    · rename_i hl
      rw [hl] at h
      simpa using h
    · rename_i hl
      rw [hl] at h
      intro r hr
      obtain ⟨r',hr',rfl⟩ := Option.map_eq_some_iff.mp hr
      exact h r' hr'
    · rename_i u hl
      rw [hl] at h
      obtain ⟨r,hr,hend⟩ := h
      exact ⟨{ r with deploymentUuid := some uuid },by simp [hr],hend⟩

theorem signal_task {k : Uuid} {s : State} {u : Task} (h : u ∈ (signalCancel k s).tasks) :
    ∃ t ∈ s.tasks, u.uuid = t.uuid ∧ u.phase = t.phase ∧
      (u.signalled = true → t.signalled = true ∨ t.uuid = k) := by
  obtain ⟨t,ht,rfl⟩ := List.mem_map.mp h
  refine ⟨t,ht,?_⟩
  split
  · rename_i hk
    exact ⟨rfl,rfl,fun _ => Or.inr hk.1⟩
  · exact ⟨rfl,rfl,Or.inl⟩

theorem signal_uuids (k : Uuid) (s : State) :
    (signalCancel k s).tasks.map Task.uuid = s.tasks.map Task.uuid := by
  simp only [signalCancel, List.map_map]
  apply List.map_congr_left
  intro t _
  simp only [Function.comp_apply]
  split <;> rfl

theorem signal_pending (k : Uuid) (s : State) (h : pending s = true) :
    pending (signalCancel k s) = true := by
  rw [pending_iff] at h ⊢
  refine h.imp id ?_
  rintro ⟨u,hr,t,ht,hu,hp⟩
  refine ⟨u,hr,_,List.mem_map.mpr ⟨t,ht,rfl⟩,?_⟩
  split
  · exact ⟨hu,hp⟩
  · exact ⟨hu,hp⟩

/-- A deployment that is over is signalled. -/
theorem Inv.signal {s : State} (hs : Inv s) (k : Uuid) (hk : Over s.db k) : Inv (signalCancel k s) := by
  constructor
  · rw [signal_uuids]
    exact hs.unique
  · intro u hu hp
    obtain ⟨t,ht,huu,hph,-⟩ := signal_task hu
    exact huu ▸ hs.upserted t ht (hph ▸ hp)
  · intro u hu h
    obtain ⟨t,ht,huu,-,hsig⟩ := signal_task hu
    rcases hsig h with h | rfl
    · exact huu ▸ hs.signalled t ht h
    · exact huu ▸ hk
  · intro u hu vs h
    obtain ⟨t,ht,-,hph,-⟩ := signal_task hu
    exact hs.signalling t ht vs (hph ▸ h)
  · exact hs.tearing
  · exact hs.signals
  · exact hs.claimed
  · refine fun h => hs.row (h.imp (fun hne he => hne ?_) id)
    simp [signalCancel, he]
  · intro u hu hr hp
    obtain ⟨t,ht,huu,hph,-⟩ := signal_task hu
    have := hs.track t ht (huu ▸ hr) (hph ▸ hp)
    unfold OnTrack at this ⊢
    rw [huu, hph]
    exact this
  · exact hs.settled.imp_left (signal_pending k s)

/-! ## The pieces of a task -/

variable {p : Preview}

theorem insertPreview_change (t : Task) (now : Instant) (db : Db) :
    Change db (insertPreview p t now db) [] where
  keys := by
    by_cases hk : t.uuid ∈ db.deployments.keys
    · simp [insertPreview, Table.insert, hk]
    · simp only [insertPreview, Table.keys]
      rw [Table.insert_rows _ _ _ hk, List.map_append]
      exact List.prefix_append _ _
  row k d hd := by
    refine ⟨d,?_,rfl,rfl,fun _ => rfl⟩
    simp only [insertPreview, Table.get_insert]
    split
    · rename_i h
      rw [(Table.get_none_iff _ k).mpr (h.1 ▸ h.2)] at hd
      simp at hd
    · exact hd
  cancels k d' hd' hs := by
    simp only [insertPreview, Table.get_insert] at hd'
    split at hd'
    · rw [← Option.some.inj hd'] at hs
      simp [Deployment.preview, Deployment.new] at hs
    · exact Or.inr hd'

theorem insertPreview_keys (t : Task) (now : Instant) (db : Db) {k : Uuid}
    (hk : k ∈ (insertPreview p t now db).deployments.keys) : k ∈ db.deployments.keys ∨ k = t.uuid := by
  by_cases h : t.uuid ∈ db.deployments.keys
  · simp only [insertPreview, Table.insert, h, dif_pos] at hk
    exact Or.inl hk
  · simp only [insertPreview, Table.keys] at hk
    rw [Table.insert_rows _ _ _ h, List.map_append] at hk
    simpa [Table.keys] using hk

theorem Inv.insert {s : State} (hs : Inv s) {i : ℕ} {t : Task} (ht : s.tasks[i]? = some t)
    (hp : t.phase = .upserted) :
    Inv (setTask i { t with phase := .inserted } { s with db := insertPreview p t s.now s.db }) := by
  have htm : t ∈ s.tasks := List.mem_of_getElem? ht
  have hnew := hs.upserted t htm hp
  refine hs.move ht { t with phase := .inserted } _ (insertPreview_change t s.now s.db) rfl
    (fun _ => insertPreview_keys t s.now s.db) (by simp) (by simp)
    (fun h => (hs.signalled t htm h).change (insertPreview_change t s.now s.db)) (by simp) ?_ ?_
  · intro u _ hne hu
    obtain ⟨d,hd,hdp⟩ := inProgress_iff.mp hu
    refine inProgress_iff.mpr ⟨d,?_,hdp⟩
    simp [insertPreview, Table.get_insert, hne, hd]
  · intro _
    refine inProgress_iff.mpr ⟨Deployment.preview p t.headSha s.now,?_,rfl⟩
    simp [insertPreview, Table.get_insert, hnew]

theorem Inv.supersede {s : State} (hs : Inv s) {i : ℕ} {t : Task} (ht : s.tasks[i]? = some t)
    (hp : t.phase = .registered)
    (ho : ∀ u ∈ requested s, u ≠ t.uuid → inProgress s.db u = false) :
    Inv (setTask i { t with phase := .signalling (supersedeInProgress p.project t.uuid s.now s.db).1 }
      { s with db := (supersedeInProgress p.project t.uuid s.now s.db).2 }) := by
  have htm : t ∈ s.tasks := List.mem_of_getElem? ht
  have hc := supersedeInProgress_change p.project t.uuid s.now s.db
  refine hs.move ht { t with phase := .signalling _ } _ hc rfl ?_ (by simp) (by simp)
    (fun h => (hs.signalled t htm h).change hc) ?_ ?_ ?_
  · intro k hk
    left
    simpa [supersedeInProgress, Table.update_keys] using hk
  · rintro vs hvs v hv
    obtain rfl := Phase.signalling.inj hvs
    exact update_over (fun _ => rfl) hv
  · intro u hu hne hu'
    rw [ho u hu hne] at hu'
    simp at hu'
  · intro hr
    have htrack := hs.track t htm hr (by simp [hp])
    rw [OnTrack, hp] at htrack
    exact inProgress_update (fun d _ h => by simp [supersedes] at h) htrack

theorem Inv.mark {s : State} (hs : Inv s) {i : ℕ} {t : Task} (ht : s.tasks[i]? = some t)
    (hp : t.phase = .rechecked) :
    Inv (setTask i { t with phase :=
        if (markRunningIfActive t.uuid s.now s.db).1 then .building else .left .cancelled }
      { s with db := (markRunningIfActive t.uuid s.now s.db).2 }) := by
  have htm : t ∈ s.tasks := List.mem_of_getElem? ht
  have hc := markRunningIfActive_change t.uuid s.now s.db
  have hkeep : ∀ u, inProgress s.db u = true →
      inProgress (markRunningIfActive t.uuid s.now s.db).2 u = true :=
    fun u => inProgress_update (fun _ _ _ => rfl)
  refine hs.move ht { t with phase := _ } _ hc rfl ?_ ?_ ?_
    (fun h => (hs.signalled t htm h).change hc) ?_ (fun u _ _ => hkeep u) ?_
  · intro k hk
    left
    simpa [markRunningIfActive, Table.update_keys] using hk
  · show (if _ then Phase.building else .left .cancelled) ≠ .upserted
    split <;> simp
  · show (if _ then Phase.building else .left .cancelled) ≠ .finished
    split <;> simp
  · intro vs hvs
    have hvs : (if _ then Phase.building else .left .cancelled) = .signalling vs := hvs
    split at hvs <;> simp at hvs
  · intro hr
    have htrack := hs.track t htm hr (by simp [hp])
    rw [OnTrack, hp] at htrack
    have hfound : (markRunningIfActive t.uuid s.now s.db).1 = true := by
      obtain ⟨d,hd,hdp⟩ := inProgress_iff.mp htrack
      simp [markRunningIfActive, hd, hdp]
    rw [if_pos hfound]
    exact hkeep t.uuid htrack

theorem Inv.finalize {s : State} (hs : Inv s) {i : ℕ} {t : Task} (ht : s.tasks[i]? = some t)
    {outcome : SlotOutcome} (hp : t.phase = .unregistered outcome) (o : Outcome)
    (ho : o.status = finalStatus outcome) :
    Inv (setTask i { t with phase := .finalized outcome }
      { s with db := (finalizeIfActive t.uuid o s.now s.db).2 }) := by
  have htm : t ∈ s.tasks := List.mem_of_getElem? ht
  have hc := finalizeIfActive_change t.uuid o s.now s.db [t.uuid] (fun _ => by simp)
  refine hs.move ht { t with phase := .finalized outcome } _ hc rfl ?_ (by simp) (by simp)
    (fun h => (hs.signalled t htm h).change hc) (by simp) ?_ ?_
  · intro k hk
    left
    simpa [finalizeIfActive, Table.update_keys] using hk
  · intro u _ hne
    exact inProgress_update (fun d _ h => by simp [hne] at h)
  · intro hr
    have htrack := hs.track t htm hr (by simp [hp])
    rw [OnTrack, hp] at htrack
    cases outcome with
    | cancelled => exact htrack.elim
    | completed ok =>
      obtain ⟨d,hd,hdp⟩ := inProgress_iff.mp htrack
      show status _ t.uuid = _
      simp [finalizeIfActive, status, Table.get_update, hd, hdp, Deployment.finalized, ho,
        finalStatus]

theorem requested_iff {s : State} {u : Uuid} : requested s = some u ↔ s.last = some (.requested u) := by
  unfold requested
  split
  · simp [*]
  · rename_i h
    simpa using h u

/-- In these phases a task is on track while its deployment is in progress. -/
def busy : Phase → Bool
  | .upserted | .finalized _ | .finished | .left .cancelled | .unregistered .cancelled => false
  | _ => true

theorem onTrack_iff {db : Db} {t : Task} (h : busy t.phase = true) :
    OnTrack db t ↔ inProgress db t.uuid = true := by
  obtain ⟨uuid,headSha,phase,signalled⟩ := t
  cases phase with
  | left outcome => cases outcome <;> first | rfl | simp [busy] at h
  | unregistered outcome => cases outcome <;> first | rfl | simp [busy] at h
  | upserted => simp [busy] at h
  | finalized outcome => simp [busy] at h
  | finished => simp [busy] at h
  | _ => rfl

theorem Inv.goOn {s : State} (hs : Inv s) {i : ℕ} {t : Task} (ht : s.tasks[i]? = some t) (t' : Task)
    (hu : t'.uuid = t.uuid) (hp : busy t.phase = true) (hp' : busy t'.phase = true)
    (hsig : t'.signalled = true → t.signalled = true)
    (hvs : ∀ vs, t'.phase = .signalling vs → ∀ v ∈ vs, Over s.db v) : Inv (setTask i t' s) := by
  refine hs.advance ht t' hu ?_ ?_ hsig hvs (fun hr => ?_)
  · intro h
    simp [h, busy] at hp'
  · intro h
    simp [h, busy] at hp'
  · rw [onTrack_iff hp', hu, ← onTrack_iff hp]
    apply hs.track t (List.mem_of_getElem? ht) hr
    intro h
    simp [h, busy] at hp

/-- A task that was signalled is not the last request's, and leaves. -/
theorem Inv.drop {s : State} (hs : Inv s) {i : ℕ} {t : Task} (ht : s.tasks[i]? = some t)
    (hp : busy t.phase = true) (hsig : t.signalled = true) :
    Inv (setTask i { t with phase := .left .cancelled } s) := by
  have htm : t ∈ s.tasks := List.mem_of_getElem? ht
  refine hs.advance ht { t with phase := .left .cancelled } rfl (by simp) (by simp) id (by simp)
    (fun hr => ?_)
  have htrack := (onTrack_iff hp).mp (hs.track t htm hr (by
    intro h
    simp [h, busy] at hp))
  rw [(hs.signalled t htm hsig).not_inProgress] at htrack
  simp at htrack

theorem Inv.building {s : State} (hs : Inv s) {i : ℕ} {t : Task} (ht : s.tasks[i]? = some t)
    (hp : t.phase = .spawned) (hw : requested s = some t.uuid ∨ pending s = true) :
    Inv (setTask i { t with phase := .starting } (setStatus .building s)) := by
  have htm : t ∈ s.tasks := List.mem_of_getElem? ht
  have hpending : pending s = true := hw.elim (fun hr => pending_of_task htm hr (by simp [hp])) id
  exact (hs.write .building hpending).goOn ht { t with phase := .starting } rfl (by simp [hp, busy]) rfl
    id (by simp)

theorem Inv.answer {s : State} (hs : Inv s) {i : ℕ} {t : Task} (ht : s.tasks[i]? = some t) {ok : Bool}
    (hp : t.phase = .finalized (.completed ok)) (hw : requested s = some t.uuid ∨ pending s = true) :
    Inv (setTask i { t with phase := .finished } (setStatus (if ok then .ready else .failed) s)) := by
  have htm : t ∈ s.tasks := List.mem_of_getElem? ht
  have hpending : pending s = true := hw.elim (fun hr => pending_of_task htm hr (by simp [hp])) id
  refine (hs.write _ hpending).finish ht (fun hr => ?_)
  have htrack := hs.track t htm hr (by simp [hp])
  rw [OnTrack, hp] at htrack
  obtain ⟨r,hrow⟩ := Option.ne_none_iff_exists'.mp (hs.row (Or.inl (List.ne_nil_of_mem htm)))
  have hlast : s.last = some (.requested t.uuid) := requested_iff.mp hr
  unfold Final
  rw [show (setStatus _ s).last = some (.requested t.uuid) from hlast]
  refine ⟨_,by rw [setStatus, hrow]; rfl,?_⟩
  cases ok with
  | true => exact Or.inl ⟨rfl,htrack⟩
  | false => exact Or.inr ⟨rfl,htrack⟩

theorem Inv.next {s : State} (hs : Inv s) (i : ℕ) (t : Task) (report : Outcome)
    (ht : s.tasks[i]? = some t) (ho : Orderly s (.next i report)) :
    Inv (PullPreviews.next p i t report s) := by
  have htm : t ∈ s.tasks := List.mem_of_getElem? ht
  obtain ⟨hw,hsup⟩ := ho t ht
  unfold PullPreviews.next
  split
  · rename_i hp
    exact hs.insert ht hp
  · rename_i hp
    exact (hs.setUuid t.uuid).goOn ht { t with phase := .spawned } rfl (by simp [hp, busy]) rfl id (by simp)
  · rename_i hp
    exact hs.building ht hp (hw (by simp [Task.writes, hp]))
  · rename_i hp
    split
    · exact hs
    · exact hs.goOn ht { t with phase := .locked } rfl (by simp [hp, busy]) rfl id (by simp)
  · rename_i hp
    exact hs.goOn ht { t with phase := .registered, signalled := false } rfl (by simp [hp, busy]) rfl
      (by simp) (by simp)
  · rename_i hp
    exact hs.supersede ht hp (hsup hp)
  · rename_i v vs hp
    have hover := hs.signalling t htm (v::vs) hp
    have hstay : (signalCancel v s).tasks[i]? = some t := by
      simp [signalCancel, ht, Task.listens, hp]
    refine (hs.signal v (hover v List.mem_cons_self)).goOn hstay { t with phase := .signalling vs }
      rfl (by simp [hp, busy]) rfl id ?_
    rintro ws hws w hmem
    obtain rfl := Phase.signalling.inj hws
    exact hover w (List.mem_cons_of_mem _ hmem)
  · rename_i hp
    exact hs.goOn ht { t with phase := .unlocked } rfl (by simp [hp, busy]) rfl id (by simp)
  · rename_i hp
    exact hs.goOn ht { t with phase := .subscribed } rfl (by simp [hp, busy]) rfl id (by simp)
  · rename_i hp
    by_cases hsig : t.signalled = true
    · rw [if_pos hsig]
      exact hs.drop ht (by simp [hp, busy]) hsig
    · rw [if_neg hsig]
      exact hs.goOn ht { t with phase := .waiting } rfl (by simp [hp, busy]) rfl id (by simp)
  · rename_i hp
    exact hs.goOn ht { t with phase := .holding } rfl (by simp [hp, busy]) rfl id (by simp)
  · rename_i hp
    by_cases hsig : t.signalled = true
    · rw [if_pos hsig]
      exact hs.drop ht (by simp [hp, busy]) hsig
    · rw [if_neg hsig]
      exact hs.goOn ht { t with phase := .rechecked } rfl (by simp [hp, busy]) rfl id (by simp)
  · rename_i hp
    exact hs.mark ht hp
  · exact hs
  · rename_i outcome hp
    cases outcome with
    | cancelled =>
      refine hs.advance ht { t with phase := .unregistered .cancelled } rfl (by simp) (by simp) id (by simp)
        (fun hr => ?_)
      have htrack := hs.track t htm hr (by simp [hp])
      rwa [OnTrack, hp] at htrack
    | completed ok =>
      exact hs.goOn ht { t with phase := .unregistered (.completed ok) } rfl (by simp [hp, busy]) rfl id
        (by simp)
  · rename_i outcome hp
    exact hs.finalize ht hp _ rfl
  · rename_i hp
    refine hs.finish ht (fun hr => ?_)
    have htrack := hs.track t htm hr (by simp [hp])
    rw [OnTrack, hp] at htrack
    exact htrack.elim
  · rename_i ok hp
    exact hs.answer ht hp (hw (by simp [Task.writes, hp]))
  · exact hs

theorem Inv.stopped {s : State} (hs : Inv s) (i : ℕ) (t : Task) (ht : s.tasks[i]? = some t) :
    Inv (PullPreviews.stopped i t s) := by
  unfold PullPreviews.stopped
  split
  · rename_i h
    refine hs.drop ht ?_ h.2
    rcases h.1 with hp | hp <;> simp [hp, busy]
  · exact hs

theorem Inv.built {s : State} (hs : Inv s) (i : ℕ) (t : Task) (ok : Bool) (ht : s.tasks[i]? = some t) :
    Inv (PullPreviews.built i t ok s) := by
  unfold PullPreviews.built
  split
  · rename_i hp
    exact hs.goOn ht { t with phase := .left (.completed ok) } rfl (by simp [hp, busy]) rfl id (by simp)
  · exact hs

theorem Inv.aborted {s : State} (hs : Inv s) (i : ℕ) (t : Task) (ht : s.tasks[i]? = some t) :
    Inv (PullPreviews.aborted i t s) := by
  unfold PullPreviews.aborted
  split
  · rename_i hp
    exact hs.goOn ht { t with phase := .unregistered (.completed false) } rfl (by simp [hp, busy]) rfl id
      (by simp)
  · exact hs

/-! ## The other actions -/

theorem Inv.startPreview {s : State} (hs : Inv s) (uuid : Uuid) (headSha headRef : String) :
    Inv (PullPreviews.startPreview p uuid headSha headRef s) := by
  unfold PullPreviews.startPreview
  split
  · exact hs
  split
  · exact hs
  · rename_i host _ hno
    rw [not_or, not_or] at hno
    obtain ⟨-,hkey,hany⟩ := hno
    have hfresh : ∀ t ∈ s.tasks, t.uuid ≠ uuid := by simpa using hany
    constructor
    · rw [List.map_append, List.nodup_append]
      refine ⟨hs.unique,by simp,?_⟩
      intro a ha b hb
      obtain ⟨t,ht,rfl⟩ := List.mem_map.mp ha
      obtain rfl : b = uuid := by simpa using hb
      exact hfresh t ht
    · intro t ht hp
      rcases List.mem_append.mp ht with ht | ht
      · exact hs.upserted t ht hp
      · rw [List.mem_singleton.mp ht]
        exact hkey
    · intro t ht h
      rcases List.mem_append.mp ht with ht | ht
      · exact hs.signalled t ht h
      · simp [List.mem_singleton.mp ht] at h
    · intro t ht vs h
      rcases List.mem_append.mp ht with ht | ht
      · exact hs.signalling t ht vs h
      · simp [List.mem_singleton.mp ht] at h
    · exact hs.tearing
    · exact hs.signals
    · intro u todo h
      have hu := (hs.claimed u todo h).2
      refine ⟨?_,hu⟩
      rintro hr
      obtain rfl : uuid = u := by simpa [requested] using hr
      exact hkey hu
    · simp
    · intro t ht hr hp
      obtain rfl : uuid = t.uuid := by simpa [requested] using hr
      rcases List.mem_append.mp ht with ht | ht
      · exact absurd rfl (hfresh t ht)
      · rw [List.mem_singleton.mp ht]
        trivial
    · left
      simp [pending]

theorem Inv.teardown {s : State} (hs : Inv s) (reason : String) : Inv (PullPreviews.teardown p reason s) := by
  have hc : Change s.db (PullPreviews.teardown p reason s).db (s.db.deployments.affected (isActivePreview p)) :=
    update_change s.db (isActivePreview p) _ _ (fun _ d _ h => by
        simp only [isActivePreview, Bool.and_eq_true] at h
        exact h.2)
      (fun _ _ => ⟨rfl,rfl⟩) (fun k d hd h _ => (Table.mem_affected_iff _ _ k).mpr ⟨d,hd,h⟩)
  have hk : (PullPreviews.teardown p reason s).db.deployments.keys = s.db.deployments.keys :=
    Table.update_keys _ _ _
  have hnone : requested (PullPreviews.teardown p reason s) = none := rfl
  constructor
  · exact hs.unique
  · exact fun t ht hp => hk ▸ hs.upserted t ht hp
  · exact fun t ht h => (hs.signalled t ht h).change hc
  · exact fun t ht vs h v hv => (hs.signalling t ht vs h v hv).change hc
  · intro vs hvs v hv
    rcases List.mem_append.mp hvs with hvs | hvs
    · exact (hs.tearing vs hvs v hv).change hc
    · obtain rfl : vs = s.db.deployments.affected (isActivePreview p) := by simpa using hvs
      exact update_over (fun _ => rfl) hv
  · exact fun v hv => (hs.signals v hv).change hc
  · intro u todo h
    rw [hnone, hk]
    exact ⟨by simp,(hs.claimed u todo h).2⟩
  · intro h
    rw [hnone] at h
    exact hs.row (Or.inl (h.resolve_right (by simp)))
  · intro t ht hr
    rw [hnone] at hr
    simp at hr
  · left
    simp [pending, PullPreviews.teardown, Teardown.unmarked]

/-- A teardown goes on: if it was to mark the row, it still is, or the row is marked. -/
theorem Inv.setTeardown {s : State} (hs : Inv s) {j : ℕ} {d : Teardown} (hd : s.teardowns[j]? = some d)
    (d' : Teardown) (hvs : ∀ vs, d' = .signalling vs → ∀ v ∈ vs, Over s.db v)
    (hfin : s.last = some .tornDown → d.unmarked = true → d'.unmarked = true ∨ Final s) :
    Inv (PullPreviews.setTeardown j d' s) where
  unique := hs.unique
  upserted := hs.upserted
  signalled := hs.signalled
  signalling := hs.signalling
  tearing vs h v hv := by
    rcases List.mem_or_eq_of_mem_set h with h | h
    · exact hs.tearing vs h v hv
    · exact hvs vs h.symm v hv
  signals := hs.signals
  claimed := hs.claimed
  row := hs.row
  track := hs.track
  settled := by
    rcases hs.settled with h | h
    · rcases pending_iff.mp h with ⟨hl,e,he,hunmarked⟩ | hr
      · obtain ⟨k,hk⟩ := List.mem_iff_getElem?.mp he
        by_cases hjk : j = k
        · subst hjk
          obtain rfl := Option.some.inj (hd.symm.trans hk)
          refine (hfin hl hunmarked).imp_left (fun hu => pending_iff.mpr (Or.inl ⟨hl,d',?_,hu⟩))
          exact List.mem_iff_getElem?.mpr
            ⟨j,List.getElem?_set_self (List.getElem?_eq_some_iff.mp hd).1⟩
        · refine Or.inl (pending_iff.mpr (Or.inl ⟨hl,e,?_,hunmarked⟩))
          exact List.mem_iff_getElem?.mpr ⟨k,by rw [← hk]; exact List.getElem?_set_ne hjk⟩
      · exact Or.inl (pending_iff.mpr (Or.inr hr))
    · exact Or.inr h

/-- A teardown that marks the row, as the last event or while that has still to write. -/
theorem Inv.delete {s : State} (hs : Inv s) {j : ℕ} (hd : s.teardowns[j]? = some (.marking true))
    (hw : s.last = some .tornDown ∨ pending s = true) :
    Inv (PullPreviews.setTeardown j .done (setStatus .deleted s)) := by
  have hpending : pending s = true := hw.elim (fun hl => pending_iff.mpr
    (Or.inl ⟨hl,_,List.mem_of_getElem? hd,rfl⟩)) id
  refine (hs.write .deleted hpending).setTeardown hd .done (by simp) (fun hl _ => Or.inr ?_)
  unfold Final
  rw [hl]
  intro r hr
  obtain ⟨r',-,rfl⟩ := Option.map_eq_some_iff.mp hr
  rfl

theorem Inv.teardownNext {s : State} (hs : Inv s) (j : ℕ) (d : Teardown) (hd : s.teardowns[j]? = some d)
    (ho : Orderly s (.teardownNext j)) : Inv (PullPreviews.teardownNext p j s d) := by
  have hdm : d ∈ s.teardowns := List.mem_of_getElem? hd
  cases d with
  | signalling vs =>
    cases vs with
    | nil =>
      have hrel : Inv { s with db := releaseDeployingIfNoActive p.project s.now s.db } :=
        hs.db _ (settleProjects_change _ _ _) rfl (fun _ _ h => h)
      exact hrel.setTeardown hd .removing (by simp) (fun _ _ => Or.inl rfl)
    | cons v vs =>
      have hover := hs.tearing (v::vs) hdm
      refine (hs.signal v (hover v List.mem_cons_self)).setTeardown hd (.signalling vs) ?_
        (fun _ _ => Or.inl rfl)
      rintro ws hws w hmem
      obtain rfl := Teardown.signalling.inj hws
      exact hover w (List.mem_cons_of_mem _ hmem)
  | removing =>
    refine hs.setTeardown hd (.marking s.row.isSome) (by simp) (fun hl _ => ?_)
    cases hrow : s.row with
    | some r => exact Or.inl rfl
    | none =>
      right
      unfold Final
      rw [hl]
      intro r hr
      simp [hrow] at hr
  | marking found =>
    cases found with
    | true => exact hs.delete hd (ho _ hd rfl)
    | false => exact hs.setTeardown hd .done (by simp) (fun _ h => by simp [Teardown.unmarked] at h)
  | done => exact hs

theorem Inv.userCancel {s : State} (hs : Inv s) (uuid : Uuid) (ho : Orderly s (.userCancel uuid)) :
    Inv (PullPreviews.userCancel uuid s) := by
  simp only [PullPreviews.userCancel]
  split
  · rename_i hfound
    have hc := cancelOneDeployment_change uuid s.now s.db
    have hrow : ∃ d, s.db.deployments.get uuid = some d ∧ d.status.active = true := by
      unfold cancelOneDeployment at hfound
      split at hfound
      · simp at hfound
      · rename_i d hd
        exact ⟨d,(Option.filter_eq_some_iff.mp hd)⟩
    obtain ⟨d,hd,ha⟩ := hrow
    have hdb : (cancelOneDeployment uuid s.now s.db).2.deployments =
        s.db.deployments.update (fun k d => k = uuid && d.status.active)
          (fun _ => .cancelledByUser s.now) := by
      unfold cancelOneDeployment
      rw [hd, Option.filter_some, if_pos ha]
      rfl
    have hinv : Inv { s with db := (cancelOneDeployment uuid s.now s.db).2 } := by
      refine hs.db _ hc ?_ ?_
      · rw [hdb]
        exact Table.update_keys _ _ _
      · intro u hu hp
        obtain ⟨e,he,hep⟩ := inProgress_iff.mp hp
        have hne : u ≠ uuid := by
          rintro rfl
          have hinactive := ho hu
          rw [status, hd] at hinactive
          simp [ha] at hinactive
        refine inProgress_iff.mpr ⟨e,?_,hep⟩
        rw [hdb, Table.get_update, he]
        simp [hne]
    have hover : Over (cancelOneDeployment uuid s.now s.db).2 uuid := by
      refine ⟨d.cancelledByUser s.now,?_,rfl⟩
      rw [hdb, Table.get_update, hd]
      simp [ha]
    exact {
      unique := hinv.unique
      upserted := hinv.upserted
      signalled := hinv.signalled
      signalling := hinv.signalling
      tearing := hinv.tearing
      signals := by
        intro v hv
        rcases List.mem_append.mp hv with hv | hv
        · exact hinv.signals v hv
        · rw [List.mem_singleton.mp hv]
          exact hover
      claimed := hinv.claimed
      row := hinv.row
      track := hinv.track
      settled := hinv.settled }
  · exact hs

theorem Inv.userSignal {s : State} (hs : Inv s) : Inv (PullPreviews.userSignal s) := by
  unfold PullPreviews.userSignal
  split
  · exact hs
  · rename_i uuid rest hsig
    have hinv : Inv { s with signals := rest } :=
      { hs with signals := fun v hv => hs.signals v (by rw [hsig]; exact List.mem_cons_of_mem _ hv) }
    exact hinv.signal uuid (hs.signals uuid (by rw [hsig]; exact List.mem_cons_self))

theorem Inv.restart {s : State} (hs : Inv s) (ho : pending s = false) : Inv (PullPreviews.restart s) where
  unique := List.nodup_nil
  upserted := by simp [PullPreviews.restart]
  signalled := by simp [PullPreviews.restart]
  signalling := by simp [PullPreviews.restart]
  tearing := by simp [PullPreviews.restart]
  signals := by simp [PullPreviews.restart]
  claimed := by simp [PullPreviews.restart]
  row h := hs.row (h.imp (fun h => absurd rfl h) id)
  track := by simp [PullPreviews.restart]
  settled := by
    rcases hs.settled with h | h
    · simp [ho] at h
    · exact Or.inr h

theorem Inv.resume {s : State} (hs : Inv s) (resume : Resume)
    (hr : ∀ u todo, resume = .claimed u todo → requested s ≠ some u ∧ u ∈ s.db.deployments.keys) :
    Inv { s with resume := resume } :=
  { hs with claimed := hr }

theorem Inv.resumeNext {s : State} (hs : Inv s) (ho : Orderly s .resumeNext) :
    Inv (PullPreviews.resumeNext s) := by
  unfold PullPreviews.resumeNext
  split
  · have hinv : Inv { s with db := requeueInterrupted s.now s.db } :=
      hs.db _ (requeueInterrupted_change _ _) (Table.update_keys _ _ _)
        (fun u _ => inProgress_update (fun _ _ _ => rfl))
    exact hinv.resume .requeued (by simp)
  · exact hs.resume _ (by simp)
  · exact hs
  · rename_i uuid todo hres
    have hinv : Inv { s with db := (tryClaimDeployment uuid s.now s.db).2 } :=
      hs.db _ (tryClaimDeployment_change _ _ _) (Table.update_keys _ _ _)
        (fun u _ => inProgress_update (fun _ _ _ => rfl))
    refine hinv.resume _ (fun u todo' h => ?_)
    split at h
    · rename_i hclaim
      obtain ⟨rfl,rfl⟩ := Resume.claimed.inj h
      obtain ⟨d,hd,hq⟩ : ∃ d, s.db.deployments.get uuid = some d ∧ d.status = .queued := by
        have := hclaim.1
        simpa [tryClaimDeployment, Option.any_eq_true] using this
      constructor
      · intro hr
        have hnot : Orderly s .resumeNext := ho
        simp only [Orderly, hres] at hnot
        exact hnot hr (by rw [status, hd, Option.map_some, hq])
      · have hkeys : uuid ∈ s.db.deployments.keys := by
          by_contra hn
          simp [(Table.get_none_iff _ uuid).mpr hn] at hd
        show uuid ∈ (tryClaimDeployment uuid s.now s.db).2.deployments.keys
        rw [tryClaimDeployment, Table.update_keys]
        exact hkeys
    · simp at h
  · rename_i uuid todo hres
    have hne := (hs.claimed uuid todo hres).1
    have hinv := hs.db (finalizeIfActive uuid ⟨.failed,"unknown",
        "[devforge] preview interrompue par un redémarrage\n",
        some "Preview interrompue : redéploie-la depuis l’onglet Previews",none,none⟩ s.now s.db).2
      (finalizeIfActive_change _ _ _ _ [] (by simp)) (Table.update_keys _ _ _) (by
        intro u hu
        refine inProgress_update (fun d _ h => ?_)
        rw [Bool.and_eq_true, decide_eq_true_eq] at h
        exact absurd (h.1 ▸ hu) hne)
    exact hinv.resume (.running todo) (by simp)

theorem onTask_inv {s : State} (hs : Inv s) (i : ℕ) (f : Task → State → State)
    (hf : ∀ t, s.tasks[i]? = some t → Inv (f t s)) : Inv (onTask i f s) := by
  unfold onTask
  split
  · rename_i t ht
    exact hf t ht
  · exact hs

theorem step_inv (s : State) (a : Action) (hs : Inv s) (ho : Orderly s a) :
    Inv (PullPreviews.step p s a) := by
  cases a with
  | tick seconds => exact { hs with }
  | start uuid headSha headRef => exact hs.startPreview uuid headSha headRef
  | next i report => exact onTask_inv hs i _ (fun t ht => hs.next i t report ht ho)
  | stopped i => exact onTask_inv hs i _ (hs.stopped i)
  | built i ok => exact onTask_inv hs i _ (fun t ht => hs.built i t ok ht)
  | aborted i => exact onTask_inv hs i _ (hs.aborted i)
  | teardown reason => exact hs.teardown reason
  | teardownNext j =>
    simp only [PullPreviews.step]
    split
    · rename_i d hd
      exact hs.teardownNext j d hd ho
    · exact hs
  | userCancel uuid => exact hs.userCancel uuid ho
  | userSignal => exact hs.userSignal
  | restart => exact hs.restart ho
  | resumeNext => exact hs.resumeNext ho

theorem Inv.settle {s : State} (hs : Inv s) : Settled s := by
  intro htasks htears
  refine hs.settled.resolve_left (fun h => ?_)
  rcases pending_iff.mp h with ⟨-,d,hd,hu⟩ | ⟨u,-,t,ht,-,hp⟩
  · rw [htears d hd] at hu
    simp [Teardown.unmarked] at hu
  · exact hp (htasks t ht)

/-- When nothing is in flight, the row is deleted after a teardown, and else has the end of
the deployment of the last head, in every run in which the last event writes last. -/
theorem previews_settle (p : Preview) (db : Db) (acts : List Action)
    (h : Guarded (PullPreviews.step p) Orderly acts (PullPreviews.start db)) :
    Settled (run (PullPreviews.step p) acts (PullPreviews.start db)) :=
  (guarded_invariant (PullPreviews.step p) Orderly Inv step_inv acts _ (start_inv db) h).settle

def shop : Preview := ⟨1,7,"nixpacks",some "pr-7.shop.example"⟩

def noRows : Db := ⟨Table.empty,Table.empty⟩

def report : Outcome := ⟨.success,"4f2a91c07bd3","",none,none,none⟩

def advance (i n : ℕ) : List Action := List.replicate n (.next i report)

/-- A push, its build, a second push while the first task reports, then the closing. -/
def orderlyActs : List Action :=
  [Action.start 5 "4f2a91c07bd3e1" "feature"]++advance 0 12++
    [Action.start 6 "8c3d52be90af77" "feature",.built 0 true]++advance 0 4++advance 1 12++[Action.built 1 true]++
    advance 1 4++[Action.userCancel 6,.teardown "PR fermée",.teardownNext 0,.teardownNext 0,.teardownNext 0]

theorem previews_settle_closing :
    Settled (run (PullPreviews.step shop) orderlyActs (PullPreviews.start noRows)) :=
  previews_settle shop noRows orderlyActs (by decide +kernel)

/-- The user cancels the only build of a preview. -/
def cancelledActs : List Action :=
  [Action.start 5 "4f2a91c07bd3e1" "feature"]++advance 0 12++[Action.userCancel 5,.userSignal,.stopped 0]++advance 0 4

theorem cancelled_preview_keeps_building : ¬∀ (p : Preview) (db : Db) (acts : List Action),
    Settled (run (PullPreviews.step p) acts (PullPreviews.start db)) := by
  intro h
  have hend := h shop noRows cancelledActs (by decide +kernel) (by decide +kernel)
  have hrow : (run (PullPreviews.step shop) cancelledActs (PullPreviews.start noRows)).row.map
      PreviewRow.status = some .building := by decide +kernel
  have hlast : (run (PullPreviews.step shop) cancelledActs (PullPreviews.start noRows)).last =
      some (.requested 5) := by decide +kernel
  unfold Final at hend
  rw [hlast] at hend
  obtain ⟨r,hr,hs⟩ := hend
  rw [hr] at hrow
  have hbuilding : r.status = .building := Option.some.inj hrow
  rw [hbuilding] at hs
  simp at hs

end DevForge.PreviewsSettle
