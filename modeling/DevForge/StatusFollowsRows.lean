import DevForge.DeployEndings

/-!
# The status of a project and its deployments

While every statement that writes another status than `deploying` finds no
production deployment of the project that is active, and no manual deployment
is found ended when it is finalized, the status follows the rows.
-/

set_option autoImplicit false

namespace DevForge.StatusFollowsRows
open DeployEndings DeployQueue DeploymentStarts Transition

/-! ## What is claimed of a state -/

structure FollowsRows (s : DeployEndings.State) : Prop where
  deploying : ∀ k d, s.base.db.deployments.get k = some d → d.environment = .production →
    d.status.active → k ∉ s.creating.map Creating.uuid →
    (s.base.db.projects.get d.projectId).map Project.status = some .deploying
  silent : ∀ e ∈ s.endings, e.wrote = some false → e.published = false ∧ e.followUp = none

/-- The row that a manual deployment finalizes is still active, another status
than `deploying` is written while no production deployment is active, and no
start is cut off before it has marked its project. -/
def Orderly (s : DeployEndings.State) : DeployEndings.Action → Prop
  | .task (.next i _) => ∀ t ∈ s.base.starts[i]?, ∀ ok, State.ended t = some (.completed ok) →
      s.isManual t → (s.base.db.deployments.get t.uuid).any (·.status.inProgress)
  | .publish n => ∀ e ∈ s.endings[n]?, e.pc = .publish → s.busy e.project = false
  | .recompute n => ∀ r ∈ s.recomputes[n]?, ∀ st ∈ r.pc.written, st = .deploying ∨
      s.busy r.project = false
  | .restart => ∀ c ∈ s.creating, (s.base.db.deployments.get c.uuid).any (·.status.active) →
      (s.base.db.projects.get c.project).map Project.status = some .deploying
  | _ => True

instance (s : DeployEndings.State) (a : DeployEndings.Action) : Decidable (Orderly s a) := by
  unfold Orderly
  split <;> infer_instance

structure Inv (s : DeployEndings.State) : Prop where
  deploying : ∀ k d, s.base.db.deployments.get k = some d → d.environment = .production →
    d.status.active → k ∉ s.creating.map Creating.uuid →
    (s.base.db.projects.get d.projectId).map Project.status = some .deploying
  creating : ∀ c ∈ s.creating, ∃ d, s.base.db.deployments.get c.uuid = some d ∧
    d.projectId = c.project
  projects : ∀ c ∈ s.creating, (s.base.db.projects.get c.project).isSome
  silent : ∀ e ∈ s.endings, e.wrote = some false →
    e.pc = .returned ∧ e.published = false ∧ e.followUp = none

/-! ## Statements that leave the projects alone -/

/-- The rows keep their project and environment, none becomes active or is new,
and the projects are as they were. -/
structure Mild (db db' : Db) : Prop where
  projects : db'.projects = db.projects
  back : ∀ k d', db'.deployments.get k = some d' → ∃ d, db.deployments.get k = some d ∧
    d'.projectId = d.projectId ∧ d'.environment = d.environment ∧ (d'.status.active → d.status.active)
  forth : ∀ k d, db.deployments.get k = some d → ∃ d', db'.deployments.get k = some d' ∧
    d'.projectId = d.projectId

theorem Mild.refl (db : Db) : Mild db db :=
  ⟨rfl,fun _ d' h => ⟨d',h,rfl,rfl,id⟩,fun _ d h => ⟨d,h,rfl⟩⟩

theorem Mild.trans {db db' db'' : Db} (h : Mild db db') (h' : Mild db' db'') : Mild db db'' where
  projects := h'.projects.trans h.projects
  back k d'' hd'' := by
    obtain ⟨d',hd',h1,h2,h3⟩ := h'.back k d'' hd''
    obtain ⟨d,hd,g1,g2,g3⟩ := h.back k d' hd'
    exact ⟨d,hd,h1.trans g1,h2.trans g2,g3 ∘ h3⟩
  forth k d hd := by
    obtain ⟨d',hd',h1⟩ := h.forth k d hd
    obtain ⟨d'',hd'',g1⟩ := h'.forth k d' hd'
    exact ⟨d'',hd'',g1.trans h1⟩

theorem mild_of_change {db db' : Db} {ks : List Uuid} (hc : Change db db' ks)
    (hp : db'.projects = db.projects) (hk : db'.deployments.keys = db.deployments.keys) :
    Mild db db' where
  projects := hp
  back k d' hd' := by
    have hmem : k ∈ db.deployments.keys := by
      by_contra hn
      rw [← hk, ← Table.get_none_iff, hd'] at hn
      simp at hn
    obtain ⟨d,hd⟩ := Option.ne_none_iff_exists'.mp (fun hn => (Table.get_none_iff _ _).mp hn hmem)
    obtain ⟨e,he,h1,h2,h3⟩ := hc.row k d hd
    obtain rfl : d' = e := Option.some.inj (hd'.symm.trans he)
    refine ⟨d,hd,h1,h2,fun ha => ?_⟩
    cases hda : d.status.active with
    | true => rfl
    | false => rw [h3 hda, hda] at ha; exact ha
  forth k d hd := by
    obtain ⟨d',hd',h1,_⟩ := hc.row k d hd
    exact ⟨d',hd',h1⟩

theorem Inv.mild {s : DeployEndings.State} (h : Inv s) (base : DeploymentStarts.State)
    (hm : Mild s.base.db base.db) : Inv { s with base := base } where
  deploying k d' hd' he ha hc := by
    obtain ⟨d,hd,h1,h2,h3⟩ := hm.back k d' hd'
    show (base.db.projects.get d'.projectId).map Project.status = _
    rw [hm.projects, h1]
    exact h.deploying k d hd (h2 ▸ he) (h3 ha) hc
  creating c hc := by
    obtain ⟨d,hd,hp⟩ := h.creating c hc
    obtain ⟨d',hd',hp'⟩ := hm.forth _ d hd
    exact ⟨d',hd',hp'.trans hp⟩
  projects c hc := by
    show (base.db.projects.get c.project).isSome
    rw [hm.projects]
    exact h.projects c hc
  silent := h.silent

theorem finalizeIfActive_mild (uuid : Uuid) (o : Outcome) (now : Instant) (db : Db) :
    Mild db (finalizeIfActive uuid o now db).2 :=
  mild_of_change (finalizeIfActive_change uuid o now db [uuid] (fun _ => by simp)) rfl
    (Table.update_keys _ _ _)

theorem finalizeStart_mild (t : Start) (outcome : SlotOutcome) (report : Outcome) (now : Instant)
    (db : Db) (he : t.environment ≠ .production) :
    Mild db (finalizeStart t outcome report now db) := by
  cases outcome with
  | cancelled =>
    simp only [finalizeStart, he, and_false, if_false]
    exact finalizeIfActive_mild _ _ _ _
  | completed ok =>
    simp only [finalizeStart, he, false_and, if_false]
    exact finalizeIfActive_mild _ _ _ _

theorem next_mild (i : ℕ) (t : Start) (report : Outcome) (s : DeploymentStarts.State)
    (ho : State.ended t = none) : Mild s.db (DeploymentStarts.next i t report s).db := by
  unfold DeploymentStarts.next
  split
  · split
    · exact Mild.refl _
    · exact Mild.refl _
  · exact Mild.refl _
  · exact mild_of_change (supersedeInProgress_change t.project t.uuid s.now s.db) rfl
      (Table.update_keys _ _ _)
  · exact Mild.refl _
  · exact Mild.refl _
  · exact Mild.refl _
  · split
    · exact Mild.refl _
    split
    · exact mild_of_change (noteWaitingForNode_change t.server t.uuid s.db) rfl (Table.update_keys _ _ _)
    · exact Mild.refl _
  · split
    · exact Mild.refl _
    · exact Mild.refl _
  · split
    · exact Mild.refl _
    · exact Mild.refl _
  · have hm := mild_of_change (markRunningIfActive_change t.uuid s.now s.db) rfl (Table.update_keys _ _ _)
    dsimp only
    split
    · exact hm
    · exact hm
  · exact Mild.refl _
  · exact Mild.refl _
  · rename_i outcome hp
    apply finalizeStart_mild
    intro he
    simp [State.ended, hp, he] at ho
  · exact Mild.refl _

theorem claimNext_mild (uuid : Uuid) (todo : List Uuid) (server : String)
    (s : DeploymentStarts.State) : Mild s.db (claimNext uuid todo server s).db := by
  have hm : Mild s.db (tryClaimDeployment uuid s.now s.db).2 :=
    mild_of_change (tryClaimDeployment_change uuid s.now s.db) rfl (Table.update_keys _ _ _)
  have hf := finalizeIfActive_mild uuid ⟨.failed,"unknown",
    "[devforge] preview interrompue par un redémarrage\n",
    some "Preview interrompue : redéploie-la depuis l’onglet Previews",none,none⟩ s.now
    (tryClaimDeployment uuid s.now s.db).2
  unfold claimNext
  dsimp only
  split
  · split
    · exact hm.trans hf
    · exact hm
  · exact hm

theorem resumeNext_mild (server : String) (s : DeploymentStarts.State) :
    Mild s.db (DeploymentStarts.resumeNext server s).db := by
  unfold DeploymentStarts.resumeNext
  split
  · exact mild_of_change (requeueInterrupted_change s.now s.db) rfl (Table.update_keys _ _ _)
  · exact Mild.refl _
  · split
    · split
      · exact Mild.refl _
      · exact claimNext_mild _ _ _ _
    · exact Mild.refl _

theorem stopped_mild (i : ℕ) (t : Start) (s : DeploymentStarts.State) :
    Mild s.db (stopped i t s).db := by
  unfold stopped
  split <;> exact Mild.refl _

/-! ## Statements that write a status -/

theorem busy_of_row {s : DeployEndings.State} {k : Uuid} {d : Deployment}
    (hd : s.base.db.deployments.get k = some d) (he : d.environment = .production)
    (ha : d.status.active) (hc : k ∉ s.creating.map Creating.uuid) : s.busy d.projectId := by
  apply List.any_eq_true.mpr
  refine ⟨(k,d),(Table.mem_iff_get _ _ _).mpr hd,?_⟩
  simp [he, ha, hc]

theorem status_write (p q : ℕ) (st : ProjectStatus) (now : Instant) (db : Db) :
    ((setProjectStatus (fun k _ => k = p) st now db).projects.get q).map Project.status =
      (db.projects.get q).map (fun r => if q = p then st else r.status) := by
  simp only [setProjectStatus, Table.get_update, Option.map_map]
  congr 1
  funext r
  by_cases hq : q = p <;> simp [hq]

theorem project_kept (p q : ℕ) (st : ProjectStatus) (now : Instant) (db : Db) :
    ((setProjectStatus (fun k _ => k = p) st now db).projects.get q).isSome =
      (db.projects.get q).isSome := by
  simp [setProjectStatus, Table.get_update]

theorem Inv.write {s : DeployEndings.State} (h : Inv s) (p : ℕ) (st : ProjectStatus) (now : Instant)
    (hw : st = .deploying ∨ s.busy p = false) :
    Inv { s with base := { s.base with
      db := setProjectStatus (fun k _ => k = p) st now s.base.db } } where
  deploying k d hd he ha hc := by
    have hold := h.deploying k d hd he ha hc
    rw [status_write]
    by_cases hq : d.projectId = p
    · rcases hw with rfl | hb
      · obtain ⟨r,hr,_⟩ := Option.map_eq_some_iff.mp hold
        rw [hr]
        simp [hq]
      · have hbusy : s.busy d.projectId := busy_of_row (s := s) hd he ha hc
        rw [hq, hb] at hbusy
        exact absurd hbusy (by simp)
    · simpa [hq] using hold
  creating := h.creating
  projects c hc := by
    rw [project_kept]
    exact h.projects c hc
  silent := h.silent

theorem Inv.withEndings {s : DeployEndings.State} (h : Inv s) (l : List Ending)
    (hl : ∀ e ∈ l, e.wrote = some false → e.pc = .returned ∧ e.published = false ∧ e.followUp = none) :
    Inv { s with endings := l } := ⟨h.deploying,h.creating,h.projects,hl⟩

theorem Inv.withRecomputes {s : DeployEndings.State} (h : Inv s) (l : List Recompute) :
    Inv { s with recomputes := l } := ⟨h.deploying,h.creating,h.projects,h.silent⟩

/-! ## The steps -/

theorem Inv.create {s : DeployEndings.State} (h : Inv s) (uuid : Uuid) (project : ℕ)
    (environment : Environment) (server : String) (gitSha : Option String) (message : String)
    (automatic : Bool) :
    Inv (s.create uuid project environment server gitSha message automatic) := by
  unfold State.create
  split
  · exact h
  rename_i hn
  obtain ⟨hk,hp⟩ := not_or.mp hn
  have hget : ∀ k, (insertQueued uuid project environment gitSha message s.base.now
      s.base.db).deployments.get k = if k = uuid then
        some (.new project environment gitSha message s.base.now) else s.base.db.deployments.get k := by
    intro k
    simp [insertQueued, Table.get_insert, hk]
  have hold : ∀ c ∈ s.creating, c.uuid ≠ uuid := by
    rintro c hc rfl
    obtain ⟨d,hd,_⟩ := h.creating c hc
    simp [(Table.get_none_iff _ _).mpr hk] at hd
  have hcreating : ∀ c ∈ s.creating, ∃ d, (insertQueued uuid project environment gitSha message
      s.base.now s.base.db).deployments.get c.uuid = some d ∧ d.projectId = c.project := by
    intro c hc
    rw [hget, if_neg (hold c hc)]
    exact h.creating c hc
  dsimp only
  split
  · constructor
    · intro k d hd he ha hc
      simp only [List.map_append, List.map_cons, List.map_nil, List.mem_append, List.mem_singleton,
        not_or] at hc
      rw [hget, if_neg hc.2] at hd
      exact h.deploying k d hd he ha hc.1
    · intro c hc
      rcases List.mem_append.mp hc with hc | hc
      · exact hcreating c hc
      · obtain rfl := List.mem_singleton.mp hc
        exact ⟨_,by rw [hget, if_pos rfl],rfl⟩
    · intro c hc
      rcases List.mem_append.mp hc with hc | hc
      · exact h.projects c hc
      · obtain rfl := List.mem_singleton.mp hc
        show (s.base.db.projects.get project).isSome
        exact Option.isSome_iff_ne_none.mpr (by simpa using hp)
    · exact h.silent
  · rename_i he'
    constructor
    · intro k d hd he ha hc
      rw [hget] at hd
      split at hd
      · rw [← Option.some.inj hd] at he
        exact absurd he he'
      · exact h.deploying k d hd he ha hc
    · exact hcreating
    · exact h.projects
    · exact h.silent

theorem Inv.created {s : DeployEndings.State} (h : Inv s) (n : ℕ) : Inv (s.created n) := by
  unfold State.created
  cases hn : s.creating[n]? with
  | none => exact h
  | some c =>
    have hc : c ∈ s.creating := List.mem_of_getElem? hn
    have hw := h.write c.project .deploying s.base.now (Or.inl rfl)
    have hsub : ∀ c' ∈ s.creating.eraseIdx n, c' ∈ s.creating := fun c' hc' =>
      List.mem_of_mem_eraseIdx hc'
    refine ⟨?_,fun c' hc' => hw.creating c' (hsub c' hc'),fun c' hc' => hw.projects c' (hsub c' hc'),
      h.silent⟩
    intro k d hd he ha hnot
    by_cases hk : k ∈ s.creating.map Creating.uuid
    · obtain ⟨c',hc',rfl⟩ := List.mem_map.mp hk
      have hcc : c' = c := by
        by_contra hne
        obtain ⟨m,hm⟩ := List.mem_iff_getElem?.mp hc'
        have hmn : m ≠ n := by
          rintro rfl
          exact hne (Option.some.inj (hm.symm.trans hn))
        exact hnot (List.mem_map.mpr ⟨c',List.mem_eraseIdx_iff_getElem?.mpr ⟨m,hmn,hm⟩,rfl⟩)
      subst hcc
      obtain ⟨d',hd',hp⟩ := h.creating c' hc
      have hdd : d = d' := Option.some.inj (hd.symm.trans hd')
      obtain ⟨r,hr⟩ := Option.isSome_iff_exists.mp (h.projects c' hc)
      show ((setProjectStatus _ _ _ _).projects.get d.projectId).map Project.status = _
      rw [status_write, hdd, hp, hr]
      simp
    · exact hw.deploying k d hd he ha hk

/-- The rule for an UPDATE of active rows that leaves their project and environment. -/
theorem update_mild (db : Db) (uuid : Uuid) (p : Deployment → Bool) (f : Deployment → Deployment)
    (hp : ∀ d, p d → d.status.active)
    (hf : ∀ d, (f d).projectId = d.projectId ∧ (f d).environment = d.environment) :
    Mild db { db with deployments := db.deployments.update (fun k d => k = uuid && p d) (fun _ => f) } := by
  refine mild_of_change (update_change db _ _ [uuid] (fun _ d _ h => ?_) (fun _ d => hf d)
    (fun k _ _ h _ => ?_)) rfl (Table.update_keys _ _ _)
  · simp only [Bool.and_eq_true] at h
    exact hp d h.2
  · simp only [Bool.and_eq_true, decide_eq_true_eq] at h
    simp [h.1]

theorem Inv.cancelOneDeployment {s : DeployEndings.State} (h : Inv s) (uuid : Uuid) :
    Inv (s.cancelOneDeployment uuid) := by
  unfold State.cancelOneDeployment
  split
  · exact h
  · exact (h.mild _ (update_mild s.base.db uuid (·.status.active)
      (.cancelledByUser s.base.now) (fun _ ha => ha)
      (fun _ => ⟨rfl,rfl⟩))).withRecomputes _

theorem Inv.cancelDeployment {s : DeployEndings.State} (h : Inv s) (uuid : Uuid) :
    Inv (s.cancelDeployment uuid) := by
  unfold State.cancelDeployment
  dsimp only
  split
  · exact h
  · refine (h.mild _ (update_mild s.base.db uuid
      (fun d => d.status ∈ [.queued,.running,.deploying]) (cancelledByAgent s.base.now)
      (fun d ha => ?_) (fun _ => ⟨rfl,rfl⟩))).withRecomputes _
    simp only [List.mem_cons, List.not_mem_nil, or_false, decide_eq_true_eq] at ha
    rcases ha with ha | ha | ha <;> rw [ha] <;> rfl

theorem Inv.recompute {s : DeployEndings.State} (h : Inv s) (n : ℕ)
    (ho : Orderly s (.recompute n)) : Inv (s.recompute n) := by
  unfold State.recompute
  cases hn : s.recomputes[n]? with
  | none => exact h
  | some r =>
    dsimp only
    split
    · rename_i uuid _
      exact (h.mild (signalCancel uuid s.base) (Mild.refl _)).withRecomputes _
    · exact h.withRecomputes _
    · exact h.withRecomputes _
    · exact h.withRecomputes _
    · rename_i st hpc
      exact (h.write r.project st s.base.now (ho r hn st (by rw [hpc]; rfl))).withRecomputes _
    · exact h

theorem Inv.publish {s : DeployEndings.State} (h : Inv s) (n : ℕ)
    (ho : Orderly s (.publish n)) : Inv (s.publish n) := by
  unfold State.publish
  cases hn : s.endings[n]? with
  | none => exact h
  | some e =>
    dsimp only
    split
    · rename_i hpc
      refine (h.write e.project _ e.finished (Or.inr (ho e hn hpc))).withEndings _ (fun e' he' hw => ?_)
      rcases List.mem_or_eq_of_mem_set he' with he' | rfl
      · exact h.silent e' he' hw
      · have := (h.silent e (List.mem_of_getElem? hn) hw).1
        simp [hpc] at this
    · exact h

theorem Inv.follow {s : DeployEndings.State} (h : Inv s) (n : ℕ) : Inv (s.follow n) := by
  unfold State.follow
  cases hn : s.endings[n]? with
  | none => exact h
  | some e =>
    dsimp only
    split
    · rename_i hpc
      refine h.withEndings _ (fun e' he' hw => ?_)
      rcases List.mem_or_eq_of_mem_set he' with he' | rfl
      · exact h.silent e' he' hw
      · have := (h.silent e (List.mem_of_getElem? hn) hw).1
        simp [hpc] at this
    · exact h

theorem Inv.restart {s : DeployEndings.State} (h : Inv s) (ho : Orderly s .restart) :
    Inv s.restart where
  deploying k d hd he ha _ := by
    by_cases hmem : k ∈ s.creating.map Creating.uuid
    · obtain ⟨c,hc,rfl⟩ := List.mem_map.mp hmem
      obtain ⟨d',hd',hp⟩ := h.creating c hc
      have hdd : d = d' := Option.some.inj (hd.symm.trans hd')
      have hdep := ho c hc (by rw [hd', Option.any_some, ← hdd]; exact ha)
      rw [← hp, ← hdd] at hdep
      exact hdep
    · exact h.deploying k d hd he ha hmem
  creating := by simp [State.restart]
  projects := by simp [State.restart]
  silent e he hw := by
    obtain ⟨e',he',rfl⟩ := List.mem_map.mp he
    exact ⟨rfl,(h.silent e' he' hw).2⟩

/-! ## The end of a task -/

theorem finishUnlessLost_mild (t : Start) (outcome : SlotOutcome) (report : Bool → Outcome)
    (now : Instant) (db : Db) : Mild db (finishUnlessLost t outcome report now db).1 := by
  cases outcome with
  | cancelled => exact Mild.refl _
  | completed ok => exact finalizeIfActive_mild _ _ _ _

theorem finishUnlessLost_silent (t : Start) (outcome : SlotOutcome) (report : Bool → Outcome)
    (now : Instant) (db : Db) (hw : (finishUnlessLost t outcome report now db).2.wrote = some false) :
    (finishUnlessLost t outcome report now db).2.pc = .returned ∧
    (finishUnlessLost t outcome report now db).2.published = false ∧
    (finishUnlessLost t outcome report now db).2.followUp = none := by
  cases outcome with
  | cancelled => exact ⟨rfl,rfl,rfl⟩
  | completed ok =>
    refine ⟨?_,rfl,rfl⟩
    simp only [finishUnlessLost, ending, Option.some.injEq] at hw ⊢
    rw [if_neg (by simp [hw])]

theorem finishManualDeploy_mild (t : Start) (outcome : SlotOutcome) (report : Outcome)
    (now : Instant) (db : Db) : Mild db (finishManualDeploy t outcome report now db).1 := by
  cases outcome with
  | cancelled => exact finalizeIfActive_mild _ _ _ _
  | completed ok => exact finalizeIfActive_mild _ _ _ _

/-- The path that does not look at the answer of `finalize_if_active`. -/
theorem finishManualDeploy_silent (t : Start) (outcome : SlotOutcome) (report : Outcome)
    (now : Instant) (db : Db)
    (ha : ∀ ok, outcome = .completed ok → (db.deployments.get t.uuid).any (·.status.inProgress))
    (hw : (finishManualDeploy t outcome report now db).2.wrote = some false) :
    (finishManualDeploy t outcome report now db).2.pc = .returned ∧
    (finishManualDeploy t outcome report now db).2.published = false ∧
    (finishManualDeploy t outcome report now db).2.followUp = none := by
  cases outcome with
  | cancelled => exact ⟨rfl,rfl,rfl⟩
  | completed ok =>
    simp only [finishManualDeploy, ending, finalizeIfActive, Option.some.injEq] at hw
    rw [ha ok rfl] at hw
    exact absurd hw (by simp)

theorem Inv.finalize {s : DeployEndings.State} (h : Inv s) (i : ℕ) (t : Start)
    (outcome : SlotOutcome) (report : Outcome)
    (ha : s.isManual t → ∀ ok, outcome = .completed ok →
      (s.base.db.deployments.get t.uuid).any (·.status.inProgress)) :
    Inv (s.finalize i t outcome report) := by
  unfold State.finalize
  dsimp only
  have hall : ∀ r : Db × Ending, Mild s.base.db r.1 →
      (r.2.wrote = some false → r.2.pc = .returned ∧ r.2.published = false ∧ r.2.followUp = none) →
      Inv { s with
        base := setStart i { t with phase := .finished } { s.base with db := r.1 }
        endings := s.endings++[r.2] } := by
    intro r hm hs
    refine (h.mild _ hm).withEndings _ (fun e he hw => ?_)
    rcases List.mem_append.mp he with he | he
    · exact h.silent e he hw
    · obtain rfl := List.mem_singleton.mp he
      exact hs hw
  by_cases hr : t.resumed
  · rw [if_pos hr]
    exact hall _ (finishUnlessLost_mild _ _ _ _ _) (finishUnlessLost_silent _ _ _ _ _)
  by_cases hau : t.uuid ∈ s.automatic
  · rw [if_neg hr, if_pos hau]
    exact hall _ (finishUnlessLost_mild _ _ _ _ _) (finishUnlessLost_silent _ _ _ _ _)
  · rw [if_neg hr, if_neg hau]
    exact hall _ (finishManualDeploy_mild _ _ _ _ _) (finishManualDeploy_silent _ _ _ _ _
      (ha (by simp [State.isManual, hr, hau])))

theorem Inv.task {s : DeployEndings.State} (h : Inv s) (a : DeploymentStarts.Action)
    (ho : Orderly s (.task a)) : Inv (s.task a) := by
  have hon : ∀ (i : ℕ) (f : Start → DeploymentStarts.State → DeploymentStarts.State),
      (∀ t, Mild s.base.db (f t s.base).db) → Mild s.base.db (onStart i f s.base).db := by
    intro i f hf
    unfold onStart
    split
    · exact hf _
    · exact Mild.refl _
  cases a with
  | create uuid project environment server gitSha message => exact h
  | userCancel uuid => exact h
  | restart => exact h
  | next i report =>
    simp only [State.task]
    cases hi : s.base.starts[i]? with
    | none => exact h
    | some t =>
      dsimp only
      cases hov : State.ended t with
      | some outcome =>
        exact h.finalize i t outcome report (fun hm ok hok => ho t hi ok (hok ▸ hov) hm)
      | none =>
        apply h.mild
        simp only [DeploymentStarts.step, onStart, hi]
        exact next_mild i t report s.base hov
  | resumeNext server =>
    simp only [State.task]
    split
    · exact h.mild _ (resumeNext_mild server s.base)
    · exact h
  | tick seconds => exact h.mild _ (Mild.refl _)
  | stopped i => exact h.mild _ (hon i _ (fun t => stopped_mild i t s.base))
  | built i ok =>
    refine h.mild _ (hon i _ (fun t => ?_))
    unfold built
    split <;> exact Mild.refl _
  | aborted i =>
    refine h.mild _ (hon i _ (fun t => ?_))
    unfold aborted
    split <;> exact Mild.refl _
  | userSignal =>
    apply h.mild
    simp only [DeploymentStarts.step]
    split <;> exact Mild.refl _

theorem step_inv (s : DeployEndings.State) (a : DeployEndings.Action) (h : Inv s)
    (ho : Orderly s a) : Inv (DeployEndings.step s a) := by
  cases a with
  | create uuid project environment server gitSha message automatic =>
    exact h.create uuid project environment server gitSha message automatic
  | created n => exact h.created n
  | task a => exact h.task a ho
  | publish n => exact h.publish n ho
  | follow n => exact h.follow n
  | cancelOneDeployment uuid => exact h.cancelOneDeployment uuid
  | cancelDeployment uuid => exact h.cancelDeployment uuid
  | recompute n => exact h.recompute n ho
  | restart => exact h.restart ho

theorem start_inv (projects : Table ℕ Project) : Inv (DeployEndings.start projects) := by
  constructor <;> simp [DeployEndings.start, DeploymentStarts.start]

/-- In an orderly run the project is deploying while a production deployment is
active, and a task that finds its row ended does nothing more. -/
theorem status_follows_rows (projects : Table ℕ Project) (acts : List DeployEndings.Action)
    (hg : Guarded DeployEndings.step Orderly acts (DeployEndings.start projects)) :
    FollowsRows (run DeployEndings.step acts (DeployEndings.start projects)) := by
  have h : Inv (run DeployEndings.step acts (DeployEndings.start projects)) :=
    guarded_invariant _ _ Inv (fun s a hs ho => step_inv s a hs ho) acts _ (start_inv projects) hg
  exact ⟨h.deploying,fun e he hw => (h.silent e he hw).2⟩

/-! ## Recomputations in one piece -/

section
variable {s : DeployEndings.State} {n p : ℕ}

theorem recompute_reads {pc pc' : RecomputePc} (h : s.recomputes[n]? = some ⟨p,pc⟩)
    (hr : s.recompute n = { s with recomputes := s.recomputes.set n ⟨p,pc'⟩ }) :
    (s.recompute n).base = s.base ∧ (s.recompute n).recomputes[n]? = some ⟨p,pc'⟩ := by
  have hn : n < s.recomputes.length := (List.getElem?_eq_some_iff.mp h).1
  rw [hr]
  exact ⟨rfl,List.getElem?_set_self hn⟩

theorem recompute_active (h : s.recomputes[n]? = some ⟨p,.active⟩) :
    (s.recompute n).base = s.base ∧ (s.recompute n).recomputes[n]? = some ⟨p,
      if 0 < s.productionCount p (·.status.active) then .write .deploying else .success⟩ :=
  recompute_reads h (by simp only [State.recompute, h])

theorem recompute_success (h : s.recomputes[n]? = some ⟨p,.success⟩) :
    (s.recompute n).base = s.base ∧ (s.recompute n).recomputes[n]? = some ⟨p,
      .failures (0 < s.productionCount p (·.status.succeeded))⟩ :=
  recompute_reads h (by simp only [State.recompute, h])

theorem recompute_failures {hasSuccess : Bool}
    (h : s.recomputes[n]? = some ⟨p,.failures hasSuccess⟩) :
    (s.recompute n).base = s.base ∧ (s.recompute n).recomputes[n]? = some ⟨p,
      .write (if hasSuccess then .live
        else if 0 < s.productionCount p Deployment.openFailure then .failed else .idle)⟩ :=
  recompute_reads h (by simp only [State.recompute, h])

theorem recompute_writes {st : ProjectStatus} (h : s.recomputes[n]? = some ⟨p,.write st⟩) :
    (s.recompute n).base.db = setProjectStatus (fun k _ => k = p) st s.base.now s.base.db ∧
    (s.recompute n).recomputes[n]? = some ⟨p,.done⟩ := by
  have hn : n < s.recomputes.length := (List.getElem?_eq_some_iff.mp h).1
  simp only [State.recompute, h, true_and]
  exact List.getElem?_set_self hn

theorem recompute_done (h : s.recomputes[n]? = some ⟨p,.done⟩) : s.recompute n = s := by
  simp only [State.recompute, h]

end

/-- Without other statements in between, the pieces of a recomputation are the
function of the queue. -/
theorem recompute_uninterrupted (s : DeployEndings.State) (n p : ℕ)
    (h : s.recomputes[n]? = some ⟨p,.active⟩) :
    (run DeployEndings.step (List.replicate 4 (.recompute n)) s).base.db =
      recomputeProjectStatusAfterDeployChange p s.base.now s.base.db := by
  show ((((s.recompute n).recompute n).recompute n).recompute n).base.db = _
  obtain ⟨hb,h1⟩ := recompute_active h
  by_cases ha : 0 < s.productionCount p (·.status.active)
  · rw [if_pos ha] at h1
    obtain ⟨hw,h2⟩ := recompute_writes h1
    rw [recompute_done h2, recompute_done h2, hw, hb]
    exact congrArg (fun st => setProjectStatus _ st _ _) (if_pos ha).symm
  · rw [if_neg ha] at h1
    obtain ⟨hb2,h2⟩ := recompute_success h1
    obtain ⟨hb3,h3⟩ := recompute_failures h2
    obtain ⟨hw,_⟩ := recompute_writes h3
    have hsettled : settledStatus p s.base.db =
        (if decide (0 < (s.recompute n).productionCount p (·.status.succeeded)) then .live
          else if 0 < ((s.recompute n).recompute n).productionCount p Deployment.openFailure
            then .failed else .idle) := by
      simp only [settledStatus, State.productionCount, hb, hb2, decide_eq_true_eq]
    rw [hw, hb3, hb2, hb, ← hsettled]
    exact congrArg (fun st => setProjectStatus _ st _ _) (if_neg ha).symm

/-! ## A deployment that ends after it was replaced -/

def blog : Table ℕ Project := Table.empty.insert 7 ⟨"blog",none,.live,none⟩

def built : Outcome := ⟨.success,"abc","built",none,none,none⟩

def created (uuid : Uuid) : List DeployEndings.Action :=
  [.create uuid 7 .production "" none "commit" false,.created 0]

def nexts (n i : ℕ) : List DeployEndings.Action := List.replicate n (.task (.next i built))

/-- A deployment that succeeds, then one that the user cancels. -/
def successThenCancel : List DeployEndings.Action :=
  created 1++nexts 9 0++[DeployEndings.Action.task (.built 0 true)]++nexts 2 0++[DeployEndings.Action.publish 0,.follow 0]++
    created 2++nexts 9 1++[DeployEndings.Action.cancelOneDeployment 2,.recompute 0,.recompute 0,.recompute 0,.recompute 0,
      .recompute 0,.task (.stopped 1)]++nexts 2 1

theorem successThenCancel_follows :
    FollowsRows (run DeployEndings.step successThenCancel (DeployEndings.start blog)) :=
  status_follows_rows blog successThenCancel (by decide +kernel)

/-- The build of the first deployment is over when the second one supersedes it. -/
def endsReplaced : List DeployEndings.Action :=
  created 1++nexts 9 0++[DeployEndings.Action.task (.built 0 true)]++nexts 1 0++created 2++nexts 3 1++nexts 1 0++
    [DeployEndings.Action.publish 0,.follow 0]

theorem endsReplaced_status_lost :
    ¬ ∀ (projects : Table ℕ Project) (acts : List DeployEndings.Action),
      FollowsRows (run DeployEndings.step acts (DeployEndings.start projects)) := by
  intro h
  have hs := (h blog endsReplaced).silent
  revert hs
  decide +kernel

end DevForge.StatusFollowsRows
