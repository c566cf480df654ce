import DevForge.DeployQueue

/-!
# The settled status of a project

Four statements write the status of a project on which nothing runs any more: after a
cancellation, when a lock is released, when orphan locks are swept, and when an orphan deployment
is failed. The last one has a rule of its own.
-/

set_option autoImplicit false

namespace DevForge.SettledStatus
open DeployQueue

/-- Some deployment of the project, of whatever environment. -/
def hasDeployment (project : ℕ) (p : Deployment → Bool) (db : Db) : Bool :=
  0 < countDeployments (fun d => d.projectId = project && p d) db

def hasProduction (project : ℕ) (p : Deployment → Bool) (db : Db) : Bool :=
  0 < countDeployments (fun d => d.projectId = project && d.environment = .production && p d) db

/-- The UPDATE of `deployments` in `reap_orphans`. -/
def reapRow (uuid : Uuid) (now : Instant) (db : Db) : Db :=
  { db with
    deployments := db.deployments.update (fun k d => k = uuid && d.status.inProgress)
      (fun _ => .reaped now) }

/-- The UPDATE of `projects` in `reap_orphans`. -/
def reapSettle (project : ℕ) (now : Instant) (db : Db) : Db :=
  setProjectStatus (fun k p => k = project && p.status = .deploying && !hasProduction project (·.status.inProgress) db)
    (if hasProduction project (·.status = .success) db then .live else .failed) now db

def projectStatus (project : ℕ) (db : Db) : Option ProjectStatus := (db.projects.get project).map Project.status

theorem countDeployments_mono {p q : Deployment → Bool} (h : ∀ d, p d = true → q d = true) (db : Db) :
    countDeployments p db ≤ countDeployments q db := List.countP_mono_left (fun e _ => h e.2)

theorem hasProduction_mono {p q : Deployment → Bool} (h : ∀ d, p d = true → q d = true) {project : ℕ} {db : Db}
    (hp : hasProduction project p db = true) : hasProduction project q db = true := by
  unfold hasProduction at hp ⊢
  have hle := countDeployments_mono (p := fun d => d.projectId = project && d.environment = .production && p d)
    (q := fun d => d.projectId = project && d.environment = .production && q d) (fun d hd => by
      rw [Bool.and_eq_true] at hd ⊢
      exact ⟨hd.1,h d hd.2⟩) db
  simp only [decide_eq_true_eq] at hp ⊢
  omega

theorem hasProduction_hasDeployment {p : Deployment → Bool} {project : ℕ} {db : Db}
    (h : hasProduction project p db = true) : hasDeployment project p db = true := by
  unfold hasProduction at h
  unfold hasDeployment
  have hle := countDeployments_mono (p := fun d => d.projectId = project && d.environment = .production && p d)
    (q := fun d => d.projectId = project && p d) (fun d hd => by
      rw [Bool.and_eq_true, Bool.and_eq_true] at hd
      rw [Bool.and_eq_true]
      exact ⟨hd.1.1,hd.2⟩) db
  simp only [decide_eq_true_eq] at h ⊢
  omega

/-! ## What each statement gives -/

theorem settledStatus_eq (project : ℕ) (db : Db) : settledStatus project db =
    if hasProduction project (·.status.succeeded) db then .live
    else if hasProduction project Deployment.openFailure db then .failed
    else .idle := by
  simp only [settledStatus, hasProduction, decide_eq_true_eq]

section
variable {db : Db} {project : ℕ} {r : Project}

theorem recompute_status (hr : db.projects.get project = some r) (now : Instant) :
    projectStatus project (recomputeProjectStatusAfterDeployChange project now db) =
      some (if hasProduction project (·.status.active) db then .deploying else settledStatus project db) := by
  simp [projectStatus, recomputeProjectStatusAfterDeployChange, setProjectStatus, Table.get_update, hr, hasProduction]

theorem settle_status (hr : db.projects.get project = some r) (hdeploying : r.status = .deploying)
    {p : ℕ → Project → Bool} (hp : p project r = true) (now : Instant) :
    projectStatus project (settleProjects p now db) =
      some (if hasDeployment project (·.status.active) db then .deploying else settledStatus project db) := by
  have hidle : noActiveDeployment project db = !hasDeployment project (·.status.active) db := by
    unfold noActiveDeployment hasDeployment
    cases countDeployments (fun d => d.projectId = project && d.status.active) db <;> simp
  simp only [projectStatus, settleProjects, Table.get_update, hr, Option.map_some, hp, hdeploying, hidle]
  cases hasDeployment project (·.status.active) db <;> simp [hdeploying]

theorem reapSettle_status (hr : db.projects.get project = some r) (hdeploying : r.status = .deploying) (now : Instant) :
    projectStatus project (reapSettle project now db) =
      some (if hasProduction project (·.status.inProgress) db then .deploying
        else if hasProduction project (·.status = .success) db then .live else .failed) := by
  simp only [projectStatus, reapSettle, setProjectStatus, Table.get_update, hr, Option.map_some, hdeploying]
  cases hasProduction project (·.status.inProgress) db <;> simp [hdeploying]

end

/-- A deployment of production is still in progress; or none of any environment is active, and
production has a `success`, or has succeeded under no name and has an open failure. -/
def SameRule (project : ℕ) (db : Db) : Prop :=
  hasProduction project (·.status.inProgress) db = true ∨
    hasDeployment project (·.status.active) db = false ∧
      (hasProduction project (·.status = .success) db = true ∨
        hasProduction project (·.status.succeeded) db = false ∧ hasProduction project Deployment.openFailure db = true)

/-- The four statements on one table, for a project that is still marked and whose lock is old. -/
theorem settled_agree_iff (db : Db) (project : ℕ) (r : Project) (cutoff now : Instant)
    (hr : db.projects.get project = some r) (hdeploying : r.status = .deploying)
    (hold : r.updatedAt.all (· < cutoff) = true) :
    (projectStatus project (releaseDeployingIfNoActive project now db) =
        projectStatus project (recomputeProjectStatusAfterDeployChange project now db) ∧
      projectStatus project (releaseOrphanProjectLocks cutoff now db) =
        projectStatus project (recomputeProjectStatusAfterDeployChange project now db) ∧
      projectStatus project (reapSettle project now db) =
        projectStatus project (recomputeProjectStatusAfterDeployChange project now db)) ↔ SameRule project db := by
  have hactive : hasProduction project (·.status.inProgress) db = true → hasProduction project (·.status.active) db = true :=
    hasProduction_mono (fun d hd => inProgress_active hd)
  have hany : hasProduction project (·.status.active) db = true → hasDeployment project (·.status.active) db = true :=
    hasProduction_hasDeployment
  have hsuccess : hasProduction project (·.status = .success) db = true →
      hasProduction project (·.status.succeeded) db = true :=
    hasProduction_mono (fun d hd => by rw [of_decide_eq_true hd]; rfl)
  rw [releaseDeployingIfNoActive, releaseOrphanProjectLocks, settle_status hr hdeploying (decide_eq_true rfl),
    settle_status hr hdeploying hold, reapSettle_status hr hdeploying, recompute_status hr, settledStatus_eq, SameRule]
  -- six answers of the table, of which three follow from others
  generalize hasProduction project (·.status.inProgress) db = inProgress at hactive ⊢
  generalize hasProduction project (·.status.active) db = active at hactive hany ⊢
  generalize hasDeployment project (·.status.active) db = anyActive at hany ⊢
  generalize hasProduction project (·.status = .success) db = success at hsuccess ⊢
  generalize hasProduction project (·.status.succeeded) db = succeeded at hsuccess ⊢
  generalize hasProduction project Deployment.openFailure db = failure
  clear hr hold hdeploying
  revert inProgress active anyActive success succeeded failure
  decide

/-- A preview is queued and nothing else, in a project that a start has marked. -/
def orphanPreview : Db where
  deployments := Table.empty.insert 1 (.new 7 (.preview 3) none "preview" 10)
  projects := Table.empty.insert 7 ⟨"blog",none,.deploying,some 10⟩

/-- The same with a release that succeeded before. -/
def releasedProject : Db where
  deployments := orphanPreview.deployments.insert 2 { (Deployment.new 7 .production none "release" 5) with status := .success }
  projects := orphanPreview.projects

theorem released_project_agrees :
    (projectStatus 7 (releaseDeployingIfNoActive 7 100 (reapRow 1 90 releasedProject)) =
        projectStatus 7 (recomputeProjectStatusAfterDeployChange 7 100 (reapRow 1 90 releasedProject)) ∧
      projectStatus 7 (releaseOrphanProjectLocks 50 100 (reapRow 1 90 releasedProject)) =
        projectStatus 7 (recomputeProjectStatusAfterDeployChange 7 100 (reapRow 1 90 releasedProject)) ∧
      projectStatus 7 (reapSettle 7 100 (reapRow 1 90 releasedProject)) =
        projectStatus 7 (recomputeProjectStatusAfterDeployChange 7 100 (reapRow 1 90 releasedProject))) ↔
      SameRule 7 (reapRow 1 90 releasedProject) :=
  settled_agree_iff _ 7 ⟨"blog",none,.deploying,some 10⟩ 50 100 (by decide +kernel) rfl (by decide +kernel)

/-- The orphan preview is failed, and its project with it; the other statements make it idle. -/
theorem orphan_preview_fails_project : ¬∀ (db : Db) (project : ℕ) (r : Project) (cutoff now : Instant),
    db.projects.get project = some r → r.status = .deploying → r.updatedAt.all (· < cutoff) = true →
      hasDeployment project (fun d => d.status = .queued || d.status = .running) db = false →
      projectStatus project (releaseDeployingIfNoActive project now db) =
          projectStatus project (recomputeProjectStatusAfterDeployChange project now db) ∧
        projectStatus project (releaseOrphanProjectLocks cutoff now db) =
          projectStatus project (recomputeProjectStatusAfterDeployChange project now db) ∧
        projectStatus project (reapSettle project now db) =
          projectStatus project (recomputeProjectStatusAfterDeployChange project now db) := by
  intro h
  have hsame := h (reapRow 1 90 orphanPreview) 7 ⟨"blog",none,.deploying,some 10⟩ 50 100 (by decide +kernel) rfl
    (by decide +kernel) (by decide +kernel)
  revert hsame
  decide +kernel

end DevForge.SettledStatus
