import DevForge.SupersedeOrder

/-!
# One executor for each deployment

The task of a start, by a request or by the poller, and the resumption of the queue at boot work on
the same rows in one process. A start of the queue claims its row, the others do not: they take a
row that is queued or running. The builds of a process are recorded.
-/

set_option autoImplicit false

namespace DevForge.OneExecutor
open DeployQueue DeploymentStarts SupersedeOrder Transition

structure State where
  base : DeploymentStarts.State
  /-- The starts of this process that ran a build, with their deployments. -/
  builds : List (ℕ × Uuid)

def start (projects : Table ℕ Project) : State := ⟨DeploymentStarts.start projects,[]⟩

/-- The start whose next piece begins the build. -/
def begins (s : DeploymentStarts.State) : Action → List (ℕ × Uuid)
  | .next i _ => match s.starts[i]? with
    | some t => if t.phase = .rechecked && (markRunningIfActive t.uuid s.now s.db).1 then [(i,t.uuid)] else []
    | none => []
  | _ => []

def step (s : State) (a : Action) : State where
  base := DeploymentStarts.step s.base a
  builds := match a with
    | .restart => []
    | _ => s.builds++begins s.base a

/-- One task at most builds a deployment, and a cancelled deployment was superseded by another or
cancelled by a user. -/
structure Kept (s : State) : Prop where
  single : ∀ i j k, (i,k) ∈ s.builds → (j,k) ∈ s.builds → i = j
  cancelled : ∀ k d, s.base.db.deployments.get k = some d → d.status = .cancelled →
    k ∈ s.base.userCancelled ∨ ∃ e ∈ s.base.supersedings, k ∈ e.superseded

/-- The next deployment of the resumption. -/
def nextResumed (s : DeploymentStarts.State) : Option Uuid :=
  match s.resume with
  | .running todo _ => todo.head?
  | _ => none

/-- The resumption claims no queued deployment that has a task in this process. -/
def Orderly (s : State) : Action → Prop
  | .resumeNext _ => ∀ uuid ∈ nextResumed s.base, status s.base uuid = some .queued →
      ∀ t ∈ s.base.starts, t.uuid ≠ uuid
  | _ => True

instance (s : State) (a : Action) : Decidable (Orderly s a) :=
  match a with
  | .resumeNext _ => inferInstanceAs (Decidable (∀ uuid ∈ nextResumed s.base, _ → ∀ t ∈ s.base.starts, _))
  | .tick _ | .create .. | .next .. | .stopped _ | .built .. | .aborted _ | .userCancel _ | .userSignal | .restart =>
    .isTrue trivial

theorem Orderly.starts {s : State} {a : Action} (h : Orderly s a) (ha : resumes a = true) :
    DeploymentStarts.Orderly s.base a := by
  cases a with
  | resumeNext server =>
    intro uuid huuid hqueued t ht he
    exact absurd he (h uuid huuid hqueued t ht)
  | _ => cases ha

/-! ## The deployments of the tasks -/

def uuids (s : DeploymentStarts.State) : List Uuid := s.starts.map Start.uuid

theorem uuids_setStart (i : ℕ) (t t' : Start) (s : DeploymentStarts.State) (ht : s.starts[i]? = some t)
    (hu : t'.uuid = t.uuid) : uuids (setStart i t' s) = uuids s := by
  obtain ⟨hlt,he⟩ := List.getElem?_eq_some_iff.mp ht
  have hlt' : i < (s.starts.map Start.uuid).length := by simpa using hlt
  have hself : (s.starts.map Start.uuid)[i] = t'.uuid := by rw [List.getElem_map, he, hu]
  rw [uuids, setStart, List.map_set, ← hself, List.set_getElem_self, uuids]

theorem uuids_next (i : ℕ) (t : Start) (report : Outcome) (s : DeploymentStarts.State) (ht : s.starts[i]? = some t) :
    uuids (next i t report s) = uuids s := by
  unfold next
  split
  · split
    · rfl
    · exact uuids_setStart i t _ s ht rfl
  · exact uuids_setStart i t _ _ ht rfl
  · exact uuids_setStart i t _ _ ht rfl
  · exact uuids_setStart i t _ _ ht rfl
  · exact uuids_setStart i t _ _ ht rfl
  · exact uuids_setStart i t _ _ ht rfl
  · split
    · exact uuids_setStart i t _ _ ht rfl
    · split <;> exact uuids_setStart i t _ _ ht rfl
  · split
    · rfl
    · exact uuids_setStart i t _ _ ht rfl
  · split <;> exact uuids_setStart i t _ _ ht rfl
  · dsimp only
    split <;> exact uuids_setStart i t _ _ ht rfl
  · rfl
  · exact uuids_setStart i t _ _ ht rfl
  · exact uuids_setStart i t _ _ ht rfl
  · rfl

theorem uuids_onStart (i : ℕ) (f : Start → DeploymentStarts.State → DeploymentStarts.State) (s : DeploymentStarts.State)
    (hf : ∀ t, s.starts[i]? = some t → uuids (f t s) = uuids s) : uuids (onStart i f s) = uuids s := by
  unfold onStart
  cases ht : s.starts[i]? with
  | none => rfl
  | some t => exact hf t ht

/-- A step adds at most one task, of a deployment that has none. -/
theorem uuids_step {s : State} (hs : Inv False s.base) (a : Action) (ho : Orderly s a) (ha : a ≠ .restart) :
    uuids (DeploymentStarts.step s.base a) = uuids s.base ∨
      ∃ u, u ∉ uuids s.base ∧ uuids (DeploymentStarts.step s.base a) = uuids s.base++[u] := by
  cases a with
  | tick seconds => exact Or.inl rfl
  | restart => exact absurd rfl ha
  | next i report => exact Or.inl (uuids_onStart i _ _ (fun t ht => uuids_next i t report _ ht))
  | stopped i =>
    refine Or.inl (uuids_onStart i _ _ (fun t ht => ?_))
    unfold stopped
    split
    · exact uuids_setStart i t _ _ ht rfl
    · rfl
  | built i ok =>
    refine Or.inl (uuids_onStart i _ _ (fun t ht => ?_))
    unfold built
    split
    · exact uuids_setStart i t _ _ ht rfl
    · rfl
  | aborted i =>
    refine Or.inl (uuids_onStart i _ _ (fun t ht => ?_))
    unfold aborted
    split
    · exact uuids_setStart i t _ _ ht rfl
    · rfl
  | userCancel uuid =>
    left
    simp only [DeploymentStarts.step, userCancel]
    split <;> rfl
  | userSignal =>
    left
    simp only [DeploymentStarts.step]
    split <;> rfl
  | create uuid project environment server gitSha message =>
    simp only [DeploymentStarts.step, DeploymentStarts.create]
    split
    · exact Or.inl rfl
    · next hnew =>
      refine Or.inr ⟨uuid,fun hmem => ?_,by simp [uuids]⟩
      obtain ⟨t,ht,he⟩ := List.mem_map.mp hmem
      obtain ⟨d,hd,-⟩ := (hs.starts t ht).row
      exact hnew (Or.inl (he ▸ mem_keys hd))
  | resumeNext server =>
    simp only [DeploymentStarts.step, resumeNext]
    split
    · exact Or.inl rfl
    · exact Or.inl rfl
    · next todo current hresume =>
      split
      · cases todo with
        | nil => exact Or.inl rfl
        | cons uuid todo =>
          dsimp only
          unfold claimNext
          dsimp only
          split
          · next d hclaim hd =>
            split
            · exact Or.inl rfl
            · refine Or.inr ⟨uuid,fun hmem => ?_,by simp [uuids]⟩
              obtain ⟨t,ht,he⟩ := List.mem_map.mp hmem
              have hqueued : status s.base uuid = some .queued := by
                simp only [tryClaimDeployment, Option.any_eq_true, decide_eq_true_eq] at hclaim
                obtain ⟨d₀,hd₀,hq⟩ := hclaim
                simp [status, hd₀, hq]
              exact ho uuid (by simp [nextResumed, hresume]) hqueued t ht he
          · exact Or.inl rfl
      · exact Or.inl rfl

/-! ## Runs -/

structure ExecutorInv (s : State) : Prop where
  base : Inv False s.base
  distinct : (uuids s.base).Nodup
  builds : ∀ i k, (i,k) ∈ s.builds → (uuids s.base)[i]? = some k

theorem ExecutorInv.kept {s : State} (h : ExecutorInv s) : Kept s where
  single i j k hi hj := by
    have hlt := (List.getElem?_eq_some_iff.mp (h.builds i k hi)).1
    exact (List.getElem?_inj hlt h.distinct).mp ((h.builds i k hi).trans (h.builds j k hj).symm)
  cancelled := h.base.cause

theorem begins_uuid {s : DeploymentStarts.State} {a : Action} {i : ℕ} {k : Uuid} (h : (i,k) ∈ begins s a) :
    (uuids s)[i]? = some k := by
  unfold begins at h
  split at h
  · split at h
    · next t ht =>
      split at h
      · cases List.mem_singleton.mp h
        rw [uuids, List.getElem?_map, ht]
        rfl
      · cases h
    · cases h
  · cases h

theorem ExecutorInv.step {s : State} (h : ExecutorInv s) (a : Action) (ho : Orderly s a) : ExecutorInv (step s a) := by
  have hbase : Inv False (DeploymentStarts.step s.base a) :=
    step_inv s.base a h.base (fun hr => ho.starts (hr.resolve_right id))
  by_cases ha : a = .restart
  · subst ha
    exact ⟨hbase,List.nodup_nil,fun _ _ hk => absurd hk List.not_mem_nil⟩
  · have hbuilds : (OneExecutor.step s a).builds = s.builds++begins s.base a := by
      cases a <;> first | rfl | exact absurd rfl ha
    have hold : ∀ i k, (i,k) ∈ (OneExecutor.step s a).builds → (uuids s.base)[i]? = some k := by
      intro i k hk
      rw [hbuilds] at hk
      rcases List.mem_append.mp hk with hk | hk
      · exact h.builds i k hk
      · exact begins_uuid hk
    rcases uuids_step h.base a ho ha with hsame | ⟨u,hu,hmore⟩
    · refine ⟨hbase,?_,fun i k hk => ?_⟩
      · show (uuids (DeploymentStarts.step s.base a)).Nodup
        rw [hsame]
        exact h.distinct
      · show (uuids (DeploymentStarts.step s.base a))[i]? = some k
        rw [hsame]
        exact hold i k hk
    · refine ⟨hbase,?_,fun i k hk => ?_⟩
      · show (uuids (DeploymentStarts.step s.base a)).Nodup
        rw [hmore, List.nodup_append_comm]
        exact List.nodup_cons.mpr ⟨hu,h.distinct⟩
      · show (uuids (DeploymentStarts.step s.base a))[i]? = some k
        have hlt := (List.getElem?_eq_some_iff.mp (hold i k hk)).1
        rw [hmore, List.getElem?_append_left hlt]
        exact hold i k hk

/-- In every run in which the resumption claims no queued deployment that has a task already, one
task at most builds each deployment, and the cancelled ones were superseded or cancelled by users. -/
theorem one_executor (projects : Table ℕ Project) (acts : List Action)
    (h : Guarded step Orderly acts (start projects)) : Kept (run step acts (start projects)) := by
  have hstart : ExecutorInv (start projects) :=
    ⟨start_inv projects,List.nodup_nil,fun _ _ hk => absurd hk List.not_mem_nil⟩
  exact (guarded_invariant step Orderly ExecutorInv (fun _ a hs ho => hs.step a ho) acts _ hstart h).kept

/-- A build is interrupted by a restart, and the resumption builds the deployment again. -/
def resumedBuild : List Action :=
  [SupersedeOrder.create 1]++nexts 9 0++[Action.restart,.resumeNext "",.resumeNext "",.resumeNext ""]++nexts 9 0++[Action.built 0 true]++nexts 2 0

theorem resumedBuild_kept : Kept (run step resumedBuild (start oneProject)) :=
  one_executor oneProject resumedBuild (by decide +kernel)

/-- The resumption claims the row of a deployment that a request has just created. -/
def claimedTwice : List Action :=
  [SupersedeOrder.create 1,.resumeNext "",.resumeNext "",.resumeNext ""]++nexts 9 0++nexts 6 1++[Action.stopped 0]++nexts 3 1++nexts 2 0

theorem two_executors : ¬∀ (projects : Table ℕ Project) (acts : List Action), Kept (run step acts (start projects)) := by
  intro h
  have hkept := h oneProject claimedTwice
  have hbuilds : (run step claimedTwice (start oneProject)).builds = [(0,1),(1,1)] := by decide +kernel
  have hsame := hkept.single 0 1 1 (by rw [hbuilds]; decide) (by rw [hbuilds]; decide)
  exact absurd hsame (by decide)

end DevForge.OneExecutor
