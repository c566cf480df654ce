import DevForge.BlueGreen

/-!
# The site stays served

Every command touches a few names. A deployment that gives up has touched neither the
container of the project nor a sidecar that runs; one that comes to the swap leaves the new
container under the project's name, if the old one was seen and removed and the rename took
effect.
-/

set_option autoImplicit false

namespace DevForge.SwapsKeepServing
open BlueGreen Transition

/-! ## What a command touches -/

structure Touches (P : String → Prop) (n n' : Node) : Prop where
  frame : ∀ k, ¬ P k → n'.containers.get k = n.containers.get k
  removed : ∀ r ∈ n'.removed, r ∈ n.removed ∨
    (P r.name ∧ ∀ k, ¬ P k → r.containers.get k = n.containers.get k)

theorem Touches.refl (P : String → Prop) (n : Node) : Touches P n n :=
  ⟨fun _ _ => rfl,fun _ hr => Or.inl hr⟩

theorem Touches.trans {P : String → Prop} {n n' n'' : Node} (h : Touches P n n')
    (h' : Touches P n' n'') : Touches P n n'' := by
  constructor
  · intro k hk
    exact (h'.frame k hk).trans (h.frame k hk)
  · intro r hr
    rcases h'.removed r hr with hold | ⟨hp,hframe⟩
    · exact h.removed r hold
    · exact Or.inr ⟨hp,fun k hk => (hframe k hk).trans (h.frame k hk)⟩

theorem Touches.mono {P Q : String → Prop} {n n' : Node} (h : Touches P n n') (hpq : ∀ k, P k → Q k) :
    Touches Q n n' := by
  constructor
  · exact fun k hk => h.frame k (fun hp => hk (hpq k hp))
  · intro r hr
    exact (h.removed r hr).imp_right
      (fun hnew => ⟨hpq _ hnew.1,fun k hk => hnew.2 k (fun hp => hk (hpq k hp))⟩)

theorem get_delete_self (t : Table String Container) (k : String) :
    (t.delete (fun x _ => x = k)).get k = none := by
  rw [Table.get_delete]
  cases t.get k <;> simp

theorem get_delete_of_ne (t : Table String Container) {k x : String} (h : x ≠ k) :
    (t.delete (fun x _ => x = k)).get x = t.get x := by
  rw [Table.get_delete]
  cases t.get x <;> simp [h]

theorem rm_touches (k : String) (n : Node) : Touches (· = k) n (rm k n).2 := by
  unfold rm
  split
  · exact Touches.refl _ _
  · rename_i c hc
    constructor
    · exact fun x hx => get_delete_of_ne _ hx
    · intro r hr
      rcases List.mem_append.mp hr with h | h
      · exact Or.inl h
      · rw [List.mem_singleton.mp h]
        exact Or.inr ⟨rfl,fun _ _ => rfl⟩

theorem get_setStatus (k x : String) (status : Status) (n : Node) :
    (setStatus k status n).containers.get x =
      (n.containers.get x).map (fun c => if x = k then { c with status := status } else c) := by
  simp only [setStatus, Table.get_update, decide_eq_true_eq]

theorem setStatus_touches (k : String) (status : Status) (n : Node) :
    Touches (· = k) n (setStatus k status n) := by
  constructor
  · intro x hx
    rw [get_setStatus]
    cases n.containers.get x <;> simp [hx]
  · exact fun _ hr => Or.inl hr

theorem stop_touches (k : String) (n : Node) : Touches (· = k) n (stop k n).2 :=
  setStatus_touches k .exited n

theorem run_touches (k image : String) (ports : List PublishedPort) (proxyLabel : Bool) (n : Node) :
    Touches (· = k) n (runContainer k image ports proxyLabel n).2 := by
  unfold runContainer
  split
  · exact Touches.refl _ _
  · constructor
    · intro x hx
      show (n.containers.insert k _).get x = _
      rw [Table.get_insert, if_neg (fun h => hx h.1)]
    · exact fun _ hr => Or.inl hr

theorem attempt_touches {P : String → Prop} {effect : Node → Bool × Node} {n : Node}
    (h : Touches P n (effect n).2) (o : Outcome) : Touches P n (attempt o effect n).2 := by
  cases o
  · exact h
  · exact Touches.refl _ _
  · exact Touches.refl _ _
  · exact h

theorem attempt_ok {o : Outcome} {effect : Node → Bool × Node} {n n' : Node}
    (h : attempt o effect n = (.ok,n')) : (effect n).1 = true ∧ n' = (effect n).2 := by
  cases o with
  | ok =>
    simp only [attempt, Prod.mk.injEq] at h
    refine ⟨?_,h.2.symm⟩
    by_contra hfalse
    rw [if_neg hfalse] at h
    simp at h
  | failed => simp [attempt] at h
  | errorBefore => simp [attempt] at h
  | errorAfter => simp [attempt] at h

theorem attempt_snd (o : Outcome) (effect : Node → Bool × Node) (n : Node) :
    (attempt o effect n).2 = n ∨ (attempt o effect n).2 = (effect n).2 := by
  cases o
  · exact Or.inr rfl
  · exact Or.inl rfl
  · exact Or.inl rfl
  · exact Or.inr rfl

/-! ## Names -/

theorem newName_ne (name : String) : newName name ≠ name := by
  intro h
  have hl := congrArg String.toList h
  rw [newName, String.toList_append] at hl
  have := congrArg List.length hl
  rw [List.length_append] at this
  have hlen : "-new".toList.length = 4 := by decide
  omega

theorem sidecarName_ne (name : String) (s : Sidecar) : sidecarName name s ≠ name := by
  intro h
  have hl := congrArg String.toList h
  rw [sidecarName, String.toList_append, String.toList_append] at hl
  have := congrArg List.length hl
  rw [List.length_append, List.length_append] at this
  have hlen : "-".toList.length = 1 := by decide
  omega

theorem ofProject_dash (name x : String) : ofProject name (name++"-"++x) = true := by
  unfold ofProject
  rw [Bool.or_eq_true]
  right
  have h : (name++"-"++x).toList = (name++"-").toList++x.toList := String.toList_append
  rw [h]
  exact List.isPrefixOf_iff_prefix.mpr (List.prefix_append _ _)

theorem ofProject_newName (name : String) : ofProject name (newName name) = true := by
  have h : newName name = name++"-"++"new" := by
    rw [newName, String.append_assoc]
    rfl
  rw [h]
  exact ofProject_dash name "new"

/-! ## The names that a deployment touches before the swap -/

theorem rmAll_touches (ks : List String) (os : List Outcome) (n : Node) :
    Touches (· ∈ ks) n (rmAll ks os n) := by
  induction ks generalizing os n with
  | nil => exact Touches.refl _ _
  | cons k ks ih =>
    cases os with
    | nil => exact Touches.refl _ _
    | cons o os =>
      have hrm := (attempt_touches (rm_touches k n) o).mono
        (fun x (hx : x = k) => (hx ▸ List.mem_cons_self : x ∈ k::ks))
      simp only [rmAll]
      split
      · rename_i n' heq
        rw [heq] at hrm
        exact hrm
      · rename_i n' _ heq
        rw [heq] at hrm
        exact hrm.trans ((ih os n').mono (fun x hx => List.mem_cons_of_mem k hx))

/-- A loop of removals removes containers as they were before it. -/
theorem rmAll_removed (ks : List String) (os : List Outcome) (n : Node) :
    ∀ r ∈ (rmAll ks os n).removed, r ∈ n.removed ∨ n.containers.get r.name = some r.container := by
  induction ks generalizing os n with
  | nil => exact fun r hr => Or.inl hr
  | cons k ks ih =>
    cases os with
    | nil => exact fun r hr => Or.inl hr
    | cons o os =>
      have hrm : ∀ r ∈ (attempt o (rm k) n).2.removed,
          r ∈ n.removed ∨ n.containers.get r.name = some r.container := by
        have hone : ∀ r ∈ (rm k n).2.removed,
            r ∈ n.removed ∨ n.containers.get r.name = some r.container := by
          unfold rm
          split
          · exact fun r hr => Or.inl hr
          · rename_i c hc
            intro r hr
            rcases List.mem_append.mp hr with h | h
            · exact Or.inl h
            · rw [List.mem_singleton.mp h]
              exact Or.inr hc
        cases o
        · exact hone
        · exact fun r hr => Or.inl hr
        · exact fun r hr => Or.inl hr
        · exact hone
      have hget : ∀ x c, (attempt o (rm k) n).2.containers.get x = some c →
          n.containers.get x = some c := by
        have hone : ∀ x c, (rm k n).2.containers.get x = some c → n.containers.get x = some c := by
          intro x c hx
          unfold rm at hx
          split at hx
          · exact hx
          · by_cases hxk : x = k
            · subst hxk
              rw [get_delete_self] at hx
              simp at hx
            · rwa [get_delete_of_ne _ hxk] at hx
        cases o
        · exact hone
        · exact fun x c hx => hx
        · exact fun x c hx => hx
        · exact hone
      simp only [rmAll]
      split
      · rename_i n' heq
        rw [heq] at hrm
        exact hrm
      · rename_i n' _ heq
        rw [heq] at hrm hget
        intro r hr
        rcases ih os n' r hr with h | h
        · exact hrm r h
        · exact Or.inr (hget _ _ h)

theorem mem_evicted {name : String} {port : ℕ} {n : Node} {k : String} :
    k ∈ evicted name port n ↔ ∃ c, n.containers.get k = some c ∧ c.publishes port = true ∧
      guarded k c = false ∧ k ≠ name := by
  simp only [evicted, List.mem_map, List.mem_filter, Prod.exists, exists_and_right, exists_eq_right,
    Table.mem_iff_get, Bool.and_eq_true, Bool.not_eq_true', decide_eq_true_eq]
  simp only [and_assoc]

theorem startSidecar_touches (name : String) (s : Sidecar) (o : Outcome × Outcome) (n : Node) :
    Touches (· = sidecarName name s) n (startSidecar name s o n).2 := by
  have hrm := attempt_touches (rm_touches (sidecarName name s) n) o.1
  unfold startSidecar
  split
  · rename_i n' heq
    rw [heq] at hrm
    exact hrm
  · rename_i n' _ heq
    rw [heq] at hrm
    exact hrm.trans (attempt_touches (run_touches _ _ _ _ _) o.2)

theorem startSidecars_touches (name : String) (ss : List Sidecar) (os : List (Outcome × Outcome)) (n : Node) :
    Touches (fun k => ∃ s ∈ ss, k = sidecarName name s) n (startSidecars name ss os n).2 := by
  induction ss generalizing os n with
  | nil => exact Touches.refl _ _
  | cons s ss ih =>
    cases os with
    | nil => exact Touches.refl _ _
    | cons o os =>
      have hone := (startSidecar_touches name s o n).mono
        (fun k (hk : k = sidecarName name s) => (⟨s,List.mem_cons_self,hk⟩ :
          ∃ s' ∈ s::ss, k = sidecarName name s'))
      simp only [startSidecars]
      split
      · rename_i n' heq
        rw [heq] at hone
        exact hone.trans ((ih os n').mono
          (fun k ⟨s',hs',hk⟩ => ⟨s',List.mem_cons_of_mem s hs',hk⟩))
      · rename_i n' _ heq
        rw [heq] at hone
        exact hone

theorem prepare_touches (name : String) (d : Deployment) (a : Answers) (n : Node) :
    Touches (fun k => isProxyReservedHostPort d.hostPort = false ∧ k ∈ evicted name d.hostPort n) n
      (prepare name d a n) := by
  unfold prepare
  split
  · exact Touches.refl _ _
  · rename_i h
    rw [Bool.or_eq_true, not_or, Bool.not_eq_true] at h
    exact (rmAll_touches _ _ _).mono (fun k hk => ⟨h.1,hk⟩)

theorem prepare_removed (name : String) (d : Deployment) (a : Answers) (n : Node) (hn : n.removed = []) :
    ∀ r ∈ (prepare name d a n).removed,
      guarded r.name r.container = false ∧ r.container.publishes d.hostPort = true := by
  unfold prepare
  split
  · simp [hn]
  · intro r hr
    have hold := rmAll_removed _ _ _ r hr
    have htouch := (rmAll_touches _ _ _).removed r hr
    rw [hn] at hold htouch
    have hget := hold.resolve_left (by simp)
    obtain ⟨c,hc,hp,hg,-⟩ := mem_evicted.mp (htouch.resolve_left (by simp)).1
    rw [Option.some.inj (hget.symm.trans hc)]
    exact ⟨hg,hp⟩

/-- The node at the start of a call. -/
def begun (n : Node) : Node := { n with answered := [], removed := [] }

/-- The names of the project that a call touches before the swap. -/
def Own (name : String) (d : Deployment) (k : String) : Prop :=
  k = newName name ∨ ∃ s ∈ d.sidecars, k = sidecarName name s

theorem startNew_touches (name : String) (d : Deployment) (a : Answers) (n : Node) :
    Touches (Own name d) (prepare name d a (begun n)) (startNew name d a n).2 := by
  have hclean := (attempt_touches (rm_touches (newName name) (prepare name d a (begun n))) a.cleanup).mono
    (fun k (hk : k = newName name) => (Or.inl hk : Own name d k))
  have hside := (startSidecars_touches name d.sidecars a.sidecars
    (attempt a.cleanup (rm (newName name)) (prepare name d a (begun n))).2).mono
    (fun k hk => (Or.inr hk : Own name d k))
  have h := hclean.trans hside
  have hbegun : { n with answered := [], removed := [] } = begun n := rfl
  simp only [startNew, hbegun]
  split
  · rename_i n' heq
    rw [heq] at h
    exact h
  · rename_i n' heq
    rw [heq] at h
    have hrun := (attempt_touches (run_touches (newName name) d.image (ports d a) false n') a.start).mono
      (fun k (hk : k = newName name) => (Or.inl hk : Own name d k))
    split
    · rename_i n'' heq'
      rw [heq'] at hrun
      exact h.trans hrun
    · rename_i n'' _ heq'
      rw [heq'] at hrun
      exact h.trans hrun

theorem run_started {k : String} {n : Node} (hk : k ∉ n.containers.keys) (image : String)
    (ports : List PublishedPort) (proxyLabel : Bool) :
    ∃ c, (runContainer k image ports proxyLabel n).2.containers.get k = some c ∧ c.image = image := by
  unfold runContainer
  rw [if_neg hk]
  refine ⟨⟨n.nextId,image,if portTaken ports n then .created else .running,ports,proxyLabel⟩,?_,rfl⟩
  show (n.containers.insert k _).get k = _
  rw [Table.get_insert, if_pos ⟨rfl,hk⟩]

theorem run_fresh {k image : String} {ports : List PublishedPort} {proxyLabel : Bool} {n : Node}
    (h : (runContainer k image ports proxyLabel n).1 = true) : k ∉ n.containers.keys := by
  intro hk
  rw [runContainer, if_pos hk] at h
  simp at h

theorem startNew_started {name : String} {d : Deployment} {a : Answers} {n n' : Node}
    (h : startNew name d a n = (true,n')) :
    ∃ c, n'.containers.get (newName name) = some c ∧ c.image = d.image := by
  simp only [startNew] at h
  split at h
  · simp at h
  · split at h
    · rename_i n1 _ n2 heq
      obtain ⟨hrun,hn2⟩ := attempt_ok heq
      have hn' : n2 = n' := (Prod.mk.inj h).2
      rw [← hn', hn2]
      exact run_started (run_fresh hrun) _ _ _
    · simp at h

/-! ## Readiness -/

theorem classify_running {line : Option ProbeLine}
    (h : classifyReadyProbe line = .ready ∨ classifyReadyProbe line = .notFound) :
    ∃ l, line = some l ∧ l.status = some .running := by
  unfold classifyReadyProbe at h
  split at h
  · simp at h
  · rename_i l
    refine ⟨l,rfl,?_⟩
    split at h
    all_goals first | assumption | simp at h

theorem probeLine_running {k : String} {p : Probe} {n : Node}
    (h : classifyReadyProbe (probeLine k p n) = .ready ∨ classifyReadyProbe (probeLine k p n) = .notFound) :
    n.runs k = true := by
  obtain ⟨l,hl,hstatus⟩ := classify_running h
  unfold probeLine at hl
  split at hl
  · rw [← Option.some.inj hl] at hstatus
    obtain ⟨c,hc,hrun⟩ := Option.map_eq_some_iff.mp hstatus
    simp [Node.runs, hc, hrun]
  · simp at hl

theorem containerIsHealthy_runs {k : String} {answers : Bool} {n : Node}
    (h : containerIsHealthy k answers n = true) : n.runs k = true := by
  unfold containerIsHealthy at h
  rw [Bool.and_eq_true] at h
  exact h.2

/-- Waiting changes nothing but the status of the container; what is found ready runs. -/
structure Waited (k : String) (n : Node) (r : Bool × Node) : Prop where
  frame : ∀ x, x ≠ k → r.2.containers.get x = n.containers.get x
  removed : r.2.removed = n.removed
  image : ∀ c, r.2.containers.get k = some c → ∃ c', n.containers.get k = some c' ∧ c'.image = c.image
  runs : r.1 = true → r.2.runs k = true

theorem Waited.status {k : String} {n : Node} {r : Bool × Node} (status : Status)
    (h : Waited k (setStatus k status n) r) : Waited k n r := by
  constructor
  · intro x hx
    exact (h.frame x hx).trans ((setStatus_touches k status n).frame x hx)
  · exact h.removed
  · intro c hc
    obtain ⟨c',hc',himage⟩ := h.image c hc
    rw [get_setStatus] at hc'
    obtain ⟨c'',hc'',rfl⟩ := Option.map_eq_some_iff.mp hc'
    rw [if_pos rfl] at himage
    exact ⟨c'',hc'',himage⟩
  · exact h.runs

theorem Waited.stay {k : String} {n : Node} {b : Bool} (h : b = true → n.runs k = true) :
    Waited k n (b,n) :=
  ⟨fun _ _ => rfl,rfl,fun c hc => ⟨c,hc,rfl⟩,h⟩

theorem waitLoop_waited (k : String) (timeout : ℕ) (healthAnswers : Bool) (first404 : Option ℕ)
    (noprobe : ℕ) (ps : List Probe) (n : Node) :
    Waited k n (waitLoop k timeout healthAnswers first404 noprobe ps n) := by
  induction ps generalizing first404 noprobe n with
  | nil => exact Waited.stay (by simp)
  | cons p ps ih =>
    have hgo : ∀ f m, Waited k (setStatus k p.status n) (if timeout ≤ p.elapsed then
        (false,setStatus k p.status n)
        else waitLoop k timeout healthAnswers f m ps (setStatus k p.status n)) := by
      intro f m
      split
      · exact Waited.stay (by simp)
      · exact ih _ _ _
    apply Waited.status p.status
    simp only [waitLoop]
    split
    · rename_i hready
      exact Waited.stay (fun _ => probeLine_running (Or.inl hready))
    · exact Waited.stay (by simp)
    · split
      · exact Waited.stay (fun h => containerIsHealthy_runs h)
      · exact hgo _ _
    · rename_i hfound
      split
      · exact Waited.stay (fun _ => probeLine_running (Or.inr hfound))
      · exact hgo _ _
    · exact hgo _ _

theorem runs_get {n : Node} {k : String} (h : n.runs k = true) :
    ∃ c, n.containers.get k = some c ∧ c.status = .running := by
  unfold Node.runs at h
  cases hc : n.containers.get k with
  | none =>
    rw [hc] at h
    simp at h
  | some c =>
    rw [hc] at h
    exact ⟨c,rfl,by simpa using h⟩

/-- The container answered to the last wait, and runs. -/
def Answered (k : String) (n : Node) : Prop :=
  ∃ c, n.containers.get k = some c ∧ c.status = .running ∧ c.id ∈ n.answered

theorem Waited.answer {k : String} {n : Node} {r : Bool × Node} (h : Waited k n r) :
    Waited k n (if r.1 then (true,BlueGreen.answer k r.2) else r) ∧
      ((if r.1 then (true,BlueGreen.answer k r.2) else r).1 = true →
        Answered k (if r.1 then (true,BlueGreen.answer k r.2) else r).2) := by
  split
  · rename_i hready
    have hruns := h.runs hready
    refine ⟨⟨h.frame,h.removed,h.image,fun _ => hruns⟩,fun _ => ?_⟩
    obtain ⟨c,hc,hrun⟩ := runs_get hruns
    refine ⟨c,hc,hrun,?_⟩
    simp [BlueGreen.answer, hc]
  · rename_i hready
    exact ⟨h,fun h' => absurd h' hready⟩

/-- What is found ready has answered. -/
theorem waitContainerReady_waited (k : String) (network : Option String) (configured : Option ℕ)
    (w : Wait) (n : Node) : Waited k n (waitContainerReady k network configured w n) ∧
      ((waitContainerReady k network configured w n).1 = true →
        Answered k (waitContainerReady k network configured w n).2) := by
  apply Waited.answer
  split
  · exact waitLoop_waited _ _ _ _ _ _ _
  · exact Waited.stay (fun h => containerIsHealthy_runs h)

theorem Waited.touches {k : String} {n : Node} {r : Bool × Node} (h : Waited k n r) :
    Touches (· = k) n r.2 :=
  ⟨h.frame,fun _ hr => Or.inl (h.removed ▸ hr)⟩

/-! ## The labels -/

theorem recreate_touches (k : String) (o : Outcome × Outcome × Outcome) (n : Node) :
    Touches (· = k) n (recreate k o n) := by
  have hstop := attempt_touches (stop_touches k n) o.1
  unfold recreate
  split
  · exact Touches.refl _ _
  · split
    · rename_i n1 heq
      rw [heq] at hstop
      have hrm := attempt_touches (rm_touches k n1) o.2.1
      split
      · rename_i n2 heq'
        rw [heq'] at hrm
        exact (hstop.trans hrm).trans (attempt_touches (run_touches _ _ _ _ _) o.2.2)
      · rename_i n2 _ heq'
        rw [heq'] at hrm
        exact hstop.trans hrm
    · rename_i n1 _ heq
      rw [heq] at hstop
      exact hstop

theorem rm_image {k : String} {n : Node} {c : Container} (h : (rm k n).2.containers.get k = some c) :
    n.containers.get k = some c := by
  unfold rm at h
  split at h
  · exact h
  · rw [get_delete_self] at h
    simp at h

theorem rm_ok {k : String} {o : Outcome} {n n' : Node} (h : attempt o (rm k) n = (.ok,n')) :
    n'.containers.get k = none := by
  obtain ⟨hworked,rfl⟩ := attempt_ok h
  unfold rm at hworked ⊢
  split at hworked
  · simp at hworked
  · exact get_delete_self _ _

theorem stop_image {k : String} {n : Node} {c : Container} (h : (stop k n).2.containers.get k = some c) :
    ∃ c', n.containers.get k = some c' ∧ c'.image = c.image := by
  have h : (setStatus k .exited n).containers.get k = some c := h
  rw [get_setStatus] at h
  obtain ⟨c',hc',rfl⟩ := Option.map_eq_some_iff.mp h
  exact ⟨c',hc',by rw [if_pos rfl]⟩

/-- A container that is created anew keeps its image. -/
theorem recreate_image {k : String} {o : Outcome × Outcome × Outcome} {n : Node} {c : Container}
    (h : (recreate k o n).containers.get k = some c) :
    ∃ c', n.containers.get k = some c' ∧ c'.image = c.image := by
  have hstop : ∀ c, (attempt o.1 (stop k) n).2.containers.get k = some c →
      ∃ c', n.containers.get k = some c' ∧ c'.image = c.image := by
    intro c hc
    rcases attempt_snd o.1 (stop k) n with he | he
    · rw [he] at hc
      exact ⟨c,hc,rfl⟩
    · rw [he] at hc
      exact stop_image hc
  unfold recreate at h
  split at h
  · exact ⟨c,h,rfl⟩
  · rename_i old hold
    split at h
    · rename_i n1 heq
      rw [heq] at hstop
      split at h
      · rename_i n2 heq'
        have hnone := rm_ok heq'
        rcases attempt_snd o.2.2 (runContainer k old.image old.ports old.proxyLabel) n2 with he | he
        · rw [he, hnone] at h
          simp at h
        · rw [he] at h
          have hk : k ∉ n2.containers.keys := (Table.get_none_iff _ _).mp hnone
          obtain ⟨c',hc',himage⟩ := run_started hk old.image old.ports old.proxyLabel
          rw [Option.some.inj (h.symm.trans hc')]
          exact ⟨old,hold,himage.symm⟩
      · rename_i n2 _ heq'
        have hrm : n2.containers.get k = some c → n1.containers.get k = some c := by
          rcases attempt_snd o.2.1 (rm k) n1 with he | he
          · rw [heq'] at he
            have he : n2 = n1 := he
            rw [he]
            exact id
          · rw [heq'] at he
            have he : n2 = (rm k n1).2 := he
            rw [he]
            exact rm_image
        exact hstop c (hrm h)
    · rename_i n1 _ heq
      rw [heq] at hstop
      exact hstop c h

theorem readyNew_touches (name : String) (d : Deployment) (a : Answers) (n : Node) :
    Touches (· = newName name) n (readyNew name d a n).2 := by
  have h := (waitContainerReady_waited (newName name) (chosenNetwork d a) d.readyTimeout a.wait n).1.touches
  unfold readyNew
  split
  · rename_i n1 heq
    rw [heq] at h
    exact h.trans (attempt_touches (rm_touches _ _) _)
  · rename_i n1 heq
    rw [heq] at h
    have hlabels := h.trans (recreate_touches (newName name) a.labels n1)
    have hwait := hlabels.trans (waitContainerReady_waited (newName name) (chosenNetwork d a)
      d.readyTimeout a.waitLabels (recreate (newName name) a.labels n1)).1.touches
    split
    · split
      · rename_i n2 heq'
        rw [heq'] at hwait
        exact hwait.trans (attempt_touches (rm_touches _ _) _)
      · rename_i n2 heq'
        rw [heq'] at hwait
        exact hwait
    · exact h

theorem readyNew_ready {name : String} {d : Deployment} {a : Answers} {n n' : Node}
    (h : readyNew name d a n = (true,n')) : Answered (newName name) n' ∧
      ∀ c, n'.containers.get (newName name) = some c →
        ∃ c', n.containers.get (newName name) = some c' ∧ c'.image = c.image := by
  have hfirst := waitContainerReady_waited (newName name) (chosenNetwork d a) d.readyTimeout a.wait n
  unfold readyNew at h
  split at h
  · simp at h
  · rename_i n1 heq
    rw [heq] at hfirst
    have hsecond := waitContainerReady_waited (newName name) (chosenNetwork d a) d.readyTimeout
      a.waitLabels (recreate (newName name) a.labels n1)
    split at h
    · split at h
      · simp at h
      · rename_i n2 heq'
        rw [heq'] at hsecond
        rw [← (Prod.mk.inj h).2]
        refine ⟨hsecond.2 rfl,fun c hc => ?_⟩
        obtain ⟨c2,hc2,himage2⟩ := hsecond.1.image c hc
        obtain ⟨c1,hc1,himage1⟩ := recreate_image hc2
        obtain ⟨c0,hc0,himage0⟩ := hfirst.1.image c1 hc1
        exact ⟨c0,hc0,himage0.trans (himage1.trans himage2)⟩
    · rw [← (Prod.mk.inj h).2]
      exact ⟨hfirst.2 rfl,hfirst.1.image⟩

/-! ## Before the swap -/

theorem beforeSwap_touches (name : String) (d : Deployment) (a : Answers) (n : Node) :
    Touches (Own name d) (prepare name d a (begun n)) (beforeSwap name d a n).2 := by
  have hstart := startNew_touches name d a n
  unfold beforeSwap
  split
  · rename_i n1 heq
    rw [heq] at hstart
    exact hstart
  · rename_i n1 heq
    rw [heq] at hstart
    exact hstart.trans ((readyNew_touches name d a n1).mono (fun _ hk => Or.inl hk))

theorem own_ne {name : String} {d : Deployment} {k : String} (h : Own name d k) : k ≠ name := by
  rcases h with rfl | ⟨s,-,rfl⟩
  · exact newName_ne name
  · exact sidecarName_ne name s

theorem own_ofProject {name : String} {d : Deployment} {k : String} (h : Own name d k) :
    ofProject name k = true := by
  rcases h with rfl | ⟨s,-,rfl⟩
  · exact ofProject_newName name
  · exact ofProject_dash name s.name

theorem prepare_get (name : String) (d : Deployment) (a : Answers) (n : Node) {k : String}
    (hk : ¬ (isProxyReservedHostPort d.hostPort = false ∧ k ∈ evicted name d.hostPort n)) :
    (prepare name d a (begun n)).containers.get k = n.containers.get k :=
  (prepare_touches name d a (begun n)).frame k hk

theorem beforeSwap_get (name : String) (d : Deployment) (a : Answers) (n : Node) {k : String}
    (hk : ¬ (isProxyReservedHostPort d.hostPort = false ∧ k ∈ evicted name d.hostPort n))
    (hown : ¬ Own name d k) : (beforeSwap name d a n).2.containers.get k = n.containers.get k :=
  ((beforeSwap_touches name d a n).frame k hown).trans (prepare_get name d a n hk)

theorem name_not_evicted (name : String) (d : Deployment) (n : Node) :
    ¬ (isProxyReservedHostPort d.hostPort = false ∧ name ∈ evicted name d.hostPort n) := by
  rintro ⟨-,h⟩
  obtain ⟨c,-,-,-,hne⟩ := mem_evicted.mp h
  exact hne rfl

theorem name_kept (name : String) (d : Deployment) (a : Answers) (n : Node) :
    (beforeSwap name d a n).2.containers.get name = n.containers.get name :=
  beforeSwap_get name d a n (name_not_evicted name d n) (fun h => own_ne h rfl)

/-- While the container of the project's name runs, no other serves it. -/
theorem not_serving {name k : String} {t : Table String Container} {n : Node} (hne : k ≠ name)
    (hget : t.get name = n.containers.get name) (hruns : n.runs name = true) :
    serving name k t = false := by
  obtain ⟨c,hc,hrun⟩ := runs_get hruns
  unfold serving
  rw [hget, hc, Option.any_some, hrun]
  simp [hne]

theorem beforeSwap_allowed {name : String} {n : Node} (d : Deployment) (a : Answers)
    (hruns : n.runs name = true) : ∀ r ∈ (beforeSwap name d a n).2.removed, r.Allowed name d := by
  intro r hr
  rcases (beforeSwap_touches name d a n).removed r hr with hprepare | ⟨hown,hframe⟩
  · obtain ⟨hguard,hpublish⟩ := prepare_removed name d a (begun n) rfl r hprepare
    have htouch := ((prepare_touches name d a (begun n)).removed r hprepare).resolve_left
      (by simp [begun])
    have hne : r.name ≠ name := by
      intro he
      exact name_not_evicted name d n (he ▸ htouch.1)
    have hserving := not_serving (n := n) hne (htouch.2 name (name_not_evicted name d n)) hruns
    exact ⟨fun _ => hguard,fun _ => hpublish,fun h => absurd h (by simp [hserving])⟩
  · have hproject := own_ofProject hown
    have hget : r.containers.get name = n.containers.get name :=
      (hframe name (fun h => own_ne h rfl)).trans (prepare_get name d a n (name_not_evicted name d n))
    have hserving := not_serving (n := n) (own_ne hown) hget hruns
    exact ⟨fun h => absurd h (by simp [hproject]),fun h => absurd h (by simp [hproject]),
      fun h => absurd h (by simp [hserving])⟩

theorem beforeSwap_ready {name : String} {d : Deployment} {a : Answers} {n n' : Node}
    (h : beforeSwap name d a n = (true,n')) :
    ∃ c, n'.containers.get (newName name) = some c ∧ c.image = d.image ∧ c.status = .running ∧
      c.id ∈ n'.answered := by
  unfold beforeSwap at h
  split at h
  · simp at h
  · rename_i n1 heq
    obtain ⟨c1,hc1,himage1⟩ := startNew_started heq
    obtain ⟨⟨c,hc,hrun,hanswered⟩,himage⟩ := readyNew_ready h
    obtain ⟨c',hc',himage'⟩ := himage c hc
    rw [Option.some.inj (hc'.symm.trans hc1), himage1] at himage'
    exact ⟨c,hc,himage'.symm,hrun,hanswered⟩

/-! ## The swap -/

theorem attempt_takes {o : Outcome} (h : o.takes = true) (effect : Node → Bool × Node) (n : Node) :
    (attempt o effect n).2 = (effect n).2 := by
  cases o <;> simp [Outcome.takes] at h <;> rfl

theorem stopOld_eq {name : String} {o : Outcome × Outcome} {n : Node} (hstop : o.1 = .ok)
    (hrm : o.2.takes = true) (hget : (n.containers.get name).isSome = true) :
    stopOld name o n = (rm name (setStatus name .exited n)).2 := by
  have h : attempt o.1 (stop name) n = (.ok,setStatus name .exited n) := by
    rw [hstop]
    simp [attempt, stop, hget]
  simp only [stopOld, h]
  exact attempt_takes hrm _ _

theorem swap_served {name : String} {d : Deployment} {a : Answers} {n n' : Node}
    (hswaps : a.swaps = true) (hruns : n.runs name = true) (h : beforeSwap name d a n = (true,n')) :
    Served name d n (true,swap name (containerExists name a.exists_ n) a n') := by
  simp only [Answers.swaps, Bool.and_eq_true, decide_eq_true_eq] at hswaps
  obtain ⟨⟨⟨hexists,hstop⟩,hrm⟩,hrename⟩ := hswaps
  obtain ⟨old,hold,-⟩ := runs_get hruns
  have hold' : n'.containers.get name = some old := by
    have hkept := name_kept name d a n
    rw [h] at hkept
    exact hkept.trans hold
  obtain ⟨c,hc,himage,hrun,hanswered⟩ := beforeSwap_ready h
  have hstopped : (setStatus name .exited n').containers.get name =
      some { old with status := .exited } := by
    rw [get_setStatus, hold', Option.map_some, if_pos rfl]
  have hfound : containerExists name a.exists_ n = true := by
    simp [containerExists, hexists, hold]
  have hstop' := stopOld_eq hstop hrm (n := n') (by rw [hold']; rfl)
  have hnew : (stopOld name a.stopOld n').containers.get (newName name) = some c := by
    rw [hstop']
    exact ((rm_touches name _).frame _ (newName_ne name)).trans
      (((setStatus_touches name .exited n').frame _ (newName_ne name)).trans hc)
  have hfree : name ∉ (stopOld name a.stopOld n').containers.keys := by
    rw [hstop', ← Table.get_none_iff]
    unfold rm
    rw [hstopped]
    exact get_delete_self _ _
  have hswap : swap name (containerExists name a.exists_ n) a n' =
      { stopOld name a.stopOld n' with
        containers := ((stopOld name a.stopOld n').containers.delete
          (fun x _ => x = newName name)).insert name c } := by
    unfold swap
    rw [hfound, if_pos rfl, attempt_takes hrename]
    unfold rename
    rw [hnew]
    simp only [if_neg hfree]
  have hfree' : name ∉ ((stopOld name a.stopOld n').containers.delete
      (fun x _ => x = newName name)).keys := by
    rw [← Table.get_none_iff, get_delete_of_ne _ (Ne.symm (newName_ne name)), Table.get_none_iff]
    exact hfree
  constructor
  · simp
  · intro _
    refine ⟨c,?_,himage,hrun,?_⟩
    · rw [hswap]
      show (Table.insert _ name c).get name = some c
      rw [Table.get_insert, if_pos ⟨rfl,hfree'⟩]
    · rw [hswap, hstop']
      unfold rm
      rw [hstopped]
      exact hanswered
  · rw [hswap, hstop']
    unfold rm
    rw [hstopped]
    intro r hr
    rcases List.mem_append.mp hr with hr | hr
    · have hallowed := beforeSwap_allowed d a hruns
      rw [h] at hallowed
      exact hallowed r hr
    · rw [List.mem_singleton.mp hr]
      have hself : ofProject name name = true := by simp [ofProject]
      exact ⟨fun h => absurd h (by simp [hself]),fun h => absurd h (by simp [hself]),
        fun h => absurd h (by simp [serving, hstopped])⟩

theorem gaveUp_served {name : String} {d : Deployment} {a : Answers} {n n' : Node}
    (hside : noSidecarRuns name d n) (hruns : n.runs name = true) (h : beforeSwap name d a n = (false,n')) :
    Served name d n (false,n') := by
  constructor
  · intro _ k c hk hrun hwhich
    have hget : (beforeSwap name d a n).2.containers.get k = n.containers.get k := by
      rcases hwhich with rfl | hsidecar
      · exact name_kept k d a n
      · obtain ⟨hnew,hown,hport⟩ := hside (k,c) ((Table.mem_iff_get _ k c).mpr hk) hrun hsidecar
        apply beforeSwap_get
        · rintro ⟨hreserved,hevicted⟩
          obtain ⟨c',hc',hpublishes,-,-⟩ := mem_evicted.mp hevicted
          rw [Option.some.inj (hc'.symm.trans hk), hport hreserved] at hpublishes
          simp at hpublishes
        · rintro (he | ⟨s,hs,he⟩)
          · exact hnew he
          · exact hown s hs he
    rw [h] at hget
    exact hget.trans hk
  · simp
  · have hallowed := beforeSwap_allowed d a hruns
    rw [h] at hallowed
    exact hallowed

/-! ## Deployments one after the other -/

theorem call_served {name : String} {n : Node} {c : Call} (hruns : n.runs name = true)
    (ho : Orderly name n c) : CallServed name n c := by
  unfold CallServed dockerRestartContainer
  unfold Orderly at ho
  cases hb : beforeSwap name c.deployment c.answers n with
  | mk ready n' =>
    rw [hb] at ho
    cases ready with
    | true => exact swap_served ho hruns hb
    | false => exact gaveUp_served ho hruns hb

theorem served_runs {name : String} {d : Deployment} {n : Node} {r : Bool × Node}
    (h : Served name d n r) (hruns : n.runs name = true) : r.2.runs name = true := by
  obtain ⟨c,hc,hrun⟩ := runs_get hruns
  have hafter : ∃ c, r.2.containers.get name = some c ∧ c.status = .running := by
    cases hr : r.1 with
    | true =>
      obtain ⟨c',hc',-,hrun',-⟩ := h.live hr
      exact ⟨c',hc',hrun'⟩
    | false => exact ⟨c,h.kept hr name c hc hrun (Or.inl rfl),hrun⟩
  obtain ⟨c',hc',hrun'⟩ := hafter
  simp [Node.runs, hc', hrun']

/-- Deployments that meet the condition keep the site served, one after the other. -/
theorem swaps_keep_serving (name : String) (calls : List Call) (n : Node) (hruns : n.runs name = true)
    (ho : Guarded (step name) (Orderly name) calls n) :
    Guarded (step name) (CallServed name) calls n := by
  induction calls generalizing n with
  | nil => trivial
  | cons c calls ih =>
    have hserved := call_served hruns ho.1
    exact ⟨hserved,ih _ (served_runs hserved hruns) ho.2⟩

/-- The proxy, a site in production and another project that publishes a port. -/
def site : Node :=
  { containers := ((Table.empty.insert "devforge-traefik" ⟨0,"traefik:v3",.running,[⟨80,80,"tcp"⟩],true⟩).insert
      "df-a1" ⟨1,"df-a1:old",.running,[],false⟩).insert
      "df-b2" ⟨2,"df-b2:latest",.running,[⟨8080,3000,"tcp"⟩],false⟩
    nextId := 3
    answered := []
    removed := [] }

def released : Deployment := ⟨"df-a1:latest",8080,3000,true,[],[],some "devforge",none⟩

def answering : Wait := ⟨[⟨.running,true,"","000",1⟩,⟨.running,true,"","200",2⟩],true⟩

def working : Answers :=
  ⟨.ok,true,[.ok],none,[],.ok,[],.ok,answering,.ok,(.ok,.ok,.ok),answering,.ok,(.ok,.ok),.ok⟩

theorem swaps_keep_serving_twice : Guarded (step "df-a1") (CallServed "df-a1")
    [⟨released,working⟩,⟨{ released with hostPort := 80 },{ working with start := .failed }⟩] site :=
  swaps_keep_serving "df-a1" _ site (by decide +kernel) (by decide +kernel)

/-- The rename fails once the old container is gone: the call succeeds, and nothing bears
the name of the project. -/
theorem failed_rename_succeeds : ¬ ∀ (name : String) (calls : List Call) (n : Node),
    n.runs name = true → Guarded (step name) (CallServed name) calls n := by
  intro h
  have hcall := (h "df-a1" [⟨released,{ working with rename := .failed }⟩] site (by decide +kernel)).1
  obtain ⟨c,hc,-⟩ := hcall.live (by decide +kernel)
  have hgone : (dockerRestartContainer "df-a1" released { working with rename := .failed } site).2.containers.get
      "df-a1" = none := by decide +kernel
  exact absurd (hgone.symm.trans hc) (by simp)

end DevForge.SwapsKeepServing
