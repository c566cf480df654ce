import DevForge.PlaybookSteps

/-!
# What a verdict rests on

A run passes when it and its workers are completed and each step is decided for it. A step may be
decided by what a worker noted for a step of its own, since the journal does not tell whose step it
is.
-/

set_option autoImplicit false

namespace DevForge.StepsBacked
open PlaybookSteps

/-! ## Steps -/

/-- The state of a step is what is decided for it, or tells that nothing is. -/
def Fits (decided : ℕ → Option StepState) (terminal : Bool) (n : ℕ) (state : StepState) : Prop :=
  decided n = some state ∨ decided n = none ∧
    (state = if terminal then .missing else .pending) ∨ decided n = none ∧ state = if terminal then .failed else .running

section
variable (decided : ℕ → Option StepState) (terminal failed : Bool)

theorem stepsFrom_cons (n : ℕ) (assigned : Bool) (label : String) (labels : List String) :
    ∃ state assigned', stepsFrom decided terminal failed n assigned (label::labels) =
      ⟨n,label,state⟩::stepsFrom decided terminal failed (n+1) assigned' labels ∧ Fits decided terminal n state := by
  rw [stepsFrom]
  unfold Fits
  cases hd : decided n with
  | some state => exact ⟨state,assigned,rfl,.inl rfl⟩
  | none =>
    cases terminal with
    | true =>
      by_cases hfirst : (failed && !assigned) = true
      · exact ⟨.failed,true,by simp only [if_true, hfirst],.inr (.inr ⟨rfl,rfl⟩)⟩
      · exact ⟨.missing,assigned,by simp only [if_true, hfirst, if_false, Bool.false_eq_true],.inr (.inl ⟨rfl,rfl⟩)⟩
    | false =>
      cases assigned with
      | true => exact ⟨.pending,true,rfl,.inr (.inl ⟨rfl,rfl⟩)⟩
      | false => exact ⟨.running,true,rfl,.inr (.inr ⟨rfl,rfl⟩)⟩

variable {decided terminal failed}

theorem mem_stepsFrom {n : ℕ} {assigned : Bool} {labels : List String} {s : Step}
    (h : s ∈ stepsFrom decided terminal failed n assigned labels) :
    n ≤ s.n ∧ s.n < n+labels.length ∧ Fits decided terminal s.n s.state := by
  induction labels generalizing n assigned with
  | nil => cases h
  | cons label labels ih =>
    obtain ⟨state,assigned',hform,hfits⟩ :=
      stepsFrom_cons decided terminal failed n assigned label labels
    rw [hform] at h
    rw [List.length_cons]
    obtain rfl | h := List.mem_cons.mp h
    · exact ⟨le_refl _,by dsimp only; omega,hfits⟩
    · obtain ⟨hge,hlt,hs⟩ := ih h
      exact ⟨by omega,by omega,hs⟩

theorem exists_step {n m : ℕ} (assigned : Bool) {labels : List String} (hge : n ≤ m) (hlt : m < n+labels.length) :
    ∃ s ∈ stepsFrom decided terminal failed n assigned labels, s.n = m := by
  induction labels generalizing n assigned with
  | nil =>
    rw [List.length_nil] at hlt
    omega
  | cons label labels ih =>
    obtain ⟨state,assigned',hform,-⟩ :=
      stepsFrom_cons decided terminal failed n assigned label labels
    rw [hform]
    rw [List.length_cons] at hlt
    by_cases hm : n = m
    · exact ⟨⟨n,label,state⟩,List.mem_cons_self,hm⟩
    · obtain ⟨s,hs,hn⟩ := ih (n := n+1) assigned' (by omega) (by omega)
      exact ⟨s,List.mem_cons_of_mem _ hs,hn⟩

theorem stepsFrom_congr {decided' : ℕ → Option StepState} {n : ℕ} {assigned : Bool} {labels : List String}
    (h : ∀ m, n ≤ m → m < n+labels.length → decided m = decided' m) :
    stepsFrom decided terminal failed n assigned labels = stepsFrom decided' terminal failed n assigned labels := by
  induction labels generalizing n assigned with
  | nil => rfl
  | cons label labels ih =>
    rw [List.length_cons] at h
    have hrest : ∀ assigned, stepsFrom decided terminal failed (n+1) assigned labels =
        stepsFrom decided' terminal failed (n+1) assigned labels :=
      fun assigned => ih (fun m hge hlt => h m (by omega) (by omega))
    rw [stepsFrom, stepsFrom, h n (le_refl n) (by omega), hrest true, hrest assigned]

end

/-! ## Verdicts -/

section
variable {run : RunLite} {steps : List Step} {workers : List RunLite}

theorem isOkStatus_iff (s : String) : isOkStatus s = true ↔ s = "completed" := decide_eq_true_iff

theorem isTerminal_of_ok {s : String} (h : s = "completed") : isTerminal s = true := by
  rw [h]
  decide

theorem not_failed_of_ok {s : String} (h : s = "completed") : isFailedStatus s = false := by
  rw [h]
  decide

theorem ok_of_terminal {s : String} (h : isTerminal s = true) (hf : isFailedStatus s = false) : s = "completed" := by
  rw [isTerminal, hf, Bool.or_false] at h
  exact (isOkStatus_iff s).mp h

theorem ended_iff : ended run workers = true ↔ isTerminal run.status = true ∧ ∀ w ∈ workers, isTerminal w.status = true := by
  simp [ended]

theorem ended_of_completed (hrun : run.status = "completed") (hworkers : ∀ w ∈ workers, w.status = "completed") :
    ended run workers = true :=
  ended_iff.mpr ⟨isTerminal_of_ok hrun,fun w hw => isTerminal_of_ok (hworkers w hw)⟩

theorem verdict_of_not_ended (h : ended run workers = false) : verdict run steps workers = .running := by
  have hcond : (!isTerminal run.status || workers.any (fun w => !isTerminal w.status)) = !ended run workers := by
    simp [ended, Bool.not_and]
  rw [verdict, hcond, h]
  rfl

/-- The verdict on what has ended. -/
theorem verdict_of_ended (h : ended run workers = true) : verdict run steps workers =
    if isFailedStatus run.status || steps.any (fun s => s.state = .failed) ||
      workers.any (fun w => isFailedStatus w.status) then .failed
    else if steps.any (fun s => s.state = .missing) then .incomplete else .ok := by
  have hcond : (!isTerminal run.status || workers.any (fun w => !isTerminal w.status)) = !ended run workers := by
    simp [ended, Bool.not_and]
  rw [verdict, hcond, h]
  rfl

theorem verdict_of_failed_step {s : Step} (h : ended run workers = true) (hs : s ∈ steps) (hf : s.state = .failed) :
    verdict run steps workers = .failed := by
  have hany : steps.any (fun s => s.state = .failed) = true := List.any_eq_true.mpr ⟨s,hs,decide_eq_true hf⟩
  rw [verdict_of_ended h, hany, Bool.or_true, Bool.true_or, if_pos rfl]

/-- Everything is completed, and no step is failed or missing. -/
theorem verdict_ok_iff : verdict run steps workers = .ok ↔
    run.status = "completed" ∧ (∀ w ∈ workers, w.status = "completed") ∧
      ∀ s ∈ steps, s.state ≠ .failed ∧ s.state ≠ .missing := by
  constructor
  · intro h
    have he : ended run workers = true := by
      by_contra hne
      rw [verdict_of_not_ended (Bool.eq_false_of_not_eq_true hne)] at h
      cases h
    rw [verdict_of_ended he] at h
    split_ifs at h with hf hm
    simp only [Bool.or_eq_true, not_or, List.any_eq_true, not_exists, not_and, decide_eq_true_eq] at hf hm
    obtain ⟨hrun,hworkers⟩ := ended_iff.mp he
    exact ⟨ok_of_terminal hrun (Bool.eq_false_of_not_eq_true hf.1.1),
      fun w hw => ok_of_terminal (hworkers w hw) (Bool.eq_false_of_not_eq_true (hf.2 w hw)),
      fun s hs => ⟨hf.1.2 s hs,hm s hs⟩⟩
  · rintro ⟨hrun,hworkers,hsteps⟩
    have hfailed : steps.any (fun s => s.state = .failed) = false :=
      List.any_eq_false.mpr (fun s hs => by simpa using (hsteps s hs).1)
    have hmissing : steps.any (fun s => s.state = .missing) = false :=
      List.any_eq_false.mpr (fun s hs => by simpa using (hsteps s hs).2)
    have hbroken : workers.any (fun w => isFailedStatus w.status) = false :=
      List.any_eq_false.mpr (fun w hw => by simp [not_failed_of_ok (hworkers w hw)])
    rw [verdict_of_ended (ended_of_completed hrun hworkers), not_failed_of_ok hrun, hfailed, hbroken, hmissing]
    rfl

end

/-! ## Decisions -/

section
variable (run : RunLite) (workers : List RunLite)

/-- The event records a decision about a step, with evidence. -/
def Notes (e : EventLite) (n : ℕ) (outcome : String) : Prop :=
  ∃ d, decisionFromEvent (nameOf run workers) e = some d ∧ isEvidence d.evidence = true ∧ d.step = some (n : ℤ) ∧
    d.outcome = outcome

/-- The run or a worker has recorded the outcome. -/
def Noted (events : List EventLite) (n : ℕ) (outcome : String) : Prop := ∃ e ∈ events, Notes run workers e n outcome

/-- The run itself has recorded the outcome. -/
def Recorded (events : List EventLite) (n : ℕ) (outcome : String) : Prop :=
  ∃ e ∈ events, e.runUuid = run.uuid ∧ Notes run workers e n outcome

def journal (events : List EventLite) (receipts : List ReceiptLite) : List Decision :=
  decisionsFromEvents events (nameOf run workers)++decisionsFromReceipts receipts

end

theorem decisionFromEvent_evidence {names : String → Option String} {e : EventLite} {d : Decision}
    (h : decisionFromEvent names e = some d) : isEvidence d.evidence = true := by
  unfold decisionFromEvent at h
  split_ifs at h
  obtain ⟨r,-,h⟩ := Option.bind_eq_some_iff.mp h
  split_ifs at h
  obtain ⟨j,-,h⟩ := Option.bind_eq_some_iff.mp h
  dsimp only at h
  split_ifs at h with he
  rw [← Option.some.inj h]
  exact he

/-- A step is decided by the outcomes noted for it. -/
def mine (decisions : List Decision) (n : ℕ) : List String :=
  (decisions.filter (fun d => d.step = some (n : ℤ))).map Decision.outcome

theorem mem_mine {decisions : List Decision} {n : ℕ} {o : String} :
    o ∈ mine decisions n ↔ ∃ d ∈ decisions, d.step = some (n : ℤ) ∧ d.outcome = o := by
  simp [mine, and_assoc]

section
variable {run : RunLite} {workers : List RunLite} {events : List EventLite} {receipts : List ReceiptLite}

/-- A receipt decides no step. -/
theorem mem_journal_mine {n : ℕ} {o : String} :
    o ∈ mine (journal run workers events receipts) n ↔ Noted run workers events n o := by
  rw [mem_mine]
  constructor
  · rintro ⟨d,hd,hstep,ho⟩
    obtain hd | hd := List.mem_append.mp hd
    · obtain ⟨e,he,hed⟩ := List.mem_filterMap.mp hd
      exact ⟨e,he,d,hed,decisionFromEvent_evidence hed,hstep,ho⟩
    · obtain ⟨r,-,rfl⟩ := List.mem_map.mp hd
      cases hstep
  · rintro ⟨e,he,d,hed,-,hstep,ho⟩
    exact ⟨d,List.mem_append_left _ (List.mem_filterMap.mpr ⟨e,he,hed⟩),hstep,ho⟩

variable (run workers events receipts) in
/-- The four cases of a step, a failure first. -/
theorem decidedBy_cases (n : ℕ) :
    Noted run workers events n "failed" ∧ decidedBy (journal run workers events receipts) n = some .failed ∨
    ¬Noted run workers events n "failed" ∧ Noted run workers events n "ok" ∧
      decidedBy (journal run workers events receipts) n = some .ok ∨
    ¬Noted run workers events n "failed" ∧ ¬Noted run workers events n "ok" ∧ Noted run workers events n "skipped" ∧
      decidedBy (journal run workers events receipts) n = some .skipped ∨
    ¬Noted run workers events n "failed" ∧ ¬Noted run workers events n "ok" ∧ ¬Noted run workers events n "skipped" ∧
      decidedBy (journal run workers events receipts) n = none := by
  have hform : decidedBy (journal run workers events receipts) n =
      if (mine (journal run workers events receipts) n).contains "failed" then some .failed
      else if (mine (journal run workers events receipts) n).contains "ok" then some .ok
      else if (mine (journal run workers events receipts) n).contains "skipped" then some .skipped else none := rfl
  have hmine : ∀ {o}, (mine (journal run workers events receipts) n).contains o = true ↔ Noted run workers events n o :=
    List.contains_iff_mem.trans mem_journal_mine
  by_cases hf : Noted run workers events n "failed"
  · exact .inl ⟨hf,by rw [hform, if_pos (hmine.mpr hf)]⟩
  by_cases ho : Noted run workers events n "ok"
  · exact .inr (.inl ⟨hf,ho,by rw [hform, if_neg (mt hmine.mp hf), if_pos (hmine.mpr ho)]⟩)
  by_cases hk : Noted run workers events n "skipped"
  · exact .inr (.inr (.inl ⟨hf,ho,hk,by
      rw [hform, if_neg (mt hmine.mp hf), if_neg (mt hmine.mp ho), if_pos (hmine.mpr hk)]⟩))
  · exact .inr (.inr (.inr ⟨hf,ho,hk,by
      rw [hform, if_neg (mt hmine.mp hf), if_neg (mt hmine.mp ho), if_neg (mt hmine.mp hk)]⟩))

end

/-! ## Workers -/

section
variable {p : Playbook} {workers : List RunLite}

/-- The steps follow the workers. -/
def Swarm (p : Playbook) (workers : List RunLite) : Prop := p.usesWorkers = true ∧ workers ≠ []

theorem followed_of_not_swarm (n : ℕ) (h : ¬Swarm p workers) : followed p workers n = none := by
  have hcond : (p.usesWorkers && !workers.isEmpty) = false := by
    apply Bool.eq_false_of_not_eq_true
    intro hc
    apply h
    simpa [Swarm] using hc
  rw [followed, hcond]
  rfl

theorem followed_of_swarm (n : ℕ) (h : Swarm p workers) : followed p workers n =
    some (if n = 1 ∨ n = 2 then .ok
      else if workers.all (fun w => isTerminal w.status) && workers.any (fun w => isFailedStatus w.status) then .failed
      else if workers.all (fun w => isTerminal w.status) then .ok else .running) := by
  have hcond : (p.usesWorkers && !workers.isEmpty) = true := by
    simpa [Swarm] using h
  rw [followed, hcond, if_pos rfl]
  simp only [Bool.or_eq_true, decide_eq_true_eq]

theorem followed_of_completed (n : ℕ) (h : Swarm p workers) (hworkers : ∀ w ∈ workers, w.status = "completed") :
    followed p workers n = some .ok := by
  have hall : workers.all (fun w => isTerminal w.status) = true :=
    List.all_eq_true.mpr (fun w hw => isTerminal_of_ok (hworkers w hw))
  have hany : workers.any (fun w => isFailedStatus w.status) = false :=
    List.any_eq_false.mpr (fun w hw => by simp [not_failed_of_ok (hworkers w hw)])
  rw [followed_of_swarm n h, hall, hany]
  simp

theorem swarm_of_followed {n : ℕ} {state : StepState} (h : followed p workers n = some state) : Swarm p workers := by
  by_contra hs
  rw [followed_of_not_swarm n hs] at h
  cases h

end

/-! ## The rule -/

section
variable (first : Bool) (run : RunLite) (p : Playbook) (events : List EventLite) (workers : List RunLite)
  (receipts : List ReceiptLite)

/-- The step is one of the workers'. Whether the first step of a swarm is one is left open by `first`. -/
def ByWorkers (n : ℕ) : Prop := Swarm p workers ∧ (n ≠ 1 ∨ first = true)

/-- What a verdict rests on. -/
structure Backed : Prop where
  completed : (computeLive run (some p) events workers receipts).verdict = .ok →
    run.status = "completed" ∧ ∀ w ∈ workers, w.status = "completed"
  backed : (computeLive run (some p) events workers receipts).verdict = .ok → ∀ n, 1 ≤ n → n ≤ 3 →
    Recorded run workers events n "ok" ∨ Recorded run workers events n "skipped" ∨ ByWorkers first p workers n
  okStep : ∀ s ∈ (computeLive run (some p) events workers receipts).steps, s.state = .ok →
    Recorded run workers events s.n "ok" ∨ ByWorkers first p workers s.n
  downgraded : ∀ l e r e' d, events = l++e::r → e'.runUuid = e.runUuid →
    decisionFromEvent (nameOf run workers) e = some d → d.outcome = "ok" →
    decisionFromEvent (nameOf run workers) e' = some { d with outcome := "failed" } →
    (computeLive run (some p) (l++e'::r) workers receipts).verdict =
        (computeLive run (some p) events workers receipts).verdict ∨
      (computeLive run (some p) (l++e'::r) workers receipts).verdict = .failed ∧
        (computeLive run (some p) events workers receipts).verdict ≠ .running

/-- All has ended well and each step has something for it. -/
structure Passes : Prop where
  finished : run.status = "completed"
  together : ∀ w ∈ workers, w.status = "completed"
  unfailed : ∀ n, 1 ≤ n → n ≤ 3 → ¬Noted run workers events n "failed"
  step : ∀ n, 1 ≤ n → n ≤ 3 → Noted run workers events n "ok" ∨ Noted run workers events n "skipped" ∨ Swarm p workers

/-- The run has noted itself what counts for the step. -/
structure Own (n : ℕ) : Prop where
  ok : Noted run workers events n "ok" → ¬Noted run workers events n "failed" → Recorded run workers events n "ok"
  skipped : Passes run p events workers → Noted run workers events n "skipped" →
    Recorded run workers events n "ok" ∨ Recorded run workers events n "skipped"
  noted : Swarm p workers → Noted run workers events n "failed" ∨ Noted run workers events n "ok" ∨
    Noted run workers events n "skipped"

def Earned : Prop := ∀ n, 1 ≤ n → n ≤ 3 → ByWorkers first p workers n ∨ Own run p events workers n

end

section
variable {first : Bool} {run : RunLite} {p : Playbook} {events : List EventLite} {workers : List RunLite}
  {receipts : List ReceiptLite}

/-- What is decided for a step of the run. -/
def decided (run : RunLite) (p : Playbook) (events : List EventLite) (workers : List RunLite)
    (receipts : List ReceiptLite) (n : ℕ) : Option StepState :=
  (decidedBy (journal run workers events receipts) n).or (followed p workers n)

theorem steps_eq : (computeLive run (some p) events workers receipts).steps =
    stepsFrom (decided run p events workers receipts) (ended run workers) (isFailedStatus run.status) 1 false p.steps := rfl

theorem verdict_eq : (computeLive run (some p) events workers receipts).verdict =
    verdict run (computeLive run (some p) events workers receipts).steps workers := rfl

variable (run p events workers receipts) in
theorem exists_live_step {n : ℕ} (hge : 1 ≤ n) (hle : n ≤ 3) :
    ∃ s ∈ (computeLive run (some p) events workers receipts).steps, s.n = n := by
  rw [steps_eq]
  exact exists_step false hge (by rw [p.three]; omega)

theorem live_step {s : Step} (h : s ∈ (computeLive run (some p) events workers receipts).steps) :
    1 ≤ s.n ∧ s.n ≤ 3 ∧ Fits (decided run p events workers receipts) (ended run workers) s.n s.state := by
  rw [steps_eq] at h
  obtain ⟨hge,hlt,hfits⟩ := mem_stepsFrom h
  rw [p.three] at hlt
  exact ⟨hge,by omega,hfits⟩

/-- A step is ok by a note, or by the workers. -/
theorem decided_ok {n : ℕ} (h : decided run p events workers receipts n = some .ok) :
    ¬Noted run workers events n "failed" ∧ (Noted run workers events n "ok" ∨
      Swarm p workers ∧ ¬Noted run workers events n "ok" ∧ ¬Noted run workers events n "skipped") := by
  rw [decided] at h
  obtain ⟨-,hd⟩ | ⟨hf,ho,-⟩ | ⟨-,-,-,hd⟩ | ⟨hf,ho,hk,hd⟩ :=
    decidedBy_cases run workers events receipts n
  · rw [hd] at h
    cases h
  · exact ⟨hf,.inl ho⟩
  · rw [hd] at h
    cases h
  · rw [hd, Option.none_or] at h
    exact ⟨hf,.inr ⟨swarm_of_followed h,ho,hk⟩⟩

theorem fits_ok {d : ℕ → Option StepState} {terminal : Bool} {n : ℕ} (h : Fits d terminal n .ok) : d n = some .ok := by
  obtain h | ⟨-,h⟩ | ⟨-,h⟩ := h
  · exact h
  · cases terminal <;> cases h
  · cases terminal <;> cases h

theorem fits_of_some {d : ℕ → Option StepState} {terminal : Bool} {n : ℕ} {state state' : StepState}
    (h : Fits d terminal n state) (hd : d n = some state') : state = state' := by
  obtain h | ⟨h,-⟩ | ⟨h,-⟩ := h
  · exact Option.some.inj (h.symm.trans hd)
  · rw [hd] at h
    cases h
  · rw [hd] at h
    cases h

variable (receipts) in
/-- What passes is decided ok or skipped. -/
theorem decided_of_passes (h : Passes run p events workers) {n : ℕ} (hge : 1 ≤ n) (hle : n ≤ 3) :
    decided run p events workers receipts n = some .ok ∨ decided run p events workers receipts n = some .skipped := by
  rw [decided]
  obtain ⟨hf,-⟩ | ⟨-,-,hd⟩ | ⟨-,-,-,hd⟩ | ⟨-,ho,hk,hd⟩ :=
    decidedBy_cases run workers events receipts n
  · exact absurd hf (h.unfailed n hge hle)
  · exact .inl (by rw [hd]; rfl)
  · exact .inr (by rw [hd]; rfl)
  · have hswarm : Swarm p workers := ((h.step n hge hle).resolve_left ho).resolve_left hk
    exact .inl (by rw [hd, Option.none_or, followed_of_completed n hswarm h.together])

theorem verdict_of_passes (h : Passes run p events workers) :
    (computeLive run (some p) events workers receipts).verdict = .ok := by
  rw [verdict_eq]
  apply verdict_ok_iff.mpr
  constructor
  · exact h.finished
  constructor
  · exact h.together
  · intro s hs
    obtain ⟨hge,hle,hfits⟩ := live_step hs
    obtain hd | hd := decided_of_passes receipts h hge hle
    · rw [fits_of_some hfits hd]
      decide
    · rw [fits_of_some hfits hd]
      decide

theorem passes_of_verdict (h : (computeLive run (some p) events workers receipts).verdict = .ok) :
    Passes run p events workers := by
  rw [verdict_eq] at h
  obtain ⟨hrun,hworkers,hsteps⟩ := verdict_ok_iff.mp h
  have hended : ended run workers = true := ended_of_completed hrun hworkers
  have hdecided : ∀ n, 1 ≤ n → n ≤ 3 → ∃ state, decided run p events workers receipts n = some state ∧
      state ≠ .failed := by
    intro n hge hle
    obtain ⟨s,hs,rfl⟩ := exists_live_step run p events workers receipts hge hle
    obtain ⟨hnf,hnm⟩ := hsteps s hs
    obtain ⟨-,-,hd | ⟨-,hd⟩ | ⟨-,hd⟩⟩ := live_step hs
    · exact ⟨s.state,hd,hnf⟩
    · rw [hended] at hd
      exact absurd hd hnm
    · rw [hended] at hd
      exact absurd hd hnf
  constructor
  · exact hrun
  · exact hworkers
  · intro n hge hle hf
    obtain ⟨state,hd,hnf⟩ := hdecided n hge hle
    obtain ⟨-,hd'⟩ | ⟨hn,-⟩ | ⟨hn,-⟩ | ⟨hn,-⟩ :=
      decidedBy_cases run workers events receipts n
    · rw [decided, hd', Option.some_or] at hd
      exact hnf (Option.some.inj hd).symm
    all_goals exact hn hf
  · intro n hge hle
    obtain ⟨state,hd,hnf⟩ := hdecided n hge hle
    obtain ⟨-,hd'⟩ | ⟨-,ho,-⟩ | ⟨-,-,hk,-⟩ | ⟨-,-,-,hd'⟩ :=
      decidedBy_cases run workers events receipts n
    · rw [decided, hd', Option.some_or] at hd
      exact absurd (Option.some.inj hd).symm hnf
    · exact .inl ho
    · exact .inr (.inl hk)
    · rw [decided, hd', Option.none_or] at hd
      exact .inr (.inr (swarm_of_followed hd))

theorem verdict_ne_running (h : ended run workers = true) :
    (computeLive run (some p) events workers receipts).verdict ≠ .running := by
  rw [verdict_eq, verdict_of_ended h]
  split_ifs <;> decide

/-! ## A decision turned into a failure -/

theorem decisionsFromEvents_split {names : String → Option String} {e : EventLite} {d : Decision}
    (l r : List EventLite) (h : decisionFromEvent names e = some d) :
    decisionsFromEvents (l++e::r) names = decisionsFromEvents l names++d::decisionsFromEvents r names := by
  rw [decisionsFromEvents, List.filterMap_append, List.filterMap_cons, h]
  rfl

theorem mine_of_other {n : ℕ} {d : Decision} (l r : List Decision) (h : d.step ≠ some (n : ℤ)) :
    mine (l++d::r) n = mine (l++r) n := by
  rw [mine, mine, List.filter_append, List.filter_append, List.filter_cons_of_neg (by simpa using h)]

theorem decidedBy_congr {ds ds' : List Decision} {n : ℕ} (h : mine ds n = mine ds' n) :
    decidedBy ds n = decidedBy ds' n := by
  rw [mine, mine] at h
  rw [decidedBy, decidedBy, h]

section
variable {l r : List EventLite} {e e' : EventLite} {d : Decision}

/-- A decision on none of the steps may be turned, the steps stay. -/
theorem steps_of_other (h : decisionFromEvent (nameOf run workers) e = some d)
    (h' : decisionFromEvent (nameOf run workers) e' = some { d with outcome := "failed" })
    (hstep : ∀ n : ℕ, 1 ≤ n → n ≤ 3 → d.step ≠ some (n : ℤ)) :
    (computeLive run (some p) (l++e'::r) workers receipts).steps =
      (computeLive run (some p) (l++e::r) workers receipts).steps := by
  rw [steps_eq, steps_eq]
  apply stepsFrom_congr
  intro m hge hlt
  rw [p.three] at hlt
  have hne : d.step ≠ some (m : ℤ) := hstep m hge (by omega)
  have hmine : mine (journal run workers (l++e'::r) receipts) m = mine (journal run workers (l++e::r) receipts) m := by
    rw [journal, journal, decisionsFromEvents_split l r h, decisionsFromEvents_split l r h', List.append_assoc,
      List.append_assoc, List.cons_append, List.cons_append]
    exact (mine_of_other (d := { d with outcome := "failed" }) _ _ hne).trans (mine_of_other _ _ hne).symm
  rw [decided, decided, decidedBy_congr hmine]

/-- A failed note on a step fails the run. -/
theorem verdict_of_noted {n : ℕ} (hended : ended run workers = true) (hge : 1 ≤ n) (hle : n ≤ 3)
    (h : Noted run workers events n "failed") :
    (computeLive run (some p) events workers receipts).verdict = .failed := by
  obtain ⟨s,hs,rfl⟩ := exists_live_step run p events workers receipts hge hle
  obtain ⟨-,-,hfits⟩ := live_step hs
  have hd : decided run p events workers receipts s.n = some .failed := by
    obtain ⟨-,hd⟩ | ⟨hn,-⟩ | ⟨hn,-⟩ | ⟨hn,-⟩ :=
      decidedBy_cases run workers events receipts s.n
    · rw [decided, hd]
      rfl
    all_goals exact absurd h hn
  rw [verdict_eq]
  exact verdict_of_failed_step hended hs (fits_of_some hfits hd)

theorem verdict_downgraded (h : decisionFromEvent (nameOf run workers) e = some d)
    (h' : decisionFromEvent (nameOf run workers) e' = some { d with outcome := "failed" }) :
    (computeLive run (some p) (l++e'::r) workers receipts).verdict =
        (computeLive run (some p) (l++e::r) workers receipts).verdict ∨
      (computeLive run (some p) (l++e'::r) workers receipts).verdict = .failed ∧
        (computeLive run (some p) (l++e::r) workers receipts).verdict ≠ .running := by
  by_cases hended : ended run workers = true
  · by_cases hstep : ∃ n : ℕ, 1 ≤ n ∧ n ≤ 3 ∧ d.step = some (n : ℤ)
    · obtain ⟨n,hge,hle,hn⟩ := hstep
      have hnoted : Noted run workers (l++e'::r) n "failed" :=
        ⟨e',List.mem_append_right l List.mem_cons_self,_,h',decisionFromEvent_evidence h',hn,rfl⟩
      exact .inr ⟨verdict_of_noted hended hge hle hnoted,verdict_ne_running hended⟩
    · left
      have hother : ∀ n : ℕ, 1 ≤ n → n ≤ 3 → d.step ≠ some (n : ℤ) :=
        fun n hge hle hn => hstep ⟨n,hge,hle,hn⟩
      rw [verdict_eq, verdict_eq, steps_of_other h h' hother]
  · left
    have hrunning : ended run workers = false := Bool.eq_false_of_not_eq_true hended
    rw [verdict_eq, verdict_eq, verdict_of_not_ended hrunning, verdict_of_not_ended hrunning]

end

/-! ## Exactly when -/

theorem own_of_backed (h : Backed first run p events workers receipts) {n : ℕ} (hge : 1 ≤ n) (hle : n ≤ 3)
    (hn : ¬ByWorkers first p workers n) : Own run p events workers n := by
  have hstep : decided run p events workers receipts n = some .ok → Recorded run workers events n "ok" := by
    intro hd
    obtain ⟨s,hs,rfl⟩ := exists_live_step run p events workers receipts hge hle
    obtain ⟨-,-,hfits⟩ := live_step hs
    exact (h.okStep s hs (fits_of_some hfits hd)).resolve_right hn
  obtain ⟨hf,-⟩ | ⟨hf,ho,hd⟩ | ⟨hf,ho,hk,-⟩ | ⟨hf,ho,hk,hd⟩ :=
    decidedBy_cases run workers events receipts n
  · constructor
    · exact fun _ hnf => absurd hf hnf
    · exact fun hp => absurd hf (hp.unfailed n hge hle)
    · exact fun _ => .inl hf
  · have hrec : Recorded run workers events n "ok" := hstep (by rw [decided, hd]; rfl)
    exact ⟨fun _ _ => hrec,fun _ _ => .inl hrec,fun _ => .inr (.inl ho)⟩
  · constructor
    · exact fun hok => absurd hok ho
    · intro hp _
      obtain hr | hr | hr := h.backed (verdict_of_passes hp) n hge hle
      · exact .inl hr
      · exact .inr hr
      · exact absurd hr hn
    · exact fun _ => .inr (.inr hk)
  · constructor
    · exact fun hok => absurd hok ho
    · exact fun _ hsk => absurd hsk hk
    · intro hswarm
      -- with nothing noted the first step would be shown ok
      have hone : n = 1 := by
        by_contra hne
        exact hn ⟨hswarm,.inl hne⟩
      have hrec : Recorded run workers events n "ok" := by
        apply hstep
        rw [decided, hd, Option.none_or, followed_of_swarm n hswarm, if_pos (.inl hone)]
      obtain ⟨e,he,-,hnotes⟩ := hrec
      exact absurd ⟨e,he,hnotes⟩ ho

theorem backed_of_earned (h : Earned first run p events workers) : Backed first run p events workers receipts := by
  have hok : ∀ n, 1 ≤ n → n ≤ 3 → decided run p events workers receipts n = some .ok →
      Recorded run workers events n "ok" ∨ ByWorkers first p workers n := by
    intro n hge hle hd
    obtain hby | hown := h n hge hle
    · exact .inr hby
    obtain ⟨hf,ho | ⟨hswarm,ho,hk⟩⟩ := decided_ok hd
    · exact .inl (hown.ok ho hf)
    · exact absurd (hown.noted hswarm) (by simp only [hf, ho, hk, or_self, not_false_iff])
  constructor
  · intro hv
    exact ⟨(passes_of_verdict hv).finished,(passes_of_verdict hv).together⟩
  · intro hv n hge hle
    have hp : Passes run p events workers := passes_of_verdict hv
    obtain hby | hown := h n hge hle
    · exact .inr (.inr hby)
    obtain ho | hk | hswarm := hp.step n hge hle
    · exact .inl (hown.ok ho (hp.unfailed n hge hle))
    · obtain hr | hr := hown.skipped hp hk
      · exact .inl hr
      · exact .inr (.inl hr)
    · obtain hf | ho | hk := hown.noted hswarm
      · exact absurd hf (hp.unfailed n hge hle)
      · exact .inl (hown.ok ho (hp.unfailed n hge hle))
      · obtain hr | hr := hown.skipped hp hk
        · exact .inl hr
        · exact .inr (.inl hr)
  · intro s hs hstate
    obtain ⟨hge,hle,hfits⟩ := live_step hs
    rw [hstate] at hfits
    exact hok s.n hge hle (fits_ok hfits)
  · rintro l e r e' d rfl - hd - hd'
    exact verdict_downgraded hd hd'

end

/-- What is shown rests on the run's own notes and its workers exactly when no worker's note stands in for one. -/
theorem backed_iff_earned (first : Bool) (run : RunLite) (p : Playbook) (events : List EventLite)
    (workers : List RunLite) (receipts : List ReceiptLite) :
    Backed first run p events workers receipts ↔ Earned first run p events workers := by
  constructor
  · intro h n hge hle
    by_cases hn : ByWorkers first p workers n
    · exact .inl hn
    · exact .inr (own_of_backed h hge hle hn)
  · exact backed_of_earned

/-- A worker's note on a step of its own. -/
def workerNote (step : String) : EventLite where
  runUuid := "worker"
  ty := "tool_done"
  payload := .obj [("name",.str "record_decision"),("result",.obj [("ok",.bool true),("decision",.obj
    [("evidence",.str "/app/prs"),("outcome",.str "ok"),("step",.num step)])])]

def workerNotes : List EventLite := ["1","2","3"].map workerNote

def deployVerify : Playbook where
  id := "deploy-verify"
  steps := ["Lancer la mise en ligne","Suivre le build jusqu'au bout","Vérifier l'adresse publique"]
  usesWorkers := false
  three := rfl

/-- The run has noted nothing, and its three steps are ok. -/
theorem worker_notes_pass :
    (computeLive ⟨"run","completed",none⟩ (some deployVerify) workerNotes [⟨"worker","completed",none⟩] []).verdict = .ok ∧
    ∀ first, ¬Backed first ⟨"run","completed",none⟩ deployVerify workerNotes [⟨"worker","completed",none⟩] [] := by
  have hverdict : (computeLive ⟨"run","completed",none⟩ (some deployVerify) workerNotes
      [⟨"worker","completed",none⟩] []).verdict = .ok := by
    decide +kernel
  constructor
  · exact hverdict
  · intro first h
    have hnone : ∀ o, ¬Recorded ⟨"run","completed",none⟩ [⟨"worker","completed",none⟩] workerNotes 1 o := by
      rintro o ⟨e,he,huuid,-⟩
      obtain ⟨step,-,rfl⟩ := List.mem_map.mp he
      exact absurd huuid (show ("worker" : String) ≠ "run" by decide)
    obtain hr | hr | ⟨⟨huses,-⟩,-⟩ := h.backed hverdict 1 (le_refl 1) (by decide)
    · exact hnone _ hr
    · exact hnone _ hr
    · cases huses

end DevForge.StepsBacked
