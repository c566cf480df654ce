import DevForge.SpecApprovals

/-!
# One implementer per attempt

While calls on a spec follow one another, and none of them is cut off once the
spec is marked, every attempt gets one run and no second one.
-/

set_option autoImplicit false

namespace DevForge.OneImplementer
open SpecApprovals Transition

def Idle (s : State) : Prop := ∀ c ∈ s.calls, c.pc.isReturned

instance (s : State) : Decidable (Idle s) := by unfold Idle; infer_instance

structure OneRun (s : State) : Prop where
  once : (s.runs.map Run.attempt).Nodup
  running : Idle s → ∀ st, s.file = some st → st.phase = .implement →
    ∃ r ∈ s.runs, r.attempt = st.attempt ∧ st.workerUuid = some r.agentUuid

/-- A call begins when no other one is in progress, and none fails once it has
marked the spec. -/
def Orderly (s : State) : Action → Prop
  | .call _ => Idle s
  | .next _ _ => True
  | .fail n _ => ∀ c ∈ s.calls[n]?, c.pc.unmarked ∨ c.pc.isReturned

instance (s : State) (a : Action) : Decidable (Orderly s a) := by
  unfold Orderly
  split <;> infer_instance

/-! ## What holds of the file and the runs -/

structure Base (file : Option FeatureStatus) (runs : List Run) : Prop where
  once : (runs.map Run.attempt).Nodup
  past : ∀ st, file = some st → ∀ r ∈ runs, r.attempt.1 ≤ st.round
  fresh : ∀ st, file = some st → st.phase = .awaitingValidation → runs = []

/-- The attempt of a status that no run stands for yet. -/
def NoRun (runs : List Run) (st : FeatureStatus) : Prop := ∀ r ∈ runs, r.attempt ≠ st.attempt

def Covered (runs : List Run) (st : FeatureStatus) : Prop :=
  ∃ r ∈ runs, r.attempt = st.attempt ∧ st.workerUuid = some r.agentUuid

def Settled (file : Option FeatureStatus) (runs : List Run) : Prop :=
  ∀ st, file = some st → st.phase = .implement → Covered runs st

/-- The spec is marked for the status that a call holds. -/
def Marked (file : Option FeatureStatus) (st : FeatureStatus) : Prop :=
  file = some st ∧ st.phase = .implement

/-- What a call may store. -/
def StoreOk (caller : Caller) (runs : List Run) (st : FeatureStatus) : Prop :=
  (∀ r ∈ runs, r.attempt.1 ≤ st.round) ∧
    match caller with
    | .refuse _ => st.phase = .rejected
    | _ => st.phase = .implement ∧ NoRun runs st

def PcOk (caller : Caller) (file : Option FeatureStatus) (runs : List Run) : Pc → Prop
  | .read => Settled file runs
  | .load => Settled file runs
  | .store st => Settled file runs ∧ StoreOk caller runs st
  | .plan st => Marked file st ∧ NoRun runs st
  | .block st => Marked file st ∧ NoRun runs st
  | .coordinator st _ => Marked file st ∧ NoRun runs st
  | .worker st _ => Marked file st ∧ NoRun runs st
  | .message st _ _ => Marked file st ∧ NoRun runs st
  | .run st _ _ => Marked file st ∧ NoRun runs st
  | .record st _ worker => Marked file st ∧ ∃ r ∈ runs, r.attempt = st.attempt ∧ r.agentUuid = worker
  | .returned _ => True

structure Inv (s : State) : Prop where
  base : Base s.file s.runs
  settled : Idle s → Settled s.file s.runs
  active : ∀ (n : ℕ) c, s.calls[n]? = some c → c.pc.isReturned = false →
    PcOk c.caller s.file s.runs c.pc ∧ ∀ (m : ℕ) c', s.calls[m]? = some c' → m ≠ n → c'.pc.isReturned

theorem start_inv (slug title : String) (now : Instant) : Inv (SpecApprovals.start slug title now) where
  base := by constructor <;> simp [SpecApprovals.start]
  settled _ st hst hp := by
    simp only [SpecApprovals.start, Option.some.injEq] at hst
    rw [← hst] at hp
    exact absurd hp (by simp [specify])
  active n c hc := by simp [SpecApprovals.start] at hc

/-- The rule for a step of the only call in progress. -/
theorem Inv.move {s : State} (h : Inv s) {n : ℕ} {c : Call} (hc : s.calls[n]? = some c)
    (ha : c.pc.isReturned = false) (s' : State) (pc : Pc)
    (hcalls : s'.calls = s.calls.set n { c with pc := pc }) (hb : Base s'.file s'.runs)
    (hp : PcOk c.caller s'.file s'.runs pc) (hs : pc.isReturned → Settled s'.file s'.runs) : Inv s' := by
  have hn : n < s.calls.length := (List.getElem?_eq_some_iff.mp hc).1
  have hnew : s'.calls[n]? = some { c with pc := pc } := by
    rw [hcalls, List.getElem?_set_self hn]
  have hother : ∀ m, m ≠ n → s'.calls[m]? = s.calls[m]? := by
    intro m hm
    rw [hcalls, List.getElem?_set_ne (Ne.symm hm)]
  have hret := (h.active n c hc ha).2
  refine ⟨hb,fun hi => hs (hi _ (List.mem_of_getElem? hnew)),?_⟩
  intro m c' hm hact
  by_cases hmn : m = n
  · subst hmn
    obtain rfl : c' = { c with pc := pc } := Option.some.inj (hm.symm.trans hnew)
    refine ⟨hp,fun k c'' hk hkn => ?_⟩
    rw [hother k hkn] at hk
    exact hret k c'' hk hkn
  · rw [hother m hmn] at hm
    rw [hret m c' hm hmn] at hact
    exact absurd hact (by simp)

theorem approve_ok {now : Instant} {file : Option FeatureStatus} {runs : List Run}
    {st : FeatureStatus} (hb : Base file runs) (h : approve now file = .ok st) :
    (∀ r ∈ runs, r.attempt.1 ≤ st.round) ∧ st.phase = .implement ∧ NoRun runs st := by
  cases file with
  | none => simp [approve] at h
  | some old =>
    by_cases hp : old.phase = .awaitingValidation
    · have hruns := hb.fresh old rfl hp
      simp only [approve, hp, ne_eq, not_true_eq_false, if_false, Except.ok.injEq] at h
      subst h
      simp [hruns, NoRun]
    · simp [approve, hp] at h

/-- A reopened spec stands for a new attempt. -/
theorem reopenForRetry_ok {now : Instant} {file : Option FeatureStatus} {runs : List Run}
    {st : FeatureStatus} (hb : Base file runs) (h : reopenForRetry now file = .ok st) :
    (∀ r ∈ runs, r.attempt.1 ≤ st.round) ∧ st.phase = .implement ∧ NoRun runs st := by
  cases file with
  | none => simp [reopenForRetry] at h
  | some old =>
    have hpast := hb.past old rfl
    simp only [reopenForRetry] at h
    split at h
    · simp at h
    split at h
    · simp at h
    · simp only [Except.ok.injEq] at h
      subst h
      refine ⟨fun r hr => Nat.le_succ_of_le (hpast r hr),rfl,fun r hr he => ?_⟩
      have hround : r.attempt.1 = old.round+1 := congrArg Prod.fst he
      have := hpast r hr
      omega

theorem reject_ok {note : String} {now : Instant} {file : Option FeatureStatus} {runs : List Run}
    {st : FeatureStatus} (hb : Base file runs) (h : reject note now file = .ok st) :
    (∀ r ∈ runs, r.attempt.1 ≤ st.round) ∧ st.phase = .rejected := by
  cases file with
  | none => simp [reject] at h
  | some old =>
    have hpast := hb.past old rfl
    simp only [reject] at h
    split at h
    · simp at h
    · simp only [Except.ok.injEq] at h
      subst h
      exact ⟨hpast,rfl⟩

theorem load_ok {caller : Caller} {now : Instant} {file : Option FeatureStatus} {runs : List Run}
    {st : FeatureStatus} (hb : Base file runs) (h : load caller now file = .ok st) :
    StoreOk caller runs st := by
  cases caller with
  | agent => exact approve_ok hb h
  | user => exact approve_ok hb h
  | retry => exact reopenForRetry_ok hb h
  | refuse note => exact reject_ok hb h

/-- A status of no later phase stands for no run that is not known. -/
theorem Base.store {file : Option FeatureStatus} {runs : List Run} (hb : Base file runs)
    (st : FeatureStatus) (hle : ∀ r ∈ runs, r.attempt.1 ≤ st.round)
    (hp : st.phase ≠ .awaitingValidation) : Base (some st) runs where
  once := hb.once
  past st' hst' := by
    obtain rfl : st = st' := Option.some.inj hst'
    exact hle
  fresh st' hst' hw := by
    obtain rfl : st = st' := Option.some.inj hst'
    exact absurd hw hp

theorem Base.concat {file : Option FeatureStatus} {runs : List Run} {st : FeatureStatus} {r : Run}
    (hb : Base file runs) (hm : Marked file st) (hno : NoRun runs st) (hr : r.attempt = st.attempt) :
    Base file (runs++[r]) where
  once := by
    rw [List.map_append, List.map_singleton, List.nodup_append]
    refine ⟨hb.once,by simp,fun x hx y hy => ?_⟩
    obtain ⟨r',hr',rfl⟩ := List.mem_map.mp hx
    obtain rfl := List.mem_singleton.mp hy
    rw [hr]
    exact hno r' hr'
  past st' hst' r' hr' := by
    rcases List.mem_append.mp hr' with hr' | hr'
    · exact hb.past st' hst' r' hr'
    · obtain rfl := List.mem_singleton.mp hr'
      obtain rfl : st = st' := Option.some.inj (hm.1.symm.trans hst')
      rw [hr]
      exact le_refl st.round
  fresh st' hst' hp := by
    obtain rfl : st = st' := Option.some.inj (hm.1.symm.trans hst')
    rw [hm.2] at hp
    exact absurd hp (by simp)

theorem next_inv (s : State) (h : Inv s) (n : ℕ) (c : Call) (hc : s.calls[n]? = some c) (o : Oracle) :
    Inv (s.next n c o) := by
  cases hpc : c.pc with
  | returned reply => simpa [State.next, hpc] using h
  | read =>
    have ha : c.pc.isReturned = false := by rw [hpc]; rfl
    have hok : Settled s.file s.runs := by simpa [hpc, PcOk] using (h.active n c hc ha).1
    have hload : Inv (s.goto n c .load) :=
      h.move hc ha _ .load rfl h.base hok (fun hr => absurd hr (by simp [Pc.isReturned]))
    simp only [State.next, hpc]
    cases hf : s.file with
    | none => exact hload
    | some st =>
      dsimp only
      split
      · rename_i hp
        obtain ⟨r,hr,hat,hw⟩ := hok st hf hp
        rw [hw]
        exact h.move hc ha _ (.returned (.alreadyStarted r.agentUuid)) rfl h.base trivial (fun _ => hok)
      · exact hload
  | load =>
    have ha : c.pc.isReturned = false := by rw [hpc]; rfl
    have hok : Settled s.file s.runs := by simpa [hpc, PcOk] using (h.active n c hc ha).1
    simp only [State.next, hpc]
    cases hl : load c.caller o.now s.file with
    | error e => exact h.move hc ha _ (.returned (.error e)) rfl h.base trivial (fun _ => hok)
    | ok st =>
      exact h.move hc ha _ (.store st) rfl h.base ⟨hok,load_ok h.base hl⟩
        (fun hr => absurd hr (by simp [Pc.isReturned]))
  | store st =>
    have ha : c.pc.isReturned = false := by rw [hpc]; rfl
    have hok : Settled s.file s.runs ∧ StoreOk c.caller s.runs st := by
      simpa [hpc, PcOk] using (h.active n c hc ha).1
    obtain ⟨_,hle,hst⟩ := hok
    simp only [State.next, hpc]
    cases hcaller : c.caller with
    | refuse note =>
      simp only [hcaller] at hst
      refine h.move hc ha _ (.returned .refused) rfl
        (h.base.store st hle (by simp [hst])) trivial (fun _ st' hst' hp => ?_)
      obtain rfl : st = st' := Option.some.inj hst'
      exact absurd hp (by simp [hst])
    | agent =>
      simp only [hcaller] at hst
      exact h.move hc ha _ (.plan st) rfl (h.base.store st hle (by simp [hst.1]))
        ⟨⟨rfl,hst.1⟩,hst.2⟩ (fun hr => absurd hr (by simp [Pc.isReturned]))
    | user =>
      simp only [hcaller] at hst
      exact h.move hc ha _ (.plan st) rfl (h.base.store st hle (by simp [hst.1]))
        ⟨⟨rfl,hst.1⟩,hst.2⟩ (fun hr => absurd hr (by simp [Pc.isReturned]))
    | retry =>
      simp only [hcaller] at hst
      exact h.move hc ha _ (.plan st) rfl (h.base.store st hle (by simp [hst.1]))
        ⟨⟨rfl,hst.1⟩,hst.2⟩ (fun hr => absurd hr (by simp [Pc.isReturned]))
  | plan st =>
    have ha : c.pc.isReturned = false := by rw [hpc]; rfl
    have hok : Marked s.file st ∧ NoRun s.runs st := by
      simpa [hpc, PcOk] using (h.active n c hc ha).1
    have hgo : ∀ pc : Pc, pc.isReturned = false → PcOk c.caller s.file s.runs pc →
        Inv (s.goto n c pc) := fun pc hr hp =>
      h.move hc ha _ pc rfl h.base hp (fun ht => absurd ht (by simp [hr]))
    simp only [State.next, hpc]
    split
    · exact hgo (.block st) rfl hok
    · exact hgo (.coordinator st _) rfl hok
    · exact hgo (.coordinator st "") rfl hok
  | block st =>
    have ha : c.pc.isReturned = false := by rw [hpc]; rfl
    have hok : Marked s.file st ∧ NoRun s.runs st := by
      simpa [hpc, PcOk] using (h.active n c hc ha).1
    simp only [State.next, hpc]
    refine h.move hc ha _ (.returned .blocked) rfl
      (h.base.store _ (h.base.past st hok.1.1) (by simp [blockNoToolProvider])) trivial
      (fun _ st' hst' hp => ?_)
    obtain rfl : blockNoToolProvider o.now st = st' := Option.some.inj hst'
    exact absurd hp (by simp [blockNoToolProvider])
  | coordinator st label =>
    have ha : c.pc.isReturned = false := by rw [hpc]; rfl
    have hok : Marked s.file st ∧ NoRun s.runs st := by
      simpa [hpc, PcOk] using (h.active n c hc ha).1
    simp only [State.next, hpc]
    exact h.move hc ha _ (.worker st label) rfl h.base hok (fun hr => absurd hr (by simp [Pc.isReturned]))
  | worker st label =>
    have ha : c.pc.isReturned = false := by rw [hpc]; rfl
    have hok : Marked s.file st ∧ NoRun s.runs st := by
      simpa [hpc, PcOk] using (h.active n c hc ha).1
    simp only [State.next, hpc]
    exact h.move hc ha _ (.message st label o.uuid) rfl h.base hok
      (fun hr => absurd hr (by simp [Pc.isReturned]))
  | message st label worker =>
    have ha : c.pc.isReturned = false := by rw [hpc]; rfl
    have hok : Marked s.file st ∧ NoRun s.runs st := by
      simpa [hpc, PcOk] using (h.active n c hc ha).1
    simp only [State.next, hpc]
    exact h.move hc ha _ (.run st label worker) rfl h.base hok
      (fun hr => absurd hr (by simp [Pc.isReturned]))
  | run st label worker =>
    have ha : c.pc.isReturned = false := by rw [hpc]; rfl
    obtain ⟨hm,hno⟩ : Marked s.file st ∧ NoRun s.runs st := by
      simpa [hpc, PcOk] using (h.active n c hc ha).1
    simp only [State.next, hpc]
    refine h.move hc ha _ (.record st label worker) rfl (h.base.concat hm hno rfl) ?_
      (fun hr => absurd hr (by simp [Pc.isReturned]))
    exact ⟨hm,_,List.mem_append_right _ (List.mem_singleton.mpr rfl),rfl,rfl⟩
  | record st label worker =>
    have ha : c.pc.isReturned = false := by rw [hpc]; rfl
    obtain ⟨hm,r,hr,hat,hw⟩ : Marked s.file st ∧
        ∃ r ∈ s.runs, r.attempt = st.attempt ∧ r.agentUuid = worker := by
      simpa [hpc, PcOk] using (h.active n c hc ha).1
    simp only [State.next, hpc]
    refine h.move hc ha _ (.returned (.started worker)) rfl
      (h.base.store _ (h.base.past st hm.1) (by simp [SpecApprovals.started, hm.2])) trivial
      (fun _ st' hst' _ => ?_)
    obtain rfl : SpecApprovals.started worker label st = st' := Option.some.inj hst'
    exact ⟨r,hr,hat,by simp [SpecApprovals.started, hw]⟩

theorem fail_inv (s : State) (h : Inv s) (n : ℕ) (c : Call) (hc : s.calls[n]? = some c)
    (error : String) (hu : c.pc.unmarked ∨ c.pc.isReturned) : Inv (s.fail n c error) := by
  unfold State.fail
  split
  · exact h
  rename_i hr
  have ha : c.pc.isReturned = false := by simpa using hr
  have hset : Settled s.file s.runs := by
    have hok := (h.active n c hc ha).1
    cases hpc : c.pc <;> simp [hpc, Pc.unmarked, Pc.isReturned, PcOk] at hu hok ha ⊢
    · exact hok
    · exact hok
    · exact hok.1
  exact h.move hc ha _ (.returned (.error error)) rfl h.base trivial (fun _ => hset)

theorem call_inv (s : State) (h : Inv s) (caller : Caller) (hi : Idle s) :
    Inv (step s (.call caller)) where
  base := h.base
  settled _ := h.settled hi
  active n c hc ha := by
    have hold : ∀ (m : ℕ) c', m < s.calls.length →
        (s.calls++[Call.mk caller (entry caller)])[m]? = some c' → c'.pc.isReturned := by
      intro m c' hm hc'
      rw [List.getElem?_append_left hm] at hc'
      exact hi c' (List.mem_of_getElem? hc')
    simp only [step] at hc ⊢
    by_cases hn : n < s.calls.length
    · rw [hold n c hn hc] at ha
      exact absurd ha (by simp)
    have hlen : n < s.calls.length+1 := by
      simpa using (List.getElem?_eq_some_iff.mp hc).1
    have hne : n = s.calls.length := by omega
    subst hne
    obtain rfl : Call.mk caller (entry caller) = c := by simpa using hc
    refine ⟨?_,fun m c' hm hmn => ?_⟩
    · cases caller <;> exact h.settled hi
    · have hm' : m < s.calls.length+1 := by
        simpa using (List.getElem?_eq_some_iff.mp hm).1
      exact hold m c' (by omega) hm

theorem step_inv (s : State) (a : Action) (h : Inv s) (ho : Orderly s a) : Inv (step s a) := by
  cases a with
  | call caller => exact call_inv s h caller ho
  | next n o =>
    simp only [step]
    split
    · exact next_inv s h n _ (by assumption) o
    · exact h
  | fail n error =>
    simp only [step]
    split
    · rename_i c hc
      exact fail_inv s h n c hc error (ho c hc)
    · exact h

/-- In an orderly run each attempt has at most one run, and a spec that is
marked as being implemented has one as soon as no call is in progress. -/
theorem one_run_per_attempt (slug title : String) (now : Instant) (acts : List Action)
    (hg : Guarded step Orderly acts (SpecApprovals.start slug title now)) :
    OneRun (run step acts (SpecApprovals.start slug title now)) := by
  have h : Inv (run step acts (SpecApprovals.start slug title now)) :=
    guarded_invariant _ _ Inv (fun s a hs ho => step_inv s a hs ho) acts _ (start_inv _ _ _) hg
  exact ⟨h.base.once,fun hi => h.settled hi⟩

/-! ## Two approvals at once -/

def ready : Oracle := ⟨1,some (true,"Gemini"),5⟩

def twice : Oracle := ⟨1,some (true,"Gemini"),6⟩

/-- An approval, a second one, and a refusal that comes too late. -/
def oneAfterTheOther : List Action :=
  [Action.call .agent]++List.replicate 9 (Action.next 0 ready)++[Action.call .agent]++[Action.next 1 twice]++
    [Action.call (.refuse "non"),.next 2 ready]

theorem oneAfterTheOther_one_run :
    OneRun (run step oneAfterTheOther (SpecApprovals.start "compteur" "Compteur" 0)) :=
  one_run_per_attempt "compteur" "Compteur" 0 oneAfterTheOther (by decide +kernel)

/-- The second approval reads the spec before the worker of the first is recorded. -/
def bothAtOnce : List Action :=
  [Action.call .agent]++List.replicate 4 (Action.next 0 ready)++[Action.call .agent]++List.replicate 6 (Action.next 1 twice)++
    List.replicate 5 (Action.next 0 ready)

theorem bothAtOnce_two_runs : ¬ ∀ (slug title : String) (now : Instant) (acts : List Action),
    OneRun (run step acts (SpecApprovals.start slug title now)) := by
  intro h
  have ho := (h "compteur" "Compteur" 0 bothAtOnce).once
  revert ho
  decide +kernel

end DevForge.OneImplementer
