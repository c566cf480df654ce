import DevForge.Sql
import DevForge.Transition
import Mathlib.Data.Finset.Card
import Mathlib.Logic.Function.Basic

/-!
# Causes of failed deployments

The failures of a project are counted by cause. The row of a cause keeps the deployment that was
registered last, and only that one is not counted again.
-/

set_option autoImplicit false

namespace DevForge.WakeCauses
open Transition

def KIND_DEPLOY_FAIL : String := "deploy_fail"

def SILENCE_WINDOW_HOURS : ℕ := 6

/-- A row of `agent_wake_causes` of the project. Instants are in seconds. -/
structure Cause where
  kind : String
  summary : String
  firstSeen : Instant
  lastSeen : Instant
  occurrences : ℕ
  lastAction : Option String
  lastWakeAt : Option Instant
  lastDepUuid : String
deriving DecidableEq, Repr

def Cause.resolved (c : Cause) : Bool := c.lastAction = some "resolved"

inductive WakeDecision where
  | normal
  | escalate
  | silent
deriving DecidableEq, Repr

def decideWake (occurrences : ℕ) (lastAction : Option String) (lastWakeAt : Option Instant) (now : Instant) :
    WakeDecision :=
  if occurrences ≤ 1 || lastAction = some "resolved" then .normal
  else if 3 ≤ occurrences && lastWakeAt.any (fun t => now < t+SILENCE_WINDOW_HOURS*3600) then .silent
  else .escalate

structure CauseState where
  hash : String
  occurrences : ℕ
  lastAction : Option String
  firstSeen : Instant
  decision : WakeDecision
deriving DecidableEq, Repr

structure State where
  now : Instant
  causes : String → Option Cause
  /-- The deployments registered against each cause since it was last resolved. -/
  counted : String → Finset String

def start (now : Instant) : State := ⟨now,fun _ => none,fun _ => ∅⟩

/-- The `ON CONFLICT DO UPDATE`; nothing if `occurrences` overflows. -/
def Cause.again (c : Cause) (summary dep : String) (now : Instant) : Option Cause :=
  if c.lastDepUuid = dep then some { c with lastSeen := now, summary := summary }
  else if c.resolved then
    some { c with
      occurrences := 1
      firstSeen := now
      lastAction := none
      lastSeen := now
      summary := summary
      lastDepUuid := dep }
  else if c.occurrences+1 < 2^31 then
    some { c with occurrences := c.occurrences+1, lastSeen := now, summary := summary, lastDepUuid := dep }
  else none

/-- The row after the INSERT. -/
def upsert (old : Option Cause) (kind summary dep : String) (now : Instant) : Option Cause :=
  match old with
  | none => some ⟨kind,summary,now,now,1,none,none,dep⟩
  | some c => c.again summary dep now

section
variable (causeHash : String → String → String)

def registerFailure (kind summary dep : String) (s : State) : Option (CauseState × State) :=
  (upsert (s.causes (causeHash kind summary)) kind summary dep s.now).map (fun c =>
    (⟨causeHash kind summary,c.occurrences,c.lastAction,c.firstSeen,
        decideWake c.occurrences c.lastAction c.lastWakeAt s.now⟩,
      { s with
        causes := Function.update s.causes (causeHash kind summary) (some c)
        counted := Function.update s.counted (causeHash kind summary)
          (insert dep (s.counted (causeHash kind summary))) }))

def markWoken (hash : String) (s : State) : State :=
  let woken := (s.causes hash).map (fun c => { c with lastWakeAt := some s.now })
  { s with causes := Function.update s.causes hash woken }

def isDeployFail (c : Option Cause) : Bool := c.any (fun c => c.kind = KIND_DEPLOY_FAIL)

def resolveDeployCauses (s : State) : State :=
  { s with
    causes := fun h => (s.causes h).map (fun c =>
      if c.kind = KIND_DEPLOY_FAIL then { c with lastAction := some "resolved" } else c)
    counted := fun h => if isDeployFail (s.causes h) then ∅ else s.counted h }

/-- What a wake has led to. -/
inductive RunAction where
  | pushed
  | escalated
  | localFix
deriving DecidableEq, Repr

def RunAction.text : RunAction → String
  | .pushed => "pushed"
  | .escalated => "escalated"
  | .localFix => "local_fix"

def recordRunAction (hash : String) (action : RunAction) (s : State) : State :=
  let acted := (s.causes hash).map (fun c => if c.resolved then c else { c with lastAction := some action.text })
  { s with causes := Function.update s.causes hash acted }

inductive Action where
  | tick (seconds : ℕ)
  | register (kind summary dep : String)
  | resolve
  | woken (hash : String)
  | acted (hash : String) (action : RunAction)
deriving DecidableEq, Repr

/-- A registration that fails counts nothing. -/
def step (s : State) : Action → State
  | .tick seconds => { s with now := s.now+seconds }
  | .register kind summary dep => ((registerFailure causeHash kind summary dep s).map Prod.snd).getD s
  | .resolve => resolveDeployCauses s
  | .woken hash => markWoken hash s
  | .acted hash action => recordRunAction hash action s

/-- An open cause has been seen as often as deployments are registered against it. -/
def Counted (s : State) : Prop :=
  ∀ h c, s.causes h = some c → c.resolved = false → c.occurrences = (s.counted h).card

/-- A deployment that is counted already is not counted again. -/
def NotAgain (s : State) : Action → Prop
  | .register kind summary dep => ∀ c c', s.causes (causeHash kind summary) = some c → c.resolved = false →
      dep ∈ s.counted (causeHash kind summary) →
      (step causeHash s (.register kind summary dep)).causes (causeHash kind summary) = some c' →
      c'.occurrences = c.occurrences ∧ c'.lastAction = c.lastAction ∧ c'.firstSeen = c.firstSeen
  | _ => True

/-- The deployment is the one registered last, or new since the cause was resolved; and the first new
one after that does not follow a registration of the last one before it. -/
def Orderly (s : State) : Action → Prop
  | .register kind summary dep => ∀ c, s.causes (causeHash kind summary) = some c → c.lastDepUuid ≠ dep →
      if c.resolved then s.counted (causeHash kind summary) = ∅
      else c.occurrences+1 < 2^31 → dep ∉ s.counted (causeHash kind summary)
  | _ => True

/-! ## A step -/

structure Inv (s : State) : Prop where
  counted : Counted s
  last : ∀ h c, s.causes h = some c → c.resolved = false → c.lastDepUuid ∈ s.counted h
  /-- Between its resolution and the next new deployment, only the last one is registered. -/
  resolved : ∀ h c, s.causes h = some c → c.resolved = true → s.counted h ⊆ {c.lastDepUuid}
  absent : ∀ h, s.causes h = none → s.counted h = ∅

theorem inv_start (now : Instant) : Inv (start now) := ⟨nofun,nofun,nofun,fun _ _ => rfl⟩

/-- What the invariant says of one cause. -/
structure Fits (c : Option Cause) (deps : Finset String) : Prop where
  counted : ∀ d, c = some d → d.resolved = false → d.occurrences = deps.card
  last : ∀ d, c = some d → d.resolved = false → d.lastDepUuid ∈ deps
  resolved : ∀ d, c = some d → d.resolved = true → deps ⊆ {d.lastDepUuid}
  absent : c = none → deps = ∅

theorem inv_iff (s : State) : Inv s ↔ ∀ h, Fits (s.causes h) (s.counted h) := by
  constructor
  · exact fun h k => ⟨h.counted k,h.last k,h.resolved k,h.absent k⟩
  · intro h
    exact ⟨fun k => (h k).counted,fun k => (h k).last,fun k => (h k).resolved,fun k => (h k).absent⟩

/-- One cause changes, the others stay as they are. -/
theorem fits_update {s : State} (hs : ∀ h, Fits (s.causes h) (s.counted h)) {k : String} {c : Option Cause}
    {deps : Finset String} (hk : Fits c deps) (h : String) :
    Fits (Function.update s.causes k c h) (Function.update s.counted k deps h) := by
  by_cases he : h = k
  · subst he
    rwa [Function.update_self, Function.update_self]
  · rw [Function.update_of_ne he, Function.update_of_ne he]
    exact hs h

theorem fits_row {s : State} (hs : ∀ h, Fits (s.causes h) (s.counted h)) {k : String} {c : Option Cause}
    (hk : Fits c (s.counted k)) (h : String) : Fits (Function.update s.causes k c h) (s.counted h) := by
  by_cases he : h = k
  · subst he
    rwa [Function.update_self]
  · rw [Function.update_of_ne he]
    exact hs h

theorem fits_open {c : Cause} {deps : Finset String} (hopen : c.resolved = false) (hcount : c.occurrences = deps.card)
    (hlast : c.lastDepUuid ∈ deps) : Fits (some c) deps where
  counted d hd _ := by
    cases hd
    exact hcount
  last d hd _ := by
    cases hd
    exact hlast
  resolved d hd hr := by
    cases hd
    exact absurd hr (by simp [hopen])
  absent h := nomatch h

/-- A change of a row that keeps what is counted. -/
theorem Fits.map {c : Option Cause} {deps : Finset String} (h : Fits c deps) {f : Cause → Cause}
    (hf : ∀ d, (f d).occurrences = d.occurrences ∧ (f d).lastDepUuid = d.lastDepUuid ∧ (f d).resolved = d.resolved) :
    Fits (c.map f) deps := by
  cases c with
  | none => exact ⟨nofun,nofun,nofun,fun _ => h.absent rfl⟩
  | some d =>
    obtain ⟨ho,hl,hr⟩ := hf d
    refine ⟨?_,?_,?_,nofun⟩
    · intro e he hopen
      cases he
      rw [ho, h.counted d rfl (hr ▸ hopen)]
    · intro e he hopen
      cases he
      rw [hl]
      exact h.last d rfl (hr ▸ hopen)
    · intro e he hres
      cases he
      rw [hl]
      exact h.resolved d rfl (hr ▸ hres)

/-- A registration in order fits. -/
theorem Fits.upsert {old : Option Cause} {deps : Finset String} (h : Fits old deps) {kind summary dep : String}
    {now : Instant} {c : Cause} (hc : WakeCauses.upsert old kind summary dep now = some c)
    (ho : ∀ d, old = some d → d.lastDepUuid ≠ dep →
      if d.resolved then deps = ∅ else d.occurrences+1 < 2^31 → dep ∉ deps) :
    Fits (some c) (insert dep deps) := by
  cases old with
  | none =>
    cases hc
    rw [h.absent rfl]
    exact fits_open rfl rfl (Finset.mem_insert_self _ _)
  | some d =>
    simp only [WakeCauses.upsert, Cause.again] at hc
    split at hc
    · next hlast =>
      cases hc
      cases hr : d.resolved with
      | false =>
        have hmem : dep ∈ deps := hlast ▸ h.last d rfl hr
        rw [Finset.insert_eq_self.mpr hmem]
        exact fits_open hr (h.counted d rfl hr) (h.last d rfl hr)
      | true =>
        have hsub := h.resolved d rfl hr
        refine ⟨?_,?_,?_,nofun⟩
        · intro e he hopen
          cases he
          exact absurd hr (by simp [show d.resolved = false from hopen])
        · intro e he hopen
          cases he
          exact absurd hr (by simp [show d.resolved = false from hopen])
        · intro e he _
          cases he
          rw [hlast] at hsub ⊢
          exact Finset.insert_subset (Finset.mem_singleton_self _) hsub
    · next hlast =>
      have ho := ho d rfl hlast
      split at hc
      · next hr =>
        cases hc
        rw [if_pos hr] at ho
        rw [ho]
        exact fits_open rfl rfl (Finset.mem_insert_self _ _)
      · next hr =>
        split at hc
        · next hlt =>
          cases hc
          rw [if_neg hr] at ho
          have hr : d.resolved = false := Bool.eq_false_of_not_eq_true hr
          apply fits_open
          · exact hr
          · rw [Finset.card_insert_of_notMem (ho hlt)]
            exact congrArg (· + 1) (h.counted d rfl hr)
          · exact Finset.mem_insert_self _ _
        · cases hc

theorem register_step (s : State) (kind summary dep : String) :
    (WakeCauses.upsert (s.causes (causeHash kind summary)) kind summary dep s.now = none ∧
      step causeHash s (.register kind summary dep) = s) ∨
    ∃ c, WakeCauses.upsert (s.causes (causeHash kind summary)) kind summary dep s.now = some c ∧
      step causeHash s (.register kind summary dep) = { s with
        causes := Function.update s.causes (causeHash kind summary) (some c)
        counted := Function.update s.counted (causeHash kind summary)
          (insert dep (s.counted (causeHash kind summary))) } := by
  simp only [step, registerFailure]
  cases WakeCauses.upsert (s.causes (causeHash kind summary)) kind summary dep s.now with
  | none => exact Or.inl ⟨rfl,rfl⟩
  | some c => exact Or.inr ⟨c,rfl,rfl⟩

theorem Fits.resolve {c : Option Cause} {deps : Finset String} (h : Fits c deps) :
    Fits (c.map (fun c => if c.kind = KIND_DEPLOY_FAIL then { c with lastAction := some "resolved" } else c))
      (if isDeployFail c then ∅ else deps) := by
  cases c with
  | none => exact ⟨nofun,nofun,nofun,fun _ => h.absent rfl⟩
  | some d =>
    by_cases hk : d.kind = KIND_DEPLOY_FAIL
    · rw [if_pos (by simpa [isDeployFail] using hk)]
      refine ⟨?_,?_,?_,nofun⟩
      · intro e he hopen
        rw [Option.map_some, if_pos hk] at he
        cases he
        exact absurd hopen (by simp [Cause.resolved])
      · intro e he hopen
        rw [Option.map_some, if_pos hk] at he
        cases he
        exact absurd hopen (by simp [Cause.resolved])
      · exact fun e _ _ => Finset.empty_subset _
    · rw [if_neg (by simpa [isDeployFail] using hk), Option.map_some, if_neg hk]
      exact h

theorem RunAction.not_resolved (a : RunAction) : a.text ≠ "resolved" := by
  cases a <;> decide

theorem Inv.step {s : State} (h : Inv s) (a : Action) (ho : Orderly causeHash s a) :
    Inv (WakeCauses.step causeHash s a) := by
  rw [inv_iff] at h ⊢
  cases a with
  | tick seconds => exact h
  | register kind summary dep =>
    rcases register_step causeHash s kind summary dep with ⟨-,hs⟩ | ⟨c,hc,hs⟩
    · rw [hs]
      exact h
    · rw [hs]
      exact fits_update h ((h _).upsert hc ho)
  | resolve => exact fun k => (h k).resolve
  | woken hash => exact fits_row h ((h hash).map (fun _ => ⟨rfl,rfl,rfl⟩))
  | acted hash action =>
    apply fits_row h
    apply (h hash).map
    intro d
    split
    · exact ⟨rfl,rfl,rfl⟩
    · next hr =>
      have hopen : d.resolved = false := Bool.eq_false_of_not_eq_true hr
      exact ⟨rfl,rfl,by rw [hopen]; simp [Cause.resolved, action.not_resolved]⟩

/-- A registration after which everything is counted once was in order. -/
theorem orderly_of_counted {s : State} (h : Inv s) (a : Action) (hc : Counted (step causeHash s a))
    (hn : NotAgain causeHash s a) : Orderly causeHash s a := by
  cases a with
  | register kind summary dep =>
    intro c hrow hlast
    have hupsert : WakeCauses.upsert (s.causes (causeHash kind summary)) kind summary dep s.now = c.again summary dep s.now := by
      rw [hrow]
      rfl
    rcases register_step causeHash s kind summary dep with ⟨hnone,hs⟩ | ⟨d,hd,hs⟩
    · rw [hupsert, Cause.again, if_neg hlast] at hnone
      split
      · next hr => simp [hr] at hnone
      · next hr =>
        intro hlt
        rw [if_neg hr, if_pos hlt] at hnone
        cases hnone
    · rw [hupsert, Cause.again, if_neg hlast] at hd
      have hafter : (step causeHash s (.register kind summary dep)).causes (causeHash kind summary) = some d := by
        rw [hs]
        exact Function.update_self _ _ _
      split
      · next hr =>
        rw [if_pos hr] at hd
        cases hd
        have hone := hc _ _ hafter rfl
        rw [hs] at hone
        simp only [Function.update_self] at hone
        have hsub := h.resolved _ c hrow hr
        by_contra hne
        have hmem : c.lastDepUuid ∈ s.counted (causeHash kind summary) := by
          obtain ⟨x,hx⟩ := Finset.nonempty_iff_ne_empty.mpr hne
          rwa [← Finset.mem_singleton.mp (hsub hx)]
        obtain ⟨x,hx⟩ := Finset.card_eq_one.mp hone.symm
        have hdep : dep = x := Finset.mem_singleton.mp (hx ▸ Finset.mem_insert_self _ _)
        have hold : c.lastDepUuid = x := Finset.mem_singleton.mp (hx ▸ Finset.mem_insert_of_mem hmem)
        exact hlast (hold.trans hdep.symm)
      · next hr =>
        intro hlt hmem
        rw [if_neg hr, if_pos hlt] at hd
        cases hd
        have hsame := (hn c _ hrow (Bool.eq_false_of_not_eq_true hr) hmem hafter).1
        exact absurd hsame (Nat.succ_ne_self _)
  | _ => trivial

theorem notAgain_of_orderly {s : State} (a : Action) (ho : Orderly causeHash s a) : NotAgain causeHash s a := by
  cases a with
  | register kind summary dep =>
    intro c d hrow hopen hmem hafter
    rcases register_step causeHash s kind summary dep with ⟨-,hs⟩ | ⟨e,he,hs⟩
    · rw [hs, hrow] at hafter
      cases hafter
      exact ⟨rfl,rfl,rfl⟩
    · rw [hs] at hafter
      simp only [Function.update_self, Option.some_inj] at hafter
      subst hafter
      rw [hrow] at he
      simp only [WakeCauses.upsert, Cause.again] at he
      by_cases hlast : c.lastDepUuid = dep
      · rw [if_pos hlast] at he
        cases he
        exact ⟨rfl,rfl,rfl⟩
      · have ho := ho c hrow hlast
        rw [hopen, if_neg Bool.false_ne_true] at ho
        rw [if_neg hlast, hopen, if_neg Bool.false_ne_true] at he
        split at he
        · next hlt => exact absurd hmem (ho hlt)
        · cases he
  | _ => trivial

/-! ## Runs -/

/-- Each deployment is counted once, in every state of a run and by every registration, exactly when
the registrations are in order. -/
theorem counted_once_iff (now : Instant) (acts : List Action) :
    Guarded (step causeHash) (fun s a => Counted (step causeHash s a) ∧ NotAgain causeHash s a) acts (start now) ↔
      Guarded (step causeHash) (Orderly causeHash) acts (start now) :=
  guarded_congr_within (step causeHash) Inv (fun _ a h ho => h.step causeHash a ho)
    (fun _ a h => ⟨fun hr => orderly_of_counted causeHash h a hr.1 hr.2,
      fun ho => ⟨(h.step causeHash a ho).counted,notAgain_of_orderly causeHash a ho⟩⟩) acts _ (inv_start now)

end

/-- A hash that tells these causes apart. -/
def sampleHash (kind summary : String) : String := kind++"\n"++summary

/-- Two deployments fail, and the first of them is registered again. -/
def firstAgain : List Action :=
  [.register KIND_DEPLOY_FAIL "npm ci" "dep-1",.register KIND_DEPLOY_FAIL "npm ci" "dep-2",
    .register KIND_DEPLOY_FAIL "npm ci" "dep-1"]

theorem first_counted_twice : ¬∀ (causeHash : String → String → String) (now : Instant) (acts : List Action),
    Guarded (step causeHash) (fun s a => Counted (step causeHash s a) ∧ NotAgain causeHash s a) acts (start now) := by
  intro h
  have hcounted : Counted (run (step sampleHash) firstAgain (start 0)) := (h sampleHash 0 firstAgain).2.2.1.1
  have hrow : (run (step sampleHash) firstAgain (start 0)).causes (sampleHash KIND_DEPLOY_FAIL "npm ci") =
      some ⟨KIND_DEPLOY_FAIL,"npm ci",0,0,3,none,none,"dep-1"⟩ := by decide +kernel
  have hcard : ((run (step sampleHash) firstAgain (start 0)).counted (sampleHash KIND_DEPLOY_FAIL "npm ci")).card = 2 := by
    decide +kernel
  exact absurd ((hcounted _ _ hrow rfl).trans hcard) (by decide)

end DevForge.WakeCauses
