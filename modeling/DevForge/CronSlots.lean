import DevForge.MemoryRules
import DevForge.Transition
import Mathlib.Logic.Function.Basic

/-!
# Slots of a project cron

A tick takes the crons that are due and executes them; manual runs execute a cron at any time, and
updates change its expression and timezone. Each of them computes the next slot from the row it has
read and stores it later. A run interleaves their steps in any order, while time passes.
-/

set_option autoImplicit false

namespace DevForge.CronSlots
open MemoryRules (splitWhitespace)
open Transition

/-- What the cron crate and the timezone database provide. -/
structure Schedules where
  Schedule : Type
  Tz : Type
  utc : Tz
  fromStr : String → Option Schedule
  parseTz : String → Option Tz
  upcoming : Schedule → Tz → Instant → Option Instant

structure ProjectCron where
  name : String
  cronExpression : String
  command : String
  enabled : Bool
  timezone : Option String
  lastStatus : Option String
  lastRunAt : Option Instant
  nextRunAt : Option Instant
  kind : Option String
deriving DecidableEq, Repr

def isAgentRoutine (cron : ProjectCron) : Bool := cron.kind = some "agent"

structure UpdateCronRequest where
  name : Option String
  cronExpression : Option String
  command : Option String
  enabled : Option Bool
  timezone : Option String
deriving DecidableEq, Repr

/-- Five fields get the seconds. -/
def normalizeCronExpression (expr : String) : String :=
  if (splitWhitespace expr.toList).length = 5 then "0 "++expr else expr

variable (C : Schedules)

def validateCronExpression (expr : String) : Bool := (C.fromStr (normalizeCronExpression expr)).isSome

def nextRunTime (expr : String) (timezone : Option String) (now : Instant) : Option Instant :=
  (C.fromStr (normalizeCronExpression expr)).bind (fun schedule =>
    C.upcoming schedule ((timezone.bind C.parseTz).getD C.utc) now)

/-- An execution or an update: what it has read, and what it has computed. -/
inductive Proc where
  | idle
  | started (cron : ProjectCron)
  | computed (cron : ProjectCron) (next : Option Instant) (at_ : Instant)
  | routine (cron : ProjectCron) (next : Option Instant) (at_ : Instant)
  | updating (existing : ProjectCron) (req : UpdateCronRequest)
  | merged (cron : ProjectCron) (at_ : Instant)
deriving DecidableEq, Repr

/-- `computedAt` is the last time the stored slot was computed, `fired` the slots ticks have taken. -/
structure State where
  cron : ProjectCron
  now : Instant
  procs : ℕ → Proc
  computedAt : Instant
  fired : List Instant

inductive Action where
  | pass (d : ℕ)
  | tick (p : ℕ)
  | runNow (p : ℕ)
  | update (p : ℕ) (req : UpdateCronRequest)
  | setEnabled (enabled : Bool)
  | compute (p : ℕ)
  | store (p : ℕ) (status : String)
  | abort (p : ℕ)
deriving DecidableEq, Repr

/-- A cron is inserted with its next slot. -/
def start (cron : ProjectCron) (now : Instant) : State :=
  ⟨{ cron with nextRunAt := nextRunTime C cron.cronExpression cron.timezone now },now,fun _ => .idle,now,[]⟩

def setProc (s : State) (p : ℕ) (proc : Proc) : State := { s with procs := Function.update s.procs p proc }

/-- `get_due_crons`. -/
def due (cron : ProjectCron) (now : Instant) : Bool := cron.enabled && cron.nextRunAt.all (· ≤ now)

/-- The merged row of an update, with its slot. -/
def merge (existing : ProjectCron) (req : UpdateCronRequest) (now : Instant) : ProjectCron :=
  let expr := req.cronExpression.getD existing.cronExpression
  let timezone := req.timezone.or existing.timezone
  { existing with
    name := req.name.getD existing.name
    cronExpression := expr
    command := req.command.getD existing.command
    enabled := req.enabled.getD existing.enabled
    timezone := timezone
    nextRunAt := nextRunTime C expr timezone now }

/-- `compute_next_run` of an execution, or the checks and the slot of an update. -/
def compute (s : State) (p : ℕ) : State :=
  match s.procs p with
  | .started cron => setProc s p (.computed cron (nextRunTime C cron.cronExpression cron.timezone s.now) s.now)
  | .updating existing req =>
    if validateCronExpression C (req.cronExpression.getD existing.cronExpression) then
      setProc s p (.merged (merge C existing req s.now) s.now)
    else setProc s p .idle
  | _ => s

def updateCronStatus (s : State) (status : String) (next : Option Instant) (at_ : Instant) : State :=
  { s with
    cron := { s.cron with lastStatus := some status, lastRunAt := some s.now, nextRunAt := next }
    computedAt := max s.computedAt at_ }

/-- A routine stores its slot when it starts, and the same slot again when it ends. -/
def store (s : State) (p : ℕ) (status : String) : State :=
  match s.procs p with
  | .computed cron next t =>
    if isAgentRoutine cron then setProc (updateCronStatus s "running" next t) p (.routine cron next t)
    else setProc (updateCronStatus s status next t) p .idle
  | .routine _ next t => setProc (updateCronStatus s status next t) p .idle
  | .merged cron t =>
    setProc { s with
      cron := { s.cron with
        name := cron.name, cronExpression := cron.cronExpression, command := cron.command, enabled := cron.enabled,
        timezone := cron.timezone, nextRunAt := cron.nextRunAt }
      computedAt := max s.computedAt t } p .idle
  | _ => s

def step (s : State) : Action → State
  | .pass d => { s with now := s.now+d }
  | .tick p =>
    if s.procs p = .idle && due s.cron s.now then
      setProc { s with fired := s.cron.nextRunAt.toList++s.fired } p (.started s.cron)
    else s
  | .runNow p => if s.procs p = .idle then setProc s p (.started s.cron) else s
  | .update p req => if s.procs p = .idle then setProc s p (.updating s.cron req) else s
  | .setEnabled enabled => { s with cron := { s.cron with enabled := enabled } }
  | .compute p => compute C s p
  | .store p status => store s p status
  | .abort p => setProc s p .idle

/-! ## Slots -/

/-- The stored slot is the next one of the stored expression and timezone. -/
def OnSlot (s : State) : Prop := s.cron.nextRunAt = nextRunTime C s.cron.cronExpression s.cron.timezone s.computedAt

/-- A slot that was fired is stored only if it was already. -/
def NeverBack (s s' : State) : Prop := ∀ n ∈ s.fired, s'.cron.nextRunAt = some n → s.cron.nextRunAt = some n

/-- No later slot was stored since this one was computed, and no slot that was fired is left to come. -/
def Latest (s : State) (at_ : Instant) : Prop := s.computedAt ≤ at_ ∧ ∀ n ∈ s.fired, n < at_

/-- What a process stores is up to date: computed last, and by an execution from the stored expression
and timezone. -/
def UpToDate (s : State) : Proc → Prop
  | .computed cron _ at_ | .routine cron _ at_ =>
    (cron.cronExpression = s.cron.cronExpression ∧ cron.timezone = s.cron.timezone) ∧ Latest s at_
  | .merged _ at_ => Latest s at_
  | _ => True

def Fresh (s : State) : Action → Prop
  | .store p _ => UpToDate s (s.procs p)
  | _ => True

instance (s : State) (at_ : Instant) : Decidable (Latest s at_) := inferInstanceAs (Decidable (_ ∧ _))

instance (s : State) (proc : Proc) : Decidable (UpToDate s proc) :=
  match proc with
  | .computed .. | .routine .. => inferInstanceAs (Decidable (_ ∧ Latest s _))
  | .merged _ at_ => inferInstanceAs (Decidable (Latest s at_))
  | .idle | .started _ | .updating .. => inferInstanceAs (Decidable True)

instance (s : State) (a : Action) : Decidable (Fresh s a) :=
  match a with
  | .store p _ => inferInstanceAs (Decidable (UpToDate s (s.procs p)))
  | .pass _ | .tick _ | .runNow _ | .update .. | .setEnabled _ | .compute _ | .abort _ => inferInstanceAs (Decidable True)

/-- The slot a process has computed is that of the expression it has read. -/
def Computed (proc : Proc) : Prop :=
  match proc with
  | .computed cron next at_ | .routine cron next at_ => next = nextRunTime C cron.cronExpression cron.timezone at_
  | .merged cron at_ => cron.nextRunAt = nextRunTime C cron.cronExpression cron.timezone at_
  | _ => True

structure Inv (s : State) : Prop where
  onSlot : OnSlot C s
  computed : ∀ p, Computed C (s.procs p)

/-- What a fresh step keeps. -/
structure Keeps (s s' : State) : Prop where
  inv : Inv C s'
  neverBack : NeverBack s s'

variable {C} {s : State}

theorem inv_start (cron : ProjectCron) (now : Instant) : Inv C (start C cron now) := ⟨rfl,fun _ => trivial⟩

theorem neverBack_of_next {s' : State} (h : s'.cron.nextRunAt = s.cron.nextRunAt) : NeverBack s s' := by
  intro n _ hn
  rwa [← h]

theorem computed_setProc (h : ∀ p, Computed C (s.procs p)) (p : ℕ) {proc : Proc} (hproc : Computed C proc) (q : ℕ) :
    Computed C ((setProc s p proc).procs q) := by
  by_cases heq : q = p
  · subst heq
    simpa [setProc] using hproc
  · simpa [setProc, Function.update_of_ne heq] using h q

/-- Steps that leave the row keep its slot. -/
theorem Inv.setProc (h : Inv C s) (p : ℕ) {proc : Proc} (hproc : Computed C proc) : Keeps C s (setProc s p proc) :=
  ⟨⟨h.onSlot,computed_setProc h.computed p hproc⟩,neverBack_of_next rfl⟩

theorem Inv.self (h : Inv C s) : Keeps C s s := ⟨h,neverBack_of_next rfl⟩

theorem inv_compute (h : Inv C s) (p : ℕ) : Keeps C s (compute C s p) := by
  unfold compute
  split
  · exact h.setProc p rfl
  · split
    · exact h.setProc p rfl
    · exact h.setProc p trivial
  · exact h.self

/-- A slot computed after the slots that were fired is none of them. -/
theorem not_fired {expr : String} {timezone : Option String} {at_ n : Instant}
    (later : ∀ schedule tz t u, C.upcoming schedule tz t = some u → t ≤ u) (hlatest : Latest s at_)
    (hn : nextRunTime C expr timezone at_ = some n) : n ∉ s.fired := by
  intro hfired
  obtain ⟨schedule,-,hup⟩ := Option.bind_eq_some_iff.mp hn
  have hlater := later _ _ _ _ hup
  have hbefore := hlatest.2 n hfired
  exact absurd hbefore (Nat.not_lt.mpr hlater)

/-- A fresh slot is stored: it is that of the stored row, and was not fired. -/
theorem keeps_stored (later : ∀ schedule tz t u, C.upcoming schedule tz t = some u → t ≤ u)
    (h : Inv C s) {s' : State} (p : ℕ) {proc : Proc} (hproc : Computed C proc) {at_ : Instant} (hlatest : Latest s at_)
    (hprocs : s'.procs = s.procs) (hat : s'.computedAt = max s.computedAt at_)
    (hnext : s'.cron.nextRunAt = nextRunTime C s'.cron.cronExpression s'.cron.timezone at_) :
    Keeps C s (setProc s' p proc) := by
  have hmax : max s.computedAt at_ = at_ := max_eq_right hlatest.1
  refine ⟨⟨?_,?_⟩,?_⟩
  · show s'.cron.nextRunAt = nextRunTime C s'.cron.cronExpression s'.cron.timezone s'.computedAt
    rw [hat, hmax, hnext]
  · exact computed_setProc (fun q => hprocs ▸ h.computed q) p hproc
  · intro n hn hstored
    exact absurd hn (not_fired later hlatest (hnext.symm.trans hstored))

theorem inv_store (later : ∀ schedule tz t u, C.upcoming schedule tz t = some u → t ≤ u)
    (h : Inv C s) (p : ℕ) (status : String) (hfresh : Fresh s (.store p status)) : Keeps C s (store s p status) := by
  have hcomputed := h.computed p
  unfold store
  unfold Fresh UpToDate at hfresh
  split
  · next cron next at_ hproc =>
    simp only [hproc] at hfresh hcomputed
    obtain ⟨⟨hexpr,htz⟩,hlatest⟩ := hfresh
    have hnext : next = nextRunTime C s.cron.cronExpression s.cron.timezone at_ := by rw [← hexpr, ← htz]; exact hcomputed
    split
    · exact keeps_stored later h p hcomputed hlatest rfl rfl hnext
    · exact keeps_stored later h p trivial hlatest rfl rfl hnext
  · next cron next at_ hproc =>
    simp only [hproc] at hfresh hcomputed
    obtain ⟨⟨hexpr,htz⟩,hlatest⟩ := hfresh
    have hnext : next = nextRunTime C s.cron.cronExpression s.cron.timezone at_ := by rw [← hexpr, ← htz]; exact hcomputed
    exact keeps_stored later h p trivial hlatest rfl rfl hnext
  · next cron at_ hproc =>
    simp only [hproc] at hfresh hcomputed
    exact keeps_stored later h p trivial hfresh rfl rfl hcomputed
  · exact h.self

theorem step_keeps (later : ∀ schedule tz t u, C.upcoming schedule tz t = some u → t ≤ u) (h : Inv C s) {a : Action}
    (hfresh : Fresh s a) : Keeps C s (step C s a) := by
  cases a with
  | pass d => exact ⟨⟨h.onSlot,h.computed⟩,neverBack_of_next rfl⟩
  | tick p =>
    simp only [step]
    split
    · exact ⟨⟨h.onSlot,computed_setProc h.computed p trivial⟩,neverBack_of_next rfl⟩
    · exact h.self
  | runNow p =>
    simp only [step]
    split
    · exact h.setProc p trivial
    · exact h.self
  | update p req =>
    simp only [step]
    split
    · exact h.setProc p trivial
    · exact h.self
  | setEnabled enabled => exact ⟨⟨h.onSlot,h.computed⟩,neverBack_of_next rfl⟩
  | compute p => exact inv_compute h p
  | store p status => exact inv_store later h p status hfresh
  | abort p => exact h.setProc p trivial

/-- When what is stored is fresh, the stored slot is always the next one, and never one already fired. -/
theorem next_slot_kept (C : Schedules) (later : ∀ schedule tz t u, C.upcoming schedule tz t = some u → t ≤ u)
    (cron : ProjectCron) (now : Instant) (acts : List Action) (hacts : Guarded (step C) Fresh acts (start C cron now)) :
    OnSlot C (run (step C) acts (start C cron now)) ∧ ∀ a, Fresh (run (step C) acts (start C cron now)) a →
      NeverBack (run (step C) acts (start C cron now)) (step C (run (step C) acts (start C cron now)) a) := by
  have hinv : Inv C (run (step C) acts (start C cron now)) :=
    guarded_invariant (step C) Fresh (Inv C) (fun _ _ h hf => (step_keeps later h hf).inv) acts _ (inv_start cron now) hacts
  exact ⟨hinv.onSlot,fun a hfresh => (step_keeps later hinv hfresh).neverBack⟩

/-! ## A cron every five minutes -/

/-- Instants are minutes, and a schedule its period less one. -/
def minutes : Schedules where
  Schedule := ℕ
  Tz := Unit
  utc := ()
  fromStr := fun s => if s = "0 */5 * * * *" then some 4 else if s = "0 */7 * * * *" then some 6 else none
  parseTz := fun s => if s = "UTC" then some () else none
  upcoming := fun p _ t => some ((p+1)*(t/(p+1)+1))

theorem minutes_later (p : ℕ) (tz : Unit) (t u : Instant) (h : minutes.upcoming p tz t = some u) : t ≤ u := by
  obtain rfl := Option.some.inj h
  exact (Nat.lt_mul_div_succ t (Nat.succ_pos p)).le

def fiveMinutes (kind : String) : ProjectCron :=
  ⟨"sync","*/5 * * * *","true",true,none,none,none,none,some kind⟩

def everySeven : UpdateCronRequest := ⟨none,some "*/7 * * * *",none,none,none⟩

/-- A slot is fired and the next one stored; an update then stores a slot of its own expression. -/
theorem updated_cron_on_slot :
    let s := run (step minutes) [.pass 6, .tick 0, .pass 1, .compute 0, .store 0 "success", .pass 1, .update 1 everySeven,
      .compute 1, .store 1 ""] (start minutes (fiveMinutes "command") 0)
    OnSlot minutes s ∧ s.fired = [5] ∧ s.cron.nextRunAt = some 14 :=
  ⟨(next_slot_kept minutes minutes_later (fiveMinutes "command") 0 _ (by decide +kernel)).1,by decide +kernel,by decide +kernel⟩

/-- An update during an execution is overwritten by its end, and the end of a routine stores again a
slot that was fired while it ran. -/
theorem stale_slot_stored :
    (¬∀ acts, OnSlot minutes (run (step minutes) acts (start minutes (fiveMinutes "command") 0))) ∧
    ¬∀ acts a, NeverBack (run (step minutes) acts (start minutes (fiveMinutes "agent") 0))
      (step minutes (run (step minutes) acts (start minutes (fiveMinutes "agent") 0)) a) := by
  constructor
  · intro h
    exact absurd (h [.pass 6, .tick 0, .update 1 everySeven, .compute 1, .store 1 "", .pass 3, .compute 0, .store 0 "success"])
      (by unfold OnSlot; decide +kernel)
  · intro h
    have hback := h [.pass 6, .tick 0, .compute 0, .store 0 "", .pass 5, .tick 1, .compute 1, .store 1 ""] (.store 0 "success")
      10 (by decide +kernel) (by decide +kernel)
    exact absurd hback (by decide +kernel)

end DevForge.CronSlots
