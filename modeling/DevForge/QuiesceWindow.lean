import DevForge.ClusterLocal
import DevForge.Transition

/-!
# The quiesce window

A quiesce closes the fence of a leader while its database is copied, and starts a task that opens
it again after 120 s. The task is never cancelled and looks at the row alone. A window is the time
from the return of a quiesce to its own resume, a demotion or the run of its own task.
-/

set_option autoImplicit false

namespace DevForge.QuiesceWindow
open ClusterLocal Transition

def QUIESCE_SECS : ℕ := 120

structure Window where
  /-- The node was an acting leader when it was quiesced. -/
  ofActing : Bool
  ended : Bool
  /-- When the delayed task may run, until it has run or is lost with its process. -/
  timer : Option Instant
deriving DecidableEq, Repr

/-- The window of an acting leader, which has not ended. -/
def Window.guards (w : Window) : Bool := w.ofActing && !w.ended

structure State where
  now : Instant
  row : LocalClusterState
  windows : List Window
  /-- The window whose quiesce closed the fence. -/
  fencedBy : Option ℕ
  /-- The delayed tasks that opened the fence, with the window that had closed it. -/
  reopened : List (ℕ × Option ℕ)

def start (now : Instant) (row : LocalClusterState) : State := ⟨now,row,[],none,[]⟩

inductive Action where
  | tick (seconds : ℕ)
  /-- `quiesced` is what `quiesce_for_clone` answers. -/
  | quiesce (secret : String) (quiesced : Bool)
  /-- The resume by the caller that opened a window. -/
  | resume (window : ℕ) (secret : String)
  | demote (secret preferredLeaderUrl : String)
  | delayed (window : ℕ)
  /-- The process ends and `release_orphan_fence` runs in the next one. -/
  | restart
deriving Repr

def Window.resumed (w : Window) : Window := { w with ended := true }

def Window.elapsed (w : Window) : Window := { w with ended := true, timer := none }

def perform (op : Op) (l : LocalClusterState) : LocalClusterState := setLocal (op.apply l)

def failoverQuiesce (secret : String) (quiesced : Bool) (s : State) : State :=
  if clusterAuthOk s.row secret && Op.failoverQuiesce.opens s.row && quiesced then
    { s with
      row := perform .failoverQuiesce s.row
      windows := s.windows++[⟨s.row.actingLeader,false,some (s.now+QUIESCE_SECS)⟩]
      fencedBy := some s.windows.length }
  else s

def failoverResume (window : ℕ) (secret : String) (s : State) : State :=
  if clusterAuthOk s.row secret then
    { s with
      row := perform .failoverResume s.row
      windows := s.windows.modify window Window.resumed
      fencedBy := none }
  else s

def failoverDemote (secret url : String) (s : State) : State :=
  if clusterAuthOk s.row secret && (Op.failoverDemote url).opens s.row then
    { s with
      row := perform (.failoverDemote url) s.row
      windows := s.windows.map Window.resumed
      fencedBy := none }
  else s

/-- The delayed task of a window may run. -/
def due (window : ℕ) (s : State) : Bool :=
  ((s.windows[window]?).bind Window.timer).any (fun t => t ≤ s.now)

def quiesceExpired (window : ℕ) (s : State) : State :=
  if due window s then
    if Op.quiesceExpired.opens s.row then
      { s with
        row := perform .quiesceExpired s.row
        windows := s.windows.modify window Window.elapsed
        fencedBy := none
        reopened := s.reopened++[(window,s.fencedBy)] }
    else { s with windows := s.windows.modify window Window.elapsed }
  else s

/-- `release_orphan_fence` checks and writes what a delayed task does. -/
def releaseOrphanFence (s : State) : State :=
  if Op.quiesceExpired.opens s.row then
    { s with
      row := perform .quiesceExpired s.row
      windows := s.windows.map Window.elapsed
      fencedBy := none }
  else { s with windows := s.windows.map Window.elapsed }

def step (s : State) : Action → State
  | .tick seconds => { s with now := s.now+seconds }
  | .quiesce secret quiesced => failoverQuiesce secret quiesced s
  | .resume window secret => failoverResume window secret s
  | .demote secret url => failoverDemote secret url s
  | .delayed window => quiesceExpired window s
  | .restart => releaseOrphanFence s

/-- The windows of acting leaders are fenced, no delayed task has opened a later window, and a
fence that a quiesce has closed has its delayed task ahead. -/
structure Kept (s : State) : Prop where
  fenced : ∀ (i : ℕ) (w : Window), s.windows[i]? = some w → w.guards = true → s.row.writesFenced = true
  own : ∀ p ∈ s.reopened, ∀ i, p.2 = some i → ¬p.1 < i
  ahead : ∀ i, s.fencedBy = some i → ∃ w, s.windows[i]? = some w ∧ w.timer.isSome = true

/-- No window but this one is open on an acting leader. -/
def Alone (window : ℕ) (s : State) : Prop :=
  ∀ (i : ℕ) (w : Window), s.windows[i]? = some w → w.guards = true → i = window

/-- The fence is closed by this quiesce, on a node where no delayed task opens it. -/
def Stuck (window : Option ℕ) (s : State) : Prop :=
  Op.quiesceExpired.opens s.row = false ∧ s.fencedBy.isSome = true ∧ (window = none ∨ s.fencedBy = window)

/-- A resume or a delayed task that opens the fence finds no other window open, and neither a
delayed task nor a restart leaves a fence closed whose delayed task it was. -/
def Orderly (s : State) : Action → Prop
  | .resume window secret => clusterAuthOk s.row secret = true → Alone window s
  | .delayed window => due window s = true →
      (Op.quiesceExpired.opens s.row = true → Alone window s) ∧ ¬Stuck (some window) s
  | .restart => ¬Stuck none s
  | _ => True

/-! ## A step -/

structure Inv (s : State) : Prop where
  kept : Kept s
  closed : ∀ i, s.fencedBy = some i → s.row.writesFenced = true ∧
    ∃ w, s.windows[i]? = some w ∧ w.ended = false ∧ w.ofActing = s.row.actingLeader

theorem inv_start (now : Instant) (row : LocalClusterState) : Inv (start now row) where
  kept := ⟨nofun,nofun,nofun⟩
  closed := nofun

/-- A window that ends guards nothing. -/
theorem resumed_guards (w : Window) : w.resumed.guards = false := by simp [Window.guards, Window.resumed]

theorem elapsed_guards (w : Window) : w.elapsed.guards = false := by simp [Window.guards, Window.elapsed]

/-- Of the windows that guard, ending one leaves the others. -/
theorem modify_guards {windows : List Window} {window i : ℕ} {w : Window} {f : Window → Window}
    (hf : ∀ w, (f w).guards = false) (hi : (windows.modify window f)[i]? = some w) (hg : w.guards = true) :
    windows[i]? = some w ∧ i ≠ window := by
  by_cases he : window = i
  · subst he
    rw [List.getElem?_modify_eq] at hi
    obtain ⟨v,-,rfl⟩ := Option.map_eq_some_iff.mp hi
    exact absurd hg (by simp [hf])
  · rw [List.getElem?_modify_ne _ _ he] at hi
    exact ⟨hi,Ne.symm he⟩

theorem map_guards {windows : List Window} {i : ℕ} {w : Window} {f : Window → Window}
    (hf : ∀ w, (f w).guards = false) (hi : (windows.map f)[i]? = some w) : w.guards = false := by
  rw [List.getElem?_map] at hi
  obtain ⟨v,-,rfl⟩ := Option.map_eq_some_iff.mp hi
  exact hf v

theorem modify_getElem? {windows : List Window} {window i : ℕ} (f : Window → Window) (hne : i ≠ window) :
    (windows.modify window f)[i]? = windows[i]? := List.getElem?_modify_ne _ _ (Ne.symm hne)

/-- The fence is opened: every window that guarded has ended. -/
theorem inv_opened (s : State) (row : LocalClusterState) (windows : List Window)
    (hended : ∀ (i : ℕ) (w : Window), windows[i]? = some w → w.guards = false) (reopened : List (ℕ × Option ℕ))
    (hown : ∀ p ∈ reopened, ∀ i, p.2 = some i → ¬p.1 < i) :
    Inv { s with row := row, windows := windows, fencedBy := none, reopened := reopened } where
  kept := ⟨fun i w hi hg => absurd hg (by simp [hended i w hi]),hown,nofun⟩
  closed := nofun

theorem Alone.ended {s : State} {window : ℕ} (h : Alone window s) {f : Window → Window} (hf : ∀ w, (f w).guards = false)
    (i : ℕ) (w : Window) (hi : (s.windows.modify window f)[i]? = some w) : w.guards = false := by
  by_contra hg
  have hguards := modify_guards hf hi (Bool.of_not_eq_false hg)
  exact hguards.2 (h i w hguards.1 (Bool.of_not_eq_false hg))

theorem Inv.quiesce {s : State} (h : Inv s) (secret : String) (quiesced : Bool) :
    Inv (failoverQuiesce secret quiesced s) := by
  unfold failoverQuiesce
  split
  · have hnew : (s.windows++[⟨s.row.actingLeader,false,some (s.now+QUIESCE_SECS)⟩])[s.windows.length]? =
        some ⟨s.row.actingLeader,false,some (s.now+QUIESCE_SECS)⟩ := by simp
    refine ⟨⟨fun _ _ _ _ => rfl,h.kept.own,fun i hi => ?_⟩,fun i hi => ?_⟩
    · cases hi
      exact ⟨_,hnew,rfl⟩
    · cases hi
      exact ⟨rfl,_,hnew,rfl,rfl⟩
  · exact h

theorem Inv.resume {s : State} (h : Inv s) (window : ℕ) (secret : String) (ho : Orderly s (.resume window secret)) :
    Inv (failoverResume window secret s) := by
  unfold failoverResume
  split
  · next hauth => exact inv_opened s _ _ ((ho hauth).ended resumed_guards) _ h.kept.own
  · exact h

theorem Inv.demote {s : State} (h : Inv s) (secret url : String) : Inv (failoverDemote secret url s) := by
  unfold failoverDemote
  split
  · exact inv_opened s _ _ (fun i w hi => map_guards resumed_guards hi) _ h.kept.own
  · exact h

theorem opens_iff (l : LocalClusterState) :
    Op.quiesceExpired.opens l = true ↔ l.writesFenced = true ∧ l.actingLeader = true := by simp [Op.opens]

theorem Inv.expired {s : State} (h : Inv s) (window : ℕ) (ho : Orderly s (.delayed window)) :
    Inv (quiesceExpired window s) := by
  unfold quiesceExpired
  split
  · next hdue =>
    obtain ⟨halone,hstuck⟩ := ho hdue
    split
    · next hopens =>
      apply inv_opened s _ _ ((halone hopens).ended elapsed_guards)
      intro p hp i hi
      rcases List.mem_append.mp hp with hp | hp
      · exact h.kept.own p hp i hi
      · cases List.mem_singleton.mp hp
        obtain ⟨-,w,hw,hended,hacting⟩ := h.closed i hi
        have hguards : w.guards = true := by simp [Window.guards, hended, hacting, ((opens_iff _).mp hopens).2]
        have hown : i = window := halone hopens i w hw hguards
        omega
    · next hopens =>
      have hother : ∀ i, s.fencedBy = some i → i ≠ window := by
        rintro i hi rfl
        exact hstuck ⟨Bool.eq_false_of_not_eq_true hopens,by simp [hi],Or.inr hi⟩
      refine ⟨⟨fun i w hi hg => ?_,h.kept.own,fun i hi => ?_⟩,fun i hi => ?_⟩
      · exact h.kept.fenced i w (modify_guards elapsed_guards hi hg).1 hg
      · obtain ⟨w,hw,ht⟩ := h.kept.ahead i hi
        exact ⟨w,(modify_getElem? _ (hother i hi)).trans hw,ht⟩
      · obtain ⟨hfenced,w,hw,hrest⟩ := h.closed i hi
        exact ⟨hfenced,w,(modify_getElem? _ (hother i hi)).trans hw,hrest⟩
  · exact h

theorem Inv.restart {s : State} (h : Inv s) (ho : ¬Stuck none s) : Inv (releaseOrphanFence s) := by
  have hended : ∀ (i : ℕ) (w : Window), (s.windows.map Window.elapsed)[i]? = some w → w.guards = false :=
    fun i w hi => map_guards elapsed_guards hi
  unfold releaseOrphanFence
  split
  · exact inv_opened s _ _ hended _ h.kept.own
  · next hopens =>
    have hnone : s.fencedBy = none := by
      by_contra hsome
      exact ho ⟨Bool.eq_false_of_not_eq_true hopens,Option.isSome_iff_ne_none.mpr hsome,Or.inl rfl⟩
    have hopened := inv_opened s s.row _ hended _ h.kept.own
    rwa [← hnone] at hopened

theorem Inv.step {s : State} (h : Inv s) (a : Action) (ho : Orderly s a) : Inv (step s a) := by
  cases a with
  | tick seconds => exact ⟨⟨h.kept.fenced,h.kept.own,h.kept.ahead⟩,h.closed⟩
  | quiesce secret quiesced => exact h.quiesce secret quiesced
  | resume window secret => exact h.resume window secret ho
  | demote secret url => exact h.demote secret url
  | delayed window => exact h.expired window ho
  | restart => exact h.restart ho

/-- A step after which everything is kept was orderly. -/
theorem orderly_of_kept {s : State} (a : Action) (hk : Kept (step s a)) : Orderly s a := by
  cases a with
  | tick seconds => trivial
  | quiesce secret quiesced => trivial
  | demote secret url => trivial
  | resume window secret =>
    intro hauth i w hi hg
    by_contra hne
    have hstep : step s (.resume window secret) =
        { s with row := perform .failoverResume s.row, windows := s.windows.modify window Window.resumed,
                 fencedBy := none } := by
      simp only [step, failoverResume, hauth, if_true]
    rw [hstep] at hk
    exact Bool.noConfusion (hk.fenced i w ((modify_getElem? _ hne).trans hi) hg)
  | delayed window =>
    intro hdue
    refine ⟨fun hopens i w hi hg => ?_,fun hstuck => ?_⟩
    · by_contra hne
      have hstep : step s (.delayed window) =
          { s with row := perform .quiesceExpired s.row, windows := s.windows.modify window Window.elapsed,
                   fencedBy := none, reopened := s.reopened++[(window,s.fencedBy)] } := by
        simp only [step, quiesceExpired, hdue, hopens, if_true]
      rw [hstep] at hk
      exact Bool.noConfusion (hk.fenced i w ((modify_getElem? _ hne).trans hi) hg)
    · obtain ⟨hopens,hsome,hcause⟩ := hstuck
      have hby : s.fencedBy = some window := by simpa using hcause
      have hstep : step s (.delayed window) = { s with windows := s.windows.modify window Window.elapsed } := by
        simp only [step, quiesceExpired, hdue, hopens, if_true, Bool.false_eq_true, if_false]
      rw [hstep] at hk
      obtain ⟨w,hw,ht⟩ := hk.ahead window hby
      rw [List.getElem?_modify_eq] at hw
      obtain ⟨v,-,rfl⟩ := Option.map_eq_some_iff.mp hw
      exact Bool.noConfusion ht
  | restart =>
    rintro ⟨hopens,hsome,-⟩
    obtain ⟨i,hi⟩ := Option.isSome_iff_exists.mp hsome
    have hstep : step s .restart = { s with windows := s.windows.map Window.elapsed } := by
      simp only [step, releaseOrphanFence, hopens, Bool.false_eq_true, if_false]
    rw [hstep] at hk
    obtain ⟨w,hw,ht⟩ := hk.ahead i hi
    rw [List.getElem?_map] at hw
    obtain ⟨v,-,rfl⟩ := Option.map_eq_some_iff.mp hw
    exact Bool.noConfusion ht

/-! ## Runs -/

/-- Everything is kept in every state of a run exactly when each step of it is orderly. -/
theorem kept_iff (now : Instant) (row : LocalClusterState) (acts : List Action) :
    Guarded step (fun s a => Kept (step s a)) acts (start now row) ↔ Guarded step Orderly acts (start now row) :=
  guarded_congr_within step Inv (fun _ a h ho => h.step a ho)
    (fun _ a h => ⟨orderly_of_kept a,fun ho => (h.step a ho).kept⟩) acts _ (inv_start now row)

/-- An interim leader that answers requests with this secret. -/
def interim : LocalClusterState :=
  ⟨.leader,"","w1","s","","",LEADER_NODE_ID,"","",0,true,1,false⟩

/-- A quiesce is resumed and the next one is under way when the task of the first one runs. -/
def twoQuiesces : List Action :=
  [.quiesce "s" true,.tick 10,.resume 0 "s",.tick 10,.quiesce "s" true,.tick 100,.delayed 0]

theorem later_quiesce_reopened : ¬∀ (now : Instant) (row : LocalClusterState) (acts : List Action),
    Guarded step (fun s a => Kept (step s a)) acts (start now row) := by
  intro h
  have hkept : Kept (run step twoQuiesces (start 0 interim)) := (h 0 interim twoQuiesces).2.2.2.2.2.2.1
  have hfenced := hkept.fenced 1 ⟨true,false,some 140⟩ (by decide +kernel) (by decide)
  have hopen : (run step twoQuiesces (start 0 interim)).row.writesFenced = false := by decide +kernel
  exact Bool.noConfusion (hopen.symm.trans hfenced)

/-- On a leader that is not acting only a resume opens the fence: neither the delayed tasks nor a
restart do. -/
theorem plain_leader_stays_fenced (acts : List Action) (s : State) (hacting : s.row.actingLeader = false)
    (hfenced : s.row.writesFenced = true) (hacts : Guarded step (fun _ a => ∀ w secret, a ≠ .resume w secret) acts s) :
    (run step acts s).row.writesFenced = true := by
  have hstep : ∀ (s : State) (a : Action), s.row.actingLeader = false ∧ s.row.writesFenced = true →
      (∀ w secret, a ≠ .resume w secret) →
      (step s a).row.actingLeader = false ∧ (step s a).row.writesFenced = true := by
    rintro s a ⟨ha,hf⟩ hne
    cases a with
    | tick seconds => exact ⟨ha,hf⟩
    | quiesce secret quiesced =>
      simp only [step, failoverQuiesce]
      split
      · exact ⟨ha,rfl⟩
      · exact ⟨ha,hf⟩
    | resume window secret => exact absurd rfl (hne window secret)
    | demote secret url => simpa [step, failoverDemote, Op.opens, ha] using hf
    | delayed window =>
      have hopens : Op.quiesceExpired.opens s.row = false := by simp [Op.opens, ha]
      simp only [step, quiesceExpired, hopens, Bool.false_eq_true, if_false]
      split <;> exact ⟨ha,hf⟩
    | restart =>
      have hopens : Op.quiesceExpired.opens s.row = false := by simp [Op.opens, ha]
      simp only [step, releaseOrphanFence, hopens, Bool.false_eq_true, if_false]
      exact ⟨ha,hf⟩
  exact (guarded_invariant step _ _ hstep acts s ⟨hacting,hfenced⟩ hacts).2

end DevForge.QuiesceWindow
