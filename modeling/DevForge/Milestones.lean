import DevForge.ToolArguments

/-!
# Milestones of an agent run

The loop of a run shows a milestone for some tools: running when the tool starts, done or
failed when it ends. Writing files is one milestone for all writes up to the next other tool,
and what still runs at the end of the run is reported as done.
-/

set_option autoImplicit false

namespace DevForge.Milestones
open ToolArguments
open WakeGate (Json)

inductive MilestoneStatus where
  | running
  | done
  | failed
  deriving DecidableEq, Repr

def MILESTONE_FILES : String := "Modification des fichiers"

def arg (args : Json) (key : String) : String := trim (((args.get key).bind Json.asStr).getD "")

def asI64 : Json → Option ℤ
  | .num t => if isF64 t || t = "-0" then none else parseI64 t
  | _ => none

def exitCode (result : Json) : Option ℤ := ((result.get "exit_code").or (result.get "code")).bind asI64

/-- Success of the tool, and of what it ran. -/
def effectiveOk (name : String) (ok : Bool) (result : Json) : Bool :=
  if !ok then false
  else if name = "run_workdir_command" || name = "run_application_tests" then
    ((exitCode result).map (fun c => decide (c = 0))).getD true
  else if name = "start_local_preview" then (result.get "public_ok").bind Json.asBool ≠ some false
  else true

def commandMilestone (command : String) : Option String :=
  if contains command "test" then some "Tests"
  else if contains command "build" then some "Build"
  else if contains command "install" || contains command "npm ci" then some "Installation"
  else none

def milestoneFor (name : String) (args : Json) : Option String :=
  if name = "write_project_file" && arg args "mode" ≠ "github" then some MILESTONE_FILES
  else if name = "run_workdir_command" then commandMilestone (toLowercase (arg args "command"))
  else if name = "run_application_tests" then some "Tests"
  else if name = "start_local_preview" then some "Preview locale"
  else if name ∈ ["sync_workdir_to_github","create_github_fix","publish_to_github"] then some "Publication"
  else if name = "trigger_deploy" then some "Déploiement"
  else if name = "http_smoke" then some "Vérification en ligne"
  else if name = "delegate_task" then some "Délégation"
  else none

/-! ## The tracker -/

abbrev Event := String × MilestoneStatus

/-- The state of the label is replaced where it stands, a new label comes last. -/
def assign (label : String) (st : MilestoneStatus) : List Event → List Event
  | [] => [(label,st)]
  | e::es => if e.1 = label then (label,st)::es else e::assign label st es

theorem assign_labels (label : String) (st : MilestoneStatus) (es : List Event) :
    (assign label st es).map Prod.fst =
      if label ∈ es.map Prod.fst then es.map Prod.fst else es.map Prod.fst++[label] := by
  induction es with
  | nil => simp [assign]
  | cons e es ih =>
    by_cases he : e.1 = label
    · simp [assign, he]
    · have hne : label ≠ e.1 := Ne.symm he
      simp only [assign, if_neg he, List.map_cons, ih, List.mem_cons, hne, false_or]
      split <;> simp

theorem assign_distinct (label : String) (st : MilestoneStatus) {es : List Event} (h : (es.map Prod.fst).Nodup) :
    ((assign label st es).map Prod.fst).Nodup := by
  rw [assign_labels]
  split
  · exact h
  · next hnot => exact List.nodup_append.mpr ⟨h,List.nodup_singleton _,by
      intro a ha b hb
      rw [List.mem_singleton.mp hb]
      rintro rfl
      exact hnot ha⟩

structure MilestoneTracker where
  states : List Event
  distinct : (states.map Prod.fst).Nodup

namespace MilestoneTracker

def new : MilestoneTracker := ⟨[],List.nodup_nil⟩

def get (t : MilestoneTracker) (label : String) : Option MilestoneStatus := t.states.lookup label

def set (t : MilestoneTracker) (label : String) (st : MilestoneStatus) : MilestoneTracker × List Event :=
  if t.get label = some st then (t,[])
  else (⟨assign label st t.states,assign_distinct label st t.distinct⟩,[(label,st)])

/-- The tools that do not end the writing of files. -/
def readsFiles (name : String) : Bool := name = "read_project_file" || name = "list_project_files"

def onToolStart (t : MilestoneTracker) (name : String) (args : Json) : MilestoneTracker × List Event :=
  let m := milestoneFor name args
  let closed := if m ≠ some MILESTONE_FILES && t.get MILESTONE_FILES = some .running && !readsFiles name then
    t.set MILESTONE_FILES .done else (t,[])
  match m with
  | some m => ((closed.1.set m .running).1,closed.2++(closed.1.set m .running).2)
  | none => closed

def onToolDone (t : MilestoneTracker) (name : String) (args : Json) (ok : Bool) (result : Json) :
    MilestoneTracker × List Event :=
  match milestoneFor name args with
  | some m => if m = MILESTONE_FILES then (t,[]) else
    t.set m (if effectiveOk name ok result then .done else .failed)
  | none => (t,[])

def runningLabels (t : MilestoneTracker) : List String := (t.states.filter (·.2 = .running)).map Prod.fst

def close (t : MilestoneTracker) (labels : List String) : MilestoneTracker × List Event :=
  labels.foldl (fun acc label => ((acc.1.set label .done).1,acc.2++(acc.1.set label .done).2)) (t,[])

/-- What still runs at the end of the run is done. -/
def finish (t : MilestoneTracker) : MilestoneTracker × List Event := t.close t.runningLabels

end MilestoneTracker

open MilestoneTracker

/-! ## A run -/

/-- A tool that is run: refused calls reach no milestone. -/
inductive Call where
  | start (name : String) (args : Json)
  | ended (name : String) (args : Json) (ok : Bool) (result : Json)

def onCall (t : MilestoneTracker) : Call → MilestoneTracker × List Event
  | .start name args => t.onToolStart name args
  | .ended name args ok result => t.onToolDone name args ok result

/-- The loop up to its end or its cut. -/
def runLoopInner (calls : List Call) : MilestoneTracker × List Event :=
  calls.foldl (fun acc c => ((onCall acc.1 c).1,acc.2++(onCall acc.1 c).2)) (new,[])

/-- `finish` is called however the loop ends. -/
def runLoop (calls : List Call) : List Event := (runLoopInner calls).2++(runLoopInner calls).1.finish.2

/-! ## The states of a label -/

def statuses (label : String) (events : List Event) : List MilestoneStatus :=
  (events.filter (·.1 = label)).map Prod.snd

theorem statuses_append (label : String) (a b : List Event) :
    statuses label (a++b) = statuses label a++statuses label b := by
  simp [statuses]

theorem lookup_assign (label : String) (st : MilestoneStatus) (es : List Event) (l : String) :
    (assign label st es).lookup l = if l = label then some st else es.lookup l := by
  induction es with
  | nil =>
    by_cases hl : l = label
    · simp [assign, hl]
    · simp [assign, List.lookup_cons, beq_false_of_ne hl, hl]
  | cons e es ih =>
    obtain ⟨k,v⟩ := e
    by_cases hk : k = label
    · by_cases hl : l = label
      · simp [assign, hk, hl]
      · simp [assign, hk, List.lookup_cons, beq_false_of_ne hl, hl]
    · by_cases hl : l = k
      · subst hl
        simp [assign, hk]
      · simp [assign, hk, List.lookup_cons, beq_false_of_ne hl, ih]

theorem get_set (t : MilestoneTracker) (label : String) (st : MilestoneStatus) (l : String) :
    (t.set label st).1.get l = if l = label then some st else t.get l := by
  unfold MilestoneTracker.set
  split
  · next hsame =>
    split
    · next hl => rw [hl, hsame]
    · rfl
  · exact lookup_assign label st t.states l

theorem statuses_set (t : MilestoneTracker) (label : String) (st : MilestoneStatus) (l : String) :
    statuses l (t.set label st).2 = if l = label ∧ t.get l ≠ some st then [st] else [] := by
  unfold MilestoneTracker.set
  by_cases hl : l = label
  · subst hl
    split
    · next hsame => simp [statuses, hsame]
    · next hother => simp [statuses, hother]
  · have hne : label ≠ l := Ne.symm hl
    split <;> simp [statuses, hl, hne]

/-- What a call makes of a label whose state is `cur`. -/
def target (label : String) (cur : Option MilestoneStatus) : Call → Option MilestoneStatus
  | .start name args =>
    if milestoneFor name args = some label then some .running
    else if label = MILESTONE_FILES ∧ cur = some .running ∧ readsFiles name = false then some .done
    else none
  | .ended name args ok result =>
    if milestoneFor name args = some label ∧ label ≠ MILESTONE_FILES then
      some (if effectiveOk name ok result then .done else .failed)
    else none

/-- Each label takes the state that `f` has for it, and shows it unless it has it already. -/
def Moves (t : MilestoneTracker) (r : MilestoneTracker × List Event) (f : String → Option MilestoneStatus) : Prop :=
  ∀ l, r.1.get l = (f l).or (t.get l) ∧ statuses l r.2 = (f l).toList.filter (fun st => t.get l ≠ some st)

theorem moves_nil (t : MilestoneTracker) : Moves t (t,[]) (fun _ => none) :=
  fun _ => ⟨rfl,rfl⟩

theorem Moves.set {t : MilestoneTracker} {r : MilestoneTracker × List Event} {f : String → Option MilestoneStatus}
    (h : Moves t r f) {label : String} (st : MilestoneStatus) (hf : f label = none) :
    Moves t ((r.1.set label st).1,r.2++(r.1.set label st).2) (fun l => if l = label then some st else f l) := by
  intro l
  obtain ⟨hget,hstatuses⟩ := h l
  by_cases hl : l = label
  · subst hl
    rw [hf] at hget hstatuses
    have hsame : r.1.get l = t.get l := hget
    by_cases hst : t.get l = some st
    · simp [get_set, statuses_append, statuses_set, hstatuses, hsame, hst]
    · simp [get_set, statuses_append, statuses_set, hstatuses, hsame, hst]
  · simp [get_set, statuses_append, statuses_set, hstatuses, hget, hl]

theorem moves_set (t : MilestoneTracker) (label : String) (st : MilestoneStatus) :
    Moves t (t.set label st) (fun l => if l = label then some st else none) := by
  simpa using (moves_nil t).set st rfl

theorem onCall_moves (t : MilestoneTracker) (c : Call) : Moves t (onCall t c) (fun l => target l (t.get l) c) := by
  cases c with
  | start name args =>
    obtain ⟨closed,hdef,f,hmoves,hf⟩ : ∃ closed : MilestoneTracker × List Event,
        closed = (if milestoneFor name args ≠ some MILESTONE_FILES && t.get MILESTONE_FILES = some .running &&
          !readsFiles name then t.set MILESTONE_FILES .done else (t,[])) ∧ ∃ f, Moves t closed f ∧
        ∀ l, f l = if milestoneFor name args ≠ some MILESTONE_FILES ∧ l = MILESTONE_FILES ∧
          t.get l = some .running ∧ readsFiles name = false then some .done else none := by
      refine ⟨_,rfl,?_⟩
      split
      · next hclose =>
        simp only [Bool.and_eq_true, decide_eq_true_eq, Bool.not_eq_true'] at hclose
        refine ⟨_,moves_set t MILESTONE_FILES .done,fun l => ?_⟩
        by_cases hl : l = MILESTONE_FILES
        · subst hl
          simp [hclose]
        · simp [hl]
      · next hopen =>
        refine ⟨_,moves_nil t,fun l => ?_⟩
        rw [if_neg]
        rintro ⟨hm,rfl,hget,hread⟩
        exact hopen (by simp [hm, hget, hread])
    simp only [onCall, onToolStart, ← hdef]
    cases hm : milestoneFor name args with
    | none =>
      convert hmoves using 2 with l
      rw [hf, hm]
      simp [target, hm]
    | some m =>
      rw [hm] at hf
      have hother : f m = none := by
        rw [hf, if_neg]
        rintro ⟨hne,rfl,-⟩
        exact hne rfl
      convert hmoves.set .running hother using 2 with l
      rw [hf]
      by_cases hl : l = m
      · simp [target, hm, hl]
      · have hne : m ≠ l := Ne.symm hl
        by_cases hfiles : l = MILESTONE_FILES
        · subst hfiles
          simp [target, hm, hl, hne]
        · simp [target, hm, hl, hne, hfiles]
  | ended name args ok result =>
    simp only [onCall, onToolDone, target]
    cases hm : milestoneFor name args with
    | none => simpa using moves_nil t
    | some m =>
      by_cases hfiles : m = MILESTONE_FILES
      · have hnone : ∀ l, ¬(some m = some l ∧ l ≠ MILESTONE_FILES) := fun l h => h.2 (Option.some.inj h.1 ▸ hfiles)
        simpa only [if_pos hfiles, if_neg (hnone _)] using moves_nil t
      · have hsome : ∀ l, (some m = some l ∧ l ≠ MILESTONE_FILES) ↔ l = m := by
          intro l
          constructor
          · rintro ⟨h,-⟩
            exact (Option.some.inj h).symm
          · rintro rfl
            exact ⟨rfl,hfiles⟩
        simpa only [if_neg hfiles, hsome] using moves_set t m _

theorem onCall_get (t : MilestoneTracker) (c : Call) (l : String) :
    (onCall t c).1.get l = (target l (t.get l) c).or (t.get l) := (onCall_moves t c l).1

theorem onCall_statuses (t : MilestoneTracker) (c : Call) (l : String) :
    statuses l (onCall t c).2 = (target l (t.get l) c).toList.filter (fun st => t.get l ≠ some st) :=
  (onCall_moves t c l).2

/-! ## The end of the run -/

theorem close_append (t : MilestoneTracker) (out : List Event) (labels : List String) :
    labels.foldl (fun acc label => ((acc.1.set label .done).1,acc.2++(acc.1.set label .done).2)) (t,out) =
      ((t.close labels).1,out++(t.close labels).2) := by
  induction labels generalizing t out with
  | nil => simp [close]
  | cons label labels ih =>
    have hcons : t.close (label::labels) = (((t.set label .done).1.close labels).1,
        (t.set label .done).2++((t.set label .done).1.close labels).2) := ih (t.set label .done).1 (t.set label .done).2
    rw [List.foldl_cons, ih, hcons, List.append_assoc]

theorem close_statuses (t : MilestoneTracker) (labels : List String) (l : String) :
    statuses l (t.close labels).2 = if l ∈ labels ∧ t.get l ≠ some .done then [.done] else [] := by
  induction labels generalizing t with
  | nil => simp [close, statuses]
  | cons label labels ih =>
    have hcons : (t.close (label::labels)).2 = (t.set label .done).2++((t.set label .done).1.close labels).2 := by
      rw [close, List.foldl_cons, List.nil_append, close_append]
    rw [hcons, statuses_append, statuses_set, ih, get_set]
    by_cases hl : l = label
    · simp [hl]
    · simp [hl]

theorem mem_runningLabels (t : MilestoneTracker) (l : String) : l ∈ t.runningLabels ↔ t.get l = some .running := by
  obtain ⟨states,hd⟩ := t
  simp only [runningLabels, MilestoneTracker.get]
  induction states with
  | nil => simp
  | cons e es ih =>
    obtain ⟨k,v⟩ := e
    obtain ⟨hk,hes⟩ := List.nodup_cons.mp hd
    have hrest := ih hes
    by_cases hl : l = k
    · subst hl
      have hnot : l ∉ (es.filter (·.2 = .running)).map Prod.fst := fun h => by
        obtain ⟨e,he,hel⟩ := List.mem_map.mp h
        have hmem : e.1 ∈ es.map Prod.fst := List.mem_map_of_mem (List.mem_of_mem_filter he)
        exact hk (hel ▸ hmem)
      rw [List.filter_cons]
      by_cases hv : v = .running
      · simp [hv]
      · simpa [hv] using hnot
    · rw [List.lookup_cons, beq_false_of_ne hl, ← hrest, List.filter_cons]
      split
      · simp [hl]
      · rfl

/-- At the end, done is shown of what still runs. -/
theorem finish_statuses (t : MilestoneTracker) (l : String) :
    statuses l t.finish.2 = if t.get l = some .running then [.done] else [] := by
  rw [finish, close_statuses]
  simp only [mem_runningLabels]
  by_cases h : t.get l = some .running
  · simp [h]
  · simp [h]

/-! ## Runs -/

theorem runLoopInner_concat (calls : List Call) (c : Call) : runLoopInner (calls++[c]) =
    ((onCall (runLoopInner calls).1 c).1,(runLoopInner calls).2++(onCall (runLoopInner calls).1 c).2) := by
  simp [runLoopInner, List.foldl_append]

/-- The state of a label is the last one shown. -/
theorem last_status (calls : List Call) (l : String) :
    (statuses l (runLoopInner calls).2).getLast? = (runLoopInner calls).1.get l := by
  induction calls using List.reverseRecOn with
  | nil => rfl
  | append_singleton calls c ih =>
    rw [runLoopInner_concat, statuses_append, onCall_get, onCall_statuses]
    cases ht : target l ((runLoopInner calls).1.get l) c with
    | none => simpa using ih
    | some st =>
      by_cases hst : (runLoopInner calls).1.get l = some st
      · simpa [hst] using ih
      · simp [hst]

/-- Running where it is expected, then another state, and so on. -/
def Alternates : Bool → List MilestoneStatus → Prop
  | _, [] => True
  | expected, st::sts => (expected = true ↔ st = .running) ∧ Alternates (st ≠ .running) sts

theorem alternates_concat (expected : Bool) (sts : List MilestoneStatus) (st : MilestoneStatus) :
    Alternates expected (sts++[st]) ↔ Alternates expected sts ∧
      ((sts.getLast?.elim expected (fun last => last ≠ .running)) = true ↔ st = .running) := by
  induction sts generalizing expected with
  | nil => simp [Alternates]
  | cons a sts ih =>
    rw [List.cons_append, Alternates, Alternates, ih, and_assoc]
    cases sts with
    | nil => simp
    | cons b sts => simp [List.getLast?_cons]

/-! ## What holds at every call -/

/-- `P` holds of every call, with the calls before it. -/
def Along (P : List Call → Call → Prop) (calls : List Call) : Prop :=
  ∀ before c after, calls = before++c::after → P before c

theorem along_nil (P : List Call → Call → Prop) : Along P [] :=
  fun before c after h => absurd h.symm (by simp)

theorem along_concat (P : List Call → Call → Prop) (calls : List Call) (c : Call) :
    Along P (calls++[c]) ↔ Along P calls ∧ P calls c := by
  constructor
  · intro h
    constructor
    · rintro before d after rfl
      exact h before d (after++[c]) (by simp)
    · exact h calls c [] rfl
  · rintro ⟨hcalls,hc⟩ before d after heq
    rcases List.eq_nil_or_concat after with rfl | ⟨init,last,rfl⟩
    · obtain ⟨rfl,h⟩ := List.append_inj' heq rfl
      obtain rfl := (List.cons.inj h).1
      exact hc
    · have hsplit : calls++[c] = (before++d::init)++[last] := by simpa using heq
      exact hcalls before d init (List.append_inj' hsplit rfl).1

/-- A label that takes a new state takes running where it does not run, and another where it does. -/
def Allowed (l : String) (before : List Call) (c : Call) : Prop :=
  ∀ st, target l ((runLoopInner before).1.get l) c = some st → (runLoopInner before).1.get l ≠ some st →
    (st = .running ↔ (runLoopInner before).1.get l ≠ some .running)

theorem inner_alternates_iff (calls : List Call) (l : String) :
    Alternates true (statuses l (runLoopInner calls).2) ↔ Along (Allowed l) calls := by
  induction calls using List.reverseRecOn with
  | nil => exact iff_of_true trivial (along_nil _)
  | append_singleton calls c ih =>
    rw [along_concat, runLoopInner_concat, statuses_append, onCall_statuses, ← ih]
    unfold Allowed
    cases ht : target l ((runLoopInner calls).1.get l) c with
    | none => simp
    | some st =>
      by_cases hst : (runLoopInner calls).1.get l = some st
      · simp [hst]
      · have hfilter : (some st).toList.filter (fun st => (runLoopInner calls).1.get l ≠ some st) = [st] := by simp [hst]
        rw [hfilter, alternates_concat, last_status]
        cases hget : (runLoopInner calls).1.get l with
        | none => simp
        | some last =>
          rw [hget] at hst
          have hother : last ≠ st := fun h => hst (congrArg some h)
          simp [hother, iff_comm]

/-! ## Tool calls and what is shown of them -/

inductive LastCall where
  | started
  | ended (ok : Bool)
  deriving DecidableEq

def callOf (label : String) : Call → Option LastCall
  | .start name args => if milestoneFor name args = some label then some .started else none
  | .ended name args ok result =>
    if milestoneFor name args = some label then some (.ended (effectiveOk name ok result)) else none

/-- What happened last to the tool calls of a milestone. -/
def lastCall (label : String) (calls : List Call) : Option LastCall := (calls.filterMap (callOf label)).getLast?

def writingAfter (writing : Bool) : Call → Bool
  | .start name args =>
    if milestoneFor name args = some MILESTONE_FILES then true else if readsFiles name then writing else false
  | .ended .. => writing

/-- Files have been written since the last other tool started. -/
def writing (calls : List Call) : Bool := calls.foldl writingAfter false

/-- Another tool that does not only read starts. -/
def closes (name : String) (args : Json) : Prop := milestoneFor name args ≠ some MILESTONE_FILES ∧ readsFiles name = false

/-- The events of a run alternate for each milestone, none is left running, and done is said only after
a last call that succeeded. -/
structure Sound (calls : List Call) : Prop where
  alternate : ∀ label, Alternates true (statuses label (runLoop calls))
  closed : ∀ label, (statuses label (runLoop calls)).getLast? ≠ some .running
  done : Along (fun before c => ∀ label, (label,.done) ∈ (onCall (runLoopInner before).1 c).2 →
    lastCall label (before++[c]) = some (.ended true)) calls
  doneAtEnd : ∀ label, (label,.done) ∈ (runLoopInner calls).1.finish.2 → lastCall label calls = some (.ended true)

/-- A tool ends after it started, or once more with the same outcome; writes succeed before another tool starts. -/
def InOrder (before : List Call) : Call → Prop
  | .start name args => closes name args → writing before = true → lastCall MILESTONE_FILES before = some (.ended true)
  | .ended name args ok result => ∀ m, milestoneFor name args = some m → m ≠ MILESTONE_FILES →
    lastCall m before = some .started ∨ lastCall m before = some (.ended (effectiveOk name ok result))

/-- All calls of the milestones have ended, those that write with success. -/
structure Complete (calls : List Call) : Prop where
  ended : ∀ m, m ≠ MILESTONE_FILES → lastCall m calls ≠ some .started
  written : writing calls = true → lastCall MILESTONE_FILES calls = some (.ended true)

/-! ## The states by the calls -/

def shown : LastCall → MilestoneStatus
  | .started => .running
  | .ended ok => if ok then .done else .failed

theorem lastCall_concat (label : String) (calls : List Call) (c : Call) :
    lastCall label (calls++[c]) = (callOf label c).or (lastCall label calls) := by
  unfold lastCall
  cases h : callOf label c with
  | none => simp [h]
  | some k => simp [h]

theorem get_eq {l : String} (hl : l ≠ MILESTONE_FILES) (calls : List Call) :
    (runLoopInner calls).1.get l = (lastCall l calls).map shown := by
  induction calls using List.reverseRecOn with
  | nil => rfl
  | append_singleton calls c ih =>
    rw [runLoopInner_concat, lastCall_concat, onCall_get, ih]
    cases c with
    | start name args =>
      by_cases hm : milestoneFor name args = some l
      · simp [target, callOf, hm, shown]
      · simp [target, callOf, hm, hl]
    | ended name args ok result =>
      by_cases hm : milestoneFor name args = some l
      · simp [target, callOf, hm, hl, shown]
      · simp [target, callOf, hm]

theorem writing_concat (calls : List Call) (c : Call) : writing (calls++[c]) = writingAfter (writing calls) c := by
  simp [writing, List.foldl_append]

theorem files_running (calls : List Call) :
    (runLoopInner calls).1.get MILESTONE_FILES = some .running ↔ writing calls = true := by
  induction calls using List.reverseRecOn with
  | nil => exact iff_of_false (by decide) (by decide)
  | append_singleton calls c ih =>
    rw [runLoopInner_concat, writing_concat, onCall_get]
    cases c with
    | start name args =>
      by_cases hm : milestoneFor name args = some MILESTONE_FILES
      · simp [target, writingAfter, hm]
      · by_cases hread : readsFiles name = true
        · simp [target, writingAfter, hm, hread, ih]
        · by_cases hget : (runLoopInner calls).1.get MILESTONE_FILES = some .running
          · simp [target, writingAfter, hm, hread, hget]
          · simp [target, writingAfter, hm, hread, hget]
    | ended name args ok result => simpa [target, writingAfter] using ih

theorem shown_started {k : LastCall} : shown k = .running ↔ k = .started := by
  cases k with
  | started => exact iff_of_true rfl rfl
  | ended ok => cases ok <;> simp [shown]

theorem shown_ended {k : LastCall} {ok : Bool} : shown k = (if ok then .done else .failed) ↔ k = .ended ok := by
  cases k with
  | started => cases ok <;> simp [shown]
  | ended ok' => cases ok <;> cases ok' <;> simp [shown]

theorem get_running {l : String} (hl : l ≠ MILESTONE_FILES) (calls : List Call) :
    (runLoopInner calls).1.get l = some .running ↔ lastCall l calls = some .started := by
  rw [get_eq hl, Option.map_eq_some_iff]
  simp [shown_started]

theorem get_ended {l : String} (hl : l ≠ MILESTONE_FILES) (calls : List Call) (ok : Bool) :
    (runLoopInner calls).1.get l = some (if ok then .done else .failed) ↔ lastCall l calls = some (.ended ok) := by
  rw [get_eq hl, Option.map_eq_some_iff]
  simp [shown_ended]

/-! ## What is shown of a run -/

theorem mem_statuses {l : String} {st : MilestoneStatus} {events : List Event} :
    (l,st) ∈ events ↔ st ∈ statuses l events := by
  simp [statuses]

theorem runLoop_statuses (calls : List Call) (l : String) : statuses l (runLoop calls) =
    statuses l (runLoopInner calls).2++(if (runLoopInner calls).1.get l = some .running then [.done] else []) := by
  rw [runLoop, statuses_append, finish_statuses]

/-- Nothing is left running, whatever the calls are. -/
theorem runLoop_closed (calls : List Call) (l : String) : (statuses l (runLoop calls)).getLast? ≠ some .running := by
  rw [runLoop_statuses]
  split
  · simp
  · next hnot => rwa [List.append_nil, last_status]

theorem runLoop_alternates (calls : List Call) (l : String) :
    Alternates true (statuses l (runLoop calls)) ↔ Along (Allowed l) calls := by
  rw [← inner_alternates_iff, runLoop_statuses]
  split
  · next hrun => simp [alternates_concat, last_status, hrun]
  · rw [List.append_nil]

theorem files_closed {before : List Call} {name : String} {args : Json} :
    (MILESTONE_FILES,MilestoneStatus.done) ∈ (onCall (runLoopInner before).1 (.start name args)).2 ↔
      closes name args ∧ writing before = true := by
  rw [mem_statuses, onCall_statuses, ← files_running, closes]
  by_cases hm : milestoneFor name args = some MILESTONE_FILES
  · simp [target, hm]
  · by_cases hrun : (runLoopInner before).1.get MILESTONE_FILES = some .running
    · by_cases hread : readsFiles name = true <;> simp [target, hm, hrun, hread]
    · simp [target, hm, hrun]

theorem allowed_iff (l : String) (before : List Call) (c : Call) : Allowed l before c ↔
    ∀ name args ok result, c = .ended name args ok result → milestoneFor name args = some l → l ≠ MILESTONE_FILES →
      lastCall l before = some .started ∨ lastCall l before = some (.ended (effectiveOk name ok result)) := by
  unfold Allowed
  cases c with
  | start name args =>
    -- running is taken where it does not run, done only where it runs
    refine iff_of_true ?_ (fun _ _ _ _ hc => by cases hc)
    intro st hst hget
    simp only [target] at hst
    split at hst
    · obtain rfl := Option.some.inj hst
      exact iff_of_true rfl hget
    split at hst
    · next hclose =>
      obtain rfl := Option.some.inj hst
      exact iff_of_false (by decide) (fun hnot => hnot hclose.2.1)
    · cases hst
  | ended name args ok result =>
    constructor
    · rintro h _ _ _ _ ⟨⟩ hm hl
      by_cases hsame : (runLoopInner before).1.get l = some (if effectiveOk name ok result then .done else .failed)
      · exact .inr ((get_ended hl before _).mp hsame)
      · have hst := h _ (by simp [target, hm, hl]) hsame
        left
        rw [← get_running hl]
        by_contra hrun
        have := hst.mpr hrun
        split at this <;> cases this
    · intro h st hst hget
      simp only [target] at hst
      split at hst
      · next hm =>
        obtain rfl := Option.some.inj hst
        rcases h name args ok result rfl hm.1 hm.2 with hlast | hlast
        · rw [(get_running hm.2 before).mpr hlast]
          refine iff_of_false ?_ (fun hnot => hnot rfl)
          split <;> decide
        · exact absurd ((get_ended hm.2 before _).mpr hlast) hget
      · cases hst

theorem Along.imp {P Q : List Call → Call → Prop} {calls : List Call} (h : Along P calls)
    (himp : ∀ before c, P before c → Q before c) : Along Q calls :=
  fun before c after heq => himp before c (h before c after heq)

/-- The events are sound exactly when calls end in order and writes end with success. -/
theorem sound_iff (calls : List Call) : Sound calls ↔ Along InOrder calls ∧ Complete calls := by
  constructor
  · intro h
    refine ⟨?_,?_,?_⟩
    · intro before c after heq
      cases c with
      | start name args =>
        intro hclose hwriting
        have hlast := h.done before _ after heq _ (files_closed.mpr ⟨hclose,hwriting⟩)
        rw [lastCall_concat] at hlast
        simpa [callOf, hclose.1] using hlast
      | ended name args ok result =>
        intro m hm hl
        exact (allowed_iff m before _).mp ((runLoop_alternates calls m).mp (h.alternate m) before _ after heq)
          name args ok result rfl hm hl
    · intro m hm hlast
      have hdone : (m,MilestoneStatus.done) ∈ (runLoopInner calls).1.finish.2 := by
        rw [mem_statuses, finish_statuses, if_pos ((get_running hm calls).mpr hlast)]
        exact List.mem_singleton_self _
      rw [h.doneAtEnd m hdone] at hlast
      cases hlast
    · intro hwriting
      apply h.doneAtEnd
      rw [mem_statuses, finish_statuses, if_pos ((files_running calls).mpr hwriting)]
      exact List.mem_singleton_self _
  · rintro ⟨horder,hcomplete⟩
    refine ⟨?_,runLoop_closed calls,?_,?_⟩
    · intro label
      rw [runLoop_alternates]
      refine horder.imp (fun before c h => (allowed_iff label before c).mpr ?_)
      rintro name args ok result rfl hm hl
      exact h label hm hl
    · intro before c after heq label hdone
      have hc := horder before c after heq
      rw [lastCall_concat]
      cases c with
      | start name args =>
        by_cases hl : label = MILESTONE_FILES
        · subst hl
          obtain ⟨hclose,hwriting⟩ := files_closed.mp hdone
          simpa [callOf, hclose.1] using hc hclose hwriting
        · rw [mem_statuses, onCall_statuses] at hdone
          by_cases hm : milestoneFor name args = some label <;> simp [target, hm, hl] at hdone
      | ended name args ok result =>
        rw [mem_statuses, onCall_statuses] at hdone
        by_cases hm : milestoneFor name args = some label ∧ label ≠ MILESTONE_FILES
        · cases hok : effectiveOk name ok result
          · simp [target, hm, hok] at hdone
          · simp [callOf, hm.1, hok]
        · simp [target, hm] at hdone
    · intro label hdone
      rw [mem_statuses, finish_statuses] at hdone
      split at hdone
      · next hrun =>
        by_cases hl : label = MILESTONE_FILES
        · subst hl
          exact hcomplete.written ((files_running calls).mp hrun)
        · exact absurd ((get_running hl calls).mp hrun) (hcomplete.ended label hl)
      · cases hdone

/-- A write that fails, and nothing after it. -/
def failedWrite : List Call :=
  [.start "write_project_file" (.obj [("path",.str "src/a.ts"),("mode",.str "local")]),
    .ended "write_project_file" (.obj [("path",.str "src/a.ts"),("mode",.str "local")]) false (.obj [("ok",.bool false)])]

/-- The milestone of the files is shown as done. -/
theorem failed_write_done : ¬∀ calls : List Call, Sound calls := by
  intro h
  have hdone := (h failedWrite).doneAtEnd MILESTONE_FILES (by decide +kernel)
  exact absurd hdone (by decide +kernel)

end DevForge.Milestones
