import DevForge.AgentLoop

/-!
# The gate of remote writes

Whatever the provider and the tools answer, a call is executed only if no
refusal applies to it. What the loop has executed so far therefore obeys the
gate, the cap on pushes and the delegation.
-/

set_option autoImplicit false

namespace DevForge.RemoteGate
open AgentLoop ToolArguments Transition
open WakeGate (Json)

/-- A delegation that went well. -/
def delegates (e : Executed) : Bool := e.name = "delegate_task" && ok e.result

def isPush (e : Executed) : Bool := isGithubPush e.name e.args

/-- What an executed call has passed. -/
theorem callRefusal_none (l : Loop) (s : State) (env : Answers) (tool : String) (args : Json)
    (h : callRefusal l s env tool args = none) :
    (s.delegated.isSome → tool = "delegate_task") ∧
      remoteWriteRefusal l.ctx env tool args = none ∧
      (isGithubPush tool args → s.pushes < l.maxPushes) := by
  unfold callRefusal at h
  split at h
  · simp at h
  · rename_i hd
    split at h
    · simp at h
    · split at h
      · simp at h
      · split at h
        · simp at h
        · rename_i hw
          split at h
          · simp at h
          · split at h
            · simp at h
            · rename_i hp
              refine ⟨fun hs => ?_,hw,fun hpush => ?_⟩
              · simpa [hs] using hd
              · simpa [hpush] using hp

/-- What the loop has done that the gate watches. -/
structure Watched where
  executed : List Executed
  pushes : ℕ
  delegated : Bool

def watched (s : State) : Watched := ⟨s.executed,s.pushes,s.delegated.isSome⟩

@[simp] theorem watched_push (s : State) (m : ChatMessage) : watched (s.push m) = watched s := rfl

@[simp] theorem watched_stop (s : State) : watched s.stop = watched s := rfl

@[simp] theorem watched_record (s : State) (call : ToolCall) (args result : Json) :
    watched (s.record call args result) = watched s := rfl

@[simp] theorem watched_nudgeAfterDeploy (s : State) (tool : String) (result : Json) :
    watched (s.nudgeAfterDeploy tool result) = watched s := by
  unfold State.nudgeAfterDeploy
  split <;> rfl

@[simp] theorem watched_nextCall (s : State) (rest : List ToolCall) :
    watched (s.nextCall rest) = watched s := by
  cases rest with
  | nil => simp only [State.nextCall]; split <;> rfl
  | cons call rest => rfl

@[simp] theorem watched_nudgeDuplicates (l : Loop) (s : State) :
    watched (nudgeDuplicates l s) = watched s := by
  unfold nudgeDuplicates
  split <;> rfl

theorem watched_treatTurn (l : Loop) (s : State) (turn : AssistantTurn) :
    watched (treatTurn l s turn) = watched s := by
  unfold treatTurn
  split
  · split <;> rfl
  · rfl

@[simp] theorem watched_startRound (l : Loop) (s : State) (cancelled : Bool)
    (turn : Option AssistantTurn) : watched (startRound l s cancelled turn) = watched s := by
  unfold startRound
  split
  · rfl
  · split
    · simp
    · unfold sendRequest
      cases turn with
      | none => simp only [watched_stop]; exact watched_nudgeDuplicates l s
      | some turn => exact (watched_treatTurn l _ turn).trans (watched_nudgeDuplicates l s)

theorem watched_noteDelegation (s : State) (tool : String) (result : Json) :
    watched (s.noteDelegation tool result) =
      { watched s with
        delegated := s.delegated.isSome || (tool = "delegate_task" && ok result) } := by
  unfold State.noteDelegation
  cases hd : s.delegated with
  | none =>
    by_cases hn : (tool = "delegate_task" && ok result)
    · simp [watched, hn]
    · simp [watched, hn, hd]
  | some title => simp [watched, hd]

theorem watched_afterResult (l : Loop) (s : State) (call : ToolCall) (env : Answers) (args : Json) :
    (callRefusal l s env call.name args = none ∧
      watched (afterResult l s call env args) =
        ⟨s.executed++[⟨call.name,args,env,callResult l s env call.name args⟩],
         if isGithubPush call.name args then s.pushes+1 else s.pushes,
         s.delegated.isSome || (call.name = "delegate_task" &&
           ok (callResult l s env call.name args))⟩) ∨
    (watched (afterResult l s call env args)).executed = s.executed ∧
      (watched (afterResult l s call env args)).pushes = s.pushes ∧
      (s.delegated.isSome → (watched (afterResult l s call env args)).delegated) := by
  unfold afterResult
  rw [watched_record, watched_noteDelegation]
  unfold State.counted
  cases hr : callRefusal l s env call.name args with
  | none => exact Or.inl ⟨rfl,rfl⟩
  | some blocked =>
    right
    dsimp only
    split <;> exact ⟨rfl,rfl,fun h => by simp [h]⟩

/-- The only step that the gate sees is the treatment of a call. -/
theorem watched_step (l : Loop) (s : State) (a : Action) :
    (∃ call env args, callRefusal l s env call args = none ∧
      watched (step l s a) =
        ⟨s.executed++[⟨call,args,env,callResult l s env call args⟩],
         if isGithubPush call args then s.pushes+1 else s.pushes,
         s.delegated.isSome || (call = "delegate_task" && ok (callResult l s env call args))⟩) ∨
    (watched (step l s a)).executed = s.executed ∧ (watched (step l s a)).pushes = s.pushes ∧
      (s.delegated.isSome → (watched (step l s a)).delegated) := by
  unfold step
  split
  · right
    rw [watched_startRound]
    exact ⟨rfl,rfl,id⟩
  · rename_i call rest env hp
    simp only [treatCall]
    split
    · exact Or.inr ⟨rfl,rfl,id⟩
    · generalize prepared l.read l.schemas l.ctx call.name call.arguments = args
      have hw : watched (if returns l s env call.name args then
            (afterResult l s call env args).stop
          else
            (((afterResult l s call env args).push (.toolResult call.id call.name
              (l.forModel call.name args (callResult l s env call.name args)))).nudgeAfterDeploy
              call.name (callResult l s env call.name args)).nextCall rest) =
          watched (afterResult l s call env args) := by
        split <;> simp
      rw [hw]
      rcases watched_afterResult l s call env args with ⟨hr,he⟩ | h
      · exact Or.inl ⟨call.name,env,args,hr,he⟩
      · exact Or.inr h
  · exact Or.inr ⟨rfl,rfl,id⟩

structure Inv (l : Loop) (s : State) : Prop where
  allowed : ∀ e ∈ s.executed, remoteWriteRefusal l.ctx e.answers e.name e.args = none
  counted : s.executed.countP isPush = s.pushes
  capped : s.pushes ≤ l.maxPushes
  noted : ∀ e ∈ s.executed, delegates e → s.delegated.isSome
  ordered : s.executed.Pairwise (fun d e => delegates d → e.name = "delegate_task")

theorem step_inv (l : Loop) (s : State) (a : Action) (h : Inv l s) : Inv l (step l s a) := by
  rcases watched_step l s a with ⟨tool,env,args,hr,hw⟩ | ⟨he,hp,hd⟩
  · obtain ⟨hdel,hallow,hcap⟩ := callRefusal_none l s env tool args hr
    have he : (step l s a).executed = _ := congrArg Watched.executed hw
    have hp : (step l s a).pushes = _ := congrArg Watched.pushes hw
    have hd : (step l s a).delegated.isSome = _ := congrArg Watched.delegated hw
    constructor
    · intro e hm
      rw [he] at hm
      rcases List.mem_append.mp hm with hm | hm
      · exact h.allowed e hm
      · obtain rfl := List.mem_singleton.mp hm
        exact hallow
    · rw [he, hp, List.countP_append, h.counted]
      by_cases hpush : isGithubPush tool args <;> simp [isPush, hpush]
    · rw [hp]
      split
      · exact hcap ‹_›
      · exact h.capped
    · intro e hm hde
      rw [he] at hm
      rw [hd]
      rcases List.mem_append.mp hm with hm | hm
      · simp [h.noted e hm hde]
      · obtain rfl := List.mem_singleton.mp hm
        simpa [delegates] using Or.inr hde
    · rw [he, List.pairwise_append]
      refine ⟨h.ordered,by simp,fun d hm e hs hde => ?_⟩
      obtain rfl := List.mem_singleton.mp hs
      exact hdel (h.noted d hm hde)
  · have he : (step l s a).executed = s.executed := he
    have hp : (step l s a).pushes = s.pushes := hp
    exact ⟨he ▸ h.allowed,by rw [he, hp]; exact h.counted,hp ▸ h.capped,
      fun e hm hde => hd (h.noted e (he ▸ hm) hde),he ▸ h.ordered⟩

theorem start_inv (l : Loop) (blocks : List String) (history : List (String × String))
    (message : String) : Inv l (start blocks history message) := by
  constructor <;> simp [start]

theorem run_inv (l : Loop) (blocks : List String) (history : List (String × String))
    (message : String) (acts : List Action) :
    Inv l (run (step l) acts (start blocks history message)) :=
  invariant (step l) (Inv l) (step_inv l) acts _ (start_inv l blocks history message)

end DevForge.RemoteGate
