import DevForge.AgentLoop

/-!
# The conversation sent to the provider

A provider accepts a history only if each message that carries tool calls is
followed at once by one result for each of its calls, in order. The calls
still unanswered after a prefix of the history are computed message by message.
-/

set_option autoImplicit false

namespace DevForge.Conversation
open AgentLoop ToolArguments Transition
open WakeGate (Json)

def plain : ChatMessage → Bool
  | .assistantTools _ _ | .toolResult _ _ _ => false
  | _ => true

def answers (call : ToolCall) : ChatMessage → Bool
  | .toolResult id name _ => id = call.id && name = call.name
  | _ => false

/-- Each message with tool calls is followed by the results of its calls, and
there is no other result. -/
inductive WellPaired : List ChatMessage → Prop where
  | nil : WellPaired []
  | plain (m : ChatMessage) (ms : List ChatMessage) (hm : plain m) (h : WellPaired ms) :
      WellPaired (m::ms)
  | batch (content : String) (calls : List ToolCall) (results ms : List ChatMessage)
      (hr : List.Forall₂ (fun c m => answers c m) calls results) (h : WellPaired ms) :
      WellPaired (.assistantTools content calls::(results++ms))

/-- The calls that a message leaves unanswered, if it may stand here. -/
def follow (pending : List ToolCall) (m : ChatMessage) : Option (List ToolCall) :=
  match pending with
  | [] => match m with
    | .assistantTools _ calls => some calls
    | .toolResult _ _ _ => none
    | _ => some []
  | call::rest => if answers call m then some rest else none

def unanswered (pending : List ToolCall) (ms : List ChatMessage) : Option (List ToolCall) :=
  ms.foldlM follow pending

theorem unanswered_cons (pending : List ToolCall) (m : ChatMessage) (ms : List ChatMessage) :
    unanswered pending (m::ms) = (follow pending m).bind (unanswered · ms) := rfl

theorem unanswered_append (pending : List ToolCall) (ms ms' : List ChatMessage) :
    unanswered pending (ms++ms') = (unanswered pending ms).bind (unanswered · ms') := by
  induction ms generalizing pending with
  | nil => rfl
  | cons m ms ih =>
    rw [List.cons_append, unanswered_cons, unanswered_cons, Option.bind_assoc]
    congr 1
    funext p
    exact ih p

theorem follow_plain (m : ChatMessage) (hm : plain m) : follow [] m = some [] := by
  cases m with
  | assistantTools content calls => simp [plain] at hm
  | toolResult id name content => simp [plain] at hm
  | _ => rfl

theorem unanswered_results (calls : List ToolCall) (results ms : List ChatMessage)
    (hr : List.Forall₂ (fun c m => answers c m) calls results) :
    unanswered calls (results++ms) = unanswered [] ms := by
  induction hr with
  | nil => rfl
  | cons hc _ ih => rw [List.cons_append, unanswered_cons, follow, if_pos hc]; exact ih

/-- What answers all the calls pending is their results, in order, then a
well-paired history. -/
theorem results_of_unanswered (n : ℕ) (pending : List ToolCall) (ms : List ChatMessage)
    (hn : ms.length ≤ n) (h : unanswered pending ms = some []) :
    ∃ results rest, ms = results++rest ∧
      List.Forall₂ (fun c m => answers c m) pending results ∧ WellPaired rest := by
  induction n generalizing pending ms with
  | zero =>
    obtain rfl : ms = [] := List.eq_nil_of_length_eq_zero (by omega)
    obtain rfl : pending = [] := by simpa [unanswered] using h
    exact ⟨[],[],rfl,.nil,.nil⟩
  | succ n ih =>
    cases ms with
    | nil =>
      obtain rfl : pending = [] := by simpa [unanswered] using h
      exact ⟨[],[],rfl,.nil,.nil⟩
    | cons m ms =>
      rw [List.length_cons, Nat.add_le_add_iff_right] at hn
      rw [unanswered_cons] at h
      cases pending with
      | cons call pending =>
        by_cases hm : answers call m
        · rw [follow, if_pos hm] at h
          obtain ⟨results,rest,rfl,hr,hw⟩ := ih pending ms hn h
          exact ⟨m::results,rest,rfl,.cons hm hr,hw⟩
        · rw [follow, if_neg hm] at h
          simp at h
      | nil =>
        by_cases hp : plain m
        · rw [follow_plain m hp] at h
          obtain ⟨results,rest,rfl,hr,hw⟩ := ih [] ms hn h
          cases hr
          exact ⟨[],_,rfl,.nil,.plain m _ hp hw⟩
        · cases m with
          | assistantTools content calls =>
            obtain ⟨results,rest,rfl,hr,hw⟩ := ih calls ms hn h
            exact ⟨[],_,rfl,.nil,.batch content calls results rest hr hw⟩
          | toolResult id name content => simp [follow] at h
          | _ => exact absurd rfl hp

theorem wellPaired_iff (ms : List ChatMessage) : WellPaired ms ↔ unanswered [] ms = some [] := by
  constructor
  · intro h
    induction h with
    | nil => rfl
    | plain m ms hm _ ih => rw [unanswered_cons, follow_plain m hm]; exact ih
    | batch content calls results ms hr _ ih =>
      rw [unanswered_cons]
      exact (unanswered_results calls results ms hr).trans ih
  · intro h
    obtain ⟨results,rest,rfl,hr,hw⟩ := results_of_unanswered ms.length [] ms le_rfl h
    cases hr
    exact hw

instance (pending : List ToolCall) (ms : List ChatMessage) :
    Decidable (unanswered pending ms = some []) :=
  match unanswered pending ms with
  | some [] => isTrue rfl
  | some (_::_) => isFalse (by simp)
  | none => isFalse (by simp)

instance (ms : List ChatMessage) : Decidable (WellPaired ms) :=
  decidable_of_iff _ (wellPaired_iff ms).symm

/-! ## The loop keeps the history well paired -/

/-- The calls that the loop has still to answer. -/
def expected : Phase → Option (List ToolCall)
  | .round => some []
  | .batch rest => some rest
  | .ended => none

structure Inv (s : State) : Prop where
  sent : ∀ request ∈ s.requests, WellPaired request
  pending : ∀ rest, expected s.phase = some rest → unanswered [] s.messages = some rest

/-- The first deployment that goes well is the last call of its batch. -/
def deployEndsBatch (l : Loop) (s : State) (a : Action) : Bool :=
  match s.phase, a with
  | .batch (call::rest), .call env =>
    env.cancelled || !deployed call.name (callResult l s env call.name
      (prepared l.read l.schemas l.ctx call.name call.arguments)) || s.postDeployNudged ||
      rest.isEmpty
  | _, _ => true

theorem push_unanswered (s : State) (m : ChatMessage) (pending : List ToolCall)
    (h : unanswered [] s.messages = some pending) :
    unanswered [] (s.push m).messages = follow pending m := by
  have ha := unanswered_append [] s.messages [m]
  rw [h] at ha
  rw [State.push, ha]
  cases hf : follow pending m with
  | none => simp [unanswered, hf]
  | some p => simp [unanswered, hf]

theorem Inv.stop {s t : State} (h : Inv s) (hr : t.requests = s.requests) : Inv t.stop :=
  ⟨hr ▸ h.sent,by simp [State.stop, expected]⟩

theorem treatTurn_inv (l : Loop) (s : State) (turn : AssistantTurn) (hp : s.phase = .round)
    (hs : ∀ request ∈ s.requests, WellPaired request) (hm : unanswered [] s.messages = some []) :
    Inv (treatTurn l s turn) := by
  have hround : ∀ rest, expected .round = some rest → rest = [] := by
    intro rest hr
    simpa [expected] using hr.symm
  unfold treatTurn
  split
  · split
    · refine ⟨hs,fun rest hr => ?_⟩
      obtain rfl := hround rest (hp ▸ hr)
      exact push_unanswered _ _ [] (push_unanswered s _ [] hm)
    · exact ⟨hs,by simp [State.stop, expected]⟩
  · refine ⟨hs,fun rest hr => ?_⟩
    obtain rfl : turn.toolCalls = rest := by simpa [expected] using hr
    exact push_unanswered s _ [] hm

theorem nudgeDuplicates_same (l : Loop) (s : State) (hm : unanswered [] s.messages = some []) :
    (nudgeDuplicates l s).phase = s.phase ∧ (nudgeDuplicates l s).requests = s.requests ∧
      unanswered [] (nudgeDuplicates l s).messages = some [] := by
  unfold nudgeDuplicates
  split
  · exact ⟨rfl,rfl,push_unanswered s _ [] hm⟩
  · exact ⟨rfl,rfl,hm⟩

theorem Inv.startRound {l : Loop} {s : State} (h : Inv s) (hp : s.phase = .round) (cancelled : Bool)
    (turn : Option AssistantTurn) : Inv (startRound l s cancelled turn) := by
  have hm : unanswered [] s.messages = some [] := h.pending [] (by rw [hp]; rfl)
  obtain ⟨hphase,hreq,hmes⟩ := nudgeDuplicates_same l s hm
  unfold AgentLoop.startRound
  split
  · exact h.stop rfl
  · split
    · exact h.stop hreq
    · have hsent : ∀ request ∈ (nudgeDuplicates l s).requests++[(nudgeDuplicates l s).messages],
          WellPaired request := by
        intro request hr
        rcases List.mem_append.mp hr with hr | hr
        · exact h.sent request (hreq ▸ hr)
        · obtain rfl := List.mem_singleton.mp hr
          exact (wellPaired_iff _).mpr hmes
      cases turn with
      | none => exact ⟨hsent,by simp [sendRequest, State.stop, expected]⟩
      | some turn => exact treatTurn_inv l _ turn (hphase.trans hp) hsent hmes

theorem counted_same (l : Loop) (s : State) (env : Answers) (tool : String) (args : Json) :
    (s.counted l env tool args).messages = s.messages ∧
      (s.counted l env tool args).requests = s.requests ∧
      (s.counted l env tool args).postDeployNudged = s.postDeployNudged := by
  unfold State.counted
  cases callRefusal l s env tool args with
  | none => exact ⟨rfl,rfl,rfl⟩
  | some blocked => dsimp only; split <;> exact ⟨rfl,rfl,rfl⟩

theorem noteDelegation_same (s : State) (tool : String) (result : Json) :
    (s.noteDelegation tool result).messages = s.messages ∧
      (s.noteDelegation tool result).requests = s.requests ∧
      (s.noteDelegation tool result).postDeployNudged = s.postDeployNudged := by
  unfold State.noteDelegation
  split <;> exact ⟨rfl,rfl,rfl⟩

/-- Treating a call leaves the history to the message of its result. -/
theorem afterResult_same (l : Loop) (s : State) (call : ToolCall) (env : Answers) (args : Json) :
    (afterResult l s call env args).messages = s.messages ∧
      (afterResult l s call env args).requests = s.requests ∧
      (afterResult l s call env args).postDeployNudged = s.postDeployNudged := by
  obtain ⟨hm,hr,hn⟩ := counted_same l s env call.name args
  obtain ⟨hm',hr',hn'⟩ := noteDelegation_same (s.counted l env call.name args) call.name
    (callResult l s env call.name args)
  exact ⟨hm'.trans hm,hr'.trans hr,hn'.trans hn⟩

/-- After its last call a batch leaves a history without unanswered calls. -/
theorem nextCall_inv (s : State) (rest : List ToolCall)
    (hs : ∀ request ∈ s.requests, WellPaired request)
    (hp : unanswered [] s.messages = some rest) : Inv (s.nextCall rest) := by
  cases rest with
  | cons call rest =>
    refine ⟨hs,fun r hr => ?_⟩
    obtain rfl : call::rest = r := by simpa [expected, State.nextCall] using hr
    exact hp
  | nil =>
    simp only [State.nextCall]
    refine ⟨?_,fun r hr => ?_⟩
    · split <;> exact hs
    · obtain rfl : r = [] := by simpa [expected] using hr.symm
      split
      · exact push_unanswered s _ [] hp
      · exact hp

theorem Inv.treatCall {l : Loop} {s : State} (h : Inv s) (call : ToolCall) (rest : List ToolCall)
    (hp : s.phase = .batch (call::rest)) (env : Answers)
    (hd : deployEndsBatch l s (.call env)) : Inv (treatCall l s call rest env) := by
  have hm : unanswered [] s.messages = some (call::rest) := h.pending _ (by rw [hp]; rfl)
  simp only [deployEndsBatch, hp, Bool.or_eq_true, Bool.not_eq_true'] at hd
  simp only [AgentLoop.treatCall]
  split
  · exact h.stop rfl
  · rename_i hcancel
    rw [Bool.not_eq_true] at hcancel
    generalize prepared l.read l.schemas l.ctx call.name call.arguments = args at hd ⊢
    obtain ⟨ham,har,han⟩ := afterResult_same l s call env args
    split
    · exact h.stop har
    · generalize hc : ChatMessage.toolResult call.id call.name
        (l.forModel call.name args (callResult l s env call.name args)) = m
      have hans : answers call m := by simp [← hc, answers]
      have hpush : unanswered [] ((afterResult l s call env args).push m).messages = some rest := by
        rw [push_unanswered _ m (call::rest) (by rw [ham]; exact hm), follow, if_pos hans]
      unfold State.nudgeAfterDeploy
      split
      · -- the nudge is sent: no call of the batch may be left
        rename_i hn
        obtain ⟨hdep,hnot⟩ := Bool.and_eq_true_iff.mp hn
        have hnot' : s.postDeployNudged = false := by simpa [State.push, han] using hnot
        have hrest : rest = [] := by simpa [hcancel, hdep, hnot'] using hd
        subst hrest
        apply nextCall_inv
        · intro request hr
          exact h.sent request (by simpa [State.push, har] using hr)
        · exact push_unanswered _ _ [] hpush
      · apply nextCall_inv _ _ _ hpush
        intro request hr
        exact h.sent request (by simpa [State.push, har] using hr)

theorem step_inv (l : Loop) (s : State) (a : Action) (h : Inv s) (hd : deployEndsBatch l s a) :
    Inv (step l s a) := by
  unfold step
  split
  · rename_i hp
    exact h.startRound hp _ _
  · rename_i call rest env hp
    exact h.treatCall call rest hp env hd
  · exact h

theorem unanswered_plain (ms : List ChatMessage) (h : ∀ m ∈ ms, plain m) :
    unanswered [] ms = some [] := by
  induction ms with
  | nil => rfl
  | cons m ms ih =>
    rw [unanswered_cons, follow_plain m (h m (by simp))]
    exact ih (fun m' hm => h m' (by simp [hm]))

theorem start_inv (blocks : List String) (history : List (String × String)) (message : String) :
    Inv (start blocks history message) := by
  refine ⟨by simp [start],fun rest hr => ?_⟩
  obtain rfl : rest = [] := by simpa [start, expected] using hr.symm
  apply unanswered_plain
  intro m hm
  simp only [start, List.mem_append, List.mem_map, List.mem_singleton] at hm
  rcases hm with (⟨b,_,rfl⟩ | ⟨p,_,rfl⟩) | rfl
  · rfl
  · split <;> rfl
  · rfl

/-- For every script of turns and every outcome of the tools: as long as the
first deployment that goes well ends its batch, every request sent is well
paired. -/
theorem requests_well_paired (l : Loop) (blocks : List String) (history : List (String × String))
    (message : String) (acts : List Action)
    (hg : Guarded (step l) (fun s a => deployEndsBatch l s a) acts (start blocks history message)) :
    ∀ request ∈ (run (step l) acts (start blocks history message)).requests, WellPaired request :=
  (guarded_invariant (step l) _ Inv (step_inv l) acts _ (start_inv blocks history message) hg).sent

/-- A project with an approval in progress and a registry of two tools. -/
def approvedLoop : Loop where
  ctx := ⟨some "p",none,none,none,none,none,none,none,none,false⟩
  maxRounds := 16
  maxPushes := 3
  read := ⟨fun _ => none,fun _ => none,fun _ => none⟩
  schemas :=
    ⟨fun t => if t = "write_project_file" then some writeProjectFileSchema
      else if t = "mcp_call_tool" then some mcpCallToolSchema else none,rfl,rfl⟩
  role := "ops"
  roleAllows := fun _ => true
  specRefusal := fun _ _ => none
  forModel := fun _ _ _ => "{}"
  unverifiedClaim := fun _ => false
  detectDuplicateCalls := fun _ => none
  detectRepeatedFailures := fun _ => none

def wentWell : Answers := ⟨false,true,false,.none,false,.obj [("ok",.bool true)]⟩

def logsThenDeploy : List Action :=
  [.round false (some ⟨"",[⟨"1","get_deployment_logs",.obj []⟩,⟨"2","trigger_deploy",.obj []⟩]⟩),
   .call wentWell,.call wentWell,.round false none]

theorem logsThenDeploy_well_paired :
    Guarded (step approvedLoop) (fun s a => deployEndsBatch approvedLoop s a) logsThenDeploy
      (start [] [] "go") ∧
    ∀ request ∈ (run (step approvedLoop) logsThenDeploy (start [] [] "go")).requests,
      WellPaired request :=
  ⟨by decide +kernel,
    requests_well_paired approvedLoop [] [] "go" logsThenDeploy (by decide +kernel)⟩

/-- The deployment is the first of two calls: the nudge comes between their
results. -/
def deployThenLogs : List Action :=
  [.round false (some ⟨"",[⟨"1","trigger_deploy",.obj []⟩,⟨"2","get_deployment_logs",.obj []⟩]⟩),
   .call wentWell,.call wentWell,.round false none]

theorem deployThenLogs_not_well_paired :
    ¬ ∀ (l : Loop) (blocks : List String) (history : List (String × String)) (message : String)
      (acts : List Action),
      ∀ request ∈ (run (step l) acts (start blocks history message)).requests,
        WellPaired request :=
  fun h => absurd (h approvedLoop [] [] "go" deployThenLogs) (by decide +kernel)

end DevForge.Conversation
