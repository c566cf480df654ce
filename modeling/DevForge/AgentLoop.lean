import DevForge.ToolArguments
import DevForge.Transition

/-!
# The loop of an agent turn

The loop sends the messages to the provider, gets a turn and treats its tool
calls one after the other. Every answer of the outside world (the provider,
the tools, the publication gate, the receipts, a cancellation) is part of the
action in which the loop asks for it.
-/

set_option autoImplicit false

namespace DevForge.AgentLoop
open ToolArguments Transition
open WakeGate (Json)

structure ToolCall where
  id : String
  name : String
  arguments : Json

structure AssistantTurn where
  content : String
  toolCalls : List ToolCall

inductive ChatMessage where
  | system (content : String)
  | user (content : String)
  | assistant (content : String)
  | assistantTools (content : String) (calls : List ToolCall)
  | toolResult (id name content : String)

def ChatMessage.content : ChatMessage → String
  | .system c | .user c | .assistant c | .assistantTools c _ | .toolResult _ _ c => c

structure ToolCallRecord where
  id : String
  name : String
  arguments : Json
  result : Json

/-- What the receipts say of the same action in an earlier turn of the run. -/
inductive Prior where
  | none
  | done (receipt : String)
  | unknown (receipt : String)

/-- What the world answers while one call is treated. -/
structure Answers where
  cancelled : Bool
  publish : Bool
  autonomous : Bool
  prior : Prior
  interrupted : Bool
  outcome : Json

/-- What stays the same during a turn. -/
structure Loop where
  ctx : Context
  maxRounds : ℕ
  maxPushes : ℕ
  read : Readers
  schemas : Schemas
  role : String
  roleAllows : String → Bool
  specRefusal : String → Json → Option Json
  forModel : String → Json → Json → String
  unverifiedClaim : String → Bool
  detectDuplicateCalls : List ToolCallRecord → Option String
  detectRepeatedFailures : List ToolCallRecord → Option String

/-! ## Refusals -/

def ok (result : Json) : Bool := ((result.get "ok").bind Json.asBool).getD true

def DELEGATED_REFUSAL : String := "Tâche déléguée : laisse le worker travailler."

def delegatedRefusal : Json :=
  .obj [("ok",.bool false),("code",.str "delegated"),("error",.str DELEGATED_REFUSAL)]

def roleRefusal (role tool : String) : Json :=
  .obj [("ok",.bool false),("code",.str "tool_not_available_for_role"),
    ("error",.str ("Outil "++tool++" non disponible pour le rôle "++role++
      ". Délègue au Coordinateur."))]

def remoteWriteSummary (tool : String) (args : Json) : String :=
  if tool = "create_github_fix" then
    if args.field "title" = "" then "ouvrir une pull request"
    else "pull request « "++args.field "title"++" »"
  else if tool = "sync_workdir_to_github" then
    if args.field "commit_message" = "" then "pousser le brouillon sur GitHub"
    else "pousser sur GitHub : « "++args.field "commit_message"++" »"
  else if tool = "publish_to_github" then "publier le projet sur GitHub"
  else if tool = "create_github_repo" then "créer le dépôt GitHub"
  else if tool = "trigger_deploy" then "lancer un déploiement"
  else if tool = "cancel_deployment" then "annuler un déploiement"
  else if tool = "upsert_env_var" then "modifier des variables d'environnement de production"
  else if tool = "write_project_file" then
    "écrire "++args.field "path"++" directement sur GitHub"
  else if tool = "mcp_call_tool" then "appel GitHub "++args.field "tool"
  else tool

def remoteWriteBlocked (tool : String) (args : Json) : Json :=
  .obj [("ok",.bool false),("code",.str "publish_approval_required"),
    ("error",.str "Action distante bloquée : validation explicite requise."),
    ("needs_user_action",.bool true),("kind",.str "publish_approval"),("blocked_tool",.str tool),
    ("message_fr",.str ("Je suis prêt à publier ("++remoteWriteSummary tool args++
      "). Valide pour que je continue.")),
    ("resume_hint",.str
      "Après validation, l'agent reprend la publication (accord valable 15 minutes).")]

def remoteWriteBlockedUnattended (tool : String) (args : Json) : Json :=
  (((remoteWriteBlocked tool args).insert "unattended" (.bool true)).insert "error"
    (.str "Exécution automatique : action distante non lancée, validation demandée.")).insert
    "message_fr" (.str ("Exécution automatique : je n'ai pas lancé « "++
      remoteWriteSummary tool args++" ». Le travail reste dans le brouillon ; valide quand tu es là."))

/-- The project of a remote action: the argument, else the current one. -/
def remoteProject (ctx : Context) (args : Json) : String :=
  ((((args.get "project_uuid").bind Json.asStr).filter (fun s => trim s ≠ "")).or
    ctx.projectUuid).getD ""

def autonomousAllowed (ctx : Context) (answers : Answers) (tool : String) (args : Json) : Bool :=
  trim (remoteProject ctx args) ≠ "" && tool ∈ AUTONOMOUS_TOOLS && answers.autonomous

def publishAllowed (ctx : Context) (answers : Answers) (args : Json) : Bool :=
  trim (remoteProject ctx args) ≠ "" && answers.publish

def remoteWriteRefusal (ctx : Context) (answers : Answers) (tool : String) (args : Json) :
    Option Json :=
  if !isRemoteWrite tool args then none
  else if autonomousAllowed ctx answers tool args then none
  else if ctx.unattended then some (remoteWriteBlockedUnattended tool args)
  else if publishAllowed ctx answers args then none
  else some (remoteWriteBlocked tool args)

def alreadyDoneResult (tool receipt : String) : Json :=
  .obj [("ok",.bool true),("skipped",.bool true),("code",.str "already_executed"),
    ("receipt",.str receipt),
    ("message_fr",.str ("« "++tool++" » a déjà été exécuté avant l'interruption (reçu "++
      String.ofList (receipt.toList.take 8)++") : je ne le rejoue pas."))]

def outcomeUnknownResult (tool receipt : String) : Json :=
  .obj [("ok",.bool false),("code",.str "outcome_unknown"),("receipt",.str receipt),
    ("needs_user_action",.bool true),("kind",.str "publish_approval"),
    ("error",.str ("« "++tool++" » a été coupé par un redémarrage : issue inconnue. Vérifie le résultat (list_deployments, GitHub) avant de relancer ; une nouvelle validation est requise pour rejouer.")),
    ("message_fr",.str "Une action a été coupée par un redémarrage. Je vérifie avant de la relancer ; valide à nouveau si elle doit être rejouée.")]

def replayGuard (ctx : Context) (answers : Answers) (tool : String) (args : Json) : Option Json :=
  if !isRemoteWrite tool args || (ctx.runUuid.filter (· ≠ "")).isNone then none
  else match answers.prior with
    | .none => none
    | .done receipt => some (alreadyDoneResult tool receipt)
    | .unknown receipt => some (outcomeUnknownResult tool receipt)

def PUSH_LIMIT_KIND : String := "push_limit"

def pushLimitBlocked (tool : String) (args : Json) (max : ℕ) : Json :=
  .obj [("ok",.bool false),("needs_user_action",.bool true),("kind",.str PUSH_LIMIT_KIND),
    ("code",.str "push_limit_reached"),
    ("message_fr",.str ("J'ai déjà poussé "++toString max++
      " fois sur GitHub pendant ce travail. Je m'arrête avant de continuer ("++
      remoteWriteSummary tool args++
      ") : vérifie les derniers commits, puis dis-moi si je continue.")),
    ("resume_hint",.str "« Continuer » relance l'agent avec un nouveau quota de pushes."),
    ("error",.str ("Plafond de "++toString max++" pushes GitHub par run atteint."))]

/-! ## The loop -/

/-- A call that the loop has executed, with what the gate answered then. -/
structure Executed where
  name : String
  args : Json
  answers : Answers
  result : Json

inductive Phase where
  | round
  | batch (remaining : List ToolCall)
  | ended

structure State where
  phase : Phase
  rounds : ℕ
  messages : List ChatMessage
  records : List ToolCallRecord
  claimNudged : Bool
  postDeployNudged : Bool
  delegated : Option String
  delegatedRefusals : ℕ
  pushes : ℕ
  /-- The requests sent to the provider so far. -/
  requests : List (List ChatMessage)
  executed : List Executed

inductive Action where
  /-- A round: no turn comes back from a cancelled call or from an error. -/
  | round (cancelled : Bool) (turn : Option AssistantTurn)
  | call (answers : Answers)

def POST_DEPLOY_NUDGE : String := "Avant de conclure : attends la fin du déploiement (list_deployments / get_deployment_logs avec l'uuid renvoyé) puis http_smoke sur production_url. Ne dis « en ligne » que si http_smoke renvoie un status 2xx/3xx, et cite ce status."

def DELEGATED_NUDGE : String := "Tâche déléguée au worker. Réponds maintenant en une phrase ce que tu as lancé (sans détailler la suite) et arrête-toi : n'appelle plus d'outil."

def CLAIM_NUDGE : String := "Tu affirmes avoir agi mais tu n'as appelé aucun outil dans ce tour. Soit tu appelles maintenant les outils nécessaires, soit tu reformules en disant ce qui a été fait AU TOUR PRÉCÉDENT (avec la référence) ou ce qui reste à faire. N'invente rien."

def ASK_USER : String := "ask_user"

def cancelledResult : Json :=
  .obj [("ok",.bool false),("cancelled",.bool true),("error",.str "Arrêté à ta demande.")]

def State.push (s : State) (m : ChatMessage) : State := { s with messages := s.messages++[m] }

def State.stop (s : State) : State := { s with phase := .ended }

/-- The first refusal that applies to a call. -/
def callRefusal (l : Loop) (s : State) (answers : Answers) (tool : String) (args : Json) :
    Option Json :=
  if s.delegated.isSome && tool ≠ "delegate_task" then some delegatedRefusal
  else match l.specRefusal tool args with
    | some blocked => some blocked
    | none =>
      if (l.schemas.schema tool).isSome && !l.roleAllows tool then some (roleRefusal l.role tool)
      else match remoteWriteRefusal l.ctx answers tool args with
        | some blocked => some blocked
        | none => match replayGuard l.ctx answers tool args with
          | some skip => some skip
          | none =>
            if isGithubPush tool args && l.maxPushes ≤ s.pushes then
              some (pushLimitBlocked tool args l.maxPushes)
            else none

def callResult (l : Loop) (s : State) (answers : Answers) (tool : String) (args : Json) : Json :=
  match callRefusal l s answers tool args with
  | some blocked => blocked
  | none => if answers.interrupted then cancelledResult else answers.outcome

/-- Counters and log of what is refused or executed. -/
def State.counted (s : State) (l : Loop) (answers : Answers) (tool : String) (args : Json) : State :=
  match callRefusal l s answers tool args with
  | some _ =>
    if s.delegated.isSome && tool ≠ "delegate_task" then
      { s with delegatedRefusals := s.delegatedRefusals+1 }
    else s
  | none =>
    { s with
      pushes := if isGithubPush tool args then s.pushes+1 else s.pushes
      executed := s.executed++[⟨tool,args,answers,callResult l s answers tool args⟩] }

def State.noteDelegation (s : State) (tool : String) (result : Json) : State :=
  if tool = "delegate_task" && ok result && s.delegated.isNone then
    { s with delegated := some (((result.get "title").bind Json.asStr).getD "la tâche") }
  else s

def State.record (s : State) (call : ToolCall) (args result : Json) : State :=
  { s with records := s.records++[⟨call.id,call.name,args,result⟩] }

/-- A call of the deployment tools that went well. -/
def deployed (tool : String) (result : Json) : Bool :=
  ok result && (tool = "trigger_deploy" || tool = "publish_to_github")

def State.nudgeAfterDeploy (s : State) (tool : String) (result : Json) : State :=
  if deployed tool result && !s.postDeployNudged then
    { s with postDeployNudged := true }.push (.system POST_DEPLOY_NUDGE)
  else s

def State.nextCall (s : State) : List ToolCall → State
  | [] =>
    let s := if s.delegated.isSome && !s.messages.any (fun m => m.content = DELEGATED_NUDGE)
      then s.push (.system DELEGATED_NUDGE) else s
    { s with phase := .round, rounds := s.rounds+1 }
  | rest => { s with phase := .batch rest }

/-- The loop returns after this call. -/
def returns (l : Loop) (s : State) (answers : Answers) (tool : String) (args : Json) : Bool :=
  let refusal := callRefusal l s answers tool args
  let result := callResult l s answers tool args
  (refusal.isNone && answers.interrupted) ||
    2 ≤ (s.counted l answers tool args).delegatedRefusals ||
    (tool = ASK_USER && ok result) ||
    (refusal.bind (·.get "kind")).bind Json.asStr = some PUSH_LIMIT_KIND

/-- The state once the result of a call is known and recorded. -/
def afterResult (l : Loop) (s : State) (call : ToolCall) (answers : Answers) (args : Json) : State :=
  let result := callResult l s answers call.name args
  ((s.counted l answers call.name args).noteDelegation call.name result).record call args result

def treatCall (l : Loop) (s : State) (call : ToolCall) (rest : List ToolCall) (answers : Answers) :
    State :=
  if answers.cancelled then s.stop
  else
    let args := prepared l.read l.schemas l.ctx call.name call.arguments
    let result := callResult l s answers call.name args
    let s' := afterResult l s call answers args
    if returns l s answers call.name args then s'.stop
    else
      ((s'.push (.toolResult call.id call.name (l.forModel call.name args result))).nudgeAfterDeploy
        call.name result).nextCall rest

def treatTurn (l : Loop) (s : State) (turn : AssistantTurn) : State :=
  if turn.toolCalls.isEmpty then
    if s.records.isEmpty && l.unverifiedClaim turn.content && !s.claimNudged &&
        s.rounds+1 < l.maxRounds then
      { (s.push (.assistant turn.content)).push (.system CLAIM_NUDGE) with
        claimNudged := true, rounds := s.rounds+1 }
    else s.stop
  else
    { s.push (.assistantTools turn.content turn.toolCalls) with phase := .batch turn.toolCalls }

/-- From the third round on, a repeated call is pointed out. -/
def nudgeDuplicates (l : Loop) (s : State) : State :=
  match (if 2 ≤ s.rounds then l.detectDuplicateCalls s.records else none) with
  | some nudge => s.push (.system nudge)
  | none => s

def sendRequest (l : Loop) (s : State) (turn : Option AssistantTurn) : State :=
  let s := { s with requests := s.requests++[s.messages] }
  match turn with
  | none => s.stop
  | some turn => treatTurn l s turn

def startRound (l : Loop) (s : State) (cancelled : Bool) (turn : Option AssistantTurn) : State :=
  if l.maxRounds ≤ s.rounds || cancelled then s.stop
  else if 2 ≤ s.rounds && (l.detectRepeatedFailures s.records).isSome then (nudgeDuplicates l s).stop
  else sendRequest l (nudgeDuplicates l s) turn

def step (l : Loop) (s : State) (a : Action) : State :=
  match s.phase, a with
  | .round, .round cancelled turn => startRound l s cancelled turn
  | .batch (call::rest), .call answers => treatCall l s call rest answers
  | _, _ => s

/-- The messages before the first round: the system blocks, the history and
the message of the user. -/
def start (blocks : List String) (history : List (String × String)) (message : String) : State where
  phase := .round
  rounds := 0
  messages := blocks.map .system++
    history.map (fun h => if h.1 = "assistant" then .assistant h.2 else .user h.2)++[.user message]
  records := []
  claimNudged := false
  postDeployNudged := false
  delegated := none
  delegatedRefusals := 0
  pushes := 0
  requests := []
  executed := []

end DevForge.AgentLoop
