import DevForge.ChatStream
import Mathlib.Data.List.Infix
import Mathlib.Algebra.BigOperators.Group.List.Basic
import Mathlib.Algebra.GroupWithZero.Nat

/-!
# Fallback chain of language models

The providers are tried in order. A provider is called again after a transient error, and the chain
goes on to the next one after an error or an empty answer, as long as no text has been emitted.
-/

set_option autoImplicit false

namespace DevForge.ResilientChain
open ChatStream (AssistantTurn ToolCallRequest)

inductive Role where
  | system
  | user
  | assistant
  | tool
deriving DecidableEq, Repr

structure ImagePart where
  name : String
  dataUrl : String
deriving DecidableEq, Repr

structure ChatMessage where
  role : Role
  content : String
  name : Option String
  toolCallId : Option String
  toolCalls : List ToolCallRequest
  images : List ImagePart

structure ChatRequest where
  messages : List ChatMessage

inductive LlmErrorKind where
  | rateLimited (retryAfter : Option ℕ)
  | server
  | timeout
  | auth
  | badRequest
  | parse
  | other
deriving DecidableEq, Repr

def LlmErrorKind.maxRetries : LlmErrorKind → ℕ
  | .rateLimited _ => 2
  | .server => 2
  | .timeout => 1
  | _ => 0

def retryLabel : LlmErrorKind → String
  | .rateLimited _ => "Modèle saturé, nouvel essai…"
  | .timeout => "Le modèle tarde, nouvel essai…"
  | _ => "Modèle indisponible, nouvel essai…"

inductive Outcome where
  | ok (turn : AssistantTurn)
  | error (message : String)

/-- What a call emits, and what it returns. -/
structure Reply where
  deltas : List String
  outcome : Outcome

/-- A provider answers its calls by a script. -/
structure Entry where
  label : String
  supportsVision : Bool
  chat : ℕ → ChatRequest → Outcome
  chatStream : ℕ → ChatRequest → Reply

def describeImages (m : ChatMessage) : ChatMessage :=
  if m.images = [] then m
  else
    let names := m.images.map (fun i => "[image jointe : "++i.name++"]")
    { m with images := [], content := m.content++"\n"++String.intercalate "\n" names }

def forEntry (e : Entry) (req : ChatRequest) : ChatRequest :=
  if e.supportsVision then req else ⟨req.messages.map describeImages⟩

/-- What has been emitted; the flag is kept on its own. -/
structure Sink where
  delivered : List String
  emitted : Bool
deriving DecidableEq, Repr

def Sink.take (s : Sink) (deltas : List String) : Sink :=
  ⟨s.delivered++deltas,s.emitted || !deltas.isEmpty⟩

/-- The calls made to one entry. -/
structure Tried where
  calls : List Reply
  sink : Sink
  notices : List String
  outcome : Outcome

def Tried.after (t : Tried) (reply : Reply) (notice : String) : Tried :=
  { t with calls := reply::t.calls, notices := notice::t.notices }

/-- The calls made along the chain. -/
structure Run where
  tried : List (Entry × List Reply)
  sink : Sink
  notices : List String
  outcome : Outcome

def Run.calls (r : Run) : List Reply := r.tried.flatMap Prod.snd

def Run.after (r : Run) (e : Entry) (t : Tried) (notices : List String) : Run :=
  { r with tried := (e,t.calls)::r.tried, notices := t.notices++notices++r.notices }

def isEmptyTurn (turn : AssistantTurn) : Bool := trim turn.content = "" && turn.toolCalls.isEmpty

def allFailed (errors : List String) : String :=
  "tous les providers ont échoué — "++
    if errors = [] then "chaîne vide" else String.intercalate " | " errors

section
variable (classify : String → LlmErrorKind)

def retriesAfter : Outcome → ℕ
  | .ok _ => 0
  | .error e => (classify e).maxRetries

theorem retriesAfter_le (o : Outcome) : retriesAfter classify o ≤ 2 := by
  cases o with
  | ok turn => simp [retriesAfter]
  | error e => simp only [retriesAfter]; cases classify e <;> simp [LlmErrorKind.maxRetries]

/-- The calls from the given attempt on. -/
def withRetries (call : ℕ → Reply) (attempt : ℕ) (sink : Sink) : Tried :=
  let reply := call attempt
  let sink := sink.take reply.deltas
  match reply.outcome with
  | .ok turn => ⟨[reply],sink,[],.ok turn⟩
  | .error e =>
    if h : sink.emitted || decide ((classify e).maxRetries ≤ attempt) then ⟨[reply],sink,[],.error e⟩
    else
      have : attempt < 2 := by
        have := retriesAfter_le classify (.error e)
        simp [retriesAfter] at this h
        omega
      (withRetries call (attempt+1) sink).after reply (retryLabel (classify e))
termination_by 2-attempt

/-- The chain from the given entries on, after the given errors. -/
def runEntries (answer : Entry → ℕ → Reply) : List Entry → Sink → List String → Run
  | [], sink, errors => ⟨[],sink,[],.error (allFailed errors)⟩
  | e::rest, sink, errors =>
    let t := withRetries classify (answer e) 0 sink
    match t.outcome with
    | .ok turn =>
      if isEmptyTurn turn && !rest.isEmpty && !t.sink.emitted then
        (runEntries answer rest t.sink (errors++[e.label++": réponse vide"])).after e t []
      else ⟨[(e,t.calls)],t.sink,t.notices,.ok turn⟩
    | .error m =>
      if t.sink.emitted then ⟨[(e,t.calls)],t.sink,t.notices,.error m⟩
      else
        let notices := if rest.isEmpty then [] else ["Bascule sur le modèle de secours…"]
        (runEntries answer rest t.sink (errors++[e.label++": "++m])).after e t notices

def runChain (answer : Entry → ℕ → Reply) (chain : List Entry) : Run :=
  if chain = [] then ⟨[],⟨[],false⟩,[],.error "aucun provider LLM dans la chaîne"⟩
  else runEntries classify answer chain ⟨[],false⟩ []

/-- A call without streaming emits nothing. -/
def chat (chain : List Entry) (req : ChatRequest) : Run :=
  runChain classify (fun e k => ⟨[],e.chat k (forEntry e req)⟩) chain

def chatStream (chain : List Entry) (req : ChatRequest) : Run :=
  runChain classify (fun e k => e.chatStream k (forEntry e req)) chain

/-! ## One answer -/

/-- The most retries that an error among the replies allows. -/
def retries (calls : List Reply) : ℕ := (calls.map (fun r => retriesAfter classify r.outcome)).foldr max 0

def Silent (calls : List Reply) : Prop := ∀ r ∈ calls, r.deltas = []

/-- The last of the calls answers, and no other has emitted anything. -/
structure Answers (before : Sink) (calls : List Reply) (after : Sink) (outcome : Outcome) : Prop where
  silent : Silent calls.dropLast
  delivered : after.delivered = before.delivered++calls.flatMap Reply.deltas
  unemitted : after.emitted = false → Silent calls
  answer : ∀ turn, outcome = .ok turn → calls.getLast?.map Reply.outcome = some (.ok turn)

theorem answers_one (sink : Sink) (r : Reply) : Answers sink [r] (sink.take r.deltas) r.outcome where
  silent := by intro a ha; cases ha
  delivered := by simp [Sink.take]
  unemitted := by
    intro h a ha
    obtain rfl := List.mem_singleton.mp ha
    simpa [Sink.take] using (Bool.or_eq_false_iff.mp h).2
  answer := by
    intro turn h
    simp [h]

theorem answers_none (sink : Sink) (m : String) : Answers sink [] sink (.error m) where
  silent := by intro a ha; cases ha
  delivered := by simp
  unemitted := by intro _ a ha; cases ha
  answer := by intro turn h; cases h

/-- More calls may follow silent ones. -/
theorem answers_append {before between after : Sink} {calls more : List Reply} {o outcome : Outcome}
    (h : Answers before calls between o) (hq : between.emitted = false)
    (hm : Answers between more after outcome) : Answers before (calls++more) after outcome where
  silent := by
    intro r hr
    by_cases hn : more = []
    · subst hn
      rw [List.append_nil] at hr
      exact h.silent r hr
    · rw [List.dropLast_append_of_ne_nil hn, List.mem_append] at hr
      exact hr.elim (h.unemitted hq r) (hm.silent r)
  delivered := by rw [hm.delivered, h.delivered, List.flatMap_append, List.append_assoc]
  unemitted := by
    intro ha r hr
    rw [List.mem_append] at hr
    exact hr.elim (h.unemitted hq r) (hm.unemitted ha r)
  answer := by
    intro turn ht
    have hlast := hm.answer turn ht
    cases hg : more.getLast? with
    | none => simp [hg] at hlast
    | some r => rw [List.getLast?_append, hg]; rwa [hg] at hlast

/-! ## The calls of an entry -/

/-- The calls follow the script of the entry, within the retries that their errors allow. -/
structure Attempts (call : ℕ → Reply) (attempt : ℕ) (calls : List Reply) : Prop where
  scripted : calls = (List.range' attempt calls.length).map call
  bounded : calls.length+attempt ≤ 1+max attempt (retries classify calls)

theorem attempts_one (call : ℕ → Reply) (attempt : ℕ) : Attempts classify call attempt [call attempt] where
  scripted := by simp
  bounded := by simp only [List.length_singleton]; omega

theorem attempts_cons {call : ℕ → Reply} {attempt : ℕ} {calls : List Reply}
    (hr : attempt < retriesAfter classify (call attempt).outcome)
    (h : Attempts classify call (attempt+1) calls) :
    Attempts classify call attempt (call attempt::calls) where
  scripted := by
    rw [List.length_cons, List.range'_succ, List.map_cons, ← h.scripted]
  bounded := by
    have := h.bounded
    have hmore : retries classify (call attempt::calls) =
        max (retriesAfter classify (call attempt).outcome) (retries classify calls) := rfl
    simp only [List.length_cons]
    omega

theorem withRetries_ok {call : ℕ → Reply} {attempt : ℕ} {sink : Sink} {turn : AssistantTurn}
    (h : (call attempt).outcome = .ok turn) :
    withRetries classify call attempt sink =
      ⟨[call attempt],sink.take (call attempt).deltas,[],(call attempt).outcome⟩ := by
  rw [withRetries]
  simp only [h]

theorem withRetries_stop {call : ℕ → Reply} {attempt : ℕ} {sink : Sink} {e : String}
    (h : (call attempt).outcome = .error e)
    (hs : (sink.take (call attempt).deltas).emitted || decide ((classify e).maxRetries ≤ attempt)) :
    withRetries classify call attempt sink =
      ⟨[call attempt],sink.take (call attempt).deltas,[],(call attempt).outcome⟩ := by
  rw [withRetries]
  simp only [h]
  rw [dif_pos hs]

theorem withRetries_again {call : ℕ → Reply} {attempt : ℕ} {sink : Sink} {e : String}
    (h : (call attempt).outcome = .error e)
    (hs : ¬((sink.take (call attempt).deltas).emitted || decide ((classify e).maxRetries ≤ attempt))) :
    withRetries classify call attempt sink =
      (withRetries classify call (attempt+1) (sink.take (call attempt).deltas)).after (call attempt)
        (retryLabel (classify e)) := by
  rw [withRetries]
  simp only [h]
  rw [dif_neg hs]

theorem withRetries_spec (call : ℕ → Reply) (attempt : ℕ) (sink : Sink) :
    let t := withRetries classify call attempt sink
    Answers sink t.calls t.sink t.outcome ∧ Attempts classify call attempt t.calls := by
  induction attempt, sink using withRetries.induct classify call with
  | case1 attempt sink reply turn hok =>
    rw [withRetries_ok classify hok]
    exact ⟨answers_one sink reply,attempts_one classify call attempt⟩
  | case2 attempt sink reply after e herr hstop =>
    rw [withRetries_stop classify herr hstop]
    exact ⟨answers_one sink reply,attempts_one classify call attempt⟩
  | case3 attempt sink reply after e herr hgo _ ih =>
    rw [withRetries_again classify herr hgo]
    obtain ⟨hans,hatt⟩ := ih
    simp only [Bool.or_eq_true, decide_eq_true_eq, not_or, Bool.not_eq_true, not_le] at hgo
    have hr : attempt < retriesAfter classify reply.outcome := by
      rw [herr]
      exact hgo.2
    exact ⟨answers_append (answers_one sink reply) hgo.1 hans,attempts_cons classify hr hatt⟩

/-! ## The chain -/

/-- The entries are tried in order, and each is called as its errors allow. -/
structure Along (answer : Entry → ℕ → Reply) (chain : List Entry) (tried : List (Entry × List Reply)) : Prop where
  order : tried.map Prod.fst <+: chain
  scripted : ∀ t ∈ tried, t.2 = (List.range t.2.length).map (answer t.1)
  bounded : ∀ t ∈ tried, t.2.length ≤ 1+retries classify t.2

theorem along_nil (answer : Entry → ℕ → Reply) (chain : List Entry) : Along classify answer chain [] where
  order := List.nil_prefix
  scripted := by intro t ht; cases ht
  bounded := by intro t ht; cases ht

theorem along_cons {answer : Entry → ℕ → Reply} {e : Entry} {rest : List Entry} {calls : List Reply}
    {tried : List (Entry × List Reply)} (ha : Attempts classify (answer e) 0 calls)
    (h : Along classify answer rest tried) : Along classify answer (e::rest) ((e,calls)::tried) where
  order := List.cons_prefix_cons.mpr ⟨rfl,h.order⟩
  scripted := by
    intro t ht
    rcases List.mem_cons.mp ht with rfl | ht
    · rw [List.range_eq_range']
      exact ha.scripted
    · exact h.scripted t ht
  bounded := by
    intro t ht
    rcases List.mem_cons.mp ht with rfl | ht
    · have := ha.bounded
      simp only [Nat.add_zero, Nat.zero_max] at this
      exact this
    · exact h.bounded t ht

theorem runEntries_spec (answer : Entry → ℕ → Reply) (chain : List Entry) (sink : Sink) (errors : List String) :
    let r := runEntries classify answer chain sink errors
    Answers sink r.calls r.sink r.outcome ∧ Along classify answer chain r.tried := by
  induction chain generalizing sink errors with
  | nil => exact ⟨answers_none sink _,along_nil classify answer []⟩
  | cons e rest ih =>
    obtain ⟨hans,hatt⟩ := withRetries_spec classify (answer e) 0 sink
    have hone := along_cons classify hatt (along_nil classify answer rest)
    have hgo : ∀ errors notices, (withRetries classify (answer e) 0 sink).sink.emitted = false →
        let t := withRetries classify (answer e) 0 sink
        let r := (runEntries classify answer rest t.sink errors).after e t notices
        Answers sink r.calls r.sink r.outcome ∧ Along classify answer (e::rest) r.tried := by
      intro errors notices hq
      obtain ⟨hrest,halong⟩ := ih (withRetries classify (answer e) 0 sink).sink errors
      exact ⟨answers_append hans hq hrest,along_cons classify hatt halong⟩
    have hcalls : ∀ r : Run, r.tried = [(e,(withRetries classify (answer e) 0 sink).calls)] →
        r.calls = (withRetries classify (answer e) 0 sink).calls := by
      intro r hr
      simp [Run.calls, hr]
    simp only [runEntries]
    cases ho : (withRetries classify (answer e) 0 sink).outcome with
    | ok turn =>
      rw [ho] at hans
      dsimp only
      split
      next h => exact hgo _ _ (by simpa using (Bool.and_eq_true_iff.mp h).2)
      next => exact ⟨by rw [hcalls _ rfl]; exact hans,hone⟩
    | error m =>
      rw [ho] at hans
      dsimp only
      split
      next => exact ⟨by rw [hcalls _ rfl]; exact hans,hone⟩
      next h => exact hgo _ _ (by simpa using h)

/-- What a request to the chain comes to. -/
structure OneAnswer (answer : Entry → ℕ → Reply) (chain : List Entry) (r : Run) : Prop
    extends Along classify answer chain r.tried where
  delivered : r.sink.delivered = r.calls.flatMap Reply.deltas
  /-- No call but the last has emitted anything. -/
  silent : Silent r.calls.dropLast
  answer : ∀ turn, r.outcome = .ok turn → r.calls.getLast?.map Reply.outcome = some (.ok turn)
  /-- No more calls than the retries of the entries allow. -/
  total : ∀ maxRetries : Entry → ℕ, (∀ t ∈ r.tried, retries classify t.2 ≤ maxRetries t.1) →
    r.calls.length ≤ (chain.map (fun e => 1+maxRetries e)).sum

theorem calls_le {tried : List (Entry × List Reply)} (m : Entry → ℕ)
    (h : ∀ t ∈ tried, t.2.length ≤ 1+m t.1) :
    (tried.flatMap Prod.snd).length ≤ ((tried.map Prod.fst).map (fun e => 1+m e)).sum := by
  induction tried with
  | nil => simp
  | cons t tried ih =>
    have hrest := ih (fun t' ht => h t' (List.mem_cons_of_mem _ ht))
    have hfirst := h t List.mem_cons_self
    simp only [List.flatMap_cons, List.length_append, List.map_cons, List.sum_cons]
    omega

theorem sum_le_of_subchain {chain part : List Entry} (m : Entry → ℕ) (h : part <+: chain) :
    (part.map m).sum ≤ (chain.map m).sum := by
  obtain ⟨more,rfl⟩ := h
  rw [List.map_append, List.sum_append]
  omega

theorem runChain_one_answer (answer : Entry → ℕ → Reply) (chain : List Entry) :
    OneAnswer classify answer chain (runChain classify answer chain) := by
  obtain ⟨hans,halong⟩ : Answers ⟨[],false⟩ (runChain classify answer chain).calls
      (runChain classify answer chain).sink (runChain classify answer chain).outcome ∧
      Along classify answer chain (runChain classify answer chain).tried := by
    unfold runChain
    split
    next => exact ⟨answers_none _ _,along_nil classify answer chain⟩
    next => exact runEntries_spec classify answer chain ⟨[],false⟩ []
  refine ⟨halong,by simpa using hans.delivered,hans.silent,hans.answer,?_⟩
  intro maxRetries hm
  have hcalls := calls_le maxRetries (fun t ht => by
    have := halong.bounded t ht
    have := hm t ht
    omega)
  exact hcalls.trans (sum_le_of_subchain (fun e => 1+maxRetries e) halong.order)

/-- A stream gets the deltas of one call, the call whose turn is returned. -/
theorem one_answer (chain : List Entry) (req : ChatRequest) :
    OneAnswer classify (fun e k => e.chatStream k (forEntry e req)) chain (chatStream classify chain req) :=
  runChain_one_answer classify _ chain

/-- Without streaming, the same holds and nothing is emitted. -/
theorem chat_one_answer (chain : List Entry) (req : ChatRequest) :
    OneAnswer classify (fun e k => ⟨[],e.chat k (forEntry e req)⟩) chain (chat classify chain req) :=
  runChain_one_answer classify _ chain

end

end DevForge.ResilientChain
