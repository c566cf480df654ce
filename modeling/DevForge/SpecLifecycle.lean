import DevForge.Dotenv
import DevForge.DraftFiles
import DevForge.SpecApprovals
import DevForge.ToolArguments
import Mathlib.Data.List.DropRight
import Mathlib.Logic.Function.Basic

/-!
# Lifecycle of a spec

The specs of a project are written, revised, approved or refused, implemented turn by turn, taken off
the list and retried. Each operation reads the status of a spec and writes it back.
-/

set_option autoImplicit false

namespace DevForge.SpecLifecycle
open SpecApprovals (FeatureStatus SpecPhase NOTE_IN_PROGRESS wrongPhase)
open DraftFiles (startsWith endsWith)
open ToolArguments (contains doubleQuote)
open Transition

def MAX_ATTEMPTS : ℕ := 3

def NOTE_NO_FEATURE : String :=
  "Le modèle annonce que c'est fini, mais la fonctionnalité n'a pas été écrite."
def NOTE_STOPPED : String :=
  "Le modèle s'est arrêté avant la fin. Tu peux réessayer ou retirer cette spec."
def NOTE_GAVE_UP : String := "Le modèle n'a pas réussi à terminer. Tu peux réessayer."
def NOTE_READY : String := "Prête à prévisualiser."

inductive Verdict where
  | yes
  | no
  | fail
  | missing
deriving DecidableEq, Repr

structure TurnReport where
  reply : String
  writePaths : List String
  provider : String
deriving DecidableEq, Repr

/-! ## Names of specs -/

def isSlugChar (c : Char) : Bool := ('a' ≤ c && c ≤ 'z') || ('0' ≤ c && c ≤ '9') || c = '-'

def isSlug (slug : String) : Bool :=
  slug ≠ "" && slug.utf8ByteSize ≤ 48 && slug.toList.all isSlugChar && !startsWith slug "-" &&
    !endsWith slug "-" && !contains slug "--"

/-- Letters of Unicode: `is_alphabetic`, and the first character of `to_lowercase`. -/
structure Letters where
  isAlphabetic : Char → Bool
  lower : Char → Char

def withoutAccent (c : Char) : Char :=
  if c ∈ ['à','á','â','ä'] then 'a'
  else if c ∈ ['é','è','ê','ë'] then 'e'
  else if c ∈ ['î','ï'] then 'i'
  else if c ∈ ['ô','ö'] then 'o'
  else if c ∈ ['ù','û','ü'] then 'u'
  else if c = 'ç' then 'c'
  else c.toLower

/-- A row of other characters becomes one dash; the slug stops at 48 characters. -/
def slugChars (L : Letters) : List Char → List Char → Bool → List Char
  | [], out, _ => out
  | c::cs, out, prevDash =>
    let c := withoutAccent (L.lower c)
    let keep := ('a' ≤ c && c ≤ 'z') || ('0' ≤ c && c ≤ '9')
    let dash := !keep && !prevDash && out ≠ []
    let out := if keep then out++[c] else if dash then out++['-'] else out
    if 48 ≤ out.length then out else slugChars L cs out (if keep then false else prevDash || dash)

def slugify (L : Letters) (title : String) : String :=
  let out := (slugChars L title.toList [] false).rdropWhile (· = '-')
  if out = [] then "fonctionnalite" else String.ofList out

/-- The specs that are stored, by their directory. -/
abbrev Store := String → Option FeatureStatus

def candidate (base : String) (n : ℕ) : String :=
  let suffix := "-"++toString n
  String.ofList (base.toList.take (48-suffix.length))++suffix

def uniqueSlug (s : Store) (base : String) : Except String String :=
  if !isSlug base then .error "slug invalide"
  else if (s base).isNone then .ok base
  else
    match ((List.range' 2 48).map (candidate base)).find? (fun c => isSlug c && (s c).isNone) with
    | some c => .ok c
    | none => .error "trop de specs avec ce titre"

def readStatus (s : Store) (slug : String) : Except String (Option FeatureStatus) :=
  if isSlug slug then .ok (s slug) else .error "slug invalide"

/-! ## Turns of an implementation -/

/-- `strip_prefix("./")`, as often as it stands there. -/
def stripDots : List Char → List Char
  | '.' :: '/' :: cs => stripDots cs
  | cs => cs

def normalizeRel (path : String) : String :=
  let p := (trim path).toList.map (fun c => if c = Char.ofNat 92 then '/' else c)
  toAsciiLowercase (String.ofList ((stripDots p).dropWhile (· = '/')))

def isFeaturePath (path : String) : Bool :=
  let p := normalizeRel path
  if p = "" then false
  else if p = "readme.md" || endsWith p "/readme.md" then false
  else if p = "license" || p = "license.md" || p = "license.txt" then false
  else if p = "specs" || startsWith p "specs/" then false
  else !startsWith p ".git/"

/-- Each path once, in the order in which it comes first. -/
def distinct (paths : List String) : List String :=
  paths.foldl (fun out p => if p ∈ out then out else out++[p]) []

def distinctFeaturePaths (paths : List String) : List String :=
  distinct ((paths.filter isFeaturePath).map normalizeRel)

def onlyRepeatedSameFile (paths : List String) : Bool :=
  2 ≤ paths.length && (distinct (paths.map normalizeRel)).length = 1

def stripJsonishChar (p : List Char × ℤ) (c : Char) : List Char × ℤ :=
  if c = '{' || c = '[' then (p.1,p.2+1)
  else if c = '}' || c = ']' then (p.1,max (p.2-1) (-2^31))
  else if p.2 = 0 then (p.1++[c],p.2)
  else p

def stripJsonishLine (p : List Char × ℤ) (line : List Char) : List Char × ℤ :=
  if startsWith (trim (String.ofList line)) "```" then p
  else
    let p := line.foldl stripJsonishChar p
    if p.2 = 0 then (p.1++['\n'],p.2) else p

/-- What is left of a text outside brackets. -/
def stripJsonish (input : String) : List Char :=
  ((Dotenv.lines input.toList).foldl stripJsonishLine ([],0)).1

def quoted (s : String) : String := String.ofList (doubleQuote::s.toList++[doubleQuote])

def toolish : List String :=
  ["write_project_file","read_project_file","start_local_preview","tool_calls",quoted "name",quoted "function"]

def replyIsExampleToolJson (L : Letters) (reply : String) : Bool :=
  let trimmed := trim reply
  if trimmed = "" || !trimmed.toList.contains '{' then false
  else if !toolish.any (contains (toAsciiLowercase trimmed)) then false
  else (stripJsonish trimmed).countP L.isAlphabetic < 30

def wrote (paths : List String) : Bool := distinctFeaturePaths paths ≠ [] && !onlyRepeatedSameFile paths

def implementTurnIsEmpty (L : Letters) (reply : String) (writePaths : List String) (verdict : Verdict) : Bool :=
  if wrote writePaths then false
  else if onlyRepeatedSameFile writePaths then true
  else if replyIsExampleToolJson L reply && distinctFeaturePaths writePaths = [] then true
  else verdict = .missing && distinctFeaturePaths writePaths = []

def providerLabelForUser (mode : String) : String :=
  let s := trim mode
  let s := trim (if startsWith s "chain:" then String.ofList (s.toList.drop 6) else s)
  if s = "" || toAsciiLowercase s = "stub" then ""
  else String.intercalate ", " (ToolArguments.split '>' s)

def emptyWorkNote (provider : String) : String :=
  let label := providerLabelForUser provider
  if label = "" then "Le modèle n'a pas fait le travail. La fonctionnalité n'a pas été écrite."
  else label++" n'a pas fait le travail. La fonctionnalité n'a pas été écrite."

/-- The phase, the attempts, the blocker and the note after a turn that was not empty. -/
def judge (verdict : Verdict) (wrote : Bool) (st : FeatureStatus) : FeatureStatus :=
  match verdict with
  | .yes =>
    if wrote then { st with phase := .converged, blocker := "", note := NOTE_READY }
    else { st with phase := .failed, blocker := "no_feature", note := NOTE_NO_FEATURE }
  | .fail => { st with phase := .failed, blocker := "stopped", note := NOTE_STOPPED }
  | .no | .missing =>
    if MAX_ATTEMPTS ≤ st.attempts then { st with phase := .failed, blocker := "gave_up", note := NOTE_GAVE_UP }
    else
      { st with attempts := st.attempts+1, phase := .implement, blocker := "", note := NOTE_IN_PROGRESS }

def applyImplementTurn (L : Letters) (st : FeatureStatus) (verdict : Verdict) (report : TurnReport) (now : Instant) :
    Except String FeatureStatus :=
  if st.phase ≠ .implement then .error (wrongPhase "convergence" st)
  else
    let label := providerLabelForUser report.provider
    let next := { st with updatedAt := now, provider := if label = "" then st.provider else label }
    if implementTurnIsEmpty L report.reply report.writePaths verdict then
      .ok { next with phase := .failed, blocker := "empty", note := emptyWorkNote report.provider }
    else .ok (judge verdict (wrote report.writePaths) next)

/-! ## Operations -/

def specify (L : Letters) (s : Store) (title description : String) (now : Instant) : Except String FeatureStatus :=
  if trim title = "" || trim description = "" then .error "titre et description requis"
  else (uniqueSlug s (slugify L (trim title))).map (fun slug => SpecApprovals.specify slug (trim title) now)

def revise (title : String) (now : Instant) : Option FeatureStatus → Except String FeatureStatus
  | none => .error "spec introuvable"
  | some st =>
    if st.dismissed then .error "spec retirée"
    else if st.phase ≠ .awaitingValidation then .error (wrongPhase "ajustement" st)
    else .ok { st with title := trim title, note := "En attente de ton accord.", updatedAt := now }

/-- A spec can be taken off the list in any phase. -/
def canDismiss (st : FeatureStatus) : Bool :=
  !st.dismissed && match st.phase with
    | .awaitingValidation | .implement | .converged | .failed | .rejected => true

def dismiss (now : Instant) : Option FeatureStatus → Except String FeatureStatus
  | none => .error "spec introuvable"
  | some st =>
    if st.dismissed then .ok st
    else if !canDismiss st then .error "cette spec ne peut pas être retirée"
    else .ok { st with dismissed := true, updatedAt := now }

def implementTurn (L : Letters) (verdict : Verdict) (report : TurnReport) (now : Instant) :
    Option FeatureStatus → Except String FeatureStatus
  | none => .error "spec"
  | some st => applyImplementTurn L st verdict report now

inductive Operation where
  | specify (title description : String)
  | revise (slug title description : String)
  | approve (slug : String)
  | reject (slug note : String)
  | implementTurn (slug : String) (verdict : Verdict) (report : TurnReport)
  | dismiss (slug : String)
  | reopenForRetry (slug : String)
deriving DecidableEq, Repr

section
variable (L : Letters)

def result (s : Store) (now : Instant) : Operation → Except String FeatureStatus
  | .specify title description => specify L s title description now
  | .revise slug title description =>
    if trim title = "" || trim description = "" then .error "titre et description requis"
    else (readStatus s slug).bind (revise title now)
  | .approve slug => (readStatus s slug).bind (SpecApprovals.approve now)
  | .reject slug note => (readStatus s slug).bind (SpecApprovals.reject note now)
  | .implementTurn slug verdict report => (readStatus s slug).bind (implementTurn L verdict report now)
  | .dismiss slug => (readStatus s slug).bind (dismiss now)
  | .reopenForRetry slug => (readStatus s slug).bind (SpecApprovals.reopenForRetry now)

/-- An operation at an instant; one that fails writes nothing. -/
def step (s : Store) (a : Instant × Operation) : Store :=
  match result L s a.1 a.2 with
  | .ok st => Function.update s st.slug (some st)
  | .error _ => s

/-! ## What an operation does -/

/-- What the code keeps true of every spec that is stored. -/
structure Fits (slug : String) (st : FeatureStatus) : Prop where
  named : isSlug slug
  slug : st.slug = slug
  attempts : st.attempts ≤ MAX_ATTEMPTS

def Stored (s : Store) : Prop := ∀ slug st, s slug = some st → Fits slug st

theorem stored_none : Stored (fun _ => none) := by
  intro slug st h
  cases h

theorem read_ok {s : Store} {slug : String} {f : Option FeatureStatus → Except String FeatureStatus}
    {st' : FeatureStatus} (h : (readStatus s slug).bind f = .ok st') : isSlug slug ∧ f (s slug) = .ok st' := by
  unfold readStatus at h
  split at h
  · next hslug => exact ⟨hslug,h⟩
  · cases h

theorem read_of_stored {s : Store} (hs : Stored s) {slug : String} {st : FeatureStatus} (h : s slug = some st) :
    readStatus s slug = .ok (some st) := by
  rw [readStatus, if_pos (hs slug st h).named, h]

theorem revise_ok {title : String} {now : Instant} {old : Option FeatureStatus} {st' : FeatureStatus}
    (h : revise title now old = .ok st') :
    ∃ st, old = some st ∧ st.dismissed = false ∧ st.phase = .awaitingValidation ∧
      st' = { st with title := trim title, note := "En attente de ton accord.", updatedAt := now } := by
  cases old with
  | none => cases h
  | some st =>
    simp only [revise] at h
    split at h
    · cases h
    · next hd =>
      split at h
      · cases h
      · next hp =>
        cases h
        exact ⟨st,rfl,by simpa using hd,not_not.mp hp,rfl⟩

theorem approve_ok {now : Instant} {old : Option FeatureStatus} {st' : FeatureStatus}
    (h : SpecApprovals.approve now old = .ok st') :
    ∃ st, old = some st ∧ st.phase = .awaitingValidation ∧ st' = { st with
      phase := .implement
      attempts := 1
      note := NOTE_IN_PROGRESS
      blocker := ""
      updatedAt := now } := by
  cases old with
  | none => cases h
  | some st =>
    simp only [SpecApprovals.approve] at h
    split at h
    · cases h
    · next hp =>
      cases h
      exact ⟨st,rfl,not_not.mp hp,rfl⟩

theorem reject_ok {note : String} {now : Instant} {old : Option FeatureStatus} {st' : FeatureStatus}
    (h : SpecApprovals.reject note now old = .ok st') :
    ∃ st, old = some st ∧ st.phase = .awaitingValidation ∧ st' = { st with
      phase := .rejected
      dismissed := true
      note := if trim note = "" then "Spec refusée. Aucun code." else trim note
      updatedAt := now } := by
  cases old with
  | none => cases h
  | some st =>
    simp only [SpecApprovals.reject] at h
    split at h
    · cases h
    · next hp =>
      cases h
      exact ⟨st,rfl,not_not.mp hp,rfl⟩

theorem dismiss_ok {now : Instant} {old : Option FeatureStatus} {st' : FeatureStatus} (h : dismiss now old = .ok st') :
    ∃ st, old = some st ∧ (st' = st ∨ st' = { st with dismissed := true, updatedAt := now }) := by
  cases old with
  | none => cases h
  | some st =>
    simp only [dismiss] at h
    split at h
    · cases h
      exact ⟨st',rfl,Or.inl rfl⟩
    · split at h
      · cases h
      · cases h
        exact ⟨st,rfl,Or.inr rfl⟩

theorem reopen_ok {now : Instant} {old : Option FeatureStatus} {st' : FeatureStatus}
    (h : SpecApprovals.reopenForRetry now old = .ok st') :
    ∃ st, old = some st ∧ st.dismissed = false ∧ st.phase = .failed ∧ st' = { st with
      phase := .implement
      attempts := 1
      blocker := ""
      provider := ""
      note := NOTE_IN_PROGRESS
      updatedAt := now
      round := st.round+1 } := by
  cases old with
  | none => cases h
  | some st =>
    simp only [SpecApprovals.reopenForRetry] at h
    split at h
    · cases h
    · next hd =>
      split at h
      · cases h
      · next hp =>
        cases h
        exact ⟨st,rfl,by simpa using hd,not_not.mp hp,rfl⟩

/-- What a turn leaves: the attempts stay in their bound, and only a turn that is accepted and has
written something converges. -/
structure Turned (verdict : Verdict) (wrote : Bool) (st st' : FeatureStatus) : Prop where
  slug : st'.slug = st.slug
  dismissed : st'.dismissed = st.dismissed
  attempts : st.attempts ≤ MAX_ATTEMPTS → st'.attempts ≤ MAX_ATTEMPTS
  converged : st'.phase = .converged → verdict = .yes ∧ wrote

theorem judge_turned (verdict : Verdict) (wrote : Bool) (st : FeatureStatus) :
    Turned verdict wrote st (judge verdict wrote st) := by
  cases verdict with
  | yes => cases wrote <;> exact ⟨rfl,rfl,id,by simp [judge]⟩
  | fail => exact ⟨rfl,rfl,id,by simp [judge]⟩
  | no | missing =>
    simp only [judge]
    split
    · exact ⟨rfl,rfl,id,by simp⟩
    · next hlt => exact ⟨rfl,rfl,fun _ => by dsimp only; omega,by simp⟩

theorem turn_ok {verdict : Verdict} {report : TurnReport} {now : Instant} {old : Option FeatureStatus}
    {st' : FeatureStatus} (h : implementTurn L verdict report now old = .ok st') :
    ∃ st, old = some st ∧ st.phase = .implement ∧ Turned verdict (wrote report.writePaths) st st' := by
  cases old with
  | none => cases h
  | some st =>
    simp only [implementTurn, applyImplementTurn] at h
    split at h
    · cases h
    · next hp =>
      refine ⟨st,rfl,not_not.mp hp,?_⟩
      split at h
      · cases h
        exact ⟨rfl,rfl,id,by simp⟩
      · cases h
        have ht := judge_turned verdict (wrote report.writePaths)
          { st with
            updatedAt := now
            provider := if providerLabelForUser report.provider = "" then st.provider
              else providerLabelForUser report.provider }
        exact ⟨ht.slug,ht.dismissed,ht.attempts,ht.converged⟩

theorem turn_of_implement {st : FeatureStatus} (h : st.phase = .implement) (verdict : Verdict) (report : TurnReport)
    (now : Instant) : ∃ st', implementTurn L verdict report now (some st) = .ok st' := by
  simp only [implementTurn, applyImplementTurn, if_neg (not_not.mpr h)]
  split <;> exact ⟨_,rfl⟩

theorem uniqueSlug_ok {s : Store} {base slug : String} (h : uniqueSlug s base = .ok slug) :
    isSlug slug ∧ s slug = none := by
  unfold uniqueSlug at h
  split at h
  · cases h
  · next hb =>
    split at h
    · next hn =>
      cases h
      exact ⟨by simpa using hb,by simpa using hn⟩
    · split at h
      · next c hc =>
        cases h
        have hfound := List.find?_some hc
        simpa using hfound
      · cases h

theorem specify_ok {s : Store} {title description : String} {now : Instant} {st' : FeatureStatus}
    (h : specify L s title description now = .ok st') :
    isSlug st'.slug ∧ s st'.slug = none ∧ st' = SpecApprovals.specify st'.slug (trim title) now := by
  unfold specify at h
  split at h
  · cases h
  · cases hu : uniqueSlug s (slugify L (trim title)) with
    | error e => rw [hu] at h; cases h
    | ok slug =>
      rw [hu] at h
      cases h
      obtain ⟨hslug,hfree⟩ := uniqueSlug_ok hu
      exact ⟨hslug,hfree,rfl⟩

/-- The operation takes the spec on in the phase in which it is. -/
def Takes (op : Operation) (st : FeatureStatus) : Prop :=
  match op with
  | .approve _ | .reject _ _ => st.phase = .awaitingValidation
  | .implementTurn _ _ _ => st.phase = .implement
  | .reopenForRetry _ => st.dismissed = false ∧ st.phase = .failed
  | _ => False

/-- The turn of an accepted verdict that has written the feature. -/
def Accepted (op : Operation) : Prop :=
  match op with
  | .implementTurn _ verdict report => verdict = .yes ∧ wrote report.writePaths
  | _ => False

/-- What an operation makes of a spec that it has read. -/
structure Change (op : Operation) (st st' : FeatureStatus) : Prop where
  slug : st'.slug = st.slug
  attempts : st.attempts ≤ MAX_ATTEMPTS → st'.attempts ≤ MAX_ATTEMPTS
  dismissed : st.dismissed → st'.dismissed
  converged : st'.phase = .converged → st.phase = .converged ∨ (st.phase = .implement ∧ Accepted op)
  taken : st'.phase = st.phase ∨ Takes op st

def target : Operation → Option String
  | .specify _ _ => none
  | .revise slug _ _ | .approve slug | .reject slug _ | .implementTurn slug _ _ | .dismiss slug
  | .reopenForRetry slug => some slug

/-- A new spec is stored under a free name; another operation changes the spec that it names. -/
theorem result_ok {s : Store} {now : Instant} {op : Operation} {st' : FeatureStatus}
    (h : result L s now op = .ok st') :
    (target op = none ∧ isSlug st'.slug ∧ s st'.slug = none ∧ st'.attempts = 0 ∧ st'.phase = .awaitingValidation) ∨
    ∃ slug st, target op = some slug ∧ isSlug slug ∧ s slug = some st ∧ Change op st st' := by
  cases op with
  | specify title description =>
    obtain ⟨hslug,hfree,hnew⟩ := specify_ok L h
    exact Or.inl ⟨rfl,hslug,hfree,by rw [hnew]; rfl,by rw [hnew]; rfl⟩
  | revise slug title description =>
    simp only [result] at h
    split at h
    · cases h
    · obtain ⟨hslug,h⟩ := read_ok h
      obtain ⟨st,hst,hd,hp,rfl⟩ := revise_ok h
      exact Or.inr ⟨slug,st,rfl,hslug,hst,rfl,id,id,by simp [hp],Or.inl rfl⟩
  | approve slug =>
    obtain ⟨hslug,h⟩ := read_ok h
    obtain ⟨st,hst,hp,rfl⟩ := approve_ok h
    exact Or.inr ⟨slug,st,rfl,hslug,hst,rfl,fun _ => (by decide : 1 ≤ MAX_ATTEMPTS),id,by simp,Or.inr hp⟩
  | reject slug note =>
    obtain ⟨hslug,h⟩ := read_ok h
    obtain ⟨st,hst,hp,rfl⟩ := reject_ok h
    exact Or.inr ⟨slug,st,rfl,hslug,hst,rfl,id,fun _ => rfl,by simp,Or.inr hp⟩
  | implementTurn slug verdict report =>
    obtain ⟨hslug,h⟩ := read_ok h
    obtain ⟨st,hst,hp,ht⟩ := turn_ok L h
    exact Or.inr ⟨slug,st,rfl,hslug,hst,ht.slug,ht.attempts,fun hd => ht.dismissed.trans hd,
      fun hc => Or.inr ⟨hp,ht.converged hc⟩,Or.inr hp⟩
  | dismiss slug =>
    obtain ⟨hslug,h⟩ := read_ok h
    obtain ⟨st,hst,rfl | rfl⟩ := dismiss_ok h
    · exact Or.inr ⟨slug,st',rfl,hslug,hst,rfl,id,id,Or.inl,Or.inl rfl⟩
    · exact Or.inr ⟨slug,st,rfl,hslug,hst,rfl,id,fun _ => rfl,Or.inl,Or.inl rfl⟩
  | reopenForRetry slug =>
    obtain ⟨hslug,h⟩ := read_ok h
    obtain ⟨st,hst,hd,hp,rfl⟩ := reopen_ok h
    exact Or.inr ⟨slug,st,rfl,hslug,hst,rfl,fun _ => (by decide : 1 ≤ MAX_ATTEMPTS),id,by simp,Or.inr ⟨hd,hp⟩⟩

theorem step_ok {s : Store} {a : Instant × Operation} {st' : FeatureStatus} (h : result L s a.1 a.2 = .ok st') :
    step L s a = Function.update s st'.slug (some st') := by
  rw [step, h]

theorem step_error {s : Store} {a : Instant × Operation} {e : String} (h : result L s a.1 a.2 = .error e) :
    step L s a = s := by
  rw [step, h]

/-- Where a stored spec comes from. -/
theorem step_some {s : Store} (hs : Stored s) {a : Instant × Operation} {slug : String} {st' : FeatureStatus}
    (h : step L s a slug = some st') :
    s slug = some st' ∨
    (s slug = none ∧ isSlug slug ∧ st'.slug = slug ∧ st'.attempts = 0 ∧ st'.phase = .awaitingValidation) ∨
    ∃ st, target a.2 = some slug ∧ s slug = some st ∧ Change a.2 st st' := by
  cases hr : result L s a.1 a.2 with
  | error e =>
    rw [step_error L hr] at h
    exact Or.inl h
  | ok new =>
    rw [step_ok L hr] at h
    by_cases he : slug = new.slug
    · rw [he, Function.update_self] at h
      cases h
      rw [he]
      obtain ⟨-,hslug,hfree,hatt,hphase⟩ | ⟨slug',st,ht,hslug,hst,hc⟩ := result_ok L hr
      · exact Or.inr (Or.inl ⟨hfree,hslug,rfl,hatt,hphase⟩)
      · have hname : st'.slug = slug' := hc.slug.trans (hs slug' st hst).slug
        rw [hname]
        exact Or.inr (Or.inr ⟨st,ht,hst,hc⟩)
    · rw [Function.update_of_ne he] at h
      exact Or.inl h

theorem stored_step {s : Store} (hs : Stored s) (a : Instant × Operation) : Stored (step L s a) := by
  intro slug st' h
  obtain hold | ⟨-,hslug,hname,hatt,-⟩ | ⟨st,-,hst,hc⟩ := step_some L hs h
  · exact hs slug st' hold
  · exact ⟨hslug,hname,by omega⟩
  · have hf := hs slug st hst
    exact ⟨hf.named,hc.slug.trans hf.slug,hc.attempts hf.attempts⟩

/-- Another spec than the one that is named stays as it is. -/
theorem step_other {s : Store} (hs : Stored s) {a : Instant × Operation} {slug : String} {st : FeatureStatus}
    (h : s slug = some st) (hne : target a.2 ≠ some slug) : step L s a slug = some st := by
  cases hr : result L s a.1 a.2 with
  | error e => rwa [step_error L hr]
  | ok new =>
    rw [step_ok L hr]
    have hne : slug ≠ new.slug := by
      intro he
      obtain ⟨-,-,hfree,-⟩ | ⟨slug',st₀,ht,-,hst,hc⟩ := result_ok L hr
      · rw [← he, h] at hfree
        cases hfree
      · have hname : slug = slug' := he.trans (hc.slug.trans (hs slug' st₀ hst).slug)
        exact hne (hname ▸ ht)
    rwa [Function.update_of_ne hne]

/-! ## The lifecycle -/

def Within (s : Store) : Prop := ∀ slug st, s slug = some st → st.attempts ≤ MAX_ATTEMPTS

/-- A spec converges by an accepted turn of its implementation. -/
def Converges (s : Store) (a : Instant × Operation) : Prop :=
  ∀ slug st', step L s a slug = some st' → st'.phase = .converged →
    ∃ st, s slug = some st ∧
      (st.phase = .converged ∨ (target a.2 = some slug ∧ st.phase = .implement ∧ Accepted a.2))

/-- A turn of the implementation of the spec is carried out. -/
def Implements (s : Store) (a : Instant × Operation) (slug : String) : Prop :=
  ∃ verdict report st', a.2 = .implementTurn slug verdict report ∧ result L s a.1 a.2 = .ok st'

/-- A spec that is rejected or dismissed stays in its phase, is not implemented, and stays dismissed. -/
def Frozen (s : Store) (a : Instant × Operation) : Prop :=
  ∀ slug st, s slug = some st → st.dismissed = true ∨ st.phase = .rejected →
    ¬Implements L s a slug ∧
      ∃ st', step L s a slug = some st' ∧ st'.phase = st.phase ∧ (st.dismissed → st'.dismissed)

structure Lifecycle (s : Store) (a : Instant × Operation) : Prop where
  within : Within (step L s a)
  converges : Converges L s a
  frozen : Frozen L s a

/-- A spec that is dismissed is not approved, refused or implemented. -/
def Undismissed (s : Store) (a : Instant × Operation) : Prop :=
  match a.2 with
  | .approve slug | .reject slug _ => ∀ st ∈ s slug, st.phase = .awaitingValidation → st.dismissed = false
  | .implementTurn slug _ _ => ∀ st ∈ s slug, st.phase = .implement → st.dismissed = false
  | _ => True

instance (s : Store) (a : Instant × Operation) : Decidable (Undismissed s a) := by
  unfold Undismissed
  split <;> infer_instance

theorem converges_step {s : Store} (hs : Stored s) (a : Instant × Operation) : Converges L s a := by
  intro slug st' h hp
  obtain hold | ⟨-,-,-,-,hnew⟩ | ⟨st,ht,hst,hc⟩ := step_some L hs h
  · exact ⟨st',hold,Or.inl hp⟩
  · rw [hnew] at hp
    cases hp
  · exact ⟨st,hst,(hc.converged hp).imp_right (fun hi => ⟨ht,hi⟩)⟩

/-- A spec that is rejected, or dismissed in an orderly step, is not taken on. -/
theorem not_takes {s : Store} {a : Instant × Operation} (ho : Undismissed s a) {slug : String} {st : FeatureStatus}
    (hst : s slug = some st) (ht : target a.2 = some slug) (hstuck : st.dismissed = true ∨ st.phase = .rejected) :
    ¬Takes a.2 st := by
  obtain ⟨now,op⟩ := a
  cases op with
  | specify | revise | dismiss => exact id
  | approve | reject | implementTurn =>
    cases ht
    intro hp
    have hd := ho st hst hp
    obtain h | h := hstuck
    · rw [hd] at h
      cases h
    · simp [Takes, h] at hp
  | reopenForRetry =>
    rintro ⟨hd,hp⟩
    obtain h | h := hstuck
    · rw [hd] at h
      cases h
    · simp [h] at hp

theorem frozen_of_undismissed {s : Store} (hs : Stored s) {a : Instant × Operation} (ho : Undismissed s a) :
    Frozen L s a := by
  intro slug st hst hstuck
  by_cases ht : target a.2 = some slug
  · have hno := not_takes ho hst ht hstuck
    constructor
    · rintro ⟨verdict,report,st',hop,hr⟩
      rw [hop] at hr hno
      obtain ⟨-,hr⟩ := read_ok hr
      obtain ⟨st₀,hst₀,hp,-⟩ := turn_ok L hr
      rw [hst] at hst₀
      cases hst₀
      exact hno hp
    · cases hr : result L s a.1 a.2 with
      | error e => exact ⟨st,by rwa [step_error L hr],rfl,id⟩
      | ok new =>
        obtain ⟨hn,-⟩ | ⟨slug',st₀,ht',-,hst₀,hc⟩ := result_ok L hr
        · rw [ht] at hn
          cases hn
        · rw [ht] at ht'
          cases ht'
          rw [hst] at hst₀
          cases hst₀
          have hname : slug = new.slug := (hc.slug.trans (hs slug st hst).slug).symm
          refine ⟨new,?_,hc.taken.resolve_right hno,hc.dismissed⟩
          rw [step_ok L hr, ← hname, Function.update_self]
  · refine ⟨?_,st,step_other L hs hst ht,rfl,id⟩
    rintro ⟨verdict,report,st',hop,-⟩
    rw [hop] at ht
    exact ht rfl

theorem undismissed_of_frozen {s : Store} (hs : Stored s) {a : Instant × Operation} (hf : Frozen L s a) :
    Undismissed s a := by
  obtain ⟨now,op⟩ := a
  cases op with
  | specify | revise | dismiss | reopenForRetry => trivial
  | approve slug =>
    intro st hst hp
    by_contra hd
    obtain ⟨-,st',hst',hp',-⟩ := hf slug st hst (Or.inl (by simpa using hd))
    have hr : result L s now (.approve slug) = .ok { st with
        phase := .implement
        attempts := 1
        note := NOTE_IN_PROGRESS
        blocker := ""
        updatedAt := now } := by
      simp only [result, read_of_stored hs hst, Except.bind, SpecApprovals.approve]
      rw [if_neg (not_not.mpr hp)]
    rw [step_ok L hr] at hst'
    dsimp only at hst'
    rw [(hs slug st hst).slug, Function.update_self] at hst'
    cases hst'
    simp [hp] at hp'
  | reject slug note =>
    intro st hst hp
    by_contra hd
    obtain ⟨-,st',hst',hp',-⟩ := hf slug st hst (Or.inl (by simpa using hd))
    have hr : result L s now (.reject slug note) = .ok { st with
        phase := .rejected
        dismissed := true
        note := if trim note = "" then "Spec refusée. Aucun code." else trim note
        updatedAt := now } := by
      simp only [result, read_of_stored hs hst, Except.bind, SpecApprovals.reject]
      rw [if_neg (not_not.mpr hp)]
    rw [step_ok L hr] at hst'
    dsimp only at hst'
    rw [(hs slug st hst).slug, Function.update_self] at hst'
    cases hst'
    simp [hp] at hp'
  | implementTurn slug verdict report =>
    intro st hst hp
    by_contra hd
    have hno := (hf slug st hst (Or.inl (by simpa using hd))).1
    obtain ⟨st',hr⟩ := turn_of_implement L hp verdict report now
    refine hno ⟨verdict,report,st',rfl,?_⟩
    simp only [result, read_of_stored hs hst, Except.bind]
    exact hr

theorem lifecycle_step {s : Store} (hs : Stored s) (a : Instant × Operation) : Lifecycle L s a ↔ Undismissed s a :=
  ⟨fun h => undismissed_of_frozen L hs h.frozen,
    fun h => ⟨fun slug st hst => (stored_step L hs a slug st hst).attempts,converges_step L hs a,
      frozen_of_undismissed L hs h⟩⟩

/-- The specs follow their lifecycle exactly in the runs that leave those that are dismissed alone. -/
theorem lifecycle_iff (start : Store) (hs : Stored start) (acts : List (Instant × Operation)) :
    Guarded (step L) (Lifecycle L) acts start ↔ Guarded (step L) Undismissed acts start :=
  guarded_congr_within (step L) Stored (fun _ a h _ => stored_step L h a) (fun _ a h => lifecycle_step L h a)
    acts start hs

end

def asciiLetters : Letters := ⟨Char.isAlpha,Char.toLower⟩

def written : TurnReport := ⟨"Terminé.",["src/main.rs"],"chain:xAI"⟩

/-- A spec that is implemented in one turn. -/
theorem implemented_in_one_turn : Guarded (step asciiLetters) (Lifecycle asciiLetters)
    [(1,.specify "Panier" "Un panier"),(2,.approve "panier"),(3,.implementTurn "panier" .yes written),
      (4,.dismiss "panier")] (fun _ => none) :=
  (lifecycle_iff asciiLetters (fun _ => none) stored_none _).mpr (by decide +kernel)

/-- A spec is taken off the list while it waits, approved, and implemented. -/
theorem dismissed_spec_implemented :
    ¬∀ acts, Guarded (step asciiLetters) (Lifecycle asciiLetters) acts (fun _ => none) := by
  intro h
  have hrun := h [(1,.specify "Panier" "Un panier"),(2,.dismiss "panier"),(3,.approve "panier"),
    (4,.implementTurn "panier" .yes written)]
  have hstored := stored_step asciiLetters (stored_step asciiLetters stored_none (1,.specify "Panier" "Un panier"))
    (2,.dismiss "panier")
  have happroved := undismissed_of_frozen asciiLetters hstored hrun.2.2.1.frozen
  exact absurd happroved (by decide +kernel)

end DevForge.SpecLifecycle
