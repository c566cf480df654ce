import DevForge.Sql
import Mathlib.Data.List.Sort

/-!
# The guard of automatic deployments

Before the poller deploys the tip of a branch it reads the last deployments
of the environment. A commit whose deployment failed is held back until a
later one succeeds; after failures of other commits the poller waits.
-/

set_option autoImplicit false

namespace DevForge.AutoDeployGuard

def BASE_BACKOFF_MIN : ℕ := 2
def MAX_BACKOFF_MIN : ℕ := 60
def HISTORY : ℕ := 20

structure Attempt where
  sha : Option String
  status : String
  createdAt : Instant
  deriving DecidableEq, Repr

inductive Gate where
  | go
  | sameShaFailed (sha : String)
  | backoff (until_ : Instant) (failures : ℕ)
  deriving DecidableEq, Repr

def isAsciiHexdigit (c : Char) : Bool :=
  ('0' ≤ c && c ≤ '9') || ('a' ≤ c && c ≤ 'f') || ('A' ≤ c && c ≤ 'F')

def usable (sha : String) : Bool :=
  let s := trim sha
  7 ≤ s.utf8ByteSize && s.toList.all isAsciiHexdigit

/-- A short SHA and a full one are the same when one starts with the other. -/
def sameSha (a b : String) : Bool :=
  let a := toAsciiLowercase (trim a)
  let b := toAsciiLowercase (trim b)
  usable a && usable b && (b.toList.isPrefixOf a.toList || a.toList.isPrefixOf b.toList)

/-- Minutes, in seconds. -/
def backoffFor (failures : ℕ) : ℕ :=
  if failures = 0 then 0
  else 60*min (BASE_BACKOFF_MIN*2^min (failures-1) 10) MAX_BACKOFF_MIN

def Attempt.succeeded (a : Attempt) : Bool := a.status = "success" || a.status = "ready"

def Attempt.failed (a : Attempt) : Bool := a.status = "failed" || a.status = "error"

def Attempt.isOf (tip : String) (a : Attempt) : Bool := a.sha.any (sameSha · tip)

def afterLoop (now : Instant) (failures : ℕ) : Option Instant → Gate
  | none => .go
  | some t =>
    if now < t+backoffFor failures then .backoff (t+backoffFor failures) failures else .go

def decideFrom (tip : String) (now : Instant) (failures : ℕ) (lastFailure : Option Instant) :
    List Attempt → Gate
  | [] => afterLoop now failures lastFailure
  | a::as =>
    if a.succeeded then afterLoop now failures lastFailure
    else if a.failed then
      if a.isOf tip then .sameShaFailed (String.ofList (tip.toList.take 7))
      else decideFrom tip now (failures+1) (lastFailure.or (some a.createdAt)) as
    else decideFrom tip now failures lastFailure as

/-- The history goes from the newest deployment to the oldest. -/
def decide (tip : String) (history : List Attempt) (now : Instant) : Gate :=
  decideFrom tip now 0 none history

/-- The columns of `deployments` that the guard reads. -/
structure Row where
  projectId : ℕ
  environment : Option String
  targetSha : Option String
  gitSha : Option String
  status : String
  createdAt : Instant
  deriving DecidableEq, Repr

/-- The SHA built comes before the SHA aimed at. -/
def Row.recordedSha (r : Row) : Option String := (r.gitSha.filter usable).or (r.targetSha.filter usable)

def Row.attempt (r : Row) : Attempt := ⟨r.recordedSha,r.status,r.createdAt⟩

def Row.isIn (project : ℕ) (environment : String) (r : Row) : Bool :=
  r.projectId = project && r.environment.getD "production" = environment

/-- What the query can return before its limit: rows created at the same
instant come in any order. -/
structure Answer (rows : List Row) (project : ℕ) (environment : String) where
  list : List Row
  perm : list.Perm (rows.filter (Row.isIn project environment))
  sorted : list.Pairwise (fun a b => b.createdAt ≤ a.createdAt)

variable {rows : List Row} {project : ℕ} {environment : String}

def Answer.recent (answer : Answer rows project environment) : List Row := answer.list.take HISTORY

def loadHistory (answer : Answer rows project environment) : List Attempt :=
  answer.recent.map Row.attempt

/-- A deployment of the commit failed and no newer one succeeded. -/
def FailedSince (sha : Row → Option String) (tip : String) (newestFirst : List Row) : Prop :=
  ∃ newer r older, newestFirst = newer++r::older ∧ (∀ d ∈ newer, d.attempt.succeeded = false) ∧
    r.attempt.failed ∧ (sha r).any (sameSha · tip)

theorem Attempt.not_succeeded_of_failed (a : Attempt) (h : a.failed) : a.succeeded = false := by
  simp only [Attempt.failed, Bool.or_eq_true, decide_eq_true_eq] at h
  rcases h with h | h <;> simp [Attempt.succeeded, h]

theorem failedSince_nil (sha : Row → Option String) (tip : String) : ¬ FailedSince sha tip [] := by
  rintro ⟨newer,r,older,h,_⟩
  simp at h

theorem failedSince_cons (sha : Row → Option String) (tip : String) (r : Row) (rs : List Row) :
    FailedSince sha tip (r::rs) ↔ (r.attempt.failed ∧ (sha r).any (sameSha · tip)) ∨
      (r.attempt.succeeded = false ∧ FailedSince sha tip rs) := by
  constructor
  · rintro ⟨newer,r',older,h,hn,hf,hs⟩
    cases newer with
    | nil =>
      obtain ⟨rfl,_⟩ := List.cons.inj h
      exact Or.inl ⟨hf,hs⟩
    | cons d newer =>
      obtain ⟨rfl,rfl⟩ := List.cons.inj h
      exact Or.inr ⟨hn r (by simp),newer,r',older,rfl,fun d hd => hn d (by simp [hd]),hf,hs⟩
  · rintro (⟨hf,hs⟩ | ⟨hd,newer,r',older,rfl,hn,hf,hs⟩)
    · exact ⟨[],r,rs,rfl,by simp,hf,hs⟩
    · exact ⟨r::newer,r',older,rfl,by simpa [hd] using hn,hf,hs⟩

theorem decideFrom_failed (tip : String) (now : Instant) (rs : List Row) (failures : ℕ)
    (lastFailure : Option Instant) (h : FailedSince Row.recordedSha tip rs) :
    decideFrom tip now failures lastFailure (rs.map Row.attempt) =
      .sameShaFailed (String.ofList (tip.toList.take 7)) := by
  induction rs generalizing failures lastFailure with
  | nil => exact absurd h (failedSince_nil _ tip)
  | cons r rs ih =>
    rw [List.map_cons, decideFrom]
    rcases (failedSince_cons _ tip r rs).mp h with ⟨hf,hs⟩ | ⟨hn,hr⟩
    · have ho : r.attempt.isOf tip := hs
      simp [r.attempt.not_succeeded_of_failed hf, hf, ho]
    · rw [hn]
      by_cases hf : r.attempt.failed
      · by_cases ho : r.attempt.isOf tip
        · simp [hf, ho]
        · simpa [hf, ho] using ih _ _ hr
      · simpa [hf] using ih _ _ hr

theorem backoffFor_le (failures : ℕ) : backoffFor failures ≤ 60*MAX_BACKOFF_MIN := by
  unfold backoffFor
  split
  · omega
  · exact Nat.mul_le_mul_left 60 (Nat.min_le_right _ _)

theorem afterLoop_go (now : Instant) (failures : ℕ) (lastFailure : Option Instant)
    (h : ∀ t ∈ lastFailure, t+60*MAX_BACKOFF_MIN ≤ now) : afterLoop now failures lastFailure = .go := by
  cases lastFailure with
  | none => rfl
  | some t =>
    have ht := h t rfl
    have hb := backoffFor_le failures
    have hn : ¬ now < t+backoffFor failures :=
      Nat.not_lt.mpr (le_trans (Nat.add_le_add_left hb t) ht)
    simp [afterLoop, hn]

theorem decideFrom_go (tip : String) (now : Instant) (rs : List Row) (failures : ℕ)
    (lastFailure : Option Instant) (h : ¬ FailedSince Row.recordedSha tip rs)
    (ht : ∀ t ∈ lastFailure, t+60*MAX_BACKOFF_MIN ≤ now)
    (hr : ∀ r ∈ rs, r.createdAt+60*MAX_BACKOFF_MIN ≤ now) :
    decideFrom tip now failures lastFailure (rs.map Row.attempt) = .go := by
  induction rs generalizing failures lastFailure with
  | nil => exact afterLoop_go now failures lastFailure ht
  | cons r rs ih =>
    rw [failedSince_cons, not_or, not_and, not_and] at h
    have hrs : ∀ d ∈ rs, d.createdAt+60*MAX_BACKOFF_MIN ≤ now := fun d hd => hr d (by simp [hd])
    rw [List.map_cons, decideFrom]
    by_cases hs : r.attempt.succeeded
    · simpa [hs] using afterLoop_go now failures lastFailure ht
    · have hn := h.2 (by simpa using hs)
      by_cases hf : r.attempt.failed
      · have ho : ¬ r.attempt.isOf tip := h.1 hf
        have hl : ∀ t ∈ lastFailure.or (some r.attempt.createdAt), t+60*MAX_BACKOFF_MIN ≤ now := by
          cases lastFailure with
          | none => simpa [Row.attempt] using hr r (by simp)
          | some t => simpa using ht
        simpa [hs, hf, ho] using ih _ _ hn hl hrs
      · simpa [hs, hf] using ih _ _ hn ht hrs

theorem exists_createdAt_le (rs : List Row) : ∃ m, ∀ r ∈ rs, r.createdAt ≤ m := by
  induction rs with
  | nil => exact ⟨0,by simp⟩
  | cons r rs ih =>
    obtain ⟨m,hm⟩ := ih
    refine ⟨max r.createdAt m,fun d hd => ?_⟩
    rcases List.mem_cons.mp hd with rfl | hd
    · exact Nat.le_max_left _ _
    · exact le_trans (hm d hd) (Nat.le_max_right _ _)

/-- The commit is held back at every instant exactly when one of the last
deployments recorded it as failed. -/
theorem held_iff (answer : Answer rows project environment) (tip : String) :
    (∀ now, decide tip (loadHistory answer) now ≠ .go) ↔
      FailedSince Row.recordedSha tip answer.recent := by
  constructor
  · intro hgo
    by_contra h
    obtain ⟨m,hm⟩ := exists_createdAt_le answer.recent
    apply hgo (m+60*MAX_BACKOFF_MIN)
    apply decideFrom_go tip _ answer.recent 0 none h (by simp)
    intro r hr
    exact Nat.add_le_add_right (hm r hr) _
  · intro h now
    rw [decide, loadHistory, decideFrom_failed tip now _ _ _ h]
    simp

theorem recordedSha_git (r : Row) (sha : String) (hg : r.gitSha = some sha) (hu : usable sha) :
    r.recordedSha = some sha := by
  rw [Row.recordedSha, hg, Option.filter_some_pos hu]
  rfl

theorem recordedSha_target (r : Row) (sha : String) (ht : r.targetSha = some sha) (hu : usable sha)
    (hg : ∀ sha ∈ r.gitSha, usable sha = false) : r.recordedSha = some sha := by
  have hnone : r.gitSha.filter usable = none := by
    apply Option.filter_eq_none_iff.mpr
    intro sha hs
    rw [hg sha hs]
    exact Bool.false_ne_true
  rw [Row.recordedSha, hnone, ht, Option.filter_some_pos hu]
  rfl

/-- A build that reports no SHA of another commit leaves the deployment
recorded under the commit aimed at, until twenty newer ones hide it. -/
theorem recorded_of_target (answer : Answer rows project environment) (tip : String)
    (newer older : List Row) (r : Row) (hl : answer.list = newer++r::older)
    (hw : newer.length < HISTORY) (hn : ∀ d ∈ newer, d.attempt.succeeded = false)
    (hf : r.attempt.failed) (sha : String) (ht : r.targetSha = some sha) (hu : usable sha)
    (hs : sameSha sha tip) (hg : ∀ sha ∈ r.gitSha, usable sha → sameSha sha tip) :
    FailedSince Row.recordedSha tip answer.recent := by
  have hk : HISTORY-newer.length = (HISTORY-newer.length-1)+1 := by omega
  refine ⟨newer,r,older.take (HISTORY-newer.length-1),?_,hn,hf,?_⟩
  · rw [Answer.recent, hl, List.take_append, List.take_of_length_le (by omega), hk,
      List.take_succ_cons]
    rfl
  · by_cases hgit : ∃ built ∈ r.gitSha, usable built
    · obtain ⟨built,hb,hub⟩ := hgit
      rw [recordedSha_git r built hb hub, Option.any_some]
      exact hg built hb hub
    · have hnot : ∀ built ∈ r.gitSha, usable built = false :=
        fun built hb => Bool.eq_false_iff.mpr (fun h => hgit ⟨built,hb,h⟩)
      rw [recordedSha_target r sha ht hu hnot, Option.any_some]
      exact hs

def tip : String := "0c4711b2e5f0a1b2c3d4e5f60718293a4b5c6d7e"

end DevForge.AutoDeployGuard
