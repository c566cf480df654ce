import DevForge.WebhookDeliveries
import Mathlib.Data.List.Perm.Basic

/-!
# Each delivery is processed once

The identifiers of the requests, of the rows the pass has read and of the
processing tasks are pairwise distinct, as long as the pass reads no row that
is being worked on and no more rows than it can take up. A row that is left as
received is then always the business of one of them.
-/

set_option autoImplicit false

namespace DevForge.DeliveredOnce
open Transition WebhookDeliveries

/-! ## What is claimed of a state -/

def Resume.isDone : Resume → Bool
  | .done => true
  | _ => false

def Quiet (s : State) : Prop := s.requests = [] ∧ s.processing = [] ∧ Resume.isDone s.resume

/-- A bound on the steps that the work in progress still takes. -/
def weight (s : State) : ℕ :=
  2*s.requests.length+s.processing.length+
    match s.resume with
    | .waiting => 103
    | .marked => 102
    | .loading rows => 2*rows.length+1
    | .done => 0

def IsWork : Action → Prop
  | .post _ _ => False
  | .crash => False
  | _ => True

structure ProcessedOnce (ps : Parsers) (s : State) : Prop where
  once : s.started.Nodup
  kept : ∀ e ∈ s.ended, ∃ r, s.rows.get e.1 = some r ∧ r.status = e.2
  settled : Quiet s → ∀ k r, s.rows.get k = some r → r.status ≠ .received
  busy : Quiet s ∨ ∃ a, IsWork a ∧ weight (step ps s a) < weight s
  ends : ∀ a, IsWork a → step ps s a = s ∨ weight (step ps s a) < weight s

/-- The database carries out the statements, and the pass reads no row that is
being worked on and no more rows than it takes up. -/
def Orderly (s : State) : Action → Prop
  | .post _ _ => True
  | .answer _ _ written => written
  | .finish _ _ _ written => written
  | .resumeMark written => written
  | .resumeSelect read => read ∧ s.pending.length ≤ 50 ∧
      ∀ acc ∈ s.requests++s.processing, acc.deliveryId ∉ s.pending.map Prod.fst
  | .resumeNext written => written
  | .crash => True

instance decidableOrderly (s : State) (a : Action) : Decidable (Orderly s a) :=
  match a with
  | .post _ _ => inferInstanceAs (Decidable True)
  | .answer _ _ written => inferInstanceAs (Decidable (written = true))
  | .finish _ _ _ written => inferInstanceAs (Decidable (written = true))
  | .resumeMark written => inferInstanceAs (Decidable (written = true))
  | .resumeSelect read => inferInstanceAs (Decidable (read = true ∧ s.pending.length ≤ 50 ∧
      ∀ acc ∈ s.requests++s.processing, acc.deliveryId ∉ s.pending.map Prod.fst))
  | .resumeNext written => inferInstanceAs (Decidable (written = true))
  | .crash => inferInstanceAs (Decidable True)

/-! ## The work comes to an end -/

theorem length_eraseIdx {α : Type*} {l : List α} {n : ℕ} {a : α} (h : l[n]? = some a) :
    (l.eraseIdx n).length+1 = l.length := by
  obtain ⟨hn,_⟩ := List.getElem?_eq_some_iff.mp h
  rw [List.length_eraseIdx_of_lt hn]
  omega

theorem answer_ends (s : State) (n : ℕ) (known written : Bool) :
    s.answer n known written = s ∨ weight (s.answer n known written) < weight s := by
  unfold State.answer
  cases h : s.requests[n]? with
  | none => exact Or.inl rfl
  | some acc =>
    right
    have hl := length_eraseIdx h
    dsimp only
    split
    · simp only [weight, State.setStatus]
      omega
    split
    · simp only [weight, State.setStatus]
      omega
    · simp only [weight, State.spawn, List.length_append, List.length_singleton]
      omega

theorem finish_ends (s : State) (n : ℕ) (re : Replies) (ms : ℕ) (written : Bool) :
    s.finish n re ms written = s ∨ weight (s.finish n re ms written) < weight s := by
  unfold State.finish
  cases h : s.processing[n]? with
  | none => exact Or.inl rfl
  | some acc =>
    right
    have hl := length_eraseIdx h
    simp only [weight, State.setStatus]
    omega

theorem resume_ends (ps : Parsers) (s : State) (b : Bool) :
    (s.resumeMark b = s ∨ weight (s.resumeMark b) < weight s) ∧
    (s.resumeSelect b = s ∨ weight (s.resumeSelect b) < weight s) ∧
    (s.resumeNext ps b = s ∨ weight (s.resumeNext ps b) < weight s) := by
  cases h : s.resume with
  | waiting => simp [State.resumeMark, State.resumeSelect, State.resumeNext, weight, h]
  | marked =>
    have hl : (s.pending.take 50).length ≤ 50 := List.length_take_le _ _
    cases b <;> simp [State.resumeMark, State.resumeSelect, State.resumeNext, weight, h]
    omega
  | loading rows =>
    cases rows with
    | nil => simp [State.resumeMark, State.resumeSelect, State.resumeNext, weight, h]
    | cons e rest =>
      refine ⟨by simp [State.resumeMark, h],by simp [State.resumeSelect, h],Or.inr ?_⟩
      simp only [State.resumeNext, h]
      split
      · simp [weight, State.setStatus, h]
      · simp [weight, State.spawn, h]
        omega
  | done => simp [State.resumeMark, State.resumeSelect, State.resumeNext, h]

theorem work_ends (ps : Parsers) (s : State) (a : Action) (ha : IsWork a) :
    step ps s a = s ∨ weight (step ps s a) < weight s := by
  cases a with
  | post p inserted => exact ha.elim
  | answer n known written => exact answer_ends s n known written
  | finish n re ms written => exact finish_ends s n re ms written
  | resumeMark written => exact (resume_ends ps s written).1
  | resumeSelect read => exact (resume_ends ps s read).2.1
  | resumeNext written => exact (resume_ends ps s written).2.2
  | crash => exact ha.elim

theorem quiet_or_busy (ps : Parsers) (s : State) :
    Quiet s ∨ ∃ a, IsWork a ∧ weight (step ps s a) < weight s := by
  cases hr : s.requests with
  | cons acc rest =>
    refine Or.inr ⟨.answer 0 true true,trivial,?_⟩
    simp only [step, State.answer, hr, List.getElem?_cons_zero]
    split
    · simp [weight, State.setStatus, hr]
    split
    · simp [weight, State.setStatus, hr]
    · simp [weight, State.spawn, hr]
      omega
  | nil =>
    cases hp : s.processing with
    | cons acc rest =>
      refine Or.inr ⟨.finish 0 ⟨.ok (),.ok (),true⟩ 0 true,trivial,?_⟩
      simp [step, State.finish, weight, State.setStatus, hp]
    | nil =>
      cases h : s.resume with
      | waiting => exact Or.inr ⟨.resumeMark true,trivial,by simp [step, State.resumeMark, weight, h]⟩
      | marked =>
        exact Or.inr ⟨.resumeSelect false,trivial,by simp [step, State.resumeSelect, weight, h]⟩
      | loading rows =>
        refine Or.inr ⟨.resumeNext true,trivial,?_⟩
        cases rows with
        | nil => simp [step, State.resumeNext, weight, h]
        | cons e rest =>
          simp only [step, State.resumeNext, h]
          split
          · simp [weight, State.setStatus, h]
          · simp [weight, State.spawn, h]
            omega
      | done => exact Or.inl ⟨hr,hp,by rw [h]; rfl⟩

/-! ## Final statuses -/

theorem map_processed (r : Except String Unit) (st : Status)
    (h : r.map (fun _ => Status.processed) = .ok st) : st ≠ .received := by
  cases r with
  | error e => simp [Except.map] at h
  | ok u =>
    simp only [Except.map, Except.ok.injEq] at h
    simp [← h]

theorem applyInstallationEvent_ne (action : String) (p : Value) (re : Replies) (st : Status)
    (h : applyInstallationEvent action p re = .ok st) : st ≠ .received := by
  unfold applyInstallationEvent at h
  split at h
  · exact absurd h (by simp)
  split at h
  · split at h
    · exact absurd h (by simp)
    · exact map_processed _ _ h
  · simp only [Except.ok.injEq] at h
    simp [← h]

theorem applyInstallationRepositories_ne (action : String) (p : Value) (re : Replies) (st : Status)
    (h : applyInstallationRepositories action p re = .ok st) : st ≠ .received := by
  unfold applyInstallationRepositories at h
  split at h
  · exact absurd h (by simp)
  split at h
  · exact map_processed _ _ h
  · simp only [Except.ok.injEq] at h
    simp [← h]

theorem handlePullRequest_ne (action : String) (p : Value) (re : Replies) :
    handlePullRequest action p re ≠ .received := by
  unfold handlePullRequest
  cases classify action p <;> cases re.projects <;> simp

theorem finalStatus_ne (acc : Accepted) (re : Replies) : finalStatus acc re ≠ .received := by
  unfold finalStatus
  cases hr : route acc re with
  | error e => simp
  | ok st =>
    show st ≠ .received
    unfold route at hr
    split at hr
    · exact applyInstallationEvent_ne _ _ _ _ hr
    split at hr
    · exact applyInstallationRepositories_ne _ _ _ _ hr
    split at hr
    · split at hr
      · exact absurd hr (by simp)
      · exact map_processed _ _ hr
    split at hr
    · split at hr
      · exact absurd hr (by simp)
      split at hr
      · simp only [Except.ok.injEq] at hr
        simp [← hr]
      · exact map_processed _ _ hr
    split at hr
    · split at hr
      · exact absurd hr (by simp)
      · simp only [Except.ok.injEq] at hr
        rw [← hr]
        exact handlePullRequest_ne _ _ _
    · simp only [Except.ok.injEq] at hr
      simp [← hr]

/-! ## The invariant -/

def loadingIds : Resume → List String
  | .loading rows => rows.map Prod.fst
  | _ => []

/-- The deliveries that are being worked on. -/
def flight (s : State) : List String :=
  s.requests.map (·.deliveryId)++loadingIds s.resume++s.processing.map (·.deliveryId)

/-- The rows that the pass has still to look at. -/
def Left (s : State) (r : Delivery) : Prop :=
  match s.resume with
  | .waiting => True
  | .marked => resumable r
  | _ => False

structure Inv (s : State) : Prop where
  distinct : (flight s).Nodup
  recorded : ∀ k ∈ flight s, (s.rows.get k).isSome
  unended : ∀ k ∈ flight s, ∀ st, (k,st) ∉ s.ended
  kept : ∀ e ∈ s.ended, ∃ r, s.rows.get e.1 = some r ∧ r.status = e.2
  final : ∀ e ∈ s.ended, e.2 ≠ .received
  once : s.started.Nodup
  past : ∀ e ∈ s.started, e.1 ≤ s.life
  running : ∀ k, (s.life,k) ∈ s.started →
    k ∈ s.processing.map (·.deliveryId) ∨ ∃ st, (k,st) ∈ s.ended
  covered : ∀ k r, s.rows.get k = some r → r.status = .received → k ∈ flight s ∨ Left s r

theorem Inv.boot : Inv boot where
  distinct := by decide
  recorded := by simp [flight, WebhookDeliveries.boot, loadingIds]
  unended := by simp [WebhookDeliveries.boot]
  kept := by simp [WebhookDeliveries.boot]
  final := by simp [WebhookDeliveries.boot]
  once := by decide
  past := by simp [WebhookDeliveries.boot]
  running := by simp [WebhookDeliveries.boot]
  covered := by simp [WebhookDeliveries.boot]

/-- The state `s'` is `s` without the work on the delivery `k`. -/
structure Without (s : State) (k : String) (s' : State) : Prop where
  rows : s'.rows = s.rows
  life : s'.life = s.life
  started : s'.started = s.started
  ended : s'.ended = s.ended
  flight : (flight s).Perm (k::flight s')
  left : ∀ r, Left s r → Left s' r
  processing : ∀ k' ∈ s.processing.map (·.deliveryId), k' = k ∨ k' ∈ s'.processing.map (·.deliveryId)

theorem Inv.setStatus {s s' : State} {k : String} (h : Inv s) (hw : Without s k s') (st : Status)
    (hst : st ≠ .received) (ms : Option ℕ) : Inv (s'.setStatus k st ms true) := by
  have hk : k ∈ flight s := hw.flight.mem_iff.mpr (by simp)
  have hsub : ∀ k' ∈ flight s', k' ∈ flight s := fun k' hk' =>
    hw.flight.mem_iff.mpr (by simp [hk'])
  obtain ⟨hnot,hdis⟩ := List.nodup_cons.mp (hw.flight.nodup_iff.mp h.distinct)
  have hget : ∀ k', (s'.setStatus k st ms true).rows.get k' =
      (s.rows.get k').map (fun r => if k' = k then
        { r with status := st, durationMs := coalesce ms r.durationMs, payload := none } else r) := by
    intro k'
    simp [State.setStatus, WebhookDeliveries.setStatus, Table.get_update, hw.rows]
  have hended : (s'.setStatus k st ms true).ended = s.ended++[(k,st)] := by
    simp [State.setStatus, hw.ended]
  constructor
  · exact hdis
  · intro k' hk'
    rw [hget, Option.isSome_map]
    exact h.recorded k' (hsub k' hk')
  · intro k' hk' st' hm
    rw [hended] at hm
    rcases List.mem_append.mp hm with hm | hm
    · exact h.unended k' (hsub k' hk') st' hm
    · simp only [List.mem_singleton, Prod.mk.injEq] at hm
      exact hnot (hm.1 ▸ hk')
  · intro e he
    rw [hended] at he
    rcases List.mem_append.mp he with he | he
    · obtain ⟨r,hr,hs⟩ := h.kept e he
      have hne : e.1 ≠ k := fun heq => h.unended k hk e.2 (heq ▸ he)
      exact ⟨r,by simp [hget, hr, hne],hs⟩
    · simp only [List.mem_singleton] at he
      subst he
      obtain ⟨r,hr⟩ := Option.isSome_iff_exists.mp (h.recorded k hk)
      exact ⟨_,by rw [hget, hr]; rfl,by simp⟩
  · intro e he
    rw [hended] at he
    rcases List.mem_append.mp he with he | he
    · exact h.final e he
    · simp only [List.mem_singleton] at he
      simpa [he] using hst
  · simpa [State.setStatus, hw.started] using h.once
  · simpa [State.setStatus, hw.started, hw.life] using h.past
  · intro k' hk'
    rw [hended]
    have := h.running k' (by simpa [State.setStatus, hw.started, hw.life] using hk')
    rcases this with hp | ⟨st',he⟩
    · rcases hw.processing k' hp with rfl | hp
      · exact Or.inr ⟨st,by simp⟩
      · exact Or.inl hp
    · exact Or.inr ⟨st',by simp [he]⟩
  · intro k' r hr hrec
    rw [hget] at hr
    obtain ⟨r0,hr0,rfl⟩ := Option.map_eq_some_iff.mp hr
    by_cases hkk : k' = k
    · simp [hkk, hst] at hrec
    · simp only [if_neg hkk] at hrec ⊢
      rcases h.covered k' r0 hr0 hrec with hf | hl
      · have := hw.flight.mem_iff.mp hf
        simp only [List.mem_cons, hkk, false_or] at this
        exact Or.inl this
      · exact Or.inr (hw.left r0 hl)

theorem Inv.spawn {s s' : State} {acc : Accepted} (h : Inv s) (hw : Without s acc.deliveryId s')
    (hp : s'.processing = s.processing) : Inv (s'.spawn acc) := by
  have hperm : (flight s).Perm (flight (s'.spawn acc)) := by
    apply hw.flight.trans
    simp only [flight, State.spawn, List.map_append, List.map_cons, List.map_nil]
    rw [← List.append_assoc]
    exact (List.perm_append_singleton _ _).symm
  have hk : acc.deliveryId ∈ flight s := hw.flight.mem_iff.mpr (by simp)
  have hfresh : (s.life,acc.deliveryId) ∉ s.started := by
    intro hm
    rcases h.running _ hm with hr | ⟨st,he⟩
    · have hnot := (List.nodup_cons.mp (hw.flight.nodup_iff.mp h.distinct)).1
      exact hnot (by simp only [flight, hp, List.mem_append]; exact Or.inr hr)
    · exact h.unended _ hk st he
  constructor
  · exact hperm.nodup_iff.mp h.distinct
  · intro k' hk'
    simpa [State.spawn, hw.rows] using h.recorded k' (hperm.mem_iff.mpr hk')
  · intro k' hk' st'
    simpa [State.spawn, hw.ended] using h.unended k' (hperm.mem_iff.mpr hk') st'
  · simpa [State.spawn, hw.ended, hw.rows] using h.kept
  · simpa [State.spawn, hw.ended] using h.final
  · simp only [State.spawn, hw.started, hw.life]
    exact (List.perm_append_singleton _ _).nodup_iff.mpr (List.nodup_cons.mpr ⟨hfresh,h.once⟩)
  · intro e he
    simp only [State.spawn, hw.started, hw.life, List.mem_append, List.mem_singleton] at he ⊢
    rcases he with he | rfl
    · exact h.past e he
    · exact le_refl _
  · intro k' hk'
    simp only [State.spawn, hw.started, hw.life, hw.ended, List.mem_append, List.mem_singleton,
      Prod.mk.injEq, true_and, List.map_append, List.map_cons, List.map_nil, hp] at hk' ⊢
    rcases hk' with hk' | rfl
    · rcases h.running k' hk' with hr | he
      · exact Or.inl (Or.inl hr)
      · exact Or.inr he
    · exact Or.inl (Or.inr rfl)
  · intro k' r hr hrec
    rcases h.covered k' r (by simpa [State.spawn, hw.rows] using hr) hrec with hf | hl
    · exact Or.inl (hperm.mem_iff.mp hf)
    · exact Or.inr (hw.left r hl)

/-! ## The steps -/

theorem perm_eraseIdx {α β : Type*} (f : α → β) {l : List α} {n : ℕ} {a : α} (h : l[n]? = some a) :
    (l.map f).Perm (f a::(l.eraseIdx n).map f) := by
  obtain ⟨hn,rfl⟩ := List.getElem?_eq_some_iff.mp h
  exact ((List.getElem_cons_eraseIdx_perm hn).map f).symm

theorem without_request {s : State} {n : ℕ} {acc : Accepted} (h : s.requests[n]? = some acc) :
    Without s acc.deliveryId { s with requests := s.requests.eraseIdx n } where
  rows := rfl
  life := rfl
  started := rfl
  ended := rfl
  flight := ((perm_eraseIdx (·.deliveryId) h).append_right _).append_right _
  left := fun _ hl => hl
  processing := fun _ hk => Or.inr hk

theorem without_task {s : State} {n : ℕ} {acc : Accepted} (h : s.processing[n]? = some acc) :
    Without s acc.deliveryId { s with processing := s.processing.eraseIdx n } where
  rows := rfl
  life := rfl
  started := rfl
  ended := rfl
  flight := ((perm_eraseIdx (·.deliveryId) h).append_left _).trans List.perm_middle
  left := fun _ hl => hl
  processing := fun k hk => by
    have := (perm_eraseIdx (·.deliveryId) h).mem_iff.mp hk
    simpa using this

theorem without_row {s : State} {k : String} {r : Delivery} {rest : List (String × Delivery)}
    (h : s.resume = .loading ((k,r)::rest)) : Without s k { s with resume := .loading rest } where
  rows := rfl
  life := rfl
  started := rfl
  ended := rfl
  flight := by
    simp only [flight, h, loadingIds, List.map_cons, List.append_assoc, List.cons_append]
    exact List.perm_middle
  left := fun r hl => by simp [Left, h] at hl
  processing := fun _ hk => Or.inr hk

theorem Inv.post {ps : Parsers} {s : State} (h : Inv s) (p : Post) (inserted : Bool) :
    Inv (s.post ps p inserted) := by
  unfold State.post
  split
  · exact h
  rename_i acc _
  split
  · rename_i hc
    have hnone : s.rows.get acc.deliveryId = none := (Table.get_none_iff _ _).mpr hc.2
    have hget : ∀ k, (s.rows.insert acc.deliveryId (received acc p.body)).get k =
        if k = acc.deliveryId then some (received acc p.body) else s.rows.get k := by
      intro k
      simp [Table.get_insert, hc.2]
    have hold : ∀ k, (s.rows.get k).isSome → k ≠ acc.deliveryId := by
      rintro k hk rfl
      simp [hnone] at hk
    have hperm : (flight { s with
        rows := s.rows.insert acc.deliveryId (received acc p.body)
        requests := s.requests++[acc] }).Perm (acc.deliveryId::flight s) := by
      simp only [flight, List.map_append, List.map_cons, List.map_nil, List.append_assoc,
        List.singleton_append]
      exact List.perm_middle
    constructor
    · apply hperm.nodup_iff.mpr
      refine List.nodup_cons.mpr ⟨fun hk => ?_,h.distinct⟩
      exact hold _ (h.recorded _ hk) rfl
    · intro k hk
      rcases List.mem_cons.mp (hperm.mem_iff.mp hk) with rfl | hk
      · simp [hget]
      · simp only [hget]
        split
        · rfl
        · exact h.recorded k hk
    · intro k hk st hm
      rcases List.mem_cons.mp (hperm.mem_iff.mp hk) with rfl | hk
      · obtain ⟨r,hr,_⟩ := h.kept _ hm
        simp [hnone] at hr
      · exact h.unended k hk st hm
    · intro e he
      obtain ⟨r,hr,hs⟩ := h.kept e he
      exact ⟨r,by simp only [hget, if_neg (hold e.1 (by simp [hr]))]; exact hr,hs⟩
    · exact h.final
    · exact h.once
    · exact h.past
    · exact h.running
    · intro k r hr hrec
      simp only [hget] at hr
      split at hr
      · rename_i hk
        exact Or.inl (hperm.mem_iff.mpr (by simp [hk]))
      · rcases h.covered k r hr hrec with hf | hl
        · exact Or.inl (hperm.mem_iff.mpr (by simp [hf]))
        · exact Or.inr hl
  · exact h

theorem Inv.answer {s : State} (h : Inv s) (n : ℕ) (known : Bool) : Inv (s.answer n known true) := by
  unfold State.answer
  cases hn : s.requests[n]? with
  | none => exact h
  | some acc =>
    dsimp only
    split
    · exact h.setStatus (without_request hn) _ (by decide) _
    split
    · exact h.setStatus (without_request hn) _ (by decide) _
    · exact h.spawn (without_request hn) rfl

theorem Inv.finish {s : State} (h : Inv s) (n : ℕ) (re : Replies) (ms : ℕ) :
    Inv (s.finish n re ms true) := by
  unfold State.finish
  cases hn : s.processing[n]? with
  | none => exact h
  | some acc => exact h.setStatus (without_task hn) _ (finalStatus_ne acc re) _

theorem Inv.resumeMark {s : State} (h : Inv s) : Inv (s.resumeMark true) := by
  cases hres : s.resume with
  | waiting =>
    have hf : flight (s.resumeMark true) = flight s := by
      simp [flight, State.resumeMark, hres, loadingIds]
    have hget : ∀ k, (s.resumeMark true).rows.get k = (s.rows.get k).map (fun r =>
        if unresumable r then
          { r with status := .interrupted, durationMs := coalesce r.durationMs (some 0), payload := none }
        else r) := by
      intro k
      simp [State.resumeMark, hres, markUnresumableReceived, Table.get_update]
    have hsame : (s.resumeMark true).ended = s.ended ∧ (s.resumeMark true).started = s.started ∧
        (s.resumeMark true).life = s.life ∧ (s.resumeMark true).processing = s.processing := by
      simp [State.resumeMark, hres]
    obtain ⟨hended,hstarted,hlife,hproc⟩ := hsame
    constructor
    · exact hf ▸ h.distinct
    · intro k hk
      rw [hget, Option.isSome_map]
      exact h.recorded k (hf ▸ hk)
    · intro k hk st
      rw [hended]
      exact h.unended k (hf ▸ hk) st
    · intro e he
      rw [hended] at he
      obtain ⟨r,hr,hs⟩ := h.kept e he
      have hne : unresumable r = false := by
        simp [unresumable, hs, h.final e he]
      exact ⟨r,by simp [hget, hr, hne],hs⟩
    · exact hended ▸ h.final
    · exact hstarted ▸ h.once
    · rw [hstarted, hlife]
      exact h.past
    · rw [hstarted, hlife, hproc, hended]
      exact h.running
    · intro k r hr hrec
      rw [hget] at hr
      obtain ⟨r0,_,rfl⟩ := Option.map_eq_some_iff.mp hr
      right
      by_cases hu : unresumable r0
      · simp [hu] at hrec
      · simp only [hu, Bool.false_eq_true, if_false] at hrec ⊢
        have hl : resumable r0 := by
          simp only [unresumable, resumable, hrec, decide_true, Bool.true_and, Bool.or_eq_true,
            Option.isNone_iff_eq_none, decide_eq_true_eq, not_or] at hu ⊢
          simp [Option.isSome_iff_ne_none, hu.1, hu.2]
        simpa [Left, State.resumeMark, hres] using hl
  | marked => simpa [State.resumeMark, hres] using h
  | loading rows => simpa [State.resumeMark, hres] using h
  | done => simpa [State.resumeMark, hres] using h

theorem mem_pending (s : State) (k : String) :
    k ∈ s.pending.map Prod.fst ↔ ∃ r, s.rows.get k = some r ∧ resumable r := by
  simp [State.pending, Table.mem_iff_get]

theorem Inv.resumeSelect {s : State} (h : Inv s) (hlen : s.pending.length ≤ 50)
    (hfree : ∀ acc ∈ s.requests++s.processing, acc.deliveryId ∉ s.pending.map Prod.fst) :
    Inv (s.resumeSelect true) := by
  cases hres : s.resume with
  | marked =>
    have hs : s.resumeSelect true = { s with resume := .loading s.pending } := by
      simp [State.resumeSelect, hres, List.take_of_length_le hlen]
    have hold : flight s = s.requests.map (·.deliveryId)++s.processing.map (·.deliveryId) := by
      simp [flight, hres, loadingIds]
    have hnew : (flight { s with resume := .loading s.pending }).Perm
        (s.pending.map Prod.fst++flight s) := by
      rw [hold]
      simp only [flight, loadingIds, List.append_assoc]
      exact List.perm_append_comm_assoc _ _ _
    have hapart : ∀ k ∈ s.pending.map Prod.fst, k ∉ flight s := by
      intro k hk hf
      rw [hold, ← List.map_append] at hf
      obtain ⟨acc,ha,rfl⟩ := List.mem_map.mp hf
      exact hfree acc ha hk
    rw [hs]
    constructor
    · apply hnew.nodup_iff.mpr
      apply List.Nodup.append _ h.distinct hapart
      exact s.rows.keys_nodup.sublist (List.filter_sublist.map Prod.fst)
    · intro k hk
      rcases List.mem_append.mp (hnew.mem_iff.mp hk) with hk | hk
      · obtain ⟨r,hr,_⟩ := (mem_pending s k).mp hk
        simp [hr]
      · exact h.recorded k hk
    · intro k hk st hm
      rcases List.mem_append.mp (hnew.mem_iff.mp hk) with hk | hk
      · obtain ⟨r,hr,hp⟩ := (mem_pending s k).mp hk
        obtain ⟨r',hr',hst⟩ := h.kept _ hm
        have hreq : r = r' := Option.some.inj (hr.symm.trans hr')
        have hrec : r.status = .received := by
          simp only [resumable, Bool.and_eq_true, decide_eq_true_eq] at hp
          exact hp.1.1
        exact h.final _ hm (by rw [← hst, ← hreq, hrec])
      · exact h.unended k hk st hm
    · exact h.kept
    · exact h.final
    · exact h.once
    · exact h.past
    · exact h.running
    · intro k r hr hrec
      left
      apply hnew.mem_iff.mpr
      rcases h.covered k r hr hrec with hf | hl
      · exact List.mem_append_right _ hf
      · have hl' : resumable r := by simpa [Left, hres] using hl
        exact List.mem_append_left _ ((mem_pending s k).mpr ⟨r,hr,hl'⟩)
  | waiting => simpa [State.resumeSelect, hres] using h
  | loading rows => simpa [State.resumeSelect, hres] using h
  | done => simpa [State.resumeSelect, hres] using h

theorem Inv.resumeNext {ps : Parsers} {s : State} (h : Inv s) : Inv (s.resumeNext ps true) := by
  cases hres : s.resume with
  | loading rows =>
    cases rows with
    | cons e rest =>
      obtain ⟨k,r⟩ := e
      simp only [State.resumeNext, hres]
      split
      · exact h.setStatus (without_row hres) _ (by decide) _
      · exact h.spawn (without_row hres) rfl
    | nil =>
      have hf : flight { s with resume := .done } = flight s := by
        simp [flight, hres, loadingIds]
      have hs : s.resumeNext ps true = { s with resume := .done } := by
        simp [State.resumeNext, hres]
      rw [hs]
      have hcov : ∀ k r, s.rows.get k = some r → r.status = .received → k ∈ flight s := by
        intro k r hr hrec
        rcases h.covered k r hr hrec with hk | hl
        · exact hk
        · simp [Left, hres] at hl
      exact ⟨by rw [hf]; exact h.distinct,by rw [hf]; exact h.recorded,by rw [hf]; exact h.unended,
        h.kept,h.final,h.once,h.past,h.running,fun k r hr hrec => Or.inl (by rw [hf]; exact hcov k r hr hrec)⟩
  | waiting => simpa [State.resumeNext, hres] using h
  | marked => simpa [State.resumeNext, hres] using h
  | done => simpa [State.resumeNext, hres] using h

theorem Inv.crash {s : State} (h : Inv s) : Inv s.crash where
  distinct := by simp [flight, State.crash, loadingIds]
  recorded := by simp [flight, State.crash, loadingIds]
  unended := by simp [flight, State.crash, loadingIds]
  kept := h.kept
  final := h.final
  once := h.once
  past := fun e he => Nat.le_succ_of_le (h.past e he)
  running := fun k hk => by
    have : s.life+1 ≤ s.life := h.past _ hk
    omega
  covered := fun k r hr hrec => Or.inr trivial

theorem step_inv (ps : Parsers) (s : State) (a : Action) (h : Inv s) (ho : Orderly s a) :
    Inv (step ps s a) := by
  cases a with
  | post p inserted => exact h.post p inserted
  | answer n known written =>
    obtain rfl : written = true := ho
    exact h.answer n known
  | finish n re ms written =>
    obtain rfl : written = true := ho
    exact h.finish n re ms
  | resumeMark written =>
    obtain rfl : written = true := ho
    exact h.resumeMark
  | resumeSelect read =>
    obtain ⟨hread,hlen,hfree⟩ := ho
    obtain rfl : read = true := hread
    exact h.resumeSelect hlen hfree
  | resumeNext written =>
    obtain rfl : written = true := ho
    exact h.resumeNext
  | crash => exact h.crash

theorem Inv.settled {s : State} (h : Inv s) (hq : Quiet s) (k : String) (r : Delivery)
    (hr : s.rows.get k = some r) : r.status ≠ .received := by
  obtain ⟨hreq,hproc,hres⟩ := hq
  intro hrec
  cases hdone : s.resume with
  | done =>
    have := h.covered k r hr hrec
    simp [flight, Left, hreq, hproc, hdone, loadingIds] at this
  | waiting => simp [Resume.isDone, hdone] at hres
  | marked => simp [Resume.isDone, hdone] at hres
  | loading rows => simp [Resume.isDone, hdone] at hres

/-- In an orderly run every delivery is processed once in a life of the
process, keeps its final status, and is not left as received. -/
theorem deliveries_processed_once (ps : Parsers) (acts : List Action)
    (hg : Guarded (step ps) Orderly acts boot) : ProcessedOnce ps (run (step ps) acts boot) := by
  have h : Inv (run (step ps) acts boot) :=
    guarded_invariant _ _ Inv (fun s a hs ho => step_inv ps s a hs ho) acts boot Inv.boot hg
  exact ⟨h.once,h.kept,fun hq k r hr => h.settled hq k r hr,quiet_or_busy ps _,work_ends ps _⟩

/-! ## A delivery taken up while it is processed -/

def createdBody : Bytes :=
  "\x7b\"action\":\"created\",\"installation\":\x7b\"id\":1\x7d\x7d".toUTF8.data.toList

def secret : Bytes := "secret".toUTF8.data.toList

def created : Value := .object
  [("action",.string "created"),("installation",.object [("id",.number 1)])]

/-- The parsers and the digest on the body of the runs below. -/
def createdParsers : Parsers where
  hmac key body := if key = secret ∧ body = createdBody then
    [194,218,11,136,212,27,210,230,253,46,133,150,213,220,106,166,
      153,131,253,205,124,168,54,108,132,163,130,103,37,236,174,137] else []
  fromSlice body := if body = createdBody then some created else none
  fromStr text := if text.toUTF8.data.toList = createdBody then some created else none

def createdPost : Post where
  allowed := true
  headers name := [("x-hub-signature-256",
      "sha256=c2da0b88d41bd2e6fd2e8596d5dc6aa69983fdcd7ca8366c84a3826725ecae89"),
    ("x-github-event","installation"),("x-github-delivery","d1")].lookup name
  body := createdBody
  secret := some secret

def bySuccess : Replies := ⟨.ok (),.ok (),false⟩
def byError : Replies := ⟨.error "pool timed out",.ok (),false⟩

/-- A delivery left by a crash is taken up again. -/
def leftByCrash : List Action :=
  [.post createdPost true,.crash,.resumeMark true,.resumeSelect true,.resumeNext true,
    .post createdPost true,.finish 0 bySuccess 12 true,.resumeNext true]

theorem leftByCrash_processed_once :
    ProcessedOnce createdParsers (run (step createdParsers) leftByCrash boot) :=
  deliveries_processed_once createdParsers leftByCrash (by decide +kernel)

/-- The pass reads a row whose processing has begun three seconds after the boot. -/
def takenTwice : List Action :=
  [.post createdPost true,.answer 0 true true,.resumeMark true,.resumeSelect true,.resumeNext true,
    .resumeNext true,.finish 0 bySuccess 12 true,.finish 0 byError 15 true]

theorem takenTwice_processed_twice :
    ¬ ∀ (ps : Parsers) (acts : List Action), ProcessedOnce ps (run (step ps) acts boot) := by
  intro h
  have hk := (h createdParsers takenTwice).once
  revert hk
  decide +kernel

end DevForge.DeliveredOnce
