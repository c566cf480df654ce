import Mathlib.Data.List.Infix

/-!
# Runs of a transition system

A system is a total step function: an action that is not enabled leaves the
state alone, so every list of actions is a run. A guarded run is one whose
every action meets a condition on the state in which it is taken. The rules
below carry a step lemma to a whole run.
-/

set_option autoImplicit false

namespace Transition

variable {σ α : Type*}

def run (step : σ → α → σ) : List α → σ → σ
  | [], s => s
  | a::as, s => run step as (step s a)

def Guarded (step : σ → α → σ) (ok : σ → α → Prop) : List α → σ → Prop
  | [], _ => True
  | a::as, s => ok s a ∧ Guarded step ok as (step s a)

instance decidableGuarded (step : σ → α → σ) (ok : σ → α → Prop)
    [∀ s a, Decidable (ok s a)] (acts : List α) (s : σ) :
    Decidable (Guarded step ok acts s) :=
  match acts with
  | [] => inferInstanceAs (Decidable True)
  | a::as =>
    have := decidableGuarded step ok as (step s a)
    inferInstanceAs (Decidable (ok s a ∧ Guarded step ok as (step s a)))

/-- The invariant rule for guarded runs. -/
theorem guarded_invariant (step : σ → α → σ) (ok : σ → α → Prop) (inv : σ → Prop)
    (hstep : ∀ s a, inv s → ok s a → inv (step s a)) (acts : List α) (s : σ)
    (hs : inv s) (hg : Guarded step ok acts s) : inv (run step acts s) := by
  induction acts generalizing s with
  | nil => exact hs
  | cons a as ih => exact ih _ (hstep s a hs hg.1) hg.2

/-- The invariant rule for all runs. -/
theorem invariant (step : σ → α → σ) (inv : σ → Prop)
    (hstep : ∀ s a, inv s → inv (step s a)) (acts : List α) (s : σ) (hs : inv s) :
    inv (run step acts s) := by
  induction acts generalizing s with
  | nil => exact hs
  | cons a as ih => exact ih _ (hstep s a hs)

theorem guarded_and (step : σ → α → σ) {ok ok' : σ → α → Prop} (acts : List α) (s : σ)
    (h : Guarded step ok acts s) (h' : Guarded step ok' acts s) :
    Guarded step (fun s a => ok s a ∧ ok' s a) acts s := by
  induction acts generalizing s with
  | nil => trivial
  | cons a as ih => exact ⟨⟨h.1,h'.1⟩,ih _ h.2 h'.2⟩

theorem guarded_congr (step : σ → α → σ) {ok ok' : σ → α → Prop} (h : ∀ s a, ok s a ↔ ok' s a)
    (acts : List α) (s : σ) : Guarded step ok acts s ↔ Guarded step ok' acts s := by
  induction acts generalizing s with
  | nil => exact Iff.rfl
  | cons a as ih => exact and_congr (h s a) (ih _)

/-- Two guards that agree in the states of an invariant, which steps under the second one preserve. -/
theorem guarded_congr_within (step : σ → α → σ) {ok ok' : σ → α → Prop} (inv : σ → Prop)
    (hinv : ∀ s a, inv s → ok' s a → inv (step s a)) (h : ∀ s a, inv s → (ok s a ↔ ok' s a)) (acts : List α) (s : σ)
    (hs : inv s) : Guarded step ok acts s ↔ Guarded step ok' acts s := by
  induction acts generalizing s with
  | nil => exact Iff.rfl
  | cons a as ih =>
    simp only [Guarded]
    rw [h s a hs]
    exact and_congr_right (fun ho => ih _ (hinv s a hs ho))

/-- A property of states that records, step by step, whether a guard was met. -/
theorem recorded (step : σ → α → σ) (ok : σ → α → Prop) (prop : σ → Prop)
    (hstep : ∀ s a, prop (step s a) ↔ prop s ∧ ok s a) (acts : List α) (s : σ) :
    prop (run step acts s) ↔ prop s ∧ Guarded step ok acts s := by
  induction acts generalizing s with
  | nil => simp [run, Guarded]
  | cons a as ih => simp [run, Guarded, ih, hstep, and_assoc]

/-- The same among the states of an invariant. -/
theorem recorded_within (step : σ → α → σ) (ok : σ → α → Prop) (prop inv : σ → Prop)
    (hinv : ∀ s a, inv s → inv (step s a))
    (hstep : ∀ s a, inv s → (prop (step s a) ↔ prop s ∧ ok s a)) (acts : List α) (s : σ) (hs : inv s) :
    prop (run step acts s) ↔ prop s ∧ Guarded step ok acts s := by
  induction acts generalizing s with
  | nil => simp [run, Guarded]
  | cons a as ih => simp [run, Guarded, ih _ (hinv s a hs), hstep s a hs, and_assoc]

end Transition
