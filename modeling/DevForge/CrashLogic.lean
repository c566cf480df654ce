import DevForge.Transition

/-!
# Programs that may die between two commands

A program looks at the state and runs commands that succeed or fail. The process may die
before any command; it is then started again on the state that is left. A program is safe
when each state that it may die in meets the crash condition and its result the
postcondition. A program that is safe from every state that a crash may leave recovers from
any number of crashes.
-/

set_option autoImplicit false

namespace CrashLogic
open Transition

variable {σ α β : Type}

inductive Prog (σ α : Type) where
  | ret (a : α)
  | look (f : σ → Prog σ α)
  | cmd (c : σ → Bool × σ) (f : Bool → Prog σ α)

namespace Prog

def bind : Prog σ α → (α → Prog σ β) → Prog σ β
  | .ret a, g => g a
  | .look f, g => .look (fun s => (f s).bind g)
  | .cmd c f, g => .cmd c (fun ok => (f ok).bind g)

/-- A command whose failure is ignored. -/
def andThen (c : σ → Bool × σ) (p : Prog σ α) : Prog σ α := .cmd c (fun _ => p)

/-- A command whose failure ends the program. -/
def orElse (c : σ → Bool × σ) (a : α) (p : Prog σ α) : Prog σ α :=
  .cmd c (fun ok => if ok then p else .ret a)

/-- One command. -/
def next : Prog σ α → σ → Prog σ α × σ
  | .ret a, s => (.ret a,s)
  | .look f, s => (f s).next s
  | .cmd c f, s => (f (c s).1,(c s).2)

/-- All commands, without dying. -/
def finish : Prog σ α → σ → α × σ
  | .ret a, s => (a,s)
  | .look f, s => (f s).finish s
  | .cmd c f, s => (f (c s).1).finish (c s).2

/-- Each state before a command meets `C`, and the result meets `Q`. -/
def Safe (C : σ → Prop) (Q : α → σ → Prop) : Prog σ α → σ → Prop
  | .ret a, s => Q a s
  | .look f, s => (f s).Safe C Q s
  | .cmd c f, s => C s ∧ (f (c s).1).Safe C Q (c s).2

variable {C : σ → Prop} {Q Q' : α → σ → Prop} {R : β → σ → Prop}

theorem Safe.mono {p : Prog σ α} {s : σ} (h : p.Safe C Q s) (hQ : ∀ a s, Q a s → Q' a s) :
    p.Safe C Q' s := by
  induction p generalizing s with
  | ret a => exact hQ a s h
  | look f ih => exact ih s h
  | cmd c f ih => exact ⟨h.1,ih _ h.2⟩

theorem Safe.look {f : σ → Prog σ α} {s : σ} (h : (f s).Safe C Q s) : (Prog.look f).Safe C Q s := h

/-- The rule of sequence. -/
theorem Safe.bind {p : Prog σ α} {g : α → Prog σ β} {s : σ} (h : p.Safe C Q s)
    (hg : ∀ a s, Q a s → (g a).Safe C R s) : (p.bind g).Safe C R s := by
  induction p generalizing s with
  | ret a => exact hg a s h
  | look f ih => exact ih s h
  | cmd c f ih => exact ⟨h.1,ih _ h.2⟩

theorem Safe.next {p : Prog σ α} {s : σ} (h : p.Safe C Q s) : (p.next s).1.Safe C Q (p.next s).2 := by
  induction p generalizing s with
  | ret a => exact h
  | look f ih => exact ih s h
  | cmd c f ih => exact h.2

theorem Safe.finish {p : Prog σ α} {s : σ} (h : p.Safe C Q s) : Q (p.finish s).1 (p.finish s).2 := by
  induction p generalizing s with
  | ret a => exact h
  | look f ih => exact ih s h
  | cmd c f ih => exact ih _ h.2

theorem Safe.crash {p : Prog σ α} {s : σ} (h : p.Safe C Q s) (hQ : ∀ a s, Q a s → C s) : C s := by
  induction p with
  | ret a => exact hQ a s h
  | look f ih => exact ih s h
  | cmd c f ih => exact h.1

end Prog

/-! ## Crashes and recovery -/

/-- A process under way. -/
structure Process (σ α : Type) where
  prog : Prog σ α
  state : σ

/-- `crash` names the program that is started again. -/
inductive Event (α : Type) where
  | next
  | crash (start : α)
deriving DecidableEq, Repr

variable {ι : Type}

/-- `reset` is what a death leaves of the state. -/
def tick (boot : ι → Prog σ α) (reset : σ → σ) (p : Process σ α) : Event ι → Process σ α
  | .next => ⟨(p.prog.next p.state).1,(p.prog.next p.state).2⟩
  | .crash i => ⟨boot i,reset p.state⟩

/-- No crash in a state that is `torn`. -/
def Untorn (torn : σ → Prop) (p : Process σ α) : Event ι → Prop
  | .next => True
  | .crash _ => ¬ torn p.state

instance (torn : σ → Prop) [DecidablePred torn] (p : Process σ α) (e : Event ι) :
    Decidable (Untorn torn p e) := by
  unfold Untorn
  split <;> infer_instance

/-- Where a program is safe from each state that it recovers to, it is after any crashes. -/
theorem recovered {boot : ι → Prog σ α} {reset : σ → σ} {torn : σ → Prop} (ready : σ → Prop) {Q : α → σ → Prop}
    (hboot : ∀ i s, ready s → (boot i).Safe (fun s => torn s ∨ ready (reset s)) Q s)
    (hQ : ∀ a s, Q a s → ready (reset s)) {i : ι} {s : σ} (hs : ready s) (events : List (Event ι))
    (hg : Guarded (tick boot reset) (Untorn torn) events ⟨boot i,s⟩) :
    (run (tick boot reset) events ⟨boot i,s⟩).prog.Safe (fun s => torn s ∨ ready (reset s)) Q
      (run (tick boot reset) events ⟨boot i,s⟩).state := by
  refine guarded_invariant (tick boot reset) (Untorn torn)
    (fun p => p.prog.Safe (fun s => torn s ∨ ready (reset s)) Q p.state) ?_ events _ (hboot i s hs) hg
  intro p e hp he
  cases e with
  | next => exact hp.next
  | crash j =>
    have hcrash := hp.crash (fun a s h => Or.inr (hQ a s h))
    exact hboot j _ (hcrash.resolve_left he)

end CrashLogic
