import Mathlib.Logic.Relation
import Mathlib.Data.List.Chain
import Mathlib.Data.List.Nodup

/-!
# Chains of versions

A list of versions, each with an identifier and the identifier of the version that replaced
it, if there is one. Where replacements are later and replace one version each, every version
leads to one that is not replaced, and its past is read back one version at a time.
-/

set_option autoImplicit false

namespace VersionChain
open Relation

variable {α : Type*} (vs : List α) (id : α → ℕ) (next : α → Option ℕ)

structure Linked : Prop where
  unique : ∀ a ∈ vs, ∀ b ∈ vs, id a = id b → a = b
  forward : ∀ a ∈ vs, ∀ u, next a = some u → ∃ b ∈ vs, id b = u ∧ id a < u
  single : ∀ a ∈ vs, ∀ b ∈ vs, ∀ u, next a = some u → next b = some u → a = b

/-- `b` replaced `a`. -/
def Step (a b : α) : Prop := a ∈ vs ∧ b ∈ vs ∧ next a = some (id b)

/-- The version that `u` replaced, the one before it and so on, `n` at most. -/
def back : ℕ → ℕ → List α
  | 0, _ => []
  | n+1, u =>
    match vs.find? (fun a => next a = some u) with
    | some a => a::back n (id a)
    | none => []

variable {vs id next}

theorem Step.lt (h : Linked vs id next) {a b : α} (hab : Step vs id next a b) : id a < id b := by
  obtain ⟨c,-,hc,hlt⟩ := h.forward a hab.1 _ hab.2.2
  exact hlt

theorem transGen_lt (h : Linked vs id next) {a b : α} (hab : TransGen (Step vs id next) a b) : id a < id b := by
  induction hab with
  | single hstep => exact hstep.lt h
  | tail _ hstep ih => exact Nat.lt_trans ih (hstep.lt h)

theorem rightUnique (h : Linked vs id next) : Relator.RightUnique (Step vs id next) := by
  intro a b c hab hac
  have hid : id b = id c := Option.some.inj (hab.2.2.symm.trans hac.2.2)
  exact h.unique b hab.2.1 c hac.2.1 hid

/-! ## Forward -/

theorem exists_bound (vs : List α) (id : α → ℕ) : ∃ m, ∀ b ∈ vs, id b ≤ m := by
  induction vs with
  | nil => exact ⟨0,by simp⟩
  | cons a vs ih =>
    obtain ⟨m,hm⟩ := ih
    refine ⟨max (id a) m,?_⟩
    intro b hb
    obtain rfl | hb := List.mem_cons.mp hb
    · exact Nat.le_max_left _ _
    · exact Nat.le_trans (hm b hb) (Nat.le_max_right _ _)

theorem exists_head (h : Linked vs id next) {a : α} (ha : a ∈ vs) :
    ∃ b ∈ vs, next b = none ∧ ReflTransGen (Step vs id next) a b := by
  -- by induction on how far the identifier is from the largest one
  obtain ⟨m,hm⟩ := exists_bound vs id
  induction hn : m-id a using Nat.strongRecOn generalizing a with
  | ind n ih =>
    cases hnext : next a with
    | none => exact ⟨a,ha,hnext,.refl⟩
    | some u =>
      obtain ⟨b,hb,hid,hlt⟩ := h.forward a ha u hnext
      have hle := hm b hb
      obtain ⟨c,hc,hlast,hpath⟩ := ih (m-id b) (by omega) hb rfl
      exact ⟨c,hc,hlast,.head ⟨ha,hb,by rw [hid, hnext]⟩ hpath⟩

theorem eq_of_last {a b : α} (hlast : next a = none) (hab : ReflTransGen (Step vs id next) a b) : a = b := by
  obtain heq | ⟨c,hac,-⟩ := hab.cases_head
  · exact heq
  · have hnext := hac.2.2
    rw [hlast] at hnext
    cases hnext

theorem head_unique (h : Linked vs id next) {a b c : α} (hb : next b = none) (hc : next c = none)
    (hab : ReflTransGen (Step vs id next) a b) (hac : ReflTransGen (Step vs id next) a c) : b = c := by
  obtain hbc | hcb := hab.total_of_right_unique (rightUnique h) hac
  · exact eq_of_last hb hbc
  · exact (eq_of_last hc hcb).symm

/-! ## Back -/

/-- The list is the past of `b`, nearest first and each version once; versions can be missing
where `n` are listed. -/
structure Lists (vs : List α) (id : α → ℕ) (next : α → Option ℕ) (n : ℕ) (b : α) (past : List α) : Prop where
  chain : (b::past).IsChain (fun c a => Step vs id next a c)
  nodup : past.Nodup
  before : ∀ a ∈ past, TransGen (Step vs id next) a b
  complete : past.length < n → ∀ a, TransGen (Step vs id next) a b → a ∈ past

theorem find_step (h : Linked vs id next) {a b : α} (hab : Step vs id next a b) :
    vs.find? (fun a => next a = some (id b)) = some a := by
  cases hfind : vs.find? (fun a => next a = some (id b)) with
  | none =>
    have hnone := List.find?_eq_none.mp hfind a hab.1
    exact absurd (decide_eq_true hab.2.2) hnone
  | some c =>
    have hc := List.find?_some hfind
    rw [h.single a hab.1 c (List.mem_of_find?_eq_some hfind) _ hab.2.2 (of_decide_eq_true hc)]

theorem lists_back (h : Linked vs id next) (n : ℕ) {b : α} (hb : b ∈ vs) : Lists vs id next n b (back vs id next n (id b)) := by
  induction n generalizing b with
  | zero => exact ⟨List.isChain_singleton _,List.nodup_nil,by simp [back],by simp⟩
  | succ n ih =>
    unfold back
    cases hfind : vs.find? (fun a => next a = some (id b)) with
    | none =>
      refine ⟨List.isChain_singleton _,List.nodup_nil,by simp,?_⟩
      intro _ a hab
      obtain ⟨c,-,hcb⟩ := TransGen.tail'_iff.mp hab
      rw [find_step h hcb] at hfind
      cases hfind
    | some a =>
      have ha := List.mem_of_find?_eq_some hfind
      have hnext := List.find?_some hfind
      have hab : Step vs id next a b := ⟨ha,hb,of_decide_eq_true hnext⟩
      have hpast := ih ha
      simp only
      refine ⟨List.isChain_cons_cons.mpr ⟨hab,hpast.chain⟩,?_,?_,?_⟩
      · refine List.nodup_cons.mpr ⟨fun hmem => ?_,hpast.nodup⟩
        have hlt := transGen_lt h (hpast.before a hmem)
        omega
      · intro c hc
        obtain rfl | hc := List.mem_cons.mp hc
        · exact .single hab
        · exact .tail (hpast.before c hc) hab
      · intro hlength c hcb
        rw [List.length_cons] at hlength
        obtain ⟨d,hcd,hdb⟩ := TransGen.tail'_iff.mp hcb
        have hda : d = a := h.single d hdb.1 a ha _ hdb.2.2 hab.2.2
        subst hda
        obtain heq | hpath := Relation.reflTransGen_iff_eq_or_transGen.mp hcd
        · exact List.mem_cons.mpr (.inl heq.symm)
        · exact List.mem_cons_of_mem _ (hpast.complete (by omega) c hpath)

end VersionChain
