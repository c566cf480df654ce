import Mathlib.Data.List.Basic

/-!
# Launching on change

A trace lists observations in order, each with whether it launched something.
`Fresh` says that every launch on a value was followed by the observation of
another one; a trace launches on change only when each of its launches finds
its value fresh.
-/

set_option autoImplicit false

namespace ChangeGate

variable {α : Type*}

def Fresh (h : α) (tr : List (α × Bool)) : Prop :=
  ∀ pre mid, tr = pre++(h,true)::mid → ∃ o ∈ mid, o.1 ≠ h

/-- Between two launches on one value another value was observed. -/
def NoRelaunch (tr : List (α × Bool)) : Prop :=
  ∀ pre h mid post, tr = pre++(h,true)::(mid++(h,true)::post) → ∃ o ∈ mid, o.1 ≠ h

/-- What a register of the last value launched on maintains. -/
structure Tracks (reg : Option α) (tr : List (α × Bool)) : Prop where
  no_relaunch : NoRelaunch tr
  fresh : ∀ h, reg ≠ some h → Fresh h tr

theorem tracks_nil (reg : Option α) : Tracks reg [] :=
  ⟨fun _ _ _ _ he => by simp at he,fun _ _ _ _ he => by simp at he⟩

theorem concat_eq_append_cons {tr pre mid : List α} {o x : α} (he : tr++[o] = pre++x::mid) :
    (mid = [] ∧ tr = pre ∧ o = x) ∨ ∃ mid', mid = mid'++[o] ∧ tr = pre++x::mid' := by
  rcases List.eq_nil_or_concat mid with rfl | ⟨mid',y,rfl⟩
  · obtain ⟨h,ho⟩ := List.append_inj' he rfl
    exact Or.inl ⟨rfl,h,by simpa using ho⟩
  · have he' : tr++[o] = (pre++x::mid')++[y] := by simpa using he
    obtain ⟨h,ho⟩ := List.append_inj' he' rfl
    exact Or.inr ⟨mid',by simp [List.singleton_inj.mp ho],h⟩

theorem fresh_concat_other (h : α) (tr : List (α × Bool)) (o : α × Bool) (ho : o.1 ≠ h) :
    Fresh h (tr++[o]) := by
  intro pre mid he
  rcases concat_eq_append_cons he with ⟨_,_,rfl⟩ | ⟨mid',rfl,_⟩
  · exact absurd rfl ho
  · exact ⟨o,by simp,ho⟩

theorem fresh_concat_skip (h : α) (tr : List (α × Bool)) (g : α) (hf : Fresh h tr) :
    Fresh h (tr++[(g,false)]) := by
  intro pre mid he
  rcases concat_eq_append_cons he with ⟨_,_,ho⟩ | ⟨mid',rfl,rfl⟩
  · simp at ho
  · obtain ⟨o,hm,ho⟩ := hf pre mid' rfl
    exact ⟨o,by simp [hm],ho⟩

theorem noRelaunch_concat (tr : List (α × Bool)) (o : α × Bool) (hn : NoRelaunch tr)
    (hf : o.2 → Fresh o.1 tr) : NoRelaunch (tr++[o]) := by
  intro pre h mid post he
  have he' : tr++[o] = (pre++(h,true)::mid)++(h,true)::post := by simpa using he
  rcases concat_eq_append_cons he' with ⟨_,rfl,rfl⟩ | ⟨post',rfl,rfl⟩
  · exact hf rfl pre mid rfl
  · exact hn pre h mid post' (by simp)

/-- A launch is recorded in the register, which did not hold its value. -/
theorem Tracks.launch {reg : Option α} {tr : List (α × Bool)} (ht : Tracks reg tr) (h : α)
    (hr : reg ≠ some h) : Tracks (some h) (tr++[(h,true)]) where
  no_relaunch := noRelaunch_concat tr (h,true) ht.no_relaunch (fun _ => ht.fresh h hr)
  fresh g hg := fresh_concat_other g tr (h,true) (fun he => hg (congrArg some he))

theorem Tracks.skip {reg : Option α} {tr : List (α × Bool)} (ht : Tracks reg tr) (h : α) :
    Tracks reg (tr++[(h,false)]) where
  no_relaunch := noRelaunch_concat tr (h,false) ht.no_relaunch (fun hf => by simp at hf)
  fresh g hg := fresh_concat_skip g tr h (ht.fresh g hg)

end ChangeGate
