import Mathlib.Data.List.Basic

/-!
# Maps merged with the last entry winning

A map is the list of its entries. An insertion replaces the entry of its key,
and merging inserts one map after another, so that a lookup finds what the
last of them with the key has.
-/

set_option autoImplicit false

namespace LastWins

variable {κ ρ α : Type*} [DecidableEq κ]

def get (m : List (κ × ρ)) (k : κ) : Option ρ :=
  (m.reverse.find? (fun e => e.1 = k)).map Prod.snd

def insert (m : List (κ × ρ)) (e : κ × ρ) : List (κ × ρ) := m.filter (fun x => x.1 ≠ e.1)++[e]

def merge (m : List (κ × ρ)) (entries : List (κ × ρ)) : List (κ × ρ) := entries.foldl insert m

@[simp] theorem get_nil (k : κ) : get ([] : List (κ × ρ)) k = none := rfl

theorem get_append (m entries : List (κ × ρ)) (k : κ) :
    get (m++entries) k = (get entries k).or (get m k) := by
  unfold get
  rw [List.reverse_append, List.find?_append, Option.map_or]

theorem get_singleton (e : κ × ρ) (k : κ) : get [e] k = if e.1 = k then some e.2 else none := by
  by_cases h : e.1 = k
  · simp [get, h]
  · simp [get, h]

theorem get_cons (e : κ × ρ) (m : List (κ × ρ)) (k : κ) :
    get (e::m) k = (get m k).or (if e.1 = k then some e.2 else none) := by
  rw [← List.singleton_append, get_append, get_singleton]

theorem get_filter_ne {m : List (κ × ρ)} {j k : κ} (h : k ≠ j) :
    get (m.filter (fun x => x.1 ≠ j)) k = get m k := by
  induction m with
  | nil => rfl
  | cons e m ih =>
    by_cases he : e.1 = j
    · have hne : e.1 ≠ k := fun h' => h (h'.symm.trans he)
      rw [List.filter_cons_of_neg (by simpa using he), ih, get_cons, if_neg hne, Option.or_none]
    · rw [List.filter_cons_of_pos (by simpa using he), get_cons, get_cons, ih]

theorem get_insert (m : List (κ × ρ)) (e : κ × ρ) (k : κ) :
    get (insert m e) k = if e.1 = k then some e.2 else get m k := by
  rw [insert, get_append, get_singleton]
  by_cases h : e.1 = k
  · rw [if_pos h, if_pos h, Option.some_or]
  · rw [if_neg h, if_neg h, Option.none_or, get_filter_ne (fun h' => h h'.symm)]

theorem get_merge (m entries : List (κ × ρ)) (k : κ) :
    get (merge m entries) k = (get entries k).or (get m k) := by
  induction entries generalizing m with
  | nil => rfl
  | cons e entries ih =>
    have hstep : merge m (e::entries) = merge (insert m e) entries := rfl
    rw [hstep, ih, get_insert, get_cons, Option.or_assoc]
    by_cases h : e.1 = k
    · rw [if_pos h, if_pos h, Option.some_or]
    · rw [if_neg h, if_neg h, Option.none_or]

/-- Merging the maps of a list of items: the last item with the key decides. -/
theorem get_foldl_merge (f : α → List (κ × ρ)) (items : List α) (m : List (κ × ρ)) (k : κ) :
    get (items.foldl (fun m a => merge m (f a)) m) k =
      (items.reverse.findSome? (fun a => get (f a) k)).or (get m k) := by
  induction items generalizing m with
  | nil => rfl
  | cons a items ih =>
    rw [List.foldl_cons, ih, get_merge, List.reverse_cons, List.findSome?_append, Option.or_assoc]
    simp

theorem mem_of_get {m : List (κ × ρ)} {k : κ} {v : ρ} (h : get m k = some v) : (k,v) ∈ m := by
  obtain ⟨e,he,rfl⟩ := Option.map_eq_some_iff.mp h
  have hkey : e.1 = k := by simpa using List.find?_some he
  rw [← hkey]
  exact List.mem_reverse.mp (List.mem_of_find?_eq_some he)

/-- No key has two entries. -/
def KeysNodup (m : List (κ × ρ)) : Prop := (m.map Prod.fst).Nodup

theorem get_of_mem {m : List (κ × ρ)} (h : KeysNodup m) {e : κ × ρ} (he : e ∈ m) : get m e.1 = some e.2 := by
  induction m with
  | nil => cases he
  | cons a m ih =>
    obtain ⟨hne,hm⟩ := List.nodup_cons.mp h
    rw [get_cons]
    by_cases ha : e ∈ m
    · rw [ih hm ha, Option.some_or]
    · obtain rfl : e = a := (List.mem_cons.mp he).resolve_right ha
      have hnone : get m e.1 = none := by
        cases hget : get m e.1 with
        | none => rfl
        | some v => exact absurd (List.mem_map_of_mem (mem_of_get hget)) hne
      rw [hnone, if_pos rfl, Option.none_or]

theorem KeysNodup.insert {m : List (κ × ρ)} (h : KeysNodup m) (e : κ × ρ) : KeysNodup (insert m e) := by
  unfold KeysNodup LastWins.insert
  rw [List.map_append, List.nodup_append]
  refine ⟨h.sublist (List.filter_sublist.map _),by simp,?_⟩
  intro a ha b hb hab
  obtain ⟨x,hx,rfl⟩ := List.mem_map.mp ha
  obtain rfl : b = e.1 := by simpa using hb
  have hne := List.of_mem_filter hx
  simp [hab] at hne

theorem KeysNodup.merge {m : List (κ × ρ)} (h : KeysNodup m) (entries : List (κ × ρ)) :
    KeysNodup (merge m entries) := by
  induction entries generalizing m with
  | nil => exact h
  | cons e entries ih => exact ih (h.insert e)

theorem KeysNodup.foldl_merge {m : List (κ × ρ)} (h : KeysNodup m) (f : α → List (κ × ρ)) (items : List α) :
    KeysNodup (items.foldl (fun m a => LastWins.merge m (f a)) m) := by
  induction items generalizing m with
  | nil => exact h
  | cons a items ih => exact ih (h.merge (f a))

theorem findSome?_ite (items : List α) (p : α → Bool) (f : α → ρ) :
    items.findSome? (fun a => if p a then some (f a) else none) = (items.find? p).map f := by
  induction items with
  | nil => rfl
  | cons a items ih =>
    cases h : p a
    · rw [List.findSome?_cons, List.find?_cons, h, ← ih]
      rfl
    · rw [List.findSome?_cons, List.find?_cons, h]
      rfl

end LastWins
