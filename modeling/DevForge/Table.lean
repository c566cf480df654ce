import Mathlib.Data.List.Nodup

/-!
# Keyed tables with guarded updates

A table is a list of rows under pairwise distinct keys. An update changes
the rows that a condition selects and leaves every other row alone; its
result is the list of keys it has changed. Rows are looked up by key, and
each operation has one lemma for what a lookup finds afterwards.
-/

set_option autoImplicit false

structure Table (κ ρ : Type*) where
  rows : List (κ × ρ)
  keys_nodup : (rows.map Prod.fst).Nodup

namespace Table

variable {κ ρ : Type*} [DecidableEq κ]

def keys (t : Table κ ρ) : List κ := t.rows.map Prod.fst

def get (t : Table κ ρ) (k : κ) : Option ρ := t.rows.lookup k

def empty : Table κ ρ := ⟨[],List.nodup_nil⟩

/-- A violated primary key leaves the table as it was. -/
def insert (t : Table κ ρ) (k : κ) (r : ρ) : Table κ ρ :=
  if h : k ∈ t.keys then t else
    ⟨t.rows++[(k,r)],by
      have hd : ∀ a ∈ t.rows.map Prod.fst, a ≠ k := fun a ha he => h (he ▸ ha)
      simpa [List.nodup_append] using ⟨t.keys_nodup,fun a x hx => hd a (List.mem_map.mpr ⟨(a,x),hx,rfl⟩)⟩⟩

def update (t : Table κ ρ) (p : κ → ρ → Bool) (f : κ → ρ → ρ) : Table κ ρ :=
  ⟨t.rows.map (fun e => if p e.1 e.2 then (e.1,f e.1 e.2) else e),by
    have hk : (t.rows.map (fun e => if p e.1 e.2 then (e.1,f e.1 e.2) else e)).map Prod.fst =
        t.rows.map Prod.fst := by
      rw [List.map_map]
      apply List.map_congr_left
      intro e _
      simp only [Function.comp_apply]
      split <;> rfl
    rw [hk]
    exact t.keys_nodup⟩

def delete (t : Table κ ρ) (p : κ → ρ → Bool) : Table κ ρ :=
  ⟨t.rows.filter (fun e => !p e.1 e.2),t.keys_nodup.sublist (List.filter_sublist.map Prod.fst)⟩

/-- The keys of the rows that an update under this condition changes. -/
def affected (t : Table κ ρ) (p : κ → ρ → Bool) : List κ :=
  (t.rows.filter (fun e => p e.1 e.2)).map Prod.fst

theorem lookup_cons (l : List (κ × ρ)) (k a : κ) (b : ρ) :
    List.lookup k ((a,b)::l) = if k = a then some b else l.lookup k := by
  by_cases h : k = a
  · simp [h]
  · simp [List.lookup_cons, h, beq_eq_false_iff_ne.mpr h]

theorem lookup_none_iff (l : List (κ × ρ)) (k : κ) :
    l.lookup k = none ↔ k ∉ l.map Prod.fst := by
  induction l with
  | nil => simp
  | cons e l ih =>
    obtain ⟨a,b⟩ := e
    rw [lookup_cons]
    by_cases h : k = a <;> simp [h, ih]

theorem get_none_iff (t : Table κ ρ) (k : κ) : t.get k = none ↔ k ∉ t.keys :=
  lookup_none_iff t.rows k

@[simp] theorem get_empty (k : κ) : (empty : Table κ ρ).get k = none := rfl

theorem mem_iff_get (t : Table κ ρ) (k : κ) (r : ρ) : (k,r) ∈ t.rows ↔ t.get k = some r := by
  obtain ⟨l,hl⟩ := t
  simp only [get]
  induction l with
  | nil => simp
  | cons e l ih =>
    obtain ⟨a,b⟩ := e
    simp only [List.map_cons, List.nodup_cons] at hl
    rw [lookup_cons]
    by_cases h : k = a
    · subst h
      have hn : (k,r) ∉ l := fun hm => hl.1 (List.mem_map.mpr ⟨_,hm,rfl⟩)
      simp [hn, eq_comm]
    · simp [h, ih hl.2]

theorem update_keys (t : Table κ ρ) (p : κ → ρ → Bool) (f : κ → ρ → ρ) : (t.update p f).keys = t.keys := by
  simp only [keys, update, List.map_map]
  apply List.map_congr_left
  intro e _
  simp only [Function.comp_apply]
  split <;> rfl

theorem get_update (t : Table κ ρ) (p : κ → ρ → Bool) (f : κ → ρ → ρ) (k : κ) :
    (t.update p f).get k = (t.get k).map (fun r => if p k r then f k r else r) := by
  obtain ⟨l,hl⟩ := t
  simp only [get, update]
  clear hl
  induction l with
  | nil => rfl
  | cons e l ih =>
    obtain ⟨a,b⟩ := e
    by_cases hp : p a b <;> by_cases h : k = a
    all_goals simp only [List.map_cons, hp, if_true, if_false, Bool.false_eq_true, lookup_cons, h]
    · simp [hp]
    · exact ih
    · simp [hp]
    · exact ih

theorem get_delete (t : Table κ ρ) (p : κ → ρ → Bool) (k : κ) :
    (t.delete p).get k = (t.get k).filter (fun r => !p k r) := by
  apply Option.ext
  intro r
  rw [← mem_iff_get, Option.filter_eq_some_iff, ← mem_iff_get]
  exact List.mem_filter

theorem get_insert (t : Table κ ρ) (k k' : κ) (r : ρ) :
    (t.insert k r).get k' = if k' = k ∧ k ∉ t.keys then some r else t.get k' := by
  unfold insert
  split
  · simp [*]
  · rename_i h
    simp only [get, List.lookup_append, lookup_cons, List.lookup_nil, h, not_false_eq_true,
      and_true]
    by_cases hk : k' = k
    · subst hk
      simp [(lookup_none_iff t.rows k').mpr h]
    · simp [hk]

theorem insert_rows (t : Table κ ρ) (k : κ) (r : ρ) (h : k ∉ t.keys) :
    (t.insert k r).rows = t.rows++[(k,r)] := by
  simp [insert, h]

/-- A batch of new keys is appended as it stands. -/
theorem insert_all_rows {β : Type*} (f : β → κ × ρ) (l : List β) (t : Table κ ρ)
    (hn : (l.map (fun b => (f b).1)).Nodup) (hd : ∀ b ∈ l, (f b).1 ∉ t.keys) :
    (l.foldl (fun t b => t.insert (f b).1 (f b).2) t).rows = t.rows++l.map f := by
  induction l generalizing t with
  | nil => simp
  | cons b l ih =>
    obtain ⟨hb,hl⟩ := List.nodup_cons.mp hn
    have hr := insert_rows t (f b).1 (f b).2 (hd b (by simp))
    rw [List.foldl_cons, ih _ hl, hr]
    · simp
    · intro c hc hm
      rw [keys, hr, List.map_append] at hm
      rcases List.mem_append.mp hm with hm | hm
      · exact hd c (by simp [hc]) hm
      · exact hb (List.mem_map.mpr ⟨c,hc,by simpa using hm⟩)

theorem mem_affected_iff (t : Table κ ρ) (p : κ → ρ → Bool) (k : κ) :
    k ∈ t.affected p ↔ ∃ r, t.get k = some r ∧ p k r := by
  simp only [affected, List.mem_map, List.mem_filter, Prod.exists]
  constructor
  · rintro ⟨k',r,⟨hm,hp⟩,rfl⟩
    exact ⟨r,(mem_iff_get t k' r).mp hm,hp⟩
  · rintro ⟨r,hr,hp⟩
    exact ⟨k,r,⟨(mem_iff_get t k r).mpr hr,hp⟩,rfl⟩

omit [DecidableEq κ] in
theorem affected_nodup (t : Table κ ρ) (p : κ → ρ → Bool) : (t.affected p).Nodup :=
  t.keys_nodup.sublist (List.filter_sublist.map Prod.fst)

end Table
