import DevForge.Table
import Mathlib.Data.List.Sort

/-!
# Maps in the order of their keys

A map is the list of its entries, sorted by keys. Two maps in which every key has the same value
have the same entries.
-/

set_option autoImplicit false

structure SortedMap (κ β : Type*) [LinearOrder κ] where
  entries : List (κ × β)
  sorted : (entries.map Prod.fst).Pairwise (· < ·)

namespace SortedMap

variable {κ β : Type*} [LinearOrder κ]

def empty : SortedMap κ β := ⟨[],List.Pairwise.nil⟩

def get (m : SortedMap κ β) (k : κ) : Option β := m.entries.lookup k

def lastKey (m : SortedMap κ β) : Option κ := m.entries.getLast?.map Prod.fst

/-- The value of a key becomes a function of what it was. -/
def put (k : κ) (f : Option β → β) : List (κ × β) → List (κ × β)
  | [] => [(k,f none)]
  | (j,b)::l =>
    if k < j then (k,f none)::(j,b)::l
    else if k = j then (j,f (some b))::l
    else (j,b)::put k f l

theorem mem_put_keys {k : κ} {f : Option β → β} {l : List (κ × β)} {i : κ}
    (h : i ∈ (put k f l).map Prod.fst) : i = k ∨ i ∈ l.map Prod.fst := by
  induction l with
  | nil => exact Or.inl (by simpa [put] using h)
  | cons e l ih =>
    obtain ⟨j,b⟩ := e
    simp only [put] at h
    split at h
    · simpa using h
    · split at h
      · exact Or.inr (by simpa using h)
      · rcases List.mem_cons.mp h with h | h
        · exact Or.inr (List.mem_cons.mpr (Or.inl h))
        · exact (ih h).imp_right (List.mem_cons_of_mem j)

theorem put_sorted (k : κ) (f : Option β → β) {l : List (κ × β)} (h : (l.map Prod.fst).Pairwise (· < ·)) :
    ((put k f l).map Prod.fst).Pairwise (· < ·) := by
  induction l with
  | nil => simp [put]
  | cons e l ih =>
    obtain ⟨j,b⟩ := e
    rw [List.map_cons, List.pairwise_cons] at h
    simp only [put]
    split
    · next hlt =>
      rw [List.map_cons, List.map_cons, List.pairwise_cons, List.pairwise_cons]
      refine ⟨fun i hi => ?_,h⟩
      rcases List.mem_cons.mp hi with rfl | hi
      · exact hlt
      · exact hlt.trans (h.1 i hi)
    · next hge =>
      split
      · rw [List.map_cons, List.pairwise_cons]
        exact h
      · next hne =>
        rw [List.map_cons, List.pairwise_cons]
        refine ⟨fun i hi => ?_,ih h.2⟩
        rcases mem_put_keys hi with rfl | hi
        · exact lt_of_le_of_ne (not_lt.mp hge) (Ne.symm hne)
        · exact h.1 i hi

def alter (m : SortedMap κ β) (k : κ) (f : Option β → β) : SortedMap κ β :=
  ⟨put k f m.entries,put_sorted k f m.sorted⟩

@[simp] theorem get_empty (k : κ) : (empty : SortedMap κ β).get k = none := rfl

theorem lookup_none {l : List (κ × β)} {k : κ} (h : ∀ i ∈ l.map Prod.fst, k < i) : l.lookup k = none :=
  (Table.lookup_none_iff l k).mpr (fun hk => lt_irrefl k (h k hk))

theorem get_alter (m : SortedMap κ β) (k : κ) (f : Option β → β) (i : κ) :
    (m.alter k f).get i = if i = k then some (f (m.get k)) else m.get i := by
  obtain ⟨l,hl⟩ := m
  simp only [get, alter]
  induction l with
  | nil => simp [put, Table.lookup_cons]
  | cons e l ih =>
    obtain ⟨j,b⟩ := e
    rw [List.map_cons, List.pairwise_cons] at hl
    simp only [put]
    by_cases hlt : k < j
    · have hnone : List.lookup k ((j,b)::l) = none := by
        apply lookup_none
        intro i hi
        rcases List.mem_cons.mp hi with rfl | hi
        · exact hlt
        · exact hlt.trans (hl.1 i hi)
      rw [if_pos hlt, Table.lookup_cons, hnone]
    · by_cases heq : k = j
      · subst heq
        by_cases hi : i = k <;> simp [Table.lookup_cons, hi]
      · rw [if_neg hlt, if_neg heq, Table.lookup_cons, ih hl.2, Table.lookup_cons, Table.lookup_cons, if_neg heq]
        by_cases hi : i = j
        · subst hi
          rw [if_pos rfl, if_pos rfl, if_neg (Ne.symm heq)]
        · rw [if_neg hi, if_neg hi]

theorem keys_nodup (m : SortedMap κ β) : (m.entries.map Prod.fst).Nodup :=
  m.sorted.imp ne_of_lt

theorem mem_entries_iff (m : SortedMap κ β) (k : κ) (b : β) : (k,b) ∈ m.entries ↔ m.get k = some b :=
  Table.mem_iff_get ⟨m.entries,m.keys_nodup⟩ k b

/-- The entries are determined by the values of the keys. -/
theorem entries_eq {m m' : SortedMap κ β} (h : ∀ k, m.get k = m'.get k) : m.entries = m'.entries := by
  have hperm : m.entries.Perm m'.entries := by
    rw [List.perm_ext_iff_of_nodup (List.Nodup.of_map _ m.keys_nodup) (List.Nodup.of_map _ m'.keys_nodup)]
    rintro ⟨k,b⟩
    rw [mem_entries_iff, mem_entries_iff, h k]
  have hlt : ∀ a b : κ × β, a ∈ m.entries → b ∈ m'.entries → a.1 < b.1 → b.1 < a.1 → a = b :=
    fun a b _ _ hab hba => absurd (hab.trans hba) (lt_irrefl _)
  exact hperm.eq_of_pairwise hlt (List.pairwise_map.mp m.sorted) (List.pairwise_map.mp m'.sorted)

/-! ## Whole maps -/

def insert (m : SortedMap κ β) (k : κ) (b : β) : SortedMap κ β := m.alter k (fun _ => b)

def insertAll (m : SortedMap κ β) (l : List (κ × β)) : SortedMap κ β := l.foldl (fun m e => m.insert e.1 e.2) m

def mapValues (m : SortedMap κ β) (f : κ → β → β) : SortedMap κ β where
  entries := m.entries.map (fun e => (e.1,f e.1 e.2))
  sorted := by
    rw [List.map_map]
    exact m.sorted

def retain (m : SortedMap κ β) (p : κ → Bool) : SortedMap κ β where
  entries := m.entries.filter (fun e => p e.1)
  sorted := m.sorted.sublist (List.filter_sublist.map Prod.fst)

theorem get_insert (m : SortedMap κ β) (k : κ) (b : β) (i : κ) :
    (m.insert k b).get i = if i = k then some b else m.get i := get_alter m k _ i

/-- Of entries with distinct keys each is found. -/
theorem get_insertAll {l : List (κ × β)} (m : SortedMap κ β) (h : (l.map Prod.fst).Nodup) (i : κ) :
    (m.insertAll l).get i = (l.lookup i).or (m.get i) := by
  induction l generalizing m with
  | nil => rfl
  | cons e l ih =>
    obtain ⟨k,b⟩ := e
    rw [List.map_cons, List.nodup_cons] at h
    show ((m.insert k b).insertAll l).get i = _
    rw [ih _ h.2, get_insert, Table.lookup_cons]
    by_cases hi : i = k
    · rw [if_pos hi, if_pos hi, hi, (Table.lookup_none_iff l k).mpr h.1]
      rfl
    · rw [if_neg hi, if_neg hi]

theorem get_mapValues (m : SortedMap κ β) (f : κ → β → β) (i : κ) : (m.mapValues f).get i = (m.get i).map (f i) := by
  obtain ⟨l,hl⟩ := m
  simp only [get, mapValues]
  induction l with
  | nil => rfl
  | cons e l ih =>
    rw [List.map_cons, List.pairwise_cons] at hl
    rw [List.map_cons, Table.lookup_cons, Table.lookup_cons, ih hl.2]
    by_cases hi : i = e.1
    · rw [if_pos hi, if_pos hi, hi]
      rfl
    · rw [if_neg hi, if_neg hi]

theorem get_retain (m : SortedMap κ β) (p : κ → Bool) (i : κ) :
    (m.retain p).get i = if p i then m.get i else none := by
  apply Option.ext
  intro b
  rw [← mem_entries_iff]
  show (i,b) ∈ m.entries.filter _ ↔ _
  rw [List.mem_filter, mem_entries_iff]
  by_cases hp : p i = true
  · simp [hp]
  · simp [hp]

/-! ## Positions -/

/-- The elements of a list under their positions. -/
def ofList (l : List β) : SortedMap ℕ β where
  entries := l.zipIdx.map Prod.swap
  sorted := by
    rw [List.map_map]
    show (l.zipIdx.map Prod.snd).Pairwise (· < ·)
    rw [List.zipIdx_map_snd]
    exact List.pairwise_lt_range'

theorem get_ofList (l : List β) (i : ℕ) : (ofList l).get i = l[i]? := by
  apply Option.ext
  intro b
  rw [← mem_entries_iff, ← List.mk_mem_zipIdx_iff_getElem?]
  show (i,b) ∈ l.zipIdx.map Prod.swap ↔ _
  simp

end SortedMap
