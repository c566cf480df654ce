import DevForge.InstanceBackups
import DevForge.Transition

/-!
# Which copies the retention keeps

The local listing is sorted, newest first, and its pruning keeps the newest
files. The keys of the bucket come in ascending order, that is oldest first,
and its pruning keeps the oldest copies.
-/

set_option autoImplicit false

namespace DevForge.RetentionKeepsNewest
open InstanceBackups NewestKept Transition

def localBackups (s : Stores) : List (List Char × DirEntry) := s.dir.rows.filter isBackup

def KeepsLocal (w : Outside) (n : ℕ) (s s' : Stores) : Prop :=
  KeepsNewest (createdAt w) n (localBackups s) (localBackups s')

def KeepsS3 (n : ℕ) (s s' : Stores) : Prop :=
  KeepsNewest (fun k => k.stamp.number) n s.bucket.objects s'.bucket.objects

def NoDeletionError (w : Outside) : Prop :=
  (∀ name, w.removed name = true) ∧ ∀ key, w.deleted key = true

/-- The bucket has no more copies than are kept, or one page of copies of one second. -/
def NothingToChoose (w : Outside) (ready : Bool) (n : ℕ) (s : Stores) : Prop :=
  ready = true → s.bucket.objects.length ≤ n ∨ (w.listed = true ∧ s.bucket.objects.length ≤ maxKeys ∧
    ∀ a ∈ s.bucket.objects, ∀ b ∈ s.bucket.objects, a.stamp.number = b.stamp.number)

def Kept (s : Stores) : Copy → Prop
  | .s3 key => key ∈ s.bucket.objects
  | .file name => name ∈ s.dir.keys

/-- The copy that a cycle makes is there when the cycle ends. -/
def OwnKept (s : Stores) (c : Cycle) : Prop :=
  ∀ copy, (create c s).1 = some copy → Kept (runOnce s c) copy

/-- After a prune, what remains in each store is its newest copies. -/
def PruneKeeps (w : Outside) (ready : Bool) (n : ℕ) (s s' : Stores) : Prop :=
  KeepsLocal w n s s' ∧ (ready = true → KeepsS3 n s s')

/-- How many stored copies have a lower key. -/
def older (s : Stores) (key : CopyName) : ℕ :=
  s.bucket.objects.countP (fun k => storageKey k < storageKey key)

/-- How many files are listed before the one just written. -/
def ahead (c : Cycle) (r : Reading) (s : Stores) (name : List Char) : ℕ :=
  let e := (name,DirEntry.mk true c.modified)
  place (newerFirst c.outside) e ((r.order (writeFile s.dir name e.2).rows).filter isBackup)

/-- A copy in the bucket is spared while fewer than the count kept are older, or
where a whole page is; a file while fewer than the count are listed before it. -/
def Spared (s : Stores) (c : Cycle) : Prop :=
  ∀ copy, (create c s).1 = some copy → ∀ r, c.outside.readDir = some r →
    match copy with
    | .s3 key => c.outside.listed = false ∨ c.outside.deleted (storageKey key) = false ∨
        older s key < (loadConfig c.settings).retentionCount ∨ maxKeys ≤ older s key
    | .file name => c.outside.removed name = false ∨
        ahead c r s name < (loadConfig c.settings).retentionCount

/-! ## The order of the keys -/

theorem moment_text_lt {a b : Moment} (h : a.number < b.number) : a.text < b.text := by
  have ha := a.time.isLt
  have hb := b.time.isLt
  simp only [Moment.number] at h
  rw [Moment.text, Moment.text, List.append_assoc, List.append_assoc]
  by_cases hd : (a.date : ℕ) < b.date
  · exact FixedDigits.lt_append _ _ (by simp) (FixedDigits.pad_lt hd b.date.isLt)
  · have hle : (b.date : ℕ) ≤ a.date := not_lt.mp hd
    have he : (a.date : ℕ) = b.date := by
      by_contra hne
      have : (b.date : ℕ)+1 ≤ a.date := by omega
      have := Nat.mul_le_mul_right (10^6) this
      rw [Nat.succ_mul] at this
      omega
    rw [he] at h ⊢
    apply List.append_left_lt
    apply List.append_left_lt
    exact FixedDigits.pad_lt (by omega) hb

theorem moment_text_length (a : Moment) : a.text.length = 15 := by simp [Moment.text]

theorem moment_text_inj {a b : Moment} (h : a.text = b.text) : a = b := by
  obtain ⟨ad,at'⟩ := a
  obtain ⟨bd,bt⟩ := b
  have hd := List.append_inj (by simpa [Moment.text] using h) (by simp)
  have hdate := FixedDigits.pad_inj ad.isLt bd.isLt hd.1
  have htime := FixedDigits.pad_inj at'.isLt bt.isLt (List.cons.inj hd.2).2
  rw [Fin.ext hdate, Fin.ext htime]

theorem storageKey_lt {a b : CopyName} (h : a.stamp.number < b.stamp.number) :
    storageKey a < storageKey b := by
  apply List.append_left_lt
  apply List.append_left_lt
  exact FixedDigits.lt_append _ _ (by simp [moment_text_length]) (moment_text_lt h)

theorem ext_text_inj (a b : Ext) (h : a.text = b.text) : a = b := by
  revert h
  cases a <;> cases b <;> decide

theorem storageKey_inj {a b : CopyName} (h : storageKey a = storageKey b) : a = b := by
  obtain ⟨sa,⟨ia,ha⟩,ea⟩ := a
  obtain ⟨sb,⟨ib,hb⟩,eb⟩ := b
  have h1 := List.append_cancel_left (List.append_cancel_left h)
  have h2 := List.append_inj h1 (by simp [moment_text_length])
  have h3 := List.append_inj (List.append_cancel_left h2.2) (ha.trans hb.symm)
  have hs := moment_text_inj h2.1
  have hi : ia = ib := h3.1
  have he : ea = eb := ext_text_inj ea eb h3.2
  subst hs hi he
  rfl

instance (w : Outside) : Std.Total (newerFirst w) :=
  ⟨fun a b => le_total (createdAt w b) (createdAt w a)⟩

instance (w : Outside) : IsTrans (List Char × DirEntry) (newerFirst w) :=
  ⟨fun _ _ _ h h' => le_trans (α := ℕ) h' h⟩

instance : Std.Total keyLe := ⟨fun a b => le_total (storageKey a) (storageKey b)⟩

instance : IsTrans CopyName keyLe := ⟨fun _ _ _ h h' => le_trans (α := List Char) h h'⟩

theorem number_le_of_keyLe {a b : CopyName} (h : keyLe a b) : a.stamp.number ≤ b.stamp.number :=
  not_lt.mp (fun hlt => absurd h (not_le.mpr (storageKey_lt hlt)))

/-! ## What a prune deletes -/

theorem skip_eq_drop {α : Type*} (n : ℕ) (l : List α) : skip n l = l.drop n := by
  unfold skip
  split
  · rfl
  · rw [List.drop_eq_nil_of_le (by omega)]

theorem storageKey_ne_nil (k : CopyName) : storageKey k ≠ [] := by
  intro h
  have hnil : "instance/".toList = [] := (List.append_eq_nil_iff.mp h).1
  exact absurd hnil (by decide)

theorem parse_keys (l : List CopyName) :
    parseListObjectsV2 (l.map (fun k => some (storageKey k))) = l.map storageKey := by
  induction l with
  | nil => rfl
  | cons k l ih =>
    have hk : (storageKey k).isEmpty = false := by
      rw [List.isEmpty_eq_false_iff]
      exact storageKey_ne_nil k
    rw [parseListObjectsV2] at ih ⊢
    rw [List.map_cons, List.filterMap_cons]
    simp only [Option.getD_some, hk, Bool.false_eq_true, if_false, List.map_cons, ih]

/-- The copies that a prune of the bucket picks. -/
def surplus (n : ℕ) (b : Bucket) : List CopyName :=
  ((b.objects.insertionSort keyLe).take maxKeys).drop n

theorem toDelete_eq (w : Outside) (ready : Bool) (n : ℕ) (b : Bucket) :
    toDelete w ready n b =
      if ready = true ∧ w.listed = true then ((surplus n b).map storageKey).filter w.deleted else [] := by
  unfold toDelete listRemote
  by_cases hr : ready = true <;> by_cases hl : w.listed = true
  · simp only [hr, hl, if_true, and_self, parse_keys, skip_eq_drop, surplus, List.map_drop]
  · simp [hr, hl]
  · simp [hr]
  · simp [hr]

theorem mem_toDelete_iff (w : Outside) (ready : Bool) (n : ℕ) (b : Bucket) (k : CopyName) :
    storageKey k ∈ toDelete w ready n b ↔
      ready = true ∧ w.listed = true ∧ w.deleted (storageKey k) = true ∧ k ∈ surplus n b := by
  rw [toDelete_eq]
  have hmem : storageKey k ∈ (surplus n b).map storageKey ↔ k ∈ surplus n b :=
    List.mem_map_of_injective (fun _ _ h => storageKey_inj h)
  by_cases h : ready = true ∧ w.listed = true
  · rw [if_pos h, List.mem_filter, hmem]
    simp [h.1, h.2, and_comm]
  · rw [if_neg h]
    simp only [List.not_mem_nil, false_iff]
    exact fun hk => h ⟨hk.1,hk.2.1⟩

theorem mem_drop_take_iff {α : Type*} [DecidableEq α] {l : List α} (hl : l.Nodup) {x : α}
    (hx : x ∈ l) (n page : ℕ) : x ∈ (l.take page).drop n ↔ n ≤ l.idxOf x ∧ l.idxOf x < page := by
  rw [← List.mem_take_iff_idxOf_lt hx]
  have hd : ((l.take page).take n++(l.take page).drop n).Nodup := by
    rw [List.take_append_drop]
    exact hl.sublist (List.take_sublist _ _)
  have hsplit : x ∈ l.take page ↔ x ∈ (l.take page).take n ∨ x ∈ (l.take page).drop n := by
    rw [← List.mem_append, List.take_append_drop]
  have htake : x ∈ (l.take page).take n ↔ l.idxOf x < n ∧ l.idxOf x < page := by
    rw [List.take_take, List.mem_take_iff_idxOf_lt hx]
    omega
  rw [List.nodup_append] at hd
  constructor
  · intro h
    have hp := hsplit.mpr (Or.inr h)
    refine ⟨?_,hp⟩
    by_contra hn
    rw [List.mem_take_iff_idxOf_lt hx] at hp
    exact hd.2.2 x (htake.mpr ⟨by omega,hp⟩) x h rfl
  · rintro ⟨hn,hp⟩
    rcases hsplit.mp hp with h | h
    · have := (htake.mp h).1
      omega
    · exact h

theorem mem_surplus_iff (n : ℕ) (b : Bucket) (k : CopyName) (hk : k ∈ b.objects) :
    k ∈ surplus n b ↔ n ≤ place keyLe k b.objects ∧ place keyLe k b.objects < maxKeys := by
  have hsort : k ∈ b.objects.insertionSort keyLe := (List.mem_insertionSort keyLe).mpr hk
  have hn : (b.objects.insertionSort keyLe).Nodup :=
    (List.perm_insertionSort keyLe b.objects).nodup_iff.mpr b.nodup
  rw [surplus, mem_drop_take_iff hn hsort, idxOf_insertionSort keyLe k _ hk]

theorem prune_some {w : Outside} {ready : Bool} {n : ℕ} {s : Stores} {p : Pruned}
    (h : prune w ready n s = some p) :
    ∃ backups, listLocal w s.dir = some backups ∧
      p.stores.dir = s.dir.delete
        (fun name _ => name ∈ ((backups.map Prod.fst).drop n).filter w.removed) ∧
      p.stores.bucket = s.bucket.delete (toDelete w ready n s.bucket) := by
  rw [prune, Option.map_eq_some_iff] at h
  obtain ⟨backups,hb,rfl⟩ := h
  refine ⟨backups,hb,?_,rfl⟩
  simp only [skip_eq_drop]

theorem listLocal_perm {w : Outside} {s : Stores} {backups : List (List Char × DirEntry)}
    (h : listLocal w s.dir = some backups) : backups.Perm (localBackups s) := by
  rw [listLocal, Option.map_eq_some_iff] at h
  obtain ⟨r,-,rfl⟩ := h
  exact (List.perm_insertionSort _ _).trans ((r.perm _).filter _)

theorem listLocal_sorted {w : Outside} {s : Stores} {backups : List (List Char × DirEntry)}
    (h : listLocal w s.dir = some backups) : backups.Pairwise (newerFirst w) := by
  rw [listLocal, Option.map_eq_some_iff] at h
  obtain ⟨r,-,rfl⟩ := h
  exact List.pairwise_insertionSort _ _

theorem rows_nodup {κ ρ : Type*} (t : Table κ ρ) : t.rows.Nodup := t.keys_nodup.of_map _

/-- A name stands for one entry. -/
theorem mem_of_name_mem {κ ρ : Type*} (t : Table κ ρ) {l : List (κ × ρ)}
    (hl : ∀ e ∈ l, e ∈ t.rows) {e : κ × ρ} (he : e ∈ t.rows) : e.1 ∈ l.map Prod.fst ↔ e ∈ l := by
  rw [List.mem_map]
  constructor
  · rintro ⟨e',he',hn⟩
    rwa [← List.inj_on_of_nodup_map t.keys_nodup (hl e' he') he hn]
  · exact fun h => ⟨e,h,rfl⟩

theorem keepsLocal {w : Outside} {ready : Bool} {n : ℕ} {s : Stores} {p : Pruned}
    (hq : NoDeletionError w) (h : prune w ready n s = some p) : KeepsLocal w n s p.stores := by
  obtain ⟨backups,hb,hdir,-⟩ := prune_some h
  have hperm := listLocal_perm hb
  have hafter : localBackups p.stores = (localBackups s).filter
      (fun e => !decide (e.1 ∈ ((backups.map Prod.fst).drop n).filter w.removed)) := by
    rw [localBackups, localBackups, hdir, Table.delete, List.filter_filter, List.filter_filter]
    simp only [Bool.and_comm]
  rw [KeepsLocal, hafter]
  apply keepsNewest_of_descending _ ((rows_nodup s.dir).filter _) hperm (listLocal_sorted hb)
  intro e he
  have hname : e.1 ∈ (backups.drop n).map Prod.fst ↔ e ∈ backups.drop n := by
    apply mem_of_name_mem s.dir ?_ (List.mem_filter.mp he).1
    intro e' he'
    exact (List.mem_filter.mp (hperm.mem_iff.mp (List.mem_of_mem_drop he'))).1
  rw [← hname, List.map_drop]
  simp [List.mem_filter, hq.1]

theorem keepsS3_iff {w : Outside} {n : ℕ} {s : Stores} {p : Pruned} (h1 : 1 ≤ n)
    (hq : NoDeletionError w) (h : prune w true n s = some p) :
    KeepsS3 n s p.stores ↔ NothingToChoose w true n s := by
  obtain ⟨-,-,-,hbucket⟩ := prune_some h
  have hobj : p.stores.bucket.objects =
      s.bucket.objects.filter (fun k => storageKey k ∉ toDelete w true n s.bucket) := by
    rw [hbucket]
    rfl
  rw [KeepsS3, hobj, NothingToChoose]
  by_cases hl : w.listed = true
  · simp only [hl, true_and, forall_const]
    apply keepsNewest_ascending_iff _ h1 s.bucket.nodup (List.perm_insertionSort keyLe _)
    · exact (List.pairwise_insertionSort keyLe _).imp number_le_of_keyLe
    · intro k _
      simp [mem_toDelete_iff, hl, hq.2, surplus]
  · have hall : s.bucket.objects.filter (fun k => storageKey k ∉ toDelete w true n s.bucket) =
        s.bucket.objects := by
      rw [List.filter_eq_self]
      intro k _
      simp [mem_toDelete_iff, hl]
    rw [hall, keepsNewest_self_iff]
    simp [hl]

/-! ## The copy that a cycle makes -/

theorem mem_drop_iff {α : Type*} [DecidableEq α] {l : List α} (hl : l.Nodup) {x : α}
    (hx : x ∈ l) (n : ℕ) : x ∈ l.drop n ↔ n ≤ l.idxOf x := by
  have := mem_drop_take_iff hl hx n l.length
  rw [List.take_length] at this
  rw [this]
  exact and_iff_left (List.idxOf_lt_length_iff.mpr hx)

theorem create_some {s : Stores} {c : Cycle} {copy : Copy} (h : (create c s).1 = some copy) :
    runOnce s c = pruneAfter c (create c s).2 ∧
      ((∃ key, copy = .s3 key ∧ c.ready = true ∧ (create c s).2 = { s with bucket := s.bucket.put key }) ∨
      ∃ key, copy = .file (localBackupName key) ∧ (create c s).2 =
        { s with dir := writeFile s.dir (localBackupName key) ⟨true,c.modified⟩ }) := by
  unfold create runOnce at *
  by_cases he : (loadConfig c.settings).enabled = true
  · simp only [he, if_true] at h ⊢
    cases hd : c.dump with
    | none => simp [hd] at h
    | some bytes =>
      simp only [hd, createFromBytes] at h ⊢
      refine ⟨trivial,?_⟩
      split at h
      · split at h
        · exact Or.inl ⟨_,(Option.some.inj h).symm,‹_›,by simp [*]⟩
        · exact Or.inr ⟨_,(Option.some.inj h).symm,by simp [*]⟩
      · simp at h
  · simp [he] at h

theorem pruneAfter_of_unread {c : Cycle} {s : Stores} (h : c.outside.readDir = none) :
    pruneAfter c s = s := by
  simp [pruneAfter, prune, listLocal, h]

theorem prune_of_read {w : Outside} {r : Reading} (h : w.readDir = some r) (ready : Bool) (n : ℕ)
    (s : Stores) : ∃ p, prune w ready n s = some p ∧
      p.stores.dir = s.dir.delete (fun name _ =>
        name ∈ (((((r.order s.dir.rows).filter isBackup).insertionSort (newerFirst w)).map
          Prod.fst).drop n).filter w.removed) ∧
      p.stores.bucket = s.bucket.delete (toDelete w ready n s.bucket) := by
  have hl : listLocal w s.dir =
      some (((r.order s.dir.rows).filter isBackup).insertionSort (newerFirst w)) := by
    rw [listLocal, h]
    rfl
  obtain ⟨p,hp⟩ : ∃ p, prune w ready n s = some p := by
    rw [prune, hl]
    exact ⟨_,rfl⟩
  obtain ⟨backups,hb,hdir,hbucket⟩ := prune_some hp
  rw [hl, Option.some.injEq] at hb
  subst hb
  exact ⟨p,hp,hdir,hbucket⟩

theorem mem_put (b : Bucket) (k : CopyName) : k ∈ (b.put k).objects := by
  unfold Bucket.put
  split
  · assumption
  · simp

theorem place_put (b : Bucket) (k : CopyName) :
    place keyLe k (b.put k).objects = b.objects.countP (fun k' => storageKey k' < storageKey k) := by
  have hlt : ∀ z, (!decide (keyLe k z)) = decide (storageKey z < storageKey k) := by
    intro z
    by_cases h : storageKey z < storageKey k
    · have hn : ¬keyLe k z := not_le.mpr h
      simp [h, hn]
    · have hk : keyLe k z := not_lt.mp h
      simp [h, hk]
  rw [place_eq_countP keyLe k _ (mem_put b k) (b.put k).nodup]
  · simp only [hlt]
    unfold Bucket.put
    split
    · rfl
    · rw [List.countP_cons_of_neg (by simp)]
  · intro y _ hy
    have hne : storageKey y ≠ storageKey k := fun he => hy (storageKey_inj he)
    exact ⟨fun h => not_le.mpr (lt_of_le_of_ne h hne),fun h => (not_le.mp h).le⟩

theorem s3_kept_iff {c : Cycle} {r : Reading} (h : c.outside.readDir = some r) (hr : c.ready = true)
    (s : Stores) (k : CopyName) :
    Kept (pruneAfter c { s with bucket := s.bucket.put k }) (.s3 k) ↔
      c.outside.listed = false ∨ c.outside.deleted (storageKey k) = false ∨
        older s k < (loadConfig c.settings).retentionCount ∨ maxKeys ≤ older s k := by
  obtain ⟨p,hp,-,hbucket⟩ := prune_of_read h c.ready (loadConfig c.settings).retentionCount
    { s with bucket := s.bucket.put k }
  have hk := mem_put s.bucket k
  have hdel := mem_toDelete_iff c.outside c.ready (loadConfig c.settings).retentionCount
    (s.bucket.put k) k
  rw [mem_surplus_iff _ _ _ hk, place_put, ← older] at hdel
  have hkept : k ∈ p.stores.bucket.objects ↔ storageKey k ∉ toDelete c.outside c.ready
      (loadConfig c.settings).retentionCount (s.bucket.put k) := by
    rw [hbucket]
    simp [Bucket.delete, hk]
  rw [pruneAfter, hp, Kept, hkept, hdel, hr]
  cases c.outside.listed <;> cases c.outside.deleted (storageKey k) <;> simp
  omega

theorem localBackupName_isBackup (k : CopyName) (modified : Option ℕ) :
    isBackup (localBackupName k,⟨true,modified⟩) = true := by
  have hsuffix : k.ext.text <:+ localBackupName k :=
    (List.suffix_append k.id.1 _).trans ((List.suffix_append _ _).trans
      ((List.suffix_append _ _).trans (List.suffix_append _ _)))
  have hname : (".db".toList.isSuffixOf (localBackupName k) ||
      ".sql".toList.isSuffixOf (localBackupName k)) = true := by
    rw [Bool.or_eq_true, List.isSuffixOf_iff_suffix, List.isSuffixOf_iff_suffix]
    cases hext : k.ext with
    | sql =>
      rw [hext] at hsuffix
      exact Or.inr hsuffix
    | db =>
      rw [hext] at hsuffix
      exact Or.inl hsuffix
  rw [isBackup, Bool.true_and]
  exact hname

theorem mem_writeFile (dir : Table (List Char) DirEntry) (name : List Char) (e : DirEntry) :
    (name,e) ∈ (writeFile dir name e).rows := by
  have hnew : name ∉ (dir.delete (fun n _ => decide (n = name))).keys := by
    rw [← Table.get_none_iff, Table.get_delete]
    simp
  rw [writeFile, Table.insert_rows _ _ _ hnew]
  simp

theorem file_kept_iff {c : Cycle} {r : Reading} (h : c.outside.readDir = some r)
    (s : Stores) (k : CopyName) :
    Kept (pruneAfter c { s with dir := writeFile s.dir (localBackupName k) ⟨true,c.modified⟩ })
        (.file (localBackupName k)) ↔
      c.outside.removed (localBackupName k) = false ∨
        ahead c r s (localBackupName k) < (loadConfig c.settings).retentionCount := by
  let dir := writeFile s.dir (localBackupName k) ⟨true,c.modified⟩
  let e : List Char × DirEntry := (localBackupName k,⟨true,c.modified⟩)
  let backups := ((r.order dir.rows).filter isBackup).insertionSort (newerFirst c.outside)
  obtain ⟨p,hp,hdir,-⟩ := prune_of_read h c.ready (loadConfig c.settings).retentionCount
    { s with dir := dir }
  have he : e ∈ dir.rows := mem_writeFile s.dir (localBackupName k) ⟨true,c.modified⟩
  have hread : e ∈ (r.order dir.rows).filter isBackup :=
    List.mem_filter.mpr ⟨(r.perm _).mem_iff.mpr he,localBackupName_isBackup k c.modified⟩
  have hb : e ∈ backups := (List.mem_insertionSort _).mpr hread
  have hnodup : backups.Nodup :=
    (List.perm_insertionSort _ _).nodup_iff.mpr (((r.perm _).nodup_iff.mpr (rows_nodup dir)).filter _)
  have hplace : e ∈ backups.drop (loadConfig c.settings).retentionCount ↔
      (loadConfig c.settings).retentionCount ≤ ahead c r s (localBackupName k) := by
    rw [mem_drop_iff hnodup hb, idxOf_insertionSort _ _ _ hread]
    rfl
  have hname : e.1 ∈ (backups.drop (loadConfig c.settings).retentionCount).map Prod.fst ↔
      e ∈ backups.drop (loadConfig c.settings).retentionCount := by
    apply mem_of_name_mem dir ?_ he
    intro e' he'
    have := (List.mem_insertionSort _).mp (List.mem_of_mem_drop he')
    exact (r.perm _).mem_iff.mp (List.mem_filter.mp this).1
  have hkept : localBackupName k ∈ p.stores.dir.keys ↔
      ¬(localBackupName k ∈ (backups.drop (loadConfig c.settings).retentionCount).map Prod.fst ∧
        c.outside.removed (localBackupName k) = true) := by
    rw [hdir, ← not_iff_not, ← Table.get_none_iff, Table.get_delete, (Table.mem_iff_get _ _ _).mp he]
    simp only [Option.filter_some, ite_eq_right_iff, reduceCtorEq, imp_false, not_not,
      ← List.map_drop, List.mem_filter]
    simp [backups]
  rw [pruneAfter, hp, Kept, hkept, hname, hplace]
  cases c.outside.removed (localBackupName k) <;> simp

theorem ownKept_iff (s : Stores) (c : Cycle) : OwnKept s c ↔ Spared s c := by
  unfold OwnKept Spared
  apply forall_congr'
  intro copy
  apply imp_congr_right
  intro hcopy
  obtain ⟨hrun,⟨key,rfl,hr,hs⟩ | ⟨key,rfl,hs⟩⟩ := create_some hcopy
  · rw [hrun, hs]
    cases hread : c.outside.readDir with
    | none => simp [pruneAfter_of_unread hread, Kept, mem_put]
    | some r =>
      rw [s3_kept_iff hread hr]
      simp
  · rw [hrun, hs]
    cases hread : c.outside.readDir with
    | none =>
      simp only [pruneAfter_of_unread hread, reduceCtorEq, false_imp_iff, implies_true, iff_true]
      exact List.mem_map.mpr ⟨_,mem_writeFile s.dir _ _,rfl⟩
    | some r =>
      rw [file_kept_iff hread]
      simp

/-! ## The result -/

/-- A prune keeps the newest copies of both stores where the bucket leaves nothing to
choose; a cycle of a run keeps its own copy where that copy is spared. -/
theorem retention_keeps_newest (s : Stores) :
    (∀ w ready n p, 1 ≤ n → NoDeletionError w → prune w ready n s = some p →
      (PruneKeeps w ready n s p.stores ↔ NothingToChoose w ready n s)) ∧
    ∀ cycles, Guarded runOnce OwnKept cycles s ↔ Guarded runOnce Spared cycles s := by
  constructor
  · intro w ready n p h1 hq h
    have hlocal := keepsLocal hq h
    cases ready with
    | false => simp [PruneKeeps, NothingToChoose, hlocal]
    | true =>
      rw [PruneKeeps, ← keepsS3_iff h1 hq h]
      simp [hlocal]
  · intro cycles
    apply guarded_congr
    exact ownKept_iff

/-! ## A full bucket -/

/-- A cycle that puts a copy later than every stored one, and meets no error. -/
structure PutsLatest (n : ℕ) (s : Stores) (c : Cycle) : Prop where
  retention : (loadConfig c.settings).retentionCount = n
  read : c.outside.readDir ≠ none
  listed : c.outside.listed = true
  deleted : ∀ key, c.outside.deleted key = true
  latest : ∃ key, (create c s).1 = some (.s3 key) ∧ ∀ k ∈ s.bucket.objects, k.stamp.number < key.stamp.number

theorem full_bucket_step {n : ℕ} {s : Stores} {c : Cycle} (hlen : s.bucket.objects.length = n)
    (hpage : n < maxKeys) (h : PutsLatest n s c) :
    (runOnce s c).bucket.objects = s.bucket.objects := by
  obtain ⟨key,hcreate,hlatest⟩ := h.latest
  obtain ⟨r,hr⟩ := Option.ne_none_iff_exists'.mp h.read
  obtain ⟨hrun,⟨_,he,hready,hs⟩ | ⟨_,he,-⟩⟩ := create_some hcreate
  swap
  · simp at he
  obtain rfl := Copy.s3.inj he
  have hlt : ∀ k ∈ s.bucket.objects, storageKey k < storageKey key :=
    fun k hk => storageKey_lt (hlatest k hk)
  have hnew : key ∉ s.bucket.objects := fun hk => lt_irrefl _ (hlt key hk)
  have hput : (s.bucket.put key).objects = key::s.bucket.objects := by
    rw [Bucket.put, dif_neg hnew]
  obtain ⟨p,hp,-,hbucket⟩ := prune_of_read hr c.ready (loadConfig c.settings).retentionCount
    { s with bucket := s.bucket.put key }
  have hdel : ∀ k ∈ (s.bucket.put key).objects,
      storageKey k ∈ toDelete c.outside c.ready (loadConfig c.settings).retentionCount (s.bucket.put key) ↔
        n ≤ place keyLe k (s.bucket.put key).objects ∧
          place keyLe k (s.bucket.put key).objects < maxKeys := by
    intro k hk
    rw [mem_toDelete_iff, mem_surplus_iff _ _ _ hk, h.retention]
    simp [hready, h.listed, h.deleted]
  have hobj : p.stores.bucket.objects = (s.bucket.put key).objects.filter
      (fun k => storageKey k ∉ toDelete c.outside c.ready (loadConfig c.settings).retentionCount
        (s.bucket.put key)) := by
    rw [hbucket]
    rfl
  have hgone : place keyLe key (s.bucket.put key).objects = n := by
    rw [place_put, ← hlen, List.countP_eq_length]
    intro k hk
    exact decide_eq_true (hlt k hk)
  have hstay : ∀ k ∈ s.bucket.objects, place keyLe k (s.bucket.put key).objects < n := by
    intro k hk
    have hne : key ≠ k := fun he => hnew (he ▸ hk)
    have hkey : ¬keyLe key k := not_le.mpr (hlt k hk)
    rw [hput, place, if_neg hne, if_neg hkey, Nat.add_zero, ← hlen,
      ← idxOf_insertionSort keyLe k _ hk, ← List.length_insertionSort keyLe s.bucket.objects]
    exact List.idxOf_lt_length_iff.mpr ((List.mem_insertionSort keyLe).mpr hk)
  rw [hrun, hs, pruneAfter, hp]
  show p.stores.bucket.objects = s.bucket.objects
  rw [hobj]
  conv_lhs => rw [hput]
  rw [List.filter_cons_of_neg, List.filter_eq_self]
  · intro k hk
    have := hstay k hk
    have hk' : k ∈ (s.bucket.put key).objects := by simp [hput, hk]
    simp only [decide_eq_true_eq, hdel k hk']
    omega
  · simp only [decide_eq_true_eq, not_not, hdel key (mem_put _ _)]
    omega

/-- Once the bucket holds as many copies as are kept, later cycles leave it as it is:
each deletes the copy it has made. -/
theorem full_bucket_stays {n : ℕ} {s : Stores} (hlen : s.bucket.objects.length = n)
    (hpage : n < maxKeys) (cycles : List Cycle) (h : Guarded runOnce (PutsLatest n) cycles s) :
    (run runOnce cycles s).bucket.objects = s.bucket.objects := by
  refine guarded_invariant runOnce (PutsLatest n)
    (fun s' => s'.bucket.objects = s.bucket.objects) ?_ cycles s rfl h
  intro s' c hs' hc
  rw [← hs']
  exact full_bucket_step (by rw [hs', hlen]) hpage hc

/-! ## Two copies, of which one is kept -/

def quiet : Outside where
  readDir := some ⟨id,fun l => List.Perm.refl l⟩
  now := fun _ => 0
  removed := fun _ => true
  listed := true
  deleted := fun _ => true

def copyOf (date : Fin (10^8)) : CopyName := ⟨⟨date,0⟩,⟨"00000000".toList,rfl⟩,.sql⟩

def twoCopies : Stores := ⟨Table.empty,⟨[copyOf 20260101,copyOf 20260102],by decide⟩⟩

def oneCopy : Stores := ⟨Table.empty,⟨[copyOf 20260101],by decide⟩⟩

def nextDay : Cycle where
  settings := some (1,1)
  dump := some (bytesOf postgresMagic++List.replicate 100 0)
  ready := true
  written := true
  stamp := ⟨20260102,0⟩
  id := ⟨"00000000".toList,rfl⟩
  modified := none
  outside := quiet

theorem quiet_noDeletionError : NoDeletionError quiet := ⟨fun _ => rfl,fun _ => rfl⟩

/-- The older of two copies is kept, and a cycle deletes the copy it has just made. -/
theorem twoCopies_newest_lost :
    ¬(∀ p, prune quiet true 1 twoCopies = some p → PruneKeeps quiet true 1 twoCopies p.stores) ∧
    ¬OwnKept oneCopy nextDay := by
  have hprune : (prune quiet true 1 twoCopies).map (fun p => p.stores.bucket.objects) =
      some [copyOf 20260101] := by decide +kernel
  have hrun : (runOnce oneCopy nextDay).bucket.objects = [copyOf 20260101] := by decide +kernel
  constructor
  · intro h
    rw [Option.map_eq_some_iff] at hprune
    obtain ⟨p,hp,hobj⟩ := hprune
    have hkeeps := (h p hp).2 rfl
    rw [KeepsS3, hobj] at hkeeps
    revert hkeeps
    decide +kernel
  · intro h
    have hkept := h (.s3 (copyOf 20260102)) (by decide +kernel)
    rw [Kept, hrun] at hkept
    revert hkept
    decide +kernel

theorem retention_keeps_newest_two :
    (∀ p, prune quiet true 2 twoCopies = some p → PruneKeeps quiet true 2 twoCopies p.stores) ∧
    (Guarded runOnce OwnKept [nextDay] oneCopy ↔ Guarded runOnce Spared [nextDay] oneCopy) := by
  constructor
  · intro p hp
    exact ((retention_keeps_newest twoCopies).1 quiet true 2 p (by decide) quiet_noDeletionError hp).mpr
      (fun _ => Or.inl (by decide))
  · exact (retention_keeps_newest oneCopy).2 [nextDay]

end DevForge.RetentionKeepsNewest
