import DevForge.DraftBackups

/-!
# When discarding a draft loses nothing

What a backup holds is what the status lists. Discarding also touches what the
status overlooks: junk files, files under ignore rules that the reset changes,
and paths on which GitHub has moved.
-/

set_option autoImplicit false

namespace DevForge.DraftLosesNothing
open DraftFiles DraftBackups

def draft (g : Git) (r : Repo) : List DraftFile := (status g r).1

def BackedUp (b : Backup) (p : Path) : Prop := p ∈ b.files ∨ p ∈ b.deleted

/-- The path of a file of the draft, or its old name. -/
def Names (f : DraftFile) (p : Path) : Prop := f.path = p ∨ f.oldPath = some p

def Restores (r : Repo) (files : List DraftFile) (worktree : Tree) : Prop :=
  ∀ f ∈ files, ∀ p, Names f p → restore (backup r files) worktree p = r.worktree p

structure LosesNothing (g : Git) (r : Repo) : Prop where
  discarded : ∀ p, (discard g r).worktree p ≠ r.worktree p → BackedUp (backup r (draft g r)) p
  reverted : ∀ f ∈ draft g r, ∀ r', revertFile r f = .ok r' →
    ∀ p, r'.worktree p ≠ r.worktree p → BackedUp (backup r [f]) p
  restored : Restores r (draft g r) (discard g r).worktree
  restoredFile : ∀ f ∈ draft g r, ∀ r', revertFile r f = .ok r' → Restores r [f] r'.worktree
  emptied : draft g (discard g r) = []

/-! ## The condition -/

def Noticed (g : Git) (r : Repo) (p : Path) : Prop :=
  r.isChanged p = true ∨ (r.isUntracked p = true ∧ r.isIgnored g p = false)

/-- A path that is read but not listed: it is junk, or the old name of junk only. -/
def Hidden (g : Git) (r : Repo) (p : Path) : Prop :=
  (isJunk p = true ∨ (∃ x ∈ g.renames r.base r.tracked, x.1 = p) ∧
    ¬(r.isUntracked p = true ∧ r.isIgnored g p = false)) ∧
  ∀ x ∈ g.renames r.base r.tracked, x.1 = p → isJunk x.2 = true

def Overlooked (g : Git) (r : Repo) (p : Path) : Prop := Noticed g r p → Hidden g r p

/-- What is overlooked has the contents that GitHub has, or is spared by the clean; the
draft's paths are files and old names are free; the clean leaves junk and ignored files. -/
structure Harmless (g : Git) (r : Repo) : Prop where
  reset : ∀ p, Overlooked g r p → target r p ≠ none ∨ r.index p ≠ none → r.worktree p = target r p
  clean : ∀ p, Overlooked g r p → r.isUntracked p = true → target r p = none → spared g r p = true
  files : ∀ f ∈ draft g r, ∀ c, r.worktree f.path = some c → c.isFile = true
  oldNames : ∀ f ∈ draft g r, ∀ old, f.oldPath = some old → r.worktree old = none
  left : ∀ p, r.isUntracked p = true → target r p = none → spared g r p = true →
    isJunk p = true ∨ ignored g r.exclude (afterClean g r) p = true

/-! ## What the status lists -/

theorem mem_draft_iff {g : Git} {r : Repo} {f : DraftFile} :
    f ∈ draft g r ↔ f ∈ rawFiles g r ∧ isJunk f.path = false := by
  simp [draft, status, List.partition_eq_filter_filter]

theorem mem_rawFiles_iff {g : Git} {r : Repo} {f : DraftFile} :
    f ∈ rawFiles g r ↔ f ∈ diffFiles g r ∨ ∃ p ∈ r.paths, r.isUntracked p = true ∧
      r.isIgnored g p = false ∧ (∀ f' ∈ diffFiles g r, f'.path ≠ p) ∧ f = ⟨p,.added,none⟩ := by
  simp only [rawFiles, List.mem_insertionSort, List.mem_append, List.mem_map, List.mem_filter,
    Bool.and_eq_true, Bool.not_eq_true', List.any_eq_false, decide_eq_true_eq]
  apply or_congr_right
  constructor
  · rintro ⟨p,⟨⟨hp,hu,hi⟩,hnone⟩,rfl⟩
    exact ⟨p,hp,hu,hi,hnone,rfl⟩
  · rintro ⟨p,hp,hu,hi,hnone,rfl⟩
    exact ⟨p,⟨⟨hp,hu,hi⟩,hnone⟩,rfl⟩

theorem changed_cover {r : Repo} {p : Path} (h : r.isChanged p = true) : p ∈ r.paths := by
  have hne : r.base p ≠ r.tracked p := by simpa [Repo.isChanged] using h
  by_cases hb : r.base p = none
  · apply r.cover p
    left
    intro hw
    rw [hb, Repo.tracked, hw] at hne
    simp at hne
  · exact base_cover r hb

theorem untracked_cover {r : Repo} {p : Path} (h : r.isUntracked p = true) : p ∈ r.paths := by
  apply r.cover p
  left
  simp only [Repo.isUntracked, Bool.and_eq_true, decide_eq_true_eq] at h
  exact h.1

theorem renamed_changed {g : Git} {r : Repo} {x : Path × Path} (hx : x ∈ g.renames r.base r.tracked) :
    r.isChanged x.1 = true ∧ r.isChanged x.2 = true := by
  obtain ⟨h1,h2,h3,h4⟩ := g.renamed _ _ x hx
  simp only [Repo.isChanged, decide_eq_true_eq]
  rw [h2, h3]
  exact ⟨h1,h4.symm⟩

/-- The entries of the diff: renames, and what no rename takes up. -/
theorem mem_diffFiles_iff {g : Git} {r : Repo} {f : DraftFile} : f ∈ diffFiles g r ↔
    (∃ x ∈ g.renames r.base r.tracked, f = ⟨x.2,.renamed,some x.1⟩) ∨
    ∃ p, r.isChanged p = true ∧ (∀ x ∈ g.renames r.base r.tracked, x.1 ≠ p ∧ x.2 ≠ p) ∧
      f = ⟨p,letter r p,none⟩ := by
  simp only [diffFiles, List.mem_filterMap, List.mem_filter]
  constructor
  · rintro ⟨p,⟨hp,hc⟩,hf⟩
    split at hf
    · rename_i x hx
      have hxp : x.2 = p := by simpa using List.find?_some hx
      rw [← Option.some.inj hf, ← hxp]
      exact Or.inl ⟨x,List.mem_of_find?_eq_some hx,rfl⟩
    · rename_i hnone
      split at hf
      · simp at hf
      · rename_i hany
        rw [← Option.some.inj hf]
        refine Or.inr ⟨p,hc,fun x hx => ⟨fun h1 => hany ?_,fun h2 => ?_⟩,rfl⟩
        · exact List.any_eq_true.mpr ⟨x,hx,by simpa using h1⟩
        · have := List.find?_eq_none.mp hnone x hx
          simp [h2] at this
  · rintro (⟨x,hx,rfl⟩ | ⟨p,hc,hnone,rfl⟩)
    · have hchanged := (renamed_changed hx).2
      refine ⟨x.2,⟨changed_cover hchanged,hchanged⟩,?_⟩
      have hfind : (g.renames r.base r.tracked).find? (fun y => y.2 = x.2) = some x := by
        cases hy : (g.renames r.base r.tracked).find? (fun y => y.2 = x.2) with
        | none =>
          have := List.find?_eq_none.mp hy x hx
          simp at this
        | some y =>
          have hyx : y.2 = x.2 := by simpa using List.find?_some hy
          rw [List.inj_on_of_nodup_map (g.renamedOnce _ _) (List.mem_of_find?_eq_some hy) hx hyx]
      rw [hfind]
    · refine ⟨p,⟨changed_cover hc,hc⟩,?_⟩
      have hfind : (g.renames r.base r.tracked).find? (fun y => y.2 = p) = none := by
        rw [List.find?_eq_none]
        intro x hx
        simpa using (hnone x hx).2
      have hany : (g.renames r.base r.tracked).any (fun y => y.1 = p) = false := by
        rw [List.any_eq_false]
        intro x hx
        simpa using (hnone x hx).1
      simp only [hfind, hany, Bool.false_eq_true, if_false]

/-- A path is listed where it is noticed and not hidden. -/
theorem listed_iff {g : Git} {r : Repo} (p : Path) :
    (∃ f ∈ draft g r, Names f p) ↔ ¬Overlooked g r p := by
  have hrename : ∀ x ∈ g.renames r.base r.tracked, r.tracked x.1 = none ∧ r.tracked x.2 ≠ none :=
    fun x hx => ⟨(g.renamed _ _ x hx).2.1,(g.renamed _ _ x hx).2.2.2⟩
  rw [Overlooked, Classical.not_imp]
  constructor
  · rintro ⟨f,hf,hn⟩
    obtain ⟨hraw,hj⟩ := mem_draft_iff.mp hf
    rcases mem_rawFiles_iff.mp hraw with hdiff | ⟨q,-,hu,hi,-,rfl⟩
    · rcases mem_diffFiles_iff.mp hdiff with ⟨x,hx,rfl⟩ | ⟨q,hc,hnone,rfl⟩
      · rcases hn with rfl | hn
        · refine ⟨Or.inl (renamed_changed hx).2,?_⟩
          rintro ⟨hjunk | ⟨⟨y,hy,hyx⟩,-⟩,-⟩
          · rw [hj] at hjunk
            simp at hjunk
          · have hnone := (hrename y hy).1
            rw [hyx] at hnone
            exact (hrename x hx).2 hnone
        · obtain rfl : x.1 = p := Option.some.inj hn
          refine ⟨Or.inl (renamed_changed hx).1,fun hh => ?_⟩
          rw [hh.2 x hx rfl] at hj
          simp at hj
      · obtain rfl : q = p := hn.resolve_right (by simp)
        refine ⟨Or.inl hc,?_⟩
        rintro ⟨hjunk | ⟨⟨y,hy,hyq⟩,-⟩,-⟩
        · rw [hj] at hjunk
          simp at hjunk
        · exact (hnone y hy).1 hyq
    · obtain rfl : q = p := hn.resolve_right (by simp)
      refine ⟨Or.inr ⟨hu,hi⟩,?_⟩
      rintro ⟨hjunk | ⟨-,hnot⟩,-⟩
      · rw [hj] at hjunk
        simp at hjunk
      · exact hnot ⟨hu,hi⟩
  · rintro ⟨hnoticed,hhidden⟩
    by_cases hold : ∃ x ∈ g.renames r.base r.tracked, x.1 = p ∧ isJunk x.2 = false
    · obtain ⟨x,hx,hxp,hj⟩ := hold
      refine ⟨⟨x.2,.renamed,some x.1⟩,mem_draft_iff.mpr ⟨?_,hj⟩,Or.inr (by rw [hxp])⟩
      exact mem_rawFiles_iff.mpr (Or.inl (mem_diffFiles_iff.mpr (Or.inl ⟨x,hx,rfl⟩)))
    · have hall : ∀ x ∈ g.renames r.base r.tracked, x.1 = p → isJunk x.2 = true := by
        intro x hx hxp
        by_contra hj
        exact hold ⟨x,hx,hxp,by simpa using hj⟩
      have hnot : ¬(isJunk p = true ∨ (∃ x ∈ g.renames r.base r.tracked, x.1 = p) ∧
          ¬(r.isUntracked p = true ∧ r.isIgnored g p = false)) := fun h => hhidden ⟨h,hall⟩
      rw [not_or, not_and, not_not] at hnot
      have hj : isJunk p = false := by simpa using hnot.1
      have hlist : ∀ f ∈ diffFiles g r, f.path = p → ∃ f ∈ draft g r, Names f p := by
        intro f hf hfp
        refine ⟨f,mem_draft_iff.mpr ⟨mem_rawFiles_iff.mpr (Or.inl hf),?_⟩,Or.inl hfp⟩
        rw [hfp, hj]
      by_cases hdiff : ∃ f ∈ diffFiles g r, f.path = p
      · obtain ⟨f,hf,hfp⟩ := hdiff
        exact hlist f hf hfp
      · have hnodiff : ∀ f ∈ diffFiles g r, f.path ≠ p := fun f hf hfp => hdiff ⟨f,hf,hfp⟩
        have huntracked : r.isUntracked p = true ∧ r.isIgnored g p = false := by
          rcases hnoticed with hc | hu
          · apply hnot.2
            by_contra hnone
            refine hnodiff ⟨p,letter r p,none⟩ (mem_diffFiles_iff.mpr (Or.inr ⟨p,hc,?_,rfl⟩)) rfl
            intro x hx
            refine ⟨fun h1 => hnone ⟨x,hx,h1⟩,fun h2 => ?_⟩
            exact hnodiff ⟨x.2,.renamed,some x.1⟩ (mem_diffFiles_iff.mpr (Or.inl ⟨x,hx,rfl⟩)) h2
          · exact hu
        refine ⟨⟨p,.added,none⟩,mem_draft_iff.mpr ⟨mem_rawFiles_iff.mpr (Or.inr ?_),hj⟩,Or.inl rfl⟩
        exact ⟨p,untracked_cover huntracked.1,huntracked.1,huntracked.2,hnodiff,rfl⟩

/-! ## What a backup holds -/

theorem mem_absent_iff {t : Tree} {f : DraftFile} {p : Path} :
    p ∈ absent t f ↔ (isFile t f.path = false ∧ f.path = p) ∨ f.oldPath = some p := by
  simp only [absent, List.mem_append, Option.mem_toList, Option.filter_eq_some_iff, safeRel_eq_true,
    and_true]
  apply or_congr_left
  by_cases hf : isFile t f.path = true
  · simp [hf]
  · simp [hf, eq_comm]

theorem mem_deleted_iff {r : Repo} {files : List DraftFile} {p : Path} :
    p ∈ (backup r files).deleted ↔ ∃ f ∈ files, p ∈ absent r.worktree f := by
  simp [backup, safeRel_eq_true]

theorem mem_files_iff {r : Repo} {files : List DraftFile} {p : Path} :
    p ∈ (backup r files).files ↔ ∃ f ∈ files, isFile r.worktree p = true ∧ f.path = p := by
  simp only [backup, safeRel_eq_true, List.mem_map, List.mem_filter]
  constructor
  · rintro ⟨f,⟨⟨hf,-⟩,hfile⟩,rfl⟩
    exact ⟨f,hf,hfile,rfl⟩
  · rintro ⟨f,hf,hfile,rfl⟩
    exact ⟨f,⟨⟨hf,trivial⟩,hfile⟩,rfl⟩

theorem backedUp_iff {r : Repo} {files : List DraftFile} {p : Path} :
    BackedUp (backup r files) p ↔ ∃ f ∈ files, Names f p := by
  rw [BackedUp, mem_files_iff, mem_deleted_iff]
  constructor
  · rintro (⟨f,hf,-,hp⟩ | ⟨f,hf,hp⟩)
    · exact ⟨f,hf,Or.inl hp⟩
    · exact ⟨f,hf,(mem_absent_iff.mp hp).imp And.right id⟩
  · rintro ⟨f,hf,hp | hp⟩
    · by_cases hfile : isFile r.worktree p = true
      · exact Or.inl ⟨f,hf,hfile,hp⟩
      · exact Or.inr ⟨f,hf,mem_absent_iff.mpr (Or.inl ⟨by simpa [hp] using hfile,hp⟩)⟩
    · exact Or.inr ⟨f,hf,mem_absent_iff.mpr (Or.inr hp)⟩

theorem saved_eq {r : Repo} {files : List DraftFile} {p : Path} (h : p ∈ (backup r files).files) :
    (backup r files).saved p = r.worktree p := by
  simp only [backup] at h ⊢
  rw [if_pos h]

/-! ## What discarding and reverting change -/

theorem unchanged_iff (g : Git) (r : Repo) (p : Path) : afterClean g r p = r.worktree p ↔
    (target r p ≠ none ∨ r.index p ≠ none → r.worktree p = target r p) ∧
    (r.isUntracked p = true → target r p = none → spared g r p = true) := by
  rw [eq_comm]
  by_cases ht : target r p = none
  · by_cases hi : r.index p = none
    · cases hs : spared g r p
      · simp [afterClean, Repo.isUntracked, ht, hi, hs]
      · simp [afterClean, afterReset, ht, hi, hs]
    · simp [afterClean, afterReset, Repo.isUntracked, ht, hi]
  · simp [afterClean, afterReset, ht]

theorem discarded_iff (g : Git) (r : Repo) :
    (∀ p, (discard g r).worktree p ≠ r.worktree p → BackedUp (backup r (draft g r)) p) ↔
    ∀ p, Overlooked g r p → afterClean g r p = r.worktree p := by
  apply forall_congr'
  intro p
  rw [backedUp_iff, listed_iff, not_imp_not]
  rfl

theorem checkout_worktree_of_ne (r : Repo) {p q : Path} (h : q ≠ p) :
    (checkout r p).worktree q = r.worktree q := by
  simp [checkout, writePath, put, h]

theorem revertOld_worktree (r : Repo) (f : DraftFile) {p : Path} (h : f.oldPath ≠ some p) :
    (revertOld r f).worktree p = r.worktree p := by
  unfold revertOld
  split
  · rename_i old hold
    split
    · apply checkout_worktree_of_ne
      rintro rfl
      exact h hold
    · rfl
  · rfl

theorem revertPath_worktree (r : Repo) {p q : Path} (h : q ≠ p) :
    (revertPath r p).worktree q = r.worktree q := by
  unfold revertPath
  split
  · exact checkout_worktree_of_ne r h
  · simp [writePath, put, h]

theorem reverted_names {r r' : Repo} {f : DraftFile} (h : revertFile r f = .ok r') {p : Path}
    (hp : r'.worktree p ≠ r.worktree p) : Names f p := by
  rw [revertFile, if_pos (safeRel_eq_true f.path)] at h
  obtain rfl : revertPath (revertOld r f) f.path = r' := Except.ok.inj h
  by_contra hn
  rw [Names, not_or] at hn
  apply hp
  rw [revertPath_worktree _ (fun h => hn.1 h.symm), revertOld_worktree r f hn.2]

/-! ## What restoring brings back -/

theorem restores_iff {r : Repo} {files : List DraftFile} {worktree : Tree} :
    Restores r files worktree ↔
    (∀ f ∈ files, ∀ c, r.worktree f.path = some c → c.isFile = true) ∧
    (∀ f ∈ files, ∀ old, f.oldPath = some old → r.worktree old = none) := by
  have hdeleted : ∀ p, p ∈ (backup r files).deleted →
      restore (backup r files) worktree p = none := by
    intro p hp
    simp [restore, safeRel_eq_true, hp]
  constructor
  · intro h
    constructor
    · intro f hf c hc
      by_contra hfile
      have hnot : isFile r.worktree f.path = false := by simpa [isFile, hc] using hfile
      have habsent : f.path ∈ (backup r files).deleted :=
        mem_deleted_iff.mpr ⟨f,hf,mem_absent_iff.mpr (Or.inl ⟨hnot,rfl⟩)⟩
      have := h f hf f.path (Or.inl rfl)
      rw [hdeleted _ habsent, hc] at this
      simp at this
    · intro f hf old hold
      have habsent : old ∈ (backup r files).deleted :=
        mem_deleted_iff.mpr ⟨f,hf,mem_absent_iff.mpr (Or.inr hold)⟩
      rw [←h f hf old (Or.inr hold), hdeleted _ habsent]
  · rintro ⟨hfiles,hold⟩ f hf p hp
    by_cases hdel : p ∈ (backup r files).deleted
    · rw [hdeleted p hdel]
      obtain ⟨f',hf',hp'⟩ := mem_deleted_iff.mp hdel
      rcases mem_absent_iff.mp hp' with ⟨hnot,rfl⟩ | hp'
      · cases hc : r.worktree f'.path with
        | none => rfl
        | some c =>
          have hfile := hfiles f' hf' c hc
          simp [isFile, hc, hfile] at hnot
      · exact (hold f' hf' p hp').symm
    · have hin : p ∈ (backup r files).files :=
        (backedUp_iff.mpr ⟨f,hf,hp⟩).resolve_right hdel
      rw [restore, if_neg (by simp [hdel]), if_pos hin, saved_eq hin]

/-! ## What is left of the draft -/

theorem discard_base (g : Git) (r : Repo) : (discard g r).base = target r := by
  cases hr : r.remote with
  | none => simp [Repo.base, DraftBackups.discard, hr]
  | some t => simp [Repo.base, DraftBackups.discard, target, hr]

theorem discard_tracked (g : Git) (r : Repo) : (discard g r).tracked = target r := by
  funext p
  by_cases ht : target r p = none
  · simp [Repo.tracked, DraftBackups.discard, ht]
  · simp [Repo.tracked, DraftBackups.discard, afterClean, afterReset, ht]

theorem discard_unchanged (g : Git) (r : Repo) (p : Path) : (discard g r).isChanged p = false := by
  rw [Repo.isChanged, discard_base, discard_tracked]
  simp

theorem discard_untracked_iff (g : Git) (r : Repo) (p : Path) :
    (discard g r).isUntracked p = true ↔
    r.isUntracked p = true ∧ target r p = none ∧ spared g r p = true := by
  by_cases ht : target r p = none
  · by_cases hi : r.index p = none
    · cases hs : spared g r p
      · simp [Repo.isUntracked, DraftBackups.discard, afterClean, ht, hs]
      · simp [Repo.isUntracked, DraftBackups.discard, afterClean, afterReset, ht, hi, hs]
    · simp [Repo.isUntracked, DraftBackups.discard, afterClean, afterReset, ht, hi]
  · simp [Repo.isUntracked, DraftBackups.discard, ht]

theorem draft_eq_nil_iff {g : Git} {r : Repo} : draft g r = [] ↔ ∀ p, Overlooked g r p := by
  constructor
  · intro h p
    have hnone : ¬∃ f ∈ draft g r, Names f p := by simp [h]
    rwa [listed_iff, not_not] at hnone
  · intro h
    apply List.eq_nil_iff_forall_not_mem.mpr
    intro f hf
    exact (listed_iff f.path).mp ⟨f,hf,Or.inl rfl⟩ (h f.path)

theorem emptied_iff (g : Git) (r : Repo) : draft g (discard g r) = [] ↔
    ∀ p, r.isUntracked p = true → target r p = none → spared g r p = true →
      isJunk p = true ∨ ignored g r.exclude (afterClean g r) p = true := by
  have hrenames : ∀ x, x ∉ g.renames (discard g r).base (discard g r).tracked := by
    intro x hx
    have := (renamed_changed hx).1
    rw [discard_unchanged] at this
    simp at this
  rw [draft_eq_nil_iff]
  apply forall_congr'
  intro p
  have hignored : (discard g r).isIgnored g p = ignored g r.exclude (afterClean g r) p := rfl
  have huntracked := discard_untracked_iff g r p
  constructor
  · intro h hu ht hs
    by_cases hi : (discard g r).isIgnored g p = true
    · exact Or.inr (hignored ▸ hi)
    · have hnoticed : (discard g r).isUntracked p = true ∧ (discard g r).isIgnored g p = false :=
        ⟨huntracked.mpr ⟨hu,ht,hs⟩,by simpa using hi⟩
      exact (h (Or.inr hnoticed)).1.imp id (fun hx => absurd hnoticed hx.2)
  · rintro h (hc | ⟨hu,hi⟩)
    · rw [discard_unchanged] at hc
      simp at hc
    · obtain ⟨hu',ht,hs⟩ := huntracked.mp hu
      refine ⟨Or.inl ((h hu' ht hs).resolve_right ?_),fun x hx => absurd hx (hrenames x)⟩
      rw [←hignored, hi]
      simp

/-- Discarding or reverting after a backup loses nothing of a draft where what the status
overlooks is left alone, and not elsewhere. -/
theorem loses_nothing_iff (g : Git) (r : Repo) : LosesNothing g r ↔ Harmless g r := by
  have hdiscarded := discarded_iff g r
  simp only [unchanged_iff] at hdiscarded
  constructor
  · intro h
    have hd := hdiscarded.mp h.discarded
    have hr := restores_iff.mp h.restored
    exact {
      reset := fun p hp => (hd p hp).1
      clean := fun p hp => (hd p hp).2
      files := hr.1
      oldNames := hr.2
      left := (emptied_iff g r).mp h.emptied }
  · intro h
    exact {
      discarded := hdiscarded.mpr (fun p hp => ⟨h.reset p hp,h.clean p hp⟩)
      reverted := fun f _ r' hr' p hp =>
        backedUp_iff.mpr ⟨f,List.mem_singleton.mpr rfl,reverted_names hr' hp⟩
      restored := restores_iff.mpr ⟨h.files,h.oldNames⟩
      restoredFile := by
        intro f hf r' hr'
        apply restores_iff.mpr
        simp only [List.mem_singleton, forall_eq]
        exact ⟨h.files f hf,h.oldNames f hf⟩
      emptied := (emptied_iff g r).mpr h.left }

/-- A cached file that nothing ignores: the status hides it and the clean removes it. -/
def cached : Path := ⟨["main.pyc"],by decide⟩

def plainGit : Git := ⟨fun _ _ => none,fun _ _ => false,fun _ => false,fun _ _ => [],by simp,by simp⟩

def withCached : Repo :=
  ⟨[cached],fun p => if p = cached then some ⟨true,"code"⟩ else none,fun _ => none,fun _ => none,
    none,none,[],by
    intro p h
    by_cases hp : p = cached
    · simp [hp]
    · simp [hp] at h⟩

theorem cached_file_lost : ¬LosesNothing plainGit withCached := by
  intro h
  have hnone : draft plainGit withCached = [] := by decide +kernel
  have hback := backedUp_iff.mp (h.discarded cached (by decide +kernel))
  rw [hnone] at hback
  simp at hback

end DevForge.DraftLosesNothing
