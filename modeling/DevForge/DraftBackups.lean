import DevForge.DraftFiles

/-!
# Backups of a draft

A backup keeps the contents of the draft's files and the paths that were
absent. Discarding resets the work tree to GitHub and cleans it; reverting
does so for one file; restoring brings a backup back.
-/

set_option autoImplicit false

namespace DevForge.DraftBackups
open DraftFiles

def safeRel (p : Path) : Bool :=
  p.parts ≠ [] && p.parts.head? ≠ some "" && p.parts.all (· ≠ "..")

/-- `saved` is what the archive holds. -/
structure Backup where
  files : List Path
  deleted : List Path
  saved : Tree

def isFile (t : Tree) (p : Path) : Bool := (t p).any Content.isFile

/-- The paths of one file that count as absent. -/
def absent (t : Tree) (f : DraftFile) : List Path :=
  (if isFile t f.path then [] else [f.path])++(f.oldPath.filter safeRel).toList

def backup (r : Repo) (files : List DraftFile) : Backup :=
  let safe := files.filter (fun f => safeRel f.path)
  let keep := (safe.filter (fun f => isFile r.worktree f.path)).map DraftFile.path
  ⟨keep,safe.flatMap (absent r.worktree),fun p => if p ∈ keep then r.worktree p else none⟩

/-- The archive is extracted, then the absent paths are removed. -/
def restore (b : Backup) (worktree : Tree) : Tree := fun p =>
  if p ∈ b.deleted.filter safeRel then none
  else if p ∈ b.files then b.saved p
  else worktree p

/-! ## Discarding -/

/-- What the work tree is reset to. -/
def target (r : Repo) : Tree := r.remote.getD r.head

/-- `git reset --hard`: untracked files stay where the target has none. -/
def afterReset (r : Repo) : Tree := fun p =>
  if target r p ≠ none then target r p
  else if r.index p ≠ none then none
  else r.worktree p

def cleanExcluded (p : Path) : Bool :=
  p.ancestors.any (fun q => cleanExcludes.any (fun pattern => nameMatches pattern q))

/-- What `git clean -fd -e ...` leaves. -/
def spared (g : Git) (r : Repo) (p : Path) : Bool :=
  cleanExcluded p || ignored g r.exclude (afterReset r) p

def afterClean (g : Git) (r : Repo) : Tree := fun p =>
  if target r p = none ∧ spared g r p = false then none else afterReset r p

theorem target_cover (r : Repo) {p : Path} (h : target r p ≠ none) : p ∈ r.paths := by
  apply r.cover p
  unfold target at h
  cases hr : r.remote with
  | none =>
    rw [hr] at h
    exact Or.inr (Or.inr (Or.inl h))
  | some t =>
    rw [hr] at h
    exact Or.inr (Or.inr (Or.inr (Or.inl ⟨t,rfl,h⟩)))

theorem afterClean_cover (g : Git) (r : Repo) {p : Path} (h : afterClean g r p ≠ none) :
    p ∈ r.paths := by
  unfold afterClean afterReset at h
  split at h
  · exact absurd rfl h
  split at h
  · exact target_cover r h
  split at h
  · exact absurd rfl h
  · exact r.cover p (Or.inl h)

def discard (g : Git) (r : Repo) : Repo where
  paths := r.paths
  worktree := afterClean g r
  index := target r
  head := target r
  remote := r.remote
  mergeBase := r.remote
  exclude := r.exclude
  cover := by
    rintro p (h | h | h | ⟨t,ht,h⟩ | ⟨t,ht,h⟩)
    · exact afterClean_cover g r h
    · exact target_cover r h
    · exact target_cover r h
    · exact r.cover p (Or.inr (Or.inr (Or.inr (Or.inl ⟨t,ht,h⟩))))
    · exact r.cover p (Or.inr (Or.inr (Or.inr (Or.inl ⟨t,ht,h⟩))))

/-! ## Reverting one file -/

def put (t : Tree) (p : Path) (c : Option Content) : Tree := fun q => if q = p then c else t q

theorem base_cover (r : Repo) {p : Path} (h : r.base p ≠ none) : p ∈ r.paths := by
  apply r.cover p
  cases hr : r.remote with
  | none =>
    simp only [Repo.base, hr] at h
    exact Or.inr (Or.inr (Or.inl h))
  | some t =>
    cases hm : r.mergeBase with
    | none =>
      simp only [Repo.base, hr, hm] at h
      exact Or.inr (Or.inr (Or.inl h))
    | some t' =>
      simp only [Repo.base, hr, hm] at h
      exact Or.inr (Or.inr (Or.inr (Or.inr ⟨t',rfl,h⟩)))

theorem put_cover (r : Repo) {t : Tree} (ht : ∀ p, t p ≠ none → p ∈ r.paths) {p q : Path}
    {c : Option Content} (hc : c ≠ none → p ∈ r.paths) (h : put t p c q ≠ none) : q ∈ r.paths := by
  unfold put at h
  split at h
  · rename_i hq
    rw [hq]
    exact hc h
  · exact ht q h

/-- A path gets other contents in the work tree and in the index. -/
def writePath (r : Repo) (p : Path) (worktree index : Option Content)
    (hw : worktree ≠ none → p ∈ r.paths) (hi : index ≠ none → p ∈ r.paths) : Repo where
  paths := r.paths
  worktree := put r.worktree p worktree
  index := put r.index p index
  head := r.head
  remote := r.remote
  mergeBase := r.mergeBase
  exclude := r.exclude
  cover := by
    rintro q (h | h | h)
    · exact put_cover r (fun p h => r.cover p (Or.inl h)) hw h
    · exact put_cover r (fun p h => r.cover p (Or.inr (Or.inl h))) hi h
    · exact r.cover q (Or.inr (Or.inr h))

/-- `git checkout <base> -- <path>`. -/
def checkout (r : Repo) (p : Path) : Repo :=
  writePath r p (r.base p) (r.base p) (base_cover r) (base_cover r)

def revertOld (r : Repo) (f : DraftFile) : Repo :=
  match f.oldPath with
  | some old => if r.base old ≠ none then checkout r old else r
  | none => r

def revertPath (r : Repo) (p : Path) : Repo :=
  if r.base p ≠ none then checkout r p
  else writePath r p (if isFile r.worktree p then none else r.worktree p) none
    (fun h => r.cover p (Or.inl (by
      split at h
      · exact absurd rfl h
      · exact h)))
    (fun h => absurd rfl h)

def revertFile (r : Repo) (f : DraftFile) : Except String Repo :=
  if safeRel f.path then .ok (revertPath (revertOld r f) f.path) else .error "Chemin invalide."

theorem safeRel_eq_true (p : Path) : safeRel p = true := by
  have hall : ∀ c ∈ p.parts, c ≠ "" ∧ c ≠ "." ∧ c ≠ ".." := p.valid.2
  unfold safeRel
  rw [Bool.and_eq_true, Bool.and_eq_true, decide_eq_true_eq, decide_eq_true_eq, List.all_eq_true]
  refine ⟨⟨p.valid.1,fun h => (hall "" (List.mem_of_mem_head? h)).1 rfl⟩,fun c hc => ?_⟩
  simpa using (hall c hc).2.2

end DevForge.DraftBackups
