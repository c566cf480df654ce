import Mathlib.Data.Char
import Mathlib.Data.List.Lex
import Mathlib.Data.List.Sort

/-!
# The files of a draft

What the work tree of an application has that GitHub has not: the paths that
`git diff` reports against the base, and the untracked ones that git does not
ignore, without internal files, build output and secrets.
-/

set_option autoImplicit false

namespace DevForge.DraftFiles

/-- A path of a work tree, by its components. -/
structure Path where
  parts : List String
  valid : parts ≠ [] ∧ ∀ c ∈ parts, c ≠ "" ∧ c ≠ "." ∧ c ≠ ".."
deriving DecidableEq

def Path.name (p : Path) : String := p.parts.getLast p.valid.1

def Path.text (p : Path) : List Char := ("/".intercalate p.parts).toList

/-- What stands at a path; a link to a directory or to nothing is no file. -/
structure Content where
  isFile : Bool
  data : String
deriving DecidableEq

abbrev Tree := Path → Option Content

inductive FileStatus | added | modified | deleted | renamed
deriving DecidableEq

structure DraftFile where
  path : Path
  status : FileStatus
  oldPath : Option Path
deriving DecidableEq

def startsWith (s start : String) : Bool := start.toList.isPrefixOf s.toList

def endsWith (s ending : String) : Bool := ending.toList.isSuffixOf s.toList

/-! ## Junk -/

def junkDirs : List String :=
  ["node_modules","dist","build",".astro",".next",".nuxt",".output",".svelte-kit",".vercel",
    ".turbo",".cache",".parcel-cache","coverage",".nyc_output","target","__pycache__",
    ".pytest_cache"]

def isInternal (c : String) : Bool :=
  c = ".devforge" || startsWith c ".devforge-" || startsWith c ".devforge_" || startsWith c ".devforge."

def isJunk (p : Path) : Bool :=
  p.parts.any isInternal || p.parts.dropLast.any (· ∈ junkDirs) ||
    (p.name = ".DS_Store" || endsWith p.name ".log" || endsWith p.name ".pyc") ||
    (p.name = ".env" ||
      (startsWith p.name ".env." && p.name ≠ ".env.example" && p.name ≠ ".env.sample"))

/-! ## What git ignores -/

/-- Lines added to `.git/info/exclude`. -/
def localExcludes : List String :=
  [".devforge",".devforge-*",".devforge.*",".devforge_*",".env",".env.*","!.env.example","*.log",
    ".DS_Store"]

def cleanExcludes : List String :=
  [".devforge",".devforge-*",".devforge.*",".devforge_*",".env",".env.*"]++junkDirs

def glob : List Char → List Char → Bool
  | [], cs => cs.isEmpty
  | '*'::ps, cs => cs.tails.any (glob ps)
  | p::ps, c::cs => p = c && glob ps cs
  | _::_, [] => false

/-- A pattern without a slash is matched with the last component. -/
def nameMatches (pattern : String) (p : Path) : Bool := glob pattern.toList p.name.toList

/-- The path and the directories it lies in. -/
def Path.ancestors (p : Path) : List Path :=
  (List.range p.parts.length).map (fun n => ⟨p.parts.take (n+1),by
    refine ⟨?_,fun c hc => p.valid.2 c (List.mem_of_mem_take hc)⟩
    simpa using p.valid.1⟩)

/-- What git does that no pattern of the program decides: the rules of the `.gitignore`
files of a work tree and of the user, and which paths it takes for renamed. -/
structure Git where
  gitignore : Tree → Path → Option Bool
  line : String → Path → Bool
  global : Path → Bool
  /-- Old and new names, for a base and the tracked files of a work tree. -/
  renames : Tree → Tree → List (Path × Path)
  renamed : ∀ base tracked, ∀ x ∈ renames base tracked,
    base x.1 ≠ none ∧ tracked x.1 = none ∧ base x.2 = none ∧ tracked x.2 ≠ none
  renamedOnce : ∀ base tracked, ((renames base tracked).map Prod.snd).Nodup

def ensureLocalExcludes (lines : List String) : List String :=
  lines++localExcludes.filter (fun p => p ∉ lines)

/-- The last line that matches a path decides; `!` takes the path back. -/
def lineVerdict (g : Git) (lines : List String) (p : Path) : Option Bool :=
  lines.reverse.findSome? (fun l =>
    let negated := startsWith l "!"
    let pattern := if negated then String.ofList (l.toList.drop 1) else l
    let hit := if l ∈ localExcludes then nameMatches pattern p else g.line l p
    if hit then some (!negated) else none)

/-- `.gitignore` files come before `.git/info/exclude`, and this before the user's file;
what lies in an ignored directory is ignored. -/
def ignored (g : Git) (lines : List String) (worktree : Tree) (p : Path) : Bool :=
  p.ancestors.any (fun q =>
    ((g.gitignore worktree q).or (lineVerdict g (ensureLocalExcludes lines) q)).getD (g.global q))

/-! ## The repository -/

/-- `paths` holds every path that one of the maps knows; `mergeBase` is what
`git merge-base HEAD origin/<branch>` gives. -/
structure Repo where
  paths : List Path
  worktree : Tree
  index : Tree
  head : Tree
  remote : Option Tree
  mergeBase : Option Tree
  exclude : List String
  cover : ∀ p, worktree p ≠ none ∨ index p ≠ none ∨ head p ≠ none ∨ (∃ t ∈ remote, t p ≠ none) ∨
    (∃ t ∈ mergeBase, t p ≠ none) → p ∈ paths

def Repo.base (r : Repo) : Tree :=
  match r.remote, r.mergeBase with
  | some _, some t => t
  | _, _ => r.head

/-- What `git diff <base>` compares the base with. -/
def Repo.tracked (r : Repo) : Tree := fun p => if r.index p = none then none else r.worktree p

def Repo.isChanged (r : Repo) (p : Path) : Bool := r.base p ≠ r.tracked p

def Repo.isUntracked (r : Repo) (p : Path) : Bool := r.worktree p ≠ none && r.index p = none

def Repo.isIgnored (g : Git) (r : Repo) (p : Path) : Bool := ignored g r.exclude r.worktree p

def letter (r : Repo) (p : Path) : FileStatus :=
  if r.base p = none then .added else if r.tracked p = none then .deleted else .modified

/-- `git diff --name-status -M <base>`. -/
def diffFiles (g : Git) (r : Repo) : List DraftFile :=
  let renames := g.renames r.base r.tracked
  (r.paths.filter r.isChanged).filterMap (fun p =>
    match renames.find? (fun x => x.2 = p) with
    | some x => some ⟨p,.renamed,some x.1⟩
    | none => if renames.any (fun x => x.1 = p) then none else some ⟨p,letter r p,none⟩)

def rawFiles (g : Git) (r : Repo) : List DraftFile :=
  let files := diffFiles g r
  let untracked := r.paths.filter (fun p => r.isUntracked p && !r.isIgnored g p)
  (files++(untracked.filter (fun p => !files.any (fun f => f.path = p))).map
    (fun p => DraftFile.mk p .added none)).insertionSort (fun a b => a.path.text ≤ b.path.text)

/-- The files of the draft, and how many junk files there are. -/
def status (g : Git) (r : Repo) : List DraftFile × ℕ :=
  let (junk,files) := (rawFiles g r).partition (fun f => isJunk f.path)
  (files,junk.length)

end DevForge.DraftFiles
