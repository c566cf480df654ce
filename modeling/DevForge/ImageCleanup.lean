import DevForge.NewestKept
import DevForge.SeparatedParts
import DevForge.FixedDigits
import Mathlib.Data.List.Dedup
import Mathlib.Data.Int.Order.Basic

/-!
# Removing Docker images

Of the images that no container uses and that are not deployed, a cleanup removes the old ones:
the deployments of a project beyond the most recent, and the rest by its age. An image belongs
to the project of its first DevForge tag alone.
-/

set_option autoImplicit false

namespace DevForge.ImageCleanup

structure ImageInfo where
  id : String
  /-- In nanoseconds. -/
  created : ℤ
  size : ℕ
  tags : List String
  deriving DecidableEq

structure ContainerInfo where
  id : String
  imageId : String
  state : String
  name : String

/-- What is read of a node: each image once. -/
structure Inventory where
  images : List ImageInfo
  containers : List ContainerInfo
  distinct : (images.map ImageInfo.id).Nodup

structure Candidate where
  id : String
  refs : List String
  size : ℕ
  created : ℤ
  project : Option String
  reason : String

structure Kept where
  id : String
  tags : List String
  reason : String

structure ImagePlan where
  remove : List Candidate
  kept : List Kept

/-! ## Tags -/

def isSafeName (s : String) : Bool :=
  s ≠ "" && s.length ≤ 128 && s.toList.all (fun c => c.isAlphanum || c ∈ ['-','_','.'])

def isSafeRef (s : String) : Bool :=
  s ≠ "" && s.length ≤ 256 && s.toList.all (fun c => c.isAlphanum || c ∈ ['-','_','.',':','/','@'])

/-- `trim_start_matches`, at most `n` times. -/
def trimStartMatches (pattern : List Char) : ℕ → List Char → List Char
  | 0, s => s
  | n+1, s => if pattern.isPrefixOf s then trimStartMatches pattern n (s.drop pattern.length) else s

def trimAll (pattern : String) (s : List Char) : List Char := trimStartMatches pattern.toList s.length s

/-- The part before the last colon and the part after it. -/
def rsplitColon (s : List Char) : Option (List Char × List Char) :=
  if ':' ∈ s then
    some ((s.reverse.dropWhile (· ≠ ':')).tail.reverse,(s.reverse.takeWhile (· ≠ ':')).reverse)
  else none

def splitTag (tag : String) : String × String :=
  let t := trimAll "library/" (trimAll "docker.io/" tag.toList)
  match rsplitColon t with
  | some (repo,version) => if '/' ∈ version then (String.ofList t,"latest") else (String.ofList repo,String.ofList version)
  | none => (String.ofList t,"latest")

/-- The DevForge project that a tag is of. -/
def tagProject (tag : String) : Option String :=
  let repo := (splitTag tag).1
  let rest := repo.toList.drop 3
  if "df-".toList.isPrefixOf repo.toList && rest ≠ [] && rest.all (fun c => c.isAlphanum || c = '-') then some repo
  else none

/-- The project of the first tag that has one. -/
def projectOf (image : ImageInfo) : Option String := image.tags.findSome? tagProject

def isCurrentDeploy (image : ImageInfo) : Bool :=
  image.tags.any (fun t => "df-".toList.isPrefixOf (splitTag t).1.toList && (splitTag t).2 = "latest")

/-! ## The selection -/

def newerFirst (a b : ImageInfo) : Prop := b.created ≤ a.created

instance : DecidableRel newerFirst := fun a b => inferInstanceAs (Decidable (b.created ≤ a.created))

/-- The most recent of the images. -/
def mostRecent (n : ℕ) (images : List ImageInfo) : List ImageInfo := (images.insertionSort newerFirst).take n

def byProject (images : List ImageInfo) (p : String) : List ImageInfo := images.filter (projectOf · = some p)

def rollbackKept (images : List ImageInfo) (keepN : ℕ) : List String :=
  (images.filterMap projectOf).dedup.flatMap (fun p => (mostRecent keepN (byProject images p)).map ImageInfo.id)

def refsOf (img : ImageInfo) : List String := if img.tags.isEmpty then [img.id] else img.tags

def candidate (img : ImageInfo) (reason : String) : Candidate ⊕ Kept :=
  if (refsOf img).all isSafeRef then
    .inl ⟨img.id,refsOf img,img.size,img.created,projectOf img,reason⟩
  else .inr ⟨img.id,img.tags,"référence non reconnue (ignorée)"⟩

def runs (c : ContainerInfo) : Bool := c.state = "running" || c.state = "restarting" || c.state = "paused"

def usedBy (containers : List ContainerInfo) (img : ImageInfo) : Bool := containers.any (·.imageId = img.id)

section
variable (inv : Inventory) (now : ℤ) (retentionHours keepPerProject : ℕ)

def classify (img : ImageInfo) : Candidate ⊕ Kept :=
  let keepN := max keepPerProject 1
  let cutoff := now-retentionHours*3600000000000
  let kept := fun reason => Sum.inr ⟨img.id,img.tags,reason⟩
  if usedBy (inv.containers.filter runs) img then kept "utilisée par un conteneur en cours"
  else if usedBy inv.containers img then kept "utilisée par un conteneur arrêté (jamais touché)"
  else if isCurrentDeploy img then kept "image du déploiement courant"
  else if (projectOf img).isSome then
    if img.id ∈ rollbackKept inv.images keepN then kept ("gardée pour rollback ("++toString keepN++" par projet)")
    else candidate img ("ancien déploiement (au-delà des "++toString keepN++" gardées)")
  else if img.created ≤ cutoff then
    if img.tags.isEmpty then candidate img ("image orpheline de plus de "++toString retentionHours++" h")
    else candidate img ("inutilisée, créée il y a plus de "++toString retentionHours++" h")
  else kept ("plus récente que "++toString retentionHours++" h")

def selectImages : ImagePlan where
  remove := (inv.images.filterMap (fun img => (classify inv now retentionHours keepPerProject img).getLeft?)).insertionSort
    (fun a b => b.size ≤ a.size)
  kept := inv.images.filterMap (fun img => (classify inv now retentionHours keepPerProject img).getRight?)

end

/-! ## The command -/

/-- `DOCKER_CONFIG` and the root of Docker. -/
def ROOT_DETECT : String :=
  "DC=\x22$\x7bDOCKER_CONFIG:-$HOME/.docker\x7d\x22; if ! mkdir -p \x22$DC\x22 2>/dev/null || [ ! -w \x22$DC\x22 ]; then "++
  "export DOCKER_CONFIG=/tmp/devforge-docker-gc; mkdir -p \x22$DOCKER_CONFIG\x22; fi; "++
  "R=$(docker info -f '\x7b\x7b.DockerRootDir\x7d\x7d' 2>/dev/null); [ -n \x22$R\x22 ] || R=/var/lib/docker"

def AVAIL : String := "$(df -Pk \x22$R\x22 2>/dev/null | tail -n 1 | awk '\x7bprint $4\x7d')"

def pruneText (filter b : String) : String :=
  "; echo '@@cache "++b++"'; docker buildx prune --builder '"++b++"' -f"++filter++" 2>&1 | tail -n 2"

def buildctlText (keep c : String) : String :=
  "; echo '@@cache "++c++"'; docker exec '"++c++"' buildctl prune"++keep++" 2>&1 | tail -n 2"

def rmiText (r : String) : String := "; echo '@@rmi "++r++"'; docker image rm '"++r++"' 2>&1 | tail -n 2"

def pushAll (cmd : String) (texts : List String) : String := texts.foldl (· ++ ·) cmd

def cleanupCommand (builders buildkit : List String) (cacheUntilHours : Option ℕ) (plan : ImagePlan) : String :=
  let filter := (cacheUntilHours.map (fun h => " --filter until="++toString h++"h")).getD ""
  let keep := (cacheUntilHours.map (fun h => " --keep-duration "++toString h++"h")).getD ""
  let safe := builders.filter isSafeName
  let cmd := ROOT_DETECT++"; A0="++AVAIL
  let cmd := if safe.isEmpty then cmd++"; echo '@@cache default'; docker builder prune -f"++filter++" 2>&1 | tail -n 2"
    else pushAll cmd (safe.map (pruneText filter))
  let cmd := pushAll cmd ((buildkit.filter isSafeName).map (buildctlText keep))
  let cmd := pushAll cmd (plan.remove.flatMap (fun c => (c.refs.filter isSafeRef).map rmiText))
  cmd++"; echo \x22@@avail $A0 "++AVAIL++"\x22; echo '@@end'"

/-! ## The most recent images -/

instance : Std.Total newerFirst := ⟨fun a b => Int.le_total b.created a.created⟩

instance : IsTrans ImageInfo newerFirst := ⟨fun _ _ _ h h' => Int.le_trans h' h⟩

theorem mem_of_mem_mostRecent {n : ℕ} {l : List ImageInfo} {img : ImageInfo} (h : img ∈ mostRecent n l) : img ∈ l :=
  (List.mem_insertionSort _).mp (List.mem_of_mem_take h)

theorem mem_mostRecent_filter {n m : ℕ} (hnm : n ≤ m) {l : List ImageInfo} {img : ImageInfo} (h : img ∈ mostRecent n l)
    {p : ImageInfo → Bool} (hp : p img = true) : img ∈ mostRecent m (l.filter p) := by
  have hl := mem_of_mem_mostRecent h
  have hplace := (NewestKept.mem_take_insertionSort_iff newerFirst img l hl n).mp h
  have hle := NewestKept.place_filter_le newerFirst img l hp
  exact (NewestKept.mem_take_insertionSort_iff newerFirst img _ (List.mem_filter.mpr ⟨hl,hp⟩) m).mpr (by omega)

theorem mem_rollbackKept (inv : Inventory) (n : ℕ) {img : ImageInfo} (himg : img ∈ inv.images) :
    img.id ∈ rollbackKept inv.images n ↔ ∃ p, projectOf img = some p ∧ img ∈ mostRecent n (byProject inv.images p) := by
  have hinj : ∀ img' ∈ inv.images, img'.id = img.id → img' = img :=
    fun img' himg' hid => List.inj_on_of_nodup_map inv.distinct himg' himg hid
  simp only [rollbackKept, List.mem_flatMap, List.mem_map, List.mem_dedup, List.mem_filterMap]
  constructor
  · rintro ⟨p,-,img',hrecent,hid⟩
    have hmem := List.mem_filter.mp (mem_of_mem_mostRecent hrecent)
    obtain rfl := hinj img' hmem.1 hid
    exact ⟨p,of_decide_eq_true hmem.2,hrecent⟩
  · rintro ⟨p,hp,hrecent⟩
    exact ⟨p,⟨img,himg,hp⟩,img,hrecent,rfl⟩

/-! ## What is selected -/

section
variable (inv : Inventory) (now : ℤ) (retentionHours keepPerProject : ℕ)

/-- Neither used nor deployed, and all its references can be written in a command. -/
structure Free (img : ImageInfo) : Prop where
  unused : ∀ k ∈ inv.containers, k.imageId ≠ img.id
  old : isCurrentDeploy img = false
  safe : (refsOf img).all isSafeRef = true

theorem candidate_left {img : ImageInfo} {reason : String} {c : Candidate} :
    candidate img reason = .inl c ↔ (refsOf img).all isSafeRef = true ∧
      c = ⟨img.id,refsOf img,img.size,img.created,projectOf img,reason⟩ := by
  unfold candidate
  split
  · next h => simp [h, eq_comm]
  · next h => simp [h]

theorem usedBy_false {containers : List ContainerInfo} {img : ImageInfo} :
    usedBy containers img = false ↔ ∀ k ∈ containers, k.imageId ≠ img.id := by
  simp [usedBy]

theorem classify_left {img : ImageInfo} {c : Candidate} (himg : img ∈ inv.images)
    (h : classify inv now retentionHours keepPerProject img = .inl c) :
    (c.id = img.id ∧ c.refs = refsOf img) ∧ Free inv img ∧ ∀ p, projectOf img = some p →
      img ∉ mostRecent (max keepPerProject 1) (byProject inv.images p) := by
  unfold classify at h
  dsimp only at h
  split at h
  · cases h
  split at h
  · cases h
  next hused =>
  split at h
  · cases h
  next hcurrent =>
  rw [Bool.not_eq_true] at hused hcurrent
  have hfree : ∀ {reason : String}, candidate img reason = .inl c → (c.id = img.id ∧ c.refs = refsOf img) ∧ Free inv img := by
    intro reason hc
    obtain ⟨hsafe,rfl⟩ := candidate_left.mp hc
    exact ⟨⟨rfl,rfl⟩,⟨usedBy_false.mp hused,hcurrent,hsafe⟩⟩
  split at h
  · split at h
    · cases h
    next hkept =>
      refine ⟨(hfree h).1,(hfree h).2,fun p hp hrecent => hkept ?_⟩
      exact (mem_rollbackKept inv _ himg).mpr ⟨p,hp,hrecent⟩
  · next hproject =>
    have hnone : ∀ p, projectOf img = some p → img ∉ mostRecent (max keepPerProject 1) (byProject inv.images p) :=
      fun p hp => absurd (by rw [hp]; rfl) hproject
    split at h
    · split at h
      · exact ⟨(hfree h).1,(hfree h).2,hnone⟩
      · exact ⟨(hfree h).1,(hfree h).2,hnone⟩
    · cases h

/-- A free image is a candidate as soon as it is beyond the most recent of its own project. -/
theorem classify_project {img : ImageInfo} (himg : img ∈ inv.images) (hfree : Free inv img) {p : String}
    (hp : projectOf img = some p) (hold : img ∉ mostRecent (max keepPerProject 1) (byProject inv.images p)) :
    ∃ c, classify inv now retentionHours keepPerProject img = .inl c ∧ c.id = img.id := by
  have hused := usedBy_false.mpr hfree.unused
  have hruns : usedBy (inv.containers.filter runs) img = false :=
    usedBy_false.mpr (fun k hk => hfree.unused k (List.mem_of_mem_filter hk))
  have hkept : img.id ∉ rollbackKept inv.images (max keepPerProject 1) := by
    rw [mem_rollbackKept inv _ himg]
    rintro ⟨q,hq,hrecent⟩
    obtain rfl := Option.some.inj (hp.symm.trans hq)
    exact hold hrecent
  obtain ⟨c,hc,hid⟩ : ∃ c, candidate img
      ("ancien déploiement (au-delà des "++toString (max keepPerProject 1)++" gardées)") = .inl c ∧ c.id = img.id :=
    ⟨⟨img.id,refsOf img,img.size,img.created,projectOf img,_⟩,candidate_left.mpr ⟨hfree.safe,rfl⟩,rfl⟩
  refine ⟨c,?_,hid⟩
  rw [← hc]
  unfold classify
  simp only [hused, hruns, hfree.old, hp, Option.isSome_some, if_neg hkept, if_true, Bool.false_eq_true, if_false]

theorem mem_remove {c : Candidate} : c ∈ (selectImages inv now retentionHours keepPerProject).remove ↔
    ∃ img ∈ inv.images, classify inv now retentionHours keepPerProject img = .inl c := by
  simp [selectImages, List.mem_insertionSort]

/-! ## What stays -/

/-- The image carries a tag of the project. -/
def carries (p : String) (img : ImageInfo) : Bool := img.tags.any (tagProject · = some p)

theorem carries_of_projectOf {p : String} {img : ImageInfo} (h : projectOf img = some p) : carries p img = true := by
  obtain ⟨t,ht,hp⟩ := List.exists_of_findSome?_eq_some h
  exact List.any_eq_true.mpr ⟨t,ht,decide_eq_true hp⟩

/-- Nothing that must stay is selected. -/
structure Spares : Prop where
  unused : ∀ c ∈ (selectImages inv now retentionHours keepPerProject).remove, ∀ k ∈ inv.containers, k.imageId ≠ c.id
  notCurrent : ∀ c ∈ (selectImages inv now retentionHours keepPerProject).remove, ∀ img ∈ inv.images, img.id = c.id →
    isCurrentDeploy img = false
  rollback : ∀ p, ∀ img ∈ mostRecent keepPerProject (inv.images.filter (carries p)),
    ∀ c ∈ (selectImages inv now retentionHours keepPerProject).remove, c.id ≠ img.id

/-- An image that is recent for a project, but whose own project is another one, is recent there too. -/
def RecentAtHome : Prop :=
  ∀ p q, ∀ img ∈ mostRecent keepPerProject (inv.images.filter (carries p)), projectOf img = some q → p ≠ q →
    Free inv img → img ∈ mostRecent (max keepPerProject 1) (byProject inv.images q)

theorem spares_iff : Spares inv now retentionHours keepPerProject ↔ RecentAtHome inv keepPerProject := by
  have hsame : ∀ a ∈ inv.images, ∀ b ∈ inv.images, a.id = b.id → a = b :=
    fun a ha b hb h => List.inj_on_of_nodup_map inv.distinct ha hb h
  constructor
  · intro h p q img hrecent hq _ hfree
    by_contra hold
    have himg := List.mem_of_mem_filter (mem_of_mem_mostRecent hrecent)
    obtain ⟨c,hc,hid⟩ := classify_project inv now retentionHours keepPerProject himg hfree hq hold
    exact h.rollback p img hrecent c ((mem_remove ..).mpr ⟨img,himg,hc⟩) hid
  · intro h
    refine ⟨?_,?_,?_⟩
    · intro c hc
      obtain ⟨img,himg,hclass⟩ := (mem_remove ..).mp hc
      obtain ⟨⟨hid,-⟩,hfree,-⟩ := classify_left inv now retentionHours keepPerProject himg hclass
      rw [hid]
      exact hfree.unused
    · intro c hc img himg hid
      obtain ⟨img',himg',hclass⟩ := (mem_remove ..).mp hc
      obtain ⟨⟨hid',-⟩,hfree,-⟩ := classify_left inv now retentionHours keepPerProject himg' hclass
      obtain rfl := hsame img himg img' himg' (hid.trans hid')
      exact hfree.old
    · intro p img hrecent c hc hid
      obtain ⟨img',himg',hclass⟩ := (mem_remove ..).mp hc
      obtain ⟨⟨hid',-⟩,hfree,hold⟩ := classify_left inv now retentionHours keepPerProject himg' hclass
      have himg := List.mem_filter.mp (mem_of_mem_mostRecent hrecent)
      obtain rfl := hsame img himg.1 img' himg' (hid.symm.trans hid')
      cases hq : projectOf img with
      | none =>
        obtain ⟨t,ht,hp⟩ := List.any_eq_true.mp himg.2
        have := List.findSome?_eq_none_iff.mp hq t ht
        rw [of_decide_eq_true hp] at this
        cases this
      | some q =>
        apply hold q hq
        by_cases hpq : p = q
        · -- the images of its own project are among those that carry a tag of the project
          subst hpq
          have hsub : (inv.images.filter (carries p)).filter (projectOf · = some p) = byProject inv.images p := by
            rw [List.filter_filter, byProject]
            apply List.filter_congr
            intro x _
            by_cases hx : projectOf x = some p
            · simp [hx, carries_of_projectOf hx]
            · simp [hx]
          rw [← hsub]
          exact mem_mostRecent_filter (Nat.le_max_left _ _) hrecent (decide_eq_true hq)
        · exact h p q img hrecent hq hpq hfree

end

/-! ## What the command removes -/

def afterPrefix : List Char → List Char → Option (List Char)
  | [], s => some s
  | _::_, [] => none
  | p::ps, c::cs => if p = c then afterPrefix ps cs else none

def removedRef (command : List Char) : Option String :=
  (afterPrefix " docker image rm '".toList command).map (fun rest => String.ofList (rest.takeWhile (· ≠ Char.ofNat 39)))

/-- The references of the commands `docker image rm` in a text. -/
def removedBy (text : String) : List String := (text.toList.splitOn ';').filterMap removedRef

theorem pushAll_toList (cmd : String) (texts : List String) :
    (pushAll cmd texts).toList = cmd.toList++texts.flatMap String.toList := by
  induction texts generalizing cmd with
  | nil => simp [pushAll]
  | cons t texts ih =>
    have hcons : pushAll cmd (t::texts) = pushAll (cmd++t) texts := rfl
    rw [hcons, ih, String.toList_append, List.flatMap_cons, List.append_assoc]

/-- A text of further commands, that remove these references. -/
def Removes (text : List Char) (refs : List String) : Prop :=
  ∃ commands : List (List Char), text = commands.flatMap (';'::·) ∧ (∀ c ∈ commands, ';' ∉ c) ∧
    commands.filterMap removedRef = refs

theorem Removes.append {t t' : List Char} {rs rs' : List String} (h : Removes t rs) (h' : Removes t' rs') :
    Removes (t++t') (rs++rs') := by
  obtain ⟨cs,rfl,hcs,rfl⟩ := h
  obtain ⟨cs',rfl,hcs',rfl⟩ := h'
  refine ⟨cs++cs',by rw [List.flatMap_append],fun c hc => ?_,by rw [List.filterMap_append]⟩
  rcases List.mem_append.mp hc with hc | hc
  · exact hcs c hc
  · exact hcs' c hc

theorem removes_nil : Removes [] [] := ⟨[],rfl,by simp,rfl⟩

theorem removes_flatMap {α : Type} (l : List α) (f : α → List Char) (g : α → List String)
    (h : ∀ x ∈ l, Removes (f x) (g x)) : Removes (l.flatMap f) (l.flatMap g) := by
  induction l with
  | nil => exact removes_nil
  | cons x l ih =>
    rw [List.flatMap_cons, List.flatMap_cons]
    exact (h x List.mem_cons_self).append (ih (fun y hy => h y (List.mem_cons_of_mem x hy)))

/-- A command of the script that removes no image. -/
def Harmless (command : List Char) : Prop := ';' ∉ command ∧ removedRef command = none

instance (command : List Char) : Decidable (Harmless command) := inferInstanceAs (Decidable (_ ∧ _))

theorem removes_harmless {commands : List (List Char)} (h : ∀ c ∈ commands, Harmless c) :
    Removes (commands.flatMap (';'::·)) [] := by
  refine ⟨commands,rfl,fun c hc => (h c hc).1,?_⟩
  exact List.filterMap_eq_nil_iff.mpr (fun c hc => (h c hc).2)

theorem removedRef_rm {r : List Char} (h : Char.ofNat 39 ∉ r) (rest : List Char) :
    removedRef (" docker image rm '".toList++r++Char.ofNat 39::rest) = some (String.ofList r) := by
  have hafter : ∀ p s : List Char, afterPrefix p (p++s) = some s := by
    intro p s
    induction p with
    | nil => rfl
    | cons c p ih => simp [afterPrefix, ih]
  rw [removedRef, List.append_assoc, hafter, Option.map_some, SeparatedParts.takeWhile_ne_append _ h]

theorem no_mark_of_safe {s : String} (h : isSafeName s = true ∨ isSafeRef s = true) :
    ';' ∉ s.toList ∧ Char.ofNat 39 ∉ s.toList := by
  have hall : ∀ c ∈ s.toList, c ≠ ';' ∧ c ≠ Char.ofNat 39 := by
    intro c hc
    constructor
    all_goals
      rintro rfl
      rcases h with h | h
      all_goals
        simp only [isSafeName, isSafeRef, Bool.and_eq_true, List.all_eq_true] at h
        exact absurd (h.2 _ hc) (by decide)
  exact ⟨fun h => (hall _ h).1 rfl,fun h => (hall _ h).2 rfl⟩

theorem no_mark_hours (flag : String) (hours : Option ℕ) (hflag : ';' ∉ flag.toList) :
    ';' ∉ ((hours.map (fun h => flag++toString h++"h")).getD "").toList := by
  cases hours with
  | none => simp
  | some h =>
    have hdigits : ';' ∉ (toString h).toList :=
      fun hc => absurd (FixedDigits.isDigit_of_mem_toString h _ hc) (by decide)
    have hlast : ';' ∉ "h".toList := by decide
    rw [Option.map_some, Option.getD_some, String.toList_append, String.toList_append, List.mem_append, List.mem_append]
    exact fun hc => hc.elim (fun hc => hc.elim hflag hdigits) hlast

theorem removes_prune {filter b : String} (hf : ';' ∉ filter.toList) (hb : isSafeName b = true) :
    Removes (pruneText filter b).toList [] := by
  have hmark := (no_mark_of_safe (.inl hb)).1
  have heq : (pruneText filter b).toList = [" echo '@@cache ".toList++b.toList++"'".toList,
      " docker buildx prune --builder '".toList++b.toList++"' -f".toList++filter.toList++" 2>&1 | tail -n 2".toList].flatMap
        (';'::·) := by
    have hopen : "; echo '@@cache ".toList = ';'::" echo '@@cache ".toList := by
      repeat rw [String.toList_ofList]
    have hjoin : "'; docker buildx prune --builder '".toList = "'".toList++ ';'::" docker buildx prune --builder '".toList := by
      repeat rw [String.toList_ofList]
      rfl
    unfold pruneText
    simp only [String.toList_append]
    rw [hopen, hjoin, List.flatMap_cons, List.flatMap_cons, List.flatMap_nil]
    simp only [List.append_assoc, List.cons_append, List.append_nil]
  rw [heq]
  apply removes_harmless
  simp only [List.forall_mem_cons]
  constructor
  · exact ⟨by simp [hmark],by simp [removedRef, afterPrefix]⟩
  · exact ⟨⟨by simp [hmark, hf],by simp [removedRef, afterPrefix]⟩,by simp⟩

theorem removes_buildctl {keep c : String} (hk : ';' ∉ keep.toList) (hc : isSafeName c = true) :
    Removes (buildctlText keep c).toList [] := by
  have hmark := (no_mark_of_safe (.inl hc)).1
  have heq : (buildctlText keep c).toList = [" echo '@@cache ".toList++c.toList++"'".toList,
      " docker exec '".toList++c.toList++"' buildctl prune".toList++keep.toList++" 2>&1 | tail -n 2".toList].flatMap
        (';'::·) := by
    have hopen : "; echo '@@cache ".toList = ';'::" echo '@@cache ".toList := by
      repeat rw [String.toList_ofList]
    have hjoin : "'; docker exec '".toList = "'".toList++ ';'::" docker exec '".toList := by
      repeat rw [String.toList_ofList]
      rfl
    unfold buildctlText
    simp only [String.toList_append]
    rw [hopen, hjoin, List.flatMap_cons, List.flatMap_cons, List.flatMap_nil]
    simp only [List.append_assoc, List.cons_append, List.append_nil]
  rw [heq]
  apply removes_harmless
  simp only [List.forall_mem_cons]
  constructor
  · exact ⟨by simp [hmark],by simp [removedRef, afterPrefix]⟩
  · exact ⟨⟨by simp [hmark, hk],by simp [removedRef, afterPrefix]⟩,by simp⟩

theorem removes_rmi {r : String} (hr : isSafeRef r = true) : Removes (rmiText r).toList [r] := by
  obtain ⟨hmark,hquote⟩ := no_mark_of_safe (.inr hr)
  have hrm := removedRef_rm hquote " 2>&1 | tail -n 2".toList
  rw [String.ofList_toList] at hrm
  refine ⟨[" echo '@@rmi ".toList++r.toList++"'".toList,
    " docker image rm '".toList++r.toList++Char.ofNat 39::" 2>&1 | tail -n 2".toList],?_,?_,?_⟩
  · have hopen : "; echo '@@rmi ".toList = ';'::" echo '@@rmi ".toList := by
      repeat rw [String.toList_ofList]
    have hjoin : "'; docker image rm '".toList = "'".toList++ ';'::" docker image rm '".toList := by
      repeat rw [String.toList_ofList]
      rfl
    have hend : "' 2>&1 | tail -n 2".toList = Char.ofNat 39::" 2>&1 | tail -n 2".toList := by
      repeat rw [String.toList_ofList]
    unfold rmiText
    simp only [String.toList_append]
    rw [hopen, hjoin, hend, List.flatMap_cons, List.flatMap_cons, List.flatMap_nil]
    simp only [List.append_assoc, List.cons_append, List.append_nil]
  · simp [hmark]
  · rw [List.filterMap_cons_none (by simp [removedRef, afterPrefix]), List.filterMap_cons_some hrm]
    rfl

set_option maxRecDepth 4000 in
theorem rootDetect_toList : (ROOT_DETECT++"; A0="++AVAIL).toList =
    "DC=\x22$\x7bDOCKER_CONFIG:-$HOME/.docker\x7d\x22".toList++
      [" if ! mkdir -p \x22$DC\x22 2>/dev/null || [ ! -w \x22$DC\x22 ]".toList,
        " then export DOCKER_CONFIG=/tmp/devforge-docker-gc".toList," mkdir -p \x22$DOCKER_CONFIG\x22".toList," fi".toList,
        " R=$(docker info -f '\x7b\x7b.DockerRootDir\x7d\x7d' 2>/dev/null)".toList,
        " [ -n \x22$R\x22 ] || R=/var/lib/docker".toList,(" A0="++AVAIL).toList].flatMap (';'::·) := by
  delta ROOT_DETECT AVAIL
  simp only [String.toList_append]
  repeat rw [String.toList_ofList]
  simp only [List.flatMap_cons, List.flatMap_nil, List.cons_append, List.nil_append]

theorem removes_default {filter : String} (hf : ';' ∉ filter.toList) :
    Removes ("; echo '@@cache default'; docker builder prune -f"++filter++" 2>&1 | tail -n 2").toList [] := by
  have hsplit : "; echo '@@cache default'; docker builder prune -f".toList =
      ';'::(" echo '@@cache default'".toList++ ';'::" docker builder prune -f".toList) := by
    repeat rw [String.toList_ofList]
    rfl
  have heq : ("; echo '@@cache default'; docker builder prune -f"++filter++" 2>&1 | tail -n 2").toList =
      [" echo '@@cache default'".toList," docker builder prune -f".toList++filter.toList++" 2>&1 | tail -n 2".toList].flatMap
        (';'::·) := by
    simp only [String.toList_append]
    rw [hsplit, List.flatMap_cons, List.flatMap_cons, List.flatMap_nil]
    simp only [List.append_assoc, List.cons_append, List.append_nil]
  rw [heq]
  apply removes_harmless
  simp only [List.forall_mem_cons]
  constructor
  · exact ⟨by decide,by simp [removedRef, afterPrefix]⟩
  · exact ⟨⟨by simp [hf],by simp [removedRef, afterPrefix]⟩,by simp⟩

theorem removedBy_of {text : String} {first rest : List Char} {refs : List String} (ht : text.toList = first++rest)
    (hfirst : Harmless first) (hrest : Removes rest refs) : removedBy text = refs := by
  obtain ⟨commands,rfl,hcommands,hrefs⟩ := hrest
  rw [removedBy, ht, SeparatedParts.splitOn_parts ';' hfirst.1 hcommands, List.filterMap_cons_none hfirst.2, hrefs]

theorem removes_root : Removes
    ([" if ! mkdir -p \x22$DC\x22 2>/dev/null || [ ! -w \x22$DC\x22 ]".toList,
      " then export DOCKER_CONFIG=/tmp/devforge-docker-gc".toList," mkdir -p \x22$DOCKER_CONFIG\x22".toList," fi".toList,
      " R=$(docker info -f '\x7b\x7b.DockerRootDir\x7d\x7d' 2>/dev/null)".toList,
      " [ -n \x22$R\x22 ] || R=/var/lib/docker".toList,(" A0="++AVAIL).toList].flatMap (';'::·)) [] := by
  apply removes_harmless
  delta AVAIL
  rw [String.toList_append]
  repeat rw [String.toList_ofList]
  decide

theorem removes_last : Removes ("; echo \x22@@avail $A0 "++AVAIL++"\x22; echo '@@end'").toList [] := by
  have heq : ("; echo \x22@@avail $A0 "++AVAIL++"\x22; echo '@@end'").toList =
      [" echo \x22@@avail $A0 ".toList++AVAIL.toList++"\x22".toList," echo '@@end'".toList].flatMap (';'::·) := by
    delta AVAIL
    simp only [String.toList_append]
    repeat rw [String.toList_ofList]
    rfl
  rw [heq]
  apply removes_harmless
  delta AVAIL
  repeat rw [String.toList_ofList]
  decide

theorem removes_cache (builders : List String) {filter : String} (hf : ';' ∉ filter.toList) (cmd : String) :
    ∃ t, ((if (builders.filter isSafeName).isEmpty then
        cmd++"; echo '@@cache default'; docker builder prune -f"++filter++" 2>&1 | tail -n 2"
      else pushAll cmd ((builders.filter isSafeName).map (pruneText filter))).toList = cmd.toList++t) ∧ Removes t [] := by
  split
  · refine ⟨_,?_,removes_default hf⟩
    simp only [String.toList_append, List.append_assoc]
  · refine ⟨_,pushAll_toList ..,?_⟩
    rw [List.flatMap_map]
    have h := removes_flatMap (builders.filter isSafeName) (fun b => (pruneText filter b).toList) (fun _ => [])
      (fun b hb => removes_prune hf (List.mem_filter.mp hb).2)
    rwa [List.flatMap_eq_nil_iff.mpr (fun _ _ => rfl)] at h

/-- The command removes the references of the candidates, in their order. -/
theorem removedBy_cleanupCommand (builders buildkit : List String) (hours : Option ℕ) (plan : ImagePlan) :
    removedBy (cleanupCommand builders buildkit hours plan) = plan.remove.flatMap (fun c => c.refs.filter isSafeRef) := by
  have hf := no_mark_hours " --filter until=" hours (by decide)
  have hk := no_mark_hours " --keep-duration " hours (by decide)
  obtain ⟨cache,hcache,hnone⟩ := removes_cache builders hf (ROOT_DETECT++"; A0="++AVAIL)
  have hbuildctl := removes_flatMap (buildkit.filter isSafeName)
    (fun c => (buildctlText ((hours.map (fun h => " --keep-duration "++toString h++"h")).getD "") c).toList) (fun _ => [])
    (fun c hc => removes_buildctl hk (List.mem_filter.mp hc).2)
  have hrmi := removes_flatMap (plan.remove.flatMap (fun c => c.refs.filter isSafeRef))
    (fun r => (rmiText r).toList) (fun r => [r]) (fun r hr => by
      obtain ⟨c,-,hr⟩ := List.mem_flatMap.mp hr
      exact removes_rmi (List.mem_filter.mp hr).2)
  have hall := removes_root.append (hnone.append (hbuildctl.append (hrmi.append removes_last)))
  rw [List.flatMap_eq_nil_iff.mpr (fun _ _ => rfl), List.flatMap_singleton', List.append_nil, List.nil_append,
    List.nil_append, List.nil_append] at hall
  have hfirst : Harmless "DC=\x22$\x7bDOCKER_CONFIG:-$HOME/.docker\x7d\x22".toList := by
    rw [String.toList_ofList]
    decide
  refine removedBy_of ?_ hfirst hall
  unfold cleanupCommand
  dsimp only
  rw [String.append_assoc, String.append_assoc, String.toList_append, pushAll_toList, pushAll_toList, hcache, rootDetect_toList]
  simp only [List.flatMap_map, List.flatMap_assoc, List.append_assoc, String.append_assoc]

/-! ## Cleaning up -/

section
variable (inv : Inventory) (now : ℤ) (retentionHours keepPerProject : ℕ)

/-- What must stay is not selected, and the command removes the selected images alone. -/
def KeepsWhatMustStay : Prop :=
  Spares inv now retentionHours keepPerProject ∧ ∀ (builders buildkit : List String) (hours : Option ℕ),
    ∀ r ∈ removedBy (cleanupCommand builders buildkit hours (selectImages inv now retentionHours keepPerProject)),
      ∃ c ∈ (selectImages inv now retentionHours keepPerProject).remove, r ∈ c.refs

theorem keepsWhatMustStay_iff :
    KeepsWhatMustStay inv now retentionHours keepPerProject ↔ RecentAtHome inv keepPerProject := by
  rw [KeepsWhatMustStay, spares_iff]
  apply and_iff_left
  intro builders buildkit hours r hr
  rw [removedBy_cleanupCommand] at hr
  obtain ⟨c,hc,hr⟩ := List.mem_flatMap.mp hr
  exact ⟨c,hc,List.mem_of_mem_filter hr⟩

end

/-- One image for two projects, deployed again for the first of them. -/
def sharedBuild : Inventory where
  images := [⟨"shared",1,0,["df-a:r1","df-b:r1"]⟩,⟨"newer",2,0,["df-a:r2"]⟩]
  containers := []
  distinct := by decide

theorem shared_build_removed : ¬∀ (inv : Inventory) (now : ℤ) (retentionHours keepPerProject : ℕ),
    KeepsWhatMustStay inv now retentionHours keepPerProject := by
  intro h
  have hrecent : (mostRecent 1 (sharedBuild.images.filter (carries "df-b"))).map ImageInfo.id = ["shared"] := by
    decide +kernel
  have hremoved : (selectImages sharedBuild 3 24 1).remove.map Candidate.id = ["shared"] := by decide +kernel
  obtain ⟨img,himg,hid⟩ := List.mem_map.mp (hrecent ▸ List.mem_singleton.mpr rfl)
  obtain ⟨c,hc,hcid⟩ := List.mem_map.mp (hremoved ▸ List.mem_singleton.mpr rfl)
  exact (h sharedBuild 3 24 1).1.rollback "df-b" img himg c hc (hcid.trans hid.symm)

end DevForge.ImageCleanup
