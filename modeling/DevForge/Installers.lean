import DevForge.ChatStream
import DevForge.FixedDigits
import Mathlib.Data.List.MinMax
import Mathlib.Data.Prod.Lex

/-!
# The choice of an installer

An update takes the installer of the requested release, or of the highest release below it that
publishes one and is newer than the current version. The releases are read in one pass, with what
the pages of the releases say of their assets.
-/

set_option autoImplicit false

namespace DevForge.Installers
open ToolArguments ChatStream
open WakeGate (Json)
open WakeGate.Json (asStr asBool)

/-! ## Versions -/

/-- Major, minor and patch. -/
abbrev Version := ℕ ×ₗ ℕ ×ₗ ℕ

def version (major minor patch : ℕ) : Version := toLex (major,toLex (minor,patch))

/-- `str::parse::<u64>`. -/
def parseU64 (cs : List Char) : Option ℕ :=
  let unsigned := match cs with
    | '+'::rest => rest
    | cs => cs
  (digits unsigned).filter (· < 2^64)

/-- `trim().trim_start_matches('v')`. -/
def trimV (s : String) : List Char := (trim s).toList.dropWhile (· = 'v')

def releaseSemver (tag : String) : Option Version :=
  match (trimV tag).splitOn '.' with
  | [major,minor,patch] => do
    let major ← parseU64 major
    let minor ← parseU64 minor
    if patch.all isDigit then
      let patch ← parseU64 patch
      return version major minor patch
    else none
  | _ => none

def parseVer (s : String) : Version :=
  let parts := (trimV s).splitOnP (fun c => c = '.' || c = '-')
  let part := fun i => (parts[i]?.bind parseU64).getD 0
  version (part 0) (part 1) (part 2)

def versionGt (a b : String) : Bool := parseVer b < parseVer a

/-- The text `major.minor.patch`. -/
def verStr (v : Version) : String :=
  toString (ofLex v).1++"."++toString (ofLex (ofLex v).2).1++"."++toString (ofLex (ofLex v).2).2

/-! ## Assets -/

structure ReleaseAsset where
  name : String
  url : String
  size : ℕ
  deriving DecidableEq, Repr

structure InstallerChoice where
  asset : ReleaseAsset
  version : String
  deriving DecidableEq, Repr

def contains (lower : String) (part : String) : Bool := part.toList <:+: lower.toList

def endsWith (lower : String) (last : String) : Bool := last.toList <:+ lower.toList

def archMatches (lower arch : String) : Bool :=
  if arch = "x86_64" then contains lower "x86_64" || contains lower "amd64" || contains lower "x64"
  else if arch = "aarch64" then contains lower "aarch64" || contains lower "arm64"
  else contains lower arch

/-- The lower case of a text, and the platform. -/
structure Platform where
  toLowercase : String → String
  triple : String
  os : String
  arch : String

section
variable (P : Platform)

def installerAssetScore (lower : String) : ℕ :=
  if endsWith lower ".sha256" || endsWith lower ".asc" || endsWith lower ".sig" || endsWith lower ".yml" ||
      endsWith lower ".yaml" then 0
  else
    let archOk := archMatches lower P.arch
    let tripleOk := contains lower (P.toLowercase P.triple)
    let score :=
      if P.os = "windows" then
        let setup := endsWith lower ".exe" && (contains lower "setup" || contains lower "installer")
        let msi := endsWith lower ".msi"
        if (setup || msi) && (archOk || tripleOk) then (if setup then 300 else 280)
        else if endsWith lower ".zip" && (tripleOk || (contains lower "windows" && archOk)) then 100 else 0
      else if P.os = "linux" then
        if endsWith lower ".flatpak" && (archOk || tripleOk) then 300
        else if endsWith lower ".zip" && (tripleOk || (contains lower "linux" && archOk)) then 100 else 0
      else if endsWith lower ".zip" && tripleOk then 100 else 0
    if 0 < score && contains lower "devforge" then score+20 else score

/-- One asset: the function ends with nothing at an asset without a name or an address. -/
def pickStep (best : Option (ℕ × ReleaseAsset)) (a : Json) : Option (Option (ℕ × ReleaseAsset)) := do
  let name ← (a.get "name").bind asStr
  let url := (asStr (← a.get "browser_download_url")).getD ""
  if url = "" then return best
  let size := ((a.get "size").bind asU64).getD 0
  let score := installerAssetScore P (P.toLowercase name)
  if score = 0 then return best
  return if best.all (fun b => b.1 < score) then some (score,⟨name,url,size⟩) else best

def pickAssetFor (assets : List Json) : Option ReleaseAsset :=
  (assets.foldlM (pickStep P) none).join.map Prod.snd

/-! ## Releases -/

def elements (v : Option Json) : List Json :=
  match v with
  | some (.arr vs) => vs
  | _ => []

def isDraft (rel : Json) : Bool := ((rel.get "draft").bind asBool).getD false

def isPrerelease (rel : Json) : Bool := ((rel.get "prerelease").bind asBool).getD false

def tagName (rel : Json) : String := ((rel.get "tag_name").bind asStr).getD ""

def assetsOf (rel : Json) : List Json := elements (rel.get "assets")

def releaseAssetNames (rel : Json) : List String := (assetsOf rel).filterMap (fun a => (a.get "name").bind asStr)

/-- What is kept of the releases read so far. -/
structure Scan where
  exactFound : Bool
  exactAssets : List String
  best : Option (Version × InstallerChoice)
  latestInstaller : Option (Version × String × String)

def Scan.start : Scan := ⟨false,[],none,none⟩

def Scan.noteLatest (s : Scan) (ver : Version) (name : String) : Scan :=
  if s.latestInstaller.all (fun l => l.1 < ver) then { s with latestInstaller := some (ver,verStr ver,name) } else s

def Scan.keepBest (s : Scan) (ver : Version) (choice : InstallerChoice) : Scan :=
  if s.best.all (fun b => b.1 < ver) then { s with best := some (ver,choice) } else s

/-- The `requested` text has no leading `v`. -/
structure Request where
  requested : String
  current : String
  allowPrerelease : Bool

variable (q : Request)

/-- One release: the choice is made, or the pass goes on. -/
def visit (s : Scan) (rel : Json) : Except InstallerChoice Scan :=
  if isDraft rel then .ok s
  else if isPrerelease rel && !q.allowPrerelease then .ok s
  else match releaseSemver (tagName rel) with
    | none => .ok s
    | some ver =>
      let picked := pickAssetFor P (assetsOf rel)
      let exact := verStr ver = q.requested
      let s := if exact then { s with exactFound := true, exactAssets := releaseAssetNames rel } else s
      match picked with
      | none => .ok s
      | some asset =>
        if exact then .error ⟨asset,verStr ver⟩
        else
          let s := s.noteLatest ver asset.name
          let withinTarget := (releaseSemver q.requested).any (fun want => ver ≤ want)
          if withinTarget && versionGt (verStr ver) q.current then .ok (s.keepBest ver ⟨asset,verStr ver⟩) else .ok s

def installerLookupError (s : Scan) : String :=
  let expected := "Attendu : DevForge-Setup-"++q.requested++"-x64.exe (Windows) ou DevForge-"++q.requested++
    "-x86_64.flatpak (Linux)."
  let latestNote := match s.latestInstaller with
    | some (_,ver,name) => " Dernier installeur publié : "++name++" (v"++ver++")."
    | none => ""
  let currentNote := if s.latestInstaller.any (fun l => !versionGt l.2.1 q.current) then
      " Cette instance ("++q.current++") n’a pas de paquet plus récent à installer."
    else ""
  if !s.exactFound then "Release GitHub v"++q.requested++" introuvable (404). "++expected++latestNote
  else if s.exactAssets.isEmpty then
    "Release GitHub v"++q.requested++" : aucun installeur publié. "++expected++latestNote++currentNote
  else
    "Release GitHub v"++q.requested++" : aucun installeur compatible ("++P.triple++"). Fichiers : "++
      ", ".intercalate s.exactAssets++". "++expected++latestNote++currentNote

def choose (releases : List Json) : Except String InstallerChoice :=
  match releases.foldlM (visit P q) Scan.start with
  | .error choice => .ok choice
  | .ok s => match s.best with
    | some (_,choice) => .ok choice
    | none => .error (installerLookupError P q s)

def selectInstaller (releases : List Json) (requested current : String) (allowPrerelease : Bool) :
    Except String InstallerChoice :=
  choose P ⟨String.ofList (trimV requested),current,allowPrerelease⟩ releases

end

/-! ## The text of a version -/

theorem digit_plain {c : Char} (h : c.isDigit = true ∨ c = '.') : isWhitespace c = false ∧ c ≠ 'v' ∧ c ≠ '+' := by
  have hrange : c = '.' ∨ (48 ≤ c.toNat ∧ c.toNat ≤ 57) := by
    rcases h with h | h
    · exact .inr (Char.isDigit_iff_toNat.mp h)
    · exact .inl h
  rcases hrange with rfl | hrange
  · decide
  · refine ⟨?_,?_,?_⟩
    · rw [Bool.eq_false_iff]
      intro hw
      simp only [isWhitespace, Bool.or_eq_true, Bool.and_eq_true, decide_eq_true_eq, List.mem_cons, List.not_mem_nil,
        or_false] at hw
      omega
    · rintro rfl
      exact absurd hrange (by decide)
    · rintro rfl
      exact absurd hrange (by decide)

theorem parseU64_toString {n : ℕ} (h : n < 2^64) : parseU64 (toString n).toList = some n := by
  have hplus : ∀ rest, (toString n).toList ≠ '+'::rest := by
    intro rest heq
    have hdigit := FixedDigits.isDigit_of_mem_toString n '+' (heq ▸ List.mem_cons_self)
    exact absurd hdigit (by decide)
  unfold parseU64
  split
  · next rest heq => exact absurd heq (hplus rest)
  · dsimp only
    rw [digits_toString, Option.filter_some, if_pos (by simpa using h)]

/-- The three numbers of a version that fit the type of the program. -/
def Bounded (v : Version) : Prop :=
  (ofLex v).1 < 2^64 ∧ (ofLex (ofLex v).2).1 < 2^64 ∧ (ofLex (ofLex v).2).2 < 2^64

theorem parseU64_lt {cs : List Char} {n : ℕ} (h : parseU64 cs = some n) : n < 2^64 := by
  have := Option.filter_eq_some_iff.mp h
  simpa using this.2

theorem releaseSemver_bounded {tag : String} {v : Version} (h : releaseSemver tag = some v) : Bounded v := by
  unfold releaseSemver at h
  split at h
  · simp only [Option.bind_eq_bind, Option.bind_eq_some_iff] at h
    obtain ⟨major,hmajor,minor,hminor,h⟩ := h
    split at h
    · obtain ⟨patch,hpatch,h⟩ := Option.bind_eq_some_iff.mp h
      rw [← Option.some.inj h]
      exact ⟨parseU64_lt hmajor,parseU64_lt hminor,parseU64_lt hpatch⟩
    · cases h
  · cases h

theorem verStr_toList (v : Version) : (verStr v).toList = (toString (ofLex v).1).toList++ '.'::
    ((toString (ofLex (ofLex v).2).1).toList++ '.'::(toString (ofLex (ofLex v).2).2).toList) := by
  have hdot : ".".toList = ['.'] := by decide
  simp only [verStr, String.toList_append, hdot, List.append_assoc, List.cons_append, List.nil_append]

theorem trimV_verStr (v : Version) : trimV (verStr v) = (verStr v).toList := by
  have hplain : ∀ c ∈ (verStr v).toList, isWhitespace c = false ∧ c ≠ 'v' ∧ c ≠ '+' := by
    intro c hc
    apply digit_plain
    rw [verStr_toList] at hc
    simp only [List.mem_append, List.mem_cons] at hc
    rcases hc with hc | rfl | hc | rfl | hc
    · exact .inl (FixedDigits.isDigit_of_mem_toString _ c hc)
    · exact .inr rfl
    · exact .inl (FixedDigits.isDigit_of_mem_toString _ c hc)
    · exact .inr rfl
    · exact .inl (FixedDigits.isDigit_of_mem_toString _ c hc)
  have htrim : trim (verStr v) = verStr v := trim_of_plain (fun c hc => (hplain c hc).1)
  rw [trimV, htrim]
  cases hv : (verStr v).toList with
  | nil => rfl
  | cons c cs => exact List.dropWhile_cons_of_neg (by simp [(hplain c (hv ▸ List.mem_cons_self)).2.1])

theorem no_dot (n : ℕ) : '.' ∉ (toString n).toList :=
  fun h => absurd (FixedDigits.isDigit_of_mem_toString n _ h) (by decide)

theorem releaseSemver_verStr {v : Version} (h : Bounded v) : releaseSemver (verStr v) = some v := by
  have hdigits : (toString (ofLex (ofLex v).2).2).toList.all isDigit = true := by
    by_contra hnot
    have hd := digits_toString (ofLex (ofLex v).2).2
    rw [digits, if_pos] at hd
    · cases hd
    · rw [Bool.or_eq_true]
      right
      rw [List.any_eq_true]
      simpa using hnot
  unfold releaseSemver
  rw [trimV_verStr, verStr_toList, List.splitOn_append_cons_self_of_not_mem (no_dot _),
    List.splitOn_append_cons_self_of_not_mem (no_dot _), List.splitOn_eq_singleton (no_dot _)]
  simp only [parseU64_toString h.1, parseU64_toString h.2.1, parseU64_toString h.2.2, Option.bind_eq_bind, Option.bind_some,
    hdigits, if_true]
  rfl

theorem parseVer_verStr {v : Version} (h : Bounded v) : parseVer (verStr v) = v := by
  have hpart : ∀ (n : ℕ), ∀ c ∈ (toString n).toList, (decide (c = '.') || decide (c = '-')) = false := by
    intro n c hc
    have hdigit := FixedDigits.isDigit_of_mem_toString n c hc
    rw [Bool.or_eq_false_iff, decide_eq_false_iff_not, decide_eq_false_iff_not]
    exact ⟨fun heq => absurd (heq ▸ hdigit) (by decide),fun heq => absurd (heq ▸ hdigit) (by decide)⟩
  unfold parseVer
  rw [trimV_verStr, verStr_toList, List.splitOnP_append_cons_of_forall_mem (hpart _) '.' (by decide),
    List.splitOnP_append_cons_of_forall_mem (hpart _) '.' (by decide), List.splitOnP_eq_singleton (hpart _)]
  simp only [List.getElem?_cons_zero, List.getElem?_cons_succ, Option.bind_some, parseU64_toString h.1,
    parseU64_toString h.2.1, parseU64_toString h.2.2, Option.getD_some]
  rfl

theorem versionGt_verStr {v : Version} (h : Bounded v) (current : String) :
    versionGt (verStr v) current = true ↔ parseVer current < v := by
  rw [versionGt, parseVer_verStr h, decide_eq_true_iff]

/-! ## The asset of a release -/

section
variable (P : Platform)

/-- The asset has a name and an address, whatever they are worth. -/
def WellFormed (a : Json) : Prop := ((a.get "name").bind asStr).isSome ∧ (a.get "browser_download_url").isSome

instance (a : Json) : Decidable (WellFormed a) := inferInstanceAs (Decidable (_ ∧ _))

/-- What an asset offers on its own: a score above zero, at an address. -/
def installer (a : Json) : Option (ℕ × ReleaseAsset) :=
  match (a.get "name").bind asStr, (a.get "browser_download_url").bind asStr with
  | some name, some url =>
    let score := installerAssetScore P (P.toLowercase name)
    if url ≠ "" ∧ score ≠ 0 then some (score,⟨name,url,((a.get "size").bind asU64).getD 0⟩) else none
  | _, _ => none

theorem pickStep_malformed {a : Json} (h : ¬WellFormed a) (best : Option (ℕ × ReleaseAsset)) : pickStep P best a = none := by
  unfold pickStep
  simp only [Option.bind_eq_bind]
  cases hname : (a.get "name").bind asStr with
  | none => rfl
  | some name =>
    cases hurl : a.get "browser_download_url" with
    | none => rfl
    | some url => exact absurd ⟨by rw [hname]; rfl,by rw [hurl]; rfl⟩ h

/-- A well-formed asset replaces the best one when its score is higher. -/
theorem pickStep_wellFormed {a : Json} (h : WellFormed a) (best : Option (ℕ × ReleaseAsset)) :
    pickStep P best a = some ((installer P a).elim best (fun x => if best.all (fun b => b.1 < x.1) then some x else best)) := by
  obtain ⟨name,hname⟩ := Option.isSome_iff_exists.mp h.1
  obtain ⟨url,hurl⟩ := Option.isSome_iff_exists.mp h.2
  unfold pickStep installer
  rw [hname, hurl]
  simp only [Option.bind_eq_bind, Option.bind_some]
  cases hs : asStr url with
  | none => simp
  | some text =>
    by_cases hempty : text = ""
    · simp [hempty]
    · by_cases hscore : installerAssetScore P (P.toLowercase name) = 0
      · simp [hempty, hscore]
      · simp [hempty, hscore]

theorem foldlM_pickStep (assets : List Json) (best : Option (ℕ × ReleaseAsset)) :
    assets.foldlM (pickStep P) best = if ∀ a ∈ assets, WellFormed a then
      some ((assets.filterMap (installer P)).foldl (List.argAux (fun x y => y.1 < x.1)) best) else none := by
  induction assets generalizing best with
  | nil => simp
  | cons a assets ih =>
    rw [List.foldlM_cons]
    by_cases ha : WellFormed a
    · rw [pickStep_wellFormed P ha, Option.bind_eq_bind, Option.bind_some, ih]
      by_cases hall : ∀ b ∈ assets, WellFormed b
      · rw [if_pos hall, if_pos (by simpa using ⟨ha,hall⟩)]
        cases hi : installer P a with
        | none => rw [List.filterMap_cons_none hi, Option.elim_none]
        | some x =>
          rw [List.filterMap_cons_some hi, List.foldl_cons, Option.elim_some]
          cases best with
          | none => rfl
          | some b => simp [List.argAux]
      · rw [if_neg hall, if_neg (fun h => hall (fun b hb => h b (List.mem_cons_of_mem a hb)))]
    · rw [pickStep_malformed P ha, if_neg (fun h => ha (h a List.mem_cons_self))]
      rfl

/-- The best offer of the assets, when none of them is malformed. -/
theorem pickAssetFor_eq (assets : List Json) : pickAssetFor P assets =
    if ∀ a ∈ assets, WellFormed a then ((assets.filterMap (installer P)).argmax Prod.fst).map Prod.snd else none := by
  rw [pickAssetFor, foldlM_pickStep]
  split <;> rfl

/-- The release publishes the asset. -/
def Publishes (rel : Json) (asset : ReleaseAsset) : Prop := ∃ a ∈ assetsOf rel, ∃ score, installer P a = some (score,asset)

theorem publishes_of_pick {rel : Json} {asset : ReleaseAsset} (h : pickAssetFor P (assetsOf rel) = some asset) :
    Publishes P rel asset := by
  rw [pickAssetFor_eq] at h
  split at h
  · obtain ⟨x,hx,rfl⟩ := Option.map_eq_some_iff.mp h
    obtain ⟨a,ha,hinstaller⟩ := List.mem_filterMap.mp (List.argmax_mem hx)
    exact ⟨a,ha,x.1,hinstaller⟩
  · cases h

/-- A release that publishes an installer gives one, unless an asset is malformed. -/
theorem pick_isSome_iff {rel : Json} {asset : ReleaseAsset} (h : Publishes P rel asset) :
    (pickAssetFor P (assetsOf rel)).isSome ↔ ∀ a ∈ assetsOf rel, WellFormed a := by
  rw [pickAssetFor_eq]
  split
  · next hall =>
    refine iff_of_true ?_ hall
    rw [Option.isSome_map]
    obtain ⟨a,ha,score,hinstaller⟩ := h
    rw [Option.isSome_iff_ne_none]
    intro hnone
    have hnil := List.argmax_eq_none.mp hnone
    exact absurd (List.mem_filterMap.mpr ⟨a,ha,hinstaller⟩) (by simp [hnil])
  · next hall => exact iff_of_false (by simp) hall

end

/-! ## The pass over the releases -/

section
variable (P : Platform) (q : Request)

/-- The version of a release that the request admits. -/
def considered (rel : Json) : Option Version :=
  if isDraft rel || (isPrerelease rel && !q.allowPrerelease) then none else releaseSemver (tagName rel)

/-- What the pass sees of a release. -/
def offer (rel : Json) : Option (Version × ReleaseAsset) :=
  (considered q rel).bind (fun ver => (pickAssetFor P (assetsOf rel)).map (fun asset => (ver,asset)))

/-- At most the requested version, and newer than the current one. -/
def Within (ver : Version) : Prop :=
  (∃ want, releaseSemver q.requested = some want ∧ ver ≤ want) ∧ parseVer q.current < ver

instance (ver : Version) : Decidable (Within q ver) :=
  inferInstanceAs (Decidable ((∃ want, releaseSemver q.requested = some want ∧ ver ≤ want) ∧ parseVer q.current < ver))

theorem within_iff {ver : Version} (hb : Bounded ver) :
    ((releaseSemver q.requested).any (fun want => ver ≤ want) && versionGt (verStr ver) q.current) = true ↔
      Within q ver := by
  rw [Bool.and_eq_true, versionGt_verStr hb, Within]
  refine and_congr_left (fun _ => ?_)
  cases releaseSemver q.requested <;> simp

/-- The higher of two candidates, the former one at equal versions. -/
def higher : Option (Version × InstallerChoice) → Version × InstallerChoice → Option (Version × InstallerChoice) :=
  List.argAux (fun x y => y.1 < x.1)

theorem noteLatest_best (s : Scan) (ver : Version) (name : String) : (s.noteLatest ver name).best = s.best := by
  unfold Scan.noteLatest
  split <;> rfl

theorem keepBest_best (s : Scan) (ver : Version) (choice : InstallerChoice) :
    (s.keepBest ver choice).best = higher s.best (ver,choice) := by
  unfold Scan.keepBest higher
  cases h : s.best with
  | none => rfl
  | some b => by_cases hlt : b.1 < ver <;> simp [hlt, h, List.argAux]

theorem visit_none {rel : Json} (h : offer P q rel = none) (s : Scan) :
    ∃ s', visit P q s rel = .ok s' ∧ s'.best = s.best := by
  unfold visit
  split
  · exact ⟨s,rfl,rfl⟩
  next hdraft =>
  split
  · exact ⟨s,rfl,rfl⟩
  next hpre =>
  split
  · exact ⟨s,rfl,rfl⟩
  next ver hver =>
    have hconsidered : considered q rel = some ver := by
      rw [considered, if_neg (by simpa [hdraft] using hpre), hver]
    rw [offer, hconsidered, Option.bind_some, Option.map_eq_none_iff] at h
    rw [h]
    dsimp only
    split
    · exact ⟨_,rfl,rfl⟩
    · exact ⟨s,rfl,rfl⟩

theorem considered_parts {rel : Json} {ver : Version} (h : considered q rel = some ver) :
    (isDraft rel = false ∧ (isPrerelease rel && !q.allowPrerelease) = false) ∧ releaseSemver (tagName rel) = some ver := by
  unfold considered at h
  split at h
  · cases h
  · next hnot =>
    rw [Bool.not_eq_true, Bool.or_eq_false_iff] at hnot
    exact ⟨hnot,h⟩

theorem offer_parts {rel : Json} {ver : Version} {asset : ReleaseAsset} (h : offer P q rel = some (ver,asset)) :
    considered q rel = some ver ∧ pickAssetFor P (assetsOf rel) = some asset := by
  obtain ⟨v,hv,h⟩ := Option.bind_eq_some_iff.mp h
  obtain ⟨asset',hasset,heq⟩ := Option.map_eq_some_iff.mp h
  obtain ⟨rfl,rfl⟩ := Prod.mk.inj heq
  exact ⟨hv,hasset⟩

theorem offer_bounded {rel : Json} {ver : Version} {asset : ReleaseAsset} (h : offer P q rel = some (ver,asset)) :
    Bounded ver := releaseSemver_bounded (considered_parts q (offer_parts P q h).1).2

theorem visit_exact {rel : Json} {ver : Version} {asset : ReleaseAsset} (h : offer P q rel = some (ver,asset))
    (hx : verStr ver = q.requested) (s : Scan) : visit P q s rel = .error ⟨asset,verStr ver⟩ := by
  obtain ⟨hconsidered,hpick⟩ := offer_parts P q h
  obtain ⟨⟨hdraft,hpre⟩,htag⟩ := considered_parts q hconsidered
  simp [visit, hdraft, hpre, htag, hpick, hx]

theorem visit_other {rel : Json} {ver : Version} {asset : ReleaseAsset} (h : offer P q rel = some (ver,asset))
    (hx : verStr ver ≠ q.requested) (s : Scan) : ∃ s', visit P q s rel = .ok s' ∧
      (Within q ver → s'.best = higher s.best (ver,⟨asset,verStr ver⟩)) ∧ (¬Within q ver → s'.best = s.best) := by
  obtain ⟨hconsidered,hpick⟩ := offer_parts P q h
  obtain ⟨⟨hdraft,hpre⟩,htag⟩ := considered_parts q hconsidered
  have hwithin := within_iff q (offer_bounded P q h)
  by_cases hw : Within q ver
  · refine ⟨(s.noteLatest ver asset.name).keepBest ver ⟨asset,verStr ver⟩,?_,fun _ => ?_,fun h => absurd hw h⟩
    · simp [visit, hdraft, hpre, htag, hpick, hx, hwithin.mpr hw]
    · rw [keepBest_best, noteLatest_best]
  · refine ⟨s.noteLatest ver asset.name,?_,fun h => absurd h hw,fun _ => noteLatest_best s ver asset.name⟩
    simp [visit, hdraft, hpre, htag, hpick, hx, Bool.eq_false_iff.mpr (fun h => hw (hwithin.mp h))]

/-- The release is the requested one, by its text. -/
def exactOffer (rel : Json) : Option (Version × ReleaseAsset) := (offer P q rel).filter (fun o => verStr o.1 = q.requested)

/-- The release is a candidate in the place of the requested one. -/
def below (rel : Json) : Option (Version × InstallerChoice) :=
  ((offer P q rel).filter (fun o => Within q o.1)).map (fun o => (o.1,⟨o.2,verStr o.1⟩))

theorem visit_inexact {rel : Json} (h : exactOffer P q rel = none) (s : Scan) :
    ∃ s', visit P q s rel = .ok s' ∧ s'.best = (below P q rel).elim s.best (higher s.best) := by
  cases ho : offer P q rel with
  | none =>
    rw [below, ho]
    exact visit_none P q ho s
  | some o =>
    have hx : verStr o.1 ≠ q.requested := by
      rw [exactOffer, ho, Option.filter_some] at h
      intro heq
      rw [if_pos (by simpa using heq)] at h
      cases h
    obtain ⟨ver,asset⟩ := o
    obtain ⟨s',hs',hin,hout⟩ := visit_other P q ho hx s
    refine ⟨s',hs',?_⟩
    rw [below, ho, Option.filter_some]
    by_cases hw : Within q ver
    · rw [if_pos (by simpa using hw)]
      exact hin hw
    · rw [if_neg (by simpa using hw)]
      exact hout hw

/-- The pass ends at the first release that is the requested one. -/
theorem pass_exact {releases : List Json} {o : Version × ReleaseAsset} (h : releases.findSome? (exactOffer P q) = some o)
    (s : Scan) : releases.foldlM (visit P q) s = .error ⟨o.2,verStr o.1⟩ := by
  induction releases generalizing s with
  | nil => cases h
  | cons rel releases ih =>
    rw [List.foldlM_cons]
    cases hx : exactOffer P q rel with
    | none =>
      rw [List.findSome?_cons, hx] at h
      obtain ⟨s',hs',-⟩ := visit_inexact P q hx s
      rw [hs']
      exact ih h s'
    | some o' =>
      rw [List.findSome?_cons, hx] at h
      obtain rfl := Option.some.inj h
      obtain ⟨ho,heq⟩ := Option.filter_eq_some_iff.mp hx
      obtain ⟨ver,asset⟩ := o'
      rw [visit_exact P q ho (by simpa using heq)]
      rfl

/-- Without the requested one it ends with the highest candidate. -/
theorem pass_below {releases : List Json} (h : releases.findSome? (exactOffer P q) = none) (s : Scan) :
    ∃ s', releases.foldlM (visit P q) s = .ok s' ∧ s'.best = (releases.filterMap (below P q)).foldl higher s.best := by
  induction releases generalizing s with
  | nil => exact ⟨s,rfl,rfl⟩
  | cons rel releases ih =>
    rw [List.findSome?_eq_none_iff] at h
    obtain ⟨s',hs',hbest⟩ := visit_inexact P q (h rel List.mem_cons_self) s
    obtain ⟨s'',hs'',hrest⟩ := ih (List.findSome?_eq_none_iff.mpr (fun r hr => h r (List.mem_cons_of_mem rel hr))) s'
    refine ⟨s'',?_,?_⟩
    · rw [List.foldlM_cons, hs']
      exact hs''
    · rw [hrest, hbest]
      cases hb : below P q rel with
      | none => rw [List.filterMap_cons_none hb, Option.elim_none]
      | some c => rw [List.filterMap_cons_some hb, Option.elim_some, List.foldl_cons]

/-- What is chosen is offered: as the requested one, or as the highest candidate. -/
theorem choose_ok {releases : List Json} {choice : InstallerChoice} (h : choose P q releases = .ok choice) :
    ∃ rel ∈ releases, ∃ ver, offer P q rel = some (ver,choice.asset) ∧ choice.version = verStr ver ∧
      (verStr ver = q.requested ∨ ((∀ r ∈ releases, ∀ o, offer P q r = some o → verStr o.1 ≠ q.requested) ∧
        Within q ver ∧ ∀ r ∈ releases, ∀ o, offer P q r = some o → Within q o.1 → o.1 ≤ ver)) := by
  cases hx : releases.findSome? (exactOffer P q) with
  | some o =>
    rw [choose, pass_exact P q hx] at h
    obtain rfl := Except.ok.inj h
    obtain ⟨rel,hrel,ho⟩ := List.exists_of_findSome?_eq_some hx
    obtain ⟨ho,heq⟩ := Option.filter_eq_some_iff.mp ho
    exact ⟨rel,hrel,o.1,ho,rfl,.inl (by simpa using heq)⟩
  | none =>
    obtain ⟨s,hs,hbest⟩ := pass_below P q hx Scan.start
    have hnone : ∀ r ∈ releases, ∀ o, offer P q r = some o → verStr o.1 ≠ q.requested := by
      intro r hr o ho heq
      have hfilter := List.findSome?_eq_none_iff.mp hx r hr
      rw [exactOffer, ho, Option.filter_some, if_pos (by simpa using heq)] at hfilter
      cases hfilter
    have hargmax : (releases.filterMap (below P q)).argmax Prod.fst = s.best := hbest.symm
    rw [choose, hs] at h
    cases hc : s.best with
    | none =>
      simp only [hc] at h
      cases h
    | some c =>
      simp only [hc] at h
      obtain rfl := Except.ok.inj h
      rw [hc] at hargmax
      obtain ⟨rel,hrel,hb⟩ := List.mem_filterMap.mp (List.argmax_mem hargmax)
      obtain ⟨o,ho,rfl⟩ := Option.map_eq_some_iff.mp hb
      obtain ⟨ho,hw⟩ := Option.filter_eq_some_iff.mp ho
      refine ⟨rel,hrel,o.1,ho,rfl,.inr ⟨hnone,by simpa using hw,?_⟩⟩
      intro r hr o' ho' hw'
      have hmem : (o'.1,(⟨o'.2,verStr o'.1⟩ : InstallerChoice)) ∈ releases.filterMap (below P q) := by
        apply List.mem_filterMap.mpr
        refine ⟨r,hr,?_⟩
        rw [below, ho', Option.filter_some, if_pos (by simpa using hw')]
        rfl
      have hle := List.le_of_mem_argmax hmem hargmax
      exact hle

theorem choose_error {releases : List Json} {e : String} (h : choose P q releases = .error e) :
    ∀ r ∈ releases, ∀ o, offer P q r = some o → verStr o.1 ≠ q.requested ∧ ¬Within q o.1 := by
  cases hx : releases.findSome? (exactOffer P q) with
  | some o =>
    rw [choose, pass_exact P q hx] at h
    cases h
  | none =>
    obtain ⟨s,hs,hbest⟩ := pass_below P q hx Scan.start
    rw [choose, hs] at h
    cases hc : s.best with
    | some c =>
      simp only [hc] at h
      cases h
    | none =>
      rw [hc] at hbest
      have hnil := List.argmax_eq_none.mp (show (releases.filterMap (below P q)).argmax Prod.fst = none from hbest.symm)
      intro r hr o ho
      constructor
      · intro heq
        have hfilter := List.findSome?_eq_none_iff.mp hx r hr
        rw [exactOffer, ho, Option.filter_some, if_pos (by simpa using heq)] at hfilter
        cases hfilter
      · intro hw
        have hmem : (o.1,(⟨o.2,verStr o.1⟩ : InstallerChoice)) ∈ releases.filterMap (below P q) := by
          apply List.mem_filterMap.mpr
          refine ⟨r,hr,?_⟩
          rw [below, ho, Option.filter_some, if_pos (by simpa using hw)]
          rfl
        simp [hnil] at hmem

/-! ## The right choice -/

variable (releases : List Json)

/-- A release that the request admits publishes the asset for the version. -/
def Offers (ver : Version) (asset : ReleaseAsset) : Prop :=
  ∃ rel ∈ releases, considered q rel = some ver ∧ Publishes P rel asset

/-- The requested version when it has an installer; otherwise the highest below it that has one and is newer than
the current version. -/
def Named (ver : Version) : Prop :=
  ∃ want, releaseSemver q.requested = some want ∧ (∃ asset, Offers P q releases ver asset) ∧
    (ver = want ∨ ((¬∃ asset, Offers P q releases want asset) ∧ ver < want ∧ parseVer q.current < ver ∧
      ∀ v, v ≤ want → parseVer q.current < v → (∃ asset, Offers P q releases v asset) → v ≤ ver))

structure ChoosesRight (result : Except String InstallerChoice) : Prop where
  named : ∀ choice, result = .ok choice →
    ∃ ver, Named P q releases ver ∧ choice.version = verStr ver ∧ Offers P q releases ver choice.asset
  found : ∀ ver, Named P q releases ver → ∃ choice, result = .ok choice
  whole : ∀ rel ∈ releases, ∀ asset, Publishes P rel asset → (pickAssetFor P (assetsOf rel)).isSome

/-- No installer stands beside a malformed asset, and the requested version is written as the releases write it,
unless it is newer than the current one or has no installer. -/
structure Readable : Prop where
  assets : ∀ rel ∈ releases, (∃ asset, Publishes P rel asset) → ∀ a ∈ assetsOf rel, WellFormed a
  request : ∀ want, releaseSemver q.requested = some want → (∃ asset, Offers P q releases want asset) →
    q.requested = verStr want ∨ parseVer q.current < want

variable {releases}

theorem offers_of_offer {rel : Json} (hrel : rel ∈ releases) {o : Version × ReleaseAsset} (h : offer P q rel = some o) :
    Offers P q releases o.1 o.2 :=
  ⟨rel,hrel,(offer_parts P q h).1,publishes_of_pick P (offer_parts P q h).2⟩

theorem requested_of_verStr {ver : Version} (hb : Bounded ver) (h : verStr ver = q.requested) :
    releaseSemver q.requested = some ver := by
  rw [← h]
  exact releaseSemver_verStr hb

theorem verStr_inj {v w : Version} (hv : Bounded v) (hw : Bounded w) (h : verStr v = verStr w) : v = w :=
  Option.some.inj ((releaseSemver_verStr hv).symm.trans ((congrArg releaseSemver h).trans (releaseSemver_verStr hw)))

theorem chooses_of_readable (h : Readable P q releases) : ChoosesRight P q releases (choose P q releases) := by
  have hoffer : ∀ ver, (∃ asset, Offers P q releases ver asset) → ∃ rel ∈ releases, ∃ asset, offer P q rel = some (ver,asset) := by
    rintro ver ⟨asset,rel,hrel,hver,hpub⟩
    obtain ⟨picked,hpicked⟩ := Option.isSome_iff_exists.mp ((pick_isSome_iff P hpub).mpr (h.assets rel hrel ⟨asset,hpub⟩))
    exact ⟨rel,hrel,picked,by rw [offer, hver, hpicked]; rfl⟩
  refine ⟨?_,?_,fun rel hrel asset hpub => (pick_isSome_iff P hpub).mpr (h.assets rel hrel ⟨asset,hpub⟩)⟩
  · intro choice hchoice
    obtain ⟨rel,hrel,ver,ho,hversion,hcase⟩ := choose_ok P q hchoice
    have hoffers := offers_of_offer P q hrel ho
    refine ⟨ver,?_,hversion,hoffers⟩
    rcases hcase with hexact | ⟨hnone,hw,hmax⟩
    · exact ⟨ver,requested_of_verStr q (offer_bounded P q ho) hexact,⟨_,hoffers⟩,.inl rfl⟩
    · obtain ⟨⟨want,hwant,hle⟩,hnewer⟩ := hw
      refine ⟨want,hwant,⟨_,hoffers⟩,?_⟩
      by_cases hhas : ∃ asset, Offers P q releases want asset
      · left
        obtain ⟨rel',hrel',asset',ho'⟩ := hoffer want hhas
        rcases h.request want hwant hhas with htext | hcurrent
        · exact (hnone rel' hrel' (want,asset') ho').elim htext.symm
        · have hwithin : Within q want := ⟨⟨want,hwant,le_refl want⟩,hcurrent⟩
          have hge : want ≤ ver := hmax rel' hrel' (want,asset') ho' hwithin
          exact le_antisymm hle hge
      · right
        refine ⟨hhas,lt_of_le_of_ne hle (fun heq => hhas (heq ▸ ⟨_,hoffers⟩)),hnewer,?_⟩
        intro v hv hvnew hvhas
        obtain ⟨rel',hrel',asset',ho'⟩ := hoffer v hvhas
        have hwithin : Within q v := ⟨⟨want,hwant,hv⟩,hvnew⟩
        exact hmax rel' hrel' (v,asset') ho' hwithin
  · rintro ver ⟨want,hwant,hhas,hcase⟩
    cases hresult : choose P q releases with
    | ok choice => exact ⟨choice,rfl⟩
    | error e =>
      obtain ⟨rel,hrel,asset,ho⟩ := hoffer ver hhas
      obtain ⟨htext,hnot⟩ := choose_error P q hresult rel hrel (ver,asset) ho
      rcases hcase with rfl | ⟨-,hlt,hnewer,-⟩
      · rcases h.request ver hwant hhas with heq | hcurrent
        · exact htext.elim heq.symm
        · exact hnot.elim ⟨⟨ver,hwant,le_refl ver⟩,hcurrent⟩
      · exact hnot.elim ⟨⟨want,hwant,hlt.le⟩,hnewer⟩

theorem readable_of_chooses (h : ChoosesRight P q releases (choose P q releases)) : Readable P q releases := by
  constructor
  · rintro rel hrel ⟨asset,hpub⟩
    exact (pick_isSome_iff P hpub).mp (h.whole rel hrel asset hpub)
  · intro want hwant hhas
    obtain ⟨choice,hchoice⟩ := h.found want ⟨want,hwant,hhas,.inl rfl⟩
    obtain ⟨ver,⟨want',hwant',-,hcase⟩,hversion,-⟩ := h.named choice hchoice
    obtain rfl := Option.some.inj (hwant.symm.trans hwant')
    rcases hcase with rfl | ⟨hnot,-⟩
    · -- the version of the choice is the requested one, by its text or as a candidate
      obtain ⟨rel,hrel,ver',ho,hversion',hcase⟩ := choose_ok P q hchoice
      have hsame : ver' = ver := verStr_inj (offer_bounded P q ho) (releaseSemver_bounded hwant) (hversion'.symm.trans hversion)
      rw [hsame] at hcase
      rcases hcase with htext | ⟨-,hw,-⟩
      · exact .inl htext.symm
      · exact .inr hw.2
    · exact absurd hhas hnot

end

theorem chooses_right_iff (P : Platform) (releases : List Json) (requested current : String) (allowPrerelease : Bool) :
    ChoosesRight P ⟨String.ofList (trimV requested),current,allowPrerelease⟩ releases
      (selectInstaller P releases requested current allowPrerelease) ↔
    Readable P ⟨String.ofList (trimV requested),current,allowPrerelease⟩ releases :=
  ⟨readable_of_chooses P _,chooses_of_readable P _⟩

/-- The platform of a Linux host, with the lower case of ASCII. -/
def linuxHost : Platform := ⟨toAsciiLowercase,"x86_64-unknown-linux-gnu","linux","x86_64"⟩

/-- A release of two assets, the first of them without an address. -/
def halfWritten : Json :=
  .obj [("tag_name",.str "v2.0.163"),("assets",.arr [.obj [("name",.str "notes.txt")],
    .obj [("name",.str "DevForge-2.0.163-x86_64.flatpak"),("browser_download_url",.str "https://example.com/d")]])]

theorem installer_hidden : ¬∀ (P : Platform) (releases : List Json) (requested current : String) (allowPrerelease : Bool),
    ChoosesRight P ⟨String.ofList (trimV requested),current,allowPrerelease⟩ releases
      (selectInstaller P releases requested current allowPrerelease) := by
  intro h
  have hwhole := (h linuxHost [halfWritten] "2.0.163" "2.0.160" false).whole halfWritten List.mem_cons_self
    ⟨"DevForge-2.0.163-x86_64.flatpak","https://example.com/d",0⟩
    ⟨_,List.mem_cons_of_mem _ List.mem_cons_self,320,by decide +kernel⟩
  exact absurd hwhole (by decide +kernel)

end DevForge.Installers
