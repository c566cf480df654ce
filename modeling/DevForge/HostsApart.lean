import DevForge.DerivedHosts
import DevForge.PreviewEnvKept
import DevForge.FixedDigits

/-!
# Hosts of production, dev and previews

A derived host replaces the first label of the production host, or stands in front of all of them.
When two instances get the same host, and when a derived name is too long.
-/

set_option autoImplicit false

namespace DevForge.HostsApart
open Dotenv DotenvRoundTrip PreviewEnvKept DerivedHosts

/-! ## Names -/

/-- A lower-case letter, a digit or a hyphen. -/
def labelChar (c : Char) : Bool := hostChar c && c ≠ '.'

structure ValidLabel (l : List Char) : Prop where
  nonempty : l ≠ []
  short : l.length ≤ 63
  chars : ∀ c ∈ l, labelChar c = true
  first : l.head? ≠ some '-'
  last : l.getLast? ≠ some '-'

/-- A host name of two labels at least. -/
structure ValidName (labels : List (List Char)) : Prop where
  two : 2 ≤ labels.length
  each : ∀ l ∈ labels, ValidLabel l
  short : (dotted labels).length ≤ 253

theorem labelChar_iff {c : Char} : labelChar c = true ↔ hostChar c = true ∧ c ≠ '.' := by
  rw [labelChar, Bool.and_eq_true, decide_eq_true_eq]

theorem ValidLabel.no_dot {l : List Char} (h : ValidLabel l) : '.' ∉ l :=
  fun hc => (labelChar_iff.mp (h.chars '.' hc)).2 rfl

theorem dotted_cons (l : List Char) {ls : List (List Char)} (h : ls ≠ []) : dotted (l::ls) = l++ '.'::dotted ls := by
  rw [dotted, List.intercalate_cons_of_ne_nil h, List.append_assoc]
  rfl

theorem dotted_inj {ls ls' : List (List Char)} (h : ∀ l ∈ ls, '.' ∉ l) (h' : ∀ l ∈ ls', '.' ∉ l) (hne : ls ≠ [])
    (hne' : ls' ≠ []) (heq : dotted ls = dotted ls') : ls = ls' := by
  have hsplit := congrArg (List.splitOn '.') heq
  rwa [dotted, dotted, List.splitOn_intercalate '.' h hne, List.splitOn_intercalate '.' h' hne'] at hsplit

theorem dotted_chars {ls : List (List Char)} (h : ∀ l ∈ ls, ∀ c ∈ l, labelChar c = true) :
    ∀ c ∈ dotted ls, hostChar c = true := by
  induction ls with
  | nil => exact fun c hc => absurd hc List.not_mem_nil
  | cons l ls ih =>
    have hl : ∀ c ∈ l, hostChar c = true := fun c hc => (labelChar_iff.mp (h l List.mem_cons_self c hc)).1
    have hrest := ih (fun m hm => h m (List.mem_cons_of_mem l hm))
    intro c hc
    by_cases hnil : ls = []
    · rw [hnil, dotted, List.intercalate_singleton] at hc
      exact hl c hc
    · rw [dotted_cons l hnil, List.mem_append, List.mem_cons] at hc
      obtain hc | rfl | hc := hc
      · exact hl c hc
      · rfl
      · exact hrest c hc

section
variable {ls : List (List Char)} (h : ∀ l ∈ ls, ValidLabel l) (hne : ls ≠ [])
include h hne

/-- A name does not end in a dot. -/
theorem dotted_last : ∃ c, (dotted ls).getLast? = some c ∧ c ≠ '.' := by
  induction ls with
  | nil => exact absurd rfl hne
  | cons l ls ih =>
    by_cases hnil : ls = []
    · have hl : ValidLabel l := h l List.mem_cons_self
      refine ⟨l.getLast hl.nonempty,?_,?_⟩
      · rw [hnil, dotted, List.intercalate_singleton, List.getLast?_eq_some_getLast hl.nonempty]
      · exact (labelChar_iff.mp (hl.chars _ (List.getLast_mem hl.nonempty))).2
    · obtain ⟨c,hc,hdot⟩ := ih (fun m hm => h m (List.mem_cons_of_mem l hm)) hnil
      refine ⟨c,?_,hdot⟩
      have hrest : dotted ls ≠ [] := fun hempty => by rw [hempty] at hc; cases hc
      rw [dotted_cons l hnil, List.append_cons, List.getLast?_append_of_ne_nil _ hrest, hc]

theorem canonical_dotted : canonical (dotted ls) = dotted ls := by
  have htrim : trimChars (dotted ls) = dotted ls :=
    trimChars_key (fun c hc => (hostChar_plain (dotted_chars (fun l hl => (h l hl).chars) c hc)).1)
  have hdrop : (dotted ls).rdropWhile (· = '.') = dotted ls := by
    rw [List.rdropWhile_eq_self_iff]
    intro hne'
    obtain ⟨c,hc,hdot⟩ := dotted_last h hne
    rw [List.getLast?_eq_some_getLast hne'] at hc
    rw [Option.some.inj hc, decide_eq_true_eq]
    exact hdot
  have hlower : (dotted ls).map asciiLowercase = dotted ls := by
    refine (List.map_congr_left (fun c hc => ?_)).trans (List.map_id _)
    have hchar := dotted_chars (fun l hl => (h l hl).chars) c hc
    simp only [hostChar, Bool.or_eq_true, Bool.and_eq_true, decide_eq_true_eq] at hchar
    rw [asciiLowercase, if_neg, id]
    simp only [Bool.and_eq_true, decide_eq_true_eq]
    omega
  rw [canonical, htrim, hdrop, hlower]

theorem hostLabels_dotted (htwo : 2 ≤ ls.length) : hostLabels (dotted ls) = some ls := by
  have hsplit : (dotted ls).splitOn '.' = ls := List.splitOn_intercalate '.' (fun l hl => (h l hl).no_dot) hne
  have hany : ls.any List.isEmpty = false :=
    List.any_eq_false.mpr (fun l hl => by simpa using (h l hl).nonempty)
  have hguard : (decide (ls.length < 2) || ls.any List.isEmpty) = false := by
    rw [hany, Bool.or_false, decide_eq_false_iff_not]
    omega
  rw [hostLabels, hsplit]
  exact if_neg (by rw [hguard]; exact Bool.false_ne_true)

end

theorem ValidName.ne_nil {ls : List (List Char)} (h : ValidName ls) : ls ≠ [] := by
  rintro rfl
  exact absurd h.two (by decide)

/-! ## Slugs -/

/-- What a slug is while it is built: no hyphen stands first. -/
structure SlugOk (out : List Char) : Prop where
  chars : ∀ c ∈ out, labelChar c = true
  first : out.head? ≠ some '-'

theorem slugChar_label (c : Char) : labelChar (slugChar (asciiLowercase c)) = true := by
  have hall : ∀ n < 128, labelChar (slugChar (asciiLowercase (Char.ofNat n))) = true := by decide +kernel
  by_cases hlt : c.toNat < 128
  · have hc := hall c.toNat hlt
    rwa [Char.ofNat_toNat] at hc
  · have hsame : asciiLowercase c = c := by
      rw [asciiLowercase, if_neg]
      simp only [Bool.and_eq_true, decide_eq_true_eq]
      omega
    have hother : ¬isAsciiAlphanumeric c = true := by
      simp only [isAsciiAlphanumeric, Bool.or_eq_true, Bool.and_eq_true, decide_eq_true_eq]
      omega
    rw [hsame, slugChar, if_neg hother]
    decide

theorem slugStep_cases (out : List Char) (c : Char) :
    slugStep out c = out ∨ slugStep out c = out++[slugChar c] ∧ (out = [] → slugChar c ≠ '-') := by
  unfold slugStep
  split
  · exact .inl rfl
  · next hcond =>
    refine .inr ⟨rfl,?_⟩
    rintro rfl hc
    exact hcond (by rw [hc]; rfl)

theorem slugStep_ok {out : List Char} (h : SlugOk out) (c : Char) : SlugOk (slugStep out (asciiLowercase c)) := by
  obtain hsame | ⟨happ,hfirst⟩ := slugStep_cases out (asciiLowercase c)
  · rwa [hsame]
  · rw [happ]
    constructor
    · intro d hd
      obtain hd | hd := List.mem_append.mp hd
      · exact h.chars d hd
      · rw [List.mem_singleton.mp hd]
        exact slugChar_label c
    · cases out with
      | nil =>
        rw [List.nil_append, List.head?_cons, ne_eq, Option.some_inj]
        exact hfirst rfl
      | cons d out => exact h.first

theorem foldl_slugStep_ok (cs : List Char) (out : List Char) (h : SlugOk out) :
    SlugOk ((cs.map asciiLowercase).foldl slugStep out) := by
  induction cs generalizing out with
  | nil => exact h
  | cons c cs ih => exact ih _ (slugStep_ok h c)

theorem trimHyphens_mem {l : List Char} {c : Char} (h : c ∈ trimHyphens l) : c ∈ l :=
  (List.rdropWhile_prefix _ l).subset h

theorem trimHyphens_ok {l : List Char} (h : SlugOk l) : SlugOk (trimHyphens l) := by
  constructor
  · exact fun c hc => h.chars c (trimHyphens_mem hc)
  · intro hhead
    obtain ⟨rest,hrest⟩ := List.rdropWhile_prefix (· = '-') l
    have happ : (trimHyphens l++rest).head? = some '-' := by
      rw [List.head?_append, hhead]
      rfl
    rw [trimHyphens, hrest] at happ
    exact h.first happ

theorem trimHyphens_ne_nil {l : List Char} (h : SlugOk l) (hne : l ≠ []) : trimHyphens l ≠ [] := by
  intro hnil
  rw [trimHyphens, List.rdropWhile_eq_nil_iff] at hnil
  have hhead := hnil (l.head hne) (List.head_mem hne)
  rw [decide_eq_true_eq] at hhead
  exact h.first (by rw [List.head?_eq_some_head hne, hhead])

theorem trimHyphens_last {l : List Char} : (trimHyphens l).getLast? ≠ some '-' := by
  intro hlast
  have hne : trimHyphens l ≠ [] := by
    intro hnil
    rw [hnil] at hlast
    cases hlast
  have hnot := List.rdropWhile_last_not (· = '-') l hne
  rw [List.getLast?_eq_some_getLast hne] at hlast
  exact hnot (decide_eq_true (Option.some.inj hlast))

theorem slugify_ok (raw : List Char) : SlugOk (slugify raw) :=
  trimHyphens_ok (foldl_slugStep_ok _ [] ⟨fun c hc => absurd hc List.not_mem_nil,by decide⟩)

theorem foldl_slugStep_ne_nil (cs : List Char) {out : List Char} (h : out ≠ []) : cs.foldl slugStep out ≠ [] := by
  induction cs generalizing out with
  | nil => exact h
  | cons c cs ih =>
    apply ih
    obtain hsame | ⟨happ,-⟩ := slugStep_cases out c
    · rwa [hsame]
    · rw [happ]
      exact fun hnil => h (List.append_eq_nil_iff.mp hnil).1

theorem labelChar_same {c : Char} (h : labelChar c = true) : asciiLowercase c = c ∧ slugChar c = c := by
  have hall : ∀ n < 128, labelChar (Char.ofNat n) = true →
      asciiLowercase (Char.ofNat n) = Char.ofNat n ∧ slugChar (Char.ofNat n) = Char.ofNat n := by
    decide +kernel
  have hlt : c.toNat < 128 := by
    have hchar := (labelChar_iff.mp h).1
    simp only [hostChar, Bool.or_eq_true, Bool.and_eq_true, decide_eq_true_eq] at hchar
    omega
  have hc := hall c.toNat hlt
  rw [Char.ofNat_toNat] at hc
  exact hc h

/-- The label of a host makes a slug. -/
theorem slugify_label {l : List Char} (h : ValidLabel l) : slugify l ≠ [] := by
  have hok := foldl_slugStep_ok (trimChars l) [] ⟨fun c hc => absurd hc List.not_mem_nil,by decide⟩
  apply trimHyphens_ne_nil hok
  rw [trimChars_key (fun c hc => (hostChar_plain (labelChar_iff.mp (h.chars c hc)).1).1)]
  cases l with
  | nil => exact absurd rfl h.nonempty
  | cons c cs =>
    obtain ⟨hlower,hslug⟩ := labelChar_same (h.chars c List.mem_cons_self)
    have hne : c ≠ '-' := fun hc => h.first (by rw [hc]; rfl)
    have hstep : slugStep [] (asciiLowercase c) = [c] := by
      rw [hlower, slugStep, hslug, decide_eq_false hne]
      rfl
    rw [List.map_cons, List.foldl_cons, hstep]
    exact foldl_slugStep_ne_nil _ (List.cons_ne_nil c [])

/-- The part of a slug that has room in a label. -/
theorem slug_part {s : List Char} (h : SlugOk s) (hne : s ≠ []) (room : ℕ) (hroom : 0 < room) :
    trimHyphens (s.take room) ≠ [] ∧ SlugOk (trimHyphens (s.take room)) ∧ (trimHyphens (s.take room)).length ≤ room := by
  have htake : SlugOk (s.take room) := by
    constructor
    · exact fun c hc => h.chars c (List.mem_of_mem_take hc)
    · rw [List.head?_take, if_neg (by omega)]
      exact h.first
  have hnil : s.take room ≠ [] := by
    intro hnil
    rw [List.take_eq_nil_iff] at hnil
    obtain hzero | hnil := hnil
    · omega
    · exact hne hnil
  refine ⟨trimHyphens_ne_nil htake hnil,trimHyphens_ok htake,?_⟩
  have hle := (List.rdropWhile_prefix (· = '-') (s.take room)).length_le
  rw [List.length_take] at hle
  exact hle.trans (Nat.min_le_left _ _)

/-! ## Labels of previews -/

theorem previewStart_nat (m : ℕ) : previewStart m = "pr-".toList++((toString m).toList++['-']) := rfl

theorem digit_label {c : Char} (h : c.isDigit = true) : labelChar c = true ∧ c ≠ '-' := by
  obtain ⟨hge,hle⟩ := Char.isDigit_iff_toNat.mp h
  have hzero : '0'.toNat = 48 := rfl
  have hnine : '9'.toNat = 57 := rfl
  rw [labelChar_iff, hostChar]
  simp only [Bool.or_eq_true, Bool.and_eq_true, decide_eq_true_eq]
  refine ⟨⟨by omega,?_⟩,?_⟩
  · rintro rfl
    exact absurd hge (by decide)
  · rintro rfl
    exact absurd hge (by decide)

theorem previewStart_chars (m : ℕ) : ∀ c ∈ previewStart m, labelChar c = true := by
  intro c hc
  rw [previewStart_nat, List.mem_append, List.mem_append, List.mem_singleton] at hc
  obtain hc | hc | rfl := hc
  · have hall : "pr-".toList.all labelChar = true := by decide +kernel
    exact List.all_eq_true.mp hall c hc
  · exact (digit_label (FixedDigits.isDigit_of_mem_toString m c hc)).1
  · decide

theorem previewStart_length {m : ℕ} (h : m < 2^63) : (previewStart m).length ≤ 23 := by
  have hdigits : (toString m).toList.length ≤ 19 := by
    have hform : (toString m).toList = Nat.toDigits 10 m := Nat.toList_repr
    rw [hform, Nat.length_toDigits_le_iff (by decide) (by decide)]
    omega
  have hpr : "pr-".toList.length = 3 := by decide +kernel
  rw [previewStart_nat, List.length_append, List.length_append, hpr, List.length_singleton]
  omega

/-- Number and slug can be read off the label of a preview. -/
theorem previewStart_inj {m n : ℕ} {s t : List Char} (h : previewStart m++s = previewStart n++t) : m = n ∧ s = t := by
  have hform : ∀ (k : ℕ) (r : List Char), previewStart k++r = "pr-".toList++((toString k).toList++ '-'::r) := by
    intro k r
    rw [previewStart_nat, List.append_assoc, List.append_assoc, List.singleton_append]
  rw [hform, hform, List.append_cancel_left_eq] at h
  have hdigits : ∀ k : ℕ, '-' ∉ (toString k).toList :=
    fun k hc => (digit_label (FixedDigits.isDigit_of_mem_toString k _ hc)).2 rfl
  obtain ⟨hnumber,hslug⟩ := SeparatedParts.sep_append_inj '-' (hdigits m) (hdigits n) h
  exact ⟨toString_inj (String.toList_injective hnumber),hslug⟩

theorem previewStart_head (m : ℕ) (s : List Char) : (previewStart m++s).head? = some 'p' := by
  rw [previewStart_nat, List.append_assoc, List.head?_append_of_ne_nil _ (by decide +kernel)]
  decide +kernel

/-! ## Projects -/

/-- A project whose production host is a valid name, and its open pull requests. -/
structure App where
  project : Project
  labels : List (List Char)
  valid : ValidName labels
  host : project.productionUrl.bind (fun url => PreviewEnv.fqdnFromUrl url.toList) = some (dotted labels)
  pulls : List ℕ
  numbers : ∀ n ∈ pulls, 0 < n ∧ n < 2^63

/-- Projects with distinct production hosts. -/
structure Projects where
  apps : List App
  distinct : ∀ a ∈ apps, ∀ b ∈ apps, a.labels = b.labels → a = b

namespace App
variable (a : App)

def first : List Char := a.labels.headD []

def rest : List (List Char) := a.labels.tail

/-- The host is a zone of its own. -/
def Apex : Prop := a.labels.length = 2 ∨ canonicalApex (apexOf a.project) = some (dotted a.labels)

/-- The host is `www` in a zone. -/
def Www : Prop := a.first = www ∧ (a.labels.length = 3 ∨ canonicalApex (apexOf a.project) = some (dotted a.rest))

instance : Decidable a.Apex := inferInstanceAs (Decidable (_ ∨ _))

instance : Decidable a.Www := inferInstanceAs (Decidable (_ ∧ _))

/-- The zone of the derived hosts. -/
def zone : List (List Char) := if a.Apex then a.labels else a.rest

def devLabel : List Char := if a.Apex ∨ a.Www then "dev".toList else "dev-".toList++a.first

def slug : List Char :=
  if (slugify (slugOf a.project)).isEmpty then slugify a.first else slugify (slugOf a.project)

/-- What of the slug has room in the label of a preview. -/
def slugPart (n : ℕ) : List Char := trimHyphens (a.slug.take (63-(previewStart n).length))

def previewLabel (n : ℕ) : List Char := previewStart n++a.slugPart n

theorem labels_eq : a.labels = a.first::a.rest := by
  have hne := a.valid.ne_nil
  unfold first rest
  cases hl : a.labels with
  | nil => exact absurd hl hne
  | cons l ls => rfl

theorem rest_ne_nil : a.rest ≠ [] := by
  intro hnil
  have htwo := a.valid.two
  rw [a.labels_eq, hnil, List.length_singleton] at htwo
  omega

theorem first_valid : ValidLabel a.first := a.valid.each a.first (by rw [a.labels_eq]; exact List.mem_cons_self)

theorem dotted_labels : dotted a.labels = a.first++ '.'::dotted a.rest := by
  rw [a.labels_eq, dotted_cons _ a.rest_ne_nil]

theorem zone_valid : (∀ l ∈ a.zone, ValidLabel l) ∧ a.zone ≠ [] := by
  unfold zone
  split
  · exact ⟨a.valid.each,a.valid.ne_nil⟩
  · exact ⟨fun l hl => a.valid.each l (List.mem_of_mem_tail hl),a.rest_ne_nil⟩

theorem dotted_derived (l : List Char) : dotted (l::a.zone) = l++ '.'::dotted a.zone := dotted_cons l a.zone_valid.2

theorem hostLabels_eq : hostLabels (dotted a.labels) = some a.labels :=
  hostLabels_dotted a.valid.each a.valid.ne_nil a.valid.two

theorem canonical_eq : canonical (dotted a.labels) = dotted a.labels := canonical_dotted a.valid.each a.valid.ne_nil

/-- The dev host stands one level under the zone. -/
theorem devFqdn_eq : devFqdn (dotted a.labels) (apexOf a.project) = some (dotted (a.devLabel::a.zone)) := by
  have happ : ∀ t : List Char, "dev.".toList++t = "dev".toList++ '.'::t := fun t => rfl
  have hapex : (a.labels.length = 2 || canonicalApex (apexOf a.project) = some (dotted a.labels)) = decide a.Apex :=
    (Bool.decide_or _ _).symm
  have hwww : (a.labels.headD [] = www && (a.labels.length = 3 ||
      canonicalApex (apexOf a.project) = some (dotted a.labels.tail))) = decide a.Www := by
    rw [← Bool.decide_or, ← Bool.decide_and]
    rfl
  rw [dotted_derived, devFqdn, canonical_eq, hostLabels_eq, Option.map_some]
  dsimp only
  rw [hapex, hwww, zone, devLabel]
  by_cases h : a.Apex
  · rw [if_pos (decide_eq_true h), if_pos h, if_pos (.inl h), happ]
  · rw [if_neg (by simpa using h), if_neg h]
    by_cases hw : a.Www
    · rw [if_pos (decide_eq_true hw), if_pos (.inr hw), happ]
      rfl
    · rw [if_neg (by simpa using hw), if_neg (not_or.mpr ⟨h,hw⟩), List.append_assoc]
      rfl

theorem devLabel_chars : ∀ c ∈ a.devLabel, labelChar c = true := by
  have hall : "dev".toList.all labelChar = true ∧ "dev-".toList.all labelChar = true := by decide +kernel
  unfold devLabel
  split
  · exact List.all_eq_true.mp hall.1
  · intro c hc
    obtain hc | hc := List.mem_append.mp hc
    · exact List.all_eq_true.mp hall.2 c hc
    · exact a.first_valid.chars c hc

theorem devHostFor_eq : devHostFor a.project = some (dotted (a.devLabel::a.zone)) := by
  have hchars : ∀ c ∈ dotted (a.devLabel::a.zone), hostChar c = true := by
    apply dotted_chars
    intro l hl
    obtain rfl | hl := List.mem_cons.mp hl
    · exact a.devLabel_chars
    · exact (a.zone_valid.1 l hl).chars
  have hdot : '.' ∈ dotted (a.devLabel::a.zone) := by
    rw [dotted_derived]
    exact List.mem_append_right _ List.mem_cons_self
  rw [devHostFor, devUrlFor, a.host, Option.bind_some, devFqdn_eq, Option.map_some, Option.bind_some]
  exact fqdnFromUrl_https ⟨dotted (a.devLabel::a.zone),hchars,hdot⟩

theorem slug_ok : SlugOk a.slug ∧ a.slug ≠ [] := by
  unfold slug
  split
  · exact ⟨slugify_ok _,slugify_label a.first_valid⟩
  · next hne => exact ⟨slugify_ok _,fun hnil => hne (List.isEmpty_iff.mpr hnil)⟩

theorem slugPart_ok {n : ℕ} (hn : n < 2^63) : a.slugPart n ≠ [] ∧ SlugOk (a.slugPart n) ∧
    (previewStart n).length+(a.slugPart n).length ≤ 63 := by
  have hstart := previewStart_length hn
  obtain ⟨hne,hok,hle⟩ := slug_part a.slug_ok.1 a.slug_ok.2 (63-(previewStart n).length) (by omega)
  exact ⟨hne,hok,by unfold slugPart; omega⟩

theorem previewLabel_last {n : ℕ} (hn : n < 2^63) : (a.previewLabel n).getLast? ≠ some '-' := by
  rw [previewLabel, List.getLast?_append_of_ne_nil _ (a.slugPart_ok hn).1]
  exact trimHyphens_last

theorem previewLabel_valid {n : ℕ} (hn : n < 2^63) : ValidLabel (a.previewLabel n) := by
  obtain ⟨hne,hok,hle⟩ := a.slugPart_ok hn
  constructor
  · exact fun hnil => hne (List.append_eq_nil_iff.mp hnil).2
  · rw [previewLabel, List.length_append]
    exact hle
  · intro c hc
    obtain hc | hc := List.mem_append.mp hc
    · exact previewStart_chars n c hc
    · exact hok.chars c hc
  · rw [previewLabel, previewStart_head]
    decide
  · exact a.previewLabel_last hn

/-- The host of a preview stands one level under the zone. -/
theorem previewHostFor_eq {n : ℕ} (hn : 0 < n ∧ n < 2^63) :
    previewHostFor a.project n = some (dotted (a.previewLabel n::a.zone)) := by
  have hapex : (a.labels.length = 2 || canonicalApex (apexOf a.project) = some (dotted a.labels)) = decide a.Apex :=
    (Bool.decide_or _ _).symm
  have hself : trimHyphens (a.previewLabel n) = a.previewLabel n := by
    rw [trimHyphens, List.rdropWhile_eq_self_iff]
    intro hne hc
    rw [decide_eq_true_eq] at hc
    apply a.previewLabel_last hn.2
    rw [List.getLast?_eq_some_getLast hne, hc]
  have hzone : (if decide a.Apex then dotted a.labels else dotted a.labels.tail) = dotted a.zone := by
    unfold zone
    by_cases h : a.Apex
    · rw [if_pos h, if_pos (decide_eq_true h)]
    · rw [if_neg h, if_neg (by simpa using h)]
      rfl
  rw [previewHostFor, a.host, Option.bind_some, previewFqdn, if_neg (by omega), canonical_eq, hostLabels_eq,
    Option.map_some]
  dsimp only
  rw [hapex, hzone, dotted_derived]
  show some (trimHyphens (a.previewLabel n)++_) = _
  rw [hself]

theorem devLabel_cases : (a.Apex ∨ a.Www) ∧ a.devLabel = "dev".toList ∨
    ¬a.Apex ∧ ¬a.Www ∧ a.devLabel = "dev-".toList++a.first := by
  unfold devLabel
  by_cases h : a.Apex ∨ a.Www
  · exact .inl ⟨h,if_pos h⟩
  · exact .inr ⟨fun ha => h (.inl ha),fun hw => h (.inr hw),if_neg h⟩

theorem devLabel_head : a.devLabel.head? = some 'd' := by
  obtain ⟨-,h⟩ | ⟨-,-,h⟩ := a.devLabel_cases
  · rw [h]
    decide +kernel
  · rw [h, List.head?_append_of_ne_nil _ (by decide +kernel)]
    decide +kernel

theorem zone_of_apex (h : a.Apex) : a.zone = a.labels := if_pos h

theorem zone_of_not_apex (h : ¬a.Apex) : a.zone = a.rest := if_neg h

theorem derived_two (l : List Char) : 2 ≤ (l::a.zone).length := by
  have hpos := List.length_pos_iff.mpr a.zone_valid.2
  rw [List.length_cons]
  omega

/-- The length of the dev host. -/
theorem devHost_length : (dotted (a.devLabel::a.zone)).length =
    if ¬a.Apex ∧ a.Www then (dotted a.labels).length else (dotted a.labels).length+4 := by
  have hdev : "dev".toList.length = 3 := by decide +kernel
  have hregular : "dev-".toList.length = 4 := by decide +kernel
  have hlabels : (dotted a.labels).length = a.first.length+((dotted a.rest).length+1) := by
    rw [dotted_labels, List.length_append, List.length_cons]
  rw [dotted_derived, List.length_append, List.length_cons]
  obtain ⟨h,hlabel⟩ | ⟨ha,hw,hlabel⟩ := a.devLabel_cases
  · by_cases ha : a.Apex
    · rw [if_neg (fun hc => hc.1 ha), hlabel, a.zone_of_apex ha, hdev]
      omega
    · have hw : a.Www := h.resolve_left ha
      have hwww : a.first.length = 3 := by
        rw [hw.1]
        decide +kernel
      rw [if_pos ⟨ha,hw⟩, hlabel, a.zone_of_not_apex ha, hdev]
      omega
  · rw [if_neg (fun hc => hw hc.2), hlabel, a.zone_of_not_apex ha, List.length_append, hregular]
    omega

end App

/-! ## Instances -/

inductive Instance where
  | production (a : App)
  | dev (a : App)
  | preview (a : App) (n : ℕ)

namespace Instance

def host : Instance → Option (List Char)
  | production a => a.project.productionUrl.bind (fun url => PreviewEnv.fqdnFromUrl url.toList)
  | dev a => devHostFor a.project
  | preview a n => previewHostFor a.project n

def Of (ps : Projects) : Instance → Prop
  | production a => a ∈ ps.apps
  | dev a => a ∈ ps.apps
  | preview a n => a ∈ ps.apps ∧ n ∈ a.pulls

def labels : Instance → List (List Char)
  | production a => a.labels
  | dev a => a.devLabel::a.zone
  | preview a n => a.previewLabel n::a.zone

variable {ps : Projects} {i j : Instance}

theorem host_eq (h : i.Of ps) : i.host = some (dotted i.labels) := by
  cases i with
  | production a => exact a.host
  | dev a => exact a.devHostFor_eq
  | preview a n => exact a.previewHostFor_eq (a.numbers n h.2)

theorem labels_ne_nil : i.labels ≠ [] := by
  cases i with
  | production a => exact a.valid.ne_nil
  | dev a => exact List.cons_ne_nil _ _
  | preview a n => exact List.cons_ne_nil _ _

theorem labels_no_dot (h : i.Of ps) : ∀ l ∈ i.labels, '.' ∉ l := by
  intro l hl
  cases i with
  | production a => exact (a.valid.each l hl).no_dot
  | dev a =>
    obtain rfl | hl := List.mem_cons.mp hl
    · exact fun hc => (labelChar_iff.mp (a.devLabel_chars '.' hc)).2 rfl
    · exact (a.zone_valid.1 l hl).no_dot
  | preview a n =>
    obtain rfl | hl := List.mem_cons.mp hl
    · exact (a.previewLabel_valid (a.numbers n h.2).2).no_dot
    · exact (a.zone_valid.1 l hl).no_dot

/-- Hosts are the same when their labels are. -/
theorem host_inj (hi : i.Of ps) (hj : j.Of ps) : i.host = j.host ↔ i.labels = j.labels := by
  rw [host_eq hi, host_eq hj, Option.some_inj]
  exact ⟨dotted_inj (labels_no_dot hi) (labels_no_dot hj) labels_ne_nil labels_ne_nil,congrArg dotted⟩

end Instance

/-- No host is given twice, and each derived host is a name right under its zone. -/
structure Apart (ps : Projects) : Prop where
  distinct : ∀ i j : Instance, i.Of ps → j.Of ps → i.host = j.host → i = j
  dev : ∀ a ∈ ps.apps, ∃ l, devHostFor a.project = some (dotted (l::a.zone)) ∧ ValidName (l::a.zone)
  preview : ∀ a ∈ ps.apps, ∀ n ∈ a.pulls, ∃ l,
    previewHostFor a.project n = some (dotted (l::a.zone)) ∧ ValidName (l::a.zone)

/-- Names leave room for what is put in front, no name is one of a dev or preview instance, no zone has its `www`
as another project, and projects in a zone have slugs of their own. -/
structure Clear (ps : Projects) : Prop where
  devLabel : ∀ a ∈ ps.apps, ¬a.Apex → ¬a.Www → a.first.length ≤ 59
  devLength : ∀ a ∈ ps.apps, a.Apex ∨ ¬a.Www → (dotted a.labels).length ≤ 249
  previewLength : ∀ a ∈ ps.apps, ∀ n ∈ a.pulls, (a.previewLabel n).length+1+(dotted a.zone).length ≤ 253
  twins : ∀ a ∈ ps.apps, ∀ b ∈ ps.apps, a.Apex → ¬b.Apex → b.Www → b.rest ≠ a.labels
  slugs : ∀ a ∈ ps.apps, ∀ b ∈ ps.apps, ∀ n ∈ a.pulls, n ∈ b.pulls → a.zone = b.zone → a.slugPart n = b.slugPart n → a = b
  taken : ∀ a ∈ ps.apps, ∀ b ∈ ps.apps, a.rest = b.zone →
    a.first ≠ b.devLabel ∧ ∀ n ∈ b.pulls, a.first ≠ b.previewLabel n

section
variable {ps : Projects}

theorem valid_of_derived {a : App} {i : Instance} (hi : i.Of ps) {l label : List Char}
    (hlabels : i.labels = label::a.zone) (hhost : i.host = some (dotted (l::a.zone))) (hvalid : ValidName (l::a.zone)) :
    ValidName (label::a.zone) := by
  have hdot : dotted (label::a.zone) = dotted (l::a.zone) := by
    rw [Instance.host_eq hi, hlabels] at hhost
    exact Option.some.inj hhost
  have hlabel : ∀ m ∈ label::a.zone, '.' ∉ m := hlabels ▸ Instance.labels_no_dot hi
  rw [dotted_inj hlabel (fun m hm => (hvalid.each m hm).no_dot) (List.cons_ne_nil _ _) (List.cons_ne_nil _ _) hdot]
  exact hvalid

theorem clear_of_apart (h : Apart ps) : Clear ps := by
  have hdev : ∀ a ∈ ps.apps, ValidName (a.devLabel::a.zone) := by
    intro a ha
    obtain ⟨l,hhost,hvalid⟩ := h.dev a ha
    exact valid_of_derived (i := .dev a) ha rfl hhost hvalid
  constructor
  · intro a ha hapex hwww
    have hshort := ((hdev a ha).each a.devLabel List.mem_cons_self).short
    have hregular : "dev-".toList.length = 4 := by decide +kernel
    obtain ⟨hor,-⟩ | ⟨-,-,hlabel⟩ := a.devLabel_cases
    · exact absurd hor (not_or.mpr ⟨hapex,hwww⟩)
    · rw [hlabel, List.length_append, hregular] at hshort
      omega
  · intro a ha hcase
    have hshort := (hdev a ha).short
    rw [a.devHost_length, if_neg (fun hc => hcase.elim hc.1 (fun hw => hw hc.2))] at hshort
    omega
  · intro a ha n hn
    obtain ⟨l,hhost,hvalid⟩ := h.preview a ha n hn
    have hshort := (valid_of_derived (i := .preview a n) ⟨ha,hn⟩ rfl hhost hvalid).short
    rw [a.dotted_derived, List.length_append, List.length_cons] at hshort
    omega
  · intro a ha b hb hapex hnot hwww heq
    have hlabels : (Instance.dev a).labels = (Instance.dev b).labels := by
      obtain ⟨-,hla⟩ | ⟨hna,-,-⟩ := a.devLabel_cases
      · obtain ⟨-,hlb⟩ | ⟨-,hnw,-⟩ := b.devLabel_cases
        · show a.devLabel::a.zone = b.devLabel::b.zone
          rw [hla, hlb, a.zone_of_apex hapex, b.zone_of_not_apex hnot, heq]
        · exact absurd hwww hnw
      · exact absurd hapex hna
    have hsame := h.distinct (.dev a) (.dev b) ha hb ((Instance.host_inj (i := .dev a) (j := .dev b) ha hb).mpr hlabels)
    rw [Instance.dev.inj hsame] at hapex
    exact hnot hapex
  · intro a ha b hb n hna hnb hzone hslug
    have hlabels : (Instance.preview a n).labels = (Instance.preview b n).labels := by
      show (previewStart n++a.slugPart n)::a.zone = (previewStart n++b.slugPart n)::b.zone
      rw [hzone, hslug]
    have hsame := h.distinct (.preview a n) (.preview b n) ⟨ha,hna⟩ ⟨hb,hnb⟩
      ((Instance.host_inj (i := .preview a n) (j := .preview b n) ⟨ha,hna⟩ ⟨hb,hnb⟩).mpr hlabels)
    exact (Instance.preview.inj hsame).1
  · intro a ha b hb hzone
    constructor
    · intro hfirst
      have hlabels : (Instance.production a).labels = (Instance.dev b).labels := by
        show a.labels = b.devLabel::b.zone
        rw [a.labels_eq, hfirst, hzone]
      have hsame := h.distinct (.production a) (.dev b) ha hb
        ((Instance.host_inj (i := .production a) (j := .dev b) ha hb).mpr hlabels)
      cases hsame
    · intro n hn hfirst
      have hlabels : (Instance.production a).labels = (Instance.preview b n).labels := by
        show a.labels = b.previewLabel n::b.zone
        rw [a.labels_eq, hfirst, hzone]
      have hsame := h.distinct (.production a) (.preview b n) ha ⟨hb,hn⟩
        ((Instance.host_inj (i := .production a) (j := .preview b n) ha ⟨hb,hn⟩).mpr hlabels)
      cases hsame

variable (h : Clear ps)
include h

/-- Two projects with one dev host are a zone and its `www`. -/
theorem dev_apart {a b : App} (ha : a ∈ ps.apps) (hb : b ∈ ps.apps) (heq : a.devLabel::a.zone = b.devLabel::b.zone) :
    a = b := by
  obtain ⟨hlabel,hzone⟩ := List.cons.inj heq
  have hne : ∀ l, "dev".toList ≠ "dev-".toList++l := by
    intro l hc
    have hlength := congrArg List.length hc
    have hdev : "dev".toList.length = 3 := by decide +kernel
    have hregular : "dev-".toList.length = 4 := by decide +kernel
    rw [List.length_append, hdev, hregular] at hlength
    omega
  apply ps.distinct a ha b hb
  by_cases haa : a.Apex
  · by_cases hba : b.Apex
    · rwa [a.zone_of_apex haa, b.zone_of_apex hba] at hzone
    · rw [a.zone_of_apex haa, b.zone_of_not_apex hba] at hzone
      obtain ⟨hor,-⟩ | ⟨-,-,hlb⟩ := b.devLabel_cases
      · exact absurd hzone.symm (h.twins a ha b hb haa hba (hor.resolve_left hba))
      · obtain ⟨-,hla⟩ | ⟨hna,-,-⟩ := a.devLabel_cases
        · exact absurd (hla.symm.trans (hlabel.trans hlb)) (hne _)
        · exact absurd haa hna
  · by_cases hba : b.Apex
    · rw [a.zone_of_not_apex haa, b.zone_of_apex hba] at hzone
      obtain ⟨hor,-⟩ | ⟨-,-,hla⟩ := a.devLabel_cases
      · exact absurd hzone (h.twins b hb a ha hba haa (hor.resolve_left haa))
      · obtain ⟨-,hlb⟩ | ⟨hnb,-,-⟩ := b.devLabel_cases
        · exact absurd (hlb.symm.trans (hlabel.symm.trans hla)) (hne _)
        · exact absurd hba hnb
    · rw [a.zone_of_not_apex haa, b.zone_of_not_apex hba] at hzone
      have hfirst : a.first = b.first := by
        obtain ⟨hoa,hla⟩ | ⟨-,-,hla⟩ := a.devLabel_cases
        · obtain ⟨hob,-⟩ | ⟨-,-,hlb⟩ := b.devLabel_cases
          · exact (hoa.resolve_left haa).1.trans (hob.resolve_left hba).1.symm
          · exact absurd (hla.symm.trans (hlabel.trans hlb)) (hne _)
        · obtain ⟨-,hlb⟩ | ⟨-,-,hlb⟩ := b.devLabel_cases
          · exact absurd (hlb.symm.trans (hlabel.symm.trans hla)) (hne _)
          · exact List.append_cancel_left (hla.symm.trans (hlabel.trans hlb))
      rw [a.labels_eq, b.labels_eq, hfirst, hzone]

theorem devLabel_valid {a : App} (ha : a ∈ ps.apps) : ValidLabel a.devLabel := by
  have hregular : "dev-".toList.length = 4 := by decide +kernel
  constructor
  · intro hnil
    have hhead := a.devLabel_head
    rw [hnil] at hhead
    cases hhead
  · obtain ⟨-,hlabel⟩ | ⟨hna,hnw,hlabel⟩ := a.devLabel_cases
    · rw [hlabel]
      decide +kernel
    · have hle := h.devLabel a ha hna hnw
      rw [hlabel, List.length_append, hregular]
      omega
  · exact a.devLabel_chars
  · rw [a.devLabel_head]
    decide
  · obtain ⟨-,hlabel⟩ | ⟨-,-,hlabel⟩ := a.devLabel_cases
    · rw [hlabel]
      decide +kernel
    · rw [hlabel, List.getLast?_append_of_ne_nil _ a.first_valid.nonempty]
      exact a.first_valid.last

/-- No production host is derived from another. -/
theorem production_apart {a b : App} (ha : a ∈ ps.apps) (hb : b ∈ ps.apps) :
    a.labels ≠ b.devLabel::b.zone ∧ ∀ n ∈ b.pulls, a.labels ≠ b.previewLabel n::b.zone := by
  rw [a.labels_eq]
  constructor
  · intro heq
    obtain ⟨hfirst,hzone⟩ := List.cons.inj heq
    exact (h.taken a ha b hb hzone).1 hfirst
  · intro n hn heq
    obtain ⟨hfirst,hzone⟩ := List.cons.inj heq
    exact (h.taken a ha b hb hzone).2 n hn hfirst

theorem preview_apart {a b : App} {m n : ℕ} (ha : a ∈ ps.apps ∧ m ∈ a.pulls) (hb : b ∈ ps.apps ∧ n ∈ b.pulls)
    (heq : a.previewLabel m::a.zone = b.previewLabel n::b.zone) : a = b ∧ m = n := by
  obtain ⟨hlabel,hzone⟩ := List.cons.inj heq
  obtain ⟨rfl,hslug⟩ := previewStart_inj hlabel
  exact ⟨h.slugs a ha.1 b hb.1 m ha.2 hb.2 hzone hslug,rfl⟩

theorem apart_of_clear : Apart ps := by
  have hother : ∀ (a b : App) (n : ℕ), a.devLabel ≠ b.previewLabel n := by
    intro a b n hc
    have hhead := a.devLabel_head
    rw [hc, App.previewLabel, previewStart_head] at hhead
    exact absurd hhead (by decide)
  constructor
  · intro i j hi hj heq
    rw [Instance.host_inj hi hj] at heq
    cases i with
    | production a =>
      cases j with
      | production b => rw [ps.distinct a hi b hj heq]
      | dev b => exact absurd heq (production_apart h hi hj).1
      | preview b n => exact absurd heq ((production_apart h hi hj.1).2 n hj.2)
    | dev a =>
      cases j with
      | production b => exact absurd heq.symm (production_apart h hj hi).1
      | dev b => rw [dev_apart h hi hj heq]
      | preview b n => exact absurd (List.cons.inj heq).1 (hother a b n)
    | preview a m =>
      cases j with
      | production b => exact absurd heq.symm ((production_apart h hj hi.1).2 m hi.2)
      | dev b => exact absurd (List.cons.inj heq).1.symm (hother b a m)
      | preview b n =>
        obtain ⟨rfl,rfl⟩ := preview_apart h hi hj heq
        rfl
  · intro a ha
    refine ⟨a.devLabel,a.devHostFor_eq,a.derived_two _,?_,?_⟩
    · intro l hl
      obtain rfl | hl := List.mem_cons.mp hl
      · exact devLabel_valid h ha
      · exact a.zone_valid.1 l hl
    · rw [a.devHost_length]
      split
      · exact a.valid.short
      · next hcase =>
        have hle := h.devLength a ha (by rwa [not_and_or, not_not] at hcase)
        omega
  · intro a ha n hn
    refine ⟨a.previewLabel n,a.previewHostFor_eq (a.numbers n hn),a.derived_two _,?_,?_⟩
    · intro l hl
      obtain rfl | hl := List.mem_cons.mp hl
      · exact a.previewLabel_valid (a.numbers n hn).2
      · exact a.zone_valid.1 l hl
    · have hle := h.previewLength a ha n hn
      rw [a.dotted_derived, List.length_append, List.length_cons]
      omega

end

/-- All hosts are apart and valid exactly when no name of a project is in the way. -/
theorem apart_iff_clear (ps : Projects) : Apart ps ↔ Clear ps := ⟨clear_of_apart,apart_of_clear⟩

/-! ## A project named after a dev instance -/

def checkLabel (l : List Char) : Bool :=
  !l.isEmpty && l.length ≤ 63 && l.all labelChar && l.head? ≠ some '-' && l.getLast? ≠ some '-'

theorem validLabel_of_check {l : List Char} (h : checkLabel l = true) : ValidLabel l := by
  simp only [checkLabel, Bool.and_eq_true, Bool.not_eq_true', decide_eq_true_eq] at h
  obtain ⟨⟨⟨⟨hne,hshort⟩,hchars⟩,hfirst⟩,hlast⟩ := h
  exact ⟨List.isEmpty_eq_false_iff.mp hne,hshort,List.all_eq_true.mp hchars,hfirst,hlast⟩

theorem validName_of_check {ls : List (List Char)} (htwo : 2 ≤ ls.length) (h : ls.all checkLabel = true)
    (hshort : (dotted ls).length ≤ 253) : ValidName ls :=
  ⟨htwo,fun l hl => validLabel_of_check (List.all_eq_true.mp h l hl),hshort⟩

def shop : App where
  project := ⟨some "https://shop.jeser.app","jeser.app","shop","Shop"⟩
  labels := ["shop".toList,"jeser".toList,"app".toList]
  valid := validName_of_check (by decide) (by decide +kernel) (by decide +kernel)
  host := by decide +kernel
  pulls := []
  numbers := fun _ h => absurd h List.not_mem_nil

def devShop : App where
  project := ⟨some "https://dev-shop.jeser.app","jeser.app","dev-shop","Dev shop"⟩
  labels := ["dev-shop".toList,"jeser".toList,"app".toList]
  valid := validName_of_check (by decide) (by decide +kernel) (by decide +kernel)
  host := by decide +kernel
  pulls := []
  numbers := fun _ h => absurd h List.not_mem_nil

def shops : Projects where
  apps := [shop,devShop]
  distinct := by
    have hne : shop.labels ≠ devShop.labels := by decide +kernel
    intro a ha b hb heq
    obtain rfl | rfl := List.mem_pair.mp ha
    · obtain rfl | rfl := List.mem_pair.mp hb
      · rfl
      · exact absurd heq hne
    · obtain rfl | rfl := List.mem_pair.mp hb
      · exact absurd heq.symm hne
      · rfl

/-- The dev instance of one project has the production host of the other. -/
theorem dev_takes_production : devHostFor shop.project = (Instance.production devShop).host ∧ ¬Apart shops := by
  have hfirst : devShop.first = shop.devLabel := by decide +kernel
  have hrest : devShop.rest = shop.zone := by decide +kernel
  constructor
  · rw [shop.devHostFor_eq, ← hfirst, ← hrest, ← devShop.labels_eq]
    exact devShop.host.symm
  · intro h
    exact ((clear_of_apart h).taken devShop (List.mem_pair.mpr (.inr rfl)) shop List.mem_cons_self hrest).1 hfirst

end DevForge.HostsApart
