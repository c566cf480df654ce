import DevForge.SpecLifecycle
import Mathlib.Data.List.Chain

/-!
# Names of specs

A slug is made of words of small letters and digits with one dash between
them. Every title has one. A spec gets the slug of its title, or the slug with
a number from 2 to 49 where it is taken; when all of these are taken the spec
is refused.
-/

set_option autoImplicit false

namespace DevForge.SlugNames
open SpecLifecycle

def Spaced (a b : Char) : Prop := ¬(a = '-' ∧ b = '-')

/-- What a text that becomes a slug is so far. -/
structure SlugText (out : List Char) : Prop where
  chars : ∀ c ∈ out, isSlugChar c = true
  spaced : out.IsChain Spaced
  first : out.head? ≠ some '-'
  short : out.length ≤ 48

/-! ## Accepted slugs -/

theorem isSlugChar_ascii {c : Char} (h : isSlugChar c = true) : c.utf8Size = 1 := by
  rw [Char.utf8Size_eq_one_iff]
  simp only [isSlugChar, Bool.or_eq_true, Bool.and_eq_true, decide_eq_true_eq, Char.le_def] at h
  rcases h with (h | h) | rfl
  · exact UInt32.le_trans h.2 (by decide)
  · exact UInt32.le_trans h.2 (by decide)
  · decide

theorem size_slug {cs : List Char} (h : ∀ c ∈ cs, isSlugChar c = true) :
    (String.ofList cs).utf8ByteSize = cs.length := by
  induction cs with
  | nil => rfl
  | cons c cs ih =>
    have hs : (String.singleton c).utf8ByteSize = c.utf8Size := by simp
    rw [String.ofList_cons, String.utf8ByteSize_append, hs, isSlugChar_ascii (h c (by simp)),
      ih (fun d hd => h d (by simp [hd])), List.length_cons, Nat.add_comm]

theorem isSlug_of_text {cs : List Char} (h : SlugText cs) (hne : cs ≠ [])
    (hlast : cs.getLast? ≠ some '-') : isSlug (String.ofList cs) = true := by
  have hempty : String.ofList cs ≠ "" := by
    intro heq
    have hl := congrArg String.toList heq
    rw [String.toList_ofList] at hl
    exact hne hl
  have hstart : DraftFiles.startsWith (String.ofList cs) "-" = false := by
    rw [Bool.eq_false_iff]
    intro hs
    rw [DraftFiles.startsWith, String.toList_ofList, List.isPrefixOf_iff_prefix] at hs
    obtain ⟨t,ht⟩ := hs
    rw [String.toList_ofList] at ht
    exact h.first (by rw [← ht]; rfl)
  have hend : DraftFiles.endsWith (String.ofList cs) "-" = false := by
    rw [Bool.eq_false_iff]
    intro hs
    rw [DraftFiles.endsWith, String.toList_ofList, List.isSuffixOf_iff_suffix] at hs
    obtain ⟨t,ht⟩ := hs
    rw [String.toList_ofList] at ht
    apply hlast
    rw [← ht]
    exact List.getLast?_concat
  have hdouble : ToolArguments.contains (String.ofList cs) "--" = false := by
    rw [Bool.eq_false_iff]
    intro hs
    rw [ToolArguments.contains, String.toList_ofList, List.any_eq_true] at hs
    obtain ⟨t,ht,hp⟩ := hs
    have hin : ['-','-'] <:+: cs :=
      (List.isPrefixOf_iff_prefix.mp hp).isInfix.trans ((List.mem_tails _ _).mp ht).isInfix
    have hchain := h.spaced.infix hin
    rw [List.isChain_cons_cons] at hchain
    exact hchain.1 ⟨rfl,rfl⟩
  unfold isSlug
  rw [String.toList_ofList, size_slug h.chars, hstart, hend, hdouble, List.all_eq_true.mpr h.chars,
    decide_eq_true h.short, decide_eq_true hempty]
  rfl

/-! ## The slug of a title -/

theorem SlugText.concat {out : List Char} (h : SlugText out) (hlen : out.length < 48) {c : Char}
    (hc : isSlugChar c = true) (hd : c = '-' → out ≠ [] ∧ out.getLast? ≠ some '-') :
    SlugText (out++[c]) := by
  constructor
  · intro d hd
    rcases List.mem_append.mp hd with hd | hd
    · exact h.chars d hd
    · rw [List.mem_singleton.mp hd]
      exact hc
  · rw [List.isChain_append]
    refine ⟨h.spaced,List.isChain_singleton c,?_⟩
    intro a ha b hb hab
    rw [List.head?_cons, Option.mem_some_iff] at hb
    rw [hab.1] at ha
    exact (hd (hb.trans hab.2)).2 ha
  · cases out with
    | nil =>
      intro hf
      exact (hd (Option.some.inj hf)).1 rfl
    | cons d out => exact h.first
  · rw [List.length_append, List.length_singleton]
    exact hlen

/-- Letters and digits are kept, and a dash only follows one of them. -/
theorem slugChars_text (L : Letters) (cs out : List Char) (prevDash : Bool) (h : SlugText out)
    (hlen : out.length < 48) (hdash : out.getLast? = some '-' → prevDash = true) :
    SlugText (slugChars L cs out prevDash) := by
  induction cs generalizing out prevDash with
  | nil => exact h
  | cons c cs ih =>
    rw [slugChars]
    generalize withoutAccent (L.lower c) = d
    by_cases hkeep : (('a' ≤ d && d ≤ 'z') || ('0' ≤ d && d ≤ '9')) = true
    · have hchar : isSlugChar d = true := by
        rw [isSlugChar, hkeep]
        rfl
      have hne : d ≠ '-' := by
        rintro rfl
        exact absurd hkeep (by decide)
      have hnew := h.concat hlen hchar (fun hd => absurd hd hne)
      rw [if_pos hkeep, if_pos hkeep]
      split
      · exact hnew
      · apply ih (out++[d]) false hnew (by omega)
        intro hl
        rw [List.getLast?_concat] at hl
        exact absurd (Option.some.inj hl) hne
    · rw [if_neg hkeep, if_neg hkeep, Bool.eq_false_iff.mpr hkeep]
      by_cases hput : (!false && !prevDash && decide (out ≠ [])) = true
      · rw [if_pos hput, hput]
        simp only [Bool.not_false, Bool.true_and, Bool.and_eq_true, Bool.not_eq_true',
          decide_eq_true_eq] at hput
        have hnew := h.concat hlen (c := '-') (by decide) (fun _ => ⟨hput.2,fun hl => by
          rw [hdash hl] at hput
          cases hput.1⟩)
        split
        · exact hnew
        · exact ih _ _ hnew (by omega) (fun _ => Bool.or_true _)
      · rw [if_neg hput]
        split
        · exact h
        · apply ih out _ h hlen
          intro hl
          rw [hdash hl]
          rfl

/-- Every title has a slug that is accepted. -/
theorem slugify_isSlug (L : Letters) (title : String) : isSlug (slugify L title) = true := by
  have htext : SlugText (slugChars L title.toList [] false) :=
    slugChars_text L _ [] false ⟨by simp,List.IsChain.nil,by simp,by simp⟩ (by decide) (by simp)
  unfold slugify
  dsimp only
  split
  · decide +kernel
  · rename_i hne
    have hpre := List.rdropWhile_prefix (· = '-') (slugChars L title.toList [] false)
    apply isSlug_of_text ?_ hne
    · intro hlast
      have hnot := List.rdropWhile_last_not (· = '-') _ hne
      rw [List.getLast?_eq_some_getLast hne] at hlast
      exact hnot (decide_eq_true (Option.some.inj hlast))
    · constructor
      · exact fun c hc => htext.chars c (hpre.subset hc)
      · exact htext.spaced.prefix hpre
      · intro hf
        obtain ⟨rest,hrest⟩ := hpre
        apply htext.first
        rw [← hrest, List.head?_append, hf]
        rfl
      · exact hpre.length_le.trans htext.short

/-! ## A slug that is free -/

/-- The candidates for a base: the base, then the base with a number from 2 to 49, cut to the
length of a slug. -/
def candidates (base : String) : List String := base::(List.range' 2 48).map (candidate base)

/-- All the candidates that are slugs are taken. -/
def AllTaken (s : Store) (base : String) : Prop :=
  ∀ c ∈ candidates base, isSlug c = true → (s c).isSome = true

/-- Every title has an accepted slug; the search from it ends with an accepted slug that is free,
or with the refusal when every candidate is taken. -/
theorem slugs_found (L : Letters) (title : String) (s : Store) : isSlug (slugify L title) = true ∧
    ((∃ slug, uniqueSlug s (slugify L title) = .ok slug ∧ isSlug slug = true ∧ s slug = none) ∧
        ¬AllTaken s (slugify L title) ∨
      uniqueSlug s (slugify L title) = .error "trop de specs avec ce titre" ∧
        AllTaken s (slugify L title)) := by
  have hbase := slugify_isSlug L title
  refine ⟨hbase,?_⟩
  generalize slugify L title = base at hbase
  cases hu : uniqueSlug s base with
  | ok slug =>
    have hok := uniqueSlug_ok hu
    refine Or.inl ⟨⟨slug,rfl,hok⟩,?_⟩
    intro htaken
    have hmem : slug ∈ candidates base := by
      unfold uniqueSlug at hu
      rw [hbase, if_neg (by simp)] at hu
      split at hu
      · cases hu
        exact List.mem_cons_self
      · split at hu
        · rename_i hfind
          cases hu
          exact List.mem_cons_of_mem _ (List.mem_of_find?_eq_some hfind)
        · cases hu
    have hsome := htaken slug hmem hok.1
    rw [hok.2] at hsome
    cases hsome
  | error e =>
    unfold uniqueSlug at hu
    rw [hbase, if_neg (by simp)] at hu
    split at hu
    · cases hu
    · rename_i hb
      split at hu
      · cases hu
      · rename_i hfind
        cases hu
        refine Or.inr ⟨rfl,?_⟩
        intro c hc hslug
        rcases List.mem_cons.mp hc with rfl | hc
        · simpa [Option.isSome_iff_ne_none] using hb
        · have hno := List.find?_eq_none.mp hfind c hc
          simpa [hslug, Option.isSome_iff_ne_none] using hno

def takenStore (names : List String) : Store := fun slug =>
  if names.contains slug then some (SpecApprovals.specify slug slug 0) else none

/-- Forty-nine specs of one title, and no slug for the next. -/
theorem no_slug_left : ¬∀ (L : Letters) (title : String) (names : List String),
    ∃ slug, uniqueSlug (takenStore names) (slugify L title) = .ok slug ∧ slug ∉ names := by
  intro h
  have hslug : slugify ⟨fun _ => true,id⟩ "a" = "a" := by decide +kernel
  have herr : uniqueSlug (takenStore (candidates "a")) "a" = .error "trop de specs avec ce titre" := by
    decide +kernel
  obtain ⟨slug,hok,-⟩ := h ⟨fun _ => true,id⟩ "a" (candidates "a")
  rw [hslug, herr] at hok
  cases hok

end DevForge.SlugNames
