import DevForge.MaskedView

/-!
# URLs in a text

What is logged of a command hides the credentials of every URL in it. The scanner goes from one
`://` to the next and replaces what stands before the last `@` of the authority.
-/

set_option autoImplicit false

namespace DevForge.UrlsInText
open Dotenv Redact MaskedView

/-! ## The scanner -/

/-- What ends an authority, besides white space. -/
def stops : List Char := ['/','?','#','<','>',Char.ofNat 39,Char.ofNat 34,Char.ofNat 96]

def inUrl (c : Char) : Bool := !isWhitespace c && !stops.contains c

/-- The authority at the head of a text. -/
def authority (rest : List Char) : List Char := rest.takeWhile inUrl

/-- What is copied up to the next URL, its credentials hidden, and what is left to scan. -/
def advance (rest : List Char) : Option (List Char × List Char) :=
  (splitAtSub SEPARATOR rest).map (fun x =>
    let rest := x.2.drop 3
    match rsplitAt '@' (authority rest) with
    | some (_,host) => (x.1++SEPARATOR++MASK,host++rest.dropWhile inUrl)
    | none => (x.1++SEPARATOR,rest))

/-! ## Occurrences of the separator -/

theorem separator_eq : SEPARATOR = [':','/','/'] := by decide

/-- A text that the separator follows for the first time. -/
def First (before : List Char) : Prop := ∀ p r, before++SEPARATOR = p++SEPARATOR++r → r = []

theorem splitAtSub_least {part l a b p r : List Char} (h : splitAtSub part l = some (a,b)) (hl : l = p++r)
    (hpart : part <+: r) : a.length ≤ p.length := by
  induction l generalizing a b p with
  | nil =>
    obtain ⟨hnil,-⟩ := splitAtSub_spec h
    rw [(List.append_eq_nil_iff.mp hnil.symm).1]
    exact Nat.zero_le _
  | cons c l ih =>
    rw [splitAtSub] at h
    split at h
    · cases h
      exact Nat.zero_le _
    · next hnot =>
      obtain ⟨⟨a',b'⟩,hsplit,hform⟩ := Option.map_eq_some_iff.mp h
      cases hform
      cases p with
      | nil =>
        rw [List.nil_append] at hl
        rw [hl] at hnot
        exact absurd (List.isPrefixOf_iff_prefix.mpr hpart) hnot
      | cons d p =>
        rw [List.cons_append, List.cons.injEq] at hl
        exact Nat.succ_le_succ (ih hsplit hl.2)

theorem splitAtSub_isSome {part l p r : List Char} (hl : l = p++r) (hpart : part <+: r) :
    (splitAtSub part l).isSome = true := by
  induction l generalizing p with
  | nil =>
    obtain ⟨rfl,rfl⟩ := List.append_eq_nil_iff.mp hl.symm
    rw [List.prefix_nil.mp hpart]
    rfl
  | cons c l ih =>
    rw [splitAtSub]
    split
    · rfl
    · next hnot =>
      cases p with
      | nil =>
        rw [List.nil_append] at hl
        rw [hl] at hnot
        exact absurd (List.isPrefixOf_iff_prefix.mpr hpart) hnot
      | cons d p =>
        rw [List.cons_append, List.cons.injEq] at hl
        rw [Option.isSome_map]
        exact ih hl.2

theorem first_of_splitAtSub {t a b : List Char} (h : splitAtSub SEPARATOR t = some (a,b)) :
    First a ∧ ∃ c, t = a++SEPARATOR++c ∧ b = SEPARATOR++c := by
  obtain ⟨rfl,c,rfl⟩ := splitAtSub_spec h
  refine ⟨?_,c,(List.append_assoc _ _ _).symm,rfl⟩
  intro p r hp
  have hle := splitAtSub_least (p := p) (r := SEPARATOR++(r++c)) h (by
    rw [← List.append_assoc, hp]
    simp only [List.append_assoc]) (List.prefix_append _ _)
  have hlength := congrArg List.length hp
  simp only [List.length_append] at hlength
  exact List.length_eq_zero_iff.mp (by omega)

/-- The separator does not overlap itself: a later occurrence stands wholly behind the first. -/
theorem First.occurrence {before x p r : List Char} (h : First before) (heq : before++SEPARATOR++x = p++SEPARATOR++r) :
    p = before ∧ r = x ∨ ∃ p', p = before++SEPARATOR++p' ∧ x = p'++SEPARATOR++r := by
  obtain ⟨w,hp,hx⟩ | ⟨w,hbefore,hr⟩ := List.append_eq_append_iff.mp heq
  · -- the occurrence ends behind the first one
    rcases w with _ | ⟨c,_ | ⟨d,_ | ⟨e,w⟩⟩⟩
    · rw [List.append_nil] at hp
      exact .inl ⟨List.append_cancel_right hp,by rw [hx]; rfl⟩
    · have hreverse := congrArg List.reverse hp
      simp [separator_eq] at hreverse
    · have hreverse := congrArg List.reverse hp
      simp [separator_eq] at hreverse
    · right
      obtain ⟨p',hp',hw⟩ | ⟨v,hv,hw⟩ := List.append_eq_append_iff.mp hp.symm
      · exact ⟨p',hp',by rw [hx, hw]⟩
      · have hlength := congrArg List.length hw
        simp only [separator_eq, List.length_append, List.length_cons, List.length_nil] at hlength
        obtain rfl : v = [] := List.length_eq_zero_iff.mp (by omega)
        rw [List.append_nil] at hv
        exact ⟨[],by rw [hv, List.append_nil],by rw [hx, ← List.nil_append (c::d::e::w), ← hw]; rfl⟩
  · have hnil := h p w hbefore
    subst hnil
    rw [List.append_nil] at hbefore
    exact .inl ⟨(List.append_cancel_right hbefore).symm,by rw [hr]; rfl⟩

theorem First.splitAtSub {before : List Char} (h : First before) (x : List Char) :
    splitAtSub SEPARATOR (before++SEPARATOR++x) = some (before,SEPARATOR++x) := by
  have hsome := splitAtSub_isSome (List.append_assoc before SEPARATOR x) (List.prefix_append _ _)
  obtain ⟨⟨a,b⟩,hsplit⟩ := Option.isSome_iff_exists.mp hsome
  obtain ⟨-,c,heq,rfl⟩ := first_of_splitAtSub hsplit
  have hle := splitAtSub_least hsplit (List.append_assoc before SEPARATOR x) (List.prefix_append _ _)
  obtain ⟨rfl,rfl⟩ | ⟨p',rfl,-⟩ := h.occurrence heq
  · exact hsplit
  · have hpos : SEPARATOR.length = 3 := by decide
    simp only [List.length_append] at hle
    omega

end DevForge.UrlsInText
