import DevForge.Redact
import DevForge.DotenvRoundTrip
import DevForge.SeparatedParts
import Mathlib.Data.Bool.AllAny

/-!
# Editing a variable through its masked view

A variable is shown masked and saved again as it was shown. The stored value stays, unless what
was shown in its place is not recognised as a mask.
-/

set_option autoImplicit false

namespace DevForge.MaskedView
open Dotenv DotenvRoundTrip Redact SeparatedParts

/-! ## The store of variables -/

/-- The variables by project and key. A key is stored as `upsert` demands it. -/
structure EnvStore where
  vars : String → String → Option EnvVar
  keyed : ∀ project key var, vars project key = some var → var.key = key ∧ validKey key = true

def EnvStore.empty : EnvStore := ⟨fun _ _ => none,nofun⟩

/-- `EnvStore::upsert`. -/
def EnvStore.insert (s : EnvStore) (project : String) (var : EnvVar) : Except String (EnvVar × EnvStore) :=
  let key := trim var.key
  if hvalid : validKey key = true then
    let clean := { var with key := key }
    .ok (clean,{
      vars := fun p k => if p = project ∧ k = key then some clean else s.vars p k
      keyed := by
        intro p k v hv
        split at hv
        · next hkey =>
          cases hv
          exact ⟨hkey.2.symm,hkey.2 ▸ hvalid⟩
        · exact s.keyed p k v hv })
  else .error "clé env invalide (A-Z, 0-9, _)"

structure PublicView where
  key : String
  secret : Bool
  value : String
  hasValue : Bool
deriving DecidableEq, Repr

def publicValue (var : EnvVar) : String :=
  if var.secret then (if var.value = "" then "" else "********")
  else if isSensitiveKey var.key then maskSecret var.value
  else redactStr var.value

def publicView (var : EnvVar) : PublicView := ⟨var.key,var.secret,publicValue var,var.value ≠ ""⟩

/-- `EnvFacade::upsert`: what is answered, and the store after it. -/
def upsert (s : EnvStore) (project : String) (var : EnvVar) : Except String (PublicView × EnvStore) :=
  let written := fun var => (s.insert project var).map (fun r => (publicView r.1,r.2))
  if isMaskedPlaceholder var.value then
    match s.vars project var.key with
    | some prev => written { var with value := prev.value }
    | none => .error (var.key++": valeur masquée reçue, donne la vraie valeur")
  else written var

/-- The store after a call, which changes nothing when it fails. -/
def after (s : EnvStore) (r : Except String (PublicView × EnvStore)) : EnvStore :=
  match r with
  | .ok (_,s') => s'
  | .error _ => s

theorem trim_validKey {key : String} (h : validKey key = true) : trim key = key := by
  have hkey := trimChars_key (fun c hc => keyChar_not_space ((validKey_spec h).2 c hc))
  rw [← String.ofList_toList (s := key)]
  exact congrArg String.ofList (by rw [String.toList_ofList]; exact hkey)

/-- Saving what is shown of a stored variable: the value that is stored after it. -/
theorem saved_value {s : EnvStore} {project : String} {var : EnvVar} (h : s.vars project var.key = some var)
    (value : String) (secret previewAllowed : Bool) :
    ((after s (upsert s project ⟨var.key,value,secret,previewAllowed⟩)).vars project var.key).map EnvVar.value =
      some (if isMaskedPlaceholder value then var.value else value) := by
  have hvalid := (s.keyed project var.key var h).2
  have htrim := trim_validKey hvalid
  have hinsert : ∀ value, ((after s ((s.insert project ⟨var.key,value,secret,previewAllowed⟩).map
      (fun r => (publicView r.1,r.2)))).vars project var.key).map EnvVar.value = some value := by
    intro value
    simp [EnvStore.insert, htrim, hvalid, after, Except.map]
  unfold upsert
  dsimp only
  split
  · simp only [h]
    exact hinsert var.value
  · exact hinsert value

/-! ## Placeholders -/

/-- What marks a placeholder wherever it stands. -/
def MARKS : List (List Char) := ["••••".toList,":***@".toList,"=***".toList]

theorem marks_eq : MARKS = [['•','•','•','•'],[':','*','*','*','@'],['=','*','*','*']] := by decide +kernel

def Marked (text : List Char) : Prop := ∃ mark ∈ MARKS, mark <:+: text

theorem isMaskedPlaceholder_iff (v : List Char) : isMaskedPlaceholder (String.ofList v) = true ↔ trimChars v ≠ [] ∧
    ((∀ c ∈ trimChars v, c = '*' ∨ c = '•') ∧ 3 ≤ (trimChars v).length ∨ Marked (trimChars v) ∨
      "***@".toList <+: trimChars v ∨ ((trimChars v).splitOn ELLIPSIS).map List.length = [4,4]) := by
  simp only [isMaskedPlaceholder, String.toList_ofList, Bool.and_eq_true, Bool.or_eq_true, contains_iff,
    List.isPrefixOf_iff_prefix, decide_eq_true_eq, Bool.not_eq_true', List.isEmpty_eq_false_iff, List.all_eq_true,
    Marked, MARKS, List.mem_cons, List.not_mem_nil, or_false, exists_eq_or_imp, exists_eq_left, ELLIPSIS, or_assoc]

theorem trimChars_within (l : List Char) : trimChars l <:+: l :=
  (List.rdropWhile_prefix _ _).isInfix.trans (List.dropWhile_suffix _).isInfix

/-- A text without white space stays whole when the text around it is trimmed. -/
theorem within_trimChars {part l : List Char} (hne : part ≠ []) (hpart : ∀ c ∈ part, isWhitespace c = false)
    (h : part <:+: l) : part <:+: trimChars l := by
  obtain ⟨a,b,rfl⟩ := h
  obtain ⟨init,last,rfl⟩ : ∃ init last, part = init++[last] :=
    ⟨part.dropLast,part.getLast hne,(List.dropLast_append_getLast hne).symm⟩
  have hlast := hpart last (by simp)
  obtain ⟨a',ha'⟩ : ∃ a', (a++(init++[last])++b).dropWhile isWhitespace = a'++(init++last::b) := by
    cases init with
    | nil => exact ⟨a.dropWhile isWhitespace,by simpa using dropWhile_append_of_neg hlast a b⟩
    | cons c init =>
      have hc := hpart c (by simp)
      exact ⟨a.dropWhile isWhitespace,by simpa using dropWhile_append_of_neg hc a (init++last::b)⟩
  rw [trimChars_eq, ha', ← List.append_assoc, trimEnd_append hlast]
  exact ⟨a',trimEnd b,by simp⟩

theorem mark_spec {mark : List Char} (h : mark ∈ MARKS) :
    mark ≠ [] ∧ ELLIPSIS ∉ mark ∧ ∀ c ∈ mark, isWhitespace c = false := by
  have hall : ∀ m ∈ MARKS, m ≠ [] ∧ ELLIPSIS ∉ m ∧ (m.all fun c => !isWhitespace c) = true := by
    decide +kernel
  obtain ⟨hne,hellipsis,hchars⟩ := hall mark h
  exact ⟨hne,hellipsis,fun c hc => by simpa using List.all_eq_true.mp hchars c hc⟩

theorem placeholder_of_marked {v : List Char} (h : Marked v) : isMaskedPlaceholder (String.ofList v) = true := by
  obtain ⟨mark,hmark,hfound⟩ := h
  obtain ⟨hne,-,hchars⟩ := mark_spec hmark
  have htrim := within_trimChars hne hchars hfound
  rw [isMaskedPlaceholder_iff]
  refine ⟨?_,.inr (.inl ⟨mark,hmark,htrim⟩)⟩
  intro hnil
  rw [hnil, List.infix_nil] at htrim
  exact hne htrim

/-! ## The edges of a secret -/

section
variable {head mid tail : List Char}

theorem trimChars_edges : trimChars (head++ELLIPSIS::tail) = head.dropWhile isWhitespace++ELLIPSIS::trimEnd tail := by
  rw [trimChars_eq, dropWhile_append_of_neg (by decide), trimEnd_append (by decide)]

theorem infix_of_edges {part : List Char} (hpart : ELLIPSIS ∉ part) (h : part <:+: trimChars (head++ELLIPSIS::tail)) :
    part <:+: head++mid++tail := by
  have hedges := h.trans (trimChars_within _)
  rw [infix_append_sep ELLIPSIS hpart] at hedges
  obtain hhead | htail := hedges
  · rw [List.append_assoc]
    exact hhead.trans (List.prefix_append _ _).isInfix
  · exact htail.trans (List.suffix_append _ _).isInfix

/-- A head that a placeholder may begin with makes a placeholder of the whole secret. -/
theorem placeholder_of_userinfo (h : head = "***@".toList) :
    isMaskedPlaceholder (String.ofList (head++mid++tail)) = true := by
  have htrim : trimChars (head++mid++tail) = "***@".toList++trimEnd (mid++tail) := by
    have hform : head++mid++tail = ['*','*','*']++ '@'::(mid++tail) := by rw [h]; simp
    have hdrop : (['*','*','*']++ '@'::(mid++tail)).dropWhile isWhitespace = ['*','*','*']++ '@'::(mid++tail) :=
      List.dropWhile_cons_of_neg (by decide)
    rw [hform, trimChars_eq, hdrop]
    exact trimEnd_append (by decide) _ _
  rw [isMaskedPlaceholder_iff, htrim]
  exact ⟨by simp,.inr (.inr (.inl (List.prefix_append _ _)))⟩

/-- The two edges of a secret make a placeholder when nothing of them is trimmed and neither holds
the ellipsis. -/
theorem edges_placeholder_iff (mid : List Char) (hhead : head.length = 4) (htail : tail.length = 4)
    (hv : isMaskedPlaceholder (String.ofList (head++mid++tail)) = false) :
    isMaskedPlaceholder (String.ofList (head++ELLIPSIS::tail)) = true ↔
      head.dropWhile isWhitespace = head ∧ trimEnd tail = tail ∧ ELLIPSIS ∉ head ∧ ELLIPSIS ∉ tail := by
  have hnot : isMaskedPlaceholder (String.ofList (head++mid++tail)) ≠ true := by rw [hv]; decide
  have hdrop := (List.dropWhile_suffix (l := head) isWhitespace)
  have htake := List.rdropWhile_prefix isWhitespace tail
  rw [isMaskedPlaceholder_iff, trimChars_edges]
  constructor
  · rintro ⟨-,⟨hall,-⟩ | ⟨mark,hmark,hfound⟩ | hstart | hparts⟩
    · exact absurd (hall ELLIPSIS (by simp)) (by decide)
    · rw [← trimChars_edges] at hfound
      exact absurd (placeholder_of_marked ⟨mark,hmark,infix_of_edges (mark_spec hmark).2.1 hfound⟩) hnot
    · -- four characters without the ellipsis: they are the whole head
      obtain ⟨rest,hrest⟩ := hstart
      have hlength := hdrop.length_le
      have hhead' : head.dropWhile isWhitespace = "***@".toList := by
        obtain ⟨c,hc,-⟩ | ⟨c,hc,hrest⟩ := List.append_eq_append_iff.mp hrest
        · have hlen := congrArg List.length hc
          rw [List.length_append, show "***@".toList.length = 4 from rfl] at hlen
          have hnil : c = [] := List.length_eq_zero_iff.mp (by omega)
          rw [hc, hnil, List.append_nil]
        · cases c with
          | nil => rw [hc, List.append_nil]
          | cons e c =>
            rw [List.cons_append, List.cons.injEq] at hrest
            have hmem : e ∈ "***@".toList := hc ▸ List.mem_append_right _ List.mem_cons_self
            rw [← hrest.1] at hmem
            exact absurd hmem (by decide)
      rw [hhead'] at hdrop
      exact absurd (placeholder_of_userinfo (hdrop.eq_of_length (by rw [hhead]; rfl)).symm) hnot
    · have hjoin : [ELLIPSIS].intercalate ((head.dropWhile isWhitespace++ELLIPSIS::trimEnd tail).splitOn ELLIPSIS) = _ :=
        List.intercalate_splitOn ELLIPSIS
      have hparts' : ∀ part ∈ (head.dropWhile isWhitespace++ELLIPSIS::trimEnd tail).splitOn ELLIPSIS, ELLIPSIS ∉ part := by
        intro part hpart hmem
        have hfalse := mem_splitOnP (p := (· == ELLIPSIS)) hpart ELLIPSIS hmem
        exact absurd hfalse (by decide)
      generalize (head.dropWhile isWhitespace++ELLIPSIS::trimEnd tail).splitOn ELLIPSIS = parts at hparts hjoin hparts'
      obtain ⟨a,b,rfl⟩ : ∃ a b, parts = [a,b] := by
        have hlen := congrArg List.length hparts
        rw [List.length_map] at hlen
        exact List.length_eq_two.mp hlen
      simp only [List.map_cons, List.map_nil, List.cons.injEq, and_true] at hparts
      rw [List.intercalate_cons_cons, List.intercalate_singleton, List.append_assoc, List.singleton_append] at hjoin
      have hlen := congrArg List.length hjoin
      have hend : (trimEnd tail).length ≤ tail.length := htake.length_le
      simp only [List.length_append, List.length_cons] at hlen
      have hle := hdrop.length_le
      have hsame := List.append_inj hjoin (by omega)
      have hb : b = trimEnd tail := (List.cons.inj hsame.2).2
      have hdrop' : head.dropWhile isWhitespace = head := hdrop.eq_of_length (by omega)
      have htake' : trimEnd tail = tail := htake.eq_of_length (by unfold trimEnd at *; omega)
      refine ⟨hdrop',htake',?_,?_⟩
      · rw [← hdrop', ← hsame.1]
        exact hparts' a (by simp)
      · rw [← htake', ← hb]
        exact hparts' b (by simp)
  · rintro ⟨hdrop',htake',hno,hno'⟩
    rw [hdrop', htake', List.splitOn_append_cons_self_of_not_mem hno, List.splitOn_eq_singleton hno']
    exact ⟨by simp,.inr (.inr (.inr (by simp [hhead, htail])))⟩

end

/-- A value that is short, that is a mask already, or whose edges show as they are. -/
def MaskKeeps (value : String) : Prop :=
  value.toList.length < 20 ∨ isMaskedPlaceholder value = true ∨
    (trimChars value.toList = value.toList ∧ ELLIPSIS ∉ value.toList.take 4 ∧
      ELLIPSIS ∉ value.toList.drop (value.toList.length-4))

theorem edges_trimmed_iff {head tail : List Char} (mid : List Char) (hhead : head.length = 4) (htail : tail.length = 4) :
    head.dropWhile isWhitespace = head ∧ trimEnd tail = tail ↔ trimChars (head++mid++tail) = head++mid++tail := by
  obtain ⟨c,head,rfl⟩ := List.exists_cons_of_length_pos (l := head) (by omega)
  obtain ⟨init,last,rfl⟩ : ∃ init last, tail = init++[last] := by
    have hne : tail ≠ [] := List.ne_nil_of_length_pos (by omega)
    exact ⟨tail.dropLast,tail.getLast hne,(List.dropLast_append_getLast hne).symm⟩
  have hlast : (c::head++mid++(init++[last])).getLast? = some last := by
    rw [← List.append_assoc, List.getLast?_concat]
  rw [trimChars_self_iff, hlast, trimEnd, List.rdropWhile_eq_self_iff, List.dropWhile_eq_self_iff]
  simp

theorem masked_keeps_iff (value : String) :
    (isMaskedPlaceholder (maskSecret value) = true ∨ maskSecret value = value) ↔ MaskKeeps value := by
  by_cases hempty : value = ""
  · subst hempty
    exact ⟨fun _ => .inl (by decide),fun _ => .inr (by decide +kernel)⟩
  by_cases hplaceholder : isMaskedPlaceholder value = true
  · have hmask : maskSecret value = value := by rw [maskSecret, if_neg hempty, if_pos hplaceholder]
    exact ⟨fun _ => .inr (.inl hplaceholder),fun _ => .inr hmask⟩
  by_cases hshort : value.toList.length < 20
  · have hmask : maskSecret value = String.ofList MASK := by
      rw [maskSecret, if_neg hempty, if_neg hplaceholder, if_pos hshort]
    rw [hmask]
    exact ⟨fun _ => .inl hshort,fun _ => .inl (by decide +kernel)⟩
  rw [Bool.not_eq_true] at hplaceholder
  have hne := maskSecret_ne hempty hplaceholder
  have hmask : maskSecret value = String.ofList (value.toList.take 4++ELLIPSIS::value.toList.drop (value.toList.length-4)) := by
    rw [maskSecret, if_neg hempty, hplaceholder, if_neg (by simp), if_neg hshort]
  -- the value is its two edges and what lies between them
  obtain ⟨mid,hmid⟩ : ∃ mid, value.toList = value.toList.take 4++mid++value.toList.drop (value.toList.length-4) := by
    refine ⟨(value.toList.drop 4).take (value.toList.length-8),?_⟩
    have hrest : value.toList.drop (value.toList.length-4) = (value.toList.drop 4).drop (value.toList.length-8) := by
      rw [List.drop_drop]
      congr 1
      omega
    rw [hrest, List.append_assoc, List.take_append_drop, List.take_append_drop]
  have hhead : (value.toList.take 4).length = 4 := by rw [List.length_take]; omega
  have htail : (value.toList.drop (value.toList.length-4)).length = 4 := by rw [List.length_drop]; omega
  have hedges := edges_placeholder_iff mid hhead htail (by rw [← hmid, String.ofList_toList]; exact hplaceholder)
  have htrimmed := edges_trimmed_iff mid hhead htail
  rw [← hmid] at htrimmed
  rw [hmask] at hne ⊢
  rw [or_iff_left hne, hedges, ← and_assoc, htrimmed, MaskKeeps, or_iff_right hshort, hplaceholder]
  simp

/-! ## The credentials of a URL -/

theorem splitAtSub_spec {part l a b : List Char} (h : splitAtSub part l = some (a,b)) : l = a++b ∧ part <+: b := by
  induction l generalizing a b with
  | nil =>
    rw [splitAtSub] at h
    split at h
    · next hpart =>
      cases h
      exact ⟨rfl,by rw [List.isEmpty_iff.mp hpart]⟩
    · cases h
  | cons c l ih =>
    rw [splitAtSub] at h
    split at h
    · next hpart =>
      cases h
      exact ⟨rfl,List.isPrefixOf_iff_prefix.mp hpart⟩
    · obtain ⟨⟨a',b'⟩,hsplit,hform⟩ := Option.map_eq_some_iff.mp h
      cases hform
      obtain ⟨rfl,hpart⟩ := ih hsplit
      exact ⟨rfl,hpart⟩

theorem rsplitAt_spec {sep : Char} {l a b : List Char} (h : rsplitAt sep l = some (a,b)) : l = a++b ∧ b.head? = some sep := by
  unfold rsplitAt at h
  split at h
  · next hmem =>
    cases h
    refine ⟨?_,rfl⟩
    have hrest := dropWhile_ne_eq_cons sep (l := l.reverse) (by simpa using hmem)
    have hsplit := List.takeWhile_append_dropWhile (p := (· ≠ sep)) (l := l.reverse)
    rw [hrest] at hsplit
    have hreverse := congrArg List.reverse hsplit
    simpa using hreverse.symm
  · cases h

/-- The parts of a URL: scheme, authority, and what follows. -/
def urlParts (url : List Char) : Option (List Char × List Char × List Char) :=
  (splitAtSub SEPARATOR url).map (fun x =>
    (x.1,(x.2.drop 3).takeWhile inAuthority,(x.2.drop 3).dropWhile inAuthority))

theorem urlParts_spec {url scheme authority tail : List Char} (h : urlParts url = some (scheme,authority,tail)) :
    url = scheme++SEPARATOR++authority++tail := by
  obtain ⟨⟨a,b⟩,hsplit,hform⟩ := Option.map_eq_some_iff.mp h
  cases hform
  obtain ⟨rfl,rest,rfl⟩ := splitAtSub_spec hsplit
  have hdrop : (SEPARATOR++rest).drop 3 = rest := rfl
  simp only [hdrop, List.append_assoc, List.takeWhile_append_dropWhile]

/-- The text before the first `://` is the name of a scheme. -/
def schemed (url : List Char) : Bool :=
  match splitAtSub SEPARATOR url with
  | some (scheme,_) => !scheme.isEmpty && scheme.all schemeChar
  | none => false

theorem schemed_spec {url : List Char} (h : schemed url = true) : ∃ scheme authority tail,
    urlParts url = some (scheme,authority,tail) ∧ scheme ≠ [] ∧ (∀ c ∈ scheme, schemeChar c = true) ∧
      redactUrl url = scheme++SEPARATOR++maskAuthority authority++maskTail tail := by
  unfold schemed at h
  cases hsplit : splitAtSub SEPARATOR url with
  | none =>
    rw [hsplit] at h
    cases h
  | some x =>
    obtain ⟨scheme,rest⟩ := x
    rw [hsplit] at h
    have hguard : (scheme.isEmpty || !scheme.all schemeChar) = false := by
      rw [← Bool.not_eq_true', Bool.not_or, Bool.not_not]
      exact h
    simp only [Bool.and_eq_true, Bool.not_eq_true', List.isEmpty_eq_false_iff, List.all_eq_true] at h
    refine ⟨scheme,(rest.drop 3).takeWhile inAuthority,(rest.drop 3).dropWhile inAuthority,?_,h.1,h.2,?_⟩
    · rw [urlParts, hsplit, Option.map_some]
    · simp only [redactUrl, hsplit, hguard, Bool.false_eq_true, if_false]

theorem redactUrl_of_unschemed {url : List Char} (h : schemed url = false) : redactUrl url = url := by
  unfold schemed at h
  cases hsplit : splitAtSub SEPARATOR url with
  | none => simp only [redactUrl, hsplit]
  | some x =>
    obtain ⟨scheme,rest⟩ := x
    rw [hsplit] at h
    have hguard : (scheme.isEmpty || !scheme.all schemeChar) = true := by
      rw [← Bool.not_eq_false', Bool.not_or, Bool.not_not]
      exact h
    simp only [redactUrl, hsplit, hguard, if_true]

theorem schemed_of_looksLikeUrl {url : List Char} (h : looksLikeUrl url = true) : schemed url = true := by
  unfold looksLikeUrl at h
  cases hsplit : splitAtSub SEPARATOR url with
  | none =>
    rw [hsplit] at h
    cases h
  | some x =>
    obtain ⟨scheme,rest⟩ := x
    rw [hsplit] at h
    simp only [Bool.and_eq_true, decide_eq_true_eq] at h
    have hne : scheme ≠ [] := by
      rintro rfl
      exact absurd h.1.1.1 (by decide)
    simp only [schemed, hsplit, h.2, List.isEmpty_eq_false_iff.mpr hne, Bool.not_false, Bool.and_true]

theorem maskTail_of_none {tail : List Char} (h : (queryPairs tail).any secretPair = false) : maskTail tail = tail := by
  have hmap : (queryPairs tail).map maskPair = queryPairs tail := by
    refine (List.map_congr_left (fun pair hpair => ?_)).trans (List.map_id _)
    rw [List.any_eq_false] at h
    rw [maskPair, if_neg (h pair hpair), id]
  have hsplit := List.takeWhile_append_dropWhile (p := (· ≠ '?')) (l := tail)
  unfold maskTail
  dsimp only
  split
  · next hempty =>
    rw [List.isEmpty_iff.mp hempty, List.append_nil] at hsplit
    exact hsplit
  · next hne =>
    rw [hmap, queryPairs, List.intercalate_splitOn]
    have hmem : '?' ∈ tail := by
      by_contra hnot
      rw [Bool.not_eq_true, List.isEmpty_eq_false_iff, Ne, List.dropWhile_eq_nil_iff] at hne
      refine hne (fun c hc => ?_)
      have hc' : c ≠ '?' := fun heq => hnot (heq ▸ hc)
      simpa using hc'
    rw [List.append_assoc, List.cons_append, List.takeWhile_append_dropWhile, ← dropWhile_ne_eq_cons '?' hmem, hsplit]

theorem maskTail_of_some {tail : List Char} (h : (queryPairs tail).any secretPair = true) : Marked (maskTail tail) := by
  obtain ⟨pair,hpair,hsecret⟩ := List.any_eq_true.mp h
  refine ⟨"=***".toList,by decide,?_⟩
  have hne : (tail.dropWhile (· ≠ '?')).isEmpty = false := by
    rw [Bool.eq_false_iff]
    intro hempty
    rw [queryPairs, List.isEmpty_iff.mp hempty] at hpair
    rw [List.mem_singleton.mp hpair] at hsecret
    exact absurd hsecret (by decide +kernel)
  have hmask : "=***".toList <:+: maskPair pair := by
    rw [maskPair, if_pos hsecret]
    exact (List.suffix_append _ _).isInfix
  have hjoin : maskPair pair <:+: ['&'].intercalate ((queryPairs tail).map maskPair) :=
    infix_intercalate '&' (List.mem_map_of_mem hpair)
  unfold maskTail
  rw [if_neg (by rw [hne]; decide)]
  refine (hmask.trans hjoin).trans ?_
  exact ⟨tail.takeWhile (· ≠ '?')++['?'],(tail.dropWhile (· ≠ '?')).tail.dropWhile (· ≠ '#'),by simp⟩

/-- A URL whose user information has a password or is the mask, one that has a secret in its query,
or one with a mark behind its user information. -/
def UrlKeeps (url : List Char) : Prop :=
  match urlParts url with
  | none => True
  | some (_,authority,tail) =>
    match rsplitAt '@' authority with
    | none => True
    | some (userinfo,host) =>
      ':' ∈ userinfo ∨ userinfo = MASK ∨ (queryPairs tail).any secretPair = true ∨ Marked (host++tail)

theorem schemeChar_spec {c : Char} (h : schemeChar c = true) :
    c ≠ '*' ∧ c ≠ '•' ∧ c ≠ ':' ∧ c ≠ '=' ∧ c ≠ ELLIPSIS := by
  refine ⟨?_,?_,?_,?_,?_⟩ <;> rintro rfl <;> exact absurd h (by decide)

/-- A text whose first character is not in the one before it. -/
theorem infix_of_append {c : Char} {part a b : List Char} (hc : c ∉ a) (h : c::part <:+: a++b) : c::part <:+: b := by
  induction a with
  | nil => exact h
  | cons d a ih =>
    obtain hstart | hfound := List.infix_cons_iff.mp h
    · rw [List.cons_prefix_cons] at hstart
      exact absurd (hstart.1 ▸ List.mem_cons_self) hc
    · exact ih (fun hmem => hc (List.mem_cons_of_mem d hmem)) hfound

/-- Before the masked user information there is no mark, and none reaches into it. -/
theorem marked_masked_iff {scheme rest : List Char} (hscheme : ∀ c ∈ scheme, schemeChar c = true) :
    Marked (scheme++SEPARATOR++MASK++ '@'::rest) ↔ Marked ('@'::rest) := by
  constructor
  · rintro ⟨mark,hmark,hfound⟩
    refine ⟨mark,hmark,?_⟩
    rw [List.append_assoc, List.append_assoc] at hfound
    have hnot : ∀ c, c = '•' ∨ c = ':' ∨ c = '=' → c ∉ scheme := by
      intro c hc hmem
      obtain ⟨-,h₁,h₂,h₃,-⟩ := schemeChar_spec (hscheme c hmem)
      obtain rfl | rfl | rfl := hc
      · exact h₁ rfl
      · exact h₂ rfl
      · exact h₃ rfl
    simp only [marks_eq, List.mem_cons, List.not_mem_nil, or_false] at hmark
    obtain rfl | rfl | rfl := hmark
    · have hbehind := infix_of_append (hnot '•' (.inl rfl)) hfound
      simpa [SEPARATOR, MASK, List.infix_cons_iff] using hbehind
    · have hbehind := infix_of_append (hnot ':' (.inr (.inl rfl))) hfound
      simpa [SEPARATOR, MASK, List.infix_cons_iff] using hbehind
    · have hbehind := infix_of_append (hnot '=' (.inr (.inr rfl))) hfound
      simpa [SEPARATOR, MASK, List.infix_cons_iff] using hbehind
  · rintro ⟨mark,hmark,hfound⟩
    exact ⟨mark,hmark,hfound.trans (List.suffix_append _ _).isInfix⟩

theorem schemeChar_not_space {c : Char} (h : schemeChar c = true) : isWhitespace c = false := by
  by_cases halnum : c.isAlphanum = true
  · exact keyChar_not_space (by rw [keyChar, halnum]; rfl)
  · simp only [schemeChar, halnum, Bool.false_or, Bool.or_eq_true, decide_eq_true_eq] at h
    rcases h with (rfl | rfl) | rfl
    all_goals decide

/-- Only the end of a URL is trimmed. -/
theorem trimChars_masked {scheme : List Char} (hne : scheme ≠ []) (hscheme : ∀ c ∈ scheme, schemeChar c = true)
    (rest : List Char) :
    trimChars (scheme++SEPARATOR++MASK++ '@'::rest) = scheme++SEPARATOR++MASK++ '@'::trimEnd rest := by
  obtain ⟨c,scheme,rfl⟩ := List.exists_cons_of_ne_nil hne
  have hc := schemeChar_not_space (hscheme c List.mem_cons_self)
  have hdrop := List.dropWhile_cons_of_neg (p := isWhitespace) (a := c)
    (l := scheme++SEPARATOR++MASK++ '@'::rest) (by rw [hc]; decide)
  rw [trimChars_eq]
  exact (congrArg trimEnd hdrop).trans (trimEnd_append (by decide) (c::scheme++SEPARATOR++MASK) rest)

theorem marked_trimEnd_iff (rest : List Char) : Marked ('@'::trimEnd rest) ↔ Marked ('@'::rest) := by
  have htrim : trimChars ('@'::rest) = '@'::trimEnd rest := by
    rw [trimChars_eq]
    exact (congrArg trimEnd (List.dropWhile_cons_of_neg (by decide))).trans (trimEnd_append (by decide) [] rest)
  constructor
  · rintro ⟨mark,hmark,hfound⟩
    exact ⟨mark,hmark,(htrim ▸ hfound).trans (trimChars_within _)⟩
  · rintro ⟨mark,hmark,hfound⟩
    obtain ⟨hne,-,hchars⟩ := mark_spec hmark
    exact ⟨mark,hmark,htrim ▸ within_trimChars hne hchars hfound⟩

/-- A URL with masked user information is a placeholder when it is marked behind it. -/
theorem masked_userinfo_iff {scheme : List Char} (hne : scheme ≠ []) (hscheme : ∀ c ∈ scheme, schemeChar c = true)
    (rest : List Char) :
    isMaskedPlaceholder (String.ofList (scheme++SEPARATOR++MASK++ '@'::rest)) = true ↔ Marked ('@'::rest) := by
  constructor
  · intro h
    rw [← marked_trimEnd_iff]
    rw [isMaskedPlaceholder_iff, trimChars_masked hne hscheme] at h
    generalize trimEnd rest = rest at h ⊢
    obtain ⟨-,⟨hall,-⟩ | hmarked | hstart | hparts⟩ := h
    · obtain ⟨c,hc⟩ := List.exists_mem_of_ne_nil scheme hne
      obtain ⟨h₁,h₂,-⟩ := schemeChar_spec (hscheme c hc)
      exact absurd (hall c (by simp [hc])) (by rw [not_or]; exact ⟨h₁,h₂⟩)
    · exact (marked_masked_iff hscheme).mp hmarked
    · obtain ⟨c,scheme,rfl⟩ := List.exists_cons_of_ne_nil hne
      have hc := (List.cons_prefix_cons.mp hstart).1
      exact absurd hc.symm (schemeChar_spec (hscheme c List.mem_cons_self)).1
    · -- the first part is longer than four characters
      have hbefore : ELLIPSIS ∉ scheme++SEPARATOR++MASK++['@'] := by
        intro hmem
        rw [List.append_assoc, List.append_assoc, List.mem_append] at hmem
        obtain hmem | hmem := hmem
        · exact (schemeChar_spec (hscheme _ hmem)).2.2.2.2 rfl
        · exact absurd hmem (by decide)
      have hform : scheme++SEPARATOR++MASK++ '@'::rest = (scheme++SEPARATOR++MASK++['@'])++rest := by simp
      rw [hform] at hparts
      have hlength : ∀ part ∈ ((scheme++SEPARATOR++MASK++['@'])++rest).splitOn ELLIPSIS, part.length = 4 := by
        intro part hpart
        have hmem : part.length ∈ [4,4] := hparts ▸ List.mem_map_of_mem hpart
        simpa using hmem
      by_cases hrest : ELLIPSIS ∈ rest
      · have hsplit := List.takeWhile_append_dropWhile (p := (· ≠ ELLIPSIS)) (l := rest)
        rw [dropWhile_ne_eq_cons ELLIPSIS hrest] at hsplit
        have hfirst : ELLIPSIS ∉ (scheme++SEPARATOR++MASK++['@'])++rest.takeWhile (· ≠ ELLIPSIS) := by
          rw [List.mem_append, not_or]
          refine ⟨hbefore,fun hmem => ?_⟩
          have htrue := List.mem_takeWhile_imp hmem
          simp at htrue
        rw [← hsplit, ← List.append_assoc, List.splitOn_append_cons_self_of_not_mem hfirst] at hlength
        have hfour := hlength _ List.mem_cons_self
        have hpos := List.length_pos_of_ne_nil hne
        have hseparator : SEPARATOR.length = 3 := rfl
        have hmask : MASK.length = 3 := rfl
        simp only [List.length_append, List.length_singleton] at hfour
        omega
      · have hwhole : ELLIPSIS ∉ (scheme++SEPARATOR++MASK++['@'])++rest := by
          rw [List.mem_append, not_or]
          exact ⟨hbefore,hrest⟩
        rw [List.splitOn_eq_singleton hwhole] at hparts
        exact absurd (congrArg List.length hparts) (by simp)
  · intro h
    exact placeholder_of_marked ((marked_masked_iff hscheme).mpr h)

theorem url_keeps_iff {url : List Char} (h : schemed url = true) :
    (isMaskedPlaceholder (String.ofList (redactUrl url)) = true ∨ redactUrl url = url) ↔ UrlKeeps url := by
  obtain ⟨scheme,authority,tail,hparts,hne,hscheme,hredact⟩ := schemed_spec h
  have hurl := urlParts_spec hparts
  rw [hredact, UrlKeeps, hparts]
  simp only
  by_cases hsecret : (queryPairs tail).any secretPair = true
  · -- the masked pair marks what is shown
    have hmarked : isMaskedPlaceholder (String.ofList (scheme++SEPARATOR++maskAuthority authority++maskTail tail)) = true := by
      obtain ⟨mark,hmark,hfound⟩ := maskTail_of_some hsecret
      exact placeholder_of_marked ⟨mark,hmark,hfound.trans (List.suffix_append _ _).isInfix⟩
    refine iff_of_true (.inl hmarked) ?_
    split
    · trivial
    · exact .inr (.inr (.inl hsecret))
  · rw [Bool.not_eq_true] at hsecret
    rw [maskTail_of_none hsecret]
    cases hsplit : rsplitAt '@' authority with
    | none =>
      refine iff_of_true (.inr ?_) trivial
      rw [maskAuthority, hsplit, hurl]
    | some x =>
      obtain ⟨userinfo,host⟩ := x
      obtain ⟨hauthority,hhost⟩ := rsplitAt_spec hsplit
      obtain ⟨rest,rfl⟩ : ∃ rest, host = '@'::rest := ⟨host.tail,(List.cons_head?_tail hhost).symm⟩
      simp only [maskAuthority, hsplit]
      by_cases hcolon : ':' ∈ userinfo
      · refine iff_of_true (.inl (placeholder_of_marked ?_)) (.inl hcolon)
        refine ⟨":***@".toList,by decide,?_⟩
        rw [splitOnce, if_pos (by simpa using hcolon)]
        exact ⟨scheme++SEPARATOR++userinfo.takeWhile (· ≠ ':'),rest++tail,by simp [MASK]⟩
      · have hnone : splitOnce ':' userinfo = none := by rw [splitOnce, if_neg (by simpa using hcolon)]
        rw [hnone]
        simp only [hcolon, hsecret, Bool.false_eq_true, false_or]
        have hform : scheme++SEPARATOR++(MASK++ '@'::rest)++tail = scheme++SEPARATOR++MASK++ '@'::(rest++tail) := by simp
        have hsame : scheme++SEPARATOR++(MASK++ '@'::rest)++tail = url ↔ userinfo = MASK := by
          rw [hurl, hauthority]
          constructor
          · intro heq
            exact (List.append_cancel_right (List.append_cancel_left (List.append_cancel_right heq))).symm
          · rintro rfl
            rfl
        by_cases hmask : userinfo = MASK
        · exact iff_of_true (.inr (hsame.mpr hmask)) (.inl hmask)
        · rw [or_iff_left (fun heq => hmask (hsame.mp heq)), or_iff_right hmask, hform, List.cons_append]
          exact masked_userinfo_iff hne hscheme (rest++tail)

/-! ## What is shown of a variable -/

/-- The stored value survives a save of what is shown. -/
def Keeps (var : EnvVar) : Prop :=
  var.secret = true ∨
    if isSensitiveKey var.key then MaskKeeps var.value
    else if looksLikeUrl var.value.toList then UrlKeeps var.value.toList
    else looksLikeToken var.value.toList = true → MaskKeeps var.value

theorem publicValue_keeps_iff (var : EnvVar) :
    (isMaskedPlaceholder (publicValue var) = true ∨ publicValue var = var.value) ↔ Keeps var := by
  unfold publicValue Keeps
  by_cases hsecret : var.secret = true
  · rw [if_pos hsecret]
    refine iff_of_true ?_ (.inl hsecret)
    by_cases hempty : var.value = ""
    · rw [if_pos hempty]
      exact .inr hempty.symm
    · rw [if_neg hempty]
      exact .inl (by decide +kernel)
  · rw [if_neg hsecret, or_iff_right hsecret]
    by_cases hkey : isSensitiveKey var.key = true
    · rw [if_pos hkey, if_pos hkey]
      exact masked_keeps_iff var.value
    · rw [if_neg hkey, if_neg hkey, redactStr]
      by_cases hurl : looksLikeUrl var.value.toList = true
      · rw [if_pos hurl, if_pos hurl, ← url_keeps_iff (schemed_of_looksLikeUrl hurl)]
        have hsame : String.ofList (redactUrl var.value.toList) = var.value ↔ redactUrl var.value.toList = var.value.toList := by
          rw [← String.toList_inj, String.toList_ofList]
        rw [hsame]
      · rw [if_neg hurl, if_neg hurl]
        by_cases htoken : looksLikeToken var.value.toList = true
        · rw [if_pos htoken, masked_keeps_iff]
          exact ⟨fun h _ => h,fun h => h htoken⟩
        · rw [if_neg htoken]
          exact iff_of_true (.inr rfl) (fun h => absurd h htoken)

/-- A stored variable saved as it is shown, with whatever flags: its value stays exactly when the
mask of it is recognised. -/
theorem masked_edit_keeps_iff (s : EnvStore) (project : String) (var : EnvVar) (secret previewAllowed : Bool)
    (h : s.vars project var.key = some var) :
    ((after s (upsert s project ⟨var.key,(publicView var).value,secret,previewAllowed⟩)).vars project var.key).map
      EnvVar.value = some var.value ↔ Keeps var := by
  rw [saved_value h, ← publicValue_keeps_iff, Option.some_inj]
  show (if isMaskedPlaceholder (publicValue var) = true then var.value else publicValue var) = var.value ↔ _
  split
  · next hplaceholder => exact iff_of_true rfl (.inl hplaceholder)
  · next hplaceholder => exact (or_iff_right hplaceholder).symm

/-- The store of a project with one variable. -/
def stored (var : EnvVar) : EnvStore := after .empty (upsert .empty "p" var)

def databaseVar : EnvVar := ⟨"DB","postgres://app:hunter2@db:5432/app",false,false⟩

theorem masked_edit_keeps_database :
    ((after (stored databaseVar) (upsert (stored databaseVar) "p" ⟨"DB",(publicView databaseVar).value,true,false⟩)).vars
      "p" "DB").map EnvVar.value = some databaseVar.value ↔ Keeps databaseVar :=
  masked_edit_keeps_iff (stored databaseVar) "p" databaseVar true false (by decide +kernel)

/-- A git remote that has a token for a user: it is shown as `https://***@github.com/o/r.git`. -/
def remoteVar : EnvVar := ⟨"REMOTE","https://ghp_0123456789abcdef@github.com/o/r.git",false,false⟩

theorem remote_token_overwritten :
    ¬∀ (s : EnvStore) (project : String) (var : EnvVar) (secret previewAllowed : Bool),
      s.vars project var.key = some var →
        ((after s (upsert s project ⟨var.key,(publicView var).value,secret,previewAllowed⟩)).vars project var.key).map
          EnvVar.value = some var.value := by
  intro h
  have hkept := h (stored remoteVar) "p" remoteVar false false (by decide +kernel)
  revert hkept
  decide +kernel

end DevForge.MaskedView
