import DevForge.PreviewEnv
import DevForge.MaskedView

/-!
# Variables in a preview

Which values the variables of a project have in its preview. A URL on the production host is
recognised by its text only, and an override without a value counts for one function and not for
the other.
-/

set_option autoImplicit false

namespace DevForge.PreviewEnvKept
open Dotenv DotenvRoundTrip Redact MaskedView PreviewEnv

/-! ## Hosts and URLs -/

/-- A lower-case letter, a digit, a hyphen or a dot. -/
def hostChar (c : Char) : Bool :=
  let n := c.toNat
  97 ≤ n && n ≤ 122 || 48 ≤ n && n ≤ 57 || n = 45 || n = 46

/-- The name of a host, with a zone. -/
structure Host where
  name : List Char
  chars : ∀ c ∈ name, hostChar c = true
  dotted : '.' ∈ name

/-- The host in an authority, without user information and port. -/
def hostOf (authority : List Char) : List Char :=
  let address := (authority.reverse.takeWhile (· ≠ '@')).reverse
  if address.head? = some '[' then address.takeWhile (· ≠ ']')++[']'] else address.takeWhile (· ≠ ':')

/-- An http(s) URL: its authority, and its path, query and fragment. -/
structure IsUrl (v authority tail : List Char) : Prop where
  schemed : ∃ scheme, scheme.map Char.toLower ∈ ["https".toList,"http".toList] ∧
    trimChars v = scheme++SEPARATOR++authority++tail
  nonempty : authority ≠ []
  plain : ∀ c ∈ authority, endsAuthority c = false
  ended : ∀ c ∈ tail.head?, endsAuthority c = true

/-- The parts of an http(s) URL. -/
def httpUrl (v : List Char) : Option (List Char × List Char) :=
  (splitAtSub SEPARATOR (trimChars v)).bind (fun x =>
    let rest := x.2.drop 3
    if ["https".toList,"http".toList].contains (x.1.map Char.toLower) ∧
        rest.takeWhile (fun c => !endsAuthority c) ≠ [] then
      some (rest.takeWhile (fun c => !endsAuthority c),rest.dropWhile (fun c => !endsAuthority c))
    else none)

theorem splitAtSub_of_no_colon {scheme : List Char} (h : ':' ∉ scheme) (rest : List Char) :
    splitAtSub SEPARATOR (scheme++SEPARATOR++rest) = some (scheme,SEPARATOR++rest) := by
  induction scheme with
  | nil => rfl
  | cons c cs ih =>
    rw [List.mem_cons, not_or] at h
    have hnot : SEPARATOR.isPrefixOf (c::(cs++SEPARATOR++rest)) = false := by
      show ((':' : Char) == c && _) = false
      rw [beq_eq_false_iff_ne.mpr h.1, Bool.false_and]
    rw [List.cons_append, List.cons_append, splitAtSub, hnot, ih h.2]
    rfl

theorem scheme_no_colon {scheme : List Char} (h : scheme.map Char.toLower ∈ ["https".toList,"http".toList]) : ':' ∉ scheme := by
  intro hc
  have hmem : ':' ∈ scheme.map Char.toLower := List.mem_map.mpr ⟨':',hc,rfl⟩
  obtain h | h := List.mem_pair.mp h
  · rw [h] at hmem
    exact absurd hmem (by decide)
  · rw [h] at hmem
    exact absurd hmem (by decide)

theorem cut_authority {authority tail : List Char} (hplain : ∀ c ∈ authority, endsAuthority c = false)
    (hended : ∀ c ∈ tail.head?, endsAuthority c = true) :
    (authority++tail).takeWhile (fun c => !endsAuthority c) = authority ∧
      (authority++tail).dropWhile (fun c => !endsAuthority c) = tail := by
  have hall : ∀ c ∈ authority, (!endsAuthority c) = true := fun c hc => by rw [hplain c hc, Bool.not_false]
  rw [List.takeWhile_append_of_pos hall, List.dropWhile_append_of_pos hall]
  cases tail with
  | nil => exact ⟨List.append_nil _,rfl⟩
  | cons c cs =>
    have hc : ¬(!endsAuthority c) = true := by
      rw [hended c rfl]
      decide
    rw [List.takeWhile_cons_of_neg (p := fun c => !endsAuthority c) hc,
      List.dropWhile_cons_of_neg (p := fun c => !endsAuthority c) hc, List.append_nil]
    exact ⟨rfl,rfl⟩

/-- The parts of a URL are found. -/
theorem isUrl_iff {v authority tail : List Char} : IsUrl v authority tail ↔ httpUrl v = some (authority,tail) := by
  constructor
  · rintro ⟨⟨scheme,hscheme,hform⟩,hne,hplain,hended⟩
    obtain ⟨htake,hdrop⟩ := cut_authority hplain hended
    have hrest : (SEPARATOR++(authority++tail)).drop 3 = authority++tail := rfl
    rw [List.append_assoc] at hform
    rw [httpUrl, hform, splitAtSub_of_no_colon (scheme_no_colon hscheme), Option.bind_some]
    simp only [hrest, htake, hdrop]
    exact if_pos ⟨List.contains_iff_mem.mpr hscheme,hne⟩
  · intro h
    obtain ⟨⟨scheme,b⟩,hsplit,hparts⟩ := Option.bind_eq_some_iff.mp h
    obtain ⟨hform,rest,rfl⟩ := splitAtSub_spec hsplit
    have hrest : (SEPARATOR++rest).drop 3 = rest := rfl
    simp only [hrest] at hparts
    split_ifs at hparts with hcond
    cases hparts
    constructor
    · refine ⟨scheme,List.contains_iff_mem.mp hcond.1,?_⟩
      rw [hform, List.append_assoc, List.append_assoc, List.takeWhile_append_dropWhile]
    · exact hcond.2
    · intro c hc
      simpa using List.mem_takeWhile_imp hc
    · intro c hc
      have hnot := List.head?_dropWhile_not (fun c => !endsAuthority c) rest
      rw [Option.mem_def.mp hc] at hnot
      simpa using hnot

theorem rewriteUrlHost_eq (v host : List Char) :
    rewriteUrlHost v host = (httpUrl v).map (fun x => "https://".toList++host++x.2) := by
  unfold rewriteUrlHost httpUrl
  cases splitAtSub SEPARATOR (trimChars v) with
  | none => rfl
  | some x =>
    dsimp only [Option.bind_some]
    by_cases hscheme : x.1.map Char.toLower ∈ ["https".toList,"http".toList]
    · have hknown : (x.1.map Char.toLower ≠ "https".toList && x.1.map Char.toLower ≠ "http".toList) = false := by
        obtain h | h := List.mem_pair.mp hscheme <;> rw [h] <;> decide
      rw [hknown]
      by_cases hauthority : (x.2.drop 3).takeWhile (fun c => !endsAuthority c) = []
      · rw [if_neg Bool.false_ne_true, if_pos (List.isEmpty_iff.mpr hauthority), if_neg (fun h => h.2 hauthority)]
        rfl
      · rw [if_neg Bool.false_ne_true, if_neg (fun h => hauthority (List.isEmpty_iff.mp h)),
          if_pos ⟨List.contains_iff_mem.mpr hscheme,hauthority⟩]
        rfl
    · have hother : (x.1.map Char.toLower ≠ "https".toList && x.1.map Char.toLower ≠ "http".toList) = true := by
        rw [List.mem_pair, not_or] at hscheme
        rw [decide_eq_true hscheme.1, decide_eq_true hscheme.2]
        rfl
      rw [hother, if_pos rfl, if_neg (fun h => hscheme (List.contains_iff_mem.mp h.1))]
      rfl


/-! ## The host of the preview -/

theorem hostChar_plain {c : Char} (h : hostChar c = true) : isWhitespace c = false ∧ endsAuthority c = false ∧
    ToolArguments.lowerChar c = c ∧ c ≠ '@' ∧ c ≠ '[' ∧ c ≠ ':' := by
  have hall : ∀ n < 128, hostChar (Char.ofNat n) = true → isWhitespace (Char.ofNat n) = false ∧
      endsAuthority (Char.ofNat n) = false ∧ ToolArguments.lowerChar (Char.ofNat n) = Char.ofNat n ∧
      Char.ofNat n ≠ '@' ∧ Char.ofNat n ≠ '[' ∧ Char.ofNat n ≠ ':' := by
    decide +kernel
  have hlt : c.toNat < 128 := by
    simp only [hostChar, Bool.or_eq_true, Bool.and_eq_true, decide_eq_true_eq] at h
    omega
  have hc := hall c.toNat hlt
  rw [Char.ofNat_toNat] at hc
  exact hc h

/-- The URL of a preview. -/
def Host.url (host : Host) : String := String.ofList ("https://".toList++host.name)

theorem Host.ne_nil (host : Host) : host.name ≠ [] := List.ne_nil_of_mem host.dotted

theorem stripScheme_https (rest : List Char) : stripScheme ("https://".toList++rest) = some rest := by
  have hlength : "https://".toList.length = 8 := by decide +kernel
  have hstart : "https://".toList.isPrefixOf ("https://".toList++rest) = true :=
    List.isPrefixOf_iff_prefix.mpr (List.prefix_append _ rest)
  rw [stripScheme, if_pos hstart, List.drop_left' hlength]

theorem fqdnFromUrl_https (host : Host) : fqdnFromUrl ("https://".toList++host.name) = some host.name := by
  have hslash : host.name.takeWhile (· ≠ '/') = host.name := by
    apply List.takeWhile_eq_self_iff.mpr
    intro c hc
    have hends := (hostChar_plain (host.chars c hc)).2.1
    simp only [endsAuthority, Bool.or_eq_false_iff] at hends
    rw [decide_eq_true_eq]
    exact of_decide_eq_false hends.1.1
  have hlower : host.name.map ToolArguments.lowerChar = host.name :=
    (List.map_congr_left (fun c hc => (hostChar_plain (host.chars c hc)).2.2.1)).trans (List.map_id _)
  have htrim : trimChars host.name = host.name := trimChars_key (fun c hc => (hostChar_plain (host.chars c hc)).1)
  have hdot : host.name.contains '.' = true := List.contains_iff_mem.mpr host.dotted
  rw [fqdnFromUrl, stripScheme_https, Option.map_some, hslash, htrim, hlower, Option.filter_some, if_pos hdot]

theorem fqdnFromUrl_url (host : Host) : fqdnFromUrl host.url.toList = some host.name := by
  have hurl : host.url.toList = "https://".toList++host.name := String.toList_ofList
  rw [hurl, fqdnFromUrl_https]

theorem hostOf_name (host : Host) : hostOf host.name = host.name := by
  have hat : host.name.reverse.takeWhile (· ≠ '@') = host.name.reverse := by
    apply List.takeWhile_eq_self_iff.mpr
    intro c hc
    rw [decide_eq_true_eq]
    exact (hostChar_plain (host.chars c (List.mem_reverse.mp hc))).2.2.2.1
  have hcolon : host.name.takeWhile (· ≠ ':') = host.name := by
    apply List.takeWhile_eq_self_iff.mpr
    intro c hc
    rw [decide_eq_true_eq]
    exact (hostChar_plain (host.chars c hc)).2.2.2.2.2
  have hbracket : host.name.head? ≠ some '[' := by
    intro hc
    exact (hostChar_plain (host.chars '[' (List.mem_of_head? hc))).2.2.2.2.1 rfl
  rw [hostOf, hat, List.reverse_reverse, if_neg hbracket, hcolon]

theorem trimChars_last {v : List Char} {c : Char} (hc : c ∈ (trimChars v).getLast?) : isWhitespace c = false := by
  rw [trimChars, List.getLast?_reverse, Option.mem_def] at hc
  have hnot := List.head?_dropWhile_not isWhitespace (v.dropWhile isWhitespace).reverse
  rw [hc] at hnot
  exact hnot

theorem https_eq : "https://".toList = "https".toList++SEPARATOR := by decide +kernel

/-- A rewritten URL is a URL on the host, with what followed the authority. -/
theorem isUrl_rewritten (host : Host) {v authority tail : List Char} (h : IsUrl v authority tail) :
    IsUrl ("https://".toList++host.name++tail) host.name tail := by
  obtain ⟨scheme,-,hform⟩ := h.schemed
  have hlast : ∀ c ∈ (host.name++tail).getLast?, isWhitespace c = false := by
    intro c hc
    by_cases htail : tail = []
    · rw [htail, List.append_nil] at hc
      exact (hostChar_plain (host.chars c (List.mem_of_getLast? hc))).1
    · -- the tail ends where the trimmed value ends
      rw [List.getLast?_append_of_ne_nil _ htail] at hc
      apply trimChars_last (v := v)
      rw [hform, List.getLast?_append_of_ne_nil _ htail]
      exact hc
  have htrim : trimChars ("https://".toList++host.name++tail) = "https://".toList++host.name++tail := by
    rw [trimChars_self_iff, List.append_assoc]
    constructor
    · intro c hc
      rw [List.head?_append_of_ne_nil _ (by decide +kernel)] at hc
      have hhead : "https://".toList.head? = some 'h' := by decide +kernel
      rw [hhead, Option.mem_some_iff] at hc
      rw [← hc]
      decide
    · intro c hc
      rw [List.getLast?_append_of_ne_nil _ (fun h => host.ne_nil (List.append_eq_nil_iff.mp h).1)] at hc
      exact hlast c hc
  constructor
  · refine ⟨"https".toList,by decide,?_⟩
    rw [htrim, https_eq]
  · exact host.ne_nil
  · exact fun c hc => (hostChar_plain (host.chars c hc)).2.1
  · exact h.ended

/-! ## The maps -/

theorem after_iff {start s t : String} : PreviewEnv.after start s = some t ↔ s = start++t := by
  unfold PreviewEnv.after
  constructor
  · intro h
    split_ifs at h with hstart
    obtain ⟨rest,hrest⟩ := List.isPrefixOf_iff_prefix.mp hstart
    apply String.toList_injective
    rw [← Option.some.inj h, String.toList_append, String.toList_ofList, ← hrest, List.drop_left]
  · rintro rfl
    rw [String.toList_append, if_pos (List.isPrefixOf_iff_prefix.mpr (List.prefix_append _ _)), List.drop_left,
      String.ofList_toList]

theorem overrideTarget_iff {k t : String} : overrideTarget k = some t ↔ k = PREVIEW_OVERRIDE_PREFIX++t ∧ t ≠ "" := by
  rw [overrideTarget, Option.filter_eq_some_iff, after_iff, decide_eq_true_eq]

/-- No override is a variable of DevForge. -/
theorem isMarker_override (t : String) : isMarker (PREVIEW_OVERRIDE_PREFIX++t) = false := by
  apply Bool.eq_false_of_not_eq_true
  intro h
  obtain ⟨rest,hrest⟩ := List.isPrefixOf_iff_prefix.mp h
  rw [String.toList_append] at hrest
  have hhead := congrArg List.head? hrest
  rw [List.head?_append_of_ne_nil _ (by decide +kernel), List.head?_append_of_ne_nil _ (by decide +kernel)] at hhead
  revert hhead
  decide +kernel

/-- The name is neither one of DevForge nor that of an override. -/
def isPlain (k : String) : Bool := !isMarker k && (overrideTarget k).isNone

theorem addRow_base (maps : SortedMap String String × SortedMap String String) (j b k : String) :
    (addRow maps (j,b)).1.get k = if k = j ∧ isPlain j = true then some b else maps.1.get k := by
  unfold addRow isPlain
  cases isMarker j with
  | true => simp
  | false =>
    cases overrideTarget j with
    | some t => simp
    | none => simp [SortedMap.get_insert]

theorem addRow_override (maps : SortedMap String String × SortedMap String String) (j b t : String) :
    (addRow maps (j,b)).2.get t = if overrideTarget j = some t then some b else maps.2.get t := by
  unfold addRow
  by_cases hmarker : isMarker j = true
  · have hnone : overrideTarget j ≠ some t := by
      intro h
      rw [(overrideTarget_iff.mp h).1, isMarker_override] at hmarker
      cases hmarker
    rw [if_pos hmarker, if_neg hnone]
  · rw [if_neg hmarker]
    cases htarget : overrideTarget j with
    | none => simp
    | some t' =>
      dsimp only
      rw [SortedMap.get_insert]
      by_cases ht : t = t'
      · rw [if_pos ht, if_pos (by rw [ht])]
      · rw [if_neg ht, if_neg (fun h => ht (Option.some.inj h).symm)]

theorem foldl_base {rows : List (String × String)} (maps : SortedMap String String × SortedMap String String)
    (h : (rows.map Prod.fst).Nodup) (k : String) :
    (rows.foldl addRow maps).1.get k = (if isPlain k then rows.lookup k else none).or (maps.1.get k) := by
  induction rows generalizing maps with
  | nil => simp
  | cons row rows ih =>
    obtain ⟨j,b⟩ := row
    rw [List.map_cons, List.nodup_cons] at h
    rw [List.foldl_cons, ih _ h.2, addRow_base, Table.lookup_cons]
    by_cases hk : k = j
    · have hnone : rows.lookup j = none := (Table.lookup_none_iff rows j).mpr h.1
      subst hk
      by_cases hplain : isPlain k = true
      · simp [hplain, hnone]
      · simp [hplain]
    · simp [hk]

theorem foldl_override {rows : List (String × String)} (maps : SortedMap String String × SortedMap String String)
    (h : (rows.map Prod.fst).Nodup) {t : String} (ht : t ≠ "") :
    (rows.foldl addRow maps).2.get t = (rows.lookup (PREVIEW_OVERRIDE_PREFIX++t)).or (maps.2.get t) := by
  induction rows generalizing maps with
  | nil => simp
  | cons row rows ih =>
    obtain ⟨j,b⟩ := row
    rw [List.map_cons, List.nodup_cons] at h
    rw [List.foldl_cons, ih _ h.2, addRow_override, Table.lookup_cons]
    by_cases hj : PREVIEW_OVERRIDE_PREFIX++t = j
    · have hnone : rows.lookup j = none := (Table.lookup_none_iff rows j).mpr h.1
      rw [if_pos hj, hj, hnone, if_pos (overrideTarget_iff.mpr ⟨hj.symm,ht⟩)]
      rfl
    · rw [if_neg hj, if_neg (fun h => hj (overrideTarget_iff.mp h).1.symm)]

theorem foldl_override_empty {rows : List (String × String)} {maps : SortedMap String String × SortedMap String String}
    (h : maps.2.get "" = none) : (rows.foldl addRow maps).2.get "" = none := by
  induction rows generalizing maps with
  | nil => exact h
  | cons row rows ih =>
    obtain ⟨j,b⟩ := row
    rw [List.foldl_cons]
    apply ih
    rw [addRow_override, if_neg (fun hj => (overrideTarget_iff.mp hj).2 rfl), h]

section
variable (vars : Table String String)

/-- The variable has an override. -/
def Overridden (k o : String) : Prop := k ≠ "" ∧ vars.get (PREVIEW_OVERRIDE_PREFIX++k) = some o

/-- The variable goes to the preview under its name, and has no override. -/
structure Plain (k v : String) : Prop where
  value : vars.get k = some v
  name : isPlain k = true
  free : ∀ o, ¬Overridden vars k o

variable {vars} {pr : ℤ} {url : String} {prodHost : Option (List Char)} {k w : String}

theorem override_iff {o : String} : (vars.rows.foldl addRow (.empty,.empty)).2.get k = some o ↔ Overridden vars k o := by
  by_cases hk : k = ""
  · rw [hk, foldl_override_empty rfl]
    exact iff_of_false (fun h => by cases h) (fun h => h.1 rfl)
  · rw [foldl_override _ vars.keys_nodup hk, SortedMap.get_empty, Option.or_none]
    exact ⟨fun h => ⟨hk,h⟩,fun h => h.2⟩

theorem base_iff {v : String} : (vars.rows.foldl addRow (.empty,.empty)).1.get k = some v ↔
    vars.get k = some v ∧ isPlain k = true := by
  rw [foldl_base _ vars.keys_nodup, SortedMap.get_empty, Option.or_none]
  by_cases hk : isPlain k = true
  · rw [if_pos hk]
    exact ⟨fun h => ⟨h,hk⟩,fun h => h.1⟩
  · rw [if_neg hk]
    exact iff_of_false (fun h => by cases h) (fun h => hk h.2)

/-- The entries of the environment: overrides, other variables and what DevForge adds. -/
theorem mem_env_iff : (k,w) ∈ buildPreviewEnv vars.rows pr url prodHost ↔
    isMarker k = false ∧ (Overridden vars k w ∨
      ∃ v, Plain vars k v ∧ w = redirected (fqdnFromUrl url.toList) prodHost k v) ∨
    (k,w) ∈ markers pr url := by
  let maps := vars.rows.foldl addRow (.empty,.empty)
  have hlookup : maps.2.entries.lookup k = maps.2.get k := rfl
  show (k,w) ∈ SortedMap.entries _++markers pr url ↔ _
  rw [List.mem_append, SortedMap.mem_entries_iff, SortedMap.get_retain, SortedMap.get_insertAll _ maps.2.keys_nodup,
    hlookup, SortedMap.get_mapValues]
  apply or_congr_left
  cases hmarker : isMarker k with
  | true => simp
  | false =>
    rw [Bool.not_false, if_pos rfl]
    simp only [true_and]
    cases hoverride : maps.2.get k with
    | some o =>
      have ho : Overridden vars k o := override_iff.mp hoverride
      rw [Option.some_or, Option.some_inj]
      constructor
      · rintro rfl
        exact .inl ho
      · rintro (hw | ⟨v,hv,-⟩)
        · exact Option.some.inj (ho.2.symm.trans hw.2)
        · exact absurd ho (hv.free o)
    | none =>
      have hfree : ∀ o, ¬Overridden vars k o := by
        intro o ho
        rw [override_iff.mpr ho] at hoverride
        cases hoverride
      rw [Option.none_or, Option.map_eq_some_iff]
      constructor
      · rintro ⟨v,hv,rfl⟩
        obtain ⟨hv,hplain⟩ := base_iff.mp hv
        exact .inr ⟨v,⟨hv,hplain,hfree⟩,rfl⟩
      · rintro (hw | ⟨v,hv,rfl⟩)
        · exact absurd hw (hfree w)
        · exact ⟨v,base_iff.mpr ⟨hv.value,hv.name⟩,rfl⟩

theorem isMarker_of_mem (pr : ℤ) (url : String) {k : String} (h : k ∈ (markers pr url).map Prod.fst) : isMarker k = true := by
  have hall : ∀ k ∈ ["DEVFORGE_PREVIEW","DEVFORGE_PREVIEW_PR","DEVFORGE_PREVIEW_URL"], isMarker k = true := by
    decide +kernel
  exact hall k h

theorem env_nodup : ((buildPreviewEnv vars.rows pr url prodHost).map Prod.fst).Nodup := by
  show ((SortedMap.entries _++markers pr url).map Prod.fst).Nodup
  rw [List.map_append, List.nodup_append]
  constructor
  · exact SortedMap.keys_nodup _
  constructor
  · show ["DEVFORGE_PREVIEW","DEVFORGE_PREVIEW_PR","DEVFORGE_PREVIEW_URL"].Nodup
    decide
  · rintro k hk j hj rfl
    obtain ⟨e,he,rfl⟩ := List.mem_map.mp hk
    have hnot : (!isMarker e.1) = true := (List.mem_filter.mp he).2
    rw [isMarker_of_mem pr url hj] at hnot
    cases hnot

end

/-! ## What a preview promises -/

section
variable (vars : Table String String) (pr : ℤ) (preview : Host) (prod : Option Host)

/-- The value is an http(s) URL on the production host. -/
def OnProd (v : String) : Prop :=
  ∃ h ∈ prod, ∃ authority tail, IsUrl v.toList authority tail ∧ (hostOf authority).map Char.toLower = h.name

/-- The value points to the production host, or is where a login redirects to. -/
def Turned (k v : String) (tail : List Char) : Prop :=
  (isRedirectUriKey k = true ∨ OnProd prod v) ∧ ∃ authority, IsUrl v.toList authority tail

def env : List (String × String) := buildPreviewEnv vars.rows pr preview.url (prod.map Host.name)

structure PreviewOk : Prop where
  once : ((env vars pr preview prod).map Prod.fst).Nodup
  overridden : ∀ k o, Overridden vars k o → isMarker k = false → (k,o) ∈ env vars pr preview prod
  marked : ∀ k w, isMarker k = true → ((k,w) ∈ env vars pr preview prod ↔ (k,w) ∈ markers pr preview.url)
  turned : ∀ k v tail, Plain vars k v → Turned prod k v tail → ∃ w authority, (k,w) ∈ env vars pr preview prod ∧
    IsUrl w.toList authority tail ∧ hostOf authority = preview.name
  unchanged : ∀ k v, Plain vars k v → (∀ tail, ¬Turned prod k v tail) → (k,v) ∈ env vars pr preview prod
  shared : ∀ k, k ∈ previewSharedDbKeys vars.rows ↔
    k ∈ DB_KEYS ∧ ∃ v, vars.get k = some v ∧ (k,v) ∈ env vars pr preview prod

/-- A value on the host of the preview. -/
def rewritten (tail : List Char) : String := String.ofList ("https://".toList++preview.name++tail)

/-- What the code looks for finds the URLs on the production host, and a database is isolated by an override
with a value of its own, or shared under its value. -/
structure Clear : Prop where
  recognised : ∀ k v authority tail, Plain vars k v → isRedirectUriKey k = false → IsUrl v.toList authority tail →
    (OnProd prod v → targetsProd (prod.map Host.name) v = true ∨ hostOf authority = preview.name) ∧
    (targetsProd (prod.map Host.name) v = true → OnProd prod v ∨ v = rewritten preview tail)
  isolated : ∀ k ∈ DB_KEYS, ∀ v o, vars.get k = some v → Overridden vars k o → o ≠ v ∧ (isBlank o = true → isBlank v = true)
  kept : ∀ k ∈ DB_KEYS, ∀ v, vars.get k = some v → (∀ o, ¬Overridden vars k o) → isBlank v = false ∧
    ∀ authority tail, IsUrl v.toList authority tail → targetsProd (prod.map Host.name) v = true → v = rewritten preview tail

end

section
variable {vars : Table String String} {pr : ℤ} {preview : Host} {prod : Option Host} {k v w : String}

theorem IsUrl.unique {v a t a' t' : List Char} (h : IsUrl v a t) (h' : IsUrl v a' t') : a = a' ∧ t = t' := by
  have heq := (isUrl_iff.mp h).symm.trans (isUrl_iff.mp h')
  exact Prod.mk.inj (Option.some.inj heq)

theorem redirected_of_url {authority tail : List Char} (h : isRedirectUriKey k = true ∨ targetsProd (prod.map Host.name) v = true)
    (hurl : IsUrl v.toList authority tail) :
    redirected (some preview.name) (prod.map Host.name) k v = rewritten preview tail := by
  have hguard : (!isRedirectUriKey k && !targetsProd (prod.map Host.name) v) = false := by
    obtain h | h := h
    · rw [h, Bool.not_true, Bool.false_and]
    · rw [h, Bool.not_true, Bool.and_false]
  rw [redirected, hguard, if_neg Bool.false_ne_true, Option.bind_some, rewriteUrlHost_eq, isUrl_iff.mp hurl]
  rfl

theorem redirected_of_other (h : isRedirectUriKey k = false) (h' : targetsProd (prod.map Host.name) v = false) :
    redirected (some preview.name) (prod.map Host.name) k v = v := by
  rw [redirected, h, h']
  rfl

theorem redirected_of_text (h : ∀ authority tail, ¬IsUrl v.toList authority tail) :
    redirected (some preview.name) (prod.map Host.name) k v = v := by
  have hnone : httpUrl v.toList = none := by
    cases hurl : httpUrl v.toList with
    | none => rfl
    | some x => exact absurd (isUrl_iff.mpr hurl) (h x.1 x.2)
  unfold redirected
  split
  · rfl
  · rw [Option.bind_some, rewriteUrlHost_eq, hnone]
    rfl

theorem marked_of_mem (h : (k,w) ∈ markers pr preview.url) : isMarker k = true :=
  isMarker_of_mem pr preview.url (List.mem_map_of_mem h)

theorem Plain.unmarked (h : Plain vars k v) : isMarker k = false := by
  have hname := h.name
  rw [isPlain, Bool.and_eq_true, Bool.not_eq_true'] at hname
  exact hname.1

/-- A variable without override has one value. -/
theorem mem_env_plain (h : Plain vars k v) :
    (k,w) ∈ env vars pr preview prod ↔ w = redirected (some preview.name) (prod.map Host.name) k v := by
  rw [env, mem_env_iff, fqdnFromUrl_url]
  constructor
  · rintro (⟨-,ho | ⟨v',hv',rfl⟩⟩ | hmark)
    · exact absurd ho (h.free w)
    · rw [Option.some.inj (hv'.value.symm.trans h.value)]
    · have hmarked := marked_of_mem hmark
      rw [h.unmarked] at hmarked
      cases hmarked
  · rintro rfl
    exact .inl ⟨h.unmarked,.inr ⟨v,h,rfl⟩⟩

/-- An override has one value. -/
theorem mem_env_overridden {o : String} (h : Overridden vars k o) (hmarker : isMarker k = false) :
    (k,w) ∈ env vars pr preview prod ↔ w = o := by
  rw [env, mem_env_iff]
  constructor
  · rintro (⟨-,ho | ⟨v',hv',-⟩⟩ | hmark)
    · exact Option.some.inj (ho.2.symm.trans h.2)
    · exact absurd h (hv'.free o)
    · have hmarked := marked_of_mem hmark
      rw [hmarker] at hmarked
      cases hmarked
  · rintro rfl
    exact .inl ⟨hmarker,.inl h⟩

/-! ## Databases -/

theorem plain_of_db (hk : k ∈ DB_KEYS) : isPlain k = true ∧ isMarker k = false ∧ isRedirectUriKey k = false ∧ k ≠ "" := by
  have hall : ∀ k ∈ DB_KEYS, isPlain k = true ∧ isMarker k = false ∧ isRedirectUriKey k = false ∧ k ≠ "" := by
    decide +kernel
  exact hall k hk

theorem any_row_iff {p : String → Bool} :
    vars.rows.any (fun row => p row.1 && !isBlank row.2) = true ↔ ∃ j v, vars.get j = some v ∧ p j = true ∧ isBlank v = false := by
  rw [List.any_eq_true]
  constructor
  · rintro ⟨⟨j,v⟩,hrow,hp⟩
    rw [Bool.and_eq_true, Bool.not_eq_true'] at hp
    exact ⟨j,v,(vars.mem_iff_get j v).mp hrow,hp⟩
  · rintro ⟨j,v,hget,hp⟩
    refine ⟨(j,v),(vars.mem_iff_get j v).mpr hget,?_⟩
    rw [Bool.and_eq_true, Bool.not_eq_true']
    exact hp

theorem mem_shared_iff : k ∈ previewSharedDbKeys vars.rows ↔ k ∈ DB_KEYS ∧ (∃ v, vars.get k = some v ∧ isBlank v = false) ∧
    ∀ o, Overridden vars k o → isBlank o = true := by
  rw [previewSharedDbKeys, List.mem_filter, Bool.and_eq_true, Bool.not_eq_true', ← Bool.not_eq_true,
    any_row_iff (p := fun j => j = k), any_row_iff (p := fun j => PreviewEnv.after PREVIEW_OVERRIDE_PREFIX j = some k)]
  constructor
  · rintro ⟨hk,⟨j,v,hget,hj,hv⟩,hnone⟩
    rw [decide_eq_true_eq] at hj
    refine ⟨hk,⟨v,hj ▸ hget,hv⟩,?_⟩
    intro o ho
    by_contra hblank
    exact hnone ⟨_,o,ho.2,decide_eq_true (after_iff.mpr rfl),Bool.eq_false_of_not_eq_true hblank⟩
  · rintro ⟨hk,⟨v,hget,hv⟩,hblank⟩
    refine ⟨hk,⟨k,v,hget,decide_eq_true rfl,hv⟩,?_⟩
    rintro ⟨j,o,hget',hj,ho⟩
    rw [decide_eq_true_eq, after_iff] at hj
    have hover : Overridden vars k o := ⟨(plain_of_db hk).2.2.2,hj ▸ hget'⟩
    rw [hblank o hover] at ho
    cases ho

/-- A value of blanks is no URL. -/
theorem not_url_of_blank (h : isBlank v = true) (authority tail : List Char) : ¬IsUrl v.toList authority tail := by
  intro hurl
  obtain ⟨scheme,-,hform⟩ := hurl.schemed
  rw [List.isEmpty_iff.mp h, List.append_assoc, List.append_assoc] at hform
  have hsep := (List.append_eq_nil_iff.mp (List.append_eq_nil_iff.mp hform.symm).2).1
  revert hsep
  decide +kernel

end

/-! ## Exactly when -/

section
variable {vars : Table String String} {pr : ℤ} {preview : Host} {prod : Option Host}

theorem clear_of_ok (h : PreviewOk vars pr preview prod) : Clear vars preview prod := by
  constructor
  · intro k v authority tail hplain hkey hurl
    constructor
    · intro hprod
      by_cases htargets : targetsProd (prod.map Host.name) v = true
      · exact .inl htargets
      · obtain ⟨w,authority',hmem,hurl',hhost⟩ := h.turned k v tail hplain ⟨.inr hprod,authority,hurl⟩
        have hw := (mem_env_plain hplain).mp hmem
        rw [redirected_of_other hkey (Bool.eq_false_of_not_eq_true htargets)] at hw
        rw [hw] at hurl'
        rw [(hurl.unique hurl').1]
        exact .inr hhost
    · intro htargets
      by_cases hprod : OnProd prod v
      · exact .inl hprod
      · have hother : ∀ tail, ¬Turned prod k v tail := by
          rintro tail ⟨hkey' | hprod',-⟩
          · rw [hkey] at hkey'
            cases hkey'
          · exact hprod hprod'
        have hv := (mem_env_plain hplain).mp (h.unchanged k v hplain hother)
        rw [redirected_of_url (.inr htargets) hurl] at hv
        exact .inr hv
  · intro k hk v o hv ho
    have hmarker : isMarker k = false := (plain_of_db hk).2.1
    have hshared := h.shared k
    rw [mem_shared_iff] at hshared
    constructor
    · rintro rfl
      obtain ⟨-,⟨v',hv',hblank⟩,hall⟩ := hshared.mpr ⟨hk,o,hv,(mem_env_overridden ho hmarker).mpr rfl⟩
      rw [← Option.some.inj (hv.symm.trans hv'), hall o ho] at hblank
      cases hblank
    · intro hblank
      by_contra hne
      have honly : ∀ o', Overridden vars k o' → isBlank o' = true := by
        intro o' ho'
        rw [← Option.some.inj (ho.2.symm.trans ho'.2)]
        exact hblank
      obtain ⟨-,v',hv',hmem⟩ := hshared.mp ⟨hk,⟨v,hv,Bool.eq_false_of_not_eq_true hne⟩,honly⟩
      have hvo : v = o := (Option.some.inj (hv.symm.trans hv')).trans ((mem_env_overridden ho hmarker).mp hmem)
      rw [hvo] at hne
      exact hne hblank
  · intro k hk v hv hfree
    have hplain : Plain vars k v := ⟨hv,(plain_of_db hk).1,hfree⟩
    have hshared := h.shared k
    rw [mem_shared_iff] at hshared
    have hblank : isBlank v = false := by
      apply Bool.eq_false_of_not_eq_true
      intro hblank
      have hmem : (k,v) ∈ env vars pr preview prod :=
        (mem_env_plain hplain).mpr (redirected_of_text (not_url_of_blank hblank)).symm
      obtain ⟨-,⟨v',hv',hblank'⟩,-⟩ := hshared.mpr ⟨hk,v,hv,hmem⟩
      rw [← Option.some.inj (hv.symm.trans hv'), hblank] at hblank'
      cases hblank'
    refine ⟨hblank,?_⟩
    intro authority tail hurl htargets
    obtain ⟨-,v',hv',hmem⟩ := hshared.mp ⟨hk,⟨v,hv,hblank⟩,fun o ho => absurd ho (hfree o)⟩
    rw [← Option.some.inj (hv.symm.trans hv')] at hmem
    have hsame := (mem_env_plain hplain).mp hmem
    rwa [redirected_of_url (.inr htargets) hurl] at hsame

theorem turned_rewritten {k v : String} {authority tail : List Char} (hplain : Plain vars k v)
    (htest : isRedirectUriKey k = true ∨ targetsProd (prod.map Host.name) v = true) (hurl : IsUrl v.toList authority tail) :
    ∃ w authority, (k,w) ∈ env vars pr preview prod ∧ IsUrl w.toList authority tail ∧ hostOf authority = preview.name := by
  have hmem : (k,rewritten preview tail) ∈ env vars pr preview prod :=
    (mem_env_plain hplain).mpr (redirected_of_url htest hurl).symm
  have htext : (rewritten preview tail).toList = "https://".toList++preview.name++tail := String.toList_ofList
  have hurl' : IsUrl (rewritten preview tail).toList preview.name tail := htext ▸ isUrl_rewritten preview hurl
  exact ⟨_,_,hmem,hurl',hostOf_name preview⟩

/-- A value stays where no test finds it, or where it is rewritten to itself. -/
theorem redirected_self {k v : String} (hkey : isRedirectUriKey k = false)
    (hself : ∀ authority tail, IsUrl v.toList authority tail → targetsProd (prod.map Host.name) v = true →
      v = rewritten preview tail) : redirected (some preview.name) (prod.map Host.name) k v = v := by
  by_cases htargets : targetsProd (prod.map Host.name) v = true
  · by_cases hurl : ∃ authority tail, IsUrl v.toList authority tail
    · obtain ⟨authority,tail,hurl⟩ := hurl
      rw [redirected_of_url (.inr htargets) hurl, ← hself authority tail hurl htargets]
    · exact redirected_of_text (fun authority tail h => hurl ⟨authority,tail,h⟩)
  · exact redirected_of_other hkey (Bool.eq_false_of_not_eq_true htargets)

theorem ok_of_clear (h : Clear vars preview prod) : PreviewOk vars pr preview prod := by
  constructor
  · exact env_nodup
  · exact fun k o ho hmarker => (mem_env_overridden ho hmarker).mpr rfl
  · intro k w hmarker
    rw [env, mem_env_iff]
    refine ⟨fun hmem => hmem.resolve_left ?_,.inr⟩
    rintro ⟨hnot,-⟩
    rw [hmarker] at hnot
    cases hnot
  · rintro k v tail hplain ⟨hturned,authority,hurl⟩
    by_cases htest : isRedirectUriKey k = true ∨ targetsProd (prod.map Host.name) v = true
    · exact turned_rewritten hplain htest hurl
    · rw [not_or, Bool.not_eq_true, Bool.not_eq_true] at htest
      have hprod : OnProd prod v := by
        obtain hkey | hprod := hturned
        · rw [htest.1] at hkey
          cases hkey
        · exact hprod
      obtain htargets | hhost := (h.recognised k v authority tail hplain htest.1 hurl).1 hprod
      · rw [htest.2] at htargets
        cases htargets
      · exact ⟨v,authority,(mem_env_plain hplain).mpr (redirected_of_other htest.1 htest.2).symm,hurl,hhost⟩
  · intro k v hplain hother
    apply (mem_env_plain hplain).mpr
    by_cases hurl : ∃ authority tail, IsUrl v.toList authority tail
    · obtain ⟨authority,tail,hurl⟩ := hurl
      have hnot : ¬(isRedirectUriKey k = true ∨ OnProd prod v) := fun hturned => hother tail ⟨hturned,authority,hurl⟩
      rw [not_or, Bool.not_eq_true] at hnot
      apply (redirected_self hnot.1 _).symm
      intro authority' tail' hurl' htargets
      exact ((h.recognised k v authority' tail' hplain hnot.1 hurl').2 htargets).resolve_left hnot.2
    · exact (redirected_of_text (fun authority tail hv => hurl ⟨authority,tail,hv⟩)).symm
  · intro k
    rw [mem_shared_iff]
    constructor
    · rintro ⟨hk,⟨v,hv,hblank⟩,hall⟩
      have hfree : ∀ o, ¬Overridden vars k o := by
        intro o ho
        rw [(h.isolated k hk v o hv ho).2 (hall o ho)] at hblank
        cases hblank
      refine ⟨hk,v,hv,(mem_env_plain ⟨hv,(plain_of_db hk).1,hfree⟩).mpr ?_⟩
      exact (redirected_self (plain_of_db hk).2.2.1 (h.kept k hk v hv hfree).2).symm
    · rintro ⟨hk,v,hv,hmem⟩
      have hfree : ∀ o, ¬Overridden vars k o := by
        intro o ho
        exact (h.isolated k hk v o hv ho).1 ((mem_env_overridden ho (plain_of_db hk).2.1).mp hmem).symm
      exact ⟨hk,⟨v,hv,(h.kept k hk v hv hfree).1⟩,fun o ho => absurd ho (hfree o)⟩

end

/-- The variables of a preview are as promised exactly when its tests find the production host where it stands
and no database is empty or given its own value. -/
theorem preview_ok_iff_clear (vars : Table String String) (pr : ℤ) (preview : Host) (prod : Option Host) :
    PreviewOk vars pr preview prod ↔ Clear vars preview prod := ⟨clear_of_ok,ok_of_clear⟩

def vigie : Host where
  name := "vigie.jeser.app".toList
  chars := List.all_eq_true.mp (by decide +kernel)
  dotted := by decide +kernel

def vigiePreview : Host where
  name := "pr-6-vigie.jeser.app".toList
  chars := List.all_eq_true.mp (by decide +kernel)
  dotted := by decide +kernel

def loginUrl : String := "https://admin:pw@vigie.jeser.app/login"

def loginVars : Table String String := ⟨[("AUTH_URL",loginUrl)],List.nodup_singleton _⟩

theorem loginUrl_isUrl : IsUrl loginUrl.toList "admin:pw@vigie.jeser.app".toList "/login".toList := by
  rw [isUrl_iff]
  decide +kernel

/-- With user information the URL of production stays in the preview. -/
theorem login_stays_on_production : ¬PreviewOk loginVars 6 vigiePreview (some vigie) := by
  intro h
  have hfree : ∀ o, ¬Overridden loginVars "AUTH_URL" o := by
    rintro o ⟨-,ho⟩
    have hnone : loginVars.get (PREVIEW_OVERRIDE_PREFIX++"AUTH_URL") = none := by decide +kernel
    rw [hnone] at ho
    cases ho
  have hplain : Plain loginVars "AUTH_URL" loginUrl := ⟨by decide +kernel,by decide +kernel,hfree⟩
  have hprod : OnProd (some vigie) loginUrl := ⟨vigie,rfl,_,_,loginUrl_isUrl,by decide +kernel⟩
  obtain htargets | hhost :=
    ((clear_of_ok h).recognised "AUTH_URL" loginUrl _ _ hplain (by decide +kernel) loginUrl_isUrl).1 hprod
  · revert htargets
    decide +kernel
  · revert hhost
    decide +kernel

end DevForge.PreviewEnvKept
