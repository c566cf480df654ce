import DevForge.DotenvRoundTrip
import DevForge.FloatOrder
import DevForge.IpAddresses
import DevForge.NodeLiveness

/-!
# The nodes that may receive an application

The addresses that the check of a worker refuses, read as URLs, and the node
that the placement returns, among those that have a score.
-/

set_option autoImplicit false

namespace DevForge.WorkerPlacement
open ClusterLocal ClusterNodes NodeLiveness DotenvRoundTrip

/-! ## The parts of an address -/

inductive Host where
  | name (text : List Char)
  | bracketed (text : List Char)

def Host.text : Host → List Char
  | .name text => text
  | .bracketed text => text

def Host.written : Host → List Char
  | .name text => text
  | .bracketed text => '['::text++[']']

/-- The signs that end a part of a URL; the last is the backslash. -/
def urlSigns : List Char := "/?#@[]".toList++[Char.ofNat 92]

def hostChar (c : Char) : Bool := !isWhitespace c && !urlSigns.contains c

def userinfoChar (c : Char) : Bool := !([ '/','?','#',Char.ofNat 92].contains c)

/-- An `http` or `https` URL whose authority ends at a slash or at the end of the text. -/
structure WorkerUrl where
  secure : Bool
  userinfo : Option (List Char)
  host : Host
  port : Option (List Char)
  path : List Char
  userinfo_chars : ∀ info ∈ userinfo, ∀ c ∈ info, userinfoChar c = true
  host_ne_nil : host.text ≠ []
  host_chars : ∀ c ∈ host.text, hostChar c = true
  name_no_colon : ∀ name, host = .name name → ':' ∉ name
  port_digits : ∀ digits ∈ port, ∀ c ∈ digits, c.isDigit = true
  path_start : ∀ c ∈ path.head?, c = '/'

namespace WorkerUrl

def scheme (u : WorkerUrl) : List Char := if u.secure then "https://".toList else "http://".toList

def info (u : WorkerUrl) : List Char := (u.userinfo.map (·++['@'])).getD []

def portText (u : WorkerUrl) : List Char := (u.port.map (List.cons ':')).getD []

def hostport (u : WorkerUrl) : List Char := u.host.written++u.portText

def text (u : WorkerUrl) : List Char := u.scheme++(u.info++u.hostport++u.path)

end WorkerUrl

/-- The names of the machine itself: `localhost` and the names under it, the IPv4 addresses that the
check lists, and `[::1]`. -/
def Host.isLocal : Host → Bool
  | .name text =>
    let h := toAsciiLowercase (String.ofList text)
    ["localhost","127.0.0.1","0.0.0.0"].contains h || ".localhost".toList.isSuffixOf h.toList
  | .bracketed text => toAsciiLowercase (String.ofList text) = "::1"

/-- `http://me@[::1]:7700/a`. -/
def exampleUrl : WorkerUrl where
  secure := false
  userinfo := some "me".toList
  host := .bracketed "::1".toList
  port := some "7700".toList
  path := "/a".toList
  userinfo_chars := by
    intro info hi
    cases hi
    exact List.all_eq_true.mp (by decide)
  host_ne_nil := by decide
  host_chars := List.all_eq_true.mp (by decide)
  name_no_colon := by
    intro name hn
    cases hn
  port_digits := by
    intro digits hd
    cases hd
    exact List.all_eq_true.mp (by decide)
  path_start := by
    intro c hc
    cases hc
    rfl

example : exampleUrl.text = "http://me@[::1]:7700/a".toList ∧ exampleUrl.host.isLocal = true := by decide

theorem hostChar_spec {c : Char} (h : hostChar c = true) :
    isWhitespace c = false ∧ c ≠ '/' ∧ c ≠ '@' ∧ c ≠ '[' ∧ c ≠ ']' := by
  obtain ⟨hspace,hsign⟩ := Bool.and_eq_true_iff.mp h
  have hno : ∀ d ∈ urlSigns, c ≠ d := by
    intro d hd hc
    have hmem : urlSigns.contains c = true := List.contains_iff_mem.mpr (hc ▸ hd)
    rw [hmem] at hsign
    cases hsign
  have hplain : isWhitespace c = false := by simpa using hspace
  exact ⟨hplain,hno _ (by decide),hno _ (by decide),hno _ (by decide),hno _ (by decide)⟩

theorem isLoopbackHost_of_chars {l : List Char} (h : ∀ c ∈ l, hostChar c = true) :
    isLoopbackHost (String.ofList l) =
      (["localhost","127.0.0.1","::1","0.0.0.0"].contains (toAsciiLowercase (String.ofList l)) ||
        ".localhost".toList.isSuffixOf (toAsciiLowercase (String.ofList l)).toList) := by
  have htrim : trim (String.ofList l) = String.ofList l := by
    apply trim_of_plain
    intro c hc
    rw [String.toList_ofList] at hc
    exact (hostChar_spec (h c hc)).1
  have hbrackets : trimBy (fun c => c = '[' || c = ']') (String.ofList l) = String.ofList l := by
    apply trimBy_of_plain
    intro c hc
    rw [String.toList_ofList] at hc
    have hspec := hostChar_spec (h c hc)
    simp [hspec.2.2.2.1,hspec.2.2.2.2]
  unfold isLoopbackHost
  rw [htrim, hbrackets]
  simp

theorem listed_of_listed {h : String} (hl : ["localhost","127.0.0.1","0.0.0.0"].contains h = true) :
    ["localhost","127.0.0.1","::1","0.0.0.0"].contains h = true := by
  simp only [List.contains_iff_mem, List.mem_cons, List.not_mem_nil, or_false] at hl ⊢
  rcases hl with hl | hl | hl
  · exact Or.inl hl
  · exact Or.inr (Or.inl hl)
  · exact Or.inr (Or.inr (Or.inr hl))

theorem isLoopbackHost_of_local {h : Host} (hchars : ∀ c ∈ h.text, hostChar c = true) (hl : h.isLocal = true) :
    isLoopbackHost (String.ofList h.text) = true := by
  rw [isLoopbackHost_of_chars hchars, Bool.or_eq_true]
  cases h with
  | name text =>
    rcases Bool.or_eq_true_iff.mp hl with hl | hl
    · exact Or.inl (listed_of_listed hl)
    · exact Or.inr hl
  | bracketed text =>
    have hone : toAsciiLowercase (String.ofList text) = "::1" := of_decide_eq_true hl
    left
    rw [Host.text, hone]
    decide

/-! ## What the cuts find -/

namespace WorkerUrl
variable (u : WorkerUrl)

theorem portText_chars : ∀ c ∈ u.portText, c = ':' ∨ c.isDigit = true := by
  intro c hc
  unfold portText at hc
  cases hp : u.port with
  | none => simp [hp] at hc
  | some digits =>
    simp only [hp, Option.map_some, Option.getD_some, List.mem_cons] at hc
    rcases hc with hc | hc
    · exact Or.inl hc
    · exact Or.inr (u.port_digits digits hp c hc)

theorem not_mem_portText {c : Char} (hc : c ≠ ':') (hd : c.isDigit = false) : c ∉ u.portText := by
  intro h
  rcases u.portText_chars c h with h | h
  · exact hc h
  · rw [hd] at h
    cases h

theorem not_mem_hostport {c : Char} (hc : c = '/' ∨ c = '@') : c ∉ u.hostport := by
  intro h
  rcases List.mem_append.mp h with h | h
  · have htext : ∀ d ∈ u.host.text, d ≠ c := by
      intro d hd
      have := hostChar_spec (u.host_chars d hd)
      rcases hc with rfl | rfl
      · exact this.2.1
      · exact this.2.2.1
    cases hh : u.host with
    | name text =>
      rw [hh] at h htext
      exact htext c h rfl
    | bracketed text =>
      rw [hh] at h htext
      simp only [Host.written, List.cons_append, List.mem_cons, List.mem_append, List.not_mem_nil, or_false] at h
      rcases h with h | h | h
      · rcases hc with rfl | rfl <;> cases h
      · exact htext c h rfl
      · rcases hc with rfl | rfl <;> cases h
  · rcases hc with rfl | rfl
    · exact u.not_mem_portText (by decide) (by decide) h
    · exact u.not_mem_portText (by decide) (by decide) h

theorem takeWhile_authority : (u.info++u.hostport++u.path).takeWhile (· ≠ '/') = u.info++u.hostport := by
  have hchars : ∀ c ∈ u.info++u.hostport, (decide (c ≠ '/')) = true := by
    intro c hc
    rw [decide_eq_true_eq]
    rcases List.mem_append.mp hc with hc | hc
    · unfold info at hc
      cases hi : u.userinfo with
      | none => simp [hi] at hc
      | some info =>
        simp only [hi, Option.map_some, Option.getD_some, List.mem_append, List.mem_singleton] at hc
        rcases hc with hc | rfl
        · rintro rfl
          exact absurd (u.userinfo_chars info hi _ hc) (by decide)
        · decide
    · rintro rfl
      exact u.not_mem_hostport (Or.inl rfl) hc
  rw [List.takeWhile_append_of_pos hchars]
  cases hp : u.path with
  | nil => simp
  | cons c path =>
    have hc : c = '/' := u.path_start c (by rw [hp]; rfl)
    simp [hc]

theorem splitOn_authority : ((u.info++u.hostport).splitOn '@').getLast? = some u.hostport := by
  have hlast : u.hostport.splitOn '@' = [u.hostport] :=
    List.splitOn_eq_singleton (u.not_mem_hostport (Or.inr rfl))
  cases hi : u.userinfo with
  | none => simp [info,hi,hlast]
  | some info =>
    have hinfo : u.info++u.hostport = info++ '@'::u.hostport := by simp [WorkerUrl.info,hi]
    rw [hinfo, List.splitOn_append_cons_self, hlast, List.getLast?_concat]

theorem hostport_ne_nil : u.hostport ≠ [] := by
  intro h
  have hne := u.host_ne_nil
  cases hh : u.host with
  | name text => simp_all [hostport,Host.written,Host.text]
  | bracketed text => simp [hostport,Host.written,hh] at h

end WorkerUrl

theorem urlHost_of_text {s : String} {u : WorkerUrl} (h : trim s = String.ofList u.text) : urlHost s = some u.hostport := by
  have hcut : (((u.info++u.hostport++u.path).takeWhile (· ≠ '/')).splitOn '@').getLast? = some u.hostport := by
    rw [u.takeWhile_authority]
    exact u.splitOn_authority
  have hlist : (trim s).toList = u.scheme++(u.info++u.hostport++u.path) := by rw [h, String.toList_ofList]; rfl
  unfold urlHost startsWith
  rw [hlist]
  cases hs : u.secure with
  | true => simpa [WorkerUrl.scheme,hs,-List.append_assoc,u.hostport_ne_nil] using hcut
  | false => simpa [WorkerUrl.scheme,hs,-List.append_assoc,u.hostport_ne_nil] using hcut

theorem isLoopback_of_text {s : String} {u : WorkerUrl} (h : trim s = String.ofList u.text)
    (hl : u.host.isLocal = true) : isLoopbackAdvertiseUrl s = true := by
  have hlocal := isLoopbackHost_of_local u.host_chars hl
  unfold isLoopbackAdvertiseUrl
  rw [urlHost_of_text h]
  cases hh : u.host with
  | bracketed text =>
    have hinner : ((u.hostport).drop 1).takeWhile (· ≠ ']') = text := by
      have hchars : ∀ c ∈ text, (decide (c ≠ ']')) = true := by
        intro c hc
        have := u.host_chars c (by rw [hh]; exact hc)
        simp [(hostChar_spec this).2.2.2.2]
      have hcut : (u.hostport).drop 1 = text++ ']'::u.portText := by simp [WorkerUrl.hostport,hh,Host.written]
      rw [hcut, List.takeWhile_append_of_pos hchars]
      simp
    have hhead : u.hostport.head? = some '[' := by rw [WorkerUrl.hostport, hh]; rfl
    rw [hh] at hlocal
    simp only [hhead, if_true, hinner]
    exact hlocal
  | name text =>
    have hcolon := u.name_no_colon text hh
    have hhead : u.hostport.head? ≠ some '[' := by
      have hne := u.host_ne_nil
      have hchars := u.host_chars
      rw [hh] at hne hchars
      rw [WorkerUrl.hostport, hh, Host.written]
      cases text with
      | nil => exact absurd rfl hne
      | cons c text => simpa using (hostChar_spec (hchars c List.mem_cons_self)).2.2.2.1
    rw [hh] at hlocal
    simp only [hhead, if_false]
    cases hp : u.port with
    | none =>
      have hport : u.hostport = text := by simp [WorkerUrl.hostport,WorkerUrl.portText,hh,hp,Host.written]
      rw [hport, if_neg (by simp [List.count_eq_zero.mpr hcolon])]
      exact hlocal
    | some digits =>
      have hport : u.hostport = text++ ':'::digits := by simp [WorkerUrl.hostport,WorkerUrl.portText,hh,hp,Host.written]
      have hdigits : ':' ∉ digits := fun hc => absurd (u.port_digits digits hp _ hc) (by decide)
      have hcount : (text++ ':'::digits).count ':' = 1 := by
        rw [List.count_append, List.count_cons_self, List.count_eq_zero.mpr hcolon, List.count_eq_zero.mpr hdigits]
      have hname : (text++ ':'::digits).takeWhile (· ≠ ':') = text := by
        have hchars : ∀ c ∈ text, (decide (c ≠ ':')) = true := by
          intro c hc
          rw [decide_eq_true_eq]
          rintro rfl
          exact hcolon hc
        rw [List.takeWhile_append_of_pos hchars]
        simp
      rw [hport, if_pos hcount, hname]
      exact hlocal

/-! ## Trimming -/

namespace WorkerUrl

theorem hostport_not_space (u : WorkerUrl) : ∀ c ∈ u.hostport, isWhitespace c = false := by
  intro c hc
  rcases List.mem_append.mp hc with hc | hc
  · have htext : ∀ d ∈ u.host.text, isWhitespace d = false := fun d hd => (hostChar_spec (u.host_chars d hd)).1
    cases hh : u.host with
    | name text =>
      rw [hh] at hc htext
      exact htext c hc
    | bracketed text =>
      rw [hh] at hc htext
      simp only [Host.written, List.cons_append, List.mem_cons, List.mem_append, List.not_mem_nil, or_false] at hc
      rcases hc with rfl | hc | rfl
      · decide
      · exact htext c hc
      · decide
  · rcases u.portText_chars c hc with rfl | hd
    · decide
    · have hrange : 48 ≤ c.toNat ∧ c.toNat ≤ 57 := Char.isDigit_iff_toNat.mp hd
      simp only [isWhitespace, List.mem_cons, List.not_mem_nil, or_false, Bool.or_eq_false_iff,
        Bool.and_eq_false_iff, decide_eq_false_iff_not]
      omega

theorem shorten_start (u : WorkerUrl) (p : Char → Bool) : ∀ c ∈ (u.path.rdropWhile p).head?, c = '/' := by
  intro c hc
  obtain ⟨rest,hrest⟩ := List.rdropWhile_prefix p (l := u.path)
  apply u.path_start c
  rw [← hrest, List.head?_append, Option.mem_def.mp hc]
  rfl

/-- The URL without the end of its path. -/
def shorten (p : Char → Bool) (u : WorkerUrl) : WorkerUrl :=
  { u with path := u.path.rdropWhile p, path_start := u.shorten_start p }

theorem text_shorten {p : Char → Bool} (u : WorkerUrl) (h : ∀ c ∈ u.hostport, p c = false) :
    u.text.rdropWhile p = (u.shorten p).text := by
  rcases List.eq_nil_or_concat u.hostport with hnil | ⟨l,c,hl⟩
  · exact absurd hnil u.hostport_ne_nil
  · have hc : p c = false := h c (by rw [hl]; simp)
    have htext : u.text = (u.scheme++(u.info++l))++c::u.path := by simp [text,hl]
    have hshort : (u.shorten p).text = (u.scheme++(u.info++l))++c::u.path.rdropWhile p := by
      have : (u.shorten p).text = u.scheme++(u.info++u.hostport++u.path.rdropWhile p) := rfl
      rw [this, hl]
      simp
    rw [htext, rdropWhile_last hc, hshort]

theorem trim_text (u : WorkerUrl) : trim (String.ofList u.text) = String.ofList (u.shorten isWhitespace).text := by
  have hstart : u.text.dropWhile isWhitespace = u.text := by
    unfold text scheme
    cases u.secure <;> rfl
  rw [← u.text_shorten u.hostport_not_space, trim, trimBy, String.toList_ofList, hstart]
  rfl

theorem trimUrl_text {u : WorkerUrl} {raw : String} (h : trim raw = String.ofList u.text) :
    trimUrl raw = String.ofList (u.shorten (· = '/')).text := by
  have hno : ∀ c ∈ u.hostport, (decide (c = '/')) = false := by
    intro c hc
    rw [decide_eq_false_iff_not]
    rintro rfl
    exact u.not_mem_hostport (Or.inl rfl) hc
  rw [← u.text_shorten hno, trimUrl, h, String.toList_ofList]
  rfl

theorem isHttp_text (u : WorkerUrl) : isHttp (String.ofList u.text) = true := by
  unfold isHttp startsWith text scheme
  cases u.secure <;> simp

end WorkerUrl

def loopbackRefused : String :=
  "URL d’annonce loopback interdite (127.0.0.1 / localhost) — utilise l’IP LAN ou un hostname joignable depuis le leader"

theorem validate_of_text {raw : String} {u : WorkerUrl} (h : trim raw = String.ofList u.text)
    (hl : u.host.isLocal = true) : validateWorkerAdvertiseUrl raw = .error loopbackRefused := by
  have hurl := WorkerUrl.trimUrl_text h
  have hloop : isLoopbackAdvertiseUrl (trimUrl raw) = true := by
    apply isLoopback_of_text (u := (u.shorten (· = '/')).shorten isWhitespace)
    · rw [hurl, WorkerUrl.trim_text]
    · exact hl
  have hhttp : isHttp (trimUrl raw) = true := by rw [hurl, WorkerUrl.isHttp_text]
  have hne : trimUrl raw ≠ "" := by
    intro he
    rw [he] at hhttp
    revert hhttp
    decide
  simp only [validateWorkerAdvertiseUrl, hne, hhttp, hloop, if_false, if_true, Bool.not_true, Bool.false_eq_true]
  rfl

/-! ## The choice -/

section
variable (counts : String → ℕ) (workers : Bool) (weights : PlacementWeights)

/-- The scores of the nodes that have one. -/
def scores (nodes : List (NodeId × ClusterNode)) : List Float :=
  nodes.filterMap (fun e => scoreNode e.2 (counts e.1.text) workers weights)

/-- None of the scores is NaN, and none is less than another that counts as equal to it. -/
structure Comparable (scores : List Float) : Prop where
  numbers : ∀ score ∈ scores, score.isNaN = false
  ties : ∀ score ∈ scores, ∀ other ∈ scores, (score-other).abs < EPSILON → ¬score < other

/-- The best score so far is one of the scores, and none of them is greater. -/
def Greatest (scores : List Float) (best : Option (NodeId × Float)) : Prop :=
  ∀ r ∈ best, r.2 ∈ scores ∧ ∀ score ∈ scores, ¬r.2 < score

theorem Comparable.of_append {before after : List Float} (h : Comparable (before++after)) : Comparable before :=
  ⟨fun s hs => h.numbers s (List.mem_append_left _ hs),
    fun s hs t ht => h.ties s (List.mem_append_left _ hs) t (List.mem_append_left _ ht)⟩

theorem not_lt_trans {seen : List Float} {a b : Float} (h : Comparable (seen++[b])) (ha : a ∈ seen)
    (hgreatest : ∀ s ∈ seen, ¬a < s) (hab : ¬b < a) : ∀ s ∈ seen++[b], ¬b < s := by
  have hnumber : ∀ s ∈ seen++[b], s.isNaN = false := h.numbers
  have hb := hnumber b (by simp)
  have ha' := hnumber a (List.mem_append_left _ ha)
  intro s hs
  rw [FloatOrder.lt_iff_value hb (hnumber s hs), not_lt]
  rw [FloatOrder.lt_iff_value hb ha', not_lt] at hab
  rcases List.mem_append.mp hs with hs' | hs'
  · have hle := hgreatest s hs'
    rw [FloatOrder.lt_iff_value ha' (hnumber s hs), not_lt] at hle
    exact hle.trans hab
  · rw [List.mem_singleton.mp hs']

theorem better_greatest {seen : List Float} {best : Option (NodeId × Float)} {e : NodeId × ClusterNode}
    (hc : Comparable (seen++scores counts workers weights [e])) (hnone : best = none → seen = [])
    (h : Greatest seen best) :
    Greatest (seen++scores counts workers weights [e]) (better counts workers weights best e) := by
  cases hs : scoreNode e.2 (counts e.1.text) workers weights with
  | none =>
    have hkept : better counts workers weights best e = best := by simp [better,hs]
    rw [hkept]
    simpa [scores,hs] using h
  | some score =>
    have hscores : scores counts workers weights [e] = [score] := by simp [scores,hs]
    rw [hscores] at hc ⊢
    cases best with
    | none =>
      intro r hr
      have hr' : r = (e.1,score) := by simpa [better,hs] using hr.symm
      subst hr'
      rw [hnone rfl] at hc ⊢
      refine ⟨by simp,fun s hmem => ?_⟩
      rw [List.mem_singleton.mp hmem]
      have hnumber := hc.numbers score (by simp)
      rw [FloatOrder.lt_iff_value hnumber hnumber]
      exact lt_irrefl _
    | some old =>
      obtain ⟨hmem,hgreatest⟩ := h old rfl
      have hnumber := hc.numbers
      have hold := hnumber old.2 (List.mem_append_left _ hmem)
      have hnew := hnumber score (by simp)
      intro r hr
      unfold better at hr
      simp only [hs] at hr
      by_cases hgt : score > old.2
      · rw [if_pos hgt] at hr
        cases hr
        have hnot : ¬score < old.2 := by
          have hlt : old.2 < score := hgt
          rw [FloatOrder.lt_iff_value hold hnew] at hlt
          rw [FloatOrder.lt_iff_value hnew hold]
          exact hlt.not_gt
        exact ⟨by simp,not_lt_trans hc hmem hgreatest hnot⟩
      · rw [if_neg hgt] at hr
        split at hr
        · next htie =>
          cases hr
          have hclose : (score-old.2).abs < EPSILON := of_decide_eq_true (Bool.and_eq_true_iff.mp htie).1
          have hnot := hc.ties score (by simp) old.2 (List.mem_append_left _ hmem) hclose
          exact ⟨by simp,not_lt_trans hc hmem hgreatest hnot⟩
        · cases hr
          refine ⟨List.mem_append_left _ hmem,fun s hs' => ?_⟩
          rcases List.mem_append.mp hs' with hs' | hs'
          · exact hgreatest s hs'
          · rw [List.mem_singleton.mp hs']
            exact hgt

theorem scores_cons (e : NodeId × ClusterNode) (l : List (NodeId × ClusterNode)) :
    scores counts workers weights (e::l) = scores counts workers weights [e]++scores counts workers weights l :=
  List.filterMap_append (l := [e])

theorem better_none {best : Option (NodeId × Float)} {e : NodeId × ClusterNode}
    (h : better counts workers weights best e = none) : best = none ∧ scores counts workers weights [e] = [] := by
  cases hs : scoreNode e.2 (counts e.1.text) workers weights with
  | none => exact ⟨by simpa [better,hs] using h,by simp [scores,hs]⟩
  | some score =>
    have hlive := eliminated_of_scored hs
    have hsome := better_isSome counts workers weights best e (Or.inr hlive)
    rw [h] at hsome
    cases hsome

theorem foldl_greatest (l : List (NodeId × ClusterNode)) (seen : List Float) (best : Option (NodeId × Float))
    (hc : Comparable (seen++scores counts workers weights l)) (hnone : best = none → seen = [])
    (h : Greatest seen best) :
    Greatest (seen++scores counts workers weights l) (l.foldl (better counts workers weights) best) := by
  induction l generalizing seen best with
  | nil => simpa [scores] using h
  | cons e l ih =>
    rw [scores_cons, ← List.append_assoc] at hc ⊢
    apply ih _ _ hc
    · intro hn
      obtain ⟨hbest,hempty⟩ := better_none counts workers weights hn
      rw [hnone hbest, hempty, List.append_nil]
    · exact better_greatest counts workers weights hc.of_append hnone h

end

theorem pickPlacement_isSome (nodes : List (NodeId × ClusterNode)) (counts : String → ℕ) (weights : PlacementWeights) :
    (pickPlacement nodes counts weights).isSome = true ↔ ∃ e ∈ nodes, eliminated e.2 = false := by
  constructor
  · intro h
    obtain ⟨r,hr⟩ := Option.isSome_iff_exists.mp h
    rcases foldl_better_mem _ _ _ _ _ _ hr with hr | ⟨e,he,_,hscore⟩
    · cases hr
    · exact ⟨e,he,eliminated_of_scored hscore⟩
  · intro h
    exact foldl_better_isSome _ _ _ _ _ (Or.inr h)

theorem reachable_of_worker {n : ClusterNode} (h : eliminated n = false) (hw : n.role = .worker) :
    trim n.advertiseUrl ≠ "" ∧ isLoopbackAdvertiseUrl n.advertiseUrl = false := by
  simp only [eliminated, hw, reachable, Bool.or_eq_false_iff] at h
  simpa using h.2

/-- The scores that the placement compares. -/
def compared (nodes : List (NodeId × ClusterNode)) (counts : String → ℕ) (weights : PlacementWeights) : List Float :=
  scores counts (nodes.any (fun e => workerEligible e.2)) weights nodes

/-- A worker whose address is written with a name of the machine itself is refused and never
returned. The node returned is a candidate, and no other has a greater score. -/
theorem workers_placed :
    (∀ raw (u : WorkerUrl), trim raw = String.ofList u.text → u.host.isLocal = true →
      validateWorkerAdvertiseUrl raw = .error loopbackRefused) ∧
    ∀ nodes counts weights,
      ((pickPlacement nodes counts weights).isSome = true ↔ ∃ e ∈ nodes, eliminated e.2 = false) ∧
      ∀ id score, pickPlacement nodes counts weights = some (id,score) →
        ∃ e ∈ nodes, e.1 = id ∧ e.2.status = .online ∧ e.2.drained = false ∧
          (e.2.role = .worker → trim e.2.advertiseUrl ≠ "" ∧ isLoopbackAdvertiseUrl e.2.advertiseUrl = false ∧
            ∀ u : WorkerUrl, trim e.2.advertiseUrl = String.ofList u.text → u.host.isLocal = false) ∧
          scoreNode e.2 (counts id.text) (nodes.any (fun e => workerEligible e.2)) weights = some score ∧
          (Comparable (compared nodes counts weights) → ∀ other ∈ compared nodes counts weights, ¬score < other) := by
  refine ⟨fun raw u h hl => validate_of_text h hl,fun nodes counts weights =>
    ⟨pickPlacement_isSome nodes counts weights,fun id score h => ?_⟩⟩
  rcases foldl_better_mem _ _ _ _ _ _ h with hnone | ⟨e,he,hid,hscore⟩
  · cases hnone
  · have hid' : e.1 = id := hid
    have hlive := eliminated_of_scored hscore
    obtain ⟨honline,hundrained⟩ := not_eliminated hlive
    refine ⟨e,he,hid',honline,hundrained,fun hw => ?_,hid' ▸ hscore,fun hc => ?_⟩
    · obtain ⟨hurl,hloop⟩ := reachable_of_worker hlive hw
      refine ⟨hurl,hloop,fun u hu => ?_⟩
      rw [Bool.eq_false_iff]
      intro hlocal
      rw [isLoopback_of_text hu hlocal] at hloop
      cases hloop
    · have hgreatest := foldl_greatest counts _ weights nodes [] none hc (fun _ => rfl)
        (by intro r hr; cases hr)
      exact (hgreatest (id,score) h).2

def onlineNode (number : Uuid) (role : NodeRole) (url : String) : NodeId × ClusterNode :=
  (newNodeId number,sampleNode "node" url role .online)

def idleWorker : NodeId × ClusterNode := onlineNode 1 .worker "http://10.0.0.2:7700"

def busyWorker : NodeId × ClusterNode := onlineNode (16^31) .worker "http://10.0.0.3:7700"

def threeProjects (id : String) : ℕ := if id = busyWorker.1.text then 3 else 0

/-- A leader is returned when no worker is eligible, the score returned is the greater one (the
second is that of the busy worker), and `127.0.0.2` is not refused. -/
theorem greater_score_returned :
    (pickPlacement [onlineNode 0 .leader ""] threeProjects PlacementWeights.default).map (fun r => r.1) = some (newNodeId 0) ∧
      (pickPlacement [idleWorker,busyWorker] threeProjects PlacementWeights.default).map (fun r => r.1) = some idleWorker.1 ∧
      (compared [idleWorker,busyWorker] threeProjects PlacementWeights.default)[1]?.any
        (fun least => ((pickPlacement [idleWorker,busyWorker] threeProjects PlacementWeights.default).any
          (fun r => least < r.2))) = true ∧
      (validateWorkerAdvertiseUrl "http://127.0.0.2:7700").toOption = some "http://127.0.0.2:7700" ∧
      ((IpAddresses.parseIpAddr "127.0.0.2").map IpAddresses.IpAddr.isLoopback) = some true := by
  decide +kernel

end DevForge.WorkerPlacement
