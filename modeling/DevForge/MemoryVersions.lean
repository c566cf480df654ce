import DevForge.MemoryRows
import DevForge.VersionChain
import Mathlib.Data.List.Find

/-!
# The versions of a memory

A key has one live entry, every entry leads to one that is not replaced, and its history lists
the twenty versions before it. The cap on notes can forget the entry that is not replaced.
-/

set_option autoImplicit false

namespace DevForge.MemoryVersions
open MemoryRules MemoryStores MemoryRows Transition VersionChain

section
variable {κ : Type}

/-! ## Links -/

structure Version where
  uuid : Uuid
  user : String
  next : Option Uuid

def version (r : Row κ) : Version := ⟨r.uuid,r.userUuid,r.supersededBy⟩

def redirect (old new : Uuid) (v : Version) : Version := if v.uuid = old then { v with next := some new } else v

/-- Each replacement is later, of the same user, and of one version. -/
structure Chained (vs : List Version) : Prop where
  forward : ∀ a ∈ vs, ∀ u, a.next = some u → ∃ b ∈ vs, b.uuid = u ∧ a.uuid < u ∧ a.user = b.user
  single : ∀ a ∈ vs, ∀ b ∈ vs, ∀ u, a.next = some u → b.next = some u → a.uuid = b.uuid

theorem Chained.append {vs : List Version} (h : Chained vs) (new : Uuid) (user : String) :
    Chained (vs++[⟨new,user,none⟩]) := by
  have hold : ∀ {v : Version} {u : Uuid}, v ∈ vs++[⟨new,user,none⟩] → v.next = some u → v ∈ vs := by
    intro v u hv hnext
    obtain hv | hv := List.mem_append.mp hv
    · exact hv
    · rw [List.mem_singleton.mp hv] at hnext
      cases hnext
  constructor
  · intro a ha u hu
    obtain ⟨b,hb,hrest⟩ := h.forward a (hold ha hu) u hu
    exact ⟨b,List.mem_append_left _ hb,hrest⟩
  · intro a ha b hb u hau hbu
    exact h.single a (hold ha hau) b (hold hb hbu) u hau hbu

theorem redirect_uuid (old new : Uuid) (v : Version) : (redirect old new v).uuid = v.uuid := by
  unfold redirect
  split <;> rfl

theorem redirect_user (old new : Uuid) (v : Version) : (redirect old new v).user = v.user := by
  unfold redirect
  split <;> rfl

theorem Chained.redirect {vs : List Version} (h : Chained vs) {old : Version} (hold : old ∈ vs) (new : Uuid)
    (hunique : ∀ v ∈ vs, v.uuid = old.uuid → v = old) (hfresh : ∀ v ∈ vs, v.uuid < new) :
    Chained (vs.map (redirect old.uuid new)++[⟨new,old.user,none⟩]) := by
  have hcases : ∀ {v : Version} {u : Uuid}, v ∈ vs.map (MemoryVersions.redirect old.uuid new)++[⟨new,old.user,none⟩] →
      v.next = some u → (v.uuid = old.uuid ∧ v.user = old.user ∧ u = new) ∨
        (v.uuid ≠ old.uuid ∧ v ∈ vs ∧ v.next = some u) := by
    intro v u hv hnext
    obtain hv | hv := List.mem_append.mp hv
    · obtain ⟨w,hw,rfl⟩ := List.mem_map.mp hv
      by_cases hu : w.uuid = old.uuid
      · left
        rw [MemoryVersions.redirect, if_pos hu] at hnext ⊢
        have huser : w.user = old.user := by rw [hunique w hw hu]
        exact ⟨hu,huser,(Option.some.inj hnext).symm⟩
      · right
        rw [MemoryVersions.redirect, if_neg hu] at hnext ⊢
        exact ⟨hu,hw,hnext⟩
    · rw [List.mem_singleton.mp hv] at hnext
      cases hnext
  constructor
  · intro a ha u hu
    obtain ⟨huuid,huser,rfl⟩ | ⟨hne,hmem,hnext⟩ := hcases ha hu
    · refine ⟨⟨u,old.user,none⟩,by simp,rfl,?_,huser⟩
      rw [huuid]
      exact hfresh old hold
    · obtain ⟨b,hb,hbu,hlt,huser⟩ := h.forward a hmem u hnext
      refine ⟨MemoryVersions.redirect old.uuid new b,List.mem_append_left _ (List.mem_map_of_mem hb),?_,hlt,?_⟩
      · rw [redirect_uuid, hbu]
      · rw [redirect_user, huser]
  · intro a ha b hb u hau hbu
    have hnew : ∀ v ∈ vs, v.next ≠ some new := by
      intro v hv hnext
      obtain ⟨w,hw,hwu,-⟩ := h.forward v hv new hnext
      exact Nat.lt_irrefl _ (hwu ▸ hfresh w hw)
    obtain ⟨haold,-,rfl⟩ | ⟨-,hamem,hanext⟩ := hcases ha hau
    · obtain ⟨hbold,-,-⟩ | ⟨-,hbmem,hbnext⟩ := hcases hb hbu
      · rw [haold, hbold]
      · exact absurd hbnext (hnew b hbmem)
    · obtain ⟨-,-,rfl⟩ | ⟨-,hbmem,hbnext⟩ := hcases hb hbu
      · exact absurd hanext (hnew a hamem)
      · exact h.single a hamem b hbmem u hanext hbnext

theorem setRow_versions (u new : Uuid) (now : Instant) (s : Store κ) :
    (s.setRow u (Row.replacedBy new now)).rows.map version = (s.rows.map version).map (redirect u new) := by
  show (s.rows.map (fun r => if r.uuid = u then Row.replacedBy new now r else r)).map version = _
  rw [List.map_map, List.map_map]
  apply List.map_congr_left
  intro r _
  simp only [Function.comp_apply, redirect]
  by_cases hu : r.uuid = u
  · rw [if_pos hu, if_pos (show (version r).uuid = u from hu)]
    rfl
  · rw [if_neg hu, if_neg (show ¬(version r).uuid = u from hu)]

theorem replaced_versions {same : Row κ → Bool} {row : Row κ} {u : Uuid} {s s' : Store κ}
    (h : Replaced same row u s s') (hne : row.uuid ≠ u) :
    s'.rows.map version = (s.rows.map version).map (redirect u s.next)++[version row] := by
  obtain rfl | rfl := h
  · rw [map_addRow (fun _ => rfl), setRow_versions]
  · rw [setRow_versions, map_addRow (fun _ => rfl), List.map_append, List.map_singleton]
    congr 2
    exact if_neg hne

theorem mapRows_versions {s : Store κ} {f : Row κ → Row κ} (h : ∀ r, version (f r) = version r) :
    ({ s with rows := s.rows.map f } : Store κ).rows.map version = s.rows.map version := by
  show (s.rows.map f).map version = _
  rw [List.map_map, show version ∘ f = version from funext h]

/-! ## Live keys -/

/-- The scope of a row for its store: `cls` of its columns. -/
structure Keyed {γ : Type} (same : WriteReq → Row κ → Bool) (place : WriteReq → κ)
    (found : WriteReq → Store κ → Option (Row κ)) (cls : κ → γ) : Prop where
  same_iff : ∀ req r, same req r = true ↔ r.userUuid = req.userUuid ∧ cls r.place = cls (place req)
  found_row : ∀ req s ex, found req s = some ex →
    ex ∈ s.rows ∧ same req ex = true ∧ ex.live = true ∧ ex.key = req.key ∧ ex.key.isSome = true

def SameKey {γ : Type} (cls : κ → γ) (a b : Row κ) : Prop :=
  a.userUuid = b.userUuid ∧ cls a.place = cls b.place ∧ a.key = b.key ∧ a.key.isSome = true

def OneLive {γ : Type} (cls : κ → γ) (s : Store κ) : Prop :=
  ∀ a ∈ s.rows, ∀ b ∈ s.rows, a.live = true → b.live = true → SameKey cls a b → a.uuid = b.uuid

/-- An entry that is corrected is the live one, or its key has no live entry. -/
def CorrectsFree {γ : Type} (cls : κ → γ) (s : Store κ) : Op → Prop
  | .correct user u _ _ => ∀ ex ∈ s.rows, ex.userUuid = user → ex.uuid = u → ex.supersededBy.isSome = true →
      ∀ b ∈ s.rows, b.live = true → ¬SameKey cls b ex
  | _ => True

/-- What identifies a row's key. -/
def ident (r : Row κ) : Uuid × String × κ × Option String := (r.uuid,r.userUuid,r.place,r.key)

theorem sameKey_of_ident {γ : Type} {cls : κ → γ} {a b a' b' : Row κ} (ha : ident a' = ident a) (hb : ident b' = ident b)
    (h : SameKey cls a b) : SameKey cls a' b' := by
  simp only [ident, Prod.mk.injEq] at ha hb
  obtain ⟨-,hau,hap,hak⟩ := ha
  obtain ⟨-,hbu,hbp,hbk⟩ := hb
  exact ⟨by rw [hau, hbu, h.1],by rw [hap, hbp, h.2.1],by rw [hak, hbk, h.2.2.1],by rw [hak, h.2.2.2]⟩

theorem ident_uuid {a b : Row κ} (h : ident a = ident b) : a.uuid = b.uuid := congrArg Prod.fst h

/-- Changes that leave each live row the key it had. -/
theorem OneLive.of_rows {γ : Type} {cls : κ → γ} {s s' : Store κ} (h : OneLive cls s)
    (hrows : ∀ r' ∈ s'.rows, r'.live = true → ∃ r ∈ s.rows, r.live = true ∧ ident r = ident r') : OneLive cls s' := by
  intro a' ha' b' hb' hla' hlb' hkey
  obtain ⟨a,ha,hla,haid⟩ := hrows a' ha' hla'
  obtain ⟨b,hb,hlb,hbid⟩ := hrows b' hb' hlb'
  have huuid := h a ha b hb hla hlb (sameKey_of_ident haid hbid hkey)
  rw [← ident_uuid haid, ← ident_uuid hbid, huuid]

theorem OneLive.mapRows {γ : Type} {cls : κ → γ} {s : Store κ} (h : OneLive cls s) (f : Row κ → Row κ)
    (hlive : ∀ r, (f r).live = true → r.live = true) (hid : ∀ r, ident (f r) = ident r) :
    OneLive cls { s with rows := s.rows.map f } := by
  apply h.of_rows
  intro r' hr' hl
  obtain ⟨r,hr,rfl⟩ := List.mem_map.mp hr'
  exact ⟨r,hr,hlive r hl,(hid r).symm⟩

theorem OneLive.setRow {γ : Type} {cls : κ → γ} {s : Store κ} (h : OneLive cls s) (u : Uuid) (f : Row κ → Row κ)
    (hlive : ∀ r, (f r).live = true → r.live = true) (hid : ∀ r, ident (f r) = ident r) :
    OneLive cls (s.setRow u f) := by
  apply h.mapRows
  · intro r hl
    split at hl
    · exact hlive r hl
    · exact hl
  · intro r
    split
    · exact hid r
    · rfl

/-- A new row whose key is free. -/
theorem OneLive.new {γ : Type} {same : WriteReq → Row κ → Bool} {place : WriteReq → κ}
    {found : WriteReq → Store κ → Option (Row κ)} {cls : κ → γ} (hkeyed : Keyed same place found cls) {req : WriteReq}
    {t s' : Store κ} (h : OneLive cls t) (hfree : Free same req t) (new : Uuid)
    (hrows : ∀ r' ∈ s'.rows, r'.live = true → (∃ r ∈ t.rows, r.live = true ∧ ident r = ident r') ∨
      ident r' = (new,req.userUuid,place req,req.key)) : OneLive cls s' := by
  have hmixed : ∀ a ∈ t.rows, a.live = true → ∀ b : Row κ, ident b = (new,req.userUuid,place req,req.key) →
      ¬SameKey cls a b := by
    intro a ha hla b hb hkey
    simp only [ident, Prod.mk.injEq] at hb
    obtain ⟨-,hbu,hbp,hbk⟩ := hb
    have hsame : same req a = true := (hkeyed.same_iff req a).mpr ⟨by rw [hkey.1, hbu],by rw [hkey.2.1, hbp]⟩
    have hnot := hfree a ha hla hkey.2.2.2 (by rw [hkey.2.2.1, hbk])
    rw [hsame] at hnot
    cases hnot
  have hsymm : ∀ {a b : Row κ}, SameKey cls a b → SameKey cls b a :=
    fun h => ⟨h.1.symm,h.2.1.symm,h.2.2.1.symm,h.2.2.1 ▸ h.2.2.2⟩
  intro a' ha' b' hb' hla' hlb' hkey
  obtain ⟨a,ha,hla,haid⟩ | haid := hrows a' ha' hla'
  · obtain ⟨b,hb,hlb,hbid⟩ | hbid := hrows b' hb' hlb'
    · have huuid := h a ha b hb hla hlb (sameKey_of_ident haid hbid hkey)
      rw [← ident_uuid haid, ← ident_uuid hbid, huuid]
    · exact absurd (sameKey_of_ident haid rfl hkey) (hmixed a ha hla b' hbid)
  · obtain ⟨b,hb,hlb,hbid⟩ | hbid := hrows b' hb' hlb'
    · exact absurd (sameKey_of_ident hbid rfl (hsymm hkey)) (hmixed b hb hlb a' haid)
    · exact ident_uuid (haid.trans hbid.symm)

theorem addRow_live {same : Row κ → Bool} {row r' : Row κ} {s : Store κ} (h : r' ∈ (addRow same row s).rows)
    (hlive : r'.live = true) : r' ∈ s.rows ∨ r' = row := by
  obtain ⟨r,hr,rfl | ⟨rfl,-⟩⟩ := mem_addRow h
  · exact hr
  · simp [Row.live] at hlive

theorem replacedBy_not_live (new : Uuid) (now : Instant) (r : Row κ) : (Row.replacedBy new now r).live = false := by
  simp [Row.live, Row.replacedBy]

/-- The live rows after a replacement, the new one apart. -/
theorem replaced_live {same : Row κ → Bool} {row r' : Row κ} {u : Uuid} {s s' : Store κ}
    (h : Replaced same row u s s') (hr' : r' ∈ s'.rows) (hlive : r'.live = true) :
    r' ∈ (s.setRow u (Row.replacedBy s.next s.now)).rows ∨ r' = row := by
  obtain rfl | rfl := h
  · exact addRow_live hr' hlive
  · obtain ⟨r,hr,rfl⟩ := mem_setRow.mp hr'
    by_cases hu : r.uuid = u
    · rw [if_pos hu, replacedBy_not_live] at hlive
      cases hlive
    · rw [if_neg hu] at hlive ⊢
      obtain hr | rfl := addRow_live hr hlive
      · exact .inl (mem_setRow.mpr ⟨r,hr,if_neg hu⟩)
      · exact .inr rfl

/-- Where the entry to be replaced is the live one, its key is free once it is replaced. -/
theorem free_of_current {γ : Type} {same : WriteReq → Row κ → Bool} {place : WriteReq → κ}
    {found : WriteReq → Store κ → Option (Row κ)} {cls : κ → γ} (hkeyed : Keyed same place found cls) {req : WriteReq}
    {s : Store κ} {ex : Row κ} (hsame : same req ex = true) (hkey : ex.key = req.key)
    (hcurrent : ∀ b ∈ s.rows, b.live = true → SameKey cls b ex → b.uuid = ex.uuid) (new : Uuid) (now : Instant) :
    Free same req (s.setRow ex.uuid (Row.replacedBy new now)) := by
  intro r' hr' hlive hsome hk
  obtain ⟨r,hr,rfl⟩ := mem_setRow.mp hr'
  by_cases hu : r.uuid = ex.uuid
  · rw [if_pos hu, replacedBy_not_live] at hlive
    cases hlive
  · rw [if_neg hu] at hlive hsome hk ⊢
    apply Bool.eq_false_iff.mpr
    intro hsame'
    obtain ⟨huser,hplace⟩ := (hkeyed.same_iff req r).mp hsame'
    obtain ⟨huser',hplace'⟩ := (hkeyed.same_iff req ex).mp hsame
    apply hu
    exact hcurrent r hr hlive ⟨huser.trans huser'.symm,hplace.trans hplace'.symm,hk.trans hkey.symm,hsome⟩

theorem OneLive.change {γ : Type} {T : Texts} {same : WriteReq → Row κ → Bool} {place : WriteReq → κ}
    {found : WriteReq → Store κ → Option (Row κ)} {cls : κ → γ} (hkeyed : Keyed same place found cls) {indexed : Prop}
    {s s' : Store κ} {op : Op} (h : OneLive cls s) (hc : Change T same place found indexed s op s')
    (hfree : indexed ∨ CorrectsFree cls s op) : OneLive cls s' := by
  have hreplaced : ∀ {req : WriteReq} {c : ℚ} {ex : Row κ} {s' : Store κ},
      Free same req (s.setRow ex.uuid (Row.replacedBy s.next s.now)) →
      Replaced (same req) (newRow T req (place req) c s.next s.now) ex.uuid s s' → OneLive cls s' := by
    intro req c ex s' hf hs'
    have hset := h.setRow ex.uuid (Row.replacedBy s.next s.now)
      (fun r hl => by rw [replacedBy_not_live] at hl; cases hl) (fun _ => rfl)
    apply hset.new hkeyed hf s.next
    intro r' hr' hl
    obtain hmem | rfl := replaced_live hs' hr' hl
    · exact .inl ⟨r',hmem,hl,rfl⟩
    · exact .inr rfl
  cases hc with
  | nothing => exact h
  | refresh req _ ex c _ => exact h.setRow ex.uuid (Row.refresh req c s.now) (fun _ hl => hl) (fun _ => rfl)
  | reinforce _ _ u c _ => exact h.setRow u (Row.reinforce c s.now) (fun _ hl => hl) (fun _ => rfl)
  | insert _ _ req' c hf =>
    apply h.new hkeyed hf s.next
    intro r' hr' hl
    obtain hmem | rfl := addRow_live hr' hl
    · exact .inl ⟨r',hmem,hl,rfl⟩
    · exact .inr rfl
  | supersede req _ ex c s' hfound _ hs' =>
    obtain ⟨hex,hsame,hlive,hkey,-⟩ := hkeyed.found_row req s ex hfound
    apply hreplaced _ hs'
    exact free_of_current hkeyed hsame hkey (fun b hb hlb hk => h b hb ex hex hlb hlive hk) _ _
  | correct user content _ ex req pinned s₁ hex huser hdeleted hreq hindexed hsame _ hs' =>
    have hfree₁ : Free same req (s.setRow ex.uuid (Row.replacedBy s.next s.now)) := by
      obtain hi | hcorrect := hfree
      · exact hindexed hi
      · obtain hi | hsame := hsame
        · exact hindexed hi
        · apply free_of_current hkeyed hsame hreq.2.2.symm
          intro b hb hlb hk
          cases hsup : ex.supersededBy with
          | none => exact h b hb ex hex hlb (by simp [Row.live, hdeleted, hsup]) hk
          | some v => exact absurd hk (hcorrect ex hex huser rfl (by rw [hsup]; rfl) b hb hlb)
    exact (hreplaced hfree₁ hs').setRow _ (fun r => { r with pinned := pinned }) (fun _ hl => hl) (fun _ => rfl)
  | forget =>
    exact h.mapRows _ (fun r hl => by split at hl <;> simp_all [Row.live]) (fun r => by split <;> rfl)
  | purge =>
    exact h.mapRows _ (fun r hl => by split at hl <;> simp_all [Row.live]) (fun r => by split <;> rfl)
  | setPinned =>
    exact h.mapRows _ (fun r hl => by split at hl <;> exact hl) (fun r => by split <;> rfl)

/-! ## Links of a store -/

theorem Chained.change {T : Texts} {same : WriteReq → Row κ → Bool} {place : WriteReq → κ}
    {found : WriteReq → Store κ → Option (Row κ)} {γ : Type} {cls : κ → γ} (hkeyed : Keyed same place found cls)
    {indexed : Prop} {s s' : Store κ} {op : Op} (hs : WellFormed s) (h : Chained (s.rows.map version))
    (hc : Change T same place found indexed s op s') : Chained (s'.rows.map version) := by
  have hreplaced : ∀ {req : WriteReq} {c : ℚ} {ex : Row κ} {s' : Store κ}, ex ∈ s.rows → ex.userUuid = req.userUuid →
      Replaced (same req) (newRow T req (place req) c s.next s.now) ex.uuid s s' → Chained (s'.rows.map version) := by
    intro req c ex s' hex huser hs'
    rw [replaced_versions hs' (Nat.ne_of_gt (hs.fresh ex hex))]
    have hold := h.redirect (List.mem_map_of_mem hex) s.next (by
        intro v hv hu
        obtain ⟨r,hr,rfl⟩ := List.mem_map.mp hv
        rw [hs.eq_of_uuid hr hex hu]) (by
        intro v hv
        obtain ⟨r,hr,rfl⟩ := List.mem_map.mp hv
        exact hs.fresh r hr)
    have hnew : version (newRow T req (place req) c s.next s.now) = ⟨s.next,ex.userUuid,none⟩ := by
      rw [huser]
      rfl
    rw [hnew]
    exact hold
  cases hc with
  | nothing => exact h
  | refresh req _ ex c _ =>
    rw [map_setRow (Row.refresh req c s.now) (fun _ => rfl)]
    exact h
  | reinforce _ _ u c _ =>
    rw [map_setRow (Row.reinforce c s.now) (fun _ => rfl)]
    exact h
  | insert _ _ req' c _ =>
    rw [map_addRow (fun _ => rfl)]
    exact h.append s.next req'.userUuid
  | supersede req _ ex c s' hfound _ hs' =>
    obtain ⟨hex,hsame,-⟩ := hkeyed.found_row req s ex hfound
    exact hreplaced hex ((hkeyed.same_iff req ex).mp hsame).1 hs'
  | correct user content _ ex req pinned s₁ hex huser _ hreq _ _ _ hs' =>
    rw [map_setRow (g := version) (fun r : Row κ => { r with pinned := pinned }) (fun _ => rfl)]
    exact hreplaced hex (huser.trans hreq.1.symm) hs'
  | forget =>
    rw [forgetWhere, mapRows_versions (fun r => by split <;> rfl)]
    exact h
  | purge =>
    rw [purgeExpired, mapRows_versions (fun r => by split <;> rfl)]
    exact h
  | setPinned =>
    rw [MemoryStores.setPinned, mapRows_versions (fun r => by split <;> rfl)]
    exact h

theorem linked {s : Store κ} (hs : WellFormed s) (h : Chained (s.rows.map version)) :
    Linked s.rows Row.uuid Row.supersededBy := by
  constructor
  · intro a ha b hb hu
    exact hs.eq_of_uuid ha hb hu
  · intro a ha u hu
    obtain ⟨v,hv,hvu,hlt,-⟩ := h.forward _ (List.mem_map_of_mem ha) u hu
    obtain ⟨b,hb,rfl⟩ := List.mem_map.mp hv
    exact ⟨b,hb,hvu,hlt⟩
  · intro a ha b hb u hau hbu
    exact hs.eq_of_uuid ha hb (h.single _ (List.mem_map_of_mem ha) _ (List.mem_map_of_mem hb) u hau hbu)

theorem same_user {s : Store κ} (hs : WellFormed s) (h : Chained (s.rows.map version)) {a b : Row κ} (ha : a ∈ s.rows)
    (hb : b ∈ s.rows) (hab : a.supersededBy = some b.uuid) : a.userUuid = b.userUuid := by
  obtain ⟨v,hv,hvu,-,huser⟩ := h.forward _ (List.mem_map_of_mem ha) b.uuid hab
  obtain ⟨c,hc,rfl⟩ := List.mem_map.mp hv
  have heq := hs.eq_of_uuid hc hb hvu
  subst heq
  exact huser

/-! ## Histories -/

theorem find_replaced {s : Store κ} (hs : WellFormed s) (h : Chained (s.rows.map version)) {b : Row κ} (hb : b ∈ s.rows) :
    s.rows.find? (fun r => r.userUuid = b.userUuid && r.supersededBy = some b.uuid) =
      s.rows.find? (fun r => r.supersededBy = some b.uuid) := by
  apply List.find?_congr
  intro r hr
  by_cases hsup : r.supersededBy = some b.uuid
  · simp [hsup, same_user hs h hr hb hsup]
  · simp [hsup]

theorem replaced_eq_back {s : Store κ} (hs : WellFormed s) (h : Chained (s.rows.map version)) (n : ℕ) {b : Row κ}
    (hb : b ∈ s.rows) : replaced b.userUuid s.rows n b.uuid = back s.rows Row.uuid Row.supersededBy n b.uuid := by
  induction n generalizing b with
  | zero => rfl
  | succ n ih =>
    rw [replaced, back, find_replaced hs h hb]
    cases hfind : s.rows.find? (fun r => r.supersededBy = some b.uuid) with
    | none => rfl
    | some a =>
      have ha := List.mem_of_find?_eq_some hfind
      have hsup := List.find?_some hfind
      have huser := same_user hs h ha hb (of_decide_eq_true hsup)
      simp only
      rw [← huser, ih ha]

/-- Where one element meets a test, filtering finds it. -/
theorem filter_eq_find {α : Type} {p : α → Bool} {l : List α} (hl : l.Nodup)
    (hp : ∀ a ∈ l, ∀ b ∈ l, p a = true → p b = true → a = b) : l.filter p = (l.find? p).toList := by
  induction l with
  | nil => rfl
  | cons a l ih =>
    by_cases ha : p a = true
    · rw [List.filter_cons_of_pos ha, List.find?_cons_of_pos ha, Option.toList_some, List.cons.injEq]
      refine ⟨rfl,List.filter_eq_nil_iff.mpr fun b hb hpb => ?_⟩
      have heq := hp a List.mem_cons_self b (List.mem_cons_of_mem _ hb) ha hpb
      exact (List.nodup_cons.mp hl).1 (heq ▸ hb)
    · rw [List.filter_cons_of_neg ha, List.find?_cons_of_neg ha]
      apply ih (List.nodup_cons.mp hl).2
      intro b hb c hc
      exact hp b (List.mem_cons_of_mem _ hb) c (List.mem_cons_of_mem _ hc)

end

/-! ## Postgres reads the same past -/

theorem Pg.chain_nil (user : String) (rows : List (Row PgPlace)) (n : ℕ) : Pg.chain user rows n [] = [] := by
  induction n with
  | zero => rfl
  | succ n ih => rw [Pg.chain, List.flatMap_nil, ih, List.append_nil]

theorem Pg.chain_eq {s : Pg.PgStore} (hs : WellFormed s) (h : Chained (s.rows.map version)) (user : String) (n : ℕ)
    (u : Uuid) : Pg.chain user s.rows n (s.rows.filter (fun m => m.userUuid = user && m.supersededBy = some u)) =
      replaced user s.rows n u := by
  have hnodup : s.rows.Nodup := by
    apply List.Nodup.of_map Row.uuid
    exact hs.uuids.imp (fun hlt => Nat.ne_of_lt hlt)
  induction n generalizing u with
  | zero => rfl
  | succ n ih =>
    have hfilter := filter_eq_find (p := fun m : Row PgPlace => m.userUuid = user && m.supersededBy = some u) hnodup (by
      intro a ha b hb hpa hpb
      simp only [Bool.and_eq_true, decide_eq_true_eq] at hpa hpb
      exact (linked hs h).single a ha b hb u hpa.2 hpb.2)
    rw [hfilter, Pg.chain, replaced]
    cases hfind : s.rows.find? (fun m => m.userUuid = user && m.supersededBy = some u) with
    | none => exact Pg.chain_nil user s.rows n
    | some a =>
      have hswap : (fun m : Row PgPlace => decide (m.supersededBy = some a.uuid) && decide (m.userUuid = user)) =
          (fun m => decide (m.userUuid = user) && decide (m.supersededBy = some a.uuid)) :=
        funext fun m => Bool.and_comm _ _
      rw [Option.toList_some, List.flatMap_singleton, hswap, ih a.uuid]
      rfl

/-! ## Runs of writes and corrections -/

section
variable {κ : Type}

def Revises : Op → Prop
  | .write _ _ => True
  | .correct _ _ _ _ => True
  | _ => False

/-- Only notes are forgotten: by the cap. -/
def ForgetsNotes (s : Store κ) : Prop := ∀ r ∈ s.rows, r.deleted = true → r.tier = .note

theorem ForgetsNotes.setRow {s : Store κ} (h : ForgetsNotes s) (u : Uuid) (f : Row κ → Row κ)
    (hf : ∀ r, (f r).deleted = r.deleted ∧ (f r).tier = r.tier) : ForgetsNotes (s.setRow u f) := by
  intro r' hr' hd
  obtain ⟨r,hr,rfl⟩ := mem_setRow.mp hr'
  split at hd
  · next hu =>
    rw [if_pos hu, (hf r).2]
    exact h r hr ((hf r).1 ▸ hd)
  · next hu =>
    rw [if_neg hu]
    exact h r hr hd

theorem ForgetsNotes.addRow {s : Store κ} (h : ForgetsNotes s) (same : Row κ → Bool) {row : Row κ}
    (hrow : row.deleted = false) : ForgetsNotes (addRow same row s) := by
  intro r' hr' hd
  obtain ⟨r,hr,rfl | ⟨rfl,htier,-⟩⟩ := mem_addRow hr'
  · obtain hr | rfl := hr
    · exact h r' hr hd
    · rw [hrow] at hd
      cases hd
  · exact htier

theorem ForgetsNotes.change {T : Texts} {same : WriteReq → Row κ → Bool} {place : WriteReq → κ}
    {found : WriteReq → Store κ → Option (Row κ)} {indexed : Prop} {s s' : Store κ} {op : Op} (h : ForgetsNotes s)
    (hc : Change T same place found indexed s op s') (hop : Revises op) : ForgetsNotes s' := by
  have hreplaced : ∀ {row : Row κ} {u : Uuid} {sm : Row κ → Bool} {s' : Store κ}, row.deleted = false →
      Replaced sm row u s s' → ForgetsNotes s' := by
    intro row u sm s' hrow hs'
    obtain rfl | rfl := hs'
    · exact (h.setRow u (Row.replacedBy s.next s.now) (fun _ => ⟨rfl,rfl⟩)).addRow sm hrow
    · exact (h.addRow sm hrow).setRow u (Row.replacedBy s.next s.now) (fun _ => ⟨rfl,rfl⟩)
  cases hc with
  | nothing => exact h
  | refresh req _ ex c _ => exact h.setRow _ (Row.refresh req c s.now) (fun _ => ⟨rfl,rfl⟩)
  | reinforce _ _ u c _ => exact h.setRow _ (Row.reinforce c s.now) (fun _ => ⟨rfl,rfl⟩)
  | insert => exact h.addRow _ rfl
  | supersede _ _ _ _ _ _ _ hs' => exact hreplaced rfl hs'
  | correct _ _ _ _ _ pinned _ _ _ _ _ _ _ _ hs' =>
    exact (hreplaced rfl hs').setRow _ (fun r => { r with pinned := pinned }) (fun _ => ⟨rfl,rfl⟩)
  | forget => exact hop.elim
  | purge => exact hop.elim
  | setPinned => exact hop.elim

/-- The entries are versions: one live entry a key, one current version for each, live unless
it is a note that the cap forgot, and histories of twenty versions. -/
structure Chains {γ : Type} (cls : κ → γ) (item : Row κ → Option MemoryItem)
    (history : String → Uuid → Store κ → List MemoryItem) (s : Store κ) : Prop where
  oneLive : ∀ a ∈ s.rows, ∀ b ∈ s.rows, a.live = true → b.live = true → SameKey cls a b → a = b
  current : ∀ a ∈ s.rows, ∃! b, b ∈ s.rows ∧ b.supersededBy = none ∧
    Relation.ReflTransGen (Step s.rows Row.uuid Row.supersededBy) a b
  forgotten : ∀ b ∈ s.rows, b.supersededBy = none → b.live = true ∨ b.tier = .note
  history : ∀ b ∈ s.rows, ∃ past, Lists s.rows Row.uuid Row.supersededBy 20 b past ∧
    (history b.userUuid b.uuid s).map some = past.map item

structure Versioned {γ : Type} (cls : κ → γ) (s : Store κ) : Prop where
  wellFormed : WellFormed s
  chained : Chained (s.rows.map version)
  oneLive : OneLive cls s
  notes : ForgetsNotes s

theorem versioned_empty {γ : Type} (cls : κ → γ) : Versioned cls (Store.empty : Store κ) :=
  ⟨wellFormed_empty,⟨by simp [Store.empty],by simp [Store.empty]⟩,by simp [OneLive, Store.empty],
    by simp [ForgetsNotes, Store.empty]⟩

theorem Versioned.after {γ : Type} {cls : κ → γ} {s : Store κ} (h : Versioned cls s) (delay : ℕ) :
    Versioned cls (s.after delay) :=
  ⟨h.wellFormed.after delay,h.chained,h.oneLive,h.notes⟩

theorem Versioned.change {γ : Type} {T : Texts} {same : WriteReq → Row κ → Bool} {place : WriteReq → κ}
    {found : WriteReq → Store κ → Option (Row κ)} {cls : κ → γ} (hkeyed : Keyed same place found cls) {indexed : Prop}
    {s s' : Store κ} {op : Op} (h : Versioned cls s) (hc : Change T same place found indexed s op s')
    (hop : Revises op) (hfree : indexed ∨ CorrectsFree cls s op) : Versioned cls s' :=
  ⟨h.wellFormed.change hc,h.chained.change hkeyed h.wellFormed hc,h.oneLive.change hkeyed hc hfree,h.notes.change hc hop⟩

theorem Versioned.chains {γ : Type} {cls : κ → γ} {s : Store κ} (h : Versioned cls s) (item : Row κ → Option MemoryItem)
    (history : String → Uuid → Store κ → List MemoryItem)
    (hhistory : ∀ b ∈ s.rows, (history b.userUuid b.uuid s).map some =
      (replaced b.userUuid s.rows 20 b.uuid).map item) : Chains cls item history s := by
  have hlinked := linked h.wellFormed h.chained
  constructor
  · intro a ha b hb hla hlb hkey
    exact h.wellFormed.eq_of_uuid ha hb (h.oneLive a ha b hb hla hlb hkey)
  · intro a ha
    obtain ⟨b,hb,hnone,hpath⟩ := exists_head hlinked ha
    refine ⟨b,⟨hb,hnone,hpath⟩,?_⟩
    rintro c ⟨-,hc,hpath'⟩
    exact head_unique hlinked hc hnone hpath' hpath
  · intro b hb hnone
    cases hd : b.deleted with
    | false => exact .inl (by simp [Row.live, hd, hnone])
    | true => exact .inr (h.notes b hb hd)
  · intro b hb
    refine ⟨_,lists_back hlinked 20 hb,?_⟩
    rw [hhistory b hb, replaced_eq_back h.wellFormed h.chained 20 hb]

end

theorem InMemory.isKeyed : Keyed InMemory.sameScope InMemory.place InMemory.found MemPlace.scope := by
  constructor
  · intro req r
    simp [InMemory.sameScope, InMemory.place]
  · intro req s ex hfound
    obtain ⟨key,hkey,hfind⟩ := Option.bind_eq_some_iff.mp hfound
    have hprops := List.find?_some hfind
    simp only [Bool.and_eq_true, decide_eq_true_eq] at hprops
    obtain ⟨⟨hsame,hk⟩,hlive⟩ := hprops
    exact ⟨List.mem_of_find?_eq_some hfind,hsame,hlive,hk.trans hkey.symm,by rw [hk]; rfl⟩

/-- The columns that the unique index reads. -/
def Pg.scopeOf (p : PgPlace) : ScopeName × String × String := (p.scope,p.projectUuid.getD "",p.agentUuid.getD "")

theorem Pg.isKeyed : Keyed Pg.samePlace Pg.place Pg.found Pg.scopeOf := by
  constructor
  · intro req r
    simp [Pg.samePlace, Pg.scopeOf, and_assoc]
  · intro req s ex hfound
    obtain ⟨key,hkey,hfind⟩ := Option.bind_eq_some_iff.mp hfound
    have hprops := List.find?_some hfind
    simp only [Bool.and_eq_true, decide_eq_true_eq] at hprops
    obtain ⟨⟨hsame,hk⟩,hlive⟩ := hprops
    exact ⟨List.mem_of_find?_eq_some hfind,hsame,hlive,hk.trans hkey.symm,by rw [hk]; rfl⟩

/-! ## Items of Postgres -/

/-- The scope that a request names is not blank. -/
def NamesScope : Op → Prop
  | .write req _ => Named req.scope
  | _ => True

def PlacesNamed (s : Pg.PgStore) : Prop :=
  ∀ p ∈ s.rows.map Row.place, (Scope.fromParts p.scope p.projectUuid p.agentUuid).isSome = true

theorem place_named {req : WriteReq} (h : Named req.scope) :
    (Scope.fromParts (Pg.place req).scope (Pg.place req).projectUuid (Pg.place req).agentUuid).isSome = true := by
  have hblank : ∀ {x : String}, trim x ≠ "" → nonBlank (some x) = some (trim x) := by
    intro x hx
    simp [nonBlank, hx]
  unfold Pg.place
  cases hscope : req.scope with
  | user => rfl
  | project p =>
    rw [hscope] at h
    simp [Scope.fromParts, Scope.name, hblank h]
  | agent a =>
    rw [hscope] at h
    simp [Scope.fromParts, Scope.name, Scope.agentId, hblank h]

theorem PlacesNamed.append {s s' : Pg.PgStore} (h : PlacesNamed s) {req : WriteReq} (hreq : Named req.scope)
    (hs' : s'.rows.map Row.place = s.rows.map Row.place++[Pg.place req]) : PlacesNamed s' := by
  intro p hp
  rw [hs'] at hp
  obtain hp | hp := List.mem_append.mp hp
  · exact h p hp
  · rw [List.mem_singleton.mp hp]
    exact place_named hreq

theorem replaced_places {κ : Type} {same : Row κ → Bool} {row : Row κ} {u : Uuid} {s s' : Store κ}
    (h : Replaced same row u s s') : s'.rows.map Row.place = s.rows.map Row.place++[row.place] := by
  obtain rfl | rfl := h
  · rw [map_addRow (fun _ => rfl), map_setRow (Row.replacedBy s.next s.now) (fun _ => rfl)]
  · rw [map_setRow (Row.replacedBy s.next s.now) (fun _ => rfl), map_addRow (fun _ => rfl)]

theorem PlacesNamed.change {T : Texts} {found : WriteReq → Pg.PgStore → Option (Row PgPlace)}
    {s s' : Pg.PgStore} {op : Op} (h : PlacesNamed s) (hc : Change T Pg.samePlace Pg.place found True s op s')
    (hop : NamesScope op) : PlacesNamed s' := by
  have hmap : ∀ {s' : Pg.PgStore}, s'.rows.map Row.place = s.rows.map Row.place → PlacesNamed s' := by
    intro s' hs' p hp
    exact h p (hs' ▸ hp)
  have hmarks : ∀ {f : Row PgPlace → Row PgPlace}, (∀ r, (f r).place = r.place) →
      (s.rows.map f).map Row.place = s.rows.map Row.place := by
    intro f hf
    rw [List.map_map, show Row.place ∘ f = Row.place from funext hf]
  cases hc with
  | nothing => exact h
  | refresh req _ ex c _ => exact hmap (map_setRow (Row.refresh req c s.now) (fun _ => rfl) _ _)
  | reinforce _ _ u c _ => exact hmap (map_setRow (Row.reinforce c s.now) (fun _ => rfl) _ _)
  | insert req _ req' c _ hreq =>
    have hnamed : Named req'.scope := by
      obtain rfl | ⟨note,rfl⟩ := hreq
      · exact hop
      · exact hop
    exact h.append hnamed (map_addRow (fun _ => rfl) _ _ s)
  | supersede req _ ex c s' _ _ hs' => exact h.append hop (replaced_places hs')
  | correct _ _ _ ex req pinned s₁ _ _ _ _ _ _ hnamed hs' =>
    have hpinned := map_setRow (g := Row.place) (fun r : Row PgPlace => { r with pinned := pinned }) (fun _ => rfl) s.next s₁
    exact h.append (hnamed trivial) (hpinned.trans (replaced_places hs'))
  | forget => exact hmap (hmarks (fun r => by split <;> rfl))
  | purge => exact hmap (hmarks (fun r => by split <;> rfl))
  | setPinned => exact hmap (hmarks (fun r => by split <;> rfl))

theorem map_filterMap {α β : Type} {f : α → Option β} {l : List α} (h : ∀ a ∈ l, (f a).isSome = true) :
    (l.filterMap f).map some = l.map f := by
  induction l with
  | nil => rfl
  | cons a l ih =>
    obtain ⟨b,hb⟩ := Option.isSome_iff_exists.mp (h a List.mem_cons_self)
    rw [List.filterMap_cons_some hb, List.map_cons, List.map_cons, hb,
      ih (fun c hc => h c (List.mem_cons_of_mem _ hc))]

theorem replaced_mem {κ : Type} {user : String} {rows : List (Row κ)} {n : ℕ} {u : Uuid} {r : Row κ}
    (h : r ∈ replaced user rows n u) : r ∈ rows := by
  induction n generalizing u with
  | zero => cases h
  | succ n ih =>
    rw [replaced] at h
    split at h
    · next a ha =>
      obtain rfl | h := List.mem_cons.mp h
      · exact List.mem_of_find?_eq_some ha
      · exact ih h
    · cases h

/-! ## The chains of both stores -/

instance (op : Op) : Decidable (Revises op) := by
  unfold Revises
  split <;> infer_instance

instance (scope : Scope) : Decidable (Named scope) := by
  unfold Named
  split <;> infer_instance

instance (op : Op) : Decidable (NamesScope op) := by
  unfold NamesScope
  split <;> infer_instance

instance {κ γ : Type} [DecidableEq γ] (cls : κ → γ) (a b : Row κ) : Decidable (SameKey cls a b) :=
  inferInstanceAs (Decidable (_ ∧ _ ∧ _ ∧ _))

instance {κ γ : Type} [DecidableEq γ] (cls : κ → γ) (s : Store κ) (op : Op) : Decidable (CorrectsFree cls s op) := by
  unfold CorrectsFree
  split <;> infer_instance

theorem InMemory.versioned (T : Texts) (es : List Event) (h : Guarded (InMemory.step T)
    (fun s e => Revises e.op ∧ CorrectsFree MemPlace.scope (s.after e.delay) e.op) es Store.empty) :
    Versioned MemPlace.scope (run (InMemory.step T) es Store.empty) := by
  apply guarded_invariant (InMemory.step T) _ (Versioned MemPlace.scope) ?_ es _ (versioned_empty _) h
  intro s e hs he
  exact (hs.after e.delay).change InMemory.isKeyed (InMemory.perform_change T e.op _) he.1 (.inr he.2)

theorem Pg.versioned (T : Texts) (es : List Event) (h : ∀ e ∈ es, Revises e.op ∧ NamesScope e.op) :
    Versioned Pg.scopeOf (run (Pg.step T) es Store.empty) ∧ PlacesNamed (run (Pg.step T) es Store.empty) := by
  have hg : Guarded (Pg.step T) (fun _ e => Revises e.op ∧ NamesScope e.op) es Store.empty := by
    generalize (Store.empty : Pg.PgStore) = s
    induction es generalizing s with
    | nil => trivial
    | cons e es ih => exact ⟨h e List.mem_cons_self,ih (fun e' he' => h e' (List.mem_cons_of_mem _ he')) _⟩
  apply guarded_invariant (Pg.step T) _ (fun s => Versioned Pg.scopeOf s ∧ PlacesNamed s) ?_ es _
    ⟨versioned_empty _,by simp [PlacesNamed, Store.empty]⟩ hg
  rintro s e ⟨hs,hp⟩ ⟨hrevises,hnames⟩
  have hchange := Pg.perform_change T e.op (s.after e.delay)
  have hplaces : PlacesNamed (s.after e.delay) := hp
  exact ⟨(hs.after e.delay).change Pg.isKeyed hchange hrevises (.inl trivial),hplaces.change hchange hnames⟩

/-- After writes and corrections the entries of both stores are chains of versions: in memory
as long as no correction addresses a replaced entry whose key has a live one, in Postgres as
long as no request names a blank scope. -/
theorem versions_form_chains (T : Texts) (es : List Event) :
    (Guarded (InMemory.step T)
        (fun s e => Revises e.op ∧ CorrectsFree MemPlace.scope (s.after e.delay) e.op) es Store.empty →
      Chains MemPlace.scope (fun r => some (InMemory.item r)) InMemory.history
        (run (InMemory.step T) es Store.empty)) ∧
    ((∀ e ∈ es, Revises e.op ∧ NamesScope e.op) →
      Chains Pg.scopeOf Pg.intoItem Pg.history (run (Pg.step T) es Store.empty)) := by
  constructor
  · intro h
    apply (InMemory.versioned T es h).chains
    intro b _
    rw [InMemory.history, List.map_map]
    rfl
  · intro h
    obtain ⟨hs,hp⟩ := Pg.versioned T es h
    apply hs.chains
    intro b _
    rw [Pg.history, Pg.chain_eq hs.wellFormed hs.chained]
    apply map_filterMap
    intro a ha
    have hplace := hp a.place (List.mem_map_of_mem (replaced_mem ha))
    rw [Pg.intoItem, Option.isSome_map]
    exact hplace

/-- A user's preferred branch, under a key. -/
def branch (name : String) : WriteReq where
  userUuid := "u1"
  scope := .project "p1"
  projectUuid := none
  tier := .profile
  kind := "decision"
  key := some "branch"
  content := name
  source := "user_said"
  confidence := 1
  expiresIn := none
  createdBy := "user"

theorem branch_chains :
    Chains MemPlace.scope (fun r => some (InMemory.item r)) InMemory.history (run (InMemory.step asciiTexts)
      [⟨1,.write (branch "dev") []⟩,⟨1,.write (branch "main") []⟩,⟨1,.correct "u1" 1 "release" []⟩] Store.empty) ∧
    Chains Pg.scopeOf Pg.intoItem Pg.history (run (Pg.step asciiTexts)
      [⟨1,.write (branch "dev") []⟩,⟨1,.write (branch "main") []⟩,⟨1,.correct "u1" 1 "release" []⟩] Store.empty) :=
  ⟨(versions_form_chains asciiTexts _).1 (by decide +kernel),
    (versions_form_chains asciiTexts _).2 (by decide +kernel)⟩

def branches : List Event := (List.range 22).map (fun i => ⟨1,.write (branch (toString i)) []⟩)

/-- The twenty-first version back is an ancestor that the history leaves out. -/
theorem oldest_version_left_out : ¬∀ (T : Texts) (es : List Event), (∀ e ∈ es, Revises e.op) →
    ∀ b ∈ (run (InMemory.step T) es Store.empty).rows, b.live = true →
      ∀ a, Relation.TransGen (Step (run (InMemory.step T) es Store.empty).rows Row.uuid Row.supersededBy) a b →
        InMemory.item a ∈ InMemory.history b.userUuid b.uuid (run (InMemory.step T) es Store.empty) := by
  intro h
  have hs := InMemory.versioned asciiTexts branches (by decide +kernel)
  obtain ⟨a,ha⟩ : ∃ a, (run (InMemory.step asciiTexts) branches Store.empty).rows.head? = some a := by
    apply Option.isSome_iff_exists.mp
    decide +kernel
  have hmem := List.mem_of_head? ha
  obtain ⟨b,hb,hnone,hpath⟩ := exists_head (linked hs.wellFormed hs.chained) hmem
  have hlast : ∀ r ∈ (run (InMemory.step asciiTexts) branches Store.empty).rows, r.supersededBy = none →
      r.live = true ∧ r.userUuid = "u1" ∧ r.uuid = 21 := by decide +kernel
  obtain ⟨hlive,huser,huuid⟩ := hlast b hb hnone
  have hfirst : ∀ r ∈ (run (InMemory.step asciiTexts) branches Store.empty).rows.head?, r.uuid = 0 := by decide +kernel
  have hzero : a.uuid = 0 := hfirst a ha
  obtain heq | hpath := Relation.reflTransGen_iff_eq_or_transGen.mp hpath
  · rw [← heq, huuid] at hzero
    cases hzero
  · have hlisted := h asciiTexts branches (by decide +kernel) b hb hlive a hpath
    rw [huser, huuid] at hlisted
    have hnot : ∀ i ∈ InMemory.history "u1" 21 (run (InMemory.step asciiTexts) branches Store.empty), i.uuid ≠ 0 := by
      decide +kernel
    exact hnot _ hlisted hzero

end DevForge.MemoryVersions
