import DevForge.MemoryRows

/-!
# Which rows expire

A note always has an expiry. The other rows have none as long as no keyed entry of another
tier is refreshed by a note, in both stores.
-/

set_option autoImplicit false

namespace DevForge.NoteExpiry
open MemoryRules MemoryStores MemoryRows Transition

section
variable {κ : Type}

def NotesExpire (s : Store κ) : Prop := ∀ r ∈ s.rows, r.tier = .note → r.expiresAt.isSome = true

def OthersStay (s : Store κ) : Prop := ∀ r ∈ s.rows, r.tier ≠ .note → r.expiresAt = none

/-- A purge forgets notes only. -/
def PurgesNotes (s : Store κ) : Prop :=
  ∀ r ∈ s.rows, r.deleted = false → { r with deleted := true } ∈ (purgeExpired s).2.rows → r.tier = .note

structure ExpiryOfNotes (s : Store κ) : Prop where
  notes : NotesExpire s
  others : OthersStay s
  purged : ∀ delay, PurgesNotes (s.after delay)

/-! ## Tier and expiry of a row -/

def Row.expiry (r : Row κ) : Tier × Option Instant := (r.tier,r.expiresAt)

theorem notesExpire_iff {s : Store κ} :
    NotesExpire s ↔ ∀ p ∈ s.rows.map Row.expiry, p.1 = .note → p.2.isSome = true := by
  simp [NotesExpire, Row.expiry]

theorem othersStay_iff {s : Store κ} :
    OthersStay s ↔ ∀ p ∈ s.rows.map Row.expiry, p.1 ≠ .note → p.2 = none := by
  simp [OthersStay, Row.expiry]

/-- The expiries after a change that sets none. -/
theorem notesExpire_of_map {s s' : Store κ} (h : s'.rows.map Row.expiry = s.rows.map Row.expiry) :
    (NotesExpire s' ↔ NotesExpire s) ∧ (OthersStay s' ↔ OthersStay s) := by
  rw [notesExpire_iff, notesExpire_iff, othersStay_iff, othersStay_iff, h]
  exact ⟨Iff.rfl,Iff.rfl⟩

theorem expiry_new {T : Texts} {req : WriteReq} {p : κ} {c : ℚ} {u : Uuid} {now : Instant} :
    (newRow T req p c u now).tier = .note ↔ (newRow T req p c u now).expiresAt.isSome = true := by
  show req.tier = .note ↔ (MemoryRules.expiresAt req now).isSome = true
  unfold MemoryRules.expiresAt
  cases req.tier <;> simp

/-- A row that is added has an expiry if and only if it is a note. -/
theorem notesExpire_of_append {s s' : Store κ} {row : Row κ}
    (h : s'.rows.map Row.expiry = s.rows.map Row.expiry++[Row.expiry row])
    (hrow : row.tier = .note ↔ row.expiresAt.isSome = true) :
    (NotesExpire s' ↔ NotesExpire s) ∧ (OthersStay s' ↔ OthersStay s) := by
  have hnone : row.tier ≠ .note → row.expiresAt = none := by
    intro hne
    have hnot := mt hrow.mpr hne
    simpa using hnot
  rw [notesExpire_iff, notesExpire_iff, othersStay_iff, othersStay_iff, h]
  constructor
  · constructor
    · intro hall p hp
      exact hall p (List.mem_append_left _ hp)
    · intro hall p hp
      obtain hp | hp := List.mem_append.mp hp
      · exact hall p hp
      · rw [List.mem_singleton.mp hp]
        exact hrow.mp
  · constructor
    · intro hall p hp
      exact hall p (List.mem_append_left _ hp)
    · intro hall p hp
      obtain hp | hp := List.mem_append.mp hp
      · exact hall p hp
      · rw [List.mem_singleton.mp hp]
        exact hnone

theorem replaced_expiry {same : Row κ → Bool} {row : Row κ} {u : Uuid} {s s' : Store κ} (h : Replaced same row u s s') :
    s'.rows.map Row.expiry = s.rows.map Row.expiry++[Row.expiry row] := by
  obtain rfl | rfl := h
  · rw [map_addRow (fun _ => rfl), map_setRow (Row.replacedBy s.next s.now) (fun _ => rfl)]
  · rw [map_setRow (Row.replacedBy s.next s.now) (fun _ => rfl), map_addRow (fun _ => rfl)]

/-! ## One operation -/

/-- A note that refreshes a keyed row refreshes a note. -/
def RefreshesNote (T : Texts) (found : WriteReq → Store κ → Option (Row κ)) (s : Store κ) : Op → Prop
  | .write req known => req.tier = .note → ∀ ex, Refreshes T (found req s) req known ex → ex.tier = .note
  | _ => True

theorem refreshesNote_of_quiet {T : Texts} {found : WriteReq → Store κ → Option (Row κ)} {s : Store κ} {op : Op}
    (h : Quiet T found s op) : RefreshesNote T found s op := by
  cases op with
  | write req known => exact fun _ ex hex => (h ex hex).elim
  | _ => trivial

theorem mapRows_expiry {s : Store κ} {f : Row κ → Row κ} (h : ∀ r, Row.expiry (f r) = Row.expiry r) :
    ({ s with rows := s.rows.map f } : Store κ).rows.map Row.expiry = s.rows.map Row.expiry := by
  show (s.rows.map f).map Row.expiry = _
  rw [List.map_map, show Row.expiry ∘ f = Row.expiry from funext h]

theorem refresh_expiry {req : WriteReq} {c : ℚ} {s : Store κ} {ex : Row κ} (hs : WellFormed s) (hex : ex ∈ s.rows) :
    (NotesExpire s → NotesExpire (s.setRow ex.uuid (Row.refresh req c s.now))) ∧
      (OthersStay (s.setRow ex.uuid (Row.refresh req c s.now)) ↔
        OthersStay s ∧ (req.tier = .note → ex.tier = .note)) := by
  have hkeep : ∀ r : Row κ, r.expiresAt.isSome = true → (Row.refresh req c s.now r).expiresAt.isSome = true := by
    intro r hr
    show ((MemoryRules.expiresAt req s.now).or r.expiresAt).isSome = true
    rw [Option.isSome_or, hr, Bool.or_true]
  refine ⟨?_,?_,?_⟩
  · intro hn r' hr' htier
    obtain ⟨r,hr,rfl⟩ := mem_setRow.mp hr'
    by_cases hu : r.uuid = ex.uuid
    · rw [if_pos hu] at htier ⊢
      exact hkeep r (hn r hr htier)
    · rw [if_neg hu] at htier ⊢
      exact hn r hr htier
  · intro ho
    constructor
    · intro r hr htier
      have himage := ho _ (mem_setRow.mpr ⟨r,hr,rfl⟩)
      split at himage
      · have hnone := himage htier
        by_contra hsome
        have hkept := hkeep r (Option.isSome_iff_ne_none.mpr hsome)
        rw [hnone] at hkept
        cases hkept
      · exact himage htier
    · intro hnote
      by_contra htier
      have hnone := ho _ (mem_setRow.mpr ⟨ex,hex,if_pos rfl⟩) htier
      simp [Row.refresh, MemoryRules.expiresAt, hnote] at hnone
  · rintro ⟨ho,hnote⟩ r' hr' htier
    obtain ⟨r,hr,rfl⟩ := mem_setRow.mp hr'
    by_cases hu : r.uuid = ex.uuid
    · have hrow := hs.eq_of_uuid hr hex hu
      subst hrow
      rw [if_pos hu] at htier ⊢
      have hnot : req.tier ≠ .note := fun h => htier (hnote h)
      have hexp : MemoryRules.expiresAt req s.now = none := by
        unfold MemoryRules.expiresAt
        split
        · contradiction
        · rfl
      show (MemoryRules.expiresAt req s.now).or r.expiresAt = none
      rw [hexp, Option.none_or]
      exact ho r hr htier
    · rw [if_neg hu] at htier ⊢
      exact ho r hr htier

theorem change_expiry {T : Texts} {same : WriteReq → Row κ → Bool} {place : WriteReq → κ}
    {found : WriteReq → Store κ → Option (Row κ)} {indexed : Prop} {s s' : Store κ} {op : Op} (hs : WellFormed s)
    (hfound : ∀ req ex, found req s = some ex → ex ∈ s.rows)
    (hc : Change T same place found indexed s op s') :
    (NotesExpire s → NotesExpire s') ∧ (OthersStay s' ↔ OthersStay s ∧ RefreshesNote T found s op) := by
  have hquiet : RefreshesNote T found s op → (NotesExpire s' ↔ NotesExpire s) ∧ (OthersStay s' ↔ OthersStay s) →
      (NotesExpire s → NotesExpire s') ∧ (OthersStay s' ↔ OthersStay s ∧ RefreshesNote T found s op) := by
    rintro hr ⟨hn,ho⟩
    exact ⟨hn.mpr,by rw [ho, and_iff_left hr]⟩
  cases hc with
  | nothing _ hq => exact hquiet (refreshesNote_of_quiet hq) ⟨Iff.rfl,Iff.rfl⟩
  | refresh req known ex c h =>
    have hex := hfound req ex h.found
    refine ⟨(refresh_expiry hs hex).1,?_⟩
    rw [(refresh_expiry hs hex).2]
    apply and_congr_right
    intro _
    constructor
    · intro hnote htier ex' hex'
      rw [← Option.some.inj (h.found.symm.trans hex'.found)]
      exact hnote htier
    · intro hnote htier
      exact hnote htier ex h
  | reinforce _ _ u c hq =>
    exact hquiet (refreshesNote_of_quiet hq) (notesExpire_of_map (map_setRow (Row.reinforce c s.now) (fun _ => rfl) u s))
  | insert req known req' c _ _ hq =>
    exact hquiet (refreshesNote_of_quiet hq) (notesExpire_of_append (map_addRow (fun _ => rfl) _ _ s) expiry_new)
  | supersede req known ex c s' h hother hs' =>
    exact hquiet (refreshesNote_of_quiet (quiet_of_other h hother)) (notesExpire_of_append (replaced_expiry hs') expiry_new)
  | correct user content known ex req pinned s' _ _ _ _ _ _ _ hs' =>
    have hmap := map_setRow (g := Row.expiry) (fun r : Row κ => { r with pinned := pinned }) (fun _ => rfl) s.next s'
    exact hquiet trivial (notesExpire_of_append (hmap.trans (replaced_expiry hs')) expiry_new)
  | forget => exact hquiet trivial (notesExpire_of_map (mapRows_expiry (fun r => by split <;> rfl)))
  | purge => exact hquiet trivial (notesExpire_of_map (mapRows_expiry (fun r => by split <;> rfl)))
  | setPinned => exact hquiet trivial (notesExpire_of_map (mapRows_expiry (fun r => by split <;> rfl)))

/-- What expires is a note, so a purge forgets notes only. -/
theorem purgesNotes {s : Store κ} (hs : WellFormed s) (ho : OthersStay s) : PurgesNotes s := by
  intro r hr hdeleted hpurged
  obtain ⟨r₀,hr₀,himage⟩ := List.mem_map.mp hpurged
  have huuid : r₀.uuid = r.uuid := by
    have h := congrArg Row.uuid himage
    split at h <;> exact h
  have hrow := hs.eq_of_uuid hr₀ hr huuid
  subst hrow
  by_contra htier
  have hlive : unexpired s.now r₀ = true := by
    rw [unexpired, ho r₀ hr htier]
    rfl
  rw [hdeleted, hlive] at himage
  have hd := congrArg Row.deleted himage
  simp [hdeleted] at hd

end

/-! ## Runs -/

theorem InMemory.found_mem {req : WriteReq} {s : InMemory.MemStore} {ex : Row MemPlace}
    (h : InMemory.found req s = some ex) : ex ∈ s.rows := by
  obtain ⟨key,-,hkey⟩ := Option.bind_eq_some_iff.mp h
  exact List.mem_of_find?_eq_some hkey

theorem Pg.found_mem {req : WriteReq} {s : Pg.PgStore} {ex : Row PgPlace} (h : Pg.found req s = some ex) :
    ex ∈ s.rows := by
  obtain ⟨key,-,hkey⟩ := Option.bind_eq_some_iff.mp h
  exact List.mem_of_find?_eq_some hkey

/-- The states of a run: the steps of both stores are changes. -/
theorem run_expiry_iff {κ : Type} (T : Texts) (step : Store κ → Event → Store κ) (same : WriteReq → Row κ → Bool)
    (place : WriteReq → κ) (found : WriteReq → Store κ → Option (Row κ)) (indexed : Prop)
    (hfound : ∀ (s : Store κ) req ex, found req s = some ex → ex ∈ s.rows)
    (hchange : ∀ s e, Change T same place found indexed (s.after e.delay) e.op (step s e)) (es : List Event) :
    ExpiryOfNotes (run step es Store.empty) ↔
      Guarded step (fun s e => RefreshesNote T found (s.after e.delay) e.op) es Store.empty := by
  have hwell : ∀ s e, WellFormed s → WellFormed (step s e) := fun s e h => (h.after e.delay).change (hchange s e)
  have hempty : OthersStay (Store.empty : Store κ) := by simp [OthersStay, Store.empty]
  have hothers := recorded_within step (fun s e => RefreshesNote T found (s.after e.delay) e.op) OthersStay WellFormed hwell
    (fun s e h => (change_expiry (h.after e.delay) (hfound _) (hchange s e)).2) es _ wellFormed_empty
  have hinv : WellFormed (run step es Store.empty) ∧ NotesExpire (run step es Store.empty) := by
    apply invariant step (fun s => WellFormed s ∧ NotesExpire s) ?_ es _ ⟨wellFormed_empty,by simp [NotesExpire, Store.empty]⟩
    rintro s e ⟨h,hn⟩
    exact ⟨hwell s e h,(change_expiry (h.after e.delay) (hfound _) (hchange s e)).1 hn⟩
  constructor
  · intro h
    exact (hothers.mp h.others).2
  · intro h
    have ho := hothers.mpr ⟨hempty,h⟩
    exact ⟨hinv.2,ho,fun delay => purgesNotes (hinv.1.after delay) ho⟩

/-- A run keeps expiry to the notes exactly when no note refreshes a keyed entry of another
tier. -/
theorem expiry_of_notes_iff (T : Texts) (es : List Event) :
    (ExpiryOfNotes (run (InMemory.step T) es Store.empty) ↔ Guarded (InMemory.step T)
      (fun s e => RefreshesNote T InMemory.found (s.after e.delay) e.op) es Store.empty) ∧
    (ExpiryOfNotes (run (Pg.step T) es Store.empty) ↔ Guarded (Pg.step T)
      (fun s e => RefreshesNote T Pg.found (s.after e.delay) e.op) es Store.empty) := by
  constructor
  · exact run_expiry_iff T _ _ _ _ False (fun _ _ _ => InMemory.found_mem)
      (fun s e => InMemory.perform_change T e.op (s.after e.delay)) es
  · exact run_expiry_iff T _ _ _ _ True (fun _ _ _ => Pg.found_mem)
      (fun s e => Pg.perform_change T e.op (s.after e.delay)) es

def portDecision : WriteReq where
  userUuid := "u1"
  scope := .project "p1"
  projectUuid := none
  tier := .log
  kind := "decision"
  key := some "api.port"
  content := "3016"
  source := "user_said"
  confidence := 1
  expiresIn := none
  createdBy := "user"

/-- A note with the key and the text of a decision makes it expire, and a purge forgets it. -/
theorem purge_forgets_decision :
    let es := [Event.mk 0 (.write portDecision []),⟨1,.write { portDecision with tier := .note } []⟩,
      ⟨MAX_NOTE_TTL,.purgeExpired⟩]
    ((run (InMemory.step asciiTexts) es Store.empty).rows.map (fun r => (r.tier,r.deleted)) = [(.log,true)] ∧
      ¬ExpiryOfNotes (run (InMemory.step asciiTexts) es Store.empty)) ∧
    (run (Pg.step asciiTexts) es Store.empty).rows.map (fun r => (r.tier,r.deleted)) = [(.log,true)] ∧
      ¬ExpiryOfNotes (run (Pg.step asciiTexts) es Store.empty) := by
  refine ⟨⟨by decide +kernel,fun h => ?_⟩,by decide +kernel,fun h => ?_⟩
  · have hothers := h.others
    revert hothers
    unfold OthersStay
    decide +kernel
  · have hothers := h.others
    revert hothers
    unfold OthersStay
    decide +kernel

end DevForge.NoteExpiry
