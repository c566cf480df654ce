import DevForge.MemoryRows

/-!
# Accepted writes

The row that an accepted write designates is live, bears what was asked and is not expired,
in both stores; the refresh of a keyed row looks neither at its tier nor at its expiry.
-/

set_option autoImplicit false

namespace DevForge.AcceptedWrites
open MemoryRules MemoryStores MemoryRows

section
variable {κ : Type} (T : Texts)

/-! ## Rows keep their normalised text -/

def NormalTexts (s : Store κ) : Prop := ∀ r ∈ s.rows, r.contentNorm = normalize T r.content

variable {T}

theorem NormalTexts.after {s : Store κ} (h : NormalTexts T s) (delay : ℕ) : NormalTexts T (s.after delay) := h

theorem NormalTexts.mapRows {s : Store κ} (h : NormalTexts T s) (f : Row κ → Row κ)
    (hf : ∀ r, (f r).contentNorm = r.contentNorm ∧ (f r).content = r.content) :
    NormalTexts T { s with rows := s.rows.map f } := by
  intro r' hr'
  obtain ⟨r,hr,rfl⟩ := List.mem_map.mp hr'
  rw [(hf r).1, (hf r).2]
  exact h r hr

theorem NormalTexts.setRow {s : Store κ} (h : NormalTexts T s) (u : Uuid) (f : Row κ → Row κ)
    (hf : ∀ r, (f r).contentNorm = r.contentNorm ∧ (f r).content = r.content) : NormalTexts T (s.setRow u f) := by
  apply NormalTexts.mapRows h
  intro r
  split
  · exact hf r
  · exact ⟨rfl,rfl⟩

theorem NormalTexts.addRow {s : Store κ} (h : NormalTexts T s) (same : Row κ → Bool) (req : WriteReq) (place : κ)
    (c : ℚ) (u : Uuid) (now : Instant) : NormalTexts T (addRow same (newRow T req place c u now) s) := by
  intro r' hr'
  obtain ⟨r,hr,hform⟩ := mem_addRow hr'
  have hnormal : r.contentNorm = normalize T r.content := by
    obtain hr | rfl := hr
    · exact h r hr
    · exact (normalize_trim T req.content).symm
  obtain rfl | ⟨rfl,-⟩ := hform <;> exact hnormal

theorem NormalTexts.change {same : WriteReq → Row κ → Bool} {place : WriteReq → κ}
    {found : WriteReq → Store κ → Option (Row κ)} {indexed : Prop} {s s' : Store κ} {op : Op} (h : NormalTexts T s)
    (hc : Change T same place found indexed s op s') : NormalTexts T s' := by
  have hreplaced : ∀ (req : WriteReq) (c : ℚ) (u : Uuid) (s' : Store κ),
      Replaced (same req) (newRow T req (place req) c s.next s.now) u s s' → NormalTexts T s' := by
    intro req c u s' hs'
    obtain rfl | rfl := hs'
    · exact (h.setRow u (Row.replacedBy s.next s.now) (fun _ => ⟨rfl,rfl⟩)).addRow _ req _ c _ _
    · exact (h.addRow _ req _ c _ _).setRow u (Row.replacedBy s.next s.now) (fun _ => ⟨rfl,rfl⟩)
  cases hc with
  | nothing => exact h
  | refresh req _ _ c _ => exact h.setRow _ (Row.refresh req c s.now) (fun _ => ⟨rfl,rfl⟩)
  | reinforce _ _ _ c _ => exact h.setRow _ (Row.reinforce c s.now) (fun _ => ⟨rfl,rfl⟩)
  | insert => exact h.addRow _ _ _ _ _ _
  | supersede _ _ _ _ _ _ _ hs' => exact hreplaced _ _ _ _ hs'
  | correct _ _ _ _ _ _ _ _ _ _ _ _ _ _ hs' => exact (hreplaced _ _ _ _ hs').setRow _ _ (fun _ => ⟨rfl,rfl⟩)
  | forget => exact h.mapRows _ (fun r => by split <;> exact ⟨rfl,rfl⟩)
  | purge => exact h.mapRows _ (fun r => by split <;> exact ⟨rfl,rfl⟩)
  | setPinned => exact h.mapRows _ (fun r => by split <;> exact ⟨rfl,rfl⟩)

/-! ## What a write promises -/

/-- The uuid of a write that is accepted. -/
def designated : WriteOutcome → Option Uuid
  | .inserted u => some u
  | .updated u => some u
  | .superseded _ new => some new
  | .needsConfirmation _ _ => none
  | .rejected _ => none

/-- The row bears what the request asked, for a text the same words or nearly. -/
structure Bears (T : Texts) (same : WriteReq → Row κ → Bool) (req : WriteReq) (now : Instant) (r : Row κ) : Prop where
  live : r.live = true
  place : same req r = true
  tier : r.tier = req.tier
  text : normalize T r.content = normalize T req.content ∨
    similar T (normalize T r.content) (normalize T req.content) = true
  unexpired : unexpired now r = true

def Kept (T : Texts) (same : WriteReq → Row κ → Bool) (req : WriteReq) (now : Instant) (out : WriteOutcome)
    (s' : Store κ) : Prop :=
  ∀ u, designated out = some u → ∃ r ∈ s'.rows, r.uuid = u ∧ Bears T same req now r

/-- A row that the request refreshes has its tier, and is not expired where the refresh does
not set the expiry. -/
def RefreshesOwnTier (T : Texts) (found : Option (Row κ)) (req : WriteReq) (known : List String) (now : Instant) : Prop :=
  ∀ ex, Refreshes T found req known ex → ex.tier = req.tier ∧ (req.tier = .note ∨ unexpired now ex = true)

variable {same : WriteReq → Row κ → Bool} {place : WriteReq → κ} {req : WriteReq} {known : List String} {s : Store κ}

theorem expiresAt_later {req : WriteReq} {now e : Instant} (h : MemoryRules.expiresAt req now = some e) : now < e := by
  unfold MemoryRules.expiresAt at h
  split at h
  · rw [← Option.some.inj h]
    apply Nat.lt_add_of_pos_right
    unfold MAX_NOTE_TTL second
    omega
  · cases h

theorem newRow_unexpired (req : WriteReq) (p : κ) (c : ℚ) (u : Uuid) (now : Instant) :
    unexpired now (newRow T req p c u now) = true := by
  show (MemoryRules.expiresAt req now).all (fun e => now < e) = true
  cases h : MemoryRules.expiresAt req now with
  | none => rfl
  | some e => exact decide_eq_true (expiresAt_later h)

theorem newRow_bears (hplace : ∀ (r : Row κ), r.userUuid = req.userUuid → r.place = place req → same req r = true)
    (c : ℚ) (u : Uuid) (now : Instant) : Bears T same req now (newRow T req (place req) c u now) :=
  ⟨rfl,hplace _ rfl rfl,rfl,.inl (normalize_trim T req.content),newRow_unexpired req _ c u now⟩

theorem kept_insert (hplace : ∀ (r : Row κ), r.userUuid = req.userUuid → r.place = place req → same req r = true)
    (hs : WellFormed s) (c : ℚ) :
    Kept T same req s.now (.inserted s.next) (addRow (same req) (newRow T req (place req) c s.next s.now) s) := by
  intro u hu
  refine ⟨_,added hs.times,Option.some.inj hu,?_⟩
  exact newRow_bears hplace c s.next s.now

theorem kept_replaced (hplace : ∀ (r : Row κ), r.userUuid = req.userUuid → r.place = place req → same req r = true)
    (hs : WellFormed s) {c : ℚ} {ex : Row κ} (hex : ex ∈ s.rows) {s' : Store κ}
    (hs' : Replaced (same req) (newRow T req (place req) c s.next s.now) ex.uuid s s') :
    Kept T same req s.now (.superseded ex.uuid s.next) s' := by
  intro u hu
  have hne : s.next ≠ ex.uuid := Nat.ne_of_gt (hs.fresh ex hex)
  refine ⟨newRow T req (place req) c s.next s.now,?_,Option.some.inj hu,newRow_bears hplace c s.next s.now⟩
  obtain rfl | rfl := hs'
  · have hset := hs.setRow ex.uuid (Row.replacedBy s.next s.now) (fun _ => rfl) (fun _ _ => Nat.le_refl _)
    exact added hset.times
  · exact mem_setRow.mpr ⟨_,added hs.times,if_neg hne⟩

theorem kept_reinforce (hs : NormalTexts T s) {r : Row κ} (hr : r ∈ s.rows) (hlive : r.live = true) (hsame : same req r = true)
    (hsame' : ∀ (r : Row κ) c, same req (Row.reinforce c s.now r) = same req r)
    (htier : r.tier = req.tier) (hexp : unexpired s.now r = true)
    (htext : similar T r.contentNorm (normalize T req.content) = true) (c : ℚ) :
    Kept T same req s.now (.updated r.uuid) (s.setRow r.uuid (Row.reinforce c s.now)) := by
  intro u hu
  refine ⟨Row.reinforce c s.now r,mem_setRow.mpr ⟨r,hr,if_pos rfl⟩,Option.some.inj hu,?_⟩
  rw [hs r hr] at htext
  exact ⟨hlive,(hsame' r c).trans hsame,htier,.inr htext,hexp⟩

/-- The refresh of a keyed row leaves its tier, and its expiry unless a note is asked. -/
theorem kept_refresh_iff (hs : WellFormed s) (hnormal : NormalTexts T s) {ex : Row κ} (hex : ex ∈ s.rows)
    (hlive : ex.live = true) (hsame : same req ex = true)
    (hsame' : ∀ (r : Row κ) c, same req (Row.refresh req c s.now r) = same req r)
    (htext : ex.contentNorm = normalize T req.content) (c : ℚ) :
    Kept T same req s.now (.updated ex.uuid) (s.setRow ex.uuid (Row.refresh req c s.now)) ↔
      ex.tier = req.tier ∧ (req.tier = .note ∨ unexpired s.now ex = true) := by
  constructor
  · intro hkept
    obtain ⟨r',hr',hu,hbears⟩ := hkept ex.uuid rfl
    obtain ⟨r,hr,rfl⟩ := mem_setRow.mp hr'
    have huuid : r.uuid = ex.uuid := by
      split at hu <;> exact hu
    have hrow : r = ex := hs.eq_of_uuid hr hex huuid
    subst hrow
    rw [if_pos rfl] at hbears
    refine ⟨hbears.tier,?_⟩
    by_cases hnote : req.tier = .note
    · exact .inl hnote
    · right
      have hnone : MemoryRules.expiresAt req s.now = none := by
        unfold MemoryRules.expiresAt
        split
        · contradiction
        · rfl
      have hexp := hbears.unexpired
      simpa [unexpired, Row.refresh, hnone] using hexp
  · rintro ⟨htier,hexp⟩ u hu
    refine ⟨Row.refresh req c s.now ex,mem_setRow.mpr ⟨ex,hex,if_pos rfl⟩,Option.some.inj hu,?_⟩
    refine ⟨hlive,(hsame' ex c).trans hsame,htier,.inl ?_,?_⟩
    · rw [← htext]
      exact (hnormal ex hex).symm
    · show ((MemoryRules.expiresAt req s.now).or ex.expiresAt).all (fun e => s.now < e) = true
      cases h : MemoryRules.expiresAt req s.now with
      | some e => exact decide_eq_true (expiresAt_later h)
      | none =>
        obtain hnote | hexp := hexp
        · simp [MemoryRules.expiresAt, hnote] at h
        · exact hexp

end

/-! ## The two stores -/

theorem inMemory_normal (T : Texts) (es : List Event) :
    NormalTexts T (Transition.run (InMemory.step T) es Store.empty) := by
  apply Transition.invariant (InMemory.step T) (NormalTexts T) ?_ es _ (by simp [NormalTexts, Store.empty])
  intro s e h
  exact NormalTexts.change (h.after e.delay) (InMemory.perform_change T e.op (s.after e.delay))

theorem pg_normal (T : Texts) (es : List Event) : NormalTexts T (Transition.run (Pg.step T) es Store.empty) := by
  apply Transition.invariant (Pg.step T) (NormalTexts T) ?_ es _ (by simp [NormalTexts, Store.empty])
  intro s e h
  exact NormalTexts.change (h.after e.delay) (Pg.perform_change T e.op (s.after e.delay))

theorem mostSimilar_mem {T : Texts} {norm : String} {rows : List (Row PgPlace)} {r : Row PgPlace}
    (h : Pg.mostSimilar T norm rows = some r) : r ∈ rows :=
  List.mem_mergeSort.mp (List.mem_of_head? h)

theorem iff_of_kept {κ : Type} {T : Texts} {found : Option (Row κ)} {req : WriteReq} {known : List String} {now : Instant}
    {kept : Prop} (hkept : kept) (hno : ∀ ex, ¬Refreshes T found req known ex) :
    kept ↔ RefreshesOwnTier T found req known now :=
  ⟨fun _ ex h => (hno ex h).elim,fun _ => hkept⟩

theorem sameScope_place (req : WriteReq) (r : Row MemPlace) (huser : r.userUuid = req.userUuid)
    (hplace : r.place = InMemory.place req) : InMemory.sameScope req r = true := by
  simp [InMemory.sameScope, huser, hplace, InMemory.place]

theorem samePlace_place (req : WriteReq) (r : Row PgPlace) (huser : r.userUuid = req.userUuid)
    (hplace : r.place = Pg.place req) : Pg.samePlace req r = true := by
  simp [Pg.samePlace, huser, hplace]

/-- A write loses nothing where what it answers is kept. -/
def KeptInMemory (T : Texts) (req : WriteReq) (known : List String) (s : InMemory.MemStore) : Prop :=
  Kept T InMemory.sameScope req s.now (InMemory.writeSync T req known s).1 (InMemory.writeSync T req known s).2

def KeptPg (T : Texts) (req : WriteReq) (known : List String) (s : Pg.PgStore) : Prop :=
  ∀ out, (Pg.write T req known s).1 = .ok out → Kept T Pg.samePlace req s.now out (Pg.write T req known s).2

theorem inMemory_kept_iff (T : Texts) (req : WriteReq) (known : List String) (s : InMemory.MemStore)
    (hs : WellFormed s) (hnormal : NormalTexts T s) :
    KeptInMemory T req known s ↔ RefreshesOwnTier T (InMemory.found req s) req known s.now := by
  unfold KeptInMemory
  cases hvalid : validate T req known with
  | some e =>
    apply iff_of_kept
    · rw [InMemory.writeSync, hvalid]
      intro u hu
      cases hu
    · intro ex h
      rw [h.valid] at hvalid
      cases hvalid
  | none =>
    unfold InMemory.writeSync
    rw [hvalid]
    simp only
    split
    · next key hkey =>
      have hfound : InMemory.found req s = InMemory.keyed req key s := by rw [InMemory.found, hkey]; rfl
      rw [hfound]
      split
      · next ex hex =>
        have hmem := List.mem_of_find?_eq_some hex
        have hprops := List.find?_some hex
        simp only [Bool.and_eq_true, decide_eq_true_eq] at hprops
        rw [hex]
        split
        · next c hc =>
          have htext := decideKey_refresh hc
          rw [kept_refresh_iff hs hnormal hmem hprops.2 hprops.1.1 (fun _ _ => rfl) htext c]
          constructor
          · intro h ex' hex'
            rw [← Option.some.inj hex'.found]
            exact h
          · intro h
            exact h ex ⟨hvalid,rfl,htext⟩
        · next hc =>
          apply iff_of_kept
          · exact kept_replaced (sameScope_place req) hs hmem (.inr rfl)
          · intro ex' hex'
            have heq := Option.some.inj hex'.found
            exact decideKey_supersede hc (heq ▸ hex'.text)
        · next note hc =>
          apply iff_of_kept
          · intro u hu
            cases hu
          · intro ex' hex'
            have heq := Option.some.inj hex'.found
            exact decideKey_confirm hc (heq ▸ hex'.text)
      · next hnone =>
        rw [hnone]
        apply iff_of_kept
        · exact kept_insert (sameScope_place req) hs _
        · intro ex' hex'
          cases hex'.found
    · next hkey =>
      have hfound : InMemory.found req s = none := by rw [InMemory.found, hkey]; rfl
      rw [hfound]
      apply iff_of_kept
      · split
        · next r hr =>
          have hmem := List.mem_of_find?_eq_some hr
          have hprops := List.find?_some hr
          simp only [Bool.and_eq_true, decide_eq_true_eq] at hprops
          obtain ⟨⟨⟨⟨hsame,htier⟩,hlive⟩,hexp⟩,htext⟩ := hprops
          exact kept_reinforce hnormal hmem hlive hsame (fun _ _ => rfl) htier hexp htext _
        · exact kept_insert (sameScope_place req) hs _
      · intro ex' hex'
        cases hex'.found

theorem commit_kept {T : Texts} {req : WriteReq} {now : Instant} {s : Pg.PgStore} {out : WriteOutcome}
    {result : Option Pg.PgStore} (h : ∀ s', result = some s' → Kept T Pg.samePlace req now out s') :
    ∀ out', (Pg.commit s out result).1 = .ok out' → Kept T Pg.samePlace req now out' (Pg.commit s out result).2 := by
  intro out' hout
  cases hresult : result with
  | none =>
    rw [hresult] at hout
    cases hout
  | some s' =>
    rw [hresult] at hout
    rw [← Except.ok.inj hout]
    exact h s' hresult

theorem pg_kept_iff (T : Texts) (req : WriteReq) (known : List String) (s : Pg.PgStore)
    (hs : WellFormed s) (hnormal : NormalTexts T s) :
    KeptPg T req known s ↔ RefreshesOwnTier T (Pg.found req s) req known s.now := by
  unfold KeptPg
  cases hvalid : validate T req known with
  | some e =>
    apply iff_of_kept
    · rw [Pg.write, hvalid]
      intro out hout u hu
      rw [← Except.ok.inj hout] at hu
      cases hu
    · intro ex h
      rw [h.valid] at hvalid
      cases hvalid
  | none =>
    rw [Pg.write_eq hvalid]
    unfold Pg.writeInner
    simp only
    split
    · next key hkey =>
      have hfound : Pg.found req s = Pg.keyed req key s := by rw [Pg.found, hkey]; rfl
      rw [hfound]
      split
      · next ex hex =>
        have hmem := List.mem_of_find?_eq_some hex
        have hprops := List.find?_some hex
        simp only [Bool.and_eq_true, decide_eq_true_eq] at hprops
        rw [hex]
        split
        · next c hc =>
          have htext := decideKey_refresh hc
          have hiff := kept_refresh_iff hs hnormal hmem hprops.2 hprops.1.1 (fun _ _ => rfl) htext c
          constructor
          · intro h ex' hex'
            rw [← Option.some.inj hex'.found]
            exact hiff.mp (h _ rfl)
          · intro h out hout
            rw [← Except.ok.inj hout]
            exact hiff.mpr (h ex ⟨hvalid,rfl,htext⟩)
        · next hc =>
          apply iff_of_kept
          · apply commit_kept
            intro s' hs'
            obtain ⟨-,rfl⟩ := insert_eq hs'
            exact kept_replaced (samePlace_place req) hs hmem (.inl rfl)
          · intro ex' hex'
            have heq := Option.some.inj hex'.found
            exact decideKey_supersede hc (heq ▸ hex'.text)
        · next note hc =>
          apply iff_of_kept
          · apply commit_kept
            intro s' hs' u hu
            cases hu
          · intro ex' hex'
            have heq := Option.some.inj hex'.found
            exact decideKey_confirm hc (heq ▸ hex'.text)
      · next hnone =>
        rw [hnone]
        apply iff_of_kept
        · apply commit_kept
          intro s' hs'
          obtain ⟨-,rfl⟩ := insert_eq hs'
          exact kept_insert (samePlace_place req) hs _
        · intro ex' hex'
          cases hex'.found
    · next hkey =>
      have hfound : Pg.found req s = none := by rw [Pg.found, hkey]; rfl
      rw [hfound]
      apply iff_of_kept
      · split
        · next r hr =>
          have hmem := mostSimilar_mem hr
          have hprops := List.of_mem_filter hmem
          simp only [Bool.and_eq_true, decide_eq_true_eq] at hprops
          obtain ⟨⟨⟨⟨hsame,htier⟩,hlive⟩,hexp⟩,htext⟩ := hprops
          intro out hout
          rw [← Except.ok.inj hout]
          exact kept_reinforce hnormal (List.mem_of_mem_filter hmem) hlive hsame (fun _ _ => rfl) htier hexp htext _
        · apply commit_kept
          intro s' hs'
          obtain ⟨-,rfl⟩ := insert_eq hs'
          exact kept_insert (samePlace_place req) hs _
      · intro ex' hex'
        cases hex'.found

/-- The stores some time after a run of operations. -/
def inMemoryAfter (T : Texts) (es : List Event) (delay : ℕ) : InMemory.MemStore :=
  (Transition.run (InMemory.step T) es Store.empty).after delay

def pgAfter (T : Texts) (es : List Event) (delay : ℕ) : Pg.PgStore :=
  (Transition.run (Pg.step T) es Store.empty).after delay

/-- In every state, an accepted write is kept exactly when the keyed row that it refreshes,
if there is one, has its tier and is not expired (a note gets a new expiry). -/
theorem accepted_write_kept_iff (T : Texts) (es : List Event) (delay : ℕ) (req : WriteReq) (known : List String) :
    (KeptInMemory T req known (inMemoryAfter T es delay) ↔
      RefreshesOwnTier T (InMemory.found req (inMemoryAfter T es delay)) req known (inMemoryAfter T es delay).now) ∧
    (KeptPg T req known (pgAfter T es delay) ↔
      RefreshesOwnTier T (Pg.found req (pgAfter T es delay)) req known (pgAfter T es delay).now) := by
  constructor
  · apply inMemory_kept_iff
    · exact (InMemory.wellFormed T es).after delay
    · exact (inMemory_normal T es).after delay
  · apply pg_kept_iff
    · exact (Pg.wellFormed T es).after delay
    · exact (pg_normal T es).after delay

/-- A user's fact about themselves, under a key. -/
def editorFact : WriteReq where
  userUuid := "u1"
  scope := .user
  projectUuid := none
  tier := .profile
  kind := "preference"
  key := some "editor"
  content := "helix"
  source := "user_said"
  confidence := 1
  expiresIn := none
  createdBy := "user"

/-- A note under the key of a profile entry that says the same: it is said to be updated, and
there is no note. -/
theorem note_never_written :
    let es := [Event.mk 0 (.write editorFact [])]
    let req := { editorFact with tier := .note }
    ¬KeptInMemory asciiTexts req [] (inMemoryAfter asciiTexts es 1) ∧
      ¬KeptPg asciiTexts req [] (pgAfter asciiTexts es 1) := by
  constructor
  · intro h
    obtain ⟨r,hr,-,hbears⟩ := h 0 (by decide +kernel)
    have htiers : ∀ r ∈ (InMemory.writeSync asciiTexts { editorFact with tier := .note } []
        (inMemoryAfter asciiTexts [Event.mk 0 (.write editorFact [])] 1)).2.rows, r.tier ≠ .note := by
      decide +kernel
    exact htiers r hr hbears.tier
  · intro h
    obtain ⟨r,hr,-,hbears⟩ := h (.updated 0) (by decide +kernel) 0 rfl
    have htiers : ∀ r ∈ (Pg.write asciiTexts { editorFact with tier := .note } []
        (pgAfter asciiTexts [Event.mk 0 (.write editorFact [])] 1)).2.rows, r.tier ≠ .note := by
      decide +kernel
    exact htiers r hr hbears.tier

end DevForge.AcceptedWrites
