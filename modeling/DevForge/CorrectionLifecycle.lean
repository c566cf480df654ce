import DevForge.Corrections

/-!
# The life of a correction

What each piece of a call writes, and what holds in every run whose calls do not write
to a correction that was closed meanwhile, verify its last change and find the deployments
of its own commit.
-/

set_option autoImplicit false

namespace DevForge.CorrectionLifecycle
open Corrections Transition

/-! ## The invariant -/

/-- What a piece of a call was promised when it was made. -/
def PieceOk (s : State) : Piece → Prop
  | .note _ _ (some (k,_)) => k ∈ s.corrections.keys
  | .refreshWrite _ sha dep state _ applied _ => state.closed = true ∧ (state = .live →
    ∃ d, s.deployments.get dep = some d ∧ d.environment = .production ∧ d.isOf sha = true ∧
      d.status.succeeded = true ∧ ∃ at_ f, applied = some at_ ∧ d.finishedAt = some f ∧ at_ ≤ f)
  | _ => True

structure DeploymentOk (now : Instant) (d : Deployment) : Prop where
  created : d.createdAt ≤ now
  finished : d.status.succeeded = true → ∃ f, d.finishedAt = some f ∧ d.createdAt ≤ f

structure Inv (s : State) : Prop where
  closed : ∀ k r, s.corrections.get k = some r → (s.past k).closed = true → r.state.closed = true
  tested : ∀ k r, s.corrections.get k = some r → r.testOk = some true →
    (s.past k).verified = some ⟨(s.past k).changes,true⟩
  counted : ∀ k r, s.corrections.get k = some r → r.attempts+inFlight s k = (s.past k).launched
  few : ∀ k, (s.past k).launched ≤ MAX_ATTEMPTS
  absent : ∀ k, s.corrections.get k = none →
    (s.past k).closed = false ∧ (s.past k).launched = 0 ∧ inFlight s k = 0
  calls : ∀ c ∈ s.calls, PieceOk s c
  deployments : ∀ k d, s.deployments.get k = some d → DeploymentOk s.now d
  lives : ∀ e ∈ s.lives, e.deployed

theorem start_inv : Inv Corrections.start := by
  constructor <;> simp [Corrections.start, inFlight]

/-! ## Pieces of calls -/

theorem inFlight_setCall {s : State} {i : ℕ} {old : Piece} (hi : s.calls[i]? = some old) (c : Piece)
    (k : Uuid) : inFlight (setCall i c s) k+(if old.verifies k then 1 else 0) =
      inFlight s k+(if c.verifies k then 1 else 0) := by
  obtain ⟨hlt,hold⟩ := List.getElem?_eq_some_iff.mp hi
  have hmem : (if old.verifies k then 1 else 0) ≤ inFlight s k := by
    split
    · rename_i hv
      exact List.countP_pos_iff.mpr ⟨old,List.mem_of_getElem? hi,hv⟩
    · omega
  have hset := List.countP_set (p := Piece.verifies k) (a := c) hlt
  rw [hold] at hset
  unfold inFlight at hmem ⊢
  show (s.calls.set i c).countP (Piece.verifies k)+_ = _
  rw [hset]
  omega

theorem inFlight_call (s : State) (c : Piece) (k : Uuid) :
    inFlight (call c s) k = inFlight s k+(if c.verifies k then 1 else 0) := by
  simp [inFlight, call, List.countP_append, List.countP_singleton]

/-- A piece becomes another that verifies the same correction, if any. -/
theorem Inv.setCall {s : State} (hs : Inv s) {i : ℕ} {old : Piece} (hi : s.calls[i]? = some old)
    (c : Piece) (hv : ∀ k, c.verifies k = old.verifies k) (hc : PieceOk s c) :
    Inv (Corrections.setCall i c s) := by
  have hflight : ∀ k, inFlight (Corrections.setCall i c s) k = inFlight s k := by
    intro k
    have := inFlight_setCall hi c k
    rw [hv] at this
    omega
  constructor
  · exact hs.closed
  · exact hs.tested
  · intro k r hr
    rw [hflight]
    exact hs.counted k r hr
  · exact hs.few
  · intro k hk
    rw [hflight]
    exact hs.absent k hk
  · intro c' hc'
    rcases List.mem_or_eq_of_mem_set hc' with h | rfl
    · exact hs.calls c' h
    · exact hc
  · exact hs.deployments
  · exact hs.lives

/-- A new call that verifies nothing. -/
theorem Inv.call {s : State} (hs : Inv s) (c : Piece) (hv : ∀ k, c.verifies k = false)
    (hc : PieceOk s c) : Inv (Corrections.call c s) := by
  have hflight : ∀ k, inFlight (Corrections.call c s) k = inFlight s k := by
    intro k
    rw [inFlight_call, hv]
    rfl
  constructor
  · exact hs.closed
  · exact hs.tested
  · intro k r hr
    rw [hflight]
    exact hs.counted k r hr
  · exact hs.few
  · intro k hk
    rw [hflight]
    exact hs.absent k hk
  · intro c' hc'
    rcases List.mem_append.mp hc' with h | h
    · exact hs.calls c' h
    · rw [List.mem_singleton.mp h]
      exact hc
  · exact hs.deployments
  · exact hs.lives

/-! ## Writes -/

theorem get_write (k x : Uuid) (f : Row → Row) (s : State) : (write k f s).corrections.get x =
    (s.corrections.get x).map (fun r => if x = k then f r else r) := by
  simp only [write, setPast, Table.get_update, decide_eq_true_eq]

theorem write_past_of_ne {k x : Uuid} (f : Row → Row) (s : State) (h : x ≠ k) :
    (write k f s).past x = s.past x := by
  simp [write, setPast, h]

theorem write_past_self (k : Uuid) (f : Row → Row) (s : State) : (write k f s).past k =
    { s.past k with closed := (s.past k).closed || (s.corrections.get k).any (fun r => (f r).state.closed) } := by
  simp [write, setPast]

theorem mem_keys_iff {s : State} {k : Uuid} : k ∈ s.corrections.keys ↔ ∃ r, s.corrections.get k = some r := by
  rw [← Option.ne_none_iff_exists', ne_eq, Table.get_none_iff, not_not]

theorem write_pieceOk {s : State} {k : Uuid} {f : Row → Row} {c : Piece} (h : PieceOk s c) :
    PieceOk (write k f s) c := by
  unfold PieceOk at h ⊢
  split at h
  · rw [mem_keys_iff] at h ⊢
    obtain ⟨r,hr⟩ := h
    rw [get_write, hr]
    exact ⟨_,rfl⟩
  · exact h
  · trivial

/-- A write that passes no test, counts none and opens no closed correction. -/
theorem Inv.write {s : State} (hs : Inv s) (k : Uuid) (f : Row → Row)
    (hf : ∀ r, ((f r).testOk = some true → r.testOk = some true) ∧ (f r).attempts = r.attempts)
    (hc : ∀ r, s.corrections.get k = some r → r.state.closed = true → (f r).state.closed = true) :
    Inv (Corrections.write k f s) := by
  constructor
  · intro x r hr hclosed
    rw [get_write] at hr
    obtain ⟨r',hr',rfl⟩ := Option.map_eq_some_iff.mp hr
    by_cases hx : x = k
    · subst hx
      rw [if_pos rfl]
      rw [write_past_self, Bool.or_eq_true, hr'] at hclosed
      rcases hclosed with h | h
      · exact hc r' hr' (hs.closed x r' hr' h)
      · simpa using h
    · rw [if_neg hx]
      rw [write_past_of_ne f s hx] at hclosed
      exact hs.closed x r' hr' hclosed
  · intro x r hr htest
    rw [get_write] at hr
    obtain ⟨r',hr',rfl⟩ := Option.map_eq_some_iff.mp hr
    by_cases hx : x = k
    · subst hx
      rw [if_pos rfl] at htest
      rw [write_past_self]
      exact hs.tested x r' hr' ((hf r').1 htest)
    · rw [if_neg hx] at htest
      rw [write_past_of_ne f s hx]
      exact hs.tested x r' hr' htest
  · intro x r hr
    rw [get_write] at hr
    obtain ⟨r',hr',rfl⟩ := Option.map_eq_some_iff.mp hr
    have hcount := hs.counted x r' hr'
    by_cases hx : x = k
    · subst hx
      rw [if_pos rfl, (hf r').2, write_past_self]
      exact hcount
    · rw [if_neg hx, write_past_of_ne f s hx]
      exact hcount
  · intro x
    by_cases hx : x = k
    · subst hx
      rw [write_past_self]
      exact hs.few x
    · rw [write_past_of_ne f s hx]
      exact hs.few x
  · intro x hx
    rw [get_write, Option.map_eq_none_iff] at hx
    obtain ⟨h1,h2,h3⟩ := hs.absent x hx
    by_cases hxk : x = k
    · subst hxk
      rw [write_past_self, hx]
      exact ⟨by simp [h1],h2,h3⟩
    · rw [write_past_of_ne f s hxk]
      exact ⟨h1,h2,h3⟩
  · exact fun c hc' => write_pieceOk (hs.calls c hc')
  · exact hs.deployments
  · exact hs.lives

theorem closed_of_open {s : State} {k : Uuid} (h : pendingRow s k = true) {r : Row}
    (hr : s.corrections.get k = some r) (hc : r.state.closed = true) (P : Prop) : P := by
  rw [pendingRow, hr, Option.all_some, hc] at h
  simp at h

theorem Inv.setState {s : State} (hs : Inv s) (k : Uuid) (state : CorrectionState) (note : String)
    (h : state.closed = true ∨ pendingRow s k = true) : Inv (Corrections.setState k state note s) :=
  hs.write k _ (fun _ => ⟨id,rfl⟩) (fun _ hr hc =>
    h.elim id (fun hp => closed_of_open hp hr hc _))

/-! ## New corrections -/

theorem get_insert {s : State} {k : Uuid} (hk : k ∉ s.corrections.keys) (row : Row) (x : Uuid) :
    (s.corrections.insert k row).get x = if x = k then some row else s.corrections.get x := by
  rw [Table.get_insert]
  by_cases hx : x = k
  · rw [if_pos ⟨hx,hk⟩, if_pos hx]
  · rw [if_neg (fun h => hx h.1), if_neg hx]

theorem Inv.insert {s : State} (hs : Inv s) {k : Uuid} (hk : k ∉ s.corrections.keys) (row : Row)
    (ht : row.testOk = none) (ha : row.attempts = 0) :
    Inv { s with corrections := s.corrections.insert k row } := by
  obtain ⟨hclosed,hlaunched,hflight⟩ := hs.absent k ((Table.get_none_iff _ k).mpr hk)
  constructor
  · intro x r hr hc
    rw [get_insert hk] at hr
    split at hr
    · rename_i hx
      rw [hx, hclosed] at hc
      simp at hc
    · exact hs.closed x r hr hc
  · intro x r hr htest
    rw [get_insert hk] at hr
    split at hr
    · rw [← Option.some.inj hr, ht] at htest
      simp at htest
    · exact hs.tested x r hr htest
  · intro x r hr
    rw [get_insert hk] at hr
    split at hr
    · rename_i hx
      rw [← Option.some.inj hr, ha, hx, hlaunched]
      show 0+inFlight s k = 0
      rw [hflight]
    · exact hs.counted x r hr
  · exact hs.few
  · intro x hx
    rw [get_insert hk] at hx
    split at hx
    · simp at hx
    · exact hs.absent x hx
  · intro c hc
    have hok := hs.calls c hc
    unfold PieceOk at hok ⊢
    split at hok
    · rw [mem_keys_iff] at hok ⊢
      obtain ⟨r,hr⟩ := hok
      rw [get_insert hk]
      split
      · exact ⟨row,rfl⟩
      · exact ⟨r,hr⟩
    · exact hok
    · trivial
  · exact hs.deployments
  · exact hs.lives

theorem setPast_past (k x : Uuid) (p : Past → Past) (s : State) :
    (setPast k p s).past x = if x = k then p (s.past x) else s.past x := rfl

theorem setCall_past (i : ℕ) (c : Piece) (s : State) : (setCall i c s).past = s.past := rfl

theorem setPast_setPast (k : Uuid) (p q : Past → Past) (s : State) :
    setPast k p (setPast k q s) = setPast k (fun x => p (q x)) s := by
  simp only [setPast]
  congr 1
  funext x
  by_cases hx : x = k
  · simp [hx]
  · simp [hx]

/-- The past of one correction changes, but for the verifications launched. -/
theorem Inv.setPast {s : State} (hs : Inv s) (k : Uuid) (p : Past → Past)
    (hl : (p (s.past k)).launched = (s.past k).launched)
    (hc : (p (s.past k)).closed = true → ∃ r, s.corrections.get k = some r ∧ r.state.closed = true)
    (ht : ∀ r, s.corrections.get k = some r → r.testOk = some true →
      (p (s.past k)).verified = some ⟨(p (s.past k)).changes,true⟩) :
    Inv (Corrections.setPast k p s) := by
  constructor
  · intro x r hr hclosed
    rw [setPast_past] at hclosed
    split at hclosed
    · rename_i hx
      subst hx
      obtain ⟨r',hr',hclosed'⟩ := hc hclosed
      rwa [Option.some.inj (hr.symm.trans hr')]
    · exact hs.closed x r hr hclosed
  · intro x r hr htest
    rw [setPast_past]
    split
    · rename_i hx
      subst hx
      exact ht r hr htest
    · exact hs.tested x r hr htest
  · intro x r hr
    rw [setPast_past]
    split
    · rename_i hx
      subst hx
      rw [hl]
      exact hs.counted x r hr
    · exact hs.counted x r hr
  · intro x
    rw [setPast_past]
    split
    · rename_i hx
      subst hx
      rw [hl]
      exact hs.few x
    · exact hs.few x
  · intro x hx
    have habsent := hs.absent x hx
    rw [setPast_past]
    split
    · rename_i hxk
      subst hxk
      refine ⟨?_,by rw [hl]; exact habsent.2.1,habsent.2.2⟩
      rw [Bool.eq_false_iff]
      intro hclosed
      obtain ⟨r,hr,-⟩ := hc hclosed
      exact absurd (hx.symm.trans hr) (by simp)
    · exact habsent
  · exact hs.calls
  · exact hs.deployments
  · exact hs.lives

/-- A call becomes a verification, which is launched. -/
theorem Inv.spawn {s : State} (hs : Inv s) {i : ℕ} {old : Piece} (hi : s.calls[i]? = some old)
    (hv : ∀ k, old.verifies k = false) {k : Uuid} {r : Row} (hr : s.corrections.get k = some r)
    (hfew : (s.past k).launched < MAX_ATTEMPTS) :
    Inv (Corrections.setCall i (.verifySpawned k)
      (Corrections.setPast k (fun p => { p with launched := p.launched+1 }) s)) := by
  have hflight : ∀ x, inFlight (Corrections.setCall i (.verifySpawned k) s) x =
      inFlight s x+(if k = x then 1 else 0) := by
    intro x
    have := inFlight_setCall hi (.verifySpawned k) x
    rw [hv] at this
    simpa [Piece.verifies] using this
  constructor
  · intro x r' hr' hc
    refine hs.closed x r' hr' ?_
    rw [← hc]
    rw [setCall_past, setPast_past]
    split <;> rfl
  · intro x r' hr' htest
    rw [setCall_past, setPast_past]
    split <;> exact hs.tested x r' hr' htest
  · intro x r' hr'
    have hcount := hs.counted x r' hr'
    have hflight' : inFlight (Corrections.setCall i (.verifySpawned k)
        (Corrections.setPast k (fun p => { p with launched := p.launched+1 }) s)) x =
        inFlight s x+(if k = x then 1 else 0) := hflight x
    rw [hflight', setCall_past, setPast_past]
    by_cases hx : x = k
    · rw [if_pos hx.symm, if_pos hx]
      show r'.attempts+(inFlight s x+1) = (s.past x).launched+1
      omega
    · rw [if_neg (fun h => hx h.symm), if_neg hx, ← hcount]
      rfl
  · intro x
    rw [setCall_past, setPast_past]
    split
    · rename_i hx
      subst hx
      exact hfew
    · exact hs.few x
  · intro x hx
    have hxk : x ≠ k := by
      rintro rfl
      simp [Corrections.setCall, Corrections.setPast, hr] at hx
    obtain ⟨h1,h2,h3⟩ := hs.absent x hx
    have hpast : (Corrections.setPast k (fun p => { p with launched := p.launched+1 }) s).past x = s.past x := by
      rw [setPast_past, if_neg hxk]
    refine ⟨(congrArg Past.closed hpast).trans h1,(congrArg Past.launched hpast).trans h2,?_⟩
    show inFlight (Corrections.setCall i (.verifySpawned k) s) x = 0
    rw [hflight, h3, if_neg (fun h => hxk h.symm)]
  · intro c hc
    rcases List.mem_or_eq_of_mem_set hc with h | rfl
    · exact hs.calls c h
    · trivial
  · exact hs.deployments
  · exact hs.lives

/-- A correction that was just recorded is verified if it is a repair. -/
theorem Inv.launch {s : State} (hs : Inv s) {i : ℕ} {old : Piece} (hi : s.calls[i]? = some old)
    (hv : ∀ k, old.verifies k = false) {k : Uuid} {r : Row} (hr : s.corrections.get k = some r)
    (ht : r.testOk = none) (kind : String)
    (hfew : kind = "repair" → (s.past k).launched < MAX_ATTEMPTS) :
    Inv (Corrections.launch i k kind s) := by
  have hchange : Inv (Corrections.setPast k (fun p => { p with changes := p.changes+1 }) s) := by
    refine hs.setPast k _ rfl (fun hc => ⟨r,hr,hs.closed k r hr hc⟩) (fun r' hr' htest => ?_)
    rw [Option.some.inj (hr'.symm.trans hr), ht] at htest
    simp at htest
  unfold Corrections.launch
  split
  · rename_i hkind
    have hspawn := hchange.spawn hi hv hr (by
      rw [setPast_past, if_pos rfl]
      exact hfew hkind)
    rwa [setPast_setPast] at hspawn
  · exact hchange.setCall hi .done (fun x => (hv x).symm) trivial

/-! ## The pieces -/

theorem Inv.noteWrite {s : State} (hs : Inv s) {i : ℕ} {report : Report} {now : Instant}
    {found : Option (Uuid × Row)} (c : Choice) (hi : s.calls[i]? = some (.note report now found))
    (hw : WritesOpen s c (.note report now found)) (hl : VerifiesLast s c (.note report now found)) :
    Inv (Corrections.noteWrite i report now found c.fresh s) := by
  have hv : ∀ k, (Piece.note report now found).verifies k = false := fun _ => rfl
  unfold Corrections.noteWrite
  split
  · rename_i k found
    have hk : k ∈ s.corrections.keys := hs.calls _ (List.mem_of_getElem? hi)
    obtain ⟨r,hr⟩ := mem_keys_iff.mp hk
    have hwrite : Inv (Corrections.write k (Row.noted report now found) s) :=
      hs.write k _ (fun _ => ⟨fun h => by simp [Row.noted] at h,rfl⟩)
        (fun _ hr hc => closed_of_open hw hr hc _)
    have hget : (Corrections.write k (Row.noted report now found) s).corrections.get k =
        some (Row.noted report now found r) := by
      rw [get_write, hr, Option.map_some, if_pos rfl]
    refine hwrite.launch hi hv hget rfl report.kind (fun hkind => ?_)
    have hfew := hl hkind r hr
    rw [hs.counted k r hr] at hfew
    rw [write_past_self]
    exact hfew
  · split
    · exact hs
    · rename_i hfresh
      have hinsert := hs.insert hfresh (Row.new (nextState report.kind) report now) rfl rfl
      have hget : (s.corrections.insert c.fresh (Row.new (nextState report.kind) report now)).get c.fresh =
          some (Row.new (nextState report.kind) report now) := by
        rw [get_insert hfresh, if_pos rfl]
      refine hinsert.launch hi hv hget rfl report.kind (fun _ => ?_)
      show (s.past c.fresh).launched < MAX_ATTEMPTS
      rw [(hs.absent c.fresh ((Table.get_none_iff _ _).mpr hfresh)).2.1]
      decide

theorem Inv.countVerification {s : State} (hs : Inv s) {i : ℕ} {k : Uuid} {since : ℕ} (tests : Tests)
    (hi : s.calls[i]? = some (.verifyRunning k since))
    (hl : tests.passed = true → since = (s.past k).changes) :
    Inv (Corrections.countVerification i k since tests s) := by
  have hmem : 0 < inFlight s k :=
    List.countP_pos_iff.mpr ⟨_,List.mem_of_getElem? hi,by simp [Piece.verifies]⟩
  obtain ⟨r,hr⟩ : ∃ r, s.corrections.get k = some r := by
    apply Option.ne_none_iff_exists'.mp
    intro hnone
    rw [(hs.absent k hnone).2.2] at hmem
    omega
  unfold Corrections.countVerification
  generalize hattempts : ((s.corrections.get k).map (fun r => r.attempts+1)).getD MAX_ATTEMPTS = attempts
  have hflight : ∀ x, inFlight (Corrections.setCall i (.verifyCounted k attempts tests.passed) s) x+
      (if k = x then 1 else 0) = inFlight s x := by
    intro x
    have := inFlight_setCall hi (.verifyCounted k attempts tests.passed) x
    simpa [Piece.verifies] using this
  constructor
  · intro x r' hr' hc
    rw [setCall_past, setPast_past] at hc
    have hr' : (Corrections.write k _ s).corrections.get x = some r' := hr'
    rw [get_write] at hr'
    obtain ⟨q,hq,rfl⟩ := Option.map_eq_some_iff.mp hr'
    by_cases hx : x = k
    · subst hx
      rw [if_pos rfl, write_past_self, hq] at hc
      rw [if_pos rfl]
      have hc : (s.past x).closed = true ∨ q.state.closed = true := by simpa using hc
      exact hc.elim (hs.closed x q hq) id
    · rw [if_neg hx, write_past_of_ne _ _ hx] at hc
      rw [if_neg hx]
      exact hs.closed x q hq hc
  · intro x r' hr' htest
    rw [setCall_past, setPast_past]
    have hr' : (Corrections.write k _ s).corrections.get x = some r' := hr'
    rw [get_write] at hr'
    obtain ⟨q,hq,rfl⟩ := Option.map_eq_some_iff.mp hr'
    by_cases hx : x = k
    · subst hx
      rw [if_pos rfl] at htest
      have hpassed : tests.passed = true := Option.some.inj htest
      rw [if_pos rfl, write_past_self, hpassed, hl hpassed]
    · rw [if_neg hx] at htest
      rw [if_neg hx, write_past_of_ne _ _ hx]
      exact hs.tested x q hq htest
  · intro x r' hr'
    rw [setCall_past, setPast_past]
    have hr' : (Corrections.write k _ s).corrections.get x = some r' := hr'
    rw [get_write] at hr'
    obtain ⟨q,hq,rfl⟩ := Option.map_eq_some_iff.mp hr'
    have hcount := hs.counted x q hq
    have hx' := hflight x
    by_cases hx : x = k
    · subst hx
      rw [if_pos rfl] at hx'
      rw [if_pos rfl, if_pos rfl, write_past_self]
      show q.attempts+1+inFlight (Corrections.setCall i (.verifyCounted x attempts tests.passed) s) x =
        (s.past x).launched
      omega
    · rw [if_neg (fun h => hx h.symm)] at hx'
      rw [if_neg hx, if_neg hx, write_past_of_ne _ _ hx, ← hcount, ← hx']
      rfl
  · intro x
    rw [setCall_past, setPast_past]
    by_cases hx : x = k
    · subst hx
      rw [if_pos rfl, write_past_self]
      exact hs.few x
    · rw [if_neg hx, write_past_of_ne _ _ hx]
      exact hs.few x
  · intro x hx
    have hnone : s.corrections.get x = none := by
      have h : (Corrections.write k _ s).corrections.get x = none := hx
      rwa [get_write, Option.map_eq_none_iff] at h
    have hxk : x ≠ k := by
      rintro rfl
      exact absurd (hnone.symm.trans hr) (by simp)
    have hx' := hflight x
    rw [if_neg (fun h => hxk h.symm)] at hx'
    obtain ⟨h1,h2,h3⟩ := hs.absent x hnone
    rw [setCall_past, setPast_past, if_neg hxk, write_past_of_ne _ _ hxk]
    refine ⟨h1,h2,?_⟩
    show inFlight (Corrections.setCall i (.verifyCounted k attempts tests.passed) s) x = 0
    omega
  · intro c hc
    rcases List.mem_or_eq_of_mem_set hc with h | rfl
    · exact write_pieceOk (hs.calls c h)
    · trivial
  · exact hs.deployments
  · exact hs.lives

/-- A write by a piece that ends or goes on, without a verification. -/
theorem Inv.wrote {s s' : State} (hs' : Inv s') (hcalls : s'.calls = s.calls) {i : ℕ} {old : Piece}
    (hi : s.calls[i]? = some old) (hold : ∀ k, old.verifies k = false) (c : Piece)
    (hv : ∀ k, c.verifies k = false) (hc : PieceOk s' c) : Inv (Corrections.setCall i c s') :=
  hs'.setCall (hcalls ▸ hi) c (fun k => (hv k).trans (hold k).symm) hc

theorem Inv.endVerification {s : State} (hs : Inv s) {i : ℕ} {k : Uuid} {attempts : ℕ} {passed : Bool}
    (agent : Bool) (hi : s.calls[i]? = some (.verifyCounted k attempts passed))
    (hw : passed = true → pendingRow s k = true) :
    Inv (Corrections.endVerification i k attempts passed agent s) := by
  unfold Corrections.endVerification
  split
  · rename_i hpassed
    exact (hs.setState k .proposed "" (Or.inr (hw hpassed))).wrote rfl hi (fun _ => rfl) _ (fun _ => rfl)
      trivial
  · split
    · exact (hs.setState k .failed _ (Or.inl rfl)).wrote rfl hi (fun _ => rfl) _ (fun _ => rfl) trivial
    · split
      · exact hs.wrote rfl hi (fun _ => rfl) _ (fun _ => rfl) trivial
      · exact (hs.setState k .failed _ (Or.inl rfl)).wrote rfl hi (fun _ => rfl) _ (fun _ => rfl) trivial

theorem Inv.archiveDiscarded {s : State} (hs : Inv s) {i : ℕ} {sorted : Sorted} {found : Option Uuid}
    (fresh : Uuid) (hi : s.calls[i]? = some (.archiveDiscarded sorted found)) :
    Inv (Corrections.archiveDiscarded i sorted found fresh s) := by
  simp only [Corrections.archiveDiscarded]
  split
  · rename_i k
    have hwrite := hs.write k (fun r => { r with
        state := .archived
        backupId := some sorted.backup
        note := "Archivée automatiquement : "++sorted.reason
        updatedAt := s.now })
      (fun _ => ⟨id,rfl⟩) (fun _ _ _ => rfl)
    exact hwrite.wrote rfl hi (fun _ => rfl) _ (fun _ => rfl) trivial
  · split
    · exact hs
    · rename_i hfresh
      have hrow := get_insert hfresh (Row.archived sorted ("Archivée automatiquement : "++sorted.reason) s.now)
        fresh
      rw [if_pos rfl] at hrow
      have hinsert := hs.insert hfresh
        (Row.archived sorted ("Archivée automatiquement : "++sorted.reason) s.now) rfl rfl
      have hpast := hinsert.setPast fresh (fun p => { p with closed := true }) rfl
        (fun _ => ⟨_,hrow,rfl⟩) (fun r hr htest => by
          rw [← Option.some.inj (hrow.symm.trans hr)] at htest
          simp [Row.archived, Row.new] at htest)
      exact hpast.wrote rfl hi (fun _ => rfl) _ (fun _ => rfl) trivial

theorem Inv.insertRow {s : State} (hs : Inv s) {i : ℕ} {report : Report} {asked : Asked} (fresh : Uuid)
    (hi : s.calls[i]? = some (.ensureRow report asked)) :
    Inv (Corrections.insertRow i report asked fresh s) := by
  unfold Corrections.insertRow
  split
  · exact hs
  · rename_i hfresh
    have hinsert := hs.insert hfresh (Row.new .proposed report.bare s.now) rfl rfl
    refine hinsert.wrote rfl hi (fun _ => rfl) _ (fun _ => ?_) ?_
    · cases asked <;> rfl
    · cases asked <;> trivial

theorem Inv.closed_row {s : State} (hs : Inv s) (k : Uuid) (h : (s.past k).closed = true) :
    ∃ r, s.corrections.get k = some r ∧ r.state.closed = true := by
  cases hr : s.corrections.get k with
  | none =>
    rw [(hs.absent k hr).1] at h
    simp at h
  | some r => exact ⟨r,rfl,hs.closed k r hr h⟩

theorem Inv.applied {s : State} (hs : Inv s) {i : ℕ} {k : Uuid} (c : Choice)
    (hi : s.calls[i]? = some (.applyPushing k)) (hw : WritesOpen s c (.applyPushing k)) :
    Inv (Corrections.applied i k s c.push) := by
  unfold WritesOpen at hw
  cases hpush : c.push with
  | conflict reason =>
    rw [hpush] at hw
    exact (hs.setState k .conflict reason (Or.inr hw)).wrote rfl hi (fun _ => rfl) _ (fun _ => rfl) trivial
  | pushed sha =>
    have hpast := hs.setPast k (fun p => { p with appliedAt := some s.now }) rfl (hs.closed_row k)
      (hs.tested k)
    exact hpast.wrote rfl hi (fun _ => rfl) _ (fun _ => rfl) trivial
  | error => exact hs.wrote rfl hi (fun _ => rfl) _ (fun _ => rfl) trivial

theorem Inv.applyMark {s : State} (hs : Inv s) {i : ℕ} {k : Uuid} (c : Choice)
    (hi : s.calls[i]? = some (.applyMark k)) (hw : WritesOpen s c (.applyMark k)) :
    Inv (Corrections.applyMark i k c.alreadyFailed s) := by
  unfold Corrections.applyMark
  split
  · exact (hs.setState k .failed _ (Or.inl rfl)).wrote rfl hi (fun _ => rfl) _ (fun _ => rfl) trivial
  · rename_i hfailed
    exact (hs.setState k .deploying "" (Or.inr (hw (Bool.not_eq_true _ ▸ hfailed)))).wrote rfl hi
      (fun _ => rfl) _ (fun _ => rfl) trivial

/-! ## The deployments that a call finds -/

theorem foldl_best_mem {α : Type} (better : α → α → Bool) (l : List α) (best : Option α) (e : α)
    (h : l.foldl (fun best e => if best.all (fun b => better b e) then some e else best) best = some e) :
    best = some e ∨ e ∈ l := by
  induction l generalizing best with
  | nil => exact Or.inl h
  | cons a l ih =>
    rcases ih _ h with hbest | hmem
    · dsimp only at hbest
      split at hbest
      · exact Or.inr (Option.some.inj hbest ▸ List.mem_cons_self)
      · exact Or.inl hbest
    · exact Or.inr (List.mem_cons_of_mem a hmem)

/-- What is chosen is at least as new as every other. -/
theorem foldl_newest_le {α : Type} (created : α → ℕ) (l : List α) (best : Option α) (e a : α)
    (h : l.foldl (fun best e => if best.all (fun b => created b < created e) then some e else best) best =
      some e) (ha : best = some a ∨ a ∈ l) : created a ≤ created e := by
  induction l generalizing best a with
  | nil =>
    rcases ha with ha | ha
    · rw [Option.some.inj (ha.symm.trans h)]
    · simp at ha
  | cons c l ih =>
    have ih := fun a => ih _ a h
    dsimp only at ih
    split at ih
    · rename_i hnewer
      have hc := ih c (Or.inl rfl)
      rcases ha with rfl | ha
      · have hlt : created a < created c := by simpa using hnewer
        omega
      · rcases List.mem_cons.mp ha with rfl | ha
        · exact hc
        · exact ih a (Or.inr ha)
    · rename_i hnewer
      rcases ha with rfl | ha
      · exact ih a (Or.inl rfl)
      · rcases List.mem_cons.mp ha with rfl | ha
        · cases best with
          | none => simp at hnewer
          | some b =>
            have hb := ih b (Or.inl rfl)
            have hle : ¬ created b < created a := by simpa using hnewer
            omega
        · exact ih a (Or.inr ha)

theorem openRow_get {s : State} {k : Uuid} {r : Row} (h : openRow s = some (k,r)) :
    s.corrections.get k = some r := by
  rcases foldl_best_mem (fun (b e : Uuid × Row) => decide (b.2.updatedAt < e.2.updatedAt))
    _ none (k,r) h with h | h
  · simp at h
  · exact (Table.mem_iff_get _ k r).mp (List.mem_filter.mp h).1

theorem newestFound_get {s : State} {sha : String} {dep : Uuid} {d : Deployment}
    (h : newestFound sha s = some (dep,d)) : s.deployments.get dep = some d ∧ d.found sha = true ∧
      ∀ e ∈ s.deployments.rows, e.2.found sha = true → e.2.createdAt ≤ d.createdAt := by
  have hnewest := fun e => foldl_newest_le (fun (e : Uuid × Deployment) => e.2.createdAt) _ none (dep,d) e h
  rcases foldl_best_mem (fun (b e : Uuid × Deployment) => decide (b.2.createdAt < e.2.createdAt))
    _ none (dep,d) h with h | h
  · simp at h
  · obtain ⟨hmem,hfound⟩ := List.mem_filter.mp h
    exact ⟨(Table.mem_iff_get _ dep d).mp hmem,hfound,fun e he hf =>
      hnewest e (Or.inr (List.mem_filter.mpr ⟨he,hf⟩))⟩

theorem ending_closed {status : DeployQueue.DeployStatus} {state : CorrectionState} {note : String}
    (h : ending status = some (state,note)) :
    state.closed = true ∧ (state = .live → status.succeeded = true) := by
  cases status <;> simp [ending] at h <;> obtain ⟨rfl,-⟩ := h <;>
    simp [CorrectionState.closed, DeployQueue.DeployStatus.succeeded]

theorem Inv.refreshNext {s : State} (hs : Inv s) {i : ℕ} {k : Uuid} {sha : String}
    {todo : List (Uuid × Option String)} (hi : s.calls[i]? = some (.refresh ((k,some sha)::todo)))
    (hf : FindsOwn s (.refresh ((k,some sha)::todo))) : Inv (Corrections.refreshNext i k sha todo s) := by
  unfold Corrections.refreshNext
  split
  · exact hs.wrote rfl hi (fun _ => rfl) _ (fun _ => rfl) trivial
  · rename_i dep d hnewest
    obtain ⟨hget,hfound,hmax⟩ := newestFound_get hnewest
    split
    · exact hs.wrote rfl hi (fun _ => rfl) _ (fun _ => rfl) trivial
    · rename_i state note hending
      obtain ⟨hclosed,hlive⟩ := ending_closed hending
      refine hs.wrote rfl hi (fun _ => rfl) _ (fun _ => rfl) ⟨hclosed,fun hstate => ?_⟩
      obtain ⟨henv,hof,at_,happlied,hle⟩ := hf (dep,d) ((Table.mem_iff_get _ dep d).mpr hget) hfound hmax
        (hlive hstate)
      obtain ⟨f,hfinished,hcreated⟩ := (hs.deployments dep d hget).finished (hlive hstate)
      exact ⟨d,hget,henv,hof,hlive hstate,at_,f,happlied,hfinished,hle.trans hcreated⟩

theorem Inv.refreshWrite {s : State} (hs : Inv s) {i : ℕ} {k : Uuid} {sha : String} {dep : Uuid}
    {state : CorrectionState} {note : String} {appliedAt : Option Instant}
    {todo : List (Uuid × Option String)}
    (hi : s.calls[i]? = some (.refreshWrite k sha dep state note appliedAt todo))
    (hf : FindsOwn s (.refreshWrite k sha dep state note appliedAt todo)) :
    Inv (Corrections.refreshWrite i k dep state note todo s) := by
  obtain ⟨hclosed,hlive⟩ := hs.calls _ (List.mem_of_getElem? hi)
  have hwrite := hs.write k (fun r => { r with
      state := state, note := note, deploymentUuid := some dep, updatedAt := s.now })
    (fun _ => ⟨id,rfl⟩) (fun _ _ _ => hclosed)
  have hset := hwrite.wrote rfl hi (fun _ => rfl) (.refresh todo) (fun _ => rfl) trivial
  simp only [Corrections.refreshWrite]
  split
  · rename_i hstate
    obtain ⟨d,hget,henv,hof,hsucc,at_,f,happlied,hfinished,hle⟩ := hlive hstate
    have hnew : Live.deployed
        ⟨k,(s.corrections.get k).bind Row.sha,(s.past k).appliedAt,s.deployments.rows⟩ :=
      ⟨(dep,d),(Table.mem_iff_get _ dep d).mpr hget,henv,hsucc,⟨sha,(hf hstate).1,hof⟩,
        at_,f,(hf hstate).2.trans happlied,hfinished,hle⟩
    constructor
    · exact hset.closed
    · exact hset.tested
    · exact hset.counted
    · exact hset.few
    · exact hset.absent
    · exact hset.calls
    · exact hset.deployments
    · intro e he
      rcases List.mem_append.mp he with h | h
      · exact hs.lives e h
      · rw [List.mem_singleton.mp h]
        exact hnew
  · exact hset

/-! ## Runs -/

theorem Inv.next {s : State} (hs : Inv s) {i : ℕ} (c : Choice) {piece : Piece}
    (hi : s.calls[i]? = some piece) (hw : WritesOpen s c piece) (hl : VerifiesLast s c piece)
    (hf : FindsOwn s piece) : Inv (Corrections.next i c s piece) := by
  cases piece with
  | note report now found => exact hs.noteWrite c hi hw hl
  | verifySpawned k => exact hs.setCall hi _ (fun _ => rfl) trivial
  | verifyRunning k since => exact hs.countVerification c.tests hi hl
  | verifyCounted k attempts passed => exact hs.endVerification c.agent hi hw
  | gate todo =>
    cases todo with
    | nil => exact hs.wrote rfl hi (fun _ => rfl) _ (fun _ => rfl) trivial
    | cons k ks =>
      exact (hs.setState k .archived _ (Or.inl rfl)).wrote rfl hi (fun _ => rfl) _ (fun _ => rfl) trivial
  | archiveOpen k =>
    exact (hs.setState k .archived _ (Or.inl rfl)).wrote rfl hi (fun _ => rfl) _ (fun _ => rfl) trivial
  | sorted sorted => exact hs.wrote rfl hi (fun _ => rfl) _ (fun _ => rfl) trivial
  | archiveDiscarded sorted found => exact hs.archiveDiscarded c.fresh hi
  | ensureRow report asked => exact hs.insertRow c.fresh hi
  | applyPushing k => exact hs.applied c hi hw
  | applyRecord k sha =>
    have hwrite := hs.write k (fun r => { r with sha := some sha, updatedAt := s.now })
      (fun _ => ⟨id,rfl⟩) (fun _ _ hc => hc)
    exact hwrite.wrote rfl hi (fun _ => rfl) _ (fun _ => rfl) trivial
  | applyMark k => exact hs.applyMark c hi hw
  | rejecting k =>
    cases hd : c.discarded with
    | none =>
      simp only [Corrections.next, hd]
      exact hs.wrote rfl hi (fun _ => rfl) _ (fun _ => rfl) trivial
    | some backup =>
      simp only [Corrections.next, hd]
      exact hs.wrote rfl hi (fun _ => rfl) _ (fun _ => rfl) trivial
  | rejectWrite k backup =>
    have hwrite := hs.write k (fun r => { r with
        state := .rejected
        backupId := some backup
        note := "Rejetée. Récupérable pendant 7 jours."
        updatedAt := s.now })
      (fun _ => ⟨id,rfl⟩) (fun _ _ _ => rfl)
    exact hwrite.wrote rfl hi (fun _ => rfl) _ (fun _ => rfl) trivial
  | redoing found =>
    cases found with
    | none => exact hs.wrote rfl hi (fun _ => rfl) _ (fun _ => rfl) trivial
    | some k => exact hs.wrote rfl hi (fun _ => rfl) _ (fun _ => rfl) trivial
  | redoWrite k backup =>
    have hwrite := hs.write k (fun r => { r with
        state := .archived
        backupId := backup
        note := "Remplacée : Rustine refait la correction."
        updatedAt := s.now })
      (fun _ => ⟨id,rfl⟩) (fun _ _ _ => rfl)
    exact hwrite.wrote rfl hi (fun _ => rfl) _ (fun _ => rfl) trivial
  | refresh todo =>
    cases todo with
    | nil => exact hs.wrote rfl hi (fun _ => rfl) _ (fun _ => rfl) trivial
    | cons e todo =>
      obtain ⟨k,sha⟩ := e
      cases sha with
      | none => exact hs.wrote rfl hi (fun _ => rfl) _ (fun _ => rfl) trivial
      | some sha => exact hs.refreshNext hi hf
  | refreshWrite k sha dep state text applied todo => exact hs.refreshWrite hi hf
  | done => exact hs

theorem Inv.tick {s : State} (hs : Inv s) (seconds : ℕ) :
    Inv { s with now := s.now+seconds } :=
  ⟨hs.closed,hs.tested,hs.counted,hs.few,hs.absent,hs.calls,fun k d hd =>
    ⟨(hs.deployments k d hd).created.trans (Nat.le_add_right _ _),(hs.deployments k d hd).finished⟩,
    hs.lives⟩

/-- Deployments that have succeeded stay as they are. -/
theorem Inv.setDeployments {s : State} (hs : Inv s) (t : Table Uuid Deployment)
    (hkeep : ∀ k d, s.deployments.get k = some d → d.status.succeeded = true → t.get k = some d)
    (hok : ∀ k d, t.get k = some d → DeploymentOk s.now d) : Inv { s with deployments := t } := by
  constructor
  · exact hs.closed
  · exact hs.tested
  · exact hs.counted
  · exact hs.few
  · exact hs.absent
  · intro c hc
    have hpiece := hs.calls c hc
    unfold PieceOk at hpiece ⊢
    split at hpiece
    · exact hpiece
    · refine ⟨hpiece.1,fun hstate => ?_⟩
      obtain ⟨d,hget,henv,hof,hsucc,h⟩ := hpiece.2 hstate
      exact ⟨d,hkeep _ d hget hsucc,henv,hof,hsucc,h⟩
    · trivial
  · exact hok
  · exact hs.lives

theorem Inv.deploy {s : State} (hs : Inv s) (uuid : Uuid) (environment : DeployQueue.Environment)
    (targetSha : Option String) (gitSha : String) :
    Inv (Corrections.step s (.deploy uuid environment targetSha gitSha)) := by
  refine hs.setDeployments _ (fun k d hget _ => ?_) (fun k d hget => ?_)
  · rw [Table.get_insert, if_neg, hget]
    rintro ⟨rfl,hk⟩
    exact absurd (((Table.get_none_iff _ k).mpr hk).symm.trans hget) (by simp)
  · rw [Table.get_insert] at hget
    split at hget
    · rw [← Option.some.inj hget]
      exact ⟨le_rfl,fun h => by simp [DeployQueue.DeployStatus.succeeded] at h⟩
    · exact hs.deployments k d hget

theorem succeeded_not_active {status : DeployQueue.DeployStatus} (h : status.succeeded = true) :
    status.active = false := by
  cases status <;> simp [DeployQueue.DeployStatus.succeeded] at h <;> rfl

theorem Inv.finish {s : State} (hs : Inv s) (uuid : Uuid) (status : DeployQueue.DeployStatus)
    (gitSha : String) : Inv (Corrections.step s (.finish uuid status gitSha)) := by
  refine hs.setDeployments _ (fun k d hget hsucc => ?_) (fun k d hget => ?_)
  · rw [Table.get_update, hget]
    simp [succeeded_not_active hsucc]
  · rw [Table.get_update] at hget
    obtain ⟨d',hd',rfl⟩ := Option.map_eq_some_iff.mp hget
    have hok := hs.deployments k d' hd'
    split
    · refine ⟨hok.created,fun hsucc => ⟨s.now,?_,hok.created⟩⟩
      have hsucc : status.succeeded = true := hsucc
      show (if status.active = true then d'.finishedAt else some s.now) = some s.now
      rw [succeeded_not_active hsucc]
      rfl
    · exact hok

theorem Inv.asked {s : State} (hs : Inv s) (report : Report) (asked : Asked) :
    Inv (Corrections.ensureRow report asked s) := by
  unfold Corrections.ensureRow
  split
  · rename_i k r _
    exact hs.call _ (fun _ => by cases asked <;> rfl) (by cases asked <;> trivial)
  · exact hs.call _ (fun _ => rfl) trivial

theorem Inv.step {s : State} (hs : Inv s) (a : Action) (hg : Orderly s a) : Inv (Corrections.step s a) := by
  cases a with
  | tick seconds => exact hs.tick seconds
  | deploy uuid environment targetSha gitSha => exact hs.deploy uuid environment targetSha gitSha
  | finish uuid status gitSha => exact hs.finish uuid status gitSha
  | noteProposed report =>
    refine hs.call _ (fun _ => rfl) ?_
    cases hopen : openRow s with
    | none => trivial
    | some e => exact mem_keys_iff.mpr ⟨e.2,openRow_get hopen⟩
  | gateDeployOnRepair =>
    simp only [Corrections.step, Corrections.gateDeployOnRepair]
    split
    · exact hs
    · exact hs.call _ (fun _ => rfl) trivial
  | autoSort sorted =>
    cases sorted with
    | none =>
      simp only [Corrections.step]
      split
      · exact hs.call _ (fun _ => rfl) trivial
      · exact hs
    | some sorted => exact hs.call _ (fun _ => rfl) trivial
  | apply report => exact hs.asked report .apply
  | reject report => exact hs.asked report .reject
  | redo => exact hs.call _ (fun _ => rfl) trivial
  | refreshDeploying => exact hs.call _ (fun _ => rfl) trivial
  | next i c =>
    simp only [Corrections.step]
    split
    · rename_i piece hi
      obtain ⟨hw,hl,hf⟩ := hg piece hi
      exact hs.next c hi hw hl hf
    · exact hs

theorem Inv.lifecycle {s : State} (hs : Inv s) : Lifecycle s := by
  constructor
  · intro k r hr hclosed
    have := hs.closed k r hr hclosed
    constructor
    · rintro h
      rw [h] at this
      simp [CorrectionState.closed] at this
    · rintro h
      rw [h] at this
      simp [CorrectionState.closed] at this
  · exact fun k r hr _ _ htest => hs.tested k r hr htest
  · exact hs.few
  · exact hs.lives

/-- In every run whose calls write to corrections still open, verify the last change and find
the deployments of the correction itself, the corrections keep to their lives. -/
theorem lifecycle_of_orderly (acts : List Action) (h : Guarded Corrections.step Orderly acts Corrections.start) :
    Lifecycle (run Corrections.step acts Corrections.start) :=
  (guarded_invariant Corrections.step Orderly Inv (fun _ a hs hg => hs.step a hg) acts _ start_inv h).lifecycle

def repairReport : Report := ⟨"repair","rustine","Le build échoue",["src/main.ts"],"build","import corrigé"⟩

def passing : Choice := ⟨1,⟨true,"12 tests",true⟩,false,.pushed "4f1c2d9a0b",false,none⟩

/-- A repair is proposed, verified, applied and deployed. -/
def repairLives : List Action :=
  [.noteProposed repairReport,.next 0 passing,.next 0 passing,.next 0 passing,.next 0 passing,
    .tick 60,.apply repairReport,.next 1 passing,.next 1 passing,.next 1 passing,
    .deploy 1 .production (some "4f1c2d9a0b") "4f1c2d9a0b",.tick 90,
    .finish 1 .success "4f1c2d9a0b",.refreshDeploying,.next 2 passing,.next 2 passing]

example : ((run Corrections.step repairLives Corrections.start).corrections.get 1).map Row.state =
    some .live := by decide +kernel

theorem lifecycle_of_repair : Lifecycle (run Corrections.step repairLives Corrections.start) :=
  lifecycle_of_orderly repairLives (by decide +kernel)

/-- The tests of a repair end after a new commit was deployed in its place. -/
def archivedWhileTested : List Action :=
  [.noteProposed repairReport,.next 0 passing,.next 0 passing,.tick 2000,.gateDeployOnRepair,
    .next 1 passing,.next 0 passing,.next 0 passing]

theorem archived_repair_reopens : ¬ ∀ acts, Lifecycle (run Corrections.step acts Corrections.start) := by
  intro h
  have hstate : ((run Corrections.step archivedWhileTested Corrections.start).corrections.get 1).map
      Row.state = some .proposed := by decide +kernel
  have hclosed : ((run Corrections.step archivedWhileTested Corrections.start).past 1).closed = true := by
    decide +kernel
  obtain ⟨r,hr,hproposed⟩ := Option.map_eq_some_iff.mp hstate
  exact ((h archivedWhileTested).closed 1 r hr hclosed).2 hproposed

end DevForge.CorrectionLifecycle
