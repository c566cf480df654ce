import DevForge.FixedDigits
import DevForge.WatchRuns

/-!
# What the checks of a watch write

A lost check writes nothing, each alert has its own number, and the state
alerted last is the one that the row remembers.
-/

set_option autoImplicit false

namespace DevForge.WatchAlerts
open PageWatches SeparatedParts Transition WatchRuns

variable (digest : String → String)

/-! ## Keys of alerts -/

/-- The keys that the alert of this number of a watch can have. -/
def IsKey (k : Uuid) (seq : ℕ) (key : String) : Prop :=
  (∃ h, key = sha256Hex digest [toString k,toString seq,h]) ∨
    key = sha256Hex digest [toString k,"paused",toString seq]

theorem separator_repr (n : ℕ) : SEPARATOR ∉ (toString n).toList :=
  fun h => absurd (FixedDigits.isDigit_of_mem_toString n _ h) (by decide)

theorem repr_inj {m n : ℕ} (h : (toString m).toList = (toString n).toList) : m = n :=
  toString_inj (String.toList_injective h)

theorem paused_ne_repr (n : ℕ) : "paused".toList ≠ (toString n).toList := by
  intro h
  have hp : 'p' ∈ (toString n).toList := by
    rw [← h]
    decide
  exact absurd (FixedDigits.isDigit_of_mem_toString n _ hp) (by decide)

variable {digest}

theorem sha256Hex_inj (hinj : Function.Injective digest) {p q : List String}
    (h : sha256Hex digest p = sha256Hex digest q) :
    encode SEPARATOR (p.map String.toList) = encode SEPARATOR (q.map String.toList) :=
  String.ofList_injective (hinj h)

theorem IsKey.inj (hinj : Function.Injective digest) {k k' : Uuid} {seq seq' : ℕ} {key : String}
    (h : IsKey digest k seq key) (h' : IsKey digest k' seq' key) : k = k' ∧ seq = seq' := by
  have hsep : SEPARATOR ∉ "paused".toList := by decide
  rcases h with ⟨x,rfl⟩ | rfl <;> rcases h' with ⟨y,hy⟩ | hy
  · have he := sha256Hex_inj hinj hy
    obtain ⟨h1,he⟩ := encode_cons_inj SEPARATOR (separator_repr k) (separator_repr k') he
    obtain ⟨h2,_⟩ := encode_cons_inj SEPARATOR (separator_repr seq) (separator_repr seq') he
    exact ⟨repr_inj h1,repr_inj h2⟩
  · have he := sha256Hex_inj hinj hy
    obtain ⟨_,he⟩ := encode_cons_inj SEPARATOR (separator_repr k) (separator_repr k') he
    obtain ⟨h2,_⟩ := encode_cons_inj SEPARATOR (separator_repr seq) hsep he
    exact absurd h2.symm (paused_ne_repr seq)
  · have he := sha256Hex_inj hinj hy
    obtain ⟨_,he⟩ := encode_cons_inj SEPARATOR (separator_repr k) (separator_repr k') he
    obtain ⟨h2,_⟩ := encode_cons_inj SEPARATOR hsep (separator_repr seq') he
    exact absurd h2 (paused_ne_repr seq')
  · have he := sha256Hex_inj hinj hy
    obtain ⟨h1,he⟩ := encode_cons_inj SEPARATOR (separator_repr k) (separator_repr k') he
    obtain ⟨_,he⟩ := encode_cons_inj SEPARATOR hsep hsep he
    obtain ⟨h3,_⟩ := encode_cons_inj SEPARATOR (separator_repr seq) (separator_repr seq') he
    exact ⟨repr_inj h1,repr_inj h3⟩

/-! ## Decisions -/

variable (digest) in
/-- An alert takes the next number, and nothing else takes one. -/
theorem decide_alert (w : PageWatch) (result : Except String Evaluation) :
    ((w.decide digest result).alert = none ∧ (w.decide digest result).alertSeq = w.alertSeq) ∨
    ∃ a, (w.decide digest result).alert = some a ∧
      (w.decide digest result).alertSeq = w.alertSeq+1 ∧
      IsKey digest w.uuid (w.alertSeq+1) a.dedupeKey := by
  have honce : ∀ ev outcome,
      ((alertOnce digest w ev outcome).alert = none ∧
        (alertOnce digest w ev outcome).alertSeq = w.alertSeq) ∨
      ∃ a, (alertOnce digest w ev outcome).alert = some a ∧
        (alertOnce digest w ev outcome).alertSeq = w.alertSeq+1 ∧
        IsKey digest w.uuid (w.alertSeq+1) a.dedupeKey := by
    intro ev outcome
    by_cases h : w.lastAlertHash = some ev.stateHash
    · exact Or.inl (by simp [alertOnce, h, quiet])
    · refine Or.inr ⟨_,by rw [alertOnce, if_neg h],by rw [alertOnce, if_neg h],?_⟩
      exact Or.inl ⟨ev.stateHash,rfl⟩
  cases result with
  | error err =>
    by_cases h : MAX_FAILURES ≤ w.failureStreak+1
    · exact Or.inr ⟨_,by simp [PageWatch.decide, decideError, h]; rfl,by simp [PageWatch.decide, decideError, h],Or.inr rfl⟩
    · exact Or.inl (by simp [PageWatch.decide, decideError, h])
  | ok ev =>
    simp only [PageWatch.decide, decideOk]
    split
    · split
      · exact Or.inl ⟨rfl,rfl⟩
      split
      · exact Or.inl ⟨rfl,rfl⟩
      · exact honce ev .changed
    split
    · exact Or.inl ⟨rfl,rfl⟩
    · exact honce ev .met

variable (digest) in
/-- What becomes of the state alerted last. -/
theorem decide_last (w : PageWatch) (ev : Evaluation) :
    ((w.decide digest (.ok ev)).alert = none ∧
      (w.decide digest (.ok ev)).lastAlertHash = w.lastAlertHash ∧
      (w.spec.kind = .change ∨ w.lastAlertHash = some ev.stateHash)) ∨
    ((w.decide digest (.ok ev)).alert = none ∧ w.spec.kind ≠ .change ∧ ev.met = false ∧
      (w.decide digest (.ok ev)).lastAlertHash = none) ∨
    ((w.decide digest (.ok ev)).alert.isSome ∧ w.lastAlertHash ≠ some ev.stateHash ∧
      (w.decide digest (.ok ev)).lastAlertHash = some ev.stateHash ∧
      (w.spec.kind ≠ .change → ev.met)) := by
  simp only [PageWatch.decide, decideOk]
  by_cases hk : w.spec.kind = .change
  · rw [if_pos hk]
    split
    · exact Or.inl ⟨rfl,rfl,Or.inl hk⟩
    split
    · exact Or.inl ⟨rfl,rfl,Or.inl hk⟩
    by_cases h : w.lastAlertHash = some ev.stateHash
    · exact Or.inl ⟨by simp [alertOnce, h, quiet],by simp [alertOnce, h, quiet],Or.inl hk⟩
    · exact Or.inr (Or.inr ⟨by simp [alertOnce, h],h,by simp [alertOnce, h],fun hn => absurd hk hn⟩)
  · rw [if_neg hk]
    by_cases hm : ev.met
    · rw [if_neg (by simp [hm])]
      by_cases h : w.lastAlertHash = some ev.stateHash
      · exact Or.inl ⟨by simp [alertOnce, h, quiet],by simp [alertOnce, h, quiet],Or.inr h⟩
      · exact Or.inr (Or.inr ⟨by simp [alertOnce, h],h,by simp [alertOnce, h],fun _ => hm⟩)
    · rw [if_pos (by simpa using hm)]
      exact Or.inr (Or.inl ⟨rfl,hk,by simpa using hm,rfl⟩)

theorem decide_error_last (w : PageWatch) (err : String) :
    (w.decide digest (.error err)).lastAlertHash = w.lastAlertHash := rfl

/-- Under one condition the digest of the state tells whether it is met. -/
theorem met_of_stateHash (hinj : Function.Injective digest) (spec : WatchSpec)
    (hk : spec.kind ≠ .change) {reading reading' : Reading} {prev prev' : Option String}
    {ev ev' : Evaluation} (h : evaluate digest spec reading prev = .ok ev)
    (h' : evaluate digest spec reading' prev' = .ok ev') (hs : ev.stateHash = ev'.stateHash) :
    ev.met = ev'.met := by
  unfold evaluate at h h'
  cases hkind : spec.kind with
  | change => exact absurd hkind hk
  | text =>
    simp only [hkind, Except.ok.injEq] at h h'
    subst h h'
    have he := sha256Hex_inj hinj hs
    cases hp : reading.present <;> cases hp' : reading'.present <;> simp [hp, hp'] at he ⊢ <;>
      exact absurd he (by decide)
  | price =>
    simp only [hkind] at h h'
    cases hp : reading.price with
    | none => simp [hp] at h
    | some price =>
      cases hp' : reading'.price with
      | none => simp [hp'] at h'
      | some price' =>
        simp only [hp, hp', Except.ok.injEq] at h h'
        subst h h'
        have he := sha256Hex_inj hinj hs
        cases hm : price.met <;> cases hm' : price'.met
        · rfl
        · have hlast : encode SEPARATOR (["price".toList,price.amount.toList]++[['0']]) =
              encode SEPARATOR (["price".toList,price'.amount.toList]++[['1']]) := by
            simpa [hm, hm'] using he
          exact absurd (encode_last_inj SEPARATOR hlast) (by decide)
        · have hlast : encode SEPARATOR (["price".toList,price.amount.toList]++[['1']]) =
              encode SEPARATOR (["price".toList,price'.amount.toList]++[['0']]) := by
            simpa [hm, hm'] using he
          exact absurd (encode_last_inj SEPARATOR hlast) (by decide)
        · rfl

/-! ## The history of a watch -/

theorem streak_concat (history : List Event) (e : Event) (k : Uuid) :
    streak (history++[e]) k = match e with
      | .observed watch h alerted =>
        if watch ≠ k then streak history k
        else if alerted then some h
        else if streak history k = some h then streak history k else none
      | .edited watch => if watch = k then none else streak history k := by
  rw [streak, List.foldl_append]
  rfl

theorem streak_other (history : List Event) (e : Event) (k : Uuid) (h : e.watch ≠ k) :
    streak (history++[e]) k = streak history k := by
  rw [streak_concat]
  cases e with
  | observed watch x alerted => exact if_pos h
  | edited watch => exact if_neg h

theorem streak_append_other (history events : List Event) (k : Uuid)
    (h : ∀ e ∈ events, e.watch ≠ k) : streak (history++events) k = streak history k := by
  induction events using List.reverseRecOn with
  | nil => rw [List.append_nil]
  | append_singleton l e ih =>
    rw [← List.append_assoc, streak_other _ e k (h e (by simp))]
    exact ih (fun e he => h e (by simp [he]))

theorem streak_none (history : List Event) (k : Uuid) (h : ∀ e ∈ history, e.watch ≠ k) :
    streak history k = none := by
  exact streak_append_other [] history k h

/-- An alert with nothing of the kind after it is the current streak. -/
theorem streak_of_alert (history : List Event) (i : ℕ) (k : Uuid) (h : String)
    (hi : history[i]? = some (Event.observed k h true))
    (hno : ∀ n e, i < n → history[n]? = some e → e.breaks k h = false) :
    streak history k = some h := by
  induction history using List.reverseRecOn with
  | nil => simp at hi
  | append_singleton l e ih =>
    by_cases hlt : i < l.length
    · rw [List.getElem?_append_left hlt] at hi
      have hl := ih hi (fun n e' hn he' => hno n e' hn (by
        rw [List.getElem?_append_left (by
          by_contra hc
          rw [List.getElem?_eq_none (by omega)] at he'
          simp at he')]
        exact he'))
      have he := hno l.length e hlt (by simp)
      rw [streak_concat, hl]
      cases e with
      | observed watch x alerted =>
        simp only [Event.breaks, Event.differs, Bool.or_eq_false_iff, Bool.and_eq_false_iff,
          decide_eq_false_iff_not] at he
        by_cases hw : watch = k
        · obtain rfl : x = h := by simpa [hw] using he
          simp [hw]
        · simp [hw]
      | edited watch =>
        have hw : watch ≠ k := by simpa [Event.breaks, Event.differs] using he
        simp [hw]
    · have hend : i = l.length := by
        by_contra hc
        rw [List.getElem?_eq_none (by simp; omega)] at hi
        simp at hi
      subst hend
      obtain rfl : e = .observed k h true := by simpa using hi
      rw [streak_concat]
      simp

theorem noRepeat_concat (history : List Event) (e : Event)
    (hold : NoRepeat Event.breaks history)
    (he : ∀ k h, e = .observed k h true → streak history k ≠ some h) :
    NoRepeat Event.breaks (history++[e]) := by
  intro i j k h hij hi hj
  have hlen : ∀ n (x : Event), n < history.length → history[n]? = some x →
      (history++[e])[n]? = some x := by
    intro n x hn hx
    rw [List.getElem?_append_left hn]
    exact hx
  by_cases hlt : j < history.length
  · rw [List.getElem?_append_left (by omega)] at hi
    rw [List.getElem?_append_left hlt] at hj
    obtain ⟨n,x,hin,hnj,hx,hb⟩ := hold i j k h hij hi hj
    exact ⟨n,x,hin,hnj,hlen n x (by omega) hx,hb⟩
  · have hend : j = history.length := by
      by_contra hc
      rw [List.getElem?_eq_none (by simp; omega)] at hj
      simp at hj
    subst hend
    have hlast : e = .observed k h true := by simpa using hj
    rw [List.getElem?_append_left hij] at hi
    by_contra hno
    apply he k h hlast
    apply streak_of_alert history i k h hi
    intro n x hin hx
    have hn : n < history.length := by
      by_contra hc
      rw [List.getElem?_eq_none (by omega)] at hx
      simp at hx
    by_contra hb
    exact hno ⟨n,x,hin,hn,hlen n x hn hx,by simpa using hb⟩

/-! ## The invariant -/

variable (digest) in
/-- No reading in this state meets the condition. -/
def Never (spec : WatchSpec) (h : String) : Prop :=
  spec.kind ≠ .change ∧ ∀ reading prev ev, evaluate digest spec reading prev = .ok ev →
    ev.stateHash = h → ev.met = false

variable (digest) in
structure Inv (s : State) : Prop where
  keyed : ∀ k r, s.store.rows.get k = some r → r.uuid = k ∧ k ∈ s.uuids
  paused : ∀ k r, s.store.rows.get k = some r → r.status = .paused → r.leaseOwner = none
  tasks : ∀ t ∈ s.tasks, ∃ token ∈ s.tokens, t.w.leaseOwner = some token
  known : ∀ t ∈ s.tasks, t.w.uuid ∈ s.uuids
  lost : ∀ t ∈ s.tasks, t.lost → ∀ r, s.store.rows.get t.w.uuid = some r →
    r.leaseOwner ≠ t.w.leaseOwner
  kept : ∀ t ∈ s.tasks, ∀ r, s.store.rows.get t.w.uuid = some r →
    r.leaseOwner = t.w.leaseOwner → r.alertSeq = t.w.alertSeq ∧
    ∀ h, streak s.history t.w.uuid = some h →
      r.spec = t.w.spec ∧ r.lastAlertHash = t.w.lastAlertHash
  counted : ∀ k r, s.store.rows.get k = some r → r.alertSeq = alertCount s.store k
  keys : ∀ key a, s.store.alerts.get key = some a → ∃ r seq,
    s.store.rows.get a.watchUuid = some r ∧ seq ≤ r.alertSeq ∧ IsKey digest a.watchUuid seq key
  link : ∀ k r h, s.store.rows.get k = some r → streak s.history k = some h →
    r.lastAlertHash = some h ∨ Never digest r.spec h
  events : ∀ e ∈ s.history, e.watch ∈ s.uuids
  noRepeat : NoRepeat Event.breaks s.history

theorem start_inv : Inv digest start := by
  constructor <;> simp [start, NoRepeat]

/-- A change of rows that leaves the numbers of alerts alone. -/
structure Mild (s : State) (rows : Rows) (history : List Event) : Prop where
  row : ∀ k r', rows.get k = some r' → ∃ r, s.store.rows.get k = some r ∧ r'.uuid = r.uuid ∧
    r'.alertSeq = r.alertSeq ∧ (r'.status = .paused → r'.leaseOwner = none) ∧
    (r'.leaseOwner = r.leaseOwner ∨ r'.leaseOwner = none ∨
      ∃ token, token ∉ s.tokens ∧ r'.leaseOwner = some token) ∧
    (streak history k = none ∨ (streak history k = streak s.history k ∧ r'.spec = r.spec ∧
      r'.lastAlertHash = r.lastAlertHash))
  back : ∀ k r, s.store.rows.get k = some r → (rows.get k).isSome

theorem Inv.mild {s : State} (h : Inv digest s) {rows : Rows} {history : List Event}
    (hm : Mild s rows history) (he : ∀ e ∈ history, e.watch ∈ s.uuids)
    (hn : NoRepeat Event.breaks history) :
    Inv digest { s.withRows rows with history := history } := by
  have hlease : ∀ t ∈ s.tasks, ∀ r r', s.store.rows.get t.w.uuid = some r →
      rows.get t.w.uuid = some r' → r'.leaseOwner = t.w.leaseOwner →
      r.leaseOwner = t.w.leaseOwner := by
    intro t ht r r' hr hr' heq
    obtain ⟨token,htok,ho⟩ := h.tasks t ht
    obtain ⟨q,hq,_,_,_,hl,_⟩ := hm.row _ r' hr'
    obtain rfl := Option.some.inj (hq.symm.trans hr)
    rcases hl with hl | hl | ⟨token',hf,hl⟩
    · exact hl.symm.trans heq
    · rw [hl, ho] at heq
      simp at heq
    · rw [hl, ho, Option.some.injEq] at heq
      exact absurd (heq ▸ htok) hf
  constructor
  · intro k r' hr'
    obtain ⟨r,hr,hu,_⟩ := hm.row k r' hr'
    exact ⟨hu.trans (h.keyed k r hr).1,(h.keyed k r hr).2⟩
  · intro k r' hr'
    obtain ⟨_,_,_,_,hp,_⟩ := hm.row k r' hr'
    exact hp
  · exact h.tasks
  · exact h.known
  · intro t ht hl r' hr' heq
    obtain ⟨r,hr,_⟩ := hm.row _ r' hr'
    exact h.lost t ht hl r hr (hlease t ht r r' hr hr' heq)
  · intro t ht r' hr' heq
    obtain ⟨r,hr,_,hseq,_,_,hst⟩ := hm.row _ r' hr'
    obtain ⟨ha,hs⟩ := h.kept t ht r hr (hlease t ht r r' hr hr' heq)
    refine ⟨hseq.trans ha,?_⟩
    intro x hx
    rcases hst with hst | ⟨hst,hspec,hlast⟩
    · exact absurd (hst.symm.trans hx) (by simp)
    · obtain ⟨h1,h2⟩ := hs x (hst.symm.trans hx)
      exact ⟨hspec.trans h1,hlast.trans h2⟩
  · intro k r' hr'
    obtain ⟨r,hr,_,hseq,_⟩ := hm.row k r' hr'
    exact hseq.trans (h.counted k r hr)
  · intro key a ha
    obtain ⟨r,seq,hr,hle,hk⟩ := h.keys key a ha
    obtain ⟨r',hr'⟩ := Option.isSome_iff_exists.mp (hm.back _ r hr)
    obtain ⟨q,hq,_,hseq,_⟩ := hm.row _ r' hr'
    obtain rfl := Option.some.inj (hq.symm.trans hr)
    exact ⟨r',seq,hr',hseq ▸ hle,hk⟩
  · intro k r' x hr' hx
    obtain ⟨r,hr,_,_,_,_,hst⟩ := hm.row k r' hr'
    rcases hst with hst | ⟨hst,hspec,hlast⟩
    · exact absurd (hst.symm.trans hx) (by simp)
    · rw [hspec, hlast]
      exact h.link k r x hr (hst.symm.trans hx)
  · exact he
  · exact hn

/-- An update of rows by a change that is mild on each of them. -/
theorem Mild.update (s : State) (p : Uuid → PageWatch → Bool) (f : PageWatch → PageWatch)
    (hpaused : ∀ k r, s.store.rows.get k = some r → r.status = .paused → r.leaseOwner = none)
    (hf : ∀ k r, s.store.rows.get k = some r → p k r → (f r).uuid = r.uuid ∧
      (f r).alertSeq = r.alertSeq ∧ ((f r).status = .paused → (f r).leaseOwner = none) ∧
      ((f r).leaseOwner = r.leaseOwner ∨ (f r).leaseOwner = none ∨
        ∃ token, token ∉ s.tokens ∧ (f r).leaseOwner = some token) ∧
      (f r).spec = r.spec ∧ (f r).lastAlertHash = r.lastAlertHash) :
    Mild s (s.store.rows.update p (fun _ => f)) s.history := by
  constructor
  · intro k r' hr'
    rw [Table.get_update] at hr'
    obtain ⟨r,hr,heq⟩ := Option.map_eq_some_iff.mp hr'
    refine ⟨r,hr,?_⟩
    by_cases hp : p k r
    · rw [if_pos hp] at heq
      subst heq
      obtain ⟨h1,h2,h3,h4,h5,h6⟩ := hf k r hr hp
      exact ⟨h1,h2,h3,h4,Or.inr ⟨rfl,h5,h6⟩⟩
    · rw [if_neg hp] at heq
      subst heq
      exact ⟨rfl,rfl,hpaused k r hr,Or.inl rfl,Or.inr ⟨rfl,rfl,rfl⟩⟩
  · intro k r hr
    rw [Table.get_update, hr]
    rfl

/-! ## The actions -/

theorem Inv.claim {s : State} (h : Inv digest s) (p : Uuid → PageWatch → Bool)
    (owner token : String) (hp : ∀ k w, p k w → w.status = .active) :
    Inv digest (claim s p (s.store.rows.update p (fun _ => PageWatch.lease token s.now))
      owner token) := by
  by_cases htok : token ∈ s.tokens
  · rw [WatchRuns.claim, if_pos htok]
    exact h
  rw [WatchRuns.claim, if_neg htok]
  have hmild := Mild.update s p (PageWatch.lease token s.now) h.paused (fun k r _ hpk =>
    ⟨rfl,rfl,fun hs => absurd ((hp k r hpk).symm.trans hs) (by decide),
      Or.inr (Or.inr ⟨token,htok,rfl⟩),rfl,rfl⟩)
  have hb := h.mild hmild h.events h.noRepeat
  have hnew : ∀ t ∈ (s.store.rows.affected p).filterMap (fun k =>
      ((s.store.rows.update p (fun _ => PageWatch.lease token s.now)).get k).map
        (fun w => (⟨w,owner,false⟩ : Task))), t.lost = false ∧ t.w.leaseOwner = some token ∧
      t.w.uuid ∈ s.uuids ∧
      (s.store.rows.update p (fun _ => PageWatch.lease token s.now)).get t.w.uuid = some t.w := by
    intro t ht
    obtain ⟨k,hk,hw⟩ := List.mem_filterMap.mp ht
    obtain ⟨w,hget,rfl⟩ := Option.map_eq_some_iff.mp hw
    obtain ⟨r,hr,hpr⟩ := (Table.mem_affected_iff _ _ _).mp hk
    obtain ⟨hu,hin⟩ := hb.keyed k w hget
    have hl := hget
    rw [Table.get_update, hr, Option.map_some, if_pos hpr, Option.some.injEq] at hl
    subst hl
    exact ⟨rfl,rfl,hu.symm ▸ hin,hu.symm ▸ hget⟩
  constructor
  · exact hb.keyed
  · exact hb.paused
  · intro t ht
    rcases List.mem_append.mp ht with ht | ht
    · obtain ⟨token',hm,ho⟩ := hb.tasks t ht
      exact ⟨token',List.mem_append_left _ hm,ho⟩
    · exact ⟨token,by simp,(hnew t ht).2.1⟩
  · intro t ht
    rcases List.mem_append.mp ht with ht | ht
    · exact hb.known t ht
    · exact (hnew t ht).2.2.1
  · intro t ht hl
    rcases List.mem_append.mp ht with ht | ht
    · exact hb.lost t ht hl
    · exact absurd hl (by simp [(hnew t ht).1])
  · intro t ht r hr heq
    rcases List.mem_append.mp ht with ht | ht
    · exact hb.kept t ht r hr heq
    · obtain rfl := Option.some.inj ((hnew t ht).2.2.2.symm.trans hr)
      exact ⟨rfl,fun _ _ => ⟨rfl,rfl⟩⟩
  · exact hb.counted
  · exact hb.keys
  · exact hb.link
  · exact hb.events
  · exact hb.noRepeat

/-- A check that ends takes nothing with it. -/
theorem Inv.erase {s : State} (h : Inv digest s) (i : ℕ) :
    Inv digest { s with tasks := s.tasks.eraseIdx i } := by
  have hsub : ∀ t ∈ s.tasks.eraseIdx i, t ∈ s.tasks := fun t ht => List.mem_of_mem_eraseIdx ht
  exact ⟨h.keyed,h.paused,fun t ht => h.tasks t (hsub t ht),fun t ht => h.known t (hsub t ht),
    fun t ht => h.lost t (hsub t ht),fun t ht => h.kept t (hsub t ht),h.counted,h.keys,h.link,
    h.events,h.noRepeat⟩

theorem Inv.create {s : State} (h : Inv digest s) (uuid workspace : Uuid) (e : WatchEdit)
    (hu : uuid ∉ s.uuids) :
    Inv digest { s.withRows (s.store.rows.insert uuid (newWatch uuid workspace e s.now)) with
      uuids := s.uuids++[uuid] } := by
  have hfresh : uuid ∉ s.store.rows.keys := by
    intro hm
    obtain ⟨r,hr⟩ := Option.ne_none_iff_exists'.mp
      (fun hn => (Table.get_none_iff _ _).mp hn hm)
    exact hu (h.keyed uuid r hr).2
  have hget : ∀ k, (s.store.rows.insert uuid (newWatch uuid workspace e s.now)).get k =
      if k = uuid then some (newWatch uuid workspace e s.now) else s.store.rows.get k := by
    intro k
    rw [Table.get_insert]
    simp [hfresh]
  have hold : ∀ k, k ∈ s.uuids →
      (s.store.rows.insert uuid (newWatch uuid workspace e s.now)).get k = s.store.rows.get k := by
    intro k hk
    have hne : k ≠ uuid := fun heq => hu (heq ▸ hk)
    rw [hget, if_neg hne]
  have hno : ∀ key a, s.store.alerts.get key = some a → a.watchUuid ≠ uuid := by
    intro key a ha heq
    obtain ⟨r,_,hr,_⟩ := h.keys key a ha
    exact hu (heq ▸ (h.keyed _ r hr).2)
  constructor
  · intro k r hr
    have hr' := (hget k).symm.trans hr
    split at hr'
    · rename_i hk
      obtain rfl := Option.some.inj hr'
      exact ⟨hk.symm,by simp [hk]⟩
    · exact ⟨(h.keyed k r hr').1,List.mem_append_left _ (h.keyed k r hr').2⟩
  · intro k r hr
    have hr' := (hget k).symm.trans hr
    split at hr'
    · obtain rfl := Option.some.inj hr'
      exact fun _ => rfl
    · exact h.paused k r hr'
  · exact h.tasks
  · exact fun t ht => List.mem_append_left _ (h.known t ht)
  · intro t ht hl r hr
    exact h.lost t ht hl r ((hold _ (h.known t ht)).symm.trans hr)
  · intro t ht r hr
    exact h.kept t ht r ((hold _ (h.known t ht)).symm.trans hr)
  · intro k r hr
    have hr' := (hget k).symm.trans hr
    split at hr'
    · rename_i hk
      obtain rfl := Option.some.inj hr'
      symm
      show alertCount s.store k = 0
      rw [alertCount, List.length_eq_zero_iff, List.filter_eq_nil_iff]
      intro x hx
      have := hno x.1 x.2 ((Table.mem_iff_get _ _ _).mp hx)
      simpa [hk] using this
    · exact h.counted k r hr'
  · intro key a ha
    obtain ⟨r,seq,hr,hk⟩ := h.keys key a ha
    refine ⟨r,seq,?_,hk⟩
    exact (hold _ (h.keyed _ r hr).2).trans hr
  · intro k r x hr hx
    have hr' := (hget k).symm.trans hr
    split at hr'
    · rename_i hk
      have hnone : streak s.history k = none := by
        apply streak_none
        intro x hx heq
        exact hu ((heq.trans hk) ▸ h.events x hx)
      exact absurd (hnone.symm.trans hx) (by simp)
    · exact h.link k r x hr' hx
  · exact fun e he => List.mem_append_left _ (h.events e he)
  · exact h.noRepeat

theorem Inv.delete {s : State} (h : Inv digest s) (workspace uuid : Uuid) :
    Inv digest { s with store := delete workspace uuid s.store } := by
  by_cases hc : (s.store.rows.get uuid).any (fun w => w.workspaceUuid = workspace)
  swap
  · rw [PageWatches.delete, if_neg hc]
    exact h
  rw [PageWatches.delete, if_pos hc]
  have hrow : ∀ k r, (s.store.rows.delete (fun k _ => k = uuid)).get k = some r →
      s.store.rows.get k = some r ∧ k ≠ uuid := by
    intro k r hr
    rw [Table.get_delete, Option.filter_eq_some_iff] at hr
    simpa using hr
  have hkeep : ∀ k r, s.store.rows.get k = some r → k ≠ uuid →
      (s.store.rows.delete (fun k _ => k = uuid)).get k = some r := by
    intro k r hr hk
    rw [Table.get_delete, hr]
    simp [Option.filter, hk]
  constructor
  · intro k r hr
    exact h.keyed k r (hrow k r hr).1
  · intro k r hr
    exact h.paused k r (hrow k r hr).1
  · exact h.tasks
  · exact h.known
  · intro t ht hl r hr
    exact h.lost t ht hl r (hrow _ r hr).1
  · intro t ht r hr
    exact h.kept t ht r (hrow _ r hr).1
  · intro k r hr
    obtain ⟨hr,hk⟩ := hrow k r hr
    rw [h.counted k r hr]
    simp only [alertCount, Table.delete, List.filter_filter]
    congr 1
    apply List.filter_congr
    intro e _
    by_cases he : e.2.watchUuid = k <;> simp [he, hk]
  · intro key a ha
    rw [Table.get_delete, Option.filter_eq_some_iff] at ha
    obtain ⟨r,seq,hr,hk⟩ := h.keys key a ha.1
    exact ⟨r,seq,hkeep _ r hr (by simpa using ha.2),hk⟩
  · intro k r x hr hx
    exact h.link k r x (hrow k r hr).1 hx
  · exact h.events
  · exact h.noRepeat

theorem Inv.update {s : State} (h : Inv digest s) (workspace : Uuid) (current : PageWatch)
    (e : WatchEdit) :
    Inv digest { s.withRows (applyUpdate workspace current e s.now s.store.rows) with
      history := if changes workspace current e s.store.rows
        then s.history++[.edited current.uuid] else s.history } := by
  by_cases hc : changes workspace current e s.store.rows
  · rw [if_pos hc]
    have hany : ∃ r, s.store.rows.get current.uuid = some r := by
      obtain ⟨r,hr,_⟩ := (Option.any_eq_true _ _).mp hc
      exact ⟨r,hr⟩
    obtain ⟨r0,hr0⟩ := hany
    apply h.mild
    · constructor
      · intro k r' hr'
        rw [applyUpdate, Table.get_update] at hr'
        obtain ⟨r,hr,heq⟩ := Option.map_eq_some_iff.mp hr'
        refine ⟨r,hr,?_⟩
        by_cases hk : k = current.uuid
        · have hnone : streak (s.history++[.edited current.uuid]) k = none := by
            rw [streak_concat, hk]
            simp
          split at heq <;> subst heq <;>
            exact ⟨rfl,rfl,h.paused k r hr,Or.inl rfl,Or.inl hnone⟩
        · rw [if_neg (by simp [hk])] at heq
          subst heq
          have hsame := streak_other s.history (.edited current.uuid) k (fun heq => hk heq.symm)
          exact ⟨rfl,rfl,h.paused k r hr,Or.inl rfl,Or.inr ⟨hsame,rfl,rfl⟩⟩
      · intro k r hr
        rw [applyUpdate, Table.get_update, hr]
        rfl
    · intro x hx
      rcases List.mem_append.mp hx with hx | hx
      · exact h.events x hx
      · obtain rfl := List.mem_singleton.mp hx
        exact (h.keyed _ r0 hr0).2
    · exact noRepeat_concat s.history _ h.noRepeat (fun _ _ he => by simp at he)
  · rw [if_neg hc]
    apply h.mild (Mild.update s _ _ h.paused ?_) h.events h.noRepeat
    intro k r hr hp
    obtain ⟨rfl,hw⟩ : k = current.uuid ∧ r.workspaceUuid = workspace := by simpa using hp
    have hsame : e.url = current.url ∧ e.spec = current.spec ∧ e.spec = r.spec := by
      simp only [changes, hr, Option.any_some, hw, decide_true, Bool.true_and, Bool.or_eq_true,
        decide_eq_true_eq, not_or, not_not, ne_eq] at hc
      exact ⟨hc.1.1.1,hc.1.1.2,hc.2⟩
    refine ⟨rfl,rfl,h.paused _ r hr,Or.inl rfl,hsame.2.2,?_⟩
    simp [PageWatch.edit, hsame.1, hsame.2.1]

/-! ## The end of a check -/

variable (digest) in
theorem get_applyCheck (w : PageWatch) (owner : String) (input : CheckInput) (now : Instant)
    (s : Store) (r : PageWatch) (hr : s.rows.get w.uuid = some r)
    (hheld : r.held (w.leaseOwner.getD owner)) (k : Uuid) :
    (applyCheck digest w owner input now s).rows.get k =
      if k = w.uuid then some (r.checked (w.decide digest input.result) input now)
      else s.rows.get k := by
  have hany : (s.rows.get w.uuid).any (PageWatch.held (w.leaseOwner.getD owner)) := by
    rw [hr, Option.any_some]
    exact hheld
  simp only [applyCheck, hany, Bool.not_true, Bool.false_eq_true, if_false]
  rw [Table.get_update]
  by_cases hk : k = w.uuid
  · subst hk
    simp [hr, hheld]
  · simp [hk]

variable (digest) in
theorem applyCheck_alerts (w : PageWatch) (owner : String) (input : CheckInput) (now : Instant)
    (s : Store) (r : PageWatch) (hr : s.rows.get w.uuid = some r)
    (hheld : r.held (w.leaseOwner.getD owner)) :
    (applyCheck digest w owner input now s).alerts =
      match (w.decide digest input.result).alert with
      | some a => s.alerts.insert a.dedupeKey ⟨w.uuid,w.workspaceUuid,a.kind,a.title,a.body,now⟩
      | none => s.alerts := by
  have hany : (s.rows.get w.uuid).any (PageWatch.held (w.leaseOwner.getD owner)) := by
    rw [hr, Option.any_some]
    exact hheld
  exact congrArg Store.alerts (if_neg (by simp [hany]))

variable (digest) in
theorem applyCheck_lost (w : PageWatch) (owner : String) (input : CheckInput) (now : Instant)
    (s : Store) (h : (s.rows.get w.uuid).any (PageWatch.held (w.leaseOwner.getD owner)) = false) :
    applyCheck digest w owner input now s = s := by
  simp [applyCheck, h]

/-- The key of a new alert is not among the keys stored. -/
theorem Inv.fresh {s : State} (h : Inv digest s) (hinj : Function.Injective digest)
    (w r : PageWatch) (hr : s.store.rows.get w.uuid = some r) (hseq : r.alertSeq = w.alertSeq)
    (key : String) (hk : IsKey digest w.uuid (w.alertSeq+1) key) : key ∉ s.store.alerts.keys := by
  intro hm
  obtain ⟨a,ha⟩ := Option.ne_none_iff_exists'.mp (fun hn => (Table.get_none_iff _ _).mp hn hm)
  obtain ⟨r',seq,hr',hle,hk'⟩ := h.keys key a ha
  obtain ⟨hu,rfl⟩ := IsKey.inj hinj hk' hk
  rw [hu] at hr'
  obtain rfl := Option.some.inj (hr'.symm.trans hr)
  omega

theorem alertCount_insert (s : Store) (key : String) (a : WatchAlert) (hk : key ∉ s.alerts.keys)
    (rows : Rows) (checks : List WatchCheck) (k : Uuid) :
    alertCount ⟨rows,s.alerts.insert key a,checks⟩ k =
      alertCount s k+(if a.watchUuid = k then 1 else 0) := by
  simp only [alertCount, Table.insert_rows _ _ _ hk, List.filter_append, List.length_append]
  by_cases h : a.watchUuid = k <;> simp [h]

variable (digest) in
theorem evaluated_ok {w : PageWatch} {page : Except String Reading} {ev : Evaluation}
    (h : evaluated digest w page = .ok ev) :
    ∃ reading prev, evaluate digest w.spec reading prev = .ok ev := by
  cases page with
  | error e => simp [evaluated] at h
  | ok reading => exact ⟨reading,w.lastHash,h⟩

/-- What a recorded state does to the series of its watch. -/
theorem Inv.observed {s : State} (h : Inv digest s) (hinj : Function.Injective digest)
    (w r : PageWatch) (hr : s.store.rows.get w.uuid = some r)
    (hagree : ∀ x, streak s.history w.uuid = some x →
      r.spec = w.spec ∧ r.lastAlertHash = w.lastAlertHash)
    (page : Except String Reading) (ev : Evaluation) (hev : evaluated digest w page = .ok ev) :
    NoRepeat Event.breaks (s.history++
      [.observed w.uuid ev.stateHash (w.decide digest (.ok ev)).alert.isSome]) ∧
    ∀ x, streak (s.history++
      [.observed w.uuid ev.stateHash (w.decide digest (.ok ev)).alert.isSome]) w.uuid = some x →
      (w.decide digest (.ok ev)).lastAlertHash = some x ∨ Never digest r.spec x := by
  obtain ⟨reading,prev,hread⟩ := evaluated_ok digest hev
  rcases decide_last digest w ev with ⟨hn,hlast,hsame⟩ | ⟨hn,hkind,hmet,hlast⟩ |
    ⟨hsome,hne,hlast,hmet⟩
  · refine ⟨noRepeat_concat s.history _ h.noRepeat (fun k x he => by simp [hn] at he),?_⟩
    intro x hx
    rw [streak_concat] at hx
    simp only [hn, Option.isSome_none, Bool.false_eq_true, if_false, ne_eq, not_true] at hx
    split at hx
    · rw [hlast, ← (hagree x hx).2]
      exact h.link _ r x hr hx
    · simp at hx
  · refine ⟨noRepeat_concat s.history _ h.noRepeat (fun k x he => by simp [hn] at he),?_⟩
    intro x hx
    rw [streak_concat] at hx
    simp only [hn, Option.isSome_none, Bool.false_eq_true, if_false, ne_eq, not_true] at hx
    split at hx
    · rename_i hs
      obtain rfl := Option.some.inj (hs.symm.trans hx)
      right
      rw [(hagree _ hx).1]
      refine ⟨hkind,?_⟩
      intro reading' prev' ev' hev' hhash
      rw [met_of_stateHash hinj w.spec hkind hev' hread hhash]
      exact hmet
    · simp at hx
  · constructor
    · apply noRepeat_concat s.history _ h.noRepeat
      intro k x he hs
      obtain ⟨rfl,rfl,_⟩ := Event.observed.inj he
      obtain ⟨hspec,hl⟩ := hagree _ hs
      rcases h.link _ r _ hr hs with hx | ⟨hkind,hx⟩
      · exact hne (hl.symm.trans hx)
      · rw [hspec] at hkind hx
        have := hx reading prev ev hread rfl
        simp [hmet hkind] at this
    · intro x hx
      rw [streak_concat] at hx
      simp only [hsome, if_true, ne_eq, not_true, if_false] at hx
      exact Or.inl (hlast.trans hx)

theorem Inv.finish {s : State} (h : Inv digest s) (hinj : Function.Injective digest) (t : Task)
    (token : String) (htok : t.w.leaseOwner = some token)
    (hkept : ∀ r, s.store.rows.get t.w.uuid = some r → r.leaseOwner = t.w.leaseOwner →
      r.alertSeq = t.w.alertSeq ∧ ∀ x, streak s.history t.w.uuid = some x →
        r.spec = t.w.spec ∧ r.lastAlertHash = t.w.lastAlertHash)
    (page : Except String Reading) (httpStatus : Option ℕ) (durationMs : ℕ) :
    Inv digest (finish digest s t ⟨evaluated digest t.w page,httpStatus,durationMs⟩) := by
  obtain ⟨input,hinput⟩ : ∃ input : CheckInput,
      input = ⟨evaluated digest t.w page,httpStatus,durationMs⟩ := ⟨_,rfl⟩
  rw [← hinput]
  have hresult : input.result = evaluated digest t.w page := by rw [hinput]
  by_cases hh : t.holds s.store.rows
  swap
  · have hl := applyCheck_lost digest t.w t.owner input s.now s.store
      (by simpa [Task.holds, Task.token] using hh)
    rw [WatchRuns.finish, if_neg hh, hl]
    exact h
  obtain ⟨r,hr,hheld⟩ := (Option.any_eq_true _ _).mp hh
  have howner : r.leaseOwner = t.w.leaseOwner := by
    have := hheld
    simp only [PageWatch.held, Task.token, htok, Option.getD_some, Bool.and_eq_true,
      decide_eq_true_eq] at this
    exact this.1.trans htok.symm
  obtain ⟨hseq,hagree⟩ := hkept r hr howner
  obtain ⟨hu,hin⟩ := h.keyed _ r hr
  have hget := get_applyCheck digest t.w t.owner input s.now s.store r hr hheld
  have halerts := applyCheck_alerts digest t.w t.owner input s.now s.store r hr hheld
  -- the events, by the result of the check
  have hhist : ∃ events, (WatchRuns.finish digest s t input).history = s.history++events ∧
      (∀ e ∈ events, e.watch = t.w.uuid) ∧ NoRepeat Event.breaks (s.history++events) ∧
      ∀ x, streak (s.history++events) t.w.uuid = some x →
        (t.w.decide digest input.result).lastAlertHash = some x ∨ Never digest r.spec x := by
    simp only [WatchRuns.finish, if_pos hh]
    refine ⟨_,rfl,?_⟩
    cases hres : evaluated digest t.w page with
    | error err =>
      simp only [hresult, hres, observation, List.append_nil, List.not_mem_nil, false_implies,
        implies_true, true_and]
      refine ⟨h.noRepeat,?_⟩
      intro x hx
      rw [decide_error_last, ← (hagree x hx).2]
      exact h.link _ r x hr hx
    | ok ev =>
      have hfresh : ((t.w.decide digest (.ok ev)).alert.any
          (fun a => a.dedupeKey ∉ s.store.alerts.keys)) =
          (t.w.decide digest (.ok ev)).alert.isSome := by
        rcases decide_alert digest t.w (.ok ev) with ⟨hn,_⟩ | ⟨a,ha,_,hk⟩
        · simp [hn]
        · simp [ha, h.fresh hinj t.w r hr hseq a.dedupeKey hk]
      simp only [hresult, hres, observation, hfresh]
      exact ⟨by simp [Event.watch],h.observed hinj t.w r hr hagree page ev hres⟩
  obtain ⟨events,hev,hwatch,hnr,hlink⟩ := hhist
  have hother : ∀ k, k ≠ t.w.uuid → streak (s.history++events) k = streak s.history k := by
    intro k hk
    apply streak_append_other
    intro e he heq
    exact hk (heq.symm.trans (hwatch e he))
  have hcount : ∀ k, alertCount (applyCheck digest t.w t.owner input s.now s.store) k =
      alertCount s.store k+(if k = t.w.uuid then
        (t.w.decide digest input.result).alertSeq-t.w.alertSeq else 0) := by
    intro k
    rcases decide_alert digest t.w input.result with ⟨hn,hs⟩ | ⟨a,ha,hs,hk⟩
    · simp [alertCount, halerts, hn, hs]
    · have hf := h.fresh hinj t.w r hr hseq a.dedupeKey hk
      have := alertCount_insert s.store a.dedupeKey
        ⟨t.w.uuid,t.w.workspaceUuid,a.kind,a.title,a.body,s.now⟩ hf s.store.rows s.store.checks k
      simp only [alertCount, halerts, ha, hs] at this ⊢
      rw [this]
      by_cases hk : k = t.w.uuid
      · subst hk
        simp
      · simp [hk, Ne.symm hk]
  have hseq' : t.w.alertSeq ≤ (t.w.decide digest input.result).alertSeq := by
    rcases decide_alert digest t.w input.result with ⟨_,hs⟩ | ⟨_,_,hs,_⟩ <;> omega
  have hstore : (WatchRuns.finish digest s t input).store =
      applyCheck digest t.w t.owner input s.now s.store := rfl
  constructor
  · intro k q hq
    rw [hstore, hget] at hq
    split at hq
    · rename_i hk
      obtain rfl := Option.some.inj hq
      exact ⟨hu.trans hk.symm,hk ▸ hin⟩
    · exact h.keyed k q hq
  · intro k q hq
    rw [hstore, hget] at hq
    split at hq
    · obtain rfl := Option.some.inj hq
      exact fun _ => rfl
    · exact h.paused k q hq
  · exact h.tasks
  · exact h.known
  · intro t' ht' hl q hq heq
    rw [hstore, hget] at hq
    split at hq
    · obtain rfl := Option.some.inj hq
      obtain ⟨token',_,ho⟩ := h.tasks t' ht'
      rw [ho] at heq
      simp [PageWatch.checked] at heq
    · exact h.lost t' ht' hl q hq heq
  · intro t' ht' q hq heq
    rw [hstore, hget] at hq
    split at hq
    · obtain rfl := Option.some.inj hq
      obtain ⟨token',_,ho⟩ := h.tasks t' ht'
      rw [ho] at heq
      simp [PageWatch.checked] at heq
    · rename_i hk
      rw [hev, hother _ hk]
      exact h.kept t' ht' q hq heq
  · intro k q hq
    rw [hstore, hget] at hq
    rw [hstore, hcount]
    split at hq
    · rename_i hk
      obtain rfl := Option.some.inj hq
      rw [if_pos hk, ← h.counted k r (hk ▸ hr), hseq]
      show (t.w.decide digest input.result).alertSeq = _
      omega
    · rename_i hk
      rw [if_neg hk]
      exact h.counted k q hq
  · intro key a ha
    have hold : s.store.alerts.get key = some a → ∃ q seq,
        (WatchRuns.finish digest s t input).store.rows.get a.watchUuid = some q ∧
        seq ≤ q.alertSeq ∧ IsKey digest a.watchUuid seq key := by
      intro ha
      obtain ⟨q,seq,hq,hle,hk⟩ := h.keys key a ha
      rw [hstore, hget]
      by_cases hw : a.watchUuid = t.w.uuid
      · rw [if_pos hw]
        obtain rfl := Option.some.inj ((hw ▸ hq).symm.trans hr)
        exact ⟨_,seq,rfl,le_trans (hseq ▸ hle) hseq',hk⟩
      · rw [if_neg hw]
        exact ⟨q,seq,hq,hle,hk⟩
    rw [hstore, halerts] at ha
    rcases decide_alert digest t.w input.result with ⟨hn,hs⟩ | ⟨x,hx,hs,hk⟩
    · rw [hn] at ha
      exact hold ha
    · rw [hx] at ha
      simp only [Table.get_insert] at ha
      split at ha
      · rename_i hkey
        obtain rfl := Option.some.inj ha
        refine ⟨r.checked (t.w.decide digest input.result) input s.now,t.w.alertSeq+1,?_,?_,
          hkey.1 ▸ hk⟩
        · exact (hget t.w.uuid).trans (if_pos rfl)
        · exact le_of_eq hs.symm
      · exact hold ha
  · intro k q x hq hx
    rw [hev] at hx
    rw [hstore, hget] at hq
    split at hq
    · rename_i hk
      obtain rfl := Option.some.inj hq
      exact hlink x (hk ▸ hx)
    · rename_i hk
      exact h.link k q x hq ((hother k hk).symm.trans hx)
  · intro e he
    rw [hev] at he
    rcases List.mem_append.mp he with he | he
    · exact h.events e he
    · rw [hwatch e he]
      exact hin
  · rw [hev]
    exact hnr

/-! ## Runs -/

theorem Inv.mark {s : State} (h : Inv digest s) : Inv digest (mark s) := by
  have hw : ∀ t ∈ (WatchRuns.mark s).tasks, ∃ t' ∈ s.tasks, t.w = t'.w ∧
      (t.lost → t'.lost ∨ t'.holds s.store.rows = false) := by
    intro t ht
    obtain ⟨t',ht',rfl⟩ := List.mem_map.mp ht
    refine ⟨t',ht',rfl,?_⟩
    intro hl
    simpa using hl
  refine ⟨h.keyed,h.paused,?_,?_,?_,?_,h.counted,h.keys,h.link,h.events,h.noRepeat⟩
  · intro t ht
    obtain ⟨t',ht',heq,_⟩ := hw t ht
    exact heq ▸ h.tasks t' ht'
  · intro t ht
    obtain ⟨t',ht',heq,_⟩ := hw t ht
    exact heq ▸ h.known t' ht'
  · intro t ht hl r hr heq
    obtain ⟨t',ht',hw',hlost⟩ := hw t ht
    rw [hw'] at hr heq
    rcases hlost hl with hl | hn
    · exact h.lost t' ht' hl r hr heq
    · obtain ⟨token,_,ho⟩ := h.tasks t' ht'
      have hp : r.status = .paused := by
        have hr' : s.store.rows.get t'.w.uuid = some r := hr
        rw [Task.holds, hr', Option.any_some] at hn
        simp only [PageWatch.held, Task.token, ho, Option.getD_some, heq.trans ho, decide_true,
          Bool.true_and, decide_eq_false_iff_not] at hn
        cases hs : r.status with
        | active => exact absurd hs hn
        | paused => rfl
      have hnone := h.paused _ r hr hp
      rw [heq, ho] at hnone
      simp at hnone
  · intro t ht r hr heq
    obtain ⟨t',ht',hw',_⟩ := hw t ht
    rw [hw'] at hr heq ⊢
    exact h.kept t' ht' r hr heq

theorem Inv.act {s : State} (h : Inv digest s) (hinj : Function.Injective digest) (a : Action) :
    Inv digest (act digest s a) := by
  cases a with
  | tick seconds =>
    exact ⟨h.keyed,h.paused,h.tasks,h.known,h.lost,h.kept,h.counted,h.keys,h.link,h.events,
      h.noRepeat⟩
  | create uuid workspace e =>
    simp only [WatchRuns.act]
    split
    · exact h
    · rename_i hu
      exact h.create uuid workspace e hu
  | claimDue picked owner token =>
    apply h.claim (duePicked picked s.now) owner token
    intro k w hp
    simp only [duePicked, due, Bool.and_eq_true, decide_eq_true_eq] at hp
    exact hp.2.1.1
  | claimOne uuid owner token =>
    apply h.claim (claimable uuid s.now) owner token
    intro k w hp
    simp only [claimable, Bool.and_eq_true, decide_eq_true_eq] at hp
    exact hp.1.2
  | apply i page httpStatus durationMs =>
    simp only [WatchRuns.act]
    split
    · rename_i t ht
      have hm := List.mem_of_getElem? ht
      obtain ⟨token,_,ho⟩ := h.tasks t hm
      exact (h.erase i).finish hinj t token ho (h.kept t hm) page httpStatus durationMs
    · exact h
  | abandon i => exact h.erase i
  | pause workspace uuid =>
    have hm := Mild.update s (fun k w => k = uuid && pausable workspace w) PageWatch.pause h.paused
      (fun k r _ _ => ⟨rfl,rfl,fun _ => rfl,Or.inr (Or.inl rfl),rfl,rfl⟩)
    exact h.mild hm h.events h.noRepeat
  | resume workspace uuid =>
    have hm := Mild.update s (fun k w => k = uuid && resumable workspace w) (PageWatch.resume s.now)
      h.paused (fun k r _ _ => ⟨rfl,rfl,fun _ => rfl,Or.inr (Or.inl rfl),rfl,rfl⟩)
    exact h.mild hm h.events h.noRepeat
  | delete workspace uuid => exact h.delete workspace uuid
  | update workspace current e => exact h.update workspace current e

theorem step_inv (hinj : Function.Injective digest) (s : State) (a : Action) (h : Inv digest s) :
    Inv digest (step digest s a) :=
  (h.act hinj a).mark

theorem lost_apply {s : State} (h : Inv digest s) (i : ℕ) (t : Task) (ht : s.tasks[i]? = some t)
    (hl : t.lost) (page : Except String Reading) (httpStatus : Option ℕ) (durationMs : ℕ) :
    (step digest s (.apply i page httpStatus durationMs)).store = s.store := by
  have hn : t.holds s.store.rows = false := by
    by_contra hc
    obtain ⟨r,hr,hheld⟩ := (Option.any_eq_true _ _).mp (by simpa [Task.holds] using hc)
    obtain ⟨token,_,ho⟩ := h.tasks t (List.mem_of_getElem? ht)
    simp only [PageWatch.held, Task.token, ho, Option.getD_some, Bool.and_eq_true,
      decide_eq_true_eq] at hheld
    exact h.lost t (List.mem_of_getElem? ht) hl r hr (hheld.1.trans ho.symm)
  simp only [step, WatchRuns.act, ht]
  exact applyCheck_lost digest t.w t.owner _ s.now s.store hn

/-- Over every run: a check that has lost its lease writes nothing, the number
of a watch is the count of its alerts, and two alerts on one state have
another state or an edit between them. -/
theorem watch_alerts (hinj : Function.Injective digest) (acts : List Action) :
    (∀ i t page httpStatus durationMs, (run (step digest) acts start).tasks[i]? = some t → t.lost →
      (step digest (run (step digest) acts start) (.apply i page httpStatus durationMs)).store =
        (run (step digest) acts start).store) ∧
    (∀ k r, (run (step digest) acts start).store.rows.get k = some r →
      r.alertSeq = alertCount (run (step digest) acts start).store k) ∧
    NoRepeat Event.breaks (run (step digest) acts start).history := by
  have h := invariant (step digest) (Inv digest) (step_inv hinj) acts start start_inv
  exact ⟨fun i t page httpStatus durationMs ht hl => lost_apply h i t ht hl page httpStatus durationMs,
    h.counted,h.noRepeat⟩

/-- A text that appears, on a page whose address changes. -/
def promotion (url : String) : WatchEdit :=
  ⟨"Promotion",url,⟨.text,some "promo",some .appears,none,none,none⟩,60⟩

def promoted : Reading := ⟨"promo",1,"promo",true,none,""⟩

/-- The first check is lost to a pause, the second one alerts. -/
def pausedMeanwhile : List Action :=
  [.create 1 7 (promotion "https://a.fr/"),.claimOne 1 "web" "web#1",.pause 7 1,.resume 7 1,
    .claimDue [1] "web" "web#2",.apply 1 (.ok promoted) (some 200) 80]

theorem pausedMeanwhile_alerts :
    (∀ i t page httpStatus durationMs,
      (run (step id) pausedMeanwhile start).tasks[i]? = some t → t.lost →
      (step id (run (step id) pausedMeanwhile start) (.apply i page httpStatus durationMs)).store =
        (run (step id) pausedMeanwhile start).store) ∧
    (∀ k r, (run (step id) pausedMeanwhile start).store.rows.get k = some r →
      r.alertSeq = alertCount (run (step id) pausedMeanwhile start).store k) ∧
    NoRepeat Event.breaks (run (step id) pausedMeanwhile start).history :=
  watch_alerts Function.injective_id pausedMeanwhile

/-- The address changes between two checks that find the same text. -/
def moved : List Action :=
  [.create 1 7 (promotion "https://a.fr/"),.claimOne 1 "web" "web#1",
    .apply 0 (.ok promoted) (some 200) 80,
    .update 7 (newWatch 1 7 (promotion "https://a.fr/") 0) (promotion "https://b.fr/"),
    .claimOne 1 "web" "web#2",.apply 0 (.ok promoted) (some 200) 80]

theorem alerted_again :
    ¬ ∀ digest, Function.Injective digest → ∀ acts : List Action,
      NoRepeat Event.differs (run (step digest) acts start).history := by
  intro h
  have hs : (run (step id) moved start).history =
      [.observed 1 (sha256Hex id ["text","présent"]) true,.edited 1,
        .observed 1 (sha256Hex id ["text","présent"]) true] := by decide +kernel
  have hm := h id Function.injective_id moved
  rw [hs] at hm
  obtain ⟨n,e,h0,h2,he,hd⟩ := hm 0 2 1 (sha256Hex id ["text","présent"]) (by decide) rfl rfl
  obtain rfl : n = 1 := by omega
  obtain rfl : Event.edited 1 = e := by simpa using he
  simp [Event.differs] at hd

end DevForge.WatchAlerts
