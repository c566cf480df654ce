import DevForge.Reclaim

/-!
# An orderly reclaim keeps the interim's writes

Between calls no quiesce is under way, so a resume that was carried out leaves
the interim open; and from the fence on the reign of the interim stays within
the copy that the boot restores.
-/

set_option autoImplicit false

namespace DevForge.ReclaimKeeps
open ClusterLocal InterimLeader Reclaim Transition

/-- The writes of the interim in hand are open. -/
def TargetOpen (s : State) : Prop := ∀ n ∈ s.interims[s.target]?, n.row.writesFenced = false

def TargetResumes (s : State) (call : ℕ) : Prop := ∀ n ∈ s.interims[s.target]?, n.Resumes call

/-- The boot restores a copy of the interim in hand. -/
def Placed (s : State) : Prop := ∃ c ∈ bootSource s, c.interim = s.target

/-- That copy holds the reign of the interim. -/
def Covers (s : State) : Prop :=
  ∃ c ∈ bootSource s, c.interim = s.target ∧ ∀ n ∈ s.interims[s.target]?, n.reign ≤ c.commits

def PhaseOk (s : State) : Phase → Prop
  | .idle => True
  | .listing | .holding _ | .checking | .staging | .reopening => s.row = s.loc
  | .quiescing _ => s.row = s.loc ∧ s.target ∉ s.gaveUp
  | .arming => s.row = s.loc ∧ ∃ c ∈ s.staged, c.interim = s.target
  | .resuming call | .unfencing call => s.row = s.loc ∧ TargetResumes s call
  | .fetching resumed => s.row = s.loc ∧ (resumed → TargetOpen s)
  | .fetched resumed copy => s.row = s.loc ∧ (resumed → TargetOpen s) ∧ copy.interim = s.target
  | .fencing => s.row = s.loc ∧ Placed s
  | .flagging | .demoting _ | .down => Covers s

/-- No quiesce is under way. -/
def Calm (s : State) : Prop :=
  ∀ (i : ℕ) (n : Interim) (k : ℕ), s.interims[i]? = some n → n.fencing k = false

structure Inv (s : State) : Prop where
  ok : ∀ i n, s.interims[i]? = some n → Ok i n
  fencing : ∀ i n k, s.interims[i]? = some n → n.fencing k → s.phase = .quiescing k ∧ s.target = i
  gaveUp : ∀ i ∈ s.gaveUp, ∀ n ∈ s.interims[i]?, n.row.writesFenced = false
  restarts : ∀ r ∈ s.restarts, ∃ c ∈ r.copy, c.interim = r.interim ∧
    ∀ n ∈ s.interims[r.interim]?, n.reign ≤ c.commits
  ended : s.ended → s.phase = .idle ∧ s.row.writesFenced = false
  phase : PhaseOk s s.phase

theorem Inv.keeps {s : State} (hs : Inv s) : Keeps s where
  copies r hr n hn k hk := by
    obtain ⟨c,hc,hi,hle⟩ := hs.restarts r hr
    exact ⟨c,hc,hi,lt_of_lt_of_le ((hs.ok _ n hn).acknowledged k hk) (hle n hn)⟩
  interims := hs.gaveUp
  preferred h := (hs.ended h).2

theorem start_inv (row : LocalClusterState) (hold : Bool) (interims : List (LocalClusterState × Bool)) :
    Inv (start row hold interims) := by
  have hget : ∀ (i : ℕ) (n : Interim), (start row hold interims).interims[i]? = some n →
      ∃ m : LocalClusterState × Bool, n = Interim.start m.1 m.2 := by
    intro i n hn
    obtain ⟨m,_,rfl⟩ := List.mem_map.mp (List.mem_of_getElem? hn)
    exact ⟨m,rfl⟩
  refine ⟨?_,?_,fun _ h => by simp [start] at h,fun _ h => by simp [start] at h,
    fun h => by simp [start] at h,trivial⟩
  · intro i n hn
    obtain ⟨m,rfl⟩ := hget i n hn
    exact Ok.start i m.1 m.2
  · intro i n k hn hk
    obtain ⟨m,rfl⟩ := hget i n hn
    simp [Interim.fencing, Interim.start] at hk

theorem Inv.calm {s : State} (hs : Inv s) (h : ∀ k, s.phase ≠ .quiescing k) : Calm s := by
  intro i n k hn
  by_contra hk
  exact h k (hs.fencing i n k hn (by simpa using hk)).1

theorem Inv.active {s : State} (hs : Inv s) (h : s.phase ≠ .idle) : s.ended = false := by
  by_contra he
  exact h (hs.ended (by simpa using he)).1

/-- A phase in which the attempt is on its way and waits for no quiesce. -/
def Steady : Phase → Bool
  | .idle | .quiescing _ => false
  | _ => true

/-- The attempt is on its way and no quiesce is under way. -/
structure Underway (s : State) : Prop where
  calm : Calm s
  ended : s.ended = false

theorem Inv.underway {s : State} (hs : Inv s) {p : Phase} (hph : s.phase = p) (hp : Steady p) :
    Underway s where
  calm := hs.calm (by rintro k hk; rw [← hph, hk] at hp; exact absurd hp (by simp [Steady]))
  ended := hs.active (by rintro hk; rw [← hph, hk] at hp; exact absurd hp (by simp [Steady]))

/-- A step of the attempt that leaves the interims alone. -/
theorem Inv.enter {s s' : State} (hs : Inv s) (hu : Underway s) (hi : s'.interims = s.interims)
    (hg : s'.gaveUp = s.gaveUp) (hr : s'.restarts = s.restarts) (he : s'.ended = s.ended)
    (hp : PhaseOk s' s'.phase) : Inv s' where
  ok := by rw [hi]; exact hs.ok
  fencing i n k hn hk := by
    rw [hi] at hn
    rw [hu.calm i n k hn] at hk
    exact absurd hk (by simp)
  gaveUp := by rw [hg, hi]; exact hs.gaveUp
  restarts := by rw [hr, hi]; exact hs.restarts
  ended h := by rw [he, hu.ended] at h; exact absurd h (by simp)
  phase := hp

theorem setInterim_get {s : State} {i j : ℕ} {n m : Interim}
    (h : (setInterim i n s).interims[j]? = some m) :
    j = i ∧ m = n ∨ j ≠ i ∧ s.interims[j]? = some m := by
  simp only [setInterim, List.getElem?_set] at h
  split at h
  · rename_i hij
    split at h
    · exact .inl ⟨hij.symm,(Option.some.inj h).symm⟩
    · exact absurd h (by simp)
  · exact .inr ⟨fun hji => by simp_all,h⟩

theorem fencing_receive {n : Interim} {op : Op} {k : ℕ} (h : (n.receive op).fencing k) :
    n.fencing k ∨ k = n.tasks.length ∧ fences op := by
  simp only [Interim.fencing, Interim.receive] at h ⊢
  rcases Nat.lt_trichotomy k n.tasks.length with hlt | rfl | hgt
  · rw [List.getElem?_append_left hlt] at h
    exact .inl h
  · right
    simpa [Task.underWay] using h
  · rw [List.getElem?_eq_none (by simp; omega)] at h
    exact absurd h (by simp)

/-- A call is sent while no quiesce is under way. -/
theorem Inv.send {s : State} (hs : Inv s) (hu : Underway s) {op : Op}
    {ph : ℕ → Phase} (hq : fences op → ∀ k, ph k = .quiescing k)
    (hp : ∀ n, s.interims[s.target]? = some n →
      PhaseOk (setInterim s.target (n.receive op) s) (ph n.tasks.length)) :
    Inv (send op ph s) := by
  unfold Reclaim.send onInterim
  split
  · rename_i n hn
    refine ⟨?_,?_,?_,?_,fun h => absurd (hu.ended ▸ h) (by simp),?_⟩
    · intro j m hm
      rcases setInterim_get hm with ⟨rfl,rfl⟩ | ⟨_,hm⟩
      · exact (hs.ok _ n hn).receive op
      · exact hs.ok j m hm
    · intro j m k hm hk
      rcases setInterim_get hm with ⟨rfl,rfl⟩ | ⟨_,hm⟩
      · rcases fencing_receive hk with hk | ⟨rfl,hf⟩
        · rw [hu.calm _ n k hn] at hk
          exact absurd hk (by simp)
        · exact ⟨hq hf _,rfl⟩
      · rw [hu.calm j m k hm] at hk
        exact absurd hk (by simp)
    · intro j hj m hm
      rcases setInterim_get hm with ⟨rfl,rfl⟩ | ⟨_,hm⟩
      · exact hs.gaveUp _ hj n hn
      · exact hs.gaveUp j hj m hm
    · intro r hr
      obtain ⟨c,hc',hi,hle⟩ := hs.restarts r hr
      refine ⟨c,hc',hi,fun m hm => ?_⟩
      rcases setInterim_get hm with ⟨heq,rfl⟩ | ⟨_,hm⟩
      · exact hle n (heq ▸ hn)
      · exact hle m hm
    · exact hp n hn
  · exact hs

theorem receive_resumes (n : Interim) : (n.receive .failoverResume).Resumes n.tasks.length :=
  ⟨⟨.failoverResume,.waiting⟩,by simp [Interim.receive],rfl,fun h => by simp at h⟩

/-- The interim is asked to resume. -/
theorem Inv.sendResume {s : State} (hs : Inv s) (hu : Underway s)
    (hrow : s.row = s.loc) {ph : ℕ → Phase} (hph : ph = .resuming ∨ ph = .unfencing) :
    Inv (Reclaim.send .failoverResume ph s) := by
  refine hs.send hu (fun h => by simp [fences] at h) fun n hn => ?_
  have hres : TargetResumes (setInterim s.target (n.receive .failoverResume) s) n.tasks.length := by
    intro m hm
    rcases setInterim_get hm with ⟨_,rfl⟩ | ⟨hne,_⟩
    · exact receive_resumes n
    · exact absurd rfl hne
  rcases hph with rfl | rfl <;> exact ⟨hrow,hres⟩

/-- A resume that has been answered left the interim open. -/
theorem TargetResumes.open {s : State} {call : ℕ} (h : TargetResumes s call)
    (ha : answered call s) : TargetOpen s := by
  intro n hn
  obtain ⟨t,ht,_,hopen⟩ := h n hn
  have hn' : s.interims[s.target]? = some n := hn
  simp only [answered, hn', Option.any_some, Interim.answered, ht] at ha
  exact hopen (by simpa using ha)

/-- The interim in hand is given up while it is open. -/
theorem Inv.giveUp {s : State} (hs : Inv s) (hu : Underway s)
    (hrow : s.row = s.loc) (ho : TargetOpen s) : Inv (giveUp s) where
  ok := hs.ok
  fencing i n k hn hk := by
    rw [hu.calm i n k hn] at hk
    exact absurd hk (by simp)
  gaveUp i hi n hn := by
    rcases List.mem_append.mp hi with hi | hi
    · exact hs.gaveUp i hi n hn
    · obtain rfl := List.mem_singleton.mp hi
      exact ho n hn
  restarts := hs.restarts
  ended h := absurd (hu.ended ▸ h) (by simp)
  phase := hrow

theorem EventOrderly.kept {s : State} {i : ℕ} {n : Interim} {e : Event} (hg : EventOrderly i n s e) :
    ∀ k, e = .writeTask k → ∀ t ∈ n.tasks[k]?, FlagKept n t := by
  rintro k rfl
  exact hg

/-- What an event of an interim keeps of the attempt. -/
theorem Inv.event_phase {s : State} (hs : Inv s) {i : ℕ} {n : Interim} {e : Event}
    (hn : s.interims[i]? = some n) (hg : EventOrderly i n s e) :
    PhaseOk (setInterim i (n.next i e) s) s.phase := by
  have hkept := EventOrderly.kept hg
  have hopen : (∀ k, s.phase ≠ .quiescing k) → TargetOpen s →
      TargetOpen (setInterim i (n.next i e) s) := by
    intro hq ho m hm
    rcases setInterim_get hm with ⟨heq,rfl⟩ | ⟨_,hm⟩
    · by_contra hf
      rcases next_fenced hkept (by simpa using hf) with hf | ⟨k,_,hk⟩
      · have := ho n (by rw [show s.target = i from heq]; exact hn)
        rw [this] at hf
        exact absurd hf (by simp)
      · exact hq k (hs.fencing i n k hn hk).1
    · exact ho m hm
  have hres : (∀ k, s.phase ≠ .quiescing k) → ∀ call, TargetResumes s call →
      TargetResumes (setInterim i (n.next i e) s) call := by
    intro hq call hr m hm
    rcases setInterim_get hm with ⟨heq,rfl⟩ | ⟨_,hm⟩
    · exact (hr n (by rw [show s.target = i from heq]; exact hn)).next hkept
        (fun k => hs.calm hq i n k hn)
    · exact hr m hm
  have hcov : s.phase.leaving → Covers s → Covers (setInterim i (n.next i e) s) := by
    rintro hl ⟨c,hc,hi,hle⟩
    refine ⟨c,hc,hi,fun m hm => ?_⟩
    rcases setInterim_get hm with ⟨heq,rfl⟩ | ⟨_,hm⟩
    · rw [next_reign]
      · exact hle n (by rw [show s.target = i from heq]; exact hn)
      · rintro rfl hd
        exact (hg hd).1 hl heq
    · exact hle m hm
  have hp := hs.phase
  cases hph : s.phase with
  | idle => trivial
  | listing | holding _ | checking | staging | reopening =>
    rw [hph] at hp
    exact hp
  | quiescing k =>
    rw [hph] at hp
    exact hp
  | arming =>
    rw [hph] at hp
    exact hp
  | resuming k | unfencing k =>
    rw [hph] at hp
    exact ⟨hp.1,hres (by simp [hph]) k hp.2⟩
  | fetching resumed =>
    rw [hph] at hp
    exact ⟨hp.1,fun hr => hopen (by simp [hph]) (hp.2 hr)⟩
  | fetched resumed copy =>
    rw [hph] at hp
    exact ⟨hp.1,fun hr => hopen (by simp [hph]) (hp.2.1 hr),hp.2.2⟩
  | fencing =>
    rw [hph] at hp
    exact hp
  | flagging | demoting _ | down =>
    rw [hph] at hp
    exact hcov (by rw [hph]; rfl) hp

/-- An event of an interim. -/
theorem Inv.event {s : State} (hs : Inv s) {i : ℕ} {n : Interim} {e : Event}
    (hn : s.interims[i]? = some n) (hg : EventOrderly i n s e) :
    Inv (setInterim i (n.next i e) s) where
  ok j m hm := by
    rcases setInterim_get hm with ⟨rfl,rfl⟩ | ⟨_,hm⟩
    · exact (hs.ok _ n hn).next e
    · exact hs.ok j m hm
  fencing j m k hm hk := by
    rcases setInterim_get hm with ⟨rfl,rfl⟩ | ⟨_,hm⟩
    · exact hs.fencing _ n k hn (next_fencing hk)
    · exact hs.fencing j m k hm hk
  gaveUp j hj m hm := by
    rcases setInterim_get hm with ⟨rfl,rfl⟩ | ⟨_,hm⟩
    · by_contra hf
      rcases next_fenced (EventOrderly.kept hg) (by simpa using hf) with hf | ⟨k,_,hk⟩
      · rw [hs.gaveUp _ hj n hn] at hf
        exact absurd hf (by simp)
      · -- the quiesce of an interim takes it off the list of those given up on
        obtain ⟨hph,rfl⟩ := hs.fencing _ n k hn hk
        have hp := hs.phase
        rw [hph] at hp
        exact hp.2 hj
    · exact hs.gaveUp j hj m hm
  restarts r hr := by
    obtain ⟨c,hc,hi,hle⟩ := hs.restarts r hr
    refine ⟨c,hc,hi,fun m hm => ?_⟩
    rcases setInterim_get hm with ⟨heq,rfl⟩ | ⟨_,hm⟩
    · rw [next_reign]
      · exact hle n (by rw [heq]; exact hn)
      · rintro rfl hd
        exact (hg hd).2 r hr heq
    · exact hle m hm
  ended := hs.ended
  phase := hs.event_phase hn hg

theorem Inv.skip {s : State} (hs : Inv s) : Inv (skip s) := by
  have hp := hs.phase
  unfold Reclaim.skip
  split
  · rename_i j todo hph
    rw [hph] at hp
    exact hs.enter (hs.underway hph rfl) rfl rfl rfl rfl hp
  · rename_i hph
    rw [hph] at hp
    refine hs.enter (hs.underway hph rfl) rfl rfl rfl rfl ?_
    rw [hph]
    exact hp
  · exact hs

/-- The next interim to yield to is asked to quiesce. -/
theorem Inv.quiesce {s : State} (hs : Inv s) (hph : s.phase = .checking) (j : ℕ) (term : ℤ)
    (rest : List ℕ) :
    Inv (Reclaim.send .failoverQuiesce .quiescing { s with
      target := j, term := term, rest := rest, gaveUp := s.gaveUp.filter (· ≠ j) }) := by
  have hp := hs.phase
  rw [hph] at hp
  have hu := hs.underway hph rfl
  have hs' : Inv { s with
      target := j, term := term, rest := rest, gaveUp := s.gaveUp.filter (· ≠ j) } := by
    refine ⟨hs.ok,fun i n k hn hk => ?_,fun i hi => hs.gaveUp i (List.mem_of_mem_filter hi),
      hs.restarts,hs.ended,?_⟩
    · rw [hu.calm i n k hn] at hk
      exact absurd hk (by simp)
    · simp only [hph]
      exact hp
  exact hs'.send ⟨hu.calm,hu.ended⟩ (fun _ _ => rfl) fun n _ => ⟨hp,by simp [setInterim]⟩

theorem Inv.status {s : State} (hs : Inv s) : Inv (status s) := by
  have hp := hs.phase
  unfold Reclaim.status
  split
  · rename_i j todo hph
    rw [hph] at hp
    simp only [onInterim]
    split
    · split
      · exact hs.enter (hs.underway hph rfl) rfl rfl rfl rfl hp
      · exact hs.skip
    · exact hs
  · rename_i hph
    rw [hph] at hp
    exact hs.enter (hs.underway hph rfl) rfl rfl rfl rfl hp
  · rename_i hph
    rw [hph] at hp
    split
    · rename_i j rest hrest
      simp only [onInterim]
      split
      · split
        · exact hs.quiesce hph j _ rest
        · exact hs.skip
      · exact hs
    · exact hs.enter (hs.underway hph rfl) rfl rfl rfl rfl hp
  · exact hs

/-- A quiesce that has been answered is no longer under way. -/
theorem Inv.calm_of_answered {s : State} (hs : Inv s) {call : ℕ} (hph : s.phase = .quiescing call)
    (ha : answered call s) : Calm s := by
  intro i n k hn
  by_contra hk
  have hk : n.fencing k := by simpa using hk
  obtain ⟨hph',rfl⟩ := hs.fencing i n k hn hk
  obtain rfl : call = k := Phase.quiescing.inj (hph.symm.trans hph')
  simp only [answered, hn, Option.any_some, Interim.answered, Option.any_eq_true] at ha
  obtain ⟨t,ht,hd⟩ := ha
  simp [Interim.fencing, ht, Task.underWay, of_decide_eq_true hd] at hk

theorem Inv.callOk {s : State} (hs : Inv s) : Inv (callOk s) := by
  have hp := hs.phase
  unfold Reclaim.callOk
  split
  · rename_i call hph
    rw [hph] at hp
    split
    · rename_i ha
      have hu : Underway s := ⟨hs.calm_of_answered hph ha,hs.active (by simp [hph])⟩
      split
      · exact hs.enter hu rfl rfl rfl rfl hp.1
      · exact hs.sendResume hu hp.1 (.inl rfl)
    · exact hs
  · rename_i call hph
    rw [hph] at hp
    split
    · rename_i ha
      exact hs.enter (hs.underway hph rfl) rfl rfl rfl rfl
        ⟨hp.1,fun _ => hp.2.open ha⟩
    · exact hs
  · rename_i call hph
    rw [hph] at hp
    split
    · rename_i ha
      exact hs.giveUp (hs.underway hph rfl) hp.1 (hp.2.open ha)
    · exact hs
  · rename_i call hph
    rw [hph] at hp
    split
    · exact hs.enter (hs.underway hph rfl) rfl rfl rfl rfl hp
    · exact hs
  · exact hs

theorem Inv.callFails {s : State} (hs : Inv s)
    (hg : ∀ n ∈ s.interims[s.target]?, FailOrderly n s.phase) : Inv (callFails s) := by
  have hp := hs.phase
  unfold Reclaim.callFails
  split
  · rename_i call hph
    rw [hph] at hp hg
    refine hs.enter ⟨?_,hs.active (by simp [hph])⟩ rfl rfl rfl rfl ⟨hp.1,fun _ n hn => (hg n hn).1⟩
    intro i n k hn
    by_contra hk
    obtain ⟨hph',rfl⟩ := hs.fencing i n k hn (by simpa using hk)
    obtain rfl : call = k := Phase.quiescing.inj (hph.symm.trans hph')
    exact hk (hg n hn).2
  · rename_i call hph
    rw [hph] at hp hg
    exact hs.enter (hs.underway hph rfl) rfl rfl rfl rfl
      ⟨hp.1,fun _ n hn => hg n hn⟩
  · rename_i call hph
    rw [hph] at hp hg
    exact hs.giveUp (hs.underway hph rfl) hp.1 (fun n hn => hg n hn)
  · rename_i call hph
    rw [hph] at hp
    exact hs.enter (hs.underway hph rfl) rfl rfl rfl rfl hp
  · exact hs

theorem Inv.fetch {s : State} (hs : Inv s) : Inv (fetch s) := by
  have hp := hs.phase
  unfold Reclaim.fetch
  split
  · rename_i resumed hph
    rw [hph] at hp
    simp only [onInterim]
    split
    · rename_i n hn
      split
      · rename_i copy hfile
        exact hs.enter (hs.underway hph rfl) rfl rfl rfl rfl
          ⟨hp.1,hp.2,(hs.ok _ n hn).file copy hfile⟩
      · exact hs
    · exact hs
  · exact hs

theorem Inv.copyFails {s : State} (hs : Inv s)
    (hg : ∀ n ∈ s.interims[s.target]?, CopyFailOrderly n s.phase) : Inv (copyFails s) := by
  have hp := hs.phase
  unfold Reclaim.copyFails
  split
  · rename_i resumed hph
    rw [hph] at hp hg
    refine hs.giveUp (hs.underway hph rfl) hp.1 ?_
    cases resumed with
    | true => exact hp.2 rfl
    | false => exact hg
  · rename_i resumed copy hph
    rw [hph] at hp hg
    refine hs.giveUp (hs.underway hph rfl) hp.1 ?_
    cases resumed with
    | true => exact hp.2.1 rfl
    | false => exact hg
  · exact hs

theorem Inv.save {s : State} (hs : Inv s) : Inv (save s) := by
  have hp := hs.phase
  unfold Reclaim.save
  split
  · rename_i resumed copy hph
    rw [hph] at hp
    exact hs.enter (hs.underway hph rfl) rfl rfl rfl rfl
      ⟨hp.1,copy,by simp [bootSource],hp.2.2⟩
  · exact hs

theorem Inv.boot {s : State} (hs : Inv s) (hph : s.phase = .down) {adopted : Bool}
    (hg : s.pending = none → adopted) : Inv (boot adopted s) where
  ok := hs.ok
  fencing i n k hn hk := by
    rw [(hs.underway hph rfl).calm i n k hn] at hk
    exact absurd hk (by simp)
  gaveUp _ h := by simp [Reclaim.boot] at h
  restarts r hr := by
    rcases List.mem_append.mp hr with hr | hr
    · exact hs.restarts r hr
    · obtain rfl := List.mem_singleton.mp hr
      have hp := hs.phase
      rw [hph] at hp
      obtain ⟨c,hc,hi,hle⟩ := hp
      refine ⟨c,?_,hi,hle⟩
      cases hpend : s.pending with
      | some d => simpa [bootSource, hpend] using hc
      | none => simpa [bootSource, hpend, hg hpend] using hc
  ended h := by simp [Reclaim.boot] at h
  phase := trivial

theorem Inv.reopen {s : State} (hs : Inv s) (hph : s.phase = .reopening) {written : Bool}
    (hg : s.loc.writesFenced → written) : Inv (reopen written s) where
  ok := hs.ok
  fencing i n k hn hk := by
    rw [(hs.underway hph rfl).calm i n k hn] at hk
    exact absurd hk (by simp)
  gaveUp := hs.gaveUp
  restarts := hs.restarts
  ended _ := by
    have hp := hs.phase
    rw [hph] at hp
    refine ⟨rfl,?_⟩
    cases hf : s.loc.writesFenced with
    | true => simp [Reclaim.reopen, hf, hg hf, setLocal, Op.apply]
    | false =>
      have hrow : s.row = s.loc := hp
      simp [Reclaim.reopen, hf, hrow]
  phase := trivial

theorem step_inv (s : State) (a : Action) (hs : Inv s) (hg : Orderly s a) : Inv (step s a) := by
  have hp := hs.phase
  cases a with
  | interim i e =>
    simp only [step, onInterim]
    split
    · rename_i n hn
      exact hs.event hn (hg n hn)
    · exact hs
  | begin =>
    simp only [step]
    split
    · rename_i hph
      split
      · refine ⟨hs.ok,fun i n k hn hk => ?_,fun _ h => by simp at h,hs.restarts,
          fun h => by simp at h,rfl⟩
        rw [hs.calm (by simp [hph]) i n k hn] at hk
        exact absurd hk (by simp)
      · exact hs
    · exact hs
  | list nodes =>
    simp only [step]
    split
    · rename_i hph
      rw [hph] at hp
      refine hs.enter (hs.underway hph rfl) rfl rfl rfl rfl ?_
      simp only
      split <;> exact hp
    · exact hs
  | listFails =>
    simp only [step]
    split
    · rename_i hph
      rw [hph] at hp
      exact hs.enter (hs.underway hph rfl) rfl rfl rfl rfl hp
    · exact hs
  | status => exact hs.status
  | statusFails => exact hs.skip
  | callOk => exact hs.callOk
  | callFails => exact hs.callFails hg
  | stage =>
    simp only [step, onInterim]
    split
    · rename_i hph
      rw [hph] at hp
      split
      · rename_i n hn
        exact hs.enter (hs.underway hph rfl) rfl rfl rfl rfl
          ⟨hp,n.copy s.target,rfl,rfl⟩
      · exact hs
    · exact hs
  | stageFails =>
    simp only [step]
    split
    · rename_i hph
      rw [hph] at hp
      exact hs.sendResume (hs.underway hph rfl) hp (.inl rfl)
    · exact hs
  | arm =>
    simp only [step]
    split
    · rename_i hph
      rw [hph] at hp
      obtain ⟨hrow,c,hc,hi⟩ := hp
      have hpend : s.pending = none := hg
      exact hs.enter (hs.underway hph rfl) rfl rfl rfl rfl
        ⟨hrow,c,by simpa [bootSource, hpend] using hc,hi⟩
    · exact hs
  | armFails =>
    simp only [step]
    split
    · rename_i hph
      rw [hph] at hp
      exact hs.enter (hs.underway hph rfl) rfl rfl rfl rfl
        ⟨hp.1,fun h => by simp at h⟩
    · exact hs
  | fetch => exact hs.fetch
  | copyFails => exact hs.copyFails hg
  | save => exact hs.save
  | fence =>
    simp only [step]
    split
    · rename_i hph
      rw [hph] at hp
      obtain ⟨_,c,hc,hi⟩ := hp
      exact hs.enter (hs.underway hph rfl) rfl rfl rfl rfl
        ⟨c,hc,hi,fun n hn => hg n hn c hc⟩
    · exact hs
  | fenceFails =>
    simp only [step]
    split
    · rename_i hph
      rw [hph] at hp
      exact hs.sendResume (hs.underway hph rfl) hp.1 (.inr rfl)
    · exact hs
  | flag written =>
    simp only [step]
    split
    · rename_i hph
      rw [hph] at hp
      have hu := hs.underway hph rfl
      have hs' : Inv { s with
          flag := if written then some (Op.reclaimFlag.apply (fenced s)) else s.flag } := by
        refine hs.enter hu rfl rfl rfl rfl ?_
        simp only [hph]
        exact hp
      refine hs'.send ⟨hu.calm,hu.ended⟩ (fun h => by simp [fences] at h) ?_
      · intro n hn
        obtain ⟨c,hc,hi,hle⟩ := hp
        refine ⟨c,hc,hi,fun m hm => ?_⟩
        rcases setInterim_get hm with ⟨_,rfl⟩ | ⟨hne,_⟩
        · exact hle n hn
        · exact absurd rfl hne
    · exact hs
  | boot adopted =>
    simp only [step]
    split
    · rename_i hph
      exact hs.boot hph hg
    · exact hs
  | reopen written =>
    simp only [step]
    split
    · rename_i hph
      exact hs.reopen hph hg
    · exact hs

/-- An orderly reclaim keeps the interim's writes and leaves nobody closed. -/
theorem keeps_of_orderly (row : LocalClusterState) (hold : Bool)
    (interims : List (LocalClusterState × Bool)) (acts : List Action)
    (hg : Guarded step Orderly acts (start row hold interims)) :
    Keeps (run step acts (start row hold interims)) :=
  (guarded_invariant step Orderly Inv step_inv acts (start row hold interims)
    (start_inv row hold interims) hg).keeps

def origin : LocalClusterState :=
  ⟨.leader,"https://a","default","","a","https://a","default","https://a","s",0,false,1,false⟩

def interimRow : LocalClusterState :=
  ⟨.leader,"https://b","w1","t","b","https://b","default","https://a","s",0,true,2,false⟩

/-- A write of the interim, answered. -/
def write : List Action := [.interim 0 (.arrive true),.interim 0 .commit,.interim 0 (.answer 0)]

/-- A request to the interim is carried out and answered. -/
def carryOut (call : ℕ) : List Action :=
  [.interim 0 (.beginTask call),.interim 0 (.writeTask call),.callOk]

/-- A write, then the physical copy, the demotion and the restart. -/
def byClone : List Action :=
  write++[Action.begin,.list [0],.status]++carryOut 0++[Action.stage,.arm,.fence,.flag true]++carryOut 2++[Action.boot true]

theorem clone_keeps_write :
    (run step byClone (start origin false [(interimRow,true)])).restarts.map
      (fun r => r.copy.map Copy.commits) = [some 1] ∧
    Guarded step Orderly byClone (start origin false [(interimRow,true)]) ∧
    Keeps (run step byClone (start origin false [(interimRow,true)])) :=
  have hg : Guarded step Orderly byClone (start origin false [(interimRow,true)]) := by
    decide +kernel
  ⟨by decide +kernel,hg,keeps_of_orderly origin false [(interimRow,true)] byClone hg⟩

/-- The quiesce is lost; the snapshot file is older than the last write. -/
def byOldDump : List Action :=
  [Action.interim 0 .dump,.interim 0 .rename]++write++[Action.begin,.list [0],.status]++
    [Action.interim 0 (.refuseTask 1),.callFails,.fetch,.save,.fence,.flag true]++carryOut 2++[Action.boot true]

theorem old_dump_loses_write :
    ¬ ∀ (row : LocalClusterState) (hold : Bool) (interims : List (LocalClusterState × Bool))
      (acts : List Action), Keeps (run step acts (start row hold interims)) := by
  intro h
  have hlost : ¬ ∀ r ∈ (run step byOldDump (start origin false [(interimRow,true)])).restarts,
      ∀ n ∈ (run step byOldDump (start origin false [(interimRow,true)])).interims[r.interim]?,
      ∀ k ∈ n.acknowledged, r.holds k := by decide +kernel
  exact hlost (h origin false [(interimRow,true)] byOldDump).copies

end DevForge.ReclaimKeeps
