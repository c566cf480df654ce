import DevForge.RunNumbering

/-!
# Live channels of successive executions

When each start finds no live channel, one execution is open at a time, the
buffer of a channel is a piece of the log of the run that begins where the
channel was opened, and everything emitted before is in the database.
-/

set_option autoImplicit false

namespace DevForge.RunChannels
open RunEvents RunNumbering

/-- A start finds no live channel of the run; numbers stay below `2^31`. -/
def Successive (s : State) : Action → Prop
  | .openChannel => s.hub = none
  | .publish i => ∀ x ∈ s.executions[i]?, ∀ e ∈ x.outbox.head?, e.seq < 2^31
  | _ => True

instance (s : State) (a : Action) : Decidable (Successive s a) :=
  a.casesOn (motive := fun a => Decidable (Successive s a))
    (inferInstanceAs (Decidable (s.hub = none))) (fun _ => .isTrue trivial)
    (fun _ _ _ => .isTrue trivial) (fun _ _ => .isTrue trivial)
    (fun i => inferInstanceAs
      (Decidable (∀ x ∈ s.executions[i]?, ∀ e ∈ x.outbox.head?, e.seq < 2^31)))
    (fun _ => .isTrue trivial) (fun _ => .isTrue trivial) (fun _ => .isTrue trivial)
    (.isTrue trivial) (fun _ => .isTrue trivial)

def log (s : State) : List RunEvent := s.emitted.map Prod.snd

/-- The events that the database holds, in the order of their insertion. -/
def written (s : State) : List RunEvent := s.persisted.rows.map (fun r => ⟨r.1,r.2.1,r.2.2⟩)

structure Alone (s : State) : Prop where
  one : ∀ i x, s.executions[i]? = some x → x.phase ≠ .closed →
    i+1 = s.executions.length ∧ s.hub ≠ none
  latest : ∀ i x, s.executions[i]? = some x → x.phase ≠ .closed → x.phase ≠ .opened →
    s.latest = some i

/-- Buffers are pieces of the log; that of the hub is its end. -/
structure Logged (s : State) : Prop where
  piece : ∀ ch ∈ s.channels, ch.base ≤ s.persisted.rows.length ∧ ch.buffer <+: (log s).drop ch.base
  hub : ∀ c ∈ s.hub, ∃ ch, s.channels[c]? = some ch ∧ ch.buffer = (log s).drop ch.base

structure Inv (s : State) : Prop where
  numbered : RunNumbering.Inv s
  alone : Alone s
  logged : Logged s

/-- The log and the buffers only grow. -/
structure Grows (s s' : State) : Prop where
  log : log s <+: log s'
  buffer : ∀ (c : ℕ) ch, s.channels[c]? = some ch →
    ∃ ch', s'.channels[c]? = some ch' ∧ ch'.base = ch.base ∧ ch.buffer <+: ch'.buffer

theorem Grows.refl (s : State) : Grows s s :=
  ⟨List.prefix_refl _,fun _ ch h => ⟨ch,h,rfl,List.prefix_refl _⟩⟩

theorem start_inv : Inv RunEvents.start where
  numbered := RunNumbering.start_inv
  alone := ⟨fun i x h => by simp [RunEvents.start] at h,fun i x h => by simp [RunEvents.start] at h⟩
  logged := ⟨fun ch h => by simp [RunEvents.start] at h,fun c h => by simp [RunEvents.start] at h⟩

theorem Alone.set {s s' : State} (h : Alone s) (i : ℕ) (x y : Execution)
    (hx : s.executions[i]? = some x) (hc : x.phase ≠ .closed)
    (he : s'.executions = s.executions.set i y) (hh : y.phase ≠ .closed → s'.hub = s.hub)
    (hl : y.phase ≠ .closed → y.phase ≠ .opened → s'.latest = some i) : Alone s' := by
  obtain ⟨hlen,hhub⟩ := h.one i x hx hc
  -- the execution at `i` is the only open one
  have hother : ∀ j z, j ≠ i → s.executions[j]? = some z → z.phase = .closed := by
    intro j z hj hz
    by_contra hn
    have := (h.one j z hz hn).1
    omega
  constructor
  · rw [he, List.length_set]
    exact forall_set (fun hy => ⟨hlen,by rw [hh hy]; exact hhub⟩)
      (fun j z hj hz hn => absurd (hother j z hj hz) hn)
  · rw [he]
    exact forall_set (fun hy ho => hl hy ho) (fun j z hj hz hn => absurd (hother j z hj hz) hn)

theorem row_of_stored {e : RunEvent} (h : 0 < e.seq ∧ e.seq < 2^31) :
    (⟨(stored e).1,(stored e).2.1,(stored e).2.2⟩ : RunEvent) = e := by
  rw [stored_seq h]
  rfl

/-- What the database holds is an initial part of what was emitted. -/
theorem written_prefix {s : State} (hs : RunNumbering.Inv s) :
    ∃ done, s.emitted = done++batch s ∧ written s = done.map Prod.snd ∧
      s.persisted.rows.length = done.length := by
  obtain ⟨done,hem,hp⟩ := hs.written
  refine ⟨done,hem,?_,by simp [hp]⟩
  rw [written, hp, List.map_map]
  apply List.map_congr_left
  intro p hpd
  exact row_of_stored (hs.range p (by simp [hem, hpd]))

theorem all_closed {s : State} (hs : Alone s) (hh : s.hub = none) :
    ∀ x ∈ s.executions, x.phase = .closed := by
  intro x hx
  obtain ⟨i,hi⟩ := List.getElem?_of_mem hx
  by_contra hc
  exact (hs.one i x hi hc).2 hh

/-- With no live channel, everything emitted is in the database. -/
theorem all_written {s : State} (hs : Inv s) (hh : s.hub = none) :
    written s = log s ∧ s.persisted.rows.length = s.emitted.length := by
  have hb : batch s = [] := batch_nil s (fun x hx => by
    obtain ⟨i,hi⟩ := List.getElem?_of_mem hx
    exact ((hs.numbered.executions i x hi).quiet
      (Or.inr (Or.inr (all_closed hs.alone hh x hx)))).1)
  obtain ⟨done,hem,hw,hlen⟩ := written_prefix hs.numbered
  rw [hb, List.append_nil] at hem
  subst hem
  exact ⟨hw,hlen⟩

/-- Successive starts meet the conditions of the numbering. -/
theorem Inv.orderly {s : State} (hs : Inv s) (a : Action) (ha : Successive s a) : Orderly s a := by
  cases a with
  | openChannel => simp [Orderly, show s.hub = none from ha]
  | readLastSeq i =>
    intro x hx hp y hy
    obtain ⟨j,hj⟩ := List.getElem?_of_mem hy
    have hq := (hs.numbered.executions j y hj).quiet
    by_cases hc : y.phase = .closed
    · exact hq (Or.inr (Or.inr hc))
    · have h1 := (hs.alone.one j y hj hc).1
      have h2 := (hs.alone.one i x hx (by simp [hp])).1
      have hij : j = i := by omega
      subst hij
      exact hq (Or.inl (Option.some.inj (hj.symm.trans hx) ▸ hp))
  | publish i =>
    intro x hx e he
    refine ⟨?_,ha x hx e he⟩
    have hq := (hs.numbered.executions i x hx).quiet
    have hne : x.outbox ≠ [] := by
      rintro h
      simp [h] at he
    exact hs.alone.latest i x hx (fun h => hne (hq (Or.inr (Or.inr h))).2)
      (fun h => hne (hq (Or.inl h)).2)
  | _ => trivial

/-- A step that leaves the log alone, with the bases and the buffers. -/
theorem Logged.same {s s' : State} (h : Logged s) (hem : s'.emitted = s.emitted)
    (hp : s.persisted.rows.length ≤ s'.persisted.rows.length)
    (hh : ∀ c ∈ s'.hub, s.hub = some c)
    (hc : ∀ (c : ℕ) ch', s'.channels[c]? = some ch' → ∃ ch, s.channels[c]? = some ch ∧
      ch'.base = ch.base ∧ ch'.buffer = ch.buffer)
    (hc' : ∀ (c : ℕ) ch, s.channels[c]? = some ch → ∃ ch', s'.channels[c]? = some ch' ∧
      ch'.base = ch.base ∧ ch'.buffer = ch.buffer) : Logged s' ∧ Grows s s' := by
  have hlog : log s' = log s := by rw [log, log, hem]
  refine ⟨⟨fun ch' hm => ?_,fun c hcm => ?_⟩,?_,fun c ch hch => ?_⟩
  · obtain ⟨c,hch'⟩ := List.getElem?_of_mem hm
    obtain ⟨ch,hch,hb,hbuf⟩ := hc c ch' hch'
    have hpc := h.piece ch (List.mem_of_getElem? hch)
    rw [hlog, hb, hbuf]
    exact ⟨hpc.1.trans hp,hpc.2⟩
  · obtain ⟨ch,hch,hbuf⟩ := h.hub c (hh c hcm)
    obtain ⟨ch',hch',hb,hbuf'⟩ := hc' c ch hch
    exact ⟨ch',hch',by rw [hbuf', hbuf, hlog, hb]⟩
  · rw [hlog]
  · obtain ⟨ch',hch',hb,hbuf⟩ := hc' c ch hch
    exact ⟨ch',hch',hb,by rw [hbuf]⟩

/-- A mark on a channel, and nothing else. -/
theorem Logged.modify {s : State} (h : Logged s) (s' : State) (hem : s'.emitted = s.emitted)
    (hp : s'.persisted = s.persisted) (hh : ∀ c ∈ s'.hub, s.hub = some c) (c : ℕ)
    (f : Channel → Channel) (hf : ∀ ch, (f ch).base = ch.base ∧ (f ch).buffer = ch.buffer)
    (hc : s'.channels = s.channels.modify c f) : Logged s' ∧ Grows s s' := by
  refine h.same hem (by rw [hp]) hh (fun d ch' hd => ?_) (fun d ch hd => ?_)
  · rw [hc, List.getElem?_modify] at hd
    cases hch : s.channels[d]? with
    | none => simp [hch] at hd
    | some ch =>
      refine ⟨ch,rfl,?_⟩
      rw [hch] at hd
      by_cases hcd : c = d
      · simp only [hcd, if_true, Option.map_eq_map, Option.map_some, Option.some.injEq] at hd
        exact hd ▸ hf ch
      · simp only [hcd, if_false, Option.map_eq_map, Option.map_some, Option.some.injEq] at hd
        exact hd ▸ ⟨rfl,rfl⟩
  · rw [hc, List.getElem?_modify, hd]
    by_cases hcd : c = d
    · exact ⟨f ch,by simp [hcd],(hf ch).1,(hf ch).2⟩
    · exact ⟨ch,by simp [hcd],rfl,rfl⟩

/-- A step that touches neither the log nor the channels. -/
theorem Logged.keep {s : State} (h : Logged s) (s' : State) (hem : s'.emitted = s.emitted)
    (hp : s.persisted.rows.length ≤ s'.persisted.rows.length) (hh : s'.hub = s.hub)
    (hc : s'.channels = s.channels) : Logged s' ∧ Grows s s' :=
  h.same hem hp (fun _ hcm => hh ▸ hcm) (fun _ ch hch => ⟨ch,hc ▸ hch,rfl,rfl⟩)
    (fun _ ch hch => ⟨ch,hc ▸ hch,rfl,rfl⟩)

theorem openChannel_inv (s : State) (hs : Inv s) (hh : s.hub = none) :
    (Alone (openChannel s) ∧ Logged (openChannel s)) ∧ Grows s (openChannel s) := by
  have ho : openChannel s = { s with
      channels := s.channels++[⟨s.emitted.length,[],false,false⟩]
      hub := some s.channels.length
      executions := s.executions++[⟨s.channels.length,false,.opened,.startingAt 0,[],[]⟩] } := by
    simp [openChannel, hh]
  have hclosed : ∀ (i : ℕ) x, s.executions[i]? = some x → x.phase = .closed := fun i x hx =>
    all_closed hs.alone hh x (List.mem_of_getElem? hx)
  have hdrop : (log s).drop s.emitted.length = [] := by simp [log]
  rw [ho]
  refine ⟨⟨⟨?_,?_⟩,⟨?_,?_⟩⟩,List.prefix_refl _,?_⟩
  · exact forall_concat (fun _ => by simp) (fun i x hx hn => absurd (hclosed i x hx) hn)
  · exact forall_concat (fun _ hn => absurd rfl hn) (fun i x hx hn => absurd (hclosed i x hx) hn)
  · intro ch hm
    rcases List.mem_append.mp hm with hm | hm
    · exact hs.logged.piece ch hm
    · rw [List.mem_singleton.mp hm]
      exact ⟨(all_written hs hh).2.ge,List.nil_prefix⟩
  · intro c hc
    have hc' : s.channels.length = c := Option.some.inj hc
    exact ⟨⟨s.emitted.length,[],false,false⟩,by simp [← hc'],hdrop.symm⟩
  · intro c ch hch
    have hlt := (List.getElem?_eq_some_iff.mp hch).1
    exact ⟨ch,by simpa [List.getElem?_append_left hlt] using hch,rfl,List.prefix_refl _⟩

theorem publish_logged (s : State) (hs : Inv s) (i : ℕ) (x : Execution) (e : RunEvent)
    (rest : List RunEvent) (hx : s.executions[i]? = some x) (hc : x.phase ≠ .closed) :
    Logged (publish i x e rest s) ∧ Grows s (publish i x e rest s) := by
  obtain ⟨c,hh⟩ := Option.ne_none_iff_exists'.mp (hs.alone.one i x hx hc).2
  obtain ⟨ch,hch,hbuf⟩ := hs.logged.hub c hh
  have hlog : log (publish i x e rest s) = log s++[e] := by simp [log, publish]
  have hchan : (publish i x e rest s).channels =
      s.channels.modify c (fun ch => { ch with buffer := ch.buffer++[e] }) := by
    simp [publish, hh]
  have hbase : ch.base ≤ (log s).length := by
    obtain ⟨done,hem,_,hlen⟩ := written_prefix hs.numbered
    have := (hs.logged.piece ch (List.mem_of_getElem? hch)).1
    simp only [log, hem, List.map_append, List.length_append, List.length_map]
    omega
  -- the channel of the hub takes the event that the log takes
  have hnew : ch.buffer++[e] = (log s++[e]).drop ch.base := by
    rw [List.drop_append_of_le_length hbase, hbuf]
  have hget : ∀ d, (publish i x e rest s).channels[d]? =
      if d = c then some { ch with buffer := ch.buffer++[e] } else s.channels[d]? := by
    intro d
    rw [hchan, List.getElem?_modify]
    by_cases hd : c = d
    · subst hd
      simp [hch]
    · simp [hd, Ne.symm hd]
  refine ⟨⟨fun ch' hm => ?_,fun d hd => ?_⟩,?_,fun d ch' hd => ?_⟩
  · obtain ⟨d,hd⟩ := List.getElem?_of_mem hm
    rw [hget d] at hd
    rw [hlog]
    split at hd
    · rw [← Option.some.inj hd]
      exact ⟨(hs.logged.piece ch (List.mem_of_getElem? hch)).1,by rw [hnew]⟩
    · have hp := hs.logged.piece ch' (List.mem_of_getElem? hd)
      exact ⟨hp.1,hp.2.trans ((List.prefix_append (log s) [e]).drop ch'.base)⟩
  · have hdc : d = c := Option.some.inj (hd.symm.trans hh)
    exact ⟨_,by rw [hget d, if_pos hdc],by rw [hlog, hnew]⟩
  · rw [hlog]
    exact List.prefix_append _ _
  · rw [hget d]
    by_cases hdc : d = c
    · have heq : ch' = ch := Option.some.inj (hd.symm.trans (hdc ▸ hch))
      exact ⟨_,if_pos hdc,by rw [heq],by rw [heq]; exact List.prefix_append _ _⟩
    · exact ⟨ch',by rw [if_neg hdc, hd],rfl,List.prefix_refl _⟩

theorem insertRow_length (t : Rows) (e : RunEvent) :
    t.rows.length ≤ (insertRow t e).rows.length := by
  unfold insertRow Table.insert
  split <;> simp

theorem foldl_insertRow_length (l : List RunEvent) (t : Rows) :
    t.rows.length ≤ (l.foldl insertRow t).rows.length := by
  induction l generalizing t with
  | nil => exact le_refl _
  | cons e l ih => exact (insertRow_length t e).trans (ih _)

theorem advance_inv (s : State) (hs : Inv s) (i : ℕ) (x : Execution) (a : Action)
    (hx : s.executions[i]? = some x) (hi : a.execution = some i) :
    (Alone (advance i x s a) ∧ Logged (advance i x s a)) ∧ Grows s (advance i x s a) := by
  have hsame : (Alone s ∧ Logged s) ∧ Grows s s := ⟨⟨hs.alone,hs.logged⟩,Grows.refl s⟩
  have hq := (hs.numbered.executions i x hx).quiet
  cases a with
  | openChannel => exact hsame
  | cancelLocal => exact hsame
  | readLastSeq j =>
    simp only [advance]
    split
    · rename_i hp
      have hl := hs.logged.keep (readLastSeq i x s) rfl (le_refl _) rfl rfl
      exact ⟨⟨hs.alone.set i x _ hx (by simp [hp]) rfl (fun _ => rfl) (fun _ _ => rfl),hl.1⟩,hl.2⟩
    · exact hsame
  | push j ev now =>
    simp only [advance]
    split
    · rename_i hp
      have hl := hs.logged.keep (numbered i x (x.sequencer.push ev now) s) rfl (le_refl _) rfl rfl
      refine ⟨⟨hs.alone.set i x _ hx (by simp [hp.1]) rfl (fun _ => rfl) (fun _ _ => ?_),hl.1⟩,hl.2⟩
      exact hs.alone.latest i x hx (by simp [hp.1]) (by simp [hp.1])
    · exact hsame
  | flushDelta j now =>
    simp only [advance]
    split
    · rename_i hp
      have hl := hs.logged.keep (numbered i x x.sequencer.flushDelta s) rfl (le_refl _) rfl rfl
      refine ⟨⟨hs.alone.set i x _ hx (by simp [hp.1]) rfl (fun _ => rfl) (fun _ _ => ?_),hl.1⟩,hl.2⟩
      exact hs.alone.latest i x hx (by simp [hp.1]) (by simp [hp.1])
    · exact hsame
  | publish j =>
    simp only [advance]
    split
    · rename_i e rest hout
      have hne : x.outbox ≠ [] := by simp [hout]
      have hc : x.phase ≠ .closed := fun h => hne (hq (Or.inr (Or.inr h))).2
      have ho : x.phase ≠ .opened := fun h => hne (hq (Or.inl h)).2
      have hl := publish_logged s hs i x e rest hx hc
      exact ⟨⟨hs.alone.set i x _ hx hc rfl (fun _ => rfl)
        (fun _ _ => hs.alone.latest i x hx hc ho),hl.1⟩,hl.2⟩
    · exact hsame
  | writeBatch j =>
    have key : ∀ phase, x.phase = .sinking ∨ x.phase = .draining →
        (Alone (writeBatch i x phase s) ∧ Logged (writeBatch i x phase s)) ∧
          Grows s (writeBatch i x phase s) := by
      intro phase hp
      have hc : x.phase ≠ .closed := by rcases hp with h | h <;> simp [h]
      have ho : x.phase ≠ .opened := by rcases hp with h | h <;> simp [h]
      have hl := hs.logged.keep (writeBatch i x phase s) rfl
        (foldl_insertRow_length x.rows s.persisted) rfl rfl
      exact ⟨⟨hs.alone.set i x _ hx hc rfl (fun _ => rfl)
        (fun _ _ => hs.alone.latest i x hx hc ho),hl.1⟩,hl.2⟩
    simp only [advance]
    split
    · exact hsame
    · split
      · exact key .sinking (Or.inl ‹_›)
      · split
        · exact key .written (Or.inr ‹_›)
        · exact hsame
  | sendersGone j =>
    simp only [advance]
    split
    · rename_i hp
      have hl := hs.logged.keep
        (numbered i { x with phase := .draining } x.sequencer.flushDelta s) rfl (le_refl _) rfl rfl
      refine ⟨⟨hs.alone.set i x _ hx (by simp [hp.1]) rfl (fun _ => rfl) (fun _ _ => ?_),hl.1⟩,hl.2⟩
      exact hs.alone.latest i x hx (by simp [hp.1]) (by simp [hp.1])
    · exact hsame
  | close j =>
    simp only [advance]
    split
    · rename_i hp
      have hc : x.phase ≠ .closed := by simp [hp]
      obtain ⟨c,hh⟩ := Option.ne_none_iff_exists'.mp (hs.alone.one i x hx hc).2
      have hl := hs.logged.modify (close i x s) rfl rfl (fun _ h => by simp [close] at h) c
        (fun ch => { ch with ended := true }) (fun _ => ⟨rfl,rfl⟩) (by simp [close, hh])
      exact ⟨⟨hs.alone.set i x _ hx hc rfl (fun h => absurd rfl h) (fun h => absurd rfl h),hl.1⟩,hl.2⟩
    · exact hsame
  | cancelWatch j =>
    simp only [advance]
    split
    · have hl := hs.logged.modify (cancelToken x.channel s) rfl rfl (fun _ h => h) x.channel
        (fun ch => { ch with cancelled := true }) (fun _ => ⟨rfl,rfl⟩) rfl
      exact ⟨⟨⟨hs.alone.one,hs.alone.latest⟩,hl.1⟩,hl.2⟩
    · exact hsame

theorem step_inv (s : State) (a : Action) (hs : Inv s) (ha : Successive s a) :
    Inv (RunEvents.step s a) ∧ Grows s (RunEvents.step s a) := by
  have hn := RunNumbering.step_inv s a hs.numbered (hs.orderly a ha)
  suffices h : (Alone (RunEvents.step s a) ∧ Logged (RunEvents.step s a)) ∧
      Grows s (RunEvents.step s a) from ⟨⟨hn,h.1.1,h.1.2⟩,h.2⟩
  have hsame : (Alone s ∧ Logged s) ∧ Grows s s := ⟨⟨hs.alone,hs.logged⟩,Grows.refl s⟩
  unfold RunEvents.step
  cases hi : a.execution with
  | some i =>
    cases hx : s.executions[i]? with
    | none => simpa [hx] using hsame
    | some x => simpa [hx] using advance_inv s hs i x a hx hi
  | none =>
    cases a with
    | openChannel => exact openChannel_inv s hs ha
    | cancelLocal =>
      cases hh : s.hub with
      | none => simpa [hh] using hsame
      | some c =>
        have hl := hs.logged.modify (cancelToken c s) rfl rfl (fun _ h => h) c
          (fun ch => { ch with cancelled := true }) (fun _ => ⟨rfl,rfl⟩) rfl
        simpa [hh] using ⟨⟨⟨hs.alone.one,hs.alone.latest⟩,hl.1⟩,hl.2⟩
    | _ => simp [Action.execution] at hi

end DevForge.RunChannels
