import DevForge.EventLog
import DevForge.RunEvents
import DevForge.Transition

/-!
# Numbering across executions of a run

What keeps the numbers of a run distinct and its events in the database: an
execution reads the last number when everything emitted before is written,
and from then on it alone emits.
-/

set_option autoImplicit false

namespace DevForge.RunNumbering
open RunEvents Transition

def SeqsDistinct (s : State) : Prop := (s.emitted.map (·.2.seq)).Nodup

instance (s : State) : Decidable (SeqsDistinct s) := by unfold SeqsDistinct; infer_instance

/-- The channel that a start finds is not cancelled; a start reads the last
number when the other executions have written all that they numbered; only the
execution that read it last publishes, below `2^31`. -/
def Orderly (s : State) : Action → Prop
  | .openChannel => ∀ c ∈ s.hub, ∀ ch ∈ s.channels[c]?, ch.cancelled = false
  | .readLastSeq i => ∀ x ∈ s.executions[i]?, x.phase = .opened →
      ∀ y ∈ s.executions, y.rows = [] ∧ y.outbox = []
  | .publish i => ∀ x ∈ s.executions[i]?, ∀ e ∈ x.outbox.head?, s.latest = some i ∧ e.seq < 2^31
  | _ => True

instance (s : State) (a : Action) : Decidable (Orderly s a) := by
  unfold Orderly
  split <;> infer_instance

/-- What numbering a list of events does to a sequencer. -/
structure Numbers (q : Sequencer) (r : List RunEvent × Sequencer) : Prop where
  increasing : EventLog.Increasing RunEvent.seq r.1
  bounds : ∀ e ∈ r.1, q.nextSeq ≤ e.seq ∧ e.seq < r.2.nextSeq
  grows : q.nextSeq ≤ r.2.nextSeq

theorem flushDelta_numbers (q : Sequencer) : Numbers q q.flushDelta := by
  cases hd : q.delta with
  | none =>
    have hf : q.flushDelta = ([],q) := by simp [Sequencer.flushDelta, hd]
    rw [hf]
    exact ⟨List.Pairwise.nil,by simp,le_refl _⟩
  | some d =>
    have hf : q.flushDelta = ([⟨q.nextSeq,"delta",.delta d.1 d.2.1⟩],
        { q with nextSeq := q.nextSeq+1, delta := none }) := by
      simp [Sequencer.flushDelta, hd, Sequencer.make]
    rw [hf]
    refine ⟨List.pairwise_singleton _ _,fun e he => ?_,(Int.lt_succ q.nextSeq).le⟩
    rw [List.mem_singleton.mp he]
    exact ⟨le_refl _,Int.lt_succ q.nextSeq⟩

theorem Numbers.snoc {q q' : Sequencer} {evs : List RunEvent} (h : Numbers q (evs,q'))
    (e : RunEvent) (q'' : Sequencer) (he : e.seq = q'.nextSeq) (hq : q''.nextSeq = q'.nextSeq+1) :
    Numbers q (evs++[e],q'') where
  increasing := (EventLog.increasing_append _ _ _).mpr
    ⟨h.increasing,List.pairwise_singleton _ _,fun x hx y hy => by
      rw [List.mem_singleton.mp hy, he]
      exact (h.bounds x hx).2⟩
  bounds x hx := by
    have hg := h.grows
    simp only at hg
    rcases List.mem_append.mp hx with hx | hx
    · have := h.bounds x hx
      simp only at this ⊢
      omega
    · rw [List.mem_singleton.mp hx]
      simp only
      omega
  grows := by
    have := h.grows
    simp only at this ⊢
    omega

theorem noteMilestone_nextSeq (ev : AgentEvent) (q : Sequencer) :
    (q.noteMilestone ev).nextSeq = q.nextSeq := by
  cases ev <;> rfl

theorem pushDelta_numbers (text : String) (round : ℕ) (now : Instant) (q : Sequencer) :
    Numbers q (q.pushDelta text round now) := by
  have hf := flushDelta_numbers q
  unfold Sequencer.pushDelta
  split
  · split
    · exact ⟨List.Pairwise.nil,by simp,le_refl _⟩
    · exact ⟨hf.increasing,hf.bounds,hf.grows⟩
  · exact ⟨hf.increasing,hf.bounds,hf.grows⟩

theorem push_numbers (ev : AgentEvent) (now : Instant) (q : Sequencer) :
    Numbers q (q.push ev now) := by
  have hf := flushDelta_numbers q
  have hn := noteMilestone_nextSeq ev q.flushDelta.2
  cases ev with
  | delta text round => exact pushDelta_numbers text round now q
  | milestone label status => exact hf.snoc _ _ hn (congrArg (·+1) hn)
  | other type payload => exact hf.snoc _ _ hn (congrArg (·+1) hn)

/-- What the execution that numbers last has ahead of what was emitted. -/
structure Ahead (emitted : List (ℕ × RunEvent)) (x : Execution) : Prop where
  increasing : EventLog.Increasing RunEvent.seq x.outbox
  outbox : ∀ e ∈ x.outbox, 0 < e.seq ∧ e.seq < x.sequencer.nextSeq
  emitted_lt : ∀ p ∈ emitted, ∀ e ∈ x.outbox, p.2.seq < e.seq
  next : 0 < x.sequencer.nextSeq ∧ ∀ p ∈ emitted, p.2.seq < x.sequencer.nextSeq

structure ExecutionInv (latest : Option ℕ) (emitted : List (ℕ × RunEvent)) (i : ℕ)
    (x : Execution) : Prop where
  idle : latest ≠ some i → x.rows = []
  quiet : x.phase = .opened ∨ x.phase = .written ∨ x.phase = .closed → x.rows = [] ∧ x.outbox = []
  ahead : latest = some i → Ahead emitted x
  born : x.bornCancelled = false

/-- The batch of the execution that numbers last. -/
def batch (s : State) : List (ℕ × RunEvent) :=
  match s.latest with
  | none => []
  | some i => match s.executions[i]? with
    | some x => x.rows.map (fun e => (i,e))
    | none => []

/-- The row that stores an event. -/
def stored (e : RunEvent) : ℤ × (String × Payload) := (asI32 e.seq,(e.type,e.payload))

structure Inv (s : State) : Prop where
  executions : ∀ i x, s.executions[i]? = some x → ExecutionInv s.latest s.emitted i x
  latest : ∀ i ∈ s.latest, i < s.executions.length
  written : ∃ done, s.emitted = done++batch s ∧ s.persisted.rows = done.map (fun p => stored p.2)
  increasing : EventLog.Increasing (fun p : ℕ × RunEvent => p.2.seq) s.emitted
  range : ∀ p ∈ s.emitted, 0 < p.2.seq ∧ p.2.seq < 2^31

theorem start_inv : Inv start where
  executions i x h := by simp [start] at h
  latest i h := by simp [start] at h
  written := ⟨[],rfl,rfl⟩
  increasing := List.Pairwise.nil
  range p h := by simp [start] at h

theorem stored_seq {e : RunEvent} (h : 0 < e.seq ∧ e.seq < 2^31) : (stored e).1 = e.seq :=
  asI32_of_range e.seq (by omega) h.2

theorem le_lastSeq (t : Rows) (k : ℤ) (h : k ∈ t.keys) : k ≤ lastSeq t := by
  unfold lastSeq
  cases hm : t.keys.max? with
  | none => simp [List.max?_eq_none_iff.mp hm] at h
  | some m => exact (List.max?_eq_some_iff.mp hm).2 k h

theorem lastSeq_nonneg (t : Rows) (h : ∀ k ∈ t.keys, 0 < k) : 0 ≤ lastSeq t := by
  unfold lastSeq
  cases hm : t.keys.max? with
  | none => simp
  | some m => exact (h m (List.max?_eq_some_iff.mp hm).1).le

/-- An execution whose rows are unchanged leaves the batch as it is. -/
theorem batch_set (s s' : State) (i : ℕ) (x y : Execution) (hx : s.executions[i]? = some x)
    (he : s'.executions = s.executions.set i y) (hl : s'.latest = s.latest)
    (hr : y.rows = x.rows) : batch s' = batch s := by
  have hi := (List.getElem?_eq_some_iff.mp hx).1
  unfold batch
  rw [hl, he]
  cases hs : s.latest with
  | none => rfl
  | some j =>
    by_cases hj : i = j
    · subst hj
      have hy : (s.executions.set i y)[i]? = some y := by simp [hi]
      simp only [hy, hx, hr]
    · simp [List.getElem?_set_ne hj]

theorem forall_set {P : ℕ → Execution → Prop} {l : List Execution} {i : ℕ} {y : Execution}
    (hy : P i y) (h : ∀ j x, j ≠ i → l[j]? = some x → P j x) :
    ∀ j x, (l.set i y)[j]? = some x → P j x := by
  intro j x hx
  rw [List.getElem?_set] at hx
  split at hx
  · rename_i hj
    split at hx
    · exact Option.some.inj hx ▸ hj ▸ hy
    · simp at hx
  · rename_i hj
    exact h j x (Ne.symm hj) hx

theorem forall_concat {P : ℕ → Execution → Prop} {l : List Execution} {y : Execution}
    (hy : P l.length y) (h : ∀ j x, l[j]? = some x → P j x) :
    ∀ j x, (l++[y])[j]? = some x → P j x := by
  intro j x hx
  rw [List.getElem?_append] at hx
  split at hx
  · exact h j x hx
  · rename_i hj
    rw [List.getElem?_singleton] at hx
    split at hx
    · have hjl : j = l.length := by omega
      exact hjl ▸ Option.some.inj hx ▸ hy
    · simp at hx

/-- A step that changes one execution besides its batch. -/
theorem Inv.set {s s' : State} (hs : Inv s) (i : ℕ) (x y : Execution)
    (hx : s.executions[i]? = some x) (he : s'.executions = s.executions.set i y)
    (hl : s'.latest = s.latest) (hem : s'.emitted = s.emitted) (hp : s'.persisted = s.persisted)
    (hr : y.rows = x.rows) (hy : ExecutionInv s.latest s.emitted i y) : Inv s' where
  executions := by
    rw [he, hl, hem]
    exact forall_set hy (fun j z _ hz => hs.executions j z hz)
  latest := by
    rw [hl, he, List.length_set]
    exact hs.latest
  written := by
    rw [hem, hp, batch_set s s' i x y hx he hl hr]
    exact hs.written
  increasing := hem ▸ hs.increasing
  range := hem ▸ hs.range

theorem numbered_execution (latest : Option ℕ) (emitted : List (ℕ × RunEvent)) (i : ℕ)
    (x : Execution) (phase : Phase) (r : List RunEvent × Sequencer)
    (hx : ExecutionInv latest emitted i x) (hp : phase = .sinking ∨ phase = .draining)
    (hn : Numbers x.sequencer r) :
    ExecutionInv latest emitted i { x with phase := phase, sequencer := r.2, outbox := r.1 } where
  idle := hx.idle
  quiet h := by rcases hp with rfl | rfl <;> simp at h
  ahead h := by
    obtain ⟨hpos,hlt⟩ := (hx.ahead h).next
    refine ⟨hn.increasing,fun e he => ⟨by have := hn.bounds e he; omega,(hn.bounds e he).2⟩,
      fun p hp e he => lt_of_lt_of_le (hlt p hp) (hn.bounds e he).1,?_⟩
    exact ⟨lt_of_lt_of_le hpos hn.grows,fun p hp => lt_of_lt_of_le (hlt p hp) hn.grows⟩
  born := hx.born

theorem numbered_inv (s : State) (hs : Inv s) (i : ℕ) (x : Execution) (phase : Phase)
    (r : List RunEvent × Sequencer) (hx : s.executions[i]? = some x)
    (hp : phase = .sinking ∨ phase = .draining) (hn : Numbers x.sequencer r) :
    Inv (numbered i { x with phase := phase } r s) :=
  hs.set i x { x with phase := phase, sequencer := r.2, outbox := r.1 } hx rfl rfl rfl rfl rfl
    (numbered_execution _ _ i x phase r (hs.executions i x hx) hp hn)

theorem openChannel_inv (s : State) (hs : Inv s) (ho : Orderly s .openChannel) :
    Inv (openChannel s) := by
  -- the new execution is not the one that numbers last
  have key : ∀ s' : State, ∀ c, s'.executions = s.executions++[⟨c,false,.opened,.startingAt 0,[],[]⟩] →
      s'.latest = s.latest → s'.emitted = s.emitted → s'.persisted = s.persisted → Inv s' := by
    intro s' c he hl hem hp
    have hb : batch s' = batch s := by
      unfold batch
      rw [hl, he]
      cases hlat : s.latest with
      | none => rfl
      | some j => simp [List.getElem?_append_left (hs.latest j hlat)]
    constructor
    · rw [he, hl, hem]
      refine forall_concat ⟨fun _ => rfl,fun _ => ⟨rfl,rfl⟩,fun h => ?_,rfl⟩ hs.executions
      exact absurd (hs.latest _ h) (lt_irrefl _)
    · rw [hl, he]
      intro j hj
      have := hs.latest j hj
      simp
      omega
    · rw [hem, hp, hb]
      exact hs.written
    · exact hem ▸ hs.increasing
    · exact hem ▸ hs.range
  unfold openChannel
  cases hh : s.hub with
  | none => exact key _ s.channels.length rfl rfl rfl rfl
  | some c =>
    have hc : (s.channels[c]?).any Channel.cancelled = false := by
      cases hch : s.channels[c]? with
      | none => rfl
      | some ch => simpa using ho c hh ch hch
    exact key _ c (by simp [hc]) rfl rfl rfl

theorem batch_nil (s : State) (h : ∀ x ∈ s.executions, x.rows = []) : batch s = [] := by
  unfold batch
  split
  · rfl
  · split
    · rename_i x hx
      simp [h x (List.mem_of_getElem? hx)]
    · rfl

theorem readLastSeq_inv (s : State) (hs : Inv s) (i : ℕ) (x : Execution)
    (hx : s.executions[i]? = some x)
    (ho : ∀ y ∈ s.executions, y.rows = [] ∧ y.outbox = []) : Inv (readLastSeq i x s) := by
  have hi := (List.getElem?_eq_some_iff.mp hx).1
  have hrows : ∀ y ∈ s.executions, y.rows = [] := fun y hy => (ho y hy).1
  obtain ⟨done,hem,hp⟩ := hs.written
  rw [batch_nil s hrows, List.append_nil] at hem
  subst hem
  -- every number emitted is the key of a row
  have hkey : ∀ p ∈ s.emitted, p.2.seq ≤ lastSeq s.persisted := by
    intro p hpe
    apply le_lastSeq
    rw [Table.keys, hp, List.map_map]
    exact List.mem_map.mpr ⟨p,hpe,stored_seq (hs.range p hpe)⟩
  have hpos : 0 ≤ lastSeq s.persisted := by
    apply lastSeq_nonneg
    intro k hk
    rw [Table.keys, hp, List.map_map] at hk
    obtain ⟨p,hpe,rfl⟩ := List.mem_map.mp hk
    simpa [stored_seq (hs.range p hpe)] using (hs.range p hpe).1
  have hxo := ho x (List.mem_of_getElem? hx)
  constructor
  · apply forall_set
    · refine ⟨fun h => absurd rfl h,fun h => by simp at h,fun _ => ?_,
        (hs.executions i x hx).born⟩
      refine ⟨by simp [hxo.2, EventLog.Increasing],by simp [hxo.2],by simp [hxo.2],?_,?_⟩
      · simp only [Sequencer.startingAt]
        omega
      · intro p hpe
        have := hkey p hpe
        simp only [Sequencer.startingAt]
        omega
    · intro j y hj hy
      have hj' : (some i : Option ℕ) ≠ some j := fun h => hj (Option.some.inj h).symm
      exact ⟨fun _ => hrows y (List.mem_of_getElem? hy),(hs.executions j y hy).quiet,
        fun h => absurd h hj',(hs.executions j y hy).born⟩
  · intro j hj
    simp only [readLastSeq, Option.mem_def, Option.some.injEq, List.length_set] at hj ⊢
    omega
  · refine ⟨s.emitted,?_,hp⟩
    have hb : batch (readLastSeq i x s) = [] := by
      simp [batch, readLastSeq, hi, hxo.1]
    rw [hb, List.append_nil]
    rfl
  · exact hs.increasing
  · exact hs.range

theorem publish_inv (s : State) (hs : Inv s) (i : ℕ) (x : Execution) (e : RunEvent)
    (rest : List RunEvent) (hx : s.executions[i]? = some x) (hout : x.outbox = e::rest)
    (hl : s.latest = some i) (hr : e.seq < 2^31) : Inv (publish i x e rest s) := by
  have hi := (List.getElem?_eq_some_iff.mp hx).1
  have hxi := hs.executions i x hx
  have ha := hxi.ahead hl
  have hinc := ha.increasing
  rw [hout] at hinc
  obtain ⟨hlt,hrest⟩ := List.pairwise_cons.mp hinc
  have heo : e ∈ x.outbox := by simp [hout]
  have hlast : ∀ p ∈ s.emitted, p.2.seq < e.seq := fun p hp => ha.emitted_lt p hp e heo
  constructor
  · apply forall_set
    · refine ⟨fun h => absurd hl h,fun h => ?_,fun _ => ?_,hxi.born⟩
      · exact absurd (hxi.quiet h).2 (by simp [hout])
      · refine ⟨hrest,fun o ho => ha.outbox o (by simp [hout, ho]),?_,ha.next.1,?_⟩
        · intro p hp o ho
          rcases List.mem_append.mp hp with hp | hp
          · exact ha.emitted_lt p hp o (by simp [hout, ho])
          · rw [List.mem_singleton.mp hp]
            exact hlt o ho
        · intro p hp
          rcases List.mem_append.mp hp with hp | hp
          · exact ha.next.2 p hp
          · rw [List.mem_singleton.mp hp]
            exact (ha.outbox e heo).2
    · intro j y hj hy
      have hj' : s.latest ≠ some j := fun h => hj (Option.some.inj (h.symm.trans hl))
      exact ⟨fun _ => (hs.executions j y hy).idle hj',(hs.executions j y hy).quiet,
        fun h => absurd h hj',(hs.executions j y hy).born⟩
  · intro j hj
    simpa [publish] using hs.latest j hj
  · obtain ⟨done,hem,hp⟩ := hs.written
    refine ⟨done,?_,hp⟩
    have hb : batch s = x.rows.map (fun e => (i,e)) := by simp [batch, hl, hx]
    have hb' : batch (publish i x e rest s) = (x.rows++[e]).map (fun e => (i,e)) := by
      simp [batch, publish, hl, hi]
    rw [hb']
    simp [publish, hem, hb]
  · exact (EventLog.increasing_append _ _ _).mpr
      ⟨hs.increasing,List.pairwise_singleton _ _,fun p hp y hy => by
        rw [List.mem_singleton.mp hy]
        exact hlast p hp⟩
  · intro p hp
    rcases List.mem_append.mp hp with hp | hp
    · exact hs.range p hp
    · rw [List.mem_singleton.mp hp]
      exact ⟨(ha.outbox e heo).1,hr⟩

theorem foldl_insertRow (l : List RunEvent) (t : Rows) :
    l.foldl insertRow t = l.foldl (fun t e => t.insert (stored e).1 (stored e).2) t := rfl

/-- A batch is written whole: its numbers are new. -/
theorem batch_written (s : State) (hs : Inv s) (i : ℕ) (x : Execution)
    (hx : s.executions[i]? = some x) (hl : s.latest = some i) :
    (x.rows.foldl insertRow s.persisted).rows = s.emitted.map (fun p => stored p.2) := by
  obtain ⟨done,hem,hp⟩ := hs.written
  have hb : batch s = x.rows.map (fun e => (i,e)) := by simp [batch, hl, hx]
  rw [hb] at hem
  have hseq : ∀ e ∈ x.rows, (stored e).1 = e.seq := fun e he =>
    stored_seq (hs.range (i,e) (by simp [hem, he]))
  have hinc := hs.increasing
  rw [hem] at hinc
  obtain ⟨_,hrows,hlt⟩ := (EventLog.increasing_append _ _ _).mp hinc
  rw [foldl_insertRow, Table.insert_all_rows stored x.rows s.persisted, hp, hem]
  · simp
  · rw [List.map_congr_left hseq]
    have hpw : x.rows.Pairwise (fun a b => a.seq < b.seq) := by
      simpa [EventLog.Increasing, List.pairwise_map] using hrows
    exact List.pairwise_map.mpr (hpw.imp ne_of_lt)
  · intro e he hk
    rw [Table.keys, hp, List.map_map] at hk
    obtain ⟨p,hpd,hpe⟩ := List.mem_map.mp hk
    have h1 : p.2.seq < e.seq := hlt p hpd (i,e) (List.mem_map.mpr ⟨e,he,rfl⟩)
    have h2 : (stored p.2).1 = p.2.seq := stored_seq (hs.range p (by simp [hem, hpd]))
    simp only [Function.comp_apply, h2, hseq e he] at hpe
    omega

theorem writeBatch_inv (s : State) (hs : Inv s) (i : ℕ) (x : Execution) (phase : Phase)
    (hx : s.executions[i]? = some x) (hout : x.outbox = []) : Inv (writeBatch i x phase s) := by
  have hi := (List.getElem?_eq_some_iff.mp hx).1
  have hxi := hs.executions i x hx
  constructor
  · refine forall_set ⟨fun _ => rfl,fun _ => ⟨rfl,hout⟩,fun h => ?_,hxi.born⟩
      (fun j z _ hz => hs.executions j z hz)
    have ha := hxi.ahead h
    exact ⟨ha.increasing,ha.outbox,ha.emitted_lt,ha.next⟩
  · intro j hj
    simpa [writeBatch] using hs.latest j hj
  · by_cases hl : s.latest = some i
    · have hb : batch (writeBatch i x phase s) = [] := by simp [batch, writeBatch, hl, hi]
      refine ⟨s.emitted,?_,batch_written s hs i x hx hl⟩
      rw [hb, List.append_nil]
      rfl
    · have hr := hxi.idle hl
      have hb : batch (writeBatch i x phase s) = batch s :=
        batch_set s _ i x { x with
            phase := phase, rows := [], sequencer := { x.sequencer with progressDirty := false } }
          hx rfl rfl hr.symm
      rw [hb]
      simpa [writeBatch, hr] using hs.written
  · exact hs.increasing
  · exact hs.range

theorem close_inv (s : State) (hs : Inv s) (i : ℕ) (x : Execution)
    (hx : s.executions[i]? = some x) (hp : x.phase = .written) : Inv (close i x s) := by
  have hxi := hs.executions i x hx
  refine hs.set i x { x with phase := .closed } hx rfl rfl rfl rfl rfl
    ⟨hxi.idle,fun _ => hxi.quiet (Or.inr (Or.inl hp)),fun h => ?_,hxi.born⟩
  have ha := hxi.ahead h
  exact ⟨ha.increasing,ha.outbox,ha.emitted_lt,ha.next⟩

theorem cancelToken_inv (s : State) (hs : Inv s) (c : ℕ) : Inv (cancelToken c s) :=
  ⟨hs.executions,hs.latest,hs.written,hs.increasing,hs.range⟩

theorem advance_inv (s : State) (hs : Inv s) (i : ℕ) (x : Execution) (a : Action)
    (hx : s.executions[i]? = some x) (hi : a.execution = some i) (ho : Orderly s a) :
    Inv (advance i x s a) := by
  cases a with
  | openChannel => exact hs
  | cancelLocal => exact hs
  | readLastSeq j =>
    have hj : j = i := Option.some.inj hi
    subst hj
    simp only [advance]
    split
    · rename_i hp
      exact readLastSeq_inv s hs j x hx (ho x hx hp)
    · exact hs
  | push j ev now =>
    simp only [advance]
    split
    · rename_i h
      exact numbered_inv s hs i x x.phase _ hx (Or.inl h.1) (push_numbers ev now x.sequencer)
    · exact hs
  | flushDelta j now =>
    simp only [advance]
    split
    · rename_i h
      exact numbered_inv s hs i x x.phase _ hx (Or.inl h.1) (flushDelta_numbers x.sequencer)
    · exact hs
  | publish j =>
    have hj : j = i := Option.some.inj hi
    subst hj
    simp only [advance]
    split
    · rename_i e rest hout
      obtain ⟨hl,hr⟩ := ho x hx e (by simp [hout])
      exact publish_inv s hs j x e rest hx hout hl hr
    · exact hs
  | writeBatch j =>
    simp only [advance]
    split
    · exact hs
    · rename_i hout
      have hout' : x.outbox = [] := not_not.mp hout
      split
      · exact writeBatch_inv s hs i x .sinking hx hout'
      · split
        · exact writeBatch_inv s hs i x .written hx hout'
        · exact hs
  | sendersGone j =>
    simp only [advance]
    split
    · exact numbered_inv s hs i x .draining _ hx (Or.inr rfl) (flushDelta_numbers x.sequencer)
    · exact hs
  | close j =>
    simp only [advance]
    split
    · rename_i hp
      exact close_inv s hs i x hx hp
    · exact hs
  | cancelWatch j =>
    simp only [advance]
    split
    · exact cancelToken_inv s hs x.channel
    · exact hs

theorem step_inv (s : State) (a : Action) (hs : Inv s) (ho : Orderly s a) : Inv (step s a) := by
  unfold step
  cases hi : a.execution with
  | some i =>
    cases hx : s.executions[i]? with
    | none => simpa [hx] using hs
    | some x => simpa [hx] using advance_inv s hs i x a hx hi ho
  | none =>
    cases a with
    | openChannel => exact openChannel_inv s hs ho
    | cancelLocal =>
      cases hh : s.hub with
      | none => simpa [hh] using hs
      | some c => simpa [hh] using cancelToken_inv s hs c
    | _ => simp [Action.execution] at hi

theorem Inv.distinct {s : State} (hs : Inv s) : SeqsDistinct s :=
  List.pairwise_map.mpr (hs.increasing.imp ne_of_lt)

/-- An execution that emits one event and closes its channel. -/
def oneEvent (i : ℕ) : List Action :=
  [.openChannel,.readLastSeq i,.push i (.other "ack" "{}") 0,.publish i,.sendersGone i,.writeBatch i,
    .close i]

end DevForge.RunNumbering
