import DevForge.AgentRuns
import DevForge.RunChannels

/-!
# Following a run

A subscriber takes the buffer of the live channel and its subscription at
once, completes it from the database, receives the broadcast until its end or
a lag, catches up from the database, and is done when the run is terminal and
no longer live. Its pieces interleave with the executions of the run.
-/

set_option autoImplicit false

namespace DevForge.RunFollow
open RunEvents AgentRuns Transition

/-- Where a subscriber stands; a receiver is a channel and a position. -/
inductive Pc where
  | top
  | prefill (past : List RunEvent) (channel cursor : ℕ)
  | live (channel cursor : ℕ)
  | catchup
  | status
  | checkLive (status : RunStatus)
  | final (status : RunStatus)
  | done (status : RunStatus)
  deriving DecidableEq, Repr

structure Follower where
  after : ℤ
  last : ℤ
  pc : Pc
  received : List RunEvent
  deriving DecidableEq, Repr

structure State where
  events : RunEvents.State
  /-- The status in `agent_runs`. -/
  status : Option RunStatus
  follower : Option Follower
  /-- What had been emitted when the subscriber received `Done`. -/
  doneAt : Option (List RunEvent)

def start : State := ⟨RunEvents.start,none,none,none⟩

/-- `subscribe_live`: the buffer above `after` and a receiver at its end. -/
def subscribeLive (after : ℤ) (s : RunEvents.State) : Option (List RunEvent × ℕ × ℕ) :=
  s.hub.bind (fun c => (s.channels[c]?).map (fun ch =>
    (ch.buffer.filter (fun e => after < e.seq),c,ch.buffer.length)))

/-- Rows of the database are sent as they are. -/
def Follower.sendRows (rows : List RunEvent) (f : Follower) : Follower :=
  { f with last := EventLog.reach RunEvent.seq f.last rows, received := f.received++rows }

/-- Events of the channel are sent when they are above the last one sent. -/
def Follower.sendNew : List RunEvent → Follower → Follower
  | [], f => f
  | e::es, f => sendNew es (if f.last < e.seq then f.sendRows [e] else f)

/-- The next piece of a subscriber that is not done. -/
def Follower.next (s : RunEvents.State) (status : Option RunStatus) (f : Follower) : Follower :=
  match f.pc with
  | .top => match subscribeLive f.last s with
    | none => { f with pc := .catchup }
    | some (past,c,n) => match past with
      | [] => { f with pc := .live c n }
      | first::_ =>
        if first.seq > f.last+1 then { f with pc := .prefill past c n }
        else { f.sendNew past with pc := .live c n }
  | .prefill past c n =>
    let rows := match past with
      | [] => []
      | first::_ => (history f.last s.persisted).filter (fun e => e.seq < first.seq)
    { (f.sendRows rows).sendNew past with pc := .live c n }
  | .live c n => match s.channels[c]? with
    | none => f
    | some ch => match ch.buffer[n]? with
      | some e => { f.sendNew [e] with pc := .live c (n+1) }
      | none => if ch.ended then { f with pc := .catchup } else f
  | .catchup => { f.sendRows (history f.last s.persisted) with pc := .status }
  | .status =>
    let status := status.getD .failed
    if status.isTerminal then { f with pc := .checkLive status } else { f with pc := .top }
  | .checkLive status =>
    if s.hub = none then { f with pc := .final status } else { f with pc := .top }
  | .final status =>
    { f with received := f.received++history f.last s.persisted, pc := .done status }
  | .done _ => f

/-- A receiver that is behind may be told so, and starts again from the database. -/
def Follower.lagged (s : RunEvents.State) (f : Follower) : Follower :=
  match f.pc with
  | .live c n => match s.channels[c]? with
    | some ch => if n < ch.buffer.length then { f with pc := .catchup } else f
    | none => f
  | _ => f

inductive Action where
  | events (a : RunEvents.Action)
  | setStatus (status : Option RunStatus)
  | follow (after : ℤ)
  | next
  | lagged
  deriving DecidableEq, Repr

def finishing (f : Follower) : Bool :=
  match f.pc with
  | .final _ => true
  | _ => false

def step (s : State) : Action → State
  | .events a => { s with events := RunEvents.step s.events a }
  | .setStatus status => { s with status := status }
  | .follow after => match s.follower with
    | none => { s with follower := some ⟨after,after,.top,[]⟩ }
    | some _ => s
  | .next => match s.follower with
    | none => s
    | some f => { s with
        follower := some (f.next s.events s.status)
        doneAt := if finishing f then some (RunChannels.log s.events) else s.doneAt }
  | .lagged => { s with follower := s.follower.map (Follower.lagged s.events) }

/-- What the subscriber has received when it is done: every event above
`after` emitted so far, once, in order. -/
def GapFree (s : State) : Prop :=
  ∀ f ∈ s.follower, ∀ emitted ∈ s.doneAt,
    EventLog.Increasing RunEvent.seq f.received ∧
    (∀ e ∈ f.received, e ∈ emitted ∧ f.after < e.seq) ∧
    (∀ e ∈ emitted, f.after < e.seq → e ∈ f.received)

instance (s : State) : Decidable (GapFree s) := by
  unfold GapFree EventLog.Increasing
  infer_instance

/-- What the database holds above a number is at most one page. -/
def OnePage (last : ℤ) (t : Rows) : Prop := (t.rows.filter (fun r => last < r.1)).length ≤ 5000

/-- The piece that a subscriber takes next loses nothing: a subscription with
nothing new in the buffer finds nothing new in the database; what precedes the
buffer, or is left at the end, fits in one page. -/
def Complete (s : RunEvents.State) (f : Follower) : Prop :=
  match f.pc with
  | .top => ∀ p ∈ subscribeLive f.last s, p.1 = [] → ∀ k ∈ s.persisted.keys, k ≤ f.last
  | .prefill past _ _ => ∀ first ∈ past.head?,
      (s.persisted.rows.filter (fun r => f.last < r.1 ∧ r.1 < first.seq)).length ≤ 5000
  | .final _ => OnePage f.last s.persisted
  | _ => True

instance (s : RunEvents.State) (f : Follower) : Decidable (Complete s f) := by
  unfold Complete OnePage
  split <;> infer_instance

def Orderly (s : State) : Action → Prop
  | .events a => RunChannels.Successive s.events a ∧
      (a = .openChannel → ∀ f ∈ s.follower, finishing f = false)
  | .follow after => -2^31 ≤ after ∧ after < 2^31
  | .next => ∀ f ∈ s.follower, Complete s.events f
  | _ => True

instance (s : State) (a : Action) : Decidable (Orderly s a) := by
  unfold Orderly
  split <;> infer_instance

/-- What a subscriber that is not done has received. -/
structure Sent (s : RunEvents.State) (f : Follower) : Prop where
  range : -2^31 ≤ f.last ∧ f.last < 2^31
  after_le : f.after ≤ f.last
  reached : f.last = f.after ∨ ∃ e ∈ RunChannels.log s, e.seq = f.last
  received : f.received = EventLog.window RunEvent.seq f.after f.last (RunChannels.log s)

theorem log_increasing {s : RunEvents.State} (hs : RunChannels.Inv s) :
    EventLog.Increasing RunEvent.seq (RunChannels.log s) :=
  List.pairwise_map.mpr hs.numbered.increasing

theorem log_range {s : RunEvents.State} (hs : RunChannels.Inv s) :
    ∀ e ∈ RunChannels.log s, 0 < e.seq ∧ e.seq < 2^31 := by
  intro e he
  obtain ⟨p,hp,rfl⟩ := List.mem_map.mp he
  exact hs.numbered.range p hp

theorem written_prefix_log {s : RunEvents.State} (hs : RunChannels.Inv s) :
    RunChannels.written s <+: RunChannels.log s := by
  obtain ⟨done,hem,hw,_⟩ := RunChannels.written_prefix hs.numbered
  rw [hw, RunChannels.log, hem, List.map_append]
  exact List.prefix_append _ _

theorem Sent.sendRows {s : RunEvents.State} {f : Follower} (hs : RunChannels.Inv s)
    (hf : Sent s f) (r : List RunEvent)
    (hp : r <+: EventLog.above RunEvent.seq f.last (RunChannels.log s)) : Sent s (f.sendRows r) := by
  have hrec := EventLog.window_deliver RunEvent.seq f.after f.last _ r (log_increasing hs)
    hf.after_le hp
  rcases List.eq_nil_or_concat' r with rfl | ⟨r',e,rfl⟩
  · simpa [Follower.sendRows] using hf
  · have hmem : e ∈ EventLog.above RunEvent.seq f.last (RunChannels.log s) :=
      hp.subset (by simp)
    obtain ⟨helog,helast⟩ := (EventLog.mem_above RunEvent.seq f.last _ e).mp hmem
    have hr := log_range hs e helog
    have ha := hf.after_le
    constructor
    · simp only [Follower.sendRows, EventLog.reach_concat]
      omega
    · simp only [Follower.sendRows, EventLog.reach_concat]
      omega
    · exact Or.inr ⟨e,helog,by simp [Follower.sendRows]⟩
    · simpa [Follower.sendRows, hf.received] using hrec

theorem sendRows_append (f : Follower) (r r' : List RunEvent) :
    (f.sendRows r).sendRows r' = f.sendRows (r++r') := by
  simp [Follower.sendRows, EventLog.reach_append]

/-- Increasing events above the last one sent are all new. -/
theorem sendNew_eq_sendRows (r : List RunEvent) (f : Follower)
    (hi : EventLog.Increasing RunEvent.seq r) (hl : ∀ e ∈ r, f.last < e.seq) :
    f.sendNew r = f.sendRows r := by
  induction r generalizing f with
  | nil => simp [Follower.sendNew, Follower.sendRows]
  | cons e r ih =>
    obtain ⟨hlt,hr⟩ := List.pairwise_cons.mp hi
    have hle : (f.sendRows [e]).last = e.seq := EventLog.reach_concat RunEvent.seq f.last [] e
    rw [Follower.sendNew, if_pos (hl e (by simp)), ih _ hr (fun x hx => hle ▸ hlt x hx),
      sendRows_append, List.singleton_append]

/-- A page of the database, read by a subscriber in range. -/
theorem history_eq {s : RunEvents.State} (hs : RunChannels.Inv s) (last : ℤ)
    (hr : -2^31 ≤ last ∧ last < 2^31) : history last s.persisted =
      (EventLog.above RunEvent.seq last (RunChannels.written s)).take 5000 := by
  have hsorted : (s.persisted.rows.filter (fun r => last < r.1)).Pairwise
      (fun a b => a.1 ≤ b.1) := by
    have hw := List.Pairwise.sublist (written_prefix_log hs).sublist (log_increasing hs)
    have hrows : s.persisted.rows.Pairwise (fun a b => a.1 ≤ b.1) :=
      (List.pairwise_map.mp hw).imp le_of_lt
    exact hrows.sublist List.filter_sublist
  simp only [history, asI32_of_range last hr.1 hr.2, hsorted.insertionSort_eq,
    EventLog.above, RunChannels.written, List.filter_map, List.map_take]
  rfl

theorem prefix_history {s : RunEvents.State} (hs : RunChannels.Inv s) (last : ℤ)
    (hr : -2^31 ≤ last ∧ last < 2^31) :
    history last s.persisted <+: EventLog.above RunEvent.seq last (RunChannels.log s) := by
  rw [history_eq hs last hr]
  exact (List.take_prefix _ _).trans ((written_prefix_log hs).filter _)

/-- The log up to a position of a channel: what precedes the channel, then its
buffer up to there. -/
theorem take_piece {s : RunEvents.State} {ch : Channel} (n : ℕ)
    (hp : ch.buffer <+: (RunChannels.log s).drop ch.base) (hn : n ≤ ch.buffer.length) :
    (RunChannels.log s).take (ch.base+n) = (RunChannels.log s).take ch.base++ch.buffer.take n := by
  obtain ⟨t,ht⟩ := hp
  rw [List.take_add, ← ht, List.take_append_of_le_length hn]

theorem before_channel_written {s : RunEvents.State} (hs : RunChannels.Inv s) (base : ℕ)
    (hb : base ≤ s.persisted.rows.length) :
    (RunChannels.log s).take base = (RunChannels.written s).take base := by
  obtain ⟨t,ht⟩ := written_prefix_log hs
  have hlen : base ≤ (RunChannels.written s).length := by simpa [RunChannels.written] using hb
  rw [← ht, List.take_append_of_le_length hlen]

/-- What the place of a subscriber says of the events it still waits for. -/
structure Inv (s : RunEvents.State) (doneAt : Option (List RunEvent)) (f : Follower) : Prop where
  waiting : (∀ st, f.pc ≠ .done st) → Sent s f ∧ doneAt = none
  prefill : ∀ past c n, f.pc = .prefill past c n → past ≠ [] ∧ ∃ ch, s.channels[c]? = some ch ∧
    n ≤ ch.buffer.length ∧ past = EventLog.above RunEvent.seq f.last (ch.buffer.take n)
  live : ∀ c n, f.pc = .live c n → ∃ ch, s.channels[c]? = some ch ∧ n ≤ ch.buffer.length ∧
    ∀ e ∈ (RunChannels.log s).take (ch.base+n), e.seq ≤ f.last
  final : ∀ st, f.pc = .final st → s.hub = none
  done : ∀ st, f.pc = .done st → ∀ l ∈ doneAt, EventLog.Increasing RunEvent.seq l ∧
    f.received = EventLog.above RunEvent.seq f.after l

/-- A place at which nothing in particular is known. -/
theorem Inv.plain {s : RunEvents.State} {doneAt : Option (List RunEvent)} {f : Follower}
    (hs : Sent s f) (hd : doneAt = none)
    (hpc : f.pc = .top ∨ f.pc = .catchup ∨ f.pc = .status ∨ ∃ st, f.pc = .checkLive st) :
    Inv s doneAt f := by
  rcases hpc with h | h | h | ⟨st,h⟩ <;>
    exact ⟨fun _ => ⟨hs,hd⟩,fun _ _ _ h' => by simp [h] at h',fun _ _ h' => by simp [h] at h',
      fun _ h' => by simp [h] at h',fun _ h' => by simp [h] at h'⟩

theorem Inv.at_live {s : RunEvents.State} {doneAt : Option (List RunEvent)} {f : Follower}
    (hs : Sent s f) (hd : doneAt = none) (c n : ℕ) (hpc : f.pc = .live c n) (ch : Channel)
    (hch : s.channels[c]? = some ch) (hn : n ≤ ch.buffer.length)
    (hl : ∀ e ∈ (RunChannels.log s).take (ch.base+n), e.seq ≤ f.last) : Inv s doneAt f where
  waiting _ := ⟨hs,hd⟩
  prefill _ _ _ h := by simp [hpc] at h
  live c' n' h := by
    rw [hpc] at h
    obtain ⟨rfl,rfl⟩ := Pc.live.inj h
    exact ⟨ch,hch,hn,hl⟩
  final _ h := by simp [hpc] at h
  done _ h := by simp [hpc] at h

theorem Sent.grow {s s' : RunEvents.State} {f : Follower} (hf : Sent s f)
    (hs' : RunChannels.Inv s') (hg : RunChannels.Grows s s') : Sent s' f := by
  obtain ⟨t,ht⟩ := hg.log
  have hinc := log_increasing hs'
  rw [← ht] at hinc
  have hlt := ((EventLog.increasing_append _ _ _).mp hinc).2.2
  refine ⟨hf.range,hf.after_le,?_,?_⟩
  · rcases hf.reached with h | ⟨e,he,hl⟩
    · exact Or.inl h
    · exact Or.inr ⟨e,hg.log.subset he,hl⟩
  · rw [← ht, EventLog.window_append_of_above]
    · exact hf.received
    · intro x hx ha
      rcases hf.reached with h | ⟨e,he,hl⟩
      · rwa [h]
      · exact hl ▸ hlt e he x hx

/-- The executions of the run go on below a subscriber. -/
theorem Inv.grow {s s' : RunEvents.State} {doneAt : Option (List RunEvent)} {f : Follower}
    (hf : Inv s doneAt f) (hs : RunChannels.Inv s) (hs' : RunChannels.Inv s')
    (hg : RunChannels.Grows s s') (hh : finishing f → s.hub = none → s'.hub = none) :
    Inv s' doneAt f where
  waiting h := ⟨(hf.waiting h).1.grow hs' hg,(hf.waiting h).2⟩
  prefill past c n h := by
    obtain ⟨hne,ch,hch,hn,hp⟩ := hf.prefill past c n h
    obtain ⟨ch',hch',_,t,ht⟩ := hg.buffer c ch hch
    have hlen : n ≤ ch'.buffer.length := by
      rw [← ht, List.length_append]
      omega
    refine ⟨hne,ch',hch',hlen,?_⟩
    rw [← ht, List.take_append_of_le_length hn]
    exact hp
  live c n h := by
    obtain ⟨ch,hch,hn,hl⟩ := hf.live c n h
    obtain ⟨ch',hch',hb,t,ht⟩ := hg.buffer c ch hch
    obtain ⟨u,hu⟩ := hg.log
    have hlen : n ≤ ch'.buffer.length := by
      rw [← ht, List.length_append]
      omega
    refine ⟨ch',hch',hlen,?_⟩
    obtain ⟨hbase,hpre⟩ := hs.logged.piece ch (List.mem_of_getElem? hch)
    have hlog : ch.base+n ≤ (RunChannels.log s).length := by
      have h1 := hpre.length_le
      have h2 := (written_prefix_log hs).length_le
      have h3 : (RunChannels.written s).length = s.persisted.rows.length := by
        simp [RunChannels.written]
      rw [List.length_drop] at h1
      omega
    rw [hb, ← hu, List.take_append_of_le_length hlog]
    exact hl
  final st h := hh (by simp [finishing, h]) (hf.final st h)
  done := hf.done

theorem Sent.at_pc {s : RunEvents.State} {f : Follower} (hf : Sent s f) (pc : Pc) :
    Sent s { f with pc := pc } := ⟨hf.range,hf.after_le,hf.reached,hf.received⟩

theorem above_increasing {s : RunEvents.State} (hs : RunChannels.Inv s) (last : ℤ) (n : ℕ) :
    EventLog.Increasing RunEvent.seq
      (EventLog.above RunEvent.seq last ((RunChannels.log s).take n)) :=
  EventLog.Increasing.above RunEvent.seq
    (List.Pairwise.sublist (List.take_sublist n _) (log_increasing hs)) last

/-- A subscriber receives all that stands above it up to a position of a
channel, and waits there. -/
theorem deliver_to {s : RunEvents.State} {f : Follower} (hs : RunChannels.Inv s) (hf : Sent s f)
    (c n : ℕ) (ch : Channel) (hch : s.channels[c]? = some ch) (hn : n ≤ ch.buffer.length) :
    Inv s none { f.sendRows (EventLog.above RunEvent.seq f.last
      ((RunChannels.log s).take (ch.base+n))) with pc := .live c n } := by
  have hsent := hf.sendRows hs _ (EventLog.above_take_prefix RunEvent.seq f.last _ (ch.base+n))
  exact Inv.at_live (hsent.at_pc _) rfl c n rfl ch hch hn
    (EventLog.take_le_reach RunEvent.seq f.last _ _ (log_increasing hs))

theorem subscribe_inv {s : RunEvents.State} {f : Follower} (hs : RunChannels.Inv s)
    (status : Option RunStatus) (hf : Inv s none f) (hpc : f.pc = .top) (hc : Complete s f) :
    Inv s none (f.next s status) := by
  have hsent := (hf.waiting (fun st h => by simp [hpc] at h)).1
  cases hh : s.hub with
  | none =>
    have hn : f.next s status = { f with pc := .catchup } := by
      simp [Follower.next, hpc, subscribeLive, hh]
    rw [hn]
    exact Inv.plain (hsent.at_pc _) rfl (Or.inr (Or.inl rfl))
  | some c =>
    obtain ⟨ch,hch,hbuf⟩ := hs.logged.hub c hh
    have hpiece := hs.logged.piece ch (List.mem_of_getElem? hch)
    have hlive := deliver_to hs hsent c ch.buffer.length ch hch (le_refl _)
    have hsub : subscribeLive f.last s =
        some (EventLog.above RunEvent.seq f.last ch.buffer,c,ch.buffer.length) := by
      simp [subscribeLive, hh, hch, EventLog.above]
    have hsplit := take_piece ch.buffer.length hpiece.2 (le_refl _)
    rw [List.take_length] at hsplit
    -- what stands above the subscriber is the past when nothing precedes it
    have hpast : (∀ e ∈ (RunChannels.log s).take ch.base, e.seq ≤ f.last) →
        EventLog.above RunEvent.seq f.last ((RunChannels.log s).take (ch.base+ch.buffer.length)) =
          EventLog.above RunEvent.seq f.last ch.buffer := fun h => by
      rw [hsplit, EventLog.above_append, EventLog.above_eq_nil _ _ _ h, List.nil_append]
    cases hp : EventLog.above RunEvent.seq f.last ch.buffer with
    | nil =>
      have hn : f.next s status = { f with pc := .live c ch.buffer.length } := by
        simp [Follower.next, hpc, hsub, hp]
      have hold : ∀ e ∈ (RunChannels.log s).take ch.base, e.seq ≤ f.last := by
        intro e he
        rw [before_channel_written hs ch.base hpiece.1] at he
        obtain ⟨r,hr,rfl⟩ := List.mem_map.mp (List.mem_of_mem_take he)
        simp only [Complete, hpc] at hc
        exact hc _ hsub hp r.1 (List.mem_map.mpr ⟨r,hr,rfl⟩)
      rw [hpast hold, hp] at hlive
      rw [hn]
      simpa [Follower.sendRows] using hlive
    | cons first past =>
      have hmem : first ∈ EventLog.above RunEvent.seq f.last ch.buffer := by simp [hp]
      obtain ⟨hfb,hfl⟩ := (EventLog.mem_above RunEvent.seq f.last _ first).mp hmem
      by_cases hgap : first.seq > f.last+1
      · have hn : f.next s status = { f with pc := .prefill (first::past) c ch.buffer.length } := by
          simp [Follower.next, hpc, hsub, hp, hgap]
        rw [hn]
        refine ⟨fun _ => ⟨hsent.at_pc _,rfl⟩,fun past' c' n' h => ?_,fun _ _ h => by simp at h,
          fun _ h => by simp at h,fun _ h => by simp at h⟩
        obtain ⟨rfl,rfl,rfl⟩ := Pc.prefill.inj h
        exact ⟨List.cons_ne_nil _ _,ch,hch,le_refl _,by rw [List.take_length, hp]⟩
      · have hold : ∀ e ∈ (RunChannels.log s).take ch.base, e.seq ≤ f.last := by
          intro e he
          have hinc := List.Pairwise.sublist
            (List.take_sublist (ch.base+ch.buffer.length) _) (log_increasing hs)
          rw [hsplit] at hinc
          have := (List.pairwise_append.mp hinc).2.2 e he first hfb
          omega
        have hinc := above_increasing hs f.last (ch.base+ch.buffer.length)
        rw [hpast hold, hp] at hinc
        have hn : f.next s status =
            { f.sendRows (first::past) with pc := .live c ch.buffer.length } := by
          rw [← sendNew_eq_sendRows (first::past) f hinc (fun e he =>
            ((EventLog.mem_above RunEvent.seq f.last ch.buffer e).mp (hp ▸ he)).2)]
          simp [Follower.next, hpc, hsub, hp, hgap]
        rw [hpast hold, hp] at hlive
        rw [hn]
        exact hlive

theorem above_reach (last : ℤ) (r p : List RunEvent)
    (hi : EventLog.Increasing RunEvent.seq (r++p)) (hl : ∀ e ∈ p, last < e.seq) :
    ∀ e ∈ p, EventLog.reach RunEvent.seq last r < e.seq := by
  intro e he
  rcases List.eq_nil_or_concat' r with rfl | ⟨r',x,rfl⟩
  · exact hl e he
  · rw [EventLog.reach_concat]
    exact ((EventLog.increasing_append _ _ _).mp hi).2.2 x (by simp) e he

/-- What is read from the database before the buffer is all that precedes the
channel above the subscriber. -/
theorem prefill_rows {s : RunEvents.State} (hs : RunChannels.Inv s) (last : ℤ)
    (hr : -2^31 ≤ last ∧ last < 2^31) (ch : Channel) (hch : ch ∈ s.channels) (n : ℕ)
    (first : RunEvent) (past : List RunEvent)
    (hp : EventLog.above RunEvent.seq last (ch.buffer.take n) = first::past)
    (hpage : (s.persisted.rows.filter (fun r => last < r.1 ∧ r.1 < first.seq)).length ≤ 5000) :
    (history last s.persisted).filter (fun e => e.seq < first.seq) =
      EventLog.above RunEvent.seq last ((RunChannels.log s).take ch.base) := by
  obtain ⟨hbase,hpiece⟩ := hs.logged.piece ch hch
  have hlogsplit := List.take_append_drop ch.base (RunChannels.log s)
  have hinc := log_increasing hs
  rw [← hlogsplit] at hinc
  obtain ⟨_,hdrop,hlt⟩ := (EventLog.increasing_append _ _ _).mp hinc
  -- above the subscriber the rest of the log begins with the first buffered event
  have hhead : first::past <+: EventLog.above RunEvent.seq last ((RunChannels.log s).drop ch.base) :=
    hp ▸ ((List.take_prefix n ch.buffer).trans hpiece).filter _
  have hfirst : first ∈ (RunChannels.log s).drop ch.base :=
    ((EventLog.mem_above RunEvent.seq last _ first).mp (hhead.subset (by simp))).1
  have hrest : ∀ e ∈ (RunChannels.written s).drop ch.base, last < e.seq → first.seq ≤ e.seq := by
    intro e he hle
    have hmem : e ∈ EventLog.above RunEvent.seq last ((RunChannels.log s).drop ch.base) :=
      (EventLog.mem_above RunEvent.seq last _ e).mpr
        ⟨((written_prefix_log hs).drop ch.base).subset he,hle⟩
    obtain ⟨t,ht⟩ := hhead
    have hpw := EventLog.Increasing.above RunEvent.seq hdrop last
    rw [← ht, List.cons_append] at hpw
    rw [← ht, List.cons_append, List.mem_cons] at hmem
    rcases hmem with rfl | hmem
    · exact le_refl _
    · exact ((List.pairwise_cons.mp hpw).1 e hmem).le
  have hbefore : ∀ e ∈ EventLog.above RunEvent.seq last ((RunChannels.log s).take ch.base),
      e.seq < first.seq := fun e he =>
    hlt e ((EventLog.mem_above RunEvent.seq last _ e).mp he).1 first hfirst
  have hsplit : EventLog.above RunEvent.seq last (RunChannels.written s) =
      EventLog.above RunEvent.seq last ((RunChannels.log s).take ch.base)++
        EventLog.above RunEvent.seq last ((RunChannels.written s).drop ch.base) := by
    rw [before_channel_written hs ch.base hbase, ← EventLog.above_append, List.take_append_drop]
  have hlen : (EventLog.above RunEvent.seq last ((RunChannels.log s).take ch.base)).length ≤ 5000 := by
    have hsub : EventLog.above RunEvent.seq last ((RunChannels.log s).take ch.base) <+:
        (RunChannels.written s).filter (fun e => last < e.seq ∧ e.seq < first.seq) := by
      have hfilter : (RunChannels.written s).filter (fun e => last < e.seq ∧ e.seq < first.seq) =
          (EventLog.above RunEvent.seq last (RunChannels.written s)).filter
            (fun e => e.seq < first.seq) := by
        simp [EventLog.above, List.filter_filter, Bool.and_comm]
      rw [hfilter, hsplit, List.filter_append, List.filter_eq_self.mpr (by simpa using hbefore)]
      exact List.prefix_append _ _
    have hmap : ((RunChannels.written s).filter (fun e => last < e.seq ∧ e.seq < first.seq)).length =
        (s.persisted.rows.filter (fun r => last < r.1 ∧ r.1 < first.seq)).length := by
      rw [RunChannels.written, List.filter_map, List.length_map]
      rfl
    exact hsub.length_le.trans (hmap ▸ hpage)
  rw [history_eq hs last hr, hsplit, List.take_append, List.take_of_length_le hlen,
    List.filter_append, List.filter_eq_self.mpr (by simpa using hbefore)]
  have hnone : ((EventLog.above RunEvent.seq last ((RunChannels.written s).drop ch.base)).take
      (5000-(EventLog.above RunEvent.seq last ((RunChannels.log s).take ch.base)).length)).filter
        (fun e => e.seq < first.seq) = [] := by
    simp only [List.filter_eq_nil_iff, decide_eq_true_eq, not_lt]
    intro e he
    obtain ⟨hed,hel⟩ := (EventLog.mem_above RunEvent.seq last _ e).mp (List.mem_of_mem_take he)
    exact hrest e hed hel
  rw [hnone, List.append_nil]

theorem prefill_inv {s : RunEvents.State} {f : Follower} (hs : RunChannels.Inv s)
    (status : Option RunStatus) (hf : Inv s none f) (past : List RunEvent) (c n : ℕ)
    (hpc : f.pc = .prefill past c n) (hc : Complete s f) : Inv s none (f.next s status) := by
  have hsent := (hf.waiting (fun st h => by simp [hpc] at h)).1
  obtain ⟨hne,ch,hch,hn,hp⟩ := hf.prefill past c n hpc
  have hmem := List.mem_of_getElem? hch
  have hpiece := hs.logged.piece ch hmem
  cases past with
  | nil => exact absurd rfl hne
  | cons first past =>
    have hpage : (s.persisted.rows.filter (fun r => f.last < r.1 ∧ r.1 < first.seq)).length ≤ 5000 := by
      simp only [Complete, hpc] at hc
      exact hc first rfl
    have hrows := prefill_rows hs f.last hsent.range ch hmem n first past hp.symm hpage
    have hall : EventLog.above RunEvent.seq f.last ((RunChannels.log s).take ch.base)++first::past =
        EventLog.above RunEvent.seq f.last ((RunChannels.log s).take (ch.base+n)) := by
      rw [take_piece n hpiece.2 hn, EventLog.above_append, ← hp]
    have hinc := above_increasing hs f.last (ch.base+n)
    rw [← hall] at hinc
    have hnew : ∀ e ∈ first::past, f.last < e.seq := fun e he =>
      ((EventLog.mem_above RunEvent.seq f.last _ e).mp (hp ▸ he)).2
    have hnext : f.next s status = { f.sendRows (EventLog.above RunEvent.seq f.last
        ((RunChannels.log s).take (ch.base+n))) with pc := .live c n } := by
      rw [← hall, ← sendRows_append, ← sendNew_eq_sendRows (first::past) _
        ((EventLog.increasing_append _ _ _).mp hinc).2.1 (above_reach f.last _ _ hinc hnew), ← hrows]
      simp [Follower.next, hpc]
    rw [hnext]
    exact deliver_to hs hsent c n ch hch hn

theorem receive_inv {s : RunEvents.State} {f : Follower} (hs : RunChannels.Inv s)
    (status : Option RunStatus) (hf : Inv s none f) (c n : ℕ) (hpc : f.pc = .live c n) :
    Inv s none (f.next s status) := by
  have hsent := (hf.waiting (fun st h => by simp [hpc] at h)).1
  obtain ⟨ch,hch,hn,hl⟩ := hf.live c n hpc
  have hpiece := (hs.logged.piece ch (List.mem_of_getElem? hch)).2
  cases he : ch.buffer[n]? with
  | none =>
    by_cases hend : ch.ended
    · have hnext : f.next s status = { f with pc := .catchup } := by
        simp [Follower.next, hpc, hch, he, hend]
      rw [hnext]
      exact Inv.plain (hsent.at_pc _) rfl (Or.inr (Or.inl rfl))
    · have hnext : f.next s status = f := by simp [Follower.next, hpc, hch, he, hend]
      rw [hnext]
      exact hf
  | some e =>
    have hlt := (List.getElem?_eq_some_iff.mp he).1
    -- above the subscriber, the log up to the next position holds at most the event received
    have htake : (RunChannels.log s).take (ch.base+(n+1)) =
        (RunChannels.log s).take (ch.base+n)++[e] := by
      rw [take_piece (n+1) hpiece hlt, take_piece n hpiece hn, List.append_assoc]
      congr 1
      rw [List.take_add_one, he]
      rfl
    have habove : EventLog.above RunEvent.seq f.last ((RunChannels.log s).take (ch.base+(n+1))) =
        if f.last < e.seq then [e] else [] := by
      rw [htake, EventLog.above_append, EventLog.above_eq_nil _ _ _ hl, List.nil_append]
      by_cases h : f.last < e.seq <;> simp [EventLog.above, h]
    have hnext : f.next s status = { f.sendRows (EventLog.above RunEvent.seq f.last
        ((RunChannels.log s).take (ch.base+(n+1)))) with pc := .live c (n+1) } := by
      rw [habove]
      by_cases h : f.last < e.seq <;>
        simp [Follower.next, hpc, hch, he, Follower.sendNew, h, Follower.sendRows]
    rw [hnext]
    exact deliver_to hs hsent c (n+1) ch hch hlt

theorem final_inv {s : RunEvents.State} {f : Follower} (hs : RunChannels.Inv s)
    (status : Option RunStatus) (hf : Inv s none f) (st : RunStatus) (hpc : f.pc = .final st)
    (hc : Complete s f) : Inv s (some (RunChannels.log s)) (f.next s status) := by
  have hsent := (hf.waiting (fun st h => by simp [hpc] at h)).1
  have hw := (RunChannels.all_written hs (hf.final st hpc)).1
  have hlen : (EventLog.above RunEvent.seq f.last (RunChannels.written s)).length ≤ 5000 := by
    simp only [Complete, hpc, OnePage] at hc
    rw [EventLog.above, RunChannels.written, List.filter_map, List.length_map]
    exact hc
  have hnext : f.next s status = { f with
      received := f.received++EventLog.above RunEvent.seq f.last (RunChannels.log s)
      pc := .done st } := by
    rw [← hw, ← List.take_of_length_le hlen, ← history_eq hs f.last hsent.range]
    simp [Follower.next, hpc]
  rw [hnext]
  refine ⟨fun h => absurd rfl (h st),fun _ _ _ h => by simp at h,fun _ _ h => by simp at h,
    fun _ h => by simp at h,fun _ _ l hl => ?_⟩
  rw [← Option.some.inj hl]
  refine ⟨log_increasing hs,?_⟩
  rw [hsent.received]
  exact EventLog.window_deliver_all RunEvent.seq _ _ _ (log_increasing hs) hsent.after_le

theorem next_inv {s : RunEvents.State} {f : Follower} (hs : RunChannels.Inv s)
    (status : Option RunStatus) (doneAt : Option (List RunEvent)) (hf : Inv s doneAt f)
    (hc : Complete s f) :
    Inv s (if finishing f then some (RunChannels.log s) else doneAt) (f.next s status) := by
  cases hpc : f.pc with
  | done st =>
    have hnext : f.next s status = f := by simp [Follower.next, hpc]
    simpa [hnext, finishing, hpc] using hf
  | final st =>
    have hd := (hf.waiting (fun st h => by simp [hpc] at h)).2
    subst hd
    simpa [finishing, hpc] using final_inv hs status hf st hpc hc
  | top =>
    have hd := (hf.waiting (fun st h => by simp [hpc] at h)).2
    subst hd
    simpa [finishing, hpc] using subscribe_inv hs status hf hpc hc
  | prefill past c n =>
    have hd := (hf.waiting (fun st h => by simp [hpc] at h)).2
    subst hd
    simpa [finishing, hpc] using prefill_inv hs status hf past c n hpc hc
  | live c n =>
    have hd := (hf.waiting (fun st h => by simp [hpc] at h)).2
    subst hd
    simpa [finishing, hpc] using receive_inv hs status hf c n hpc
  | catchup =>
    obtain ⟨hsent,hd⟩ := hf.waiting (fun st h => by simp [hpc] at h)
    have hnext : f.next s status = { f.sendRows (history f.last s.persisted) with pc := .status } := by
      simp [Follower.next, hpc]
    simp only [finishing, hpc, hnext]
    exact Inv.plain ((hsent.sendRows hs _ (prefix_history hs f.last hsent.range)).at_pc _) hd
      (Or.inr (Or.inr (Or.inl rfl)))
  | status =>
    obtain ⟨hsent,hd⟩ := hf.waiting (fun st h => by simp [hpc] at h)
    simp only [finishing, hpc, Follower.next, Bool.false_eq_true, if_false]
    split
    · exact Inv.plain (hsent.at_pc _) hd (Or.inr (Or.inr (Or.inr ⟨_,rfl⟩)))
    · exact Inv.plain (hsent.at_pc _) hd (Or.inl rfl)
  | checkLive st =>
    obtain ⟨hsent,hd⟩ := hf.waiting (fun st h => by simp [hpc] at h)
    simp only [finishing, hpc, Follower.next, Bool.false_eq_true, if_false]
    split
    · rename_i hh
      exact ⟨fun _ => ⟨hsent.at_pc _,hd⟩,fun _ _ _ h => by simp at h,fun _ _ h => by simp at h,
        fun _ _ => hh,fun _ h => by simp at h⟩
    · exact Inv.plain (hsent.at_pc _) hd (Or.inl rfl)

theorem lagged_inv {s : RunEvents.State} {f : Follower} (doneAt : Option (List RunEvent))
    (hf : Inv s doneAt f) : Inv s doneAt (f.lagged s) := by
  unfold Follower.lagged
  split
  · rename_i c n hpc
    obtain ⟨hsent,hd⟩ := hf.waiting (fun st h => by simp [hpc] at h)
    split
    · split
      · exact Inv.plain (hsent.at_pc _) hd (Or.inr (Or.inl rfl))
      · exact hf
    · exact hf
  · exact hf

structure StateInv (s : State) : Prop where
  events : RunChannels.Inv s.events
  follower : ∀ f ∈ s.follower, Inv s.events s.doneAt f
  alone : s.follower = none → s.doneAt = none

theorem start_inv : StateInv start :=
  ⟨RunChannels.start_inv,fun f h => by simp [start] at h,fun _ => rfl⟩

/-- Without a start, no channel appears in the hub. -/
theorem hub_none_kept (s : RunEvents.State) (a : RunEvents.Action) (ha : a ≠ .openChannel)
    (hh : s.hub = none) : (RunEvents.step s a).hub = none := by
  unfold RunEvents.step
  split
  · split
    · unfold advance
      split
      all_goals try split
      all_goals try split
      all_goals try split
      all_goals first | exact hh | rfl
    · exact hh
  · split
    · exact absurd rfl ha
    · simp [hh]
    · exact hh

theorem step_inv (s : State) (a : Action) (hs : StateInv s) (ho : Orderly s a) :
    StateInv (step s a) := by
  cases a with
  | setStatus status => exact ⟨hs.events,hs.follower,hs.alone⟩
  | events a =>
    obtain ⟨hinv,hg⟩ := RunChannels.step_inv s.events a hs.events ho.1
    refine ⟨hinv,fun f hf => (hs.follower f hf).grow hs.events hinv hg (fun hfin => ?_),hs.alone⟩
    refine hub_none_kept s.events a (fun he => ?_)
    simp [ho.2 he f hf] at hfin
  | follow after =>
    cases hf : s.follower with
    | some f => simpa [step, hf] using hs
    | none =>
      refine ⟨by simpa [step, hf] using hs.events,fun g hg => ?_,fun h => by simp [step, hf] at h⟩
      simp only [step, hf, Option.mem_def, Option.some.injEq] at hg
      subst hg
      simp only [step, hf, hs.alone hf]
      refine Inv.plain ⟨ho,le_refl _,Or.inl rfl,?_⟩ rfl (Or.inl rfl)
      have hw : EventLog.window RunEvent.seq after after (RunChannels.log s.events) = [] := by
        simp only [EventLog.window, List.filter_eq_nil_iff, decide_eq_true_eq]
        omega
      exact hw.symm
  | next =>
    cases hf : s.follower with
    | none => simpa [step, hf] using hs
    | some f =>
      have hn := next_inv hs.events s.status s.doneAt (hs.follower f hf) (ho f hf)
      refine ⟨by simpa [step, hf] using hs.events,fun g hg => ?_,fun h => by simp [step, hf] at h⟩
      simp only [step, hf, Option.mem_def, Option.some.injEq] at hg
      subst hg
      simpa [step, hf] using hn
  | lagged =>
    refine ⟨hs.events,fun g hg => ?_,fun h => ?_⟩
    · obtain ⟨f,hf,rfl⟩ := Option.map_eq_some_iff.mp hg
      exact lagged_inv s.doneAt (hs.follower f hf)
    · exact hs.alone (Option.map_eq_none_iff.mp h)

theorem StateInv.gap_free {s : State} (hs : StateInv s) : GapFree s := by
  intro f hf emitted he
  have hinv := hs.follower f hf
  have hdone : ∃ st, f.pc = .done st := by
    by_contra hn
    have := (hinv.waiting (fun st h => hn ⟨st,h⟩)).2
    simp [this] at he
  obtain ⟨st,hst⟩ := hdone
  obtain ⟨hinc,hrec⟩ := hinv.done st hst emitted he
  rw [hrec]
  refine ⟨EventLog.Increasing.above _ hinc _,fun e h => ?_,fun e h ha => ?_⟩
  · exact (EventLog.mem_above _ _ _ e).mp h
  · exact (EventLog.mem_above _ _ _ e).mpr ⟨h,ha⟩

/-- Over every orderly run: a subscriber that is done has received every event
above `after`, once and in order. -/
theorem gap_free_of_orderly (acts : List Action) (hg : Guarded step Orderly acts start) :
    GapFree (run step acts start) :=
  (guarded_invariant step Orderly StateInv step_inv acts start start_inv hg).gap_free

def pieces (n : ℕ) : List Action := List.replicate n .next

def execution (i : ℕ) : List Action := (RunNumbering.oneEvent i).map .events

theorem replay_then_live_is_gap_free :
    Guarded step Orderly
      (execution 0++[Action.events .openChannel,.events (.readLastSeq 1),
        .events (.push 1 (.other "ack" "{}") 0),.events (.publish 1),.follow 0]++pieces 2++
      [Action.events (.sendersGone 1),.events (.writeBatch 1),.events (.close 1),
        .setStatus (some .completed)]++pieces 5) start ∧
    GapFree (run step
      (execution 0++[Action.events .openChannel,.events (.readLastSeq 1),
        .events (.push 1 (.other "ack" "{}") 0),.events (.publish 1),.follow 0]++pieces 2++
      [Action.events (.sendersGone 1),.events (.writeBatch 1),.events (.close 1),
        .setStatus (some .completed)]++pieces 5) start) :=
  have hg : Guarded step Orderly
      (execution 0++[Action.events .openChannel,.events (.readLastSeq 1),
        .events (.push 1 (.other "ack" "{}") 0),.events (.publish 1),.follow 0]++pieces 2++
      [Action.events (.sendersGone 1),.events (.writeBatch 1),.events (.close 1),
        .setStatus (some .completed)]++pieces 5) start := by decide +kernel
  ⟨hg,gap_free_of_orderly _ hg⟩

/-- The subscriber arrives when the resumed execution has published nothing:
the events of the first one stay in the database. -/
def followBeforeFirstEvent : List Action :=
  execution 0++[Action.events .openChannel,.events (.readLastSeq 1),.follow 0,.next,
    .events (.push 1 (.other "ack" "{}") 0),.events (.publish 1),.next,
    .events (.sendersGone 1),.events (.writeBatch 1),.events (.close 1),
    .setStatus (some .completed)]++pieces 5

theorem follow_of_resumed_run_has_gap : ¬ ∀ acts, GapFree (run step acts start) := by
  intro h
  exact absurd (h followBeforeFirstEvent) (by decide +kernel)

end DevForge.RunFollow
