import DevForge.RunEvents

/-!
# Merging of the streamed text

Between two structural events the sequencer keeps the deltas of one round in
a buffer and emits them as one event. Whatever is pushed and whenever the
buffer is flushed, the emitted events stand, in order, for all that was
pushed before the deltas that still wait.
-/

set_option autoImplicit false

namespace DevForge.DeltaMerging
open RunEvents

inductive Op where
  | push (ev : AgentEvent) (now : Instant)
  | flush
  deriving DecidableEq, Repr

def apply : Op → Sequencer → List RunEvent × Sequencer
  | .push ev now, q => q.push ev now
  | .flush, q => q.flushDelta

def run : List Op → Sequencer → List RunEvent × Sequencer
  | [], q => ([],q)
  | op::ops, q => ((apply op q).1++(run ops (apply op q).2).1,(run ops (apply op q).2).2)

def pushedBy : Op → List AgentEvent
  | .push ev _ => [ev]
  | .flush => []

def pushed (ops : List Op) : List AgentEvent := ops.flatMap pushedBy

def concat : List String → String
  | [] => ""
  | t::ts => t++concat ts

/-- The deltas of one round with these texts. -/
def pieces (round : ℕ) (texts : List String) : List AgentEvent :=
  texts.map (fun text => .delta text round)

def isDelta : AgentEvent → Bool
  | .delta _ _ => true
  | _ => false

/-- The emitted events with each merged delta replaced by its parts. -/
inductive Merged : List AgentEvent → List RunEvent → Prop
  | nil : Merged [] []
  | delta (seq : ℤ) (round : ℕ) (texts : List String) (evs : List AgentEvent)
      (out : List RunEvent) : texts ≠ [] → Merged evs out →
      Merged (pieces round texts++evs) (⟨seq,"delta",.delta (concat texts) round⟩::out)
  | event (seq : ℤ) (ev : AgentEvent) (evs : List AgentEvent) (out : List RunEvent) :
      isDelta ev = false → Merged evs out →
      Merged (ev::evs) (⟨seq,(toPayload ev).1,(toPayload ev).2⟩::out)

/-- The deltas that wait in the buffer. -/
def Waiting (q : Sequencer) (evs : List AgentEvent) : Prop :=
  match q.delta with
  | none => evs = []
  | some (text,round,_) => ∃ texts, texts ≠ [] ∧ text = concat texts ∧ evs = pieces round texts

def textOf (round : ℕ) : AgentEvent → String
  | .delta text r => if r = round then text else ""
  | _ => ""

/-- The text of the pushed deltas of a round. -/
def pushedText (round : ℕ) (evs : List AgentEvent) : String := concat (evs.map (textOf round))

def textEmitted (round : ℕ) (e : RunEvent) : String :=
  match e.payload with
  | .delta text r => if r = round then text else ""
  | _ => ""

/-- The text of the emitted deltas of a round. -/
def emittedText (round : ℕ) (out : List RunEvent) : String :=
  concat (out.map (textEmitted round))

def waitingText (round : ℕ) (q : Sequencer) : String :=
  match q.delta with
  | none => ""
  | some (text,r,_) => if r = round then text else ""

theorem concat_append (ts us : List String) : concat (ts++us) = concat ts++concat us := by
  induction ts with
  | nil => simp [concat]
  | cons t ts ih => simp [concat, ih, String.append_assoc]

theorem pushedText_append (round : ℕ) (evs rest : List AgentEvent) :
    pushedText round (evs++rest) = pushedText round evs++pushedText round rest := by
  rw [pushedText, List.map_append, concat_append]
  rfl

theorem pushedText_pieces (round r : ℕ) (texts : List String) :
    pushedText round (pieces r texts) = if r = round then concat texts else "" := by
  induction texts with
  | nil => simp [pieces, pushedText, concat]
  | cons t ts ih =>
    have hc : pushedText round (pieces r (t::ts)) =
        textOf round (.delta t r)++pushedText round (pieces r ts) := rfl
    rw [hc, ih]
    by_cases hr : r = round <;> simp [textOf, concat, hr]

theorem run_append (ops rest : List Op) (q : Sequencer) :
    run (ops++rest) q =
      ((run ops q).1++(run rest (run ops q).2).1,(run rest (run ops q).2).2) := by
  induction ops generalizing q with
  | nil => rfl
  | cons op ops ih => simp [run, ih]

theorem Merged.append {evs rest : List AgentEvent} {out more : List RunEvent}
    (h : Merged evs out) (hr : Merged rest more) : Merged (evs++rest) (out++more) := by
  induction h with
  | nil => exact hr
  | delta seq round texts evs out ht _ ih =>
    rw [List.append_assoc]
    exact .delta seq round texts _ _ ht ih
  | event seq ev evs out hd _ ih => exact .event seq ev _ _ hd ih

/-- A merged delta has the text of its parts. -/
theorem Merged.text {evs : List AgentEvent} {out : List RunEvent} (h : Merged evs out)
    (round : ℕ) : emittedText round out = pushedText round evs := by
  induction h with
  | nil => rfl
  | delta seq r texts evs out _ _ ih =>
    rw [pushedText_append, pushedText_pieces, ← ih]
    rfl
  | event seq ev evs out hd _ ih =>
    have ht : textEmitted round ⟨seq,(toPayload ev).1,(toPayload ev).2⟩ = textOf round ev := by
      cases ev with
      | delta text r => cases hd
      | milestone label status => rfl
      | other type payload => rfl
    show textEmitted round _++emittedText round out = textOf round ev++pushedText round evs
    rw [ht, ih]

theorem waiting_none {q : Sequencer} (hq : q.delta = none) : Waiting q [] := by
  unfold Waiting
  rw [hq]

theorem waiting_text {q : Sequencer} {evs : List AgentEvent} (h : Waiting q evs) (round : ℕ) :
    waitingText round q = pushedText round evs := by
  unfold Waiting at h
  unfold waitingText
  split at h
  · rw [h]
    rfl
  · rename_i text r now _
    cases h with
    | intro texts ht => rw [ht.2.2, pushedText_pieces, ht.2.1]

theorem flush_delta (q : Sequencer) : q.flushDelta.2.delta = none := by
  unfold Sequencer.flushDelta
  split
  · assumption
  · rfl

/-- Flushing emits what waits. -/
theorem flush_merged {q : Sequencer} {evs : List AgentEvent} (h : Waiting q evs) :
    Merged evs q.flushDelta.1 := by
  cases hq : q.delta with
  | none =>
    have hevs : evs = [] := by simpa only [Waiting, hq] using h
    have hflush : q.flushDelta.1 = [] := by simp only [Sequencer.flushDelta, hq]
    rw [hevs, hflush]
    exact .nil
  | some d =>
    obtain ⟨text,r,now⟩ := d
    have hwaiting : ∃ texts, texts ≠ [] ∧ text = concat texts ∧ evs = pieces r texts := by
      simpa only [Waiting, hq] using h
    have hflush : q.flushDelta.1 = [⟨q.nextSeq,"delta",.delta text r⟩] := by
      simp only [Sequencer.flushDelta, hq, Sequencer.make]
    cases hwaiting with
    | intro texts ht =>
      rw [hflush, ht.2.2, ht.2.1, ← List.append_nil (pieces r texts)]
      exact .delta q.nextSeq r texts [] [] ht.1 .nil

/-- A delta of the round that waits joins the buffer, any other delta empties it. -/
theorem pushDelta_cases (text : String) (round : ℕ) (now : Instant) (q : Sequencer) :
    (∃ d, q.delta = some d ∧ d.2.1 = round ∧ q.pushDelta text round now =
      ([],{ q with delta := some (d.1++text,d.2.1,d.2.2) })) ∨
    q.pushDelta text round now =
      (q.flushDelta.1,{ q.flushDelta.2 with delta := some (text,round,now) }) := by
  cases hq : q.delta with
  | none => exact Or.inr (by rw [Sequencer.pushDelta, hq])
  | some d =>
    by_cases hr : d.2.1 = round
    · exact Or.inl ⟨d,rfl,hr,by simp [Sequencer.pushDelta, hq, hr]⟩
    · exact Or.inr (by simp [Sequencer.pushDelta, hq, hr])

theorem pushDelta_merged {q : Sequencer} {evs : List AgentEvent} (h : Waiting q evs)
    (text : String) (round : ℕ) (now : Instant) :
    ∃ gone rest, evs++[.delta text round] = gone++rest ∧
      Merged gone (q.pushDelta text round now).1 ∧
      Waiting (q.pushDelta text round now).2 rest := by
  rcases pushDelta_cases text round now q with ⟨d,hq,hr,hp⟩ | hp
  · rw [hp]
    unfold Waiting at h
    rw [hq] at h
    cases h with
    | intro texts ht =>
      exact ⟨[],_,rfl,.nil,texts++[text],by simp,
        by simp [concat_append, concat, ht.2.1],by simp [ht.2.2, pieces, hr]⟩
  · rw [hp]
    exact ⟨evs,_,rfl,flush_merged h,[text],by simp,by simp [concat],rfl⟩

theorem noteMilestone_delta (ev : AgentEvent) (q : Sequencer) :
    (q.noteMilestone ev).delta = q.delta := by
  cases ev <;> rfl

/-- A structural event leaves nothing waiting. -/
theorem push_event {q : Sequencer} {evs : List AgentEvent} (h : Waiting q evs)
    (ev : AgentEvent) (now : Instant) (hd : isDelta ev = false) :
    Merged (evs++[ev]) (q.push ev now).1 ∧ (q.push ev now).2.delta = none := by
  have hm := (flush_merged h).append
    (.event (q.flushDelta.2.noteMilestone ev).nextSeq ev [] [] hd .nil)
  have hn := (noteMilestone_delta ev q.flushDelta.2).trans (flush_delta q)
  cases ev with
  | delta text round => cases hd
  | milestone label status => exact ⟨hm,hn⟩
  | other type payload => exact ⟨hm,hn⟩

/-- One call: what waited and what is pushed is emitted up to what waits next. -/
theorem apply_merged (op : Op) {q : Sequencer} {evs : List AgentEvent} (h : Waiting q evs) :
    ∃ gone rest, evs++pushedBy op = gone++rest ∧ Merged gone (apply op q).1 ∧
      Waiting (apply op q).2 rest := by
  cases op with
  | flush => exact ⟨evs,[],rfl,flush_merged h,waiting_none (flush_delta q)⟩
  | push ev now =>
    by_cases hd : isDelta ev = false
    · have hp := push_event h ev now hd
      exact ⟨evs++[ev],[],by simp [pushedBy],hp.1,waiting_none hp.2⟩
    · cases ev with
      | delta text round => exact pushDelta_merged h text round now
      | milestone label status => exact absurd rfl hd
      | other type payload => exact absurd rfl hd

theorem run_merged (ops : List Op) (q : Sequencer) (evs : List AgentEvent) (h : Waiting q evs) :
    ∃ gone rest, evs++pushed ops = gone++rest ∧ Merged gone (run ops q).1 ∧
      Waiting (run ops q).2 rest := by
  induction ops generalizing q evs with
  | nil => exact ⟨[],evs,by simp [pushed],.nil,h⟩
  | cons op ops ih =>
    obtain ⟨gone,rest,he,hm,hw⟩ := apply_merged op h
    obtain ⟨gone',rest',he',hm',hw'⟩ := ih _ rest hw
    have hs : evs++pushed (op::ops) = gone++(rest++pushed ops) := by
      rw [← List.append_assoc, ← he]
      simp [pushed]
    rw [he', ← List.append_assoc] at hs
    exact ⟨gone++gone',rest',hs,hm.append hm',hw'⟩

/-- Consecutive numbers from a first one. -/
def Numbered : ℤ → List RunEvent → Prop
  | _, [] => True
  | n, e::es => e.seq = n ∧ Numbered (n+1) es

theorem numbered_append (n : ℤ) (es fs : List RunEvent) (he : Numbered n es)
    (hf : Numbered (n+es.length) fs) : Numbered n (es++fs) := by
  induction es generalizing n with
  | nil => simpa using hf
  | cons e es ih =>
    apply And.intro he.1
    apply ih (n+1) he.2
    rw [show n+1+(es.length : ℤ) = n+((e::es).length : ℤ) by simp; omega]
    exact hf

theorem numbered_range (n : ℤ) (es : List RunEvent) (h : Numbered n es) :
    es.map RunEvent.seq = (List.range es.length).map (fun k : ℕ => n+(k : ℤ)) := by
  induction es generalizing n with
  | nil => rfl
  | cons e es ih =>
    rw [List.map_cons, ih (n+1) h.2, h.1, List.length_cons, List.range_succ_eq_map]
    rw [List.map_cons, List.map_map]
    congr 1
    · simp
    · apply List.map_congr_left
      intro k _
      simp only [Function.comp]
      omega

theorem flush_numbered (q : Sequencer) : Numbered q.nextSeq q.flushDelta.1 ∧
    q.flushDelta.2.nextSeq = q.nextSeq+q.flushDelta.1.length := by
  unfold Sequencer.flushDelta
  split
  · simp [Numbered]
  · simp [Numbered, Sequencer.make]

theorem apply_numbered (op : Op) (q : Sequencer) : Numbered q.nextSeq (apply op q).1 ∧
    (apply op q).2.nextSeq = q.nextSeq+(apply op q).1.length := by
  have hf := flush_numbered q
  have hevent (ev : AgentEvent) : Numbered q.nextSeq
      (q.flushDelta.1++[((q.flushDelta.2.noteMilestone ev).make (toPayload ev).1
        (toPayload ev).2).1]) ∧ (q.flushDelta.2.noteMilestone ev).nextSeq+1 =
      q.nextSeq+((q.flushDelta.1.length+1 : ℕ) : ℤ) := by
    have hn : (q.flushDelta.2.noteMilestone ev).nextSeq = q.nextSeq+q.flushDelta.1.length := by
      rw [← hf.2]
      cases ev <;> rfl
    exact ⟨numbered_append _ _ _ hf.1 ⟨hn,trivial⟩,by rw [hn]; push_cast; omega⟩
  cases op with
  | flush => exact hf
  | push ev now =>
    cases ev with
    | delta text round =>
      show Numbered _ (q.pushDelta text round now).1 ∧
        (q.pushDelta text round now).2.nextSeq = _+((q.pushDelta text round now).1.length : ℤ)
      rcases pushDelta_cases text round now q with ⟨d,hq,hr,hp⟩ | hp
      · simp [hp, Numbered]
      · rw [hp]
        exact hf
    | milestone label status =>
      have he := hevent (.milestone label status)
      exact ⟨he.1,he.2.trans (by simp [apply, Sequencer.push])⟩
    | other type payload =>
      have he := hevent (.other type payload)
      exact ⟨he.1,he.2.trans (by simp [apply, Sequencer.push])⟩

theorem run_numbered (ops : List Op) (q : Sequencer) : Numbered q.nextSeq (run ops q).1 := by
  induction ops generalizing q with
  | nil => trivial
  | cons op ops ih =>
    have ha := apply_numbered op q
    have hr := ih (apply op q).2
    rw [ha.2] at hr
    exact numbered_append _ _ _ ha.1 hr

/-- The emitted events have consecutive numbers and stand for all that was pushed
before what waits; once the buffer is flushed nothing is missing. -/
theorem deltas_merged (start : ℤ) (ops : List Op) :
    (run ops (.startingAt start)).1.map RunEvent.seq =
      (List.range (run ops (.startingAt start)).1.length).map (fun k : ℕ => start+(k : ℤ)) ∧
    (∃ gone rest, pushed ops = gone++rest ∧ Merged gone (run ops (.startingAt start)).1 ∧
      Waiting (run ops (.startingAt start)).2 rest) ∧
    (∀ round, emittedText round (run ops (.startingAt start)).1++
      waitingText round (run ops (.startingAt start)).2 = pushedText round (pushed ops)) ∧
    Merged (pushed ops) (run (ops++[.flush]) (.startingAt start)).1 ∧
    ∀ round, emittedText round (run (ops++[.flush]) (.startingAt start)).1 =
      pushedText round (pushed ops) := by
  obtain ⟨gone,rest,he,hm,hw⟩ := run_merged ops (.startingAt start) [] (waiting_none rfl)
  rw [List.nil_append] at he
  have hall : Merged (pushed ops) (run (ops++[.flush]) (.startingAt start)).1 := by
    rw [run_append, he]
    apply hm.append
    simpa [run, apply] using flush_merged hw
  have htext (round : ℕ) : emittedText round (run ops (.startingAt start)).1++
      waitingText round (run ops (.startingAt start)).2 = pushedText round (pushed ops) := by
    rw [he, pushedText_append, hm.text, waiting_text hw]
  exact ⟨numbered_range _ _ (run_numbered ops (.startingAt start)),⟨gone,rest,he,hm,hw⟩,htext,hall,
    hall.text⟩

/-- A delta that still waits is missing from the emitted text. -/
theorem delta_waits : ¬ ∀ (start : ℤ) (ops : List Op) (round : ℕ),
    emittedText round (run ops (.startingAt start)).1 = pushedText round (pushed ops) := by
  intro h
  exact absurd (h 1 [.push (.delta "Bon" 1) 0] 1) (by decide)

end DevForge.DeltaMerging
