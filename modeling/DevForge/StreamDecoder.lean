import Mathlib.Data.List.Basic

/-!
# Decoding a stream unit by unit

Symbols are written as words of units, none of which begins another word. A decoder keeps the
units of an unfinished word from one piece of the stream to the next, so that it reads the
same symbols however the stream is cut; a word longer than the limit is read as junk.
-/

set_option autoImplicit false

namespace StreamDecoder

variable {α β : Type*} (word : List β → Option α) (junk : α) (limit : ℕ)

/-- What is left of an unfinished word, and the symbols read. -/
def decode : List β → List β → List β × List α
  | pending, [] => (pending,[])
  | pending, b::bs => match word (pending++[b]) with
    | some a => ((decode [] bs).1,a::(decode [] bs).2)
    | none =>
      if limit ≤ pending.length+1 then ((decode [] bs).1,junk::(decode [] bs).2)
      else decode (pending++[b]) bs

/-- At the end of the stream, an unfinished word is junk. -/
def finish (pending : List β) : List α := if pending.isEmpty then [] else [junk]

theorem decode_append (pending bs bs' : List β) :
    decode word junk limit pending (bs++bs') =
      ((decode word junk limit (decode word junk limit pending bs).1 bs').1,
        (decode word junk limit pending bs).2++
          (decode word junk limit (decode word junk limit pending bs).1 bs').2) := by
  induction bs generalizing pending with
  | nil => rfl
  | cons b bs ih =>
    simp only [List.cons_append, decode]
    split
    · simp [ih]
    · split
      · simp [ih]
      · exact ih _

/-- The words of symbols: each is read as its symbol, no part of one is a word. -/
structure Code (encode : α → List β) : Prop where
  nonempty : ∀ a, encode a ≠ []
  whole : ∀ a, word (encode a) = some a
  part : ∀ a p q, encode a = p++q → q ≠ [] → word p = none
  short : ∀ a, (encode a).length ≤ limit

variable {word limit} {encode : α → List β}

/-- A word that has begun is read to its end. -/
theorem decode_word (hc : Code word limit encode) (a : α) (p q r : List β) (h : encode a = p++q)
    (hq : q ≠ []) : decode word junk limit p (q++r) =
      ((decode word junk limit [] r).1,a::(decode word junk limit [] r).2) := by
  induction q generalizing p with
  | nil => exact absurd rfl hq
  | cons b q ih =>
    simp only [List.cons_append, decode]
    cases q with
    | nil =>
      rw [← h, hc.whole a]
      rfl
    | cons b' q =>
      have h' : encode a = (p++[b])++(b'::q) := by simpa using h
      have hlen := hc.short a
      rw [h', List.length_append, List.length_append, List.length_cons] at hlen
      rw [hc.part a (p++[b]) (b'::q) h' (by simp)]
      simp only
      rw [if_neg (by simp at hlen; omega)]
      exact ih (p++[b]) h' (by simp)

theorem decode_words (hc : Code word limit encode) (as : List α) (bs : List β) :
    decode word junk limit [] (as.flatMap encode++bs) =
      ((decode word junk limit [] bs).1,as++(decode word junk limit [] bs).2) := by
  induction as with
  | nil => rfl
  | cons a as ih =>
    rw [List.flatMap_cons, List.append_assoc, decode_word junk hc a [] (encode a) _ rfl (hc.nonempty a), ih]
    rfl

/-- A word that has begun and does not end stays pending. -/
theorem decode_part (hc : Code word limit encode) (a : α) (p q r : List β) (h : encode a = p++q++r)
    (hr : r ≠ []) : decode word junk limit p q = (p++q,[]) := by
  induction q generalizing p with
  | nil => simp [decode]
  | cons b q ih =>
    have h' : encode a = (p++[b])++q++r := by simpa using h
    have hlen := hc.short a
    have hpos := List.length_pos_iff.mpr hr
    rw [h', List.length_append, List.length_append, List.length_append] at hlen
    simp only [decode]
    rw [hc.part a (p++[b]) (q++r) (by simpa using h) (by simp [hr])]
    simp only
    rw [if_neg (by simp at hlen; omega), ih (p++[b]) h']
    simp

/-- What has been read of the words of a text: the text up to somewhere, and a part of the
word that comes next. -/
theorem decode_prefix (hc : Code word limit encode) (as : List α) (bs : List β)
    (h : bs <+: as.flatMap encode) : ∃ done pending, bs = done.flatMap encode++pending ∧
      decode word junk limit [] bs = (pending,done) ∧
      ((pending = [] ∧ done <+: as) ∨
        ∃ a r, done++[a] <+: as ∧ encode a = pending++r ∧ r ≠ [] ∧ pending ≠ []) := by
  induction as generalizing bs with
  | nil =>
    have hnil : bs = [] := by simpa using h
    subst hnil
    exact ⟨[],[],rfl,rfl,Or.inl ⟨rfl,List.prefix_refl _⟩⟩
  | cons a as ih =>
    rw [List.flatMap_cons] at h
    by_cases hwhole : encode a <+: bs
    · obtain ⟨bs',rfl⟩ := hwhole
      obtain ⟨done,pending,hbs,hdecode,hnext⟩ := ih bs' ((List.prefix_append_right_inj _).mp h)
      refine ⟨a::done,pending,?_,?_,?_⟩
      · rw [List.flatMap_cons, List.append_assoc, ← hbs]
      · rw [decode_word junk hc a [] (encode a) bs' rfl (hc.nonempty a), hdecode]
      · rcases hnext with ⟨hp,hd⟩ | ⟨c,r,hd,hrest⟩
        · exact Or.inl ⟨hp,List.cons_prefix_cons.mpr ⟨rfl,hd⟩⟩
        · exact Or.inr ⟨c,r,List.cons_prefix_cons.mpr ⟨rfl,hd⟩,hrest⟩
    · have hpart := (List.prefix_or_prefix_of_prefix h (List.prefix_append _ _)).resolve_right hwhole
      obtain ⟨r,hr⟩ := hpart
      have hrest : r ≠ [] := by
        rintro rfl
        rw [List.append_nil] at hr
        exact hwhole (hr ▸ List.prefix_refl _)
      by_cases hempty : bs = []
      · subst hempty
        exact ⟨[],[],rfl,rfl,Or.inl ⟨rfl,List.nil_prefix⟩⟩
      · refine ⟨[],bs,rfl,?_,Or.inr ⟨a,r,?_,hr.symm,hrest,hempty⟩⟩
        · have hdecode := decode_part junk hc a [] bs r hr.symm hrest
          simpa using hdecode
        · exact List.cons_prefix_cons.mpr ⟨rfl,List.nil_prefix⟩

end StreamDecoder
