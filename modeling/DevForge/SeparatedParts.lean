import Mathlib.Data.List.Basic

/-!
# Parts with a separator

A list of parts is written as one text, each part followed by a separator.
The first part can be read back as long as it does not hold the separator.
-/

set_option autoImplicit false

namespace SeparatedParts

variable {α : Type*} (sep : α)

def encode : List (List α) → List α
  | [] => []
  | p::ps => p++sep::encode ps

/-- The first separator splits a text. -/
theorem sep_append_inj {p q l m : List α} (hp : sep ∉ p) (hq : sep ∉ q)
    (h : p++sep::l = q++sep::m) : p = q ∧ l = m := by
  induction p generalizing q with
  | nil =>
    cases q with
    | nil => exact ⟨rfl,(List.cons.inj h).2⟩
    | cons b q => exact absurd (List.mem_cons.mpr (Or.inl (List.cons.inj h).1)) hq
  | cons a p ih =>
    cases q with
    | nil => exact absurd (List.mem_cons.mpr (Or.inl (List.cons.inj h).1.symm)) hp
    | cons b q =>
      obtain ⟨rfl,ht⟩ := List.cons.inj h
      obtain ⟨rfl,he⟩ := ih (fun hm => hp (List.mem_cons_of_mem _ hm))
        (fun hm => hq (List.mem_cons_of_mem _ hm)) ht
      exact ⟨rfl,he⟩

theorem encode_cons_inj {p q : List α} {ps qs : List (List α)} (hp : sep ∉ p) (hq : sep ∉ q)
    (h : encode sep (p::ps) = encode sep (q::qs)) : p = q ∧ encode sep ps = encode sep qs :=
  sep_append_inj sep hp hq h

/-- The last separator splits a text. -/
theorem append_sep_inj {l m p q : List α} (hp : sep ∉ p) (hq : sep ∉ q)
    (h : l++sep::p = m++sep::q) : l = m ∧ p = q := by
  have hr := congrArg List.reverse h
  simp only [List.reverse_append, List.reverse_cons, List.append_assoc, List.singleton_append] at hr
  obtain ⟨h1,h2⟩ := sep_append_inj sep (by simpa using hp) (by simpa using hq) hr
  exact ⟨List.reverse_injective h2,List.reverse_injective h1⟩

/-- A last part is told apart from another, whatever stands before it. -/
theorem encode_last_inj {ps qs : List (List α)} {a b : α}
    (h : encode sep (ps++[[a]]) = encode sep (qs++[[b]])) : a = b := by
  have hend : ∀ (rs : List (List α)) (c : α), ∃ l, encode sep (rs++[[c]]) = l++[c,sep] := by
    intro rs c
    induction rs with
    | nil => exact ⟨[],rfl⟩
    | cons r rs ih =>
      obtain ⟨l,hl⟩ := ih
      refine ⟨r++sep::l,?_⟩
      simp [encode, hl]
  obtain ⟨l,hl⟩ := hend ps a
  obtain ⟨m,hm⟩ := hend qs b
  rw [hl, hm] at h
  exact (List.cons.inj (List.append_inj_right' h rfl)).1

/-- A text without a separator is found on one side of it. -/
theorem infix_append_sep {part a b : List α} (h : sep ∉ part) :
    part <:+: a++sep::b ↔ part <:+: a ∨ part <:+: b := by
  constructor
  · rintro ⟨x,y,hxy⟩
    obtain ⟨c,hc,-⟩ | ⟨c,hc,hy⟩ := List.append_eq_append_iff.mp hxy
    · exact .inl ⟨x,c,hc.symm⟩
    · cases c with
      | nil => exact .inl ⟨x,[],by simpa using hc⟩
      | cons e c =>
        rw [List.cons_append, List.cons.injEq] at hy
        obtain ⟨rfl,hb⟩ := hy
        obtain ⟨d,-,hd⟩ | ⟨d,-,hd⟩ := List.append_eq_append_iff.mp hc
        · exact absurd (hd ▸ List.mem_append_right d List.mem_cons_self) h
        · cases d with
          | nil =>
            have hpart : sep::c = part := hd
            exact absurd (hpart ▸ List.mem_cons_self) h
          | cons e d =>
            rw [List.cons_append, List.cons.injEq] at hd
            refine .inr ⟨d,y,?_⟩
            rw [hb, hd.2]
  · rintro (⟨x,y,rfl⟩ | ⟨x,y,rfl⟩)
    · exact ⟨x,y++sep::b,by simp⟩
    · exact ⟨a++sep::x,y,by simp⟩

/-! ## Splitting and joining -/

theorem dropWhile_ne_eq_cons [DecidableEq α] {l : List α} (h : sep ∈ l) :
    l.dropWhile (· ≠ sep) = sep::(l.dropWhile (· ≠ sep)).tail := by
  induction l with
  | nil => cases h
  | cons a l ih =>
    by_cases ha : a = sep
    · subst ha
      rw [List.dropWhile_cons_of_neg (by simp), List.tail_cons]
    · have hmem := (List.mem_cons.mp h).resolve_left (fun heq => ha heq.symm)
      rw [List.dropWhile_cons_of_pos (by simpa using ha)]
      exact ih hmem

/-- Splitting gives back the parts that each follow a separator. -/
theorem splitOn_parts [DecidableEq α] {p : List α} {ps : List (List α)} (hp : sep ∉ p) (hps : ∀ q ∈ ps, sep ∉ q) :
    (p++ps.flatMap (sep::·)).splitOn sep = p::ps := by
  induction ps generalizing p with
  | nil => rw [List.flatMap_nil, List.append_nil, List.splitOn_eq_singleton hp]
  | cons q ps ih =>
    have hrest := ih (hps q List.mem_cons_self) (fun r hr => hps r (List.mem_cons_of_mem q hr))
    rw [List.flatMap_cons, List.cons_append, List.splitOn_append_cons_self, List.splitOn_eq_singleton hp, hrest]
    rfl

/-- What is not a separator stands in one of the parts. -/
theorem exists_part [DecidableEq α] {a : α} {l : List α} (ha : a ∈ l) (hne : a ≠ sep) :
    ∃ part ∈ l.splitOn sep, a ∈ part := by
  rw [List.splitOn_eq_splitOnP]
  induction l with
  | nil => cases ha
  | cons b l ih =>
    obtain ⟨first,rest,hl⟩ := List.exists_cons_of_ne_nil (List.splitOnP_ne_nil (· == sep) l)
    rw [List.splitOnP_cons_eq_if_modifyHead]
    rw [hl] at ih ⊢
    split
    · next hb =>
      have hmem := (List.mem_cons.mp ha).resolve_left (fun heq => hne (heq.trans (by simpa using hb)))
      obtain ⟨part,hpart,hin⟩ := ih hmem
      exact ⟨part,List.mem_cons_of_mem _ hpart,hin⟩
    · rw [List.modifyHead_cons]
      rcases List.mem_cons.mp ha with rfl | hmem
      · exact ⟨a::first,List.mem_cons_self,List.mem_cons_self⟩
      · obtain ⟨part,hpart,hin⟩ := ih hmem
        rcases List.mem_cons.mp hpart with rfl | hpart
        · exact ⟨b::part,List.mem_cons_self,List.mem_cons_of_mem b hin⟩
        · exact ⟨part,List.mem_cons_of_mem _ hpart,hin⟩

theorem takeWhile_ne_append [DecidableEq α] {l : List α} (h : sep ∉ l) (m : List α) :
    (l++sep::m).takeWhile (· ≠ sep) = l := by
  rw [List.takeWhile_append_of_pos, List.takeWhile_cons_of_neg (by simp), List.append_nil]
  intro a ha
  exact decide_eq_true (fun heq => h (heq ▸ ha))

theorem mem_splitOnP {p : α → Bool} {l part : List α} (h : part ∈ l.splitOnP p) : ∀ a ∈ part, p a = false := by
  induction l generalizing part with
  | nil =>
    rw [List.splitOnP_nil, List.mem_singleton] at h
    simp [h]
  | cons b l ih =>
    rw [List.splitOnP_cons_eq_if_modifyHead] at h
    split at h
    · obtain rfl | h := List.mem_cons.mp h
      · simp
      · exact ih h
    · next hb =>
      cases hl : l.splitOnP p with
      | nil => exact absurd hl (List.splitOnP_ne_nil p l)
      | cons first rest =>
        rw [hl, List.modifyHead_cons, List.mem_cons] at h
        obtain rfl | h := h
        · intro a ha
          obtain rfl | ha := List.mem_cons.mp ha
          · simpa using hb
          · exact ih (hl ▸ List.mem_cons_self) a ha
        · exact ih (hl ▸ List.mem_cons_of_mem _ h)

/-- Joining keeps every part whole. -/
theorem infix_intercalate {part : List α} {parts : List (List α)} (h : part ∈ parts) :
    part <:+: [sep].intercalate parts := by
  induction parts with
  | nil => cases h
  | cons p parts ih =>
    cases parts with
    | nil =>
      have heq : [sep].intercalate [p] = part := by
        rw [List.intercalate_singleton, List.mem_singleton.mp h]
      exact ⟨[],[],by simp [heq]⟩
    | cons q parts =>
      rw [List.intercalate_cons_cons]
      obtain rfl | h := List.mem_cons.mp h
      · exact ⟨[],[sep]++[sep].intercalate (q::parts),by simp⟩
      · obtain ⟨x,y,hxy⟩ := ih h
        exact ⟨p++[sep]++x,y,by simp [← hxy]⟩

end SeparatedParts
