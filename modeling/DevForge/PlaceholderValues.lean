import DevForge.WakeGate

/-!
# Placeholders in the arguments of a tool call

A call that a model writes as text may keep a name in angle brackets where a
value is to be filled in. Such entries are taken out of the objects, at every
depth, by the first and the last sign of the string.
-/

set_option autoImplicit false

namespace DevForge.PlaceholderValues
open WakeGate (Json)

def dropped (drop : String → Bool) : Json → Bool
  | .str s => drop s
  | _ => false

mutual

/-- The value without the entries of its objects whose string is to be dropped. Strings in arrays
stay. -/
def removeEntries (drop : String → Bool) : Json → Json
  | .arr vs => .arr (removeItems drop vs)
  | .obj ms => .obj (removeMembers drop ms)
  | v => v

def removeItems (drop : String → Bool) : List Json → List Json
  | [] => []
  | v::vs => removeEntries drop v::removeItems drop vs

def removeMembers (drop : String → Bool) : List (String × Json) → List (String × Json)
  | [] => []
  | (k,v)::ms =>
    if dropped drop v then removeMembers drop ms else (k,removeEntries drop v)::removeMembers drop ms

end

/-- `starts_with('<')` and `ends_with('>')`. -/
def bracketed (s : String) : Bool := s.toList.head? = some '<' && s.toList.getLast? = some '>'

def stripPlaceholderValues (v : Json) : Json := removeEntries bracketed v

/-! ## What counts as a placeholder -/

/-- One name in angle brackets. -/
def isPlaceholder (isName : List Char → Bool) (s : String) : Bool :=
  bracketed s && isName (s.toList.tail.dropLast)

def removePlaceholders (isName : List Char → Bool) (v : Json) : Json := removeEntries (isPlaceholder isName) v

/-- Letters, digits, underscores and dashes. -/
def identifier (name : List Char) : Bool := name ≠ [] && name.all (fun c => c.isAlphanum || c = '_' || c = '-')

theorem isPlaceholder_iff (isName : List Char → Bool) (s : String) :
    isPlaceholder isName s = true ↔ ∃ name, s.toList = '<'::(name++['>']) ∧ isName name = true := by
  constructor
  · intro h
    simp only [isPlaceholder, bracketed, Bool.and_eq_true, decide_eq_true_eq] at h
    obtain ⟨⟨hfirst,hlast⟩,hname⟩ := h
    cases hs : s.toList with
    | nil =>
      rw [hs] at hfirst
      cases hfirst
    | cons c cs =>
      rw [hs] at hfirst hlast hname
      cases hfirst
      rcases List.eq_nil_or_concat cs with rfl | ⟨name,d,rfl⟩
      · cases hlast
      · have hd : d = '>' := by simpa [List.getLast?_cons] using hlast
        exact ⟨name,by rw [hd, List.concat_eq_append],by simpa using hname⟩
  · rintro ⟨name,hs,hname⟩
    simp [isPlaceholder,bracketed,hs,hname,List.getLast?_cons]

theorem bracketed_of_placeholder {isName : List Char → Bool} {s : String} (h : isPlaceholder isName s = true) :
    bracketed s = true := (Bool.and_eq_true_iff.mp h).1

/-! ## Conditions on the entries -/

mutual

/-- The string of every entry of an object, at every depth. -/
def everyEntry (ok : String → Bool) : Json → Bool
  | .arr vs => everyItem ok vs
  | .obj ms => everyMember ok ms
  | _ => true

def everyItem (ok : String → Bool) : List Json → Bool
  | [] => true
  | v::vs => everyEntry ok v && everyItem ok vs

def everyMember (ok : String → Bool) : List (String × Json) → Bool
  | [] => true
  | (_,v)::ms => !dropped (fun s => !ok s) v && everyEntry ok v && everyMember ok ms

end

/-- What is left of an object are the entries that are not dropped, in their order. -/
theorem removeMembers_eq (drop : String → Bool) (ms : List (String × Json)) : removeMembers drop ms =
    (ms.filter (fun m => !dropped drop m.2)).map (fun m => (m.1,removeEntries drop m.2)) := by
  induction ms with
  | nil => rfl
  | cons m ms ih =>
    obtain ⟨k,v⟩ := m
    cases hv : dropped drop v with
    | true => simp [removeMembers,hv,ih]
    | false => simp [removeMembers,hv,ih]

theorem removeMembers_dropped {drop : String → Bool} {v : Json} (h : dropped drop v = true) (k : String)
    (ms : List (String × Json)) : removeMembers drop ((k,v)::ms) = removeMembers drop ms := by
  rw [removeMembers, if_pos h]

theorem removeMembers_kept {drop : String → Bool} {v : Json} (h : dropped drop v = false) (k : String)
    (ms : List (String × Json)) :
    removeMembers drop ((k,v)::ms) = (k,removeEntries drop v)::removeMembers drop ms := by
  rw [removeMembers, if_neg (by simp [h])]

/-- Only strings are dropped. -/
theorem everyEntry_of_dropped {drop ok : String → Bool} {v : Json} (h : dropped drop v = true) :
    everyEntry ok v = true := by
  cases v with
  | str s => rfl
  | null | bool _ | num _ | arr _ | obj _ => cases h

def agree (p q : String → Bool) (s : String) : Bool := p s = true → q s = true

theorem dropped_disagree (p q : String → Bool) (v : Json) :
    dropped (fun s => !agree p q s) v = (dropped p v && !dropped q v) := by
  cases v with
  | str s => simp [dropped,agree]
  | null | bool _ | num _ | arr _ | obj _ => rfl

theorem dropped_of_dropped {p q : String → Bool} (hqp : ∀ s, q s = true → p s = true) {v : Json}
    (h : dropped q v = true) : dropped p v = true := by
  cases v with
  | str s => exact hqp s h
  | null | bool _ | num _ | arr _ | obj _ => cases h

theorem removeMembers_length {p q : String → Bool} (hqp : ∀ s, q s = true → p s = true) (ms : List (String × Json)) :
    (removeMembers p ms).length ≤ (removeMembers q ms).length := by
  have hkept : ∀ m : String × Json, (!dropped p m.2) = true → (!dropped q m.2) = true := by
    intro m hp
    by_contra hq
    have hdropped : dropped q m.2 = true := by simpa using hq
    rw [dropped_of_dropped hqp hdropped] at hp
    cases hp
  rw [removeMembers_eq, removeMembers_eq, List.length_map, List.length_map]
  exact (List.monotone_filter_right ms hkept).length_le

mutual

/-- Two tests, one stricter than the other, leave the same value exactly when they agree on all the
entries. -/
theorem removeEntries_eq_iff {p q : String → Bool} (hqp : ∀ s, q s = true → p s = true) 
    (v : Json) :
    removeEntries p v = removeEntries q v ↔ everyEntry (agree p q) v = true := by
  cases v with
  | null | bool _ | num _ | str _ => simp [removeEntries,everyEntry]
  | arr vs =>
    simp only [removeEntries, everyEntry, Json.arr.injEq]
    exact removeItems_eq_iff hqp vs
  | obj ms =>
    simp only [removeEntries, everyEntry, Json.obj.injEq]
    exact removeMembers_eq_iff hqp ms

theorem removeItems_eq_iff {p q : String → Bool} (hqp : ∀ s, q s = true → p s = true) 
    (vs : List Json) :
    removeItems p vs = removeItems q vs ↔ everyItem (agree p q) vs = true := by
  cases vs with
  | nil => simp [removeItems,everyItem]
  | cons v vs =>
    simp only [removeItems, everyItem, List.cons.injEq, Bool.and_eq_true]
    rw [removeEntries_eq_iff hqp v, removeItems_eq_iff hqp vs]

theorem removeMembers_eq_iff {p q : String → Bool} (hqp : ∀ s, q s = true → p s = true) 
    (ms : List (String × Json)) :
    removeMembers p ms = removeMembers q ms ↔ everyMember (agree p q) ms = true := by
  cases ms with
  | nil => simp [removeMembers,everyMember]
  | cons m ms =>
    obtain ⟨k,v⟩ := m
    have hentry := removeEntries_eq_iff hqp v
    have hrest := removeMembers_eq_iff hqp ms
    rw [everyMember, dropped_disagree]
    cases hp : dropped p v with
    | true =>
      rw [removeMembers_dropped hp, everyEntry_of_dropped hp]
      cases hq : dropped q v with
      | true =>
        rw [removeMembers_dropped hq, hrest]
        simp
      | false =>
        have hne : removeMembers p ms ≠ removeMembers q ((k,v)::ms) := by
          intro h
          have hlength := removeMembers_length hqp ms
          rw [h, removeMembers_kept hq, List.length_cons] at hlength
          omega
        simp [hne]
    | false =>
      have hq : dropped q v = false := by
        cases hq : dropped q v with
        | true => rw [dropped_of_dropped hqp hq] at hp; cases hp
        | false => rfl
      rw [removeMembers_kept hp, removeMembers_kept hq, List.cons.injEq, Prod.mk.injEq, hentry, hrest]
      simp

end

/-! ## What is stripped -/

/-- Exactly the placeholders are taken out when every string of an entry that begins with `<` and
ends with `>` is one, and only then. -/
theorem strips_placeholders_iff (isName : List Char → Bool) (v : Json) :
    stripPlaceholderValues v = removePlaceholders isName v ↔
      everyEntry (agree bracketed (isPlaceholder isName)) v = true :=
  removeEntries_eq_iff (fun _ => bracketed_of_placeholder) v

/-- The arguments of `write_project_file` for a page of two tags. -/
def pageArguments : Json :=
  .obj [("content",.str "<html></html>"),("path",.str "index.html"),("project_uuid",.str "<project_uuid>")]

theorem page_content_lost :
    stripPlaceholderValues pageArguments = .obj [("path",.str "index.html")] ∧
      removePlaceholders identifier pageArguments =
        .obj [("content",.str "<html></html>"),("path",.str "index.html")] ∧
      stripPlaceholderValues pageArguments ≠ removePlaceholders identifier pageArguments := by
  have hstripped : stripPlaceholderValues pageArguments = .obj [("path",.str "index.html")] := rfl
  have hkept : removePlaceholders identifier pageArguments =
      .obj [("content",.str "<html></html>"),("path",.str "index.html")] := rfl
  refine ⟨hstripped,hkept,?_⟩
  rw [hstripped, hkept]
  simp

end DevForge.PlaceholderValues
