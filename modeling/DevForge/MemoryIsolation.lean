import DevForge.MemoryRows

/-!
# Isolation of the users of the memory

The requests of all users, in any order, on the store in memory; the sweep of expired rows is nobody's.
Each request draws the uuid it may need. A user is isolated from another when his rows and his answers
stay the same once the requests of the other are left out.
-/

set_option autoImplicit false

namespace DevForge.MemoryIsolation
open MemoryRules MemoryStores MemoryRows
open Transition

/-! ## The profile block -/

def PROFILE_BUDGET : ℕ := 1500
def MAX_INJECTED_NOTES : ℕ := 5

def MEMORY_HEADER : String :=
  "MÉMOIRE (faits connus, le plus récent fait foi ; dis-le si une info te semble obsolète) :"

def MEMORY_RULES : String :=
  "Avant de demander une info à l'utilisateur, cherche-la avec memory_search. Quand il t'apprend un fait durable ou te corrige, enregistre-le (memory_write) ou oublie l'ancien (memory_forget). Jamais de secret en mémoire."

/-- `fmt_date` and `fmt_day`. -/
structure Dates where
  date : Instant → String
  day : Instant → String

def oneLine (s : String) (max : ℕ) : String :=
  let flat := [' '].intercalate (splitWhitespace s.toList)
  if flat.length ≤ max then String.ofList flat else String.ofList (flat.take (max-1)++[ '…' ])

def scopeLabel (item : MemoryItem) : String :=
  let base := match item.scope with
    | .user => "utilisateur"
    | .project _ => "projet"
    | .agent _ => "agent"
  if item.kind = "infra" then base++"·infra"
  else if item.kind = "preference" then base++"·préférence"
  else base

def rank : Scope → ℕ
  | .user => 0
  | .project _ => 1
  | .agent _ => 2

/-- The order of `sort_profile`. -/
def profileOrder (a b : MemoryItem) : Bool :=
  (a.pinned && !b.pinned) || (a.pinned = b.pinned && (rank a.scope < rank b.scope ||
    (rank a.scope = rank b.scope && b.updatedAt ≤ a.updatedAt)))

structure ProfileBlock where
  text : String
  dropped : ℕ
deriving DecidableEq, Repr

def profileLine (D : Dates) (item : MemoryItem) : String :=
  "["++scopeLabel item++"] "++oneLine item.content 300++
    (if item.kind = "infra" then " (maj "++D.date item.updatedAt++")" else "")++
    (if item.confidence < 1 then " (déduit, à confirmer si important)" else "")

/-- The lines that fit in the budget, with what they use, and how many do not. -/
def takeLines (used : ℕ) : List String → List String × ℕ
  | [] => ([],0)
  | line::rest =>
    if PROFILE_BUDGET < used+(line.length+1) then
      let r := takeLines used rest
      (r.1,r.2+1)
    else
      let r := takeLines (used+(line.length+1)) rest
      (line::r.1,r.2)

def noteLine (D : Dates) (item : MemoryItem) : String :=
  "[notes] (expire "++(item.expiresAt.map D.day).getD ""++") "++oneLine item.content 200

def profileBlock (D : Dates) (items : List MemoryItem) (now : Instant) : ProfileBlock :=
  let profile := (items.filter (fun i => i.tier = .profile && i.supersededBy.isNone)).mergeSort profileOrder
  let lines := takeLines 0 (profile.map (profileLine D))
  let notes := (items.filter (fun i => i.tier = .note && i.supersededBy.isNone && i.expiresAt.any (now < ·))).mergeSort
    (fun a b => b.updatedAt ≤ a.updatedAt)
  let all := lines.1++(notes.take MAX_INJECTED_NOTES).map (noteLine D)
  let body := if all = [] then "(rien d'enregistré pour l'instant)" else "\n".intercalate all
  ⟨MEMORY_HEADER++"\n"++body++"\n"++MEMORY_RULES,lines.2⟩

/-! ## Requests -/

/-- `profile`. -/
def profile (userUuid : String) (projectUuid agentUuid : Option String) (s : InMemory.MemStore) : List MemoryItem :=
  (s.rows.filter (fun r => r.userUuid = userUuid && !r.deleted && r.supersededBy.isNone &&
    match r.tier, r.place.scope with
    | .profile, .user => true
    | .profile, .project p => some p = projectUuid
    | .profile, .agent a => some a = agentUuid
    | .note, .agent a => some a = agentUuid && unexpired s.now r
    | _, _ => false)).map InMemory.item

def eraseAll (userUuid : String) (s : InMemory.MemStore) : ℕ × InMemory.MemStore :=
  let rows := s.rows.filter (fun r => r.userUuid ≠ userUuid)
  (s.rows.length-rows.length,{ s with rows := rows })

inductive Call where
  | perform (op : Op)
  | eraseAll (userUuid : String)
  | profileBlock (userUuid : String) (projectUuid agentUuid : Option String)

/-- The user a call is made for. -/
def Call.user : Call → Option String
  | .perform (.write req _) => some req.userUuid
  | .perform (.correct user ..) | .perform (.forget user _) | .perform (.setPinned user ..) | .perform (.get user _)
  | .perform (.history user _) | .perform (.list user _) | .perform (.search user _) => some user
  | .perform .purgeExpired => none
  | .eraseAll user | .profileBlock user .. => some user

inductive Reply where
  | answer (a : Answer)
  | erased (n : ℕ)
  | block (b : ProfileBlock)

def perform (T : Texts) (D : Dates) (s : InMemory.MemStore) : Call → Reply × InMemory.MemStore
  | .perform op => let r := InMemory.perform T op s; (.answer r.1,r.2)
  | .eraseAll user => let r := eraseAll user s; (.erased r.1,r.2)
  | .profileBlock user projectUuid agentUuid =>
    (.block (profileBlock D (profile user projectUuid agentUuid s) s.now),s)

/-- A call some time after the one before, with the uuid that is drawn for it; only the time, when there
is none. -/
structure Request where
  delay : ℕ
  drawn : Uuid
  call : Option Call

/-- The store when a request comes. -/
def reach (s : InMemory.MemStore) (e : Request) : InMemory.MemStore := { s.after e.delay with next := e.drawn }

def step (T : Texts) (D : Dates) (s : InMemory.MemStore) (e : Request) : InMemory.MemStore :=
  match e.call with
  | some c => (perform T D (reach s e) c).2
  | none => reach s e

def leaveOut (user : String) (e : Request) : Request := { e with call := e.call.filter (fun c => c.user ≠ some user) }

/-- The requests, had those made for `user` not been made. -/
def without (user : String) (es : List Request) : List Request := es.map (leaveOut user)

/-! ## The rows of a user -/

/-- The store with the rows of one user. -/
def view (user : String) (s : InMemory.MemStore) : InMemory.MemStore :=
  { s with rows := s.rows.filter (fun r => r.userUuid = user) }

variable {T : Texts} {D : Dates} {u : String} {s : InMemory.MemStore}

theorem user_and {p : Row MemPlace → Bool} (h : ∀ r, p r = true → r.userUuid = u) :
    (fun r : Row MemPlace => decide (r.userUuid = u) && p r) = p := by
  funext r
  cases hp : p r
  · simp
  · simp [h r hp]

theorem find_view {p : Row MemPlace → Bool} (h : ∀ r, p r = true → r.userUuid = u) :
    (view u s).rows.find? p = s.rows.find? p := by
  rw [view, List.find?_filter]
  simp only [Bool.decide_and, decide_eq_true_eq, Bool.decide_eq_true, user_and h]

theorem filter_view {p : Row MemPlace → Bool} (h : ∀ r, p r = true → r.userUuid = u) :
    (view u s).rows.filter p = s.rows.filter p := by
  rw [view, List.filter_filter, ← user_and h]
  congr 1
  funext r
  rw [user_and h, Bool.and_comm]

theorem countP_view {p : Row MemPlace → Bool} (h : ∀ r, p r = true → r.userUuid = u) :
    (view u s).rows.countP p = s.rows.countP p := by
  rw [List.countP_eq_length_filter, List.countP_eq_length_filter, filter_view h]

theorem any_view {p : Row MemPlace → Bool} (h : ∀ r, p r = true → r.userUuid = u) :
    (view u s).rows.any p = s.rows.any p := by
  rw [view, List.any_filter, user_and h]

/-- A change of rows that leaves their users. -/
theorem filter_map_user {f : Row MemPlace → Row MemPlace} (h : ∀ r, (f r).userUuid = r.userUuid)
    (rows : List (Row MemPlace)) :
    (rows.map f).filter (fun r => r.userUuid = u) = (rows.filter (fun r => r.userUuid = u)).map f := by
  rw [List.filter_map]
  congr 2
  funext r
  simp [h r]

@[simp] theorem view_now : (view u s).now = s.now := rfl

@[simp] theorem view_next : (view u s).next = s.next := rfl

theorem view_setRow (x : Uuid) (f : Row MemPlace → Row MemPlace) (h : ∀ r, (f r).userUuid = r.userUuid) :
    view u (s.setRow x f) = (view u s).setRow x f := by
  simp only [view, Store.setRow]
  rw [filter_map_user]
  intro r
  split
  · exact h r
  · rfl

/-- A row of another user changes. -/
theorem view_setRow_other {x : Uuid} {f : Row MemPlace → Row MemPlace} (h : ∀ r, (f r).userUuid = r.userUuid)
    (hx : ∀ r ∈ (view u s).rows, r.uuid ≠ x) : view u (s.setRow x f) = view u s := by
  rw [view_setRow x f h]
  simp only [Store.setRow]
  have hid : (view u s).rows.map (fun r => if r.uuid = x then f r else r) = (view u s).rows.map id := by
    apply List.map_congr_left
    intro r hr
    rw [if_neg (hx r hr)]
    rfl
  rw [hid, List.map_id]

/-! ## The cap on notes -/

section
variable {κ : Type} {same keep : Row κ → Bool} {rows : List (Row κ)}

/-- Where the kept rows stand among all rows. -/
def places (keep : Row κ → Bool) (rows : List (Row κ)) : List ℕ := (rows.zipIdx.filter (fun p => keep p.1)).map Prod.snd

def place (keep : Row κ → Bool) (rows : List (Row κ)) (i : ℕ) : ℕ := (places keep rows).getD i 0

theorem kept_fst : (rows.zipIdx.filter (fun p => keep p.1)).map Prod.fst = rows.filter keep := by
  rw [show (fun p : Row κ × ℕ => keep p.1) = keep ∘ Prod.fst from rfl, ← List.filter_map, List.zipIdx_map_fst]

theorem places_length : (places keep rows).length = (rows.filter keep).length := by
  rw [places, List.length_map, ← kept_fst, List.length_map]

theorem places_sorted : (places keep rows).Pairwise (· < ·) := by
  have hall : (rows.zipIdx.map Prod.snd).Pairwise (· < ·) := by
    rw [List.zipIdx_map_snd]
    exact List.pairwise_lt_range'
  exact hall.sublist (List.filter_sublist.map Prod.snd)

/-- Kept rows stand in the same order. -/
theorem place_lt_iff {i j : ℕ} (hi : i < (rows.filter keep).length) (hj : j < (rows.filter keep).length) :
    place keep rows i < place keep rows j ↔ i < j := by
  rw [← places_length] at hi hj
  have hsorted := List.pairwise_iff_getElem.mp (@places_sorted κ keep rows)
  have hget (k : ℕ) (hk : k < (places keep rows).length) : place keep rows k = (places keep rows)[k] := by
    simp [place, List.getD_eq_getElem?_getD, hk]
  rw [hget i hi, hget j hj]
  constructor
  · intro hlt
    by_contra hge
    rcases Nat.lt_or_eq_of_le (Nat.le_of_not_lt hge) with hji | rfl
    · have := hsorted j i hj hi hji
      omega
    · omega
  · exact hsorted i j hi hj

theorem kept_rows : (rows.filter keep).zipIdx.map (fun p => (p.1,place keep rows p.2)) =
    rows.zipIdx.filter (fun p => keep p.1) := by
  apply List.ext_getElem?
  intro i
  rw [List.getElem?_map, List.getElem?_zipIdx, ← kept_fst, List.getElem?_map]
  cases hi : (rows.zipIdx.filter (fun p => keep p.1))[i]? with
  | none => rfl
  | some p =>
    have hplace : place keep rows i = p.2 := by
      simp [place, places, List.getD_eq_getElem?_getD, hi]
    simp [hplace]

/-- The cap on the notes of a scope sees only the rows that are kept, when the scope is among them. -/
theorem oldNotes_filter (h : ∀ r, same r = true → keep r = true) :
    oldNotes same rows = (oldNotes same (rows.filter keep)).map (place keep rows) := by
  have hnotes : rows.zipIdx.filter (fun p => same p.1 && p.1.tier = .note && p.1.live) =
      ((rows.filter keep).zipIdx.filter (fun p => same p.1 && p.1.tier = .note && p.1.live)).map
        (fun p => (p.1,place keep rows p.2)) := by
    have hmap := congrArg (List.filter (fun p : Row κ × ℕ => same p.1 && p.1.tier = .note && p.1.live))
      (@kept_rows κ keep rows)
    rw [List.filter_map, List.filter_filter] at hmap
    refine Eq.trans ?_ hmap.symm
    congr 1
    funext p
    cases hsame : same p.1
    · simp
    · simp [h p.1 hsame]
  unfold oldNotes
  rw [hnotes, ← List.map_mergeSort, ← List.map_drop, List.map_map, List.map_map]
  · rfl
  · intro a ha b hb
    have hia : a.2 < (rows.filter keep).length := (List.mem_zipIdx' (List.mem_filter.mp ha).1).1
    have hib : b.2 < (rows.filter keep).length := (List.mem_zipIdx' (List.mem_filter.mp hb).1).1
    have hle : place keep rows b.2 ≤ place keep rows a.2 ↔ b.2 ≤ a.2 := by
      rw [← not_lt, place_lt_iff hia hib, not_lt]
    simp [later, hle]

theorem oldNotes_same {i : ℕ} (hi : i ∈ oldNotes same rows) : ∃ r, rows[i]? = some r ∧ same r = true := by
  obtain ⟨p,hp,rfl⟩ := List.mem_map.mp hi
  obtain ⟨hmem,hsame⟩ := List.mem_filter.mp (List.mem_mergeSort.mp (List.mem_of_mem_drop hp))
  simp only [Bool.and_eq_true] at hsame
  exact ⟨p.1,List.mk_mem_zipIdx_iff_getElem?.mp hmem,hsame.1.1⟩

/-- The mark does not tell which rows are kept. -/
theorem filter_forgetOldNotes (hkeep : ∀ r, keep { r with deleted := true } = keep r) :
    (forgetOldNotes same rows).filter keep = (rows.zipIdx.filter (fun p => keep p.1)).map (fun p =>
      if (oldNotes same rows).contains p.2 then { p.1 with deleted := true } else p.1) := by
  rw [forgetOldNotes, List.filter_map]
  congr 2
  funext p
  simp only [Function.comp_apply]
  split
  · exact hkeep p.1
  · rfl

theorem forgetOldNotes_filter (h : ∀ r, same r = true → keep r = true)
    (hkeep : ∀ r, keep { r with deleted := true } = keep r) :
    (forgetOldNotes same rows).filter keep = forgetOldNotes same (rows.filter keep) := by
  rw [filter_forgetOldNotes hkeep, ← kept_rows, List.map_map]
  apply List.map_congr_left
  intro p hp
  have hip : p.2 < (rows.filter keep).length := (List.mem_zipIdx' hp).1
  have hold : (oldNotes same rows).contains (place keep rows p.2) = (oldNotes same (rows.filter keep)).contains p.2 := by
    rw [oldNotes_filter h, Bool.eq_iff_iff, List.contains_iff_mem, List.contains_iff_mem, List.mem_map]
    constructor
    · rintro ⟨i,hi,heq⟩
      obtain ⟨r,hr,-⟩ := oldNotes_same hi
      have hii := (List.getElem?_eq_some_iff.mp hr).1
      have hlt := @place_lt_iff κ keep rows i p.2 hii hip
      have hgt := @place_lt_iff κ keep rows p.2 i hip hii
      have hi' : i = p.2 := by omega
      exact hi' ▸ hi
    · exact fun hi => ⟨p.2,hi,rfl⟩
  simp only [Function.comp_apply, hold]

/-- The cap on the notes of a scope leaves the rows outside it. -/
theorem forgetOldNotes_other (h : ∀ r, same r = true → keep r = false)
    (hkeep : ∀ r, keep { r with deleted := true } = keep r) : (forgetOldNotes same rows).filter keep = rows.filter keep := by
  rw [filter_forgetOldNotes hkeep, ← kept_fst]
  apply List.map_congr_left
  intro p hp
  obtain ⟨hmem,hkept⟩ := List.mem_filter.mp hp
  rw [if_neg]
  intro hold
  obtain ⟨r,hr,hsame⟩ := oldNotes_same (List.contains_iff_mem.mp hold)
  obtain rfl := Option.some.inj (hr.symm.trans (List.mk_mem_zipIdx_iff_getElem?.mp hmem))
  exact absurd hkept (by simp [h _ hsame])

end

/-! ## A user's own calls -/

/-- What a store answers and becomes is seen in a user's rows alone. -/
def SeenIn (u : String) {α : Type} (f : InMemory.MemStore → α × InMemory.MemStore) (s : InMemory.MemStore) : Prop :=
  f (view u s) = ((f s).1,view u (f s).2)

theorem keeps_mark (u : String) (r : Row MemPlace) :
    decide (({ r with deleted := true } : Row MemPlace).userUuid = u) = decide (r.userUuid = u) := rfl

theorem insertRow_view {req : WriteReq} (hreq : req.userUuid = u) (c : ℚ) :
    InMemory.insertRow T req c (view u s) = view u (InMemory.insertRow T req c s) := by
  have hnew : (s.rows++[newRow T req (InMemory.place req) c s.next s.now]).filter (fun r => r.userUuid = u) =
      (view u s).rows++[newRow T req (InMemory.place req) c s.next s.now] := by
    simp [view, newRow, hreq]
  unfold InMemory.insertRow
  simp only [view]
  congr 1
  split
  · rw [forgetOldNotes_filter _ (keeps_mark u), hnew]
    · rfl
    · intro r hr
      simp only [InMemory.sameScope, Bool.and_eq_true, decide_eq_true_eq] at hr
      simp [hr.1, hreq]
  · exact hnew.symm

theorem sameScope_user {req : WriteReq} {r : Row MemPlace} (h : InMemory.sameScope req r = true) :
    r.userUuid = req.userUuid := by
  simp only [InMemory.sameScope, Bool.and_eq_true, decide_eq_true_eq] at h
  exact h.1

theorem keyed_view {req : WriteReq} (hreq : req.userUuid = u) (key : String) :
    InMemory.keyed req key (view u s) = InMemory.keyed req key s := by
  apply find_view
  intro r hr
  simp only [Bool.and_eq_true] at hr
  exact (sameScope_user hr.1.1).trans hreq

theorem duplicate_view {req : WriteReq} (hreq : req.userUuid = u) :
    InMemory.duplicate T req (view u s) = InMemory.duplicate T req s := by
  apply find_view
  intro r hr
  simp only [Bool.and_eq_true] at hr
  exact (sameScope_user hr.1.1.1.1).trans hreq

theorem write_seen {req : WriteReq} (hreq : req.userUuid = u) (known : List String) :
    SeenIn u (InMemory.writeSync T req known) s := by
  unfold SeenIn InMemory.writeSync
  cases validate T req known with
  | some e => rfl
  | none =>
    cases hkey : req.key with
    | none =>
      simp only [duplicate_view hreq]
      cases InMemory.duplicate T req s with
      | none => exact congrArg (Prod.mk _) (insertRow_view hreq _)
      | some r => exact congrArg (Prod.mk _) (view_setRow r.uuid (Row.reinforce _ s.now) (fun _ => rfl)).symm
    | some key =>
      simp only [keyed_view hreq]
      cases InMemory.keyed req key s with
      | none => exact congrArg (Prod.mk _) (insertRow_view hreq _)
      | some ex =>
        simp only
        cases decideKey T ex.existing req (effectiveConfidence req) with
        | refresh c => exact congrArg (Prod.mk _) (view_setRow ex.uuid (Row.refresh req c s.now) (fun _ => rfl)).symm
        | supersede =>
          simp only [insertRow_view hreq]
          exact congrArg (Prod.mk _) (view_setRow ex.uuid (Row.replacedBy s.next s.now) (fun _ => rfl)).symm
        | confirm note =>
          have hnote : (confirmationNote req note).userUuid = u := hreq
          exact congrArg (Prod.mk _) (insertRow_view hnote _)

theorem get_view (uuid : Uuid) : InMemory.get u uuid (view u s) = InMemory.get u uuid s := by
  unfold InMemory.get
  rw [find_view]
  intro r hr
  simp only [Bool.and_eq_true, decide_eq_true_eq] at hr
  exact hr.1.1

theorem correct_seen (uuid : Uuid) (content : String) (known : List String) :
    SeenIn u (InMemory.correct T u uuid content known) s := by
  unfold SeenIn InMemory.correct
  rw [get_view]
  cases InMemory.get u uuid s with
  | none => rfl
  | some old =>
    have hreq : (correctionReq u old content s.now).userUuid = u := rfl
    simp only [view_now, view_next]
    cases validate T (correctionReq u old content s.now) known with
    | some e => rfl
    | none =>
      simp only
      split
      · rfl
      · rw [insertRow_view hreq, ← view_setRow _ (Row.replacedBy s.next s.now) (fun _ => rfl),
          ← view_setRow _ (fun r => { r with pinned := old.pinned }) (fun _ => rfl)]

theorem forgetWhere_seen {hit : Row MemPlace → Bool} (h : ∀ r, hit r = true → r.userUuid = u) :
    SeenIn u (forgetWhere hit) s := by
  unfold SeenIn forgetWhere
  rw [countP_view h]
  congr 1
  simp only [view]
  rw [filter_map_user]
  intro r
  split <;> rfl

theorem forget_seen (target : ForgetTarget) : SeenIn u (InMemory.forget u target) s := by
  apply forgetWhere_seen
  intro r hr
  simp only [Bool.and_eq_true, decide_eq_true_eq] at hr
  exact hr.1.1

theorem setPinned_seen (uuid : Uuid) (pinned : Bool) : SeenIn u (setPinned u uuid pinned) s := by
  unfold SeenIn setPinned
  rw [any_view]
  · congr 1
    simp only [view]
    rw [filter_map_user]
    intro r
    split <;> rfl
  · intro r hr
    simp only [Bool.and_eq_true, decide_eq_true_eq] at hr
    exact hr.1.1

theorem replaced_view (n : ℕ) (cur : Uuid) : replaced u (view u s).rows n cur = replaced u s.rows n cur := by
  induction n generalizing cur with
  | zero => rfl
  | succ n ih =>
    unfold replaced
    rw [find_view]
    · split
      · rw [ih]
      · rfl
    · intro r hr
      simp only [Bool.and_eq_true, decide_eq_true_eq] at hr
      exact hr.1

theorem list_view (req : ListReq) : InMemory.list T u req (view u s) = InMemory.list T u req s := by
  unfold InMemory.list
  simp only
  rw [filter_view]
  · rfl
  · intro r hr
    simp only [Bool.and_eq_true, decide_eq_true_eq] at hr
    exact hr.1.1.1.1.1.1.1

theorem search_view (q : SearchReq) : InMemory.search T u q (view u s) = InMemory.search T u q s := by
  unfold InMemory.search
  simp only
  rw [filter_view]
  · rfl
  · intro r hr
    simp only [Bool.and_eq_true, decide_eq_true_eq] at hr
    exact hr.1.1.1.1.1.1.1.1

theorem profile_view (projectUuid agentUuid : Option String) :
    profile u projectUuid agentUuid (view u s) = profile u projectUuid agentUuid s := by
  unfold profile
  rw [filter_view]
  · rfl
  · intro r hr
    simp only [Bool.and_eq_true, decide_eq_true_eq] at hr
    exact hr.1.1.1

theorem eraseAll_seen : SeenIn u (eraseAll u) s := by
  have hsplit := List.length_eq_length_filter_add (l := s.rows) (fun r => decide (r.userUuid = u))
  have hother : s.rows.filter (fun r => !decide (r.userUuid = u)) = s.rows.filter (fun r => decide (r.userUuid ≠ u)) := by
    congr 1
    funext r
    simp
  have hnone : (s.rows.filter (fun r => decide (r.userUuid = u))).filter (fun r => decide (r.userUuid ≠ u)) = [] := by
    simp
  have hnone' : (s.rows.filter (fun r => decide (r.userUuid ≠ u))).filter (fun r => decide (r.userUuid = u)) = [] := by
    simp
  rw [hother] at hsplit
  unfold SeenIn eraseAll
  simp only [view]
  rw [hnone, hnone']
  congr 1
  rw [hsplit, List.length_nil]
  omega

/-- A call made for a user reads and changes his rows alone. -/
theorem perform_seen {c : Call} (hc : c.user = some u) : SeenIn u (fun s => perform T D s c) s := by
  cases c with
  | eraseAll user =>
    obtain rfl := Option.some.inj hc
    have h := @eraseAll_seen user s
    unfold SeenIn at h ⊢
    simp only [perform, h]
  | profileBlock user projectUuid agentUuid =>
    obtain rfl := Option.some.inj hc
    unfold SeenIn
    simp only [perform, profile_view, view_now]
  | perform op =>
    cases op with
    | write req known =>
      have h := @write_seen T u s req (Option.some.inj hc) known
      unfold SeenIn at h ⊢
      simp only [perform, InMemory.perform, h]
    | correct user uuid content known =>
      obtain rfl := Option.some.inj hc
      have h := @correct_seen T user s uuid content known
      unfold SeenIn at h ⊢
      simp only [perform, InMemory.perform, h]
    | forget user target =>
      obtain rfl := Option.some.inj hc
      have h := @forget_seen user s target
      unfold SeenIn at h ⊢
      simp only [perform, InMemory.perform, h]
    | purgeExpired => cases hc
    | setPinned user uuid pinned =>
      obtain rfl := Option.some.inj hc
      have h := @setPinned_seen user s uuid pinned
      unfold SeenIn at h ⊢
      simp only [perform, InMemory.perform, h]
    | get user uuid =>
      obtain rfl := Option.some.inj hc
      unfold SeenIn
      simp only [perform, InMemory.perform, get_view]
    | history user uuid =>
      obtain rfl := Option.some.inj hc
      unfold SeenIn
      simp only [perform, InMemory.perform, InMemory.history, replaced_view]
    | list user req =>
      obtain rfl := Option.some.inj hc
      unfold SeenIn
      simp only [perform, InMemory.perform, list_view]
    | search user q =>
      obtain rfl := Option.some.inj hc
      unfold SeenIn
      simp only [perform, InMemory.perform, search_view]

/-! ## Calls of others -/

/-- The sweep forgets each user's expired rows. -/
theorem purge_view : view u (purgeExpired s).2 = (purgeExpired (view u s)).2 := by
  simp only [view, purgeExpired]
  rw [filter_map_user]
  · rfl
  · intro r
    split <;> rfl

theorem other_uuid (hs : (s.rows.map Row.uuid).Nodup) {ex : Row MemPlace} (hex : ex ∈ s.rows) (hne : ex.userUuid ≠ u) :
    ∀ r ∈ (view u s).rows, r.uuid ≠ ex.uuid := by
  intro r hr heq
  obtain ⟨hmem,huser⟩ := List.mem_filter.mp hr
  obtain rfl := List.inj_on_of_nodup_map hs hmem hex heq
  exact hne (of_decide_eq_true huser)

theorem insertRow_other {req : WriteReq} (hreq : req.userUuid ≠ u) (c : ℚ) :
    (view u (InMemory.insertRow T req c s)).rows = (view u s).rows := by
  have hnew : (s.rows++[newRow T req (InMemory.place req) c s.next s.now]).filter (fun r => r.userUuid = u) =
      (view u s).rows := by
    simp [view, newRow, hreq]
  unfold InMemory.insertRow
  simp only [view]
  split
  · rw [forgetOldNotes_other _ (keeps_mark u), hnew]
    · rfl
    · intro r hr
      simpa [sameScope_user hr] using hreq
  · exact hnew

/-- Marks on the rows of others. -/
theorem mapRows_other {f : Row MemPlace → Row MemPlace} (huser : ∀ r, (f r).userUuid = r.userUuid)
    (h : ∀ r, r.userUuid = u → f r = r) : (view u { s with rows := s.rows.map f }).rows = (view u s).rows := by
  simp only [view]
  rw [filter_map_user huser]
  have hid : (s.rows.filter (fun r => decide (r.userUuid = u))).map f =
      (s.rows.filter (fun r => decide (r.userUuid = u))).map id := by
    apply List.map_congr_left
    intro r hr
    exact h r (of_decide_eq_true (List.mem_filter.mp hr).2)
  rw [hid, List.map_id]

theorem forgetWhere_other {hit : Row MemPlace → Bool} (h : ∀ r, hit r = true → r.userUuid ≠ u) :
    (view u (forgetWhere hit s).2).rows = (view u s).rows := by
  apply mapRows_other
  · intro r
    split <;> rfl
  · intro r hr
    rw [if_neg]
    exact fun hhit => h r hhit hr

theorem write_other {req : WriteReq} (hreq : req.userUuid ≠ u) (known : List String) (hs : (s.rows.map Row.uuid).Nodup) :
    (view u (InMemory.writeSync T req known s).2).rows = (view u s).rows := by
  have hfound {p : Row MemPlace → Bool} {ex : Row MemPlace} (hfind : s.rows.find? p = some ex)
      (hp : ∀ r, p r = true → r.userUuid = req.userUuid) : ∀ r ∈ (view u s).rows, r.uuid ≠ ex.uuid := by
    apply other_uuid hs (List.mem_of_find?_eq_some hfind)
    rw [hp ex (List.find?_some hfind)]
    exact hreq
  unfold InMemory.writeSync
  cases validate T req known with
  | some e => rfl
  | none =>
    cases hkey : req.key with
    | none =>
      cases hdup : InMemory.duplicate T req s with
      | none => exact insertRow_other hreq _
      | some r =>
        have hother := hfound hdup (by
          intro r hr
          simp only [Bool.and_eq_true] at hr
          exact sameScope_user hr.1.1.1.1)
        exact congrArg Store.rows (view_setRow_other (f := Row.reinforce _ s.now) (fun _ => rfl) hother)
    | some key =>
      cases hex : InMemory.keyed req key s with
      | none =>
        simp only [hex]
        exact insertRow_other hreq _
      | some ex =>
        have hother := hfound hex (by
          intro r hr
          simp only [Bool.and_eq_true] at hr
          exact sameScope_user hr.1.1)
        simp only [hex]
        cases decideKey T ex.existing req (effectiveConfidence req) with
        | refresh c => exact congrArg Store.rows (view_setRow_other (f := Row.refresh req c s.now) (fun _ => rfl) hother)
        | supersede =>
          have hinsert := insertRow_other (T := T) (s := s) hreq (effectiveConfidence req)
          rw [← hinsert] at hother ⊢
          exact congrArg Store.rows (view_setRow_other (f := Row.replacedBy s.next s.now) (fun _ => rfl) hother)
        | confirm note =>
          have hnote : (confirmationNote req note).userUuid ≠ u := hreq
          exact insertRow_other hnote _

theorem correct_other {user : String} (huser : user ≠ u) (uuid : Uuid) (content : String) (known : List String)
    (hs : (s.rows.map Row.uuid).Nodup) (hnext : s.next ∉ s.rows.map Row.uuid) :
    (view u (InMemory.correct T user uuid content known s).2).rows = (view u s).rows := by
  unfold InMemory.correct
  cases hget : InMemory.get user uuid s with
  | none => rfl
  | some old =>
    obtain ⟨ex,hfind,rfl⟩ := Option.map_eq_some_iff.mp hget
    have hprops := List.find?_some hfind
    simp only [Bool.and_eq_true, decide_eq_true_eq] at hprops
    have hother : ∀ r ∈ (view u s).rows, r.uuid ≠ ex.uuid := by
      apply other_uuid hs (List.mem_of_find?_eq_some hfind)
      rw [hprops.1.1]
      exact huser
    have hfresh : ∀ r ∈ (view u s).rows, r.uuid ≠ s.next := by
      intro r hr heq
      exact hnext (heq ▸ List.mem_map_of_mem (List.mem_filter.mp hr).1)
    have hreq : (correctionReq user (InMemory.item ex) content s.now).userUuid ≠ u := huser
    simp only
    cases validate T (correctionReq user (InMemory.item ex) content s.now) known with
    | some e => rfl
    | none =>
      simp only
      split
      · rfl
      · have hinsert := insertRow_other (T := T) (s := s) hreq 1
        rw [← hinsert] at hother hfresh ⊢
        have hold := view_setRow_other (f := Row.replacedBy s.next s.now) (fun _ => rfl) hother
        rw [← hold] at hfresh ⊢
        exact congrArg Store.rows (view_setRow_other (f := fun r => { r with pinned := (InMemory.item ex).pinned })
          (fun _ => rfl) hfresh)

/-- A call made for another user leaves the rows alone. -/
theorem perform_other {c : Call} {user : String} (hc : c.user = some user) (hne : user ≠ u)
    (hs : (s.rows.map Row.uuid).Nodup) (hnext : s.next ∉ s.rows.map Row.uuid) :
    (view u (perform T D s c).2).rows = (view u s).rows := by
  cases c with
  | eraseAll user' =>
    obtain rfl := Option.some.inj hc
    simp only [perform, eraseAll, view, List.filter_filter]
    congr 1
    funext r
    by_cases hr : r.userUuid = u
    · simp [hr, Ne.symm hne]
    · simp [hr]
  | profileBlock user' projectUuid agentUuid => rfl
  | perform op =>
    cases op with
    | write req known =>
      have hreq : req.userUuid ≠ u := (Option.some.inj hc).trans_ne hne
      have h := @write_other T u s req hreq known hs
      simp only [perform, InMemory.perform]
      exact h
    | correct user' uuid content known =>
      obtain rfl := Option.some.inj hc
      have h := @correct_other T u s user' hne uuid content known hs hnext
      simp only [perform, InMemory.perform]
      exact h
    | forget user' target =>
      obtain rfl := Option.some.inj hc
      apply forgetWhere_other
      intro r hr
      simp only [Bool.and_eq_true, decide_eq_true_eq] at hr
      exact hr.1.1.trans_ne hne
    | purgeExpired => cases hc
    | setPinned user' uuid pinned =>
      obtain rfl := Option.some.inj hc
      apply mapRows_other
      · intro r
        split <;> rfl
      · intro r hr
        simp [hr, Ne.symm hne]
    | get _ _ => rfl
    | history _ _ => rfl
    | list _ _ => rfl
    | search _ _ => rfl

/-! ## Runs of requests -/

/-- At most one row more, which bears the drawn uuid. -/
structure Grows (s s' : InMemory.MemStore) : Prop where
  uuids : (s'.rows.map Row.uuid).Sublist (s.rows.map Row.uuid++[s.next])
  now : s'.now = s.now

theorem grows_of_same {s' : InMemory.MemStore} (h : s'.rows.map Row.uuid = s.rows.map Row.uuid) (hnow : s'.now = s.now) :
    Grows s s' :=
  ⟨h ▸ List.sublist_append_left _ _,hnow⟩

theorem grows_addRow {same : Row MemPlace → Bool} {row : Row MemPlace} (hrow : row.uuid = s.next) :
    Grows s (addRow same row s) := by
  refine ⟨?_,rfl⟩
  rw [map_addRow (fun _ => rfl), hrow]

theorem grows_replaced {same : Row MemPlace → Bool} {row : Row MemPlace} {x : Uuid} {s' : InMemory.MemStore}
    (hrow : row.uuid = s.next) (h : Replaced same row x s s') : Grows s s' := by
  rcases h with rfl | rfl
  · refine ⟨?_,rfl⟩
    rw [map_addRow (fun _ => rfl), map_setRow (Row.replacedBy s.next s.now) (fun _ => rfl), hrow]
  · refine ⟨?_,rfl⟩
    rw [map_setRow (Row.replacedBy s.next s.now) (fun _ => rfl), map_addRow (fun _ => rfl), hrow]

theorem grows_mapRows {f : Row MemPlace → Row MemPlace} (h : ∀ r, (f r).uuid = r.uuid) :
    Grows s { s with rows := s.rows.map f } := by
  apply grows_of_same
  · rw [List.map_map, show Row.uuid ∘ f = Row.uuid from funext h]
  · rfl

theorem perform_grows (c : Call) : Grows s (perform T D s c).2 := by
  cases c with
  | eraseAll user =>
    refine ⟨?_,rfl⟩
    exact (List.filter_sublist.map Row.uuid).trans (List.sublist_append_left _ _)
  | profileBlock user projectUuid agentUuid => exact grows_of_same rfl rfl
  | perform op =>
    have hchange := InMemory.perform_change T op s
    show Grows s (InMemory.perform T op s).2
    generalize (InMemory.perform T op s).2 = s' at hchange ⊢
    cases hchange with
    | nothing => exact grows_of_same rfl rfl
    | refresh req known ex c h => exact grows_of_same (map_setRow (Row.refresh req c s.now) (fun _ => rfl) _ _) rfl
    | reinforce req known x c hquiet => exact grows_of_same (map_setRow (Row.reinforce c s.now) (fun _ => rfl) _ _) rfl
    | insert req known req' c hfree hreq hquiet => exact grows_addRow rfl
    | supersede req known ex c s' hfound hother hs' => exact grows_replaced rfl hs'
    | correct user content known ex req pinned s' hex huser hdeleted hreq hfree hsame hnamed hs' =>
      have h := grows_replaced rfl hs'
      have huuids := h.uuids
      rw [← map_setRow (fun r : Row MemPlace => { r with pinned := pinned }) (fun _ => rfl) s.next s'] at huuids
      exact ⟨huuids,h.now⟩
    | forget user target hit =>
      apply grows_mapRows
      intro r
      split <;> rfl
    | purge =>
      apply grows_mapRows
      intro r
      split <;> rfl
    | setPinned user x pinned =>
      apply grows_mapRows
      intro r
      split <;> rfl

/-- No uuid is drawn twice. -/
def Fresh (s : InMemory.MemStore) (es : List Request) : Prop := (s.rows.map Row.uuid++es.map Request.drawn).Nodup

theorem fresh_step {e : Request} {es : List Request} (h : Fresh s (e::es)) : Fresh (step T D s e) es := by
  have hsub : ((step T D s e).rows.map Row.uuid).Sublist (s.rows.map Row.uuid++[e.drawn]) := by
    unfold step
    split
    · next c _ => exact (@perform_grows T D (reach s e) c).uuids
    · exact List.sublist_append_left _ _
  unfold Fresh at h ⊢
  refine List.Nodup.sublist ?_ h
  have happ := hsub.append_right (es.map Request.drawn)
  simpa using happ

theorem fresh_uuids {e : Request} {es : List Request} (h : Fresh s (e::es)) :
    ((reach s e).rows.map Row.uuid).Nodup ∧ (reach s e).next ∉ (reach s e).rows.map Row.uuid := by
  unfold Fresh at h
  rw [List.nodup_append] at h
  refine ⟨h.1,?_⟩
  intro hmem
  exact h.2.2 _ hmem e.drawn (by simp) rfl

/-- A user sees the same rows at the same time. -/
structure Alike (u : String) (s s' : InMemory.MemStore) : Prop where
  rows : (view u s).rows = (view u s').rows
  now : s.now = s'.now

theorem alike_reach {s' : InMemory.MemStore} (h : Alike u s s') (e : Request) : view u (reach s e) = view u (reach s' e) := by
  have hrows := h.rows
  simp only [view] at hrows
  simp only [view, reach, Store.after, hrows, h.now]

theorem step_now (e : Request) : (step T D s e).now = s.now+e.delay := by
  unfold step
  split
  · next c _ => exact (@perform_grows T D (reach s e) c).now
  · rfl

/-- A request that is not made for the user leaves his rows, but for the sweep. -/
theorem step_other {e : Request} {es : List Request} (hs : Fresh s (e::es)) {c : Call} {user : String} (he : e.call = some c)
    (hc : c.user = some user) (hne : user ≠ u) : (view u (step T D s e)).rows = (view u s).rows := by
  unfold step
  simp only [he]
  exact perform_other hc hne (fresh_uuids hs).1 (fresh_uuids hs).2

/-- Another user's request is left out of the second run only. -/
theorem alike_left_out {s' : InMemory.MemStore} (h : Alike u s s') {e : Request} {es : List Request} (hs : Fresh s (e::es))
    {c : Call} {v : String} (he : e.call = some c) (hc : c.user = some v) (huv : u ≠ v) :
    Alike u (step T D s e) (step T D s' { e with call := none }) := by
  constructor
  · rw [step_other hs he hc (Ne.symm huv)]
    exact h.rows
  · rw [step_now, step_now, h.now]

/-- The same request is made in both runs. -/
theorem alike_step {s' : InMemory.MemStore} (h : Alike u s s') {e : Request} {es es' : List Request} (hs : Fresh s (e::es))
    (hs' : Fresh s' (e::es')) : Alike u (step T D s e) (step T D s' e) := by
  refine ⟨?_,by rw [step_now, step_now, h.now]⟩
  cases he : e.call with
  | none =>
    unfold step
    simp only [he]
    exact congrArg Store.rows (alike_reach h e)
  | some c =>
    cases hc : c.user with
    | none =>
      have hpurge : c = .perform .purgeExpired := by
        cases c with
        | perform op => cases op <;> first | rfl | cases hc
        | eraseAll user => cases hc
        | profileBlock user projectUuid agentUuid => cases hc
      unfold step
      simp only [he, hpurge]
      show (view u (purgeExpired (reach s e)).2).rows = (view u (purgeExpired (reach s' e)).2).rows
      rw [purge_view, purge_view, alike_reach h e]
    | some user =>
      by_cases huser : user = u
      · subst huser
        have hseen := @perform_seen T D user (reach s e) c hc
        have hseen' := @perform_seen T D user (reach s' e) c hc
        unfold SeenIn at hseen hseen'
        rw [alike_reach h e, hseen'] at hseen
        unfold step
        simp only [he]
        exact congrArg (fun r => r.2.rows) hseen.symm
      · rw [step_other hs he hc huser, step_other hs' he hc huser]
        exact h.rows

theorem leaveOut_made {e : Request} {c : Call} {v : String} (he : e.call = some c) (hc : c.user = some v) :
    leaveOut v e = { e with call := none } := by
  simp [leaveOut, he, hc]

theorem leaveOut_other {e : Request} {v : String} (h : ¬∃ c, e.call = some c ∧ c.user = some v) : leaveOut v e = e := by
  have hsame : e.call.filter (fun c => c.user ≠ some v) = e.call := by
    cases he : e.call with
    | none => rfl
    | some c =>
      have hc : c.user ≠ some v := fun hc => h ⟨c,he,hc⟩
      simp [hc]
  rw [leaveOut, hsame]

theorem alike_run {u v : String} (huv : u ≠ v) (es : List Request) {s s' : InMemory.MemStore} (h : Alike u s s')
    (hs : Fresh s es) (hs' : Fresh s' (without v es)) :
    Alike u (run (step T D) es s) (run (step T D) (without v es) s') := by
  induction es generalizing s s' with
  | nil => exact h
  | cons e es ih =>
    have hs'' : Fresh s' (leaveOut v e::without v es) := hs'
    apply ih
    · by_cases hmade : ∃ c, e.call = some c ∧ c.user = some v
      · obtain ⟨c,he,hc⟩ := hmade
        show Alike u (step T D s e) (step T D s' (leaveOut v e))
        rw [leaveOut_made he hc]
        exact alike_left_out h hs he hc huv
      · rw [leaveOut_other hmade] at hs''
        show Alike u (step T D s e) (step T D s' (leaveOut v e))
        rw [leaveOut_other hmade]
        exact alike_step h hs hs''
    · exact fresh_step hs
    · exact fresh_step hs''

/-- The rows of a user. -/
def userRows (u : String) (s : InMemory.MemStore) : List (Row MemPlace) := s.rows.filter (fun r => r.userUuid = u)

/-- What is done for one user changes neither the rows of another nor any of his answers. -/
theorem users_isolated (T : Texts) (D : Dates) {u v : String} (huv : u ≠ v) (s : InMemory.MemStore) (es : List Request)
    (hdrawn : (s.rows.map Row.uuid++es.map Request.drawn).Nodup) :
    userRows u (run (step T D) es s) = userRows u (run (step T D) (without v es) s) ∧
      ∀ (e : Request) (c : Call), c.user = some u →
        (perform T D (reach (run (step T D) es s) e) c).1 = (perform T D (reach (run (step T D) (without v es) s) e) c).1 := by
  have hdrawn' : Fresh s (without v es) := by
    unfold Fresh without
    rw [List.map_map]
    exact hdrawn
  have halike := @alike_run T D u v huv es s s ⟨rfl,rfl⟩ hdrawn hdrawn'
  refine ⟨halike.rows,?_⟩
  intro e c hc
  have hseen := @perform_seen T D u (reach (run (step T D) es s) e) c hc
  have hseen' := @perform_seen T D u (reach (run (step T D) (without v es) s) e) c hc
  unfold SeenIn at hseen hseen'
  rw [alike_reach halike e, hseen'] at hseen
  exact (congrArg Prod.fst hseen).symm

def numbers : Dates := ⟨toString,toString⟩

/-- A durable fact about a user. -/
def fact (user content : String) : WriteReq where
  userUuid := user
  scope := .user
  projectUuid := none
  tier := .profile
  kind := "fact"
  key := some "editor"
  content := content
  source := "user_said"
  confidence := 1
  expiresIn := none
  createdBy := "agent"

def twoUsers : List Request :=
  [⟨1,10,some (.perform (.write (fact "ana" "vim") []))⟩,⟨1,11,some (.perform (.write (fact "bob" "emacs") []))⟩,
    ⟨1,12,some (.perform (.correct "bob" 10 "ed" []))⟩,⟨1,13,some (.perform (.forget "bob" (.uuid 10)))⟩,
    ⟨1,14,some (.eraseAll "bob")⟩,⟨1,15,some (.perform (.write (fact "ana" "helix") []))⟩]

/-- One user writes, corrects, forgets and erases, with the uuid of the other's row; the other replaces his
own row as if alone. -/
theorem ana_unaware_of_bob :
    userRows "ana" (run (step asciiTexts numbers) twoUsers Store.empty) =
      userRows "ana" (run (step asciiTexts numbers) (without "bob" twoUsers) Store.empty) ∧
    (userRows "ana" (run (step asciiTexts numbers) twoUsers Store.empty)).map Row.supersededBy = [some 15,none] :=
  ⟨(users_isolated asciiTexts numbers (u := "ana") (v := "bob") (by decide) Store.empty twoUsers (by decide)).1,
    by decide +kernel⟩

end DevForge.MemoryIsolation
