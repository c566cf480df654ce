import DevForge.OAuthGrants
import DevForge.Transition

/-!
# Grants are used once, and revoked for good

Tokens are issued once for a code and once for a refresh token, and a family
has one unrevoked refresh token or one call about to insert it. A family that
is revoked while no call is about to insert stays revoked.
-/

set_option autoImplicit false

namespace DevForge.GrantsRevoked
open OAuthGrants Transition

/-- No call is about to insert a token of the family. -/
def NoIssue (s : State) (family : String) : Prop :=
  ∀ pc ∈ s.calls, ∀ i ∈ pc.issue, i.family ≠ family

def AllRevoked (s : State) (family : String) : Prop :=
  ∀ e ∈ s.tokens.rows, e.2.family = family → e.2.revokedAt ≠ none

instance (s : State) (family : String) : Decidable (NoIssue s family) := by
  unfold NoIssue
  infer_instance

instance (s : State) (family : String) : Decidable (AllRevoked s family) := by
  unfold AllRevoked
  infer_instance

def Quiet (s : State) (family : String) : Prop := AllRevoked s family ∧ NoIssue s family

instance (s : State) (family : String) : Decidable (Quiet s family) := by
  unfold Quiet
  infer_instance

/-- A revocation falls while no call is about to insert a token of the family, and it
succeeds. The answers that a replayed code gets without a revocation (its row was
deleted, or the claim came second) fall where there is nothing left to revoke. -/
def Orderly (k : Crypto) (s : State) : Action → Prop
  | .next n o =>
    match s.calls[n]? with
    | some (.readCode p) => o.ok = true → s.codes.get (k.tokenHash p.code) = none →
        Origin.code (k.tokenHash p.code) ∈ s.issues → Quiet s (codeFamily (k.tokenHash p.code))
    | some (.replayed hash) =>
        NoIssue s (codeFamily hash) ∧ (o.ok = true ∨ AllRevoked s (codeFamily hash))
    | some (.claim p _) =>
        Origin.code (k.tokenHash p.code) ∈ s.issues → Quiet s (codeFamily (k.tokenHash p.code))
    | some (.readToken tok) => o.ok = false → ∀ row ∈ s.tokens.get (k.tokenHash tok),
        row.kind = .refresh → Quiet s row.family
    | some (.revokeFamily family) => NoIssue s family ∧ (o.ok = true ∨ AllRevoked s family)
    | some (.revokeGrant _ family) => o.ok = true → NoIssue s family
    | _ => True
  | _ => True

instance (k : Crypto) (s : State) (a : Action) : Decidable (Orderly k s a) := by
  unfold Orderly
  split
  · split <;> infer_instance
  · infer_instance

/-- A family has at most one unrevoked refresh token. -/
def OneRefresh (s : State) : Prop :=
  ∀ r row r' row', s.tokens.get r = some row → s.tokens.get r' = some row' →
    row.kind = .refresh → row'.kind = .refresh → row.revokedAt = none → row'.revokedAt = none →
    row.family = row'.family → r = r'

/-- The family whose refresh token a call is accepted with, in its next statement. -/
def accepts (k : Crypto) (s : State) (n : ℕ) (o : Outside) : Option String :=
  match s.calls[n]? with
  | some (.rotate p row) =>
    if o.ok = true ∧ (s.tokens.affected (rotates (k.tokenHash p.refreshToken))).length = 1 then
      some row.family
    else none
  | _ => none

/-- No token of a family is accepted once its revocation has returned. -/
structure RevokedForGood (k : Crypto) (s : State) : Prop where
  access : ∀ family ∈ s.revoked, ∀ tok row, s.tokens.get (k.tokenHash tok) = some row →
    row.family = family → ∀ users now scope, resolveAccessTokenScoped k users s now tok scope = none
  refresh : ∀ family ∈ s.revoked, ∀ n o, accepts k s n o ≠ some family

/-! ## What the statements do -/

def IssueAt (s : State) (n : ℕ) (i : Issue) : Prop := ∃ pc, s.calls[n]? = some pc ∧ pc.issue = some i

/-- A step of the system, as far as codes, tokens and issues are concerned. -/
inductive Change (s s' : State) : Prop
  | keep (p : String → TokenRow → Bool) (now : ℕ)
      (htok : ∀ r, s'.tokens.get r =
        (s.tokens.get r).map (fun row => if p r row then revokeRow now r row else row))
      (hissues : s'.issues = s.issues)
      (hcodes : ∀ h row, s'.codes.get h = some row →
        s.codes.get h = some row ∨ (h ∉ s.approved ∧ h ∈ s'.approved))
      (happroved : ∀ h ∈ s.approved, h ∈ s'.approved)
      (hcalls : ∀ n i, IssueAt s' n i → IssueAt s n i)
  | claim (n : ℕ) (i : Issue) (h : String) (row : CodeRow) (hrow : s.codes.get h = some row)
      (hunused : row.usedAt = none) (htok : s'.tokens = s.tokens)
      (hissues : s'.issues = .code h::s.issues) (happroved : s'.approved = s.approved)
      (hcodes : ∀ h' row', s'.codes.get h' = some row' → (row'.usedAt = none → h' ≠ h) ∧
        ∃ row₀, s.codes.get h' = some row₀ ∧ (row'.usedAt = none → row₀.usedAt = none))
      (hfamily : i.family = codeFamily h)
      (hcalls : ∀ m j, IssueAt s' m j → m = n ∧ j = i ∨ m ≠ n ∧ IssueAt s m j)
  | rotate (n : ℕ) (i : Issue) (r : String) (row : TokenRow) (now : ℕ)
      (hrow : s.tokens.get r = some row) (hkind : row.kind = .refresh)
      (hvalid : row.revokedAt = none)
      (htok : ∀ r', s'.tokens.get r' =
        (s.tokens.get r').map (fun row => if rotates r r' row then revokeRow now r' row else row))
      (hissues : s'.issues = .refresh r::s.issues) (happroved : s'.approved = s.approved)
      (hcodes : s'.codes = s.codes) (hfamily : i.family = row.family)
      (huser : i.userUuid = row.userUuid)
      (hcalls : ∀ m j, IssueAt s' m j → m = n ∧ j = i ∨ m ≠ n ∧ IssueAt s m j)
  | insert (n : ℕ) (i : Issue) (r : String) (row : TokenRow) (hi : IssueAt s n i)
      (hnew : s.tokens.get r = none)
      (htok : ∀ r', s'.tokens.get r' = if r' = r then some row else s.tokens.get r')
      (hissues : s'.issues = s.issues) (happroved : s'.approved = s.approved)
      (hcodes : s'.codes = s.codes) (hfamily : row.family = i.family)
      (huser : row.userUuid = i.userUuid)
      (hcalls : ∀ m j, IssueAt s' m j → IssueAt s m j)
      (hdone : row.kind = .refresh → ∀ j, ¬IssueAt s' n j)

theorem issueAt_set {s s' : State} {n : ℕ} {pc : Pc} (hcalls : s'.calls = s.calls.set n pc) (m : ℕ)
    (j : Issue) (h : IssueAt s' m j) : m = n ∧ pc.issue = some j ∨ m ≠ n ∧ IssueAt s m j := by
  obtain ⟨q,hq,hj⟩ := h
  rw [hcalls] at hq
  by_cases hm : m = n
  · subst hm
    have hlt := (List.getElem?_eq_some_iff.mp hq).1
    rw [List.length_set] at hlt
    rw [List.getElem?_set_self hlt, Option.some.injEq] at hq
    subst hq
    exact Or.inl ⟨rfl,hj⟩
  · rw [List.getElem?_set_ne (Ne.symm hm)] at hq
    exact Or.inr ⟨hm,q,hq,hj⟩

/-- A statement that revokes rows, after which its call issues nothing. -/
theorem Change.of_update {s s' : State} (p : String → TokenRow → Bool) (now n : ℕ) (pc : Pc)
    (hcodes : s'.codes = s.codes) (htok : s'.tokens = s.tokens.update p (revokeRow now))
    (hissues : s'.issues = s.issues) (happroved : s'.approved = s.approved)
    (hcalls : s'.calls = s.calls.set n pc) (hpc : pc.issue = none) : Change s s' := by
  apply Change.keep p now
  · intro r
    rw [htok, Table.get_update]
  · exact hissues
  · intro h row hrow
    rw [hcodes] at hrow
    exact Or.inl hrow
  · intro h hh
    rwa [happroved]
  · intro m j hj
    rcases issueAt_set hcalls m j hj with ⟨-,he⟩ | ⟨-,hj⟩
    · rw [hpc] at he
      exact absurd he (by simp)
    · exact hj

theorem Change.refl (s : State) : Change s s := by
  apply Change.keep (fun _ _ => false) 0
  · intro r
    simp
  · rfl
  · exact fun _ _ h => Or.inl h
  · exact fun _ h => h
  · exact fun _ _ h => h

theorem Change.of_goto {s s' : State} (n : ℕ) (pc : Pc) (hcodes : s'.codes = s.codes)
    (htok : s'.tokens = s.tokens) (hissues : s'.issues = s.issues)
    (happroved : s'.approved = s.approved) (hcalls : s'.calls = s.calls.set n pc)
    (hpc : pc.issue = none) : Change s s' := by
  apply Change.keep (fun _ _ => false) 0
  · intro r
    simp [htok]
  · exact hissues
  · intro h row hrow
    rw [hcodes] at hrow
    exact Or.inl hrow
  · intro h hh
    rwa [happroved]
  · intro m j hj
    rcases issueAt_set hcalls m j hj with ⟨-,he⟩ | ⟨-,hj⟩
    · rw [hpc] at he
      exact absurd he (by simp)
    · exact hj

/-- What a call has read of its refresh token, or of the token to revoke. -/
def PcOk (k : Crypto) (s : State) : Pc → Prop
  | .authRefresh p row => ∃ cur, s.tokens.get (k.tokenHash p.refreshToken) = some cur ∧
      cur.kind = .refresh ∧ cur.family = row.family ∧ cur.userUuid = row.userUuid
  | .rotate p row => ∃ cur, s.tokens.get (k.tokenHash p.refreshToken) = some cur ∧
      cur.kind = .refresh ∧ cur.family = row.family ∧ cur.userUuid = row.userUuid
  | .revokeFamily family => ∃ h, family = codeFamily h ∧ Origin.code h ∈ s.issues
  | _ => True

theorem exists_of_affected {κ ρ : Type*} [DecidableEq κ] {t : Table κ ρ} {p : κ → ρ → Bool}
    (h : t.affected p ≠ []) : ∃ r row, t.get r = some row ∧ p r row := by
  obtain ⟨r,hr⟩ := List.exists_mem_of_ne_nil _ h
  obtain ⟨row,hrow,hp⟩ := (Table.mem_affected_iff t p r).mp hr
  exact ⟨r,row,hrow,hp⟩

theorem rotates_iff {hash r : String} {row : TokenRow} :
    rotates hash r row = true ↔ r = hash ∧ row.revokedAt = none := by
  simp [rotates]

theorem claims_iff {hash h : String} {row : CodeRow} :
    claims hash h row = true ↔ h = hash ∧ row.usedAt = none := by
  simp [claims]

theorem ofFamily_iff {family r : String} {row : TokenRow} :
    ofFamily family r row = true ↔ row.family = family ∧ row.revokedAt = none := by
  simp [ofFamily]

section
variable (k : Crypto)

theorem claim_change (o : Outside) (s : State) (n : ℕ) (p : Params) (row : CodeRow) :
    Change s (claim k o s n p row) := by
  simp only [claim]
  split
  case isTrue h =>
    obtain ⟨hash,cur,hcur,hp⟩ := exists_of_affected (t := s.codes)
      (p := claims (k.tokenHash p.code)) (by intro he; simp [he] at h)
    obtain ⟨rfl,hunused⟩ := claims_iff.mp hp
    refine Change.claim n (issueOf o row.clientId row.clientName row.userUuid row.scope
      (if p.resource ≠ "" then p.resource else row.resource) (codeFamily (k.tokenHash p.code)))
      (k.tokenHash p.code) cur hcur hunused rfl rfl rfl ?_ rfl ?_
    · intro h' row' hrow'
      rw [Table.get_update, Option.map_eq_some_iff] at hrow'
      obtain ⟨row₀,hrow₀,rfl⟩ := hrow'
      refine ⟨?_,row₀,hrow₀,?_⟩
      · rintro hnone rfl
        by_cases hc : row₀.usedAt = none
        · rw [if_pos (claims_iff.mpr ⟨rfl,hc⟩)] at hnone
          simp at hnone
        · rw [if_neg (by rw [claims_iff]; exact fun hh => hc hh.2)] at hnone
          exact hc hnone
      · intro hnone
        split at hnone
        · simp at hnone
        · exact hnone
    · intro m j hj
      rcases issueAt_set rfl m j hj with ⟨rfl,he⟩ | hj
      · exact Or.inl ⟨rfl,(Option.some.inj he).symm⟩
      · exact Or.inr hj
  case isFalse =>
    unfold State.replayAnswered
    split
    all_goals exact Change.of_goto n (.returned (invalidGrant "Code déjà utilisé")) rfl rfl rfl rfl rfl rfl

theorem rotate_change (o : Outside) (s : State) (n : ℕ) (p : Params) (row : TokenRow)
    (hpc : PcOk k s (.rotate p row)) : Change s (rotate k o s n p row) := by
  simp only [rotate]
  split
  case isTrue h =>
    obtain ⟨hash,cur,hcur,hp⟩ := exists_of_affected (t := s.tokens)
      (p := rotates (k.tokenHash p.refreshToken)) (by intro he; simp [he] at h)
    obtain ⟨rfl,hvalid⟩ := rotates_iff.mp hp
    obtain ⟨cur',hcur',hkind,hfamily,huser⟩ := hpc
    obtain rfl := Option.some.inj (hcur.symm.trans hcur')
    refine Change.rotate n (issueOf o row.clientId row.clientName row.userUuid row.scope
      row.resource row.family) (k.tokenHash p.refreshToken) cur o.now hcur hkind hvalid ?_ rfl rfl rfl
      hfamily.symm huser.symm ?_
    · intro r
      exact Table.get_update _ _ _ r
    · intro m j hj
      rcases issueAt_set rfl m j hj with ⟨rfl,he⟩ | hj
      · exact Or.inl ⟨rfl,(Option.some.inj he).symm⟩
      · exact Or.inr hj
  case isFalse =>
    exact Change.of_goto n (.returned (invalidGrant "refresh_token déjà utilisé")) rfl rfl rfl rfl rfl rfl

theorem inserts_iff {o : Outside} {t : Table String TokenRow} {hash : String} :
    inserts o t hash = true ↔ o.ok = true ∧ hash ∉ t.keys := by
  simp [inserts]

theorem insertAccess_change (o : Outside) (s : State) (n : ℕ) (i : Issue)
    (hn : s.calls[n]? = some (.insertAccess i)) : Change s (insertAccess k o s n i) := by
  simp only [insertAccess]
  split
  case isTrue h =>
    have hnew := (inserts_iff.mp h).2
    refine Change.insert n i (k.tokenHash i.access) (i.row .access i.accessExp) ⟨_,hn,rfl⟩
      ((Table.get_none_iff _ _).mpr hnew) ?_ rfl rfl rfl rfl rfl ?_ ?_
    · intro r
      rw [Table.get_insert]
      simp [hnew]
    · intro m j hj
      rcases issueAt_set rfl m j hj with ⟨rfl,he⟩ | hj
      · obtain rfl := Option.some.inj he
        exact ⟨_,hn,rfl⟩
      · exact hj.2
    · intro hkind
      exact absurd hkind (by simp [Issue.row])
  case isFalse =>
    exact Change.of_goto n (.returned (serverError o)) rfl rfl rfl rfl rfl rfl

theorem insertRefresh_change (o : Outside) (s : State) (n : ℕ) (i : Issue)
    (hn : s.calls[n]? = some (.insertRefresh i)) : Change s (insertRefresh k o s n i) := by
  simp only [insertRefresh]
  split
  case isTrue h =>
    have hnew := (inserts_iff.mp h).2
    refine Change.insert n i (k.tokenHash i.refresh) (i.row .refresh i.refreshExp) ⟨_,hn,rfl⟩
      ((Table.get_none_iff _ _).mpr hnew) ?_ rfl rfl rfl rfl rfl ?_ ?_
    · intro r
      rw [Table.get_insert]
      simp [hnew]
    · intro m j hj
      rcases issueAt_set rfl m j hj with ⟨-,he⟩ | hj
      · simp [Pc.issue] at he
      · exact hj.2
    · intro _ j hj
      rcases issueAt_set rfl n j hj with ⟨-,he⟩ | hj
      · simp [Pc.issue] at he
      · exact hj.1 rfl
  case isFalse =>
    exact Change.of_goto n (.returned (serverError o)) rfl rfl rfl rfl rfl rfl

theorem checkCode_issue (now : ℕ) (p : Params) (row : CodeRow) :
    (checkCode k now p row).issue = none := by
  unfold checkCode
  split
  · rfl
  split
  · rfl
  split
  · rfl
  split <;> rfl

theorem begin_issue (r : Request) : r.begin.issue = none := by
  cases r with
  | token grantType p =>
    simp only [Request.begin]
    split
    · split <;> rfl
    · split
      · split <;> rfl
      · rfl
  | revoke tok =>
    simp only [Request.begin]
    split <;> rfl
  | revokeGrant userUuid family => rfl

theorem next_change (o : Outside) (s : State) (n : ℕ) (pc : Pc) (hn : s.calls[n]? = some pc)
    (hpc : PcOk k s pc) : Change s (next k o s n pc) := by
  cases pc with
  | readCode p =>
    simp only [next, readCode]
    split
    · split
      · unfold State.replayAnswered
        split
        all_goals exact Change.of_goto n (.returned (invalidGrant "Code inconnu")) rfl rfl rfl rfl rfl rfl
      · split
        · exact Change.of_goto n (.returned (invalidGrant "Code émis pour un autre client"))
            rfl rfl rfl rfl rfl rfl
        · exact Change.of_goto n (.authCode p _) rfl rfl rfl rfl rfl rfl
    · exact Change.of_goto n (.returned (serverError o)) rfl rfl rfl rfl rfl rfl
  | authCode p row =>
    simp only [next, authCode]
    split
    · exact Change.of_goto n (.returned _) rfl rfl rfl rfl rfl rfl
    · exact Change.of_goto n (checkCode k o.now p row) rfl rfl rfl rfl rfl (checkCode_issue k _ _ _)
  | replayed hash =>
    simp only [next, replayed, State.replayAnswered]
    by_cases ho : o.ok = true
    · simp only [ho, if_true]
      split
      · exact Change.of_update (ofFamily (codeFamily hash)) o.now n
          (.returned (invalidGrant "Code déjà utilisé")) rfl rfl rfl rfl rfl rfl
      · exact Change.of_update (ofFamily (codeFamily hash)) o.now n
          (.returned (invalidGrant "Code déjà utilisé")) rfl rfl rfl rfl rfl rfl
    · simp only [ho, Bool.false_eq_true, if_false]
      split
      all_goals exact Change.of_goto n (.returned (invalidGrant "Code déjà utilisé")) rfl rfl rfl rfl rfl rfl
  | claim p row => exact claim_change k o s n p row
  | readRefresh p =>
    simp only [next, readRefresh]
    split
    · split
      · exact Change.of_goto n (.returned (invalidGrant "refresh_token inconnu")) rfl rfl rfl rfl rfl rfl
      · split
        · exact Change.of_goto n (.returned (invalidGrant "refresh_token d’un autre client"))
            rfl rfl rfl rfl rfl rfl
        · exact Change.of_goto n (.authRefresh p _) rfl rfl rfl rfl rfl rfl
    · exact Change.of_goto n (.returned (serverError o)) rfl rfl rfl rfl rfl rfl
  | authRefresh p row =>
    simp only [next, authRefresh]
    split
    · exact Change.of_goto n (.returned _) rfl rfl rfl rfl rfl rfl
    · split
      · exact Change.of_goto n (.returned (invalidGrant "refresh_token expiré ou révoqué"))
          rfl rfl rfl rfl rfl rfl
      · exact Change.of_goto n (.rotate p row) rfl rfl rfl rfl rfl rfl
  | rotate p row => exact rotate_change k o s n p row hpc
  | insertAccess i => exact insertAccess_change k o s n i hn
  | insertRefresh i => exact insertRefresh_change k o s n i hn
  | readToken tok =>
    simp only [next, readToken]
    split
    · exact Change.of_goto n (.returned .ok) rfl rfl rfl rfl rfl rfl
    · split
      · split
        · exact Change.of_goto n (.revokeFamily _) rfl rfl rfl rfl rfl rfl
        · exact Change.of_goto n (.revokeToken tok) rfl rfl rfl rfl rfl rfl
      · split
        all_goals exact Change.of_goto n (.returned .ok) rfl rfl rfl rfl rfl rfl
  | revokeFamily family =>
    simp only [next, revokeFamily]
    split
    · exact Change.of_update (ofFamily family) o.now n (.returned .ok) rfl rfl rfl rfl rfl rfl
    · exact Change.of_goto n (.returned .ok) rfl rfl rfl rfl rfl rfl
  | revokeToken tok =>
    simp only [next, revokeToken]
    split
    · exact Change.of_update (fun h _ => h = k.tokenHash tok) o.now n (.returned .ok) rfl rfl rfl rfl rfl rfl
    · exact Change.of_goto n (.returned .ok) rfl rfl rfl rfl rfl rfl
  | revokeGrant userUuid family =>
    simp only [next, revokeGrant]
    split
    · split
      · exact Change.of_goto n (.returned _) rfl rfl rfl rfl rfl rfl
      · exact Change.of_update (ofGrant userUuid family) o.now n (.returned .ok) rfl rfl rfl rfl rfl rfl
    · exact Change.of_goto n (.returned _) rfl rfl rfl rfl rfl rfl
  | returned a => exact Change.refl s
  | dropped => exact Change.refl s

def Reads (s : State) : Prop := ∀ (n : ℕ) pc, s.calls[n]? = some pc → PcOk k s pc

theorem step_change (s : State) (a : Action) (hreads : Reads k s) : Change s (step k s a) := by
  cases a with
  | approve code row =>
    simp only [step, approve]
    split
    · exact Change.refl s
    · rename_i hnew
      apply Change.keep (fun _ _ => false) 0
      · intro r
        simp
      · rfl
      · intro h row' hrow'
        simp only [Table.get_insert] at hrow'
        split at hrow'
        · rename_i hh
          rw [hh.1]
          exact Or.inr ⟨hnew,List.mem_cons_self⟩
        · exact Or.inl hrow'
      · exact fun _ h => List.mem_cons_of_mem _ h
      · exact fun _ _ h => h
  | cleanup now =>
    apply Change.keep (fun _ _ => false) 0
    · intro r
      simp [step]
    · rfl
    · intro h row hrow
      simp only [step, Table.get_delete] at hrow
      exact Or.inl (Option.filter_eq_some_iff.mp hrow).1
    · exact fun _ h => h
    · exact fun _ _ h => h
  | clients t =>
    apply Change.keep (fun _ _ => false) 0
    · intro r
      simp [step]
    · rfl
    · exact fun _ _ h => Or.inl h
    · exact fun _ h => h
    · exact fun _ _ h => h
  | call r =>
    apply Change.keep (fun _ _ => false) 0
    · intro r
      simp [step]
    · rfl
    · exact fun _ _ h => Or.inl h
    · exact fun _ h => h
    · rintro n i ⟨pc,hpc,hi⟩
      simp only [step] at hpc
      by_cases hlt : n < s.calls.length
      · rw [List.getElem?_append_left hlt] at hpc
        exact ⟨pc,hpc,hi⟩
      · have hmem := List.mem_of_getElem? hpc
        rw [List.getElem?_append_right (by omega)] at hpc
        have : pc = r.begin := by simpa using List.mem_of_getElem? hpc
        rw [this, begin_issue] at hi
        simp at hi
  | next n o =>
    simp only [step]
    split
    · rename_i pc hpc
      exact next_change k o s n pc hpc (hreads n pc hpc)
    · exact Change.refl s
  | drop n =>
    simp only [step]
    split
    · exact Change.refl s
    · exact Change.of_goto n .dropped rfl rfl rfl rfl rfl rfl
    · exact Change.refl s

/-! ## What a call has read stays true -/

theorem Change.token_stays {s s' : State} (h : Change s s') {r : String} {row : TokenRow}
    (hr : s.tokens.get r = some row) : ∃ row', s'.tokens.get r = some row' ∧ row'.kind = row.kind ∧
      row'.family = row.family ∧ row'.userUuid = row.userUuid ∧
      (row.revokedAt ≠ none → row'.revokedAt ≠ none) := by
  have hupdate : ∀ (p : String → TokenRow → Bool) now, s'.tokens.get r =
      (s.tokens.get r).map (fun row => if p r row then revokeRow now r row else row) →
      ∃ row', s'.tokens.get r = some row' ∧ row'.kind = row.kind ∧ row'.family = row.family ∧
        row'.userUuid = row.userUuid ∧ (row.revokedAt ≠ none → row'.revokedAt ≠ none) := by
    intro p now htok
    rw [hr, Option.map_some] at htok
    refine ⟨_,htok,?_⟩
    split <;> simp [revokeRow]
  cases h with
  | keep p now htok hissues hcodes happroved hcalls => exact hupdate p now (htok r)
  | claim n i h row hrow hunused htok hissues happroved hcodes hfamily hcalls =>
    rw [htok]
    exact ⟨_,hr,rfl,rfl,rfl,id⟩
  | rotate n i r' row now hrow hkind hvalid htok hissues happroved hcodes hfamily huser hcalls =>
    exact hupdate (rotates r') now (htok r)
  | insert n i r' row hi hnew htok hissues happroved hcodes hfamily huser hcalls hdone =>
    have hne : r ≠ r' := by
      rintro rfl
      rw [hr] at hnew
      simp at hnew
    rw [htok, if_neg hne]
    exact ⟨_,hr,rfl,rfl,rfl,id⟩

theorem Change.issues_stay {s s' : State} (h : Change s s') {x : Origin} (hx : x ∈ s.issues) :
    x ∈ s'.issues := by
  cases h with
  | keep p now htok hissues hcodes happroved hcalls => rwa [hissues]
  | claim n i h row hrow hunused htok hissues happroved hcodes hfamily hcalls =>
    rw [hissues]
    exact List.mem_cons_of_mem _ hx
  | rotate n i r row now hrow hkind hvalid htok hissues happroved hcodes hfamily huser hcalls =>
    rw [hissues]
    exact List.mem_cons_of_mem _ hx
  | insert n i r row hi hnew htok hissues happroved hcodes hfamily huser hcalls hdone => rwa [hissues]

theorem PcOk.stays {s s' : State} (h : Change s s') {pc : Pc} (hpc : PcOk k s pc) : PcOk k s' pc := by
  cases pc with
  | authRefresh p row =>
    obtain ⟨cur,hcur,h1,h2,h3⟩ := hpc
    obtain ⟨cur',hcur',e1,e2,e3,-⟩ := h.token_stays hcur
    exact ⟨cur',hcur',e1.trans h1,e2.trans h2,e3.trans h3⟩
  | rotate p row =>
    obtain ⟨cur,hcur,h1,h2,h3⟩ := hpc
    obtain ⟨cur',hcur',e1,e2,e3,-⟩ := h.token_stays hcur
    exact ⟨cur',hcur',e1.trans h1,e2.trans h2,e3.trans h3⟩
  | revokeFamily family =>
    obtain ⟨hash,hf,hi⟩ := hpc
    exact ⟨hash,hf,h.issues_stay hi⟩
  | _ => trivial

end

/-! ## One holder for a family -/

/-- A token of the family, or a call about to insert one. -/
def Member (s : State) (family userUuid : String) : Prop :=
  (∃ r row, s.tokens.get r = some row ∧ row.family = family ∧ row.userUuid = userUuid) ∨
    ∃ n i, IssueAt s n i ∧ i.family = family ∧ i.userUuid = userUuid

inductive Holder
  | token (hash : String)
  | call (n : ℕ)

def Holds (s : State) (family : String) : Holder → Prop
  | .token r => ∃ row, s.tokens.get r = some row ∧ row.kind = .refresh ∧ row.revokedAt = none ∧
      row.family = family
  | .call n => ∃ i, IssueAt s n i ∧ i.family = family

theorem Holds.member {s : State} {family : String} {x : Holder} (h : Holds s family x) :
    ∃ u, Member s family u := by
  cases x with
  | token r =>
    obtain ⟨row,hr,-,-,hf⟩ := h
    exact ⟨_,Or.inl ⟨r,row,hr,hf,rfl⟩⟩
  | call n =>
    obtain ⟨i,hi,hf⟩ := h
    exact ⟨_,Or.inr ⟨n,i,hi,hf,rfl⟩⟩

theorem codeFamily_inj {h h' : String} (he : codeFamily h = codeFamily h') : h = h' :=
  (String.append_right_inj "code:").mp he

structure Inv (s : State) : Prop where
  approved : ∀ h row, s.codes.get h = some row → h ∈ s.approved
  issuedApproved : ∀ h, Origin.code h ∈ s.issues → h ∈ s.approved
  unused : ∀ h row, s.codes.get h = some row → row.usedAt = none → Origin.code h ∉ s.issues
  rotated : ∀ r, Origin.refresh r ∈ s.issues → ∃ row, s.tokens.get r = some row ∧ row.revokedAt ≠ none
  once : s.issues.Nodup
  members : ∀ family u, Member s family u → ∃ h, family = codeFamily h ∧ Origin.code h ∈ s.issues
  sameUser : ∀ family u u', Member s family u → Member s family u' → u = u'
  holders : ∀ family x y, Holds s family x → Holds s family y → x = y

theorem start_inv (clients : Table String Client) : Inv (OAuthGrants.start clients) where
  approved := by simp [OAuthGrants.start]
  issuedApproved := by simp [OAuthGrants.start]
  unused := by simp [OAuthGrants.start]
  rotated := by simp [OAuthGrants.start]
  once := by simp [OAuthGrants.start]
  members := by
    rintro family u (⟨r,row,hr,-⟩ | ⟨n,i,⟨pc,hpc,-⟩,-⟩)
    · simp [OAuthGrants.start] at hr
    · simp [OAuthGrants.start] at hpc
  sameUser := by
    rintro family u u' (⟨r,row,hr,-⟩ | ⟨n,i,⟨pc,hpc,-⟩,-⟩)
    · simp [OAuthGrants.start] at hr
    · simp [OAuthGrants.start] at hpc
  holders := by
    rintro family (r | n) y hx
    · obtain ⟨row,hr,-⟩ := hx
      simp [OAuthGrants.start] at hr
    · obtain ⟨i,⟨pc,hpc,-⟩,-⟩ := hx
      simp [OAuthGrants.start] at hpc

/-- A token is an earlier one, or a call has inserted it. -/
theorem Change.token_back {s s' : State} (h : Change s s') {r : String} {row' : TokenRow}
    (hr : s'.tokens.get r = some row') :
    (∃ row, s.tokens.get r = some row ∧ row'.kind = row.kind ∧ row'.family = row.family ∧
      row'.userUuid = row.userUuid ∧ (row'.revokedAt = none → row.revokedAt = none)) ∨
    ∃ n i, IssueAt s n i ∧ row'.family = i.family ∧ row'.userUuid = i.userUuid ∧
      (row'.kind = .refresh → ∀ j, ¬IssueAt s' n j) := by
  have hupdate : ∀ (p : String → TokenRow → Bool) now, s'.tokens.get r =
      (s.tokens.get r).map (fun row => if p r row then revokeRow now r row else row) →
      ∃ row, s.tokens.get r = some row ∧ row'.kind = row.kind ∧ row'.family = row.family ∧
        row'.userUuid = row.userUuid ∧ (row'.revokedAt = none → row.revokedAt = none) := by
    intro p now htok
    rw [hr, eq_comm, Option.map_eq_some_iff] at htok
    obtain ⟨row,hrow,rfl⟩ := htok
    refine ⟨row,hrow,?_⟩
    split <;> simp [revokeRow]
  cases h with
  | keep p now htok hissues hcodes happroved hcalls => exact Or.inl (hupdate p now (htok r))
  | claim n i h row hrow hunused htok hissues happroved hcodes hfamily hcalls =>
    rw [htok] at hr
    exact Or.inl ⟨_,hr,rfl,rfl,rfl,id⟩
  | rotate n i r' row now hrow hkind hvalid htok hissues happroved hcodes hfamily huser hcalls =>
    exact Or.inl (hupdate (rotates r') now (htok r))
  | insert n i r' row hi hnew htok hissues happroved hcodes hfamily huser hcalls hdone =>
    rw [htok] at hr
    split at hr
    · obtain rfl := Option.some.inj hr
      exact Or.inr ⟨n,i,hi,hfamily,huser,hdone⟩
    · exact Or.inl ⟨_,hr,rfl,rfl,rfl,id⟩

/-- A member is an earlier one, or the call that has just claimed the code of the family. -/
theorem Change.member_back {s s' : State} (hinv : Inv s) (h : Change s s') {family u : String}
    (hm : Member s' family u) : Member s family u ∨
      ∃ hash, family = codeFamily hash ∧ Origin.code hash ∉ s.issues ∧ Origin.code hash ∈ s'.issues ∧
        ∃ n i, IssueAt s' n i ∧ i.family = family ∧ i.userUuid = u ∧
          ∀ m j, IssueAt s' m j → m = n ∧ j = i ∨ IssueAt s m j := by
  rcases hm with ⟨r,row,hr,hf,hu⟩ | ⟨n,i,hi,hf,hu⟩
  · left
    rcases h.token_back hr with ⟨row₀,hr₀,-,hf₀,hu₀,-⟩ | ⟨n,i,hi,hfi,hui,-⟩
    · exact Or.inl ⟨r,row₀,hr₀,hf₀.symm.trans hf,hu₀.symm.trans hu⟩
    · exact Or.inr ⟨n,i,hi,hfi.symm.trans hf,hui.symm.trans hu⟩
  · cases h with
    | keep p now htok hissues hcodes happroved hcalls =>
      exact Or.inl (Or.inr ⟨n,i,hcalls n i hi,hf,hu⟩)
    | claim m j hash row hrow hunused htok hissues happroved hcodes hfamily hcalls =>
      rcases hcalls n i hi with ⟨rfl,rfl⟩ | ⟨-,hi'⟩
      · refine Or.inr ⟨hash,hf.symm.trans hfamily,hinv.unused hash row hrow hunused,
          by simp [hissues],n,i,hi,hf,hu,fun a b hab => ?_⟩
        exact (hcalls a b hab).imp id And.right
      · exact Or.inl (Or.inr ⟨n,i,hi',hf,hu⟩)
    | rotate m j r row now hrow hkind hvalid htok hissues happroved hcodes hfamily huser hcalls =>
      rcases hcalls n i hi with ⟨rfl,rfl⟩ | ⟨-,hi'⟩
      · exact Or.inl (Or.inl ⟨r,row,hrow,hfamily.symm.trans hf,huser.symm.trans hu⟩)
      · exact Or.inl (Or.inr ⟨n,i,hi',hf,hu⟩)
    | insert m j r row hj hnew htok hissues happroved hcodes hfamily huser hcalls hdone =>
      exact Or.inl (Or.inr ⟨n,i,hcalls n i hi,hf,hu⟩)

theorem Inv.no_member {s : State} (hinv : Inv s) {hash u : String} (h : Origin.code hash ∉ s.issues) :
    ¬Member s (codeFamily hash) u := by
  intro hm
  obtain ⟨hash',he,hi⟩ := hinv.members _ _ hm
  rw [codeFamily_inj he] at h
  exact h hi

theorem holders_keep {s s' : State} (hinv : Inv s) (family : String)
    (hback : ∀ x, Holds s' family x → Holds s family x) :
    ∀ x y, Holds s' family x → Holds s' family y → x = y :=
  fun x y hx hy => hinv.holders family x y (hback x hx) (hback y hy)

/-- A new holder, where no earlier one is left beside it. -/
theorem holders_new {s s' : State} (hinv : Inv s) (family : String) (z : Holder)
    (hback : ∀ x, Holds s' family x → x = z ∨ Holds s family x)
    (hnone : Holds s' family z → ∀ x, Holds s' family x → Holds s family x → x = z) :
    ∀ x y, Holds s' family x → Holds s' family y → x = y := by
  intro x y hx hy
  rcases hback x hx with rfl | hx'
  · rcases hback y hy with rfl | hy'
    · rfl
    · exact (hnone hx y hy hy').symm
  · rcases hback y hy with rfl | hy'
    · exact hnone hy x hx hx'
    · exact hinv.holders family x y hx' hy'

/-- A token that holds a family holds it before as well, unless it is new. -/
theorem Change.token_holds_back {s s' : State} (h : Change s s') {family r : String}
    (hx : Holds s' family (.token r)) : Holds s family (.token r) ∨
      ∃ n i, IssueAt s n i ∧ i.family = family ∧ ∀ j, ¬IssueAt s' n j := by
  obtain ⟨row,hr,hk,hv,hf⟩ := hx
  rcases h.token_back hr with ⟨row₀,hr₀,hk₀,hf₀,-,hv₀⟩ | ⟨n,i,hi,hfi,-,hd⟩
  · exact Or.inl ⟨row₀,hr₀,hk₀.symm.trans hk,hv₀ hv,hf₀.symm.trans hf⟩
  · exact Or.inr ⟨n,i,hi,hfi.symm.trans hf,hd hk⟩

theorem Change.holders {s s' : State} (hinv : Inv s) (h : Change s s') (family : String) :
    ∀ x y, Holds s' family x → Holds s' family y → x = y := by
  have h' := h
  cases h with
  | keep p now htok hissues hcodes happroved hcalls =>
    apply holders_keep hinv
    intro x hx
    cases x with
    | token r =>
      rcases h'.token_holds_back hx with hx | ⟨n,i,hi,hf,-⟩
      · exact hx
      · obtain ⟨row,hr,hk,hv,hf⟩ := hx
        rw [htok, Option.map_eq_some_iff] at hr
        obtain ⟨row₀,hr₀,rfl⟩ := hr
        refine ⟨row₀,hr₀,?_⟩
        split at hv
        · simp [revokeRow] at hv
        · simp_all
    | call n =>
      obtain ⟨i,hi,hf⟩ := hx
      exact ⟨i,hcalls n i hi,hf⟩
  | claim n i hash row hrow hunused htok hissues happroved hcodes hfamily hcalls =>
    apply holders_new hinv family (.call n)
    · intro x hx
      cases x with
      | token r =>
        obtain ⟨row',hr,hrest⟩ := hx
        rw [htok] at hr
        exact Or.inr ⟨row',hr,hrest⟩
      | call m =>
        obtain ⟨j,hj,hf⟩ := hx
        rcases hcalls m j hj with ⟨rfl,-⟩ | ⟨-,hj⟩
        · exact Or.inl rfl
        · exact Or.inr ⟨j,hj,hf⟩
    · rintro ⟨j,hj,hf⟩ x hx hold
      by_contra hne
      obtain ⟨u,hm⟩ := hold.member
      rcases hcalls n j hj with ⟨-,rfl⟩ | ⟨hn,-⟩
      · rw [← hf, hfamily] at hm
        exact hinv.no_member (hinv.unused hash row hrow hunused) hm
      · exact hn rfl
  | rotate n i r row now hrow hkind hvalid htok hissues happroved hcodes hfamily huser hcalls =>
    apply holders_new hinv family (.call n)
    · intro x hx
      cases x with
      | token r' =>
        obtain ⟨row',hr,hk,hv,hf⟩ := hx
        rw [htok, Option.map_eq_some_iff] at hr
        obtain ⟨row₀,hr₀,rfl⟩ := hr
        split at hv
        · simp [revokeRow] at hv
        · rename_i hp
          rw [if_neg hp] at hk hf
          exact Or.inr ⟨row₀,hr₀,hk,hv,hf⟩
      | call m =>
        obtain ⟨j,hj,hf⟩ := hx
        rcases hcalls m j hj with ⟨rfl,-⟩ | ⟨-,hj⟩
        · exact Or.inl rfl
        · exact Or.inr ⟨j,hj,hf⟩
    · rintro ⟨j,hj,hf⟩ x hx hold
      rcases hcalls n j hj with ⟨-,rfl⟩ | ⟨hn,-⟩
      · obtain rfl := hinv.holders family x (.token r) hold
          ⟨row,hrow,hkind,hvalid,hfamily.symm.trans hf⟩
        obtain ⟨row',hr,-,hv,-⟩ := hx
        rw [htok, hrow, Option.map_some, Option.some.injEq, if_pos (rotates_iff.mpr ⟨rfl,hvalid⟩)] at hr
        rw [← hr] at hv
        simp [revokeRow] at hv
      · exact absurd rfl hn
  | insert n i r row hi hnew htok hissues happroved hcodes hfamily huser hcalls hdone =>
    apply holders_new hinv family (.token r)
    · intro x hx
      cases x with
      | token r' =>
        obtain ⟨row',hr,hrest⟩ := hx
        rw [htok] at hr
        split at hr
        · rename_i he
          exact Or.inl (congrArg Holder.token he)
        · exact Or.inr ⟨row',hr,hrest⟩
      | call m =>
        obtain ⟨j,hj,hf⟩ := hx
        exact Or.inr ⟨j,hcalls m j hj,hf⟩
    · rintro ⟨row',hr,hk,-,hf⟩ x hx hold
      rw [htok, if_pos rfl, Option.some.injEq] at hr
      subst hr
      obtain rfl := hinv.holders family x (.call n) hold ⟨i,hi,hfamily.symm.trans hf⟩
      obtain ⟨j,hj,-⟩ := hx
      exact absurd hj (hdone hk j)

theorem Change.inv {s s' : State} (hinv : Inv s) (h : Change s s') : Inv s' where
  approved := by
    cases h with
    | keep p now htok hissues hcodes happroved hcalls =>
      intro hash row hrow
      rcases hcodes hash row hrow with hrow | hrow
      · exact happroved hash (hinv.approved hash row hrow)
      · exact hrow.2
    | claim n i h row hrow hunused htok hissues happroved hcodes hfamily hcalls =>
      intro hash row' hrow'
      obtain ⟨-,row₀,hrow₀,-⟩ := hcodes hash row' hrow'
      rw [happroved]
      exact hinv.approved hash row₀ hrow₀
    | rotate n i r row now hrow hkind hvalid htok hissues happroved hcodes hfamily huser hcalls =>
      rw [hcodes, happroved]
      exact hinv.approved
    | insert n i r row hi hnew htok hissues happroved hcodes hfamily huser hcalls hdone =>
      rw [hcodes, happroved]
      exact hinv.approved
  issuedApproved := by
    cases h with
    | keep p now htok hissues hcodes happroved hcalls =>
      intro hash hi
      rw [hissues] at hi
      exact happroved hash (hinv.issuedApproved hash hi)
    | claim n i h row hrow hunused htok hissues happroved hcodes hfamily hcalls =>
      intro hash hi
      rw [hissues, List.mem_cons] at hi
      rw [happroved]
      rcases hi with hi | hi
      · obtain rfl := Origin.code.inj hi
        exact hinv.approved hash row hrow
      · exact hinv.issuedApproved hash hi
    | rotate n i r row now hrow hkind hvalid htok hissues happroved hcodes hfamily huser hcalls =>
      intro hash hi
      rw [hissues, List.mem_cons] at hi
      rw [happroved]
      exact hinv.issuedApproved hash (hi.resolve_left (by simp))
    | insert n i r row hi hnew htok hissues happroved hcodes hfamily huser hcalls hdone =>
      rw [hissues, happroved]
      exact hinv.issuedApproved
  unused := by
    cases h with
    | keep p now htok hissues hcodes happroved hcalls =>
      intro hash row hrow hunused
      rw [hissues]
      rcases hcodes hash row hrow with hrow | hrow
      · exact hinv.unused hash row hrow hunused
      · exact fun hi => hrow.1 (hinv.issuedApproved hash hi)
    | claim n i h row hrow hunused htok hissues happroved hcodes hfamily hcalls =>
      intro hash row' hrow' hunused'
      obtain ⟨hne,row₀,hrow₀,hun₀⟩ := hcodes hash row' hrow'
      rw [hissues, List.mem_cons]
      rintro (hi | hi)
      · exact hne hunused' (Origin.code.inj hi)
      · exact hinv.unused hash row₀ hrow₀ (hun₀ hunused') hi
    | rotate n i r row now hrow hkind hvalid htok hissues happroved hcodes hfamily huser hcalls =>
      intro hash row' hrow' hunused'
      rw [hcodes] at hrow'
      rw [hissues, List.mem_cons]
      rintro (hi | hi)
      · simp at hi
      · exact hinv.unused hash row' hrow' hunused' hi
    | insert n i r row hi hnew htok hissues happroved hcodes hfamily huser hcalls hdone =>
      rw [hcodes, hissues]
      exact hinv.unused
  rotated := by
    intro r hr
    have hold : Origin.refresh r ∈ s.issues →
        ∃ row, s'.tokens.get r = some row ∧ row.revokedAt ≠ none := by
      intro hr
      obtain ⟨row,hrow,hv⟩ := hinv.rotated r hr
      obtain ⟨row',hrow',-,-,-,hv'⟩ := h.token_stays hrow
      exact ⟨row',hrow',hv' hv⟩
    cases h with
    | keep p now htok hissues hcodes happroved hcalls =>
      rw [hissues] at hr
      exact hold hr
    | claim n i h row hrow hunused htok hissues happroved hcodes hfamily hcalls =>
      rw [hissues, List.mem_cons] at hr
      exact hold (hr.resolve_left (by simp))
    | rotate n i r' row now hrow hkind hvalid htok hissues happroved hcodes hfamily huser hcalls =>
      rw [hissues, List.mem_cons] at hr
      rcases hr with hr | hr
      · obtain rfl := Origin.refresh.inj hr
        refine ⟨revokeRow now r row,?_,by simp [revokeRow]⟩
        rw [htok, hrow, Option.map_some, if_pos (rotates_iff.mpr ⟨rfl,hvalid⟩)]
      · exact hold hr
    | insert n i r' row hi hnew htok hissues happroved hcodes hfamily huser hcalls hdone =>
      rw [hissues] at hr
      exact hold hr
  once := by
    cases h with
    | keep p now htok hissues hcodes happroved hcalls =>
      rw [hissues]
      exact hinv.once
    | claim n i h row hrow hunused htok hissues happroved hcodes hfamily hcalls =>
      rw [hissues]
      exact List.nodup_cons.mpr ⟨hinv.unused h row hrow hunused,hinv.once⟩
    | rotate n i r row now hrow hkind hvalid htok hissues happroved hcodes hfamily huser hcalls =>
      rw [hissues]
      refine List.nodup_cons.mpr ⟨fun hr => ?_,hinv.once⟩
      obtain ⟨row',hrow',hv⟩ := hinv.rotated r hr
      obtain rfl := Option.some.inj (hrow.symm.trans hrow')
      exact hv hvalid
    | insert n i r row hi hnew htok hissues happroved hcodes hfamily huser hcalls hdone =>
      rw [hissues]
      exact hinv.once
  members := by
    intro family u hm
    rcases h.member_back hinv hm with hm | ⟨hash,hf,-,hi,-⟩
    · obtain ⟨hash,hf,hi⟩ := hinv.members family u hm
      exact ⟨hash,hf,h.issues_stay hi⟩
    · exact ⟨hash,hf,hi⟩
  sameUser := by
    intro family u u' hm hm'
    rcases h.member_back hinv hm with hs | ⟨hash,rfl,hi,-,n,i,hni,-,hu,honly⟩
    · rcases h.member_back hinv hm' with hs' | ⟨hash,rfl,hi,-⟩
      · exact hinv.sameUser family u u' hs hs'
      · exact absurd hs (hinv.no_member hi)
    · rcases h.member_back hinv hm' with hs' | ⟨-,-,-,-,m,j,hmj,hf,hu',-⟩
      · exact absurd hs' (hinv.no_member hi)
      · rcases honly m j hmj with ⟨-,rfl⟩ | hmj
        · exact hu.symm.trans hu'
        · exact absurd (Or.inr ⟨m,j,hmj,hf,rfl⟩) (hinv.no_member hi)
  holders family := h.holders hinv family

/-! ## What a call has read -/

section
variable (k : Crypto)

theorem next_calls (o : Outside) (s : State) (n : ℕ) (pc : Pc) (hinv : Inv s) (hpc : PcOk k s pc) :
    (next k o s n pc).calls = s.calls ∨
      ∃ pc', (next k o s n pc).calls = s.calls.set n pc' ∧ PcOk k s pc' := by
  have hgoto : ∀ (t : State) pc', PcOk k s pc' → t.calls = s.calls →
      ∃ pc'', (t.goto n pc').calls = s.calls.set n pc'' ∧ PcOk k s pc'' :=
    fun t pc' hpc' ht => ⟨pc',by rw [State.goto, ht],hpc'⟩
  have hreplay : ∀ (t : State) hash, t.calls = s.calls → (t.replayAnswered hash).calls = s.calls := by
    intro t hash ht
    unfold State.replayAnswered
    split <;> exact ht
  cases pc with
  | readCode p =>
    right
    simp only [next, readCode]
    split
    · split
      · exact hgoto _ _ trivial (hreplay s _ rfl)
      · split <;> exact hgoto s _ trivial rfl
    · exact hgoto s _ trivial rfl
  | authCode p row =>
    right
    simp only [next, authCode]
    split
    · exact hgoto s _ trivial rfl
    · refine hgoto s _ ?_ rfl
      unfold checkCode
      split
      · trivial
      split
      · trivial
      split
      · trivial
      split <;> trivial
  | replayed hash =>
    right
    simp only [next, replayed]
    refine hgoto _ _ trivial (hreplay _ _ ?_)
    split <;> rfl
  | claim p row =>
    right
    simp only [next, claim]
    split
    · exact ⟨_,rfl,trivial⟩
    · exact hgoto _ _ trivial (hreplay s _ rfl)
  | readRefresh p =>
    right
    simp only [next, readRefresh]
    split
    · split
      · exact hgoto s _ trivial rfl
      · rename_i row hrow
        obtain ⟨hget,hkind⟩ := Option.filter_eq_some_iff.mp hrow
        split
        · exact hgoto s _ trivial rfl
        · exact hgoto s _ ⟨row,hget,by simpa using hkind,rfl,rfl⟩ rfl
    · exact hgoto s _ trivial rfl
  | authRefresh p row =>
    right
    simp only [next, authRefresh]
    split
    · exact hgoto s _ trivial rfl
    · split
      · exact hgoto s _ trivial rfl
      · exact hgoto s _ hpc rfl
  | rotate p row =>
    right
    simp only [next, rotate]
    split
    · exact ⟨_,rfl,trivial⟩
    · exact hgoto s _ trivial rfl
  | insertAccess i =>
    right
    simp only [next, insertAccess]
    split
    · exact ⟨_,rfl,trivial⟩
    · exact hgoto s _ trivial rfl
  | insertRefresh i =>
    right
    simp only [next, insertRefresh]
    split
    · exact ⟨_,rfl,trivial⟩
    · exact hgoto s _ trivial rfl
  | readToken tok =>
    right
    simp only [next, readToken]
    split
    · exact hgoto s _ trivial rfl
    · rename_i row hrow
      split
      · split
        · exact hgoto s _ (hinv.members row.family row.userUuid (Or.inl ⟨_,row,hrow,rfl,rfl⟩)) rfl
        · exact hgoto s _ trivial rfl
      · split
        · exact hgoto { s with revoked := row.family::s.revoked } _ trivial rfl
        · exact hgoto s _ trivial rfl
  | revokeFamily family =>
    right
    simp only [next, revokeFamily]
    split
    · exact hgoto { s with tokens := _, revoked := _ } _ trivial rfl
    · exact hgoto { s with revoked := _ } _ trivial rfl
  | revokeToken tok =>
    right
    simp only [next, revokeToken]
    split
    · exact hgoto { s with tokens := _ } _ trivial rfl
    · exact hgoto s _ trivial rfl
  | revokeGrant userUuid family =>
    right
    simp only [next, revokeGrant]
    split
    · split
      · exact hgoto s _ trivial rfl
      · exact hgoto { s with tokens := _, revoked := _ } _ trivial rfl
    · exact hgoto s _ trivial rfl
  | returned a => exact Or.inl rfl
  | dropped => exact Or.inl rfl

theorem begin_ok (s : State) (r : Request) : PcOk k s r.begin := by
  cases r with
  | token grantType p =>
    simp only [Request.begin]
    split
    · split <;> trivial
    · split
      · split <;> trivial
      · trivial
  | revoke tok =>
    simp only [Request.begin]
    split <;> trivial
  | revokeGrant userUuid family => trivial

theorem step_calls (s : State) (a : Action) (hinv : Inv s) (hreads : Reads k s) (n : ℕ) (pc : Pc)
    (h : (step k s a).calls[n]? = some pc) : s.calls[n]? = some pc ∨ PcOk k s pc := by
  have hset : ∀ (m : ℕ) pc', PcOk k s pc' → (s.calls.set m pc')[n]? = some pc →
      s.calls[n]? = some pc ∨ PcOk k s pc := by
    intro m pc' hpc' hm
    by_cases hmn : m = n
    · subst hmn
      have hlt := (List.getElem?_eq_some_iff.mp hm).1
      rw [List.length_set] at hlt
      rw [List.getElem?_set_self hlt, Option.some.injEq] at hm
      exact Or.inr (hm ▸ hpc')
    · rw [List.getElem?_set_ne hmn] at hm
      exact Or.inl hm
  cases a with
  | approve code row =>
    simp only [step, approve] at h
    split at h <;> exact Or.inl h
  | cleanup now => exact Or.inl h
  | clients t => exact Or.inl h
  | call r =>
    simp only [step] at h
    rcases List.mem_append.mp (List.mem_of_getElem? h) with hm | hm
    · obtain ⟨m,hm⟩ := List.getElem?_of_mem hm
      exact Or.inr (hreads m pc hm)
    · rw [List.mem_singleton.mp hm]
      exact Or.inr (begin_ok k s r)
  | next m o =>
    simp only [step] at h
    split at h
    · rename_i pc' hpc'
      rcases next_calls k o s m pc' hinv (hreads m pc' hpc') with he | ⟨pc'',he,hok⟩
      · rw [he] at h
        exact Or.inl h
      · rw [he] at h
        exact hset m pc'' hok h
    · exact Or.inl h
  | drop m =>
    simp only [step] at h
    split at h
    · exact Or.inl h
    · exact hset m .dropped trivial h
    · exact Or.inl h

theorem step_reads (s : State) (a : Action) (hinv : Inv s) (hreads : Reads k s) :
    Reads k (step k s a) := by
  intro n pc hpc
  have hchange := step_change k s a hreads
  rcases step_calls k s a hinv hreads n pc hpc with h | h
  · exact (hreads n pc h).stays k hchange
  · exact h.stays k hchange

end

/-! ## Families of which nothing is left -/

structure Dead (s : State) (family : String) : Prop where
  issued : ∃ h, family = codeFamily h ∧ Origin.code h ∈ s.issues
  quiet : Quiet s family

theorem allRevoked_iff (s : State) (family : String) : AllRevoked s family ↔
    ∀ r row, s.tokens.get r = some row → row.family = family → row.revokedAt ≠ none := by
  constructor
  · intro h r row hr
    exact h (r,row) ((Table.mem_iff_get s.tokens r row).mpr hr)
  · rintro h ⟨r,row⟩ he
    exact h r row ((Table.mem_iff_get s.tokens r row).mp he)

theorem noIssue_iff (s : State) (family : String) :
    NoIssue s family ↔ ∀ n i, IssueAt s n i → i.family ≠ family := by
  constructor
  · rintro h n i ⟨pc,hpc,hi⟩
    exact h pc (List.mem_of_getElem? hpc) i hi
  · intro h pc hpc i hi
    obtain ⟨n,hn⟩ := List.getElem?_of_mem hpc
    exact h n i ⟨pc,hn,hi⟩

theorem Change.dead {s s' : State} (hinv : Inv s) (h : Change s s') {family : String}
    (hd : Dead s family) : Dead s' family := by
  obtain ⟨⟨hash,hf,hi⟩,hall,hno⟩ := hd
  rw [allRevoked_iff] at hall
  rw [noIssue_iff] at hno
  refine ⟨⟨hash,hf,h.issues_stay hi⟩,(allRevoked_iff _ _).mpr ?_,(noIssue_iff _ _).mpr ?_⟩
  · intro r row' hr' hfam hv
    rcases h.token_back hr' with ⟨row,hr,-,hf',-,hv'⟩ | ⟨n,i,hni,hfi,-⟩
    · exact hall r row hr (hf'.symm.trans hfam) (hv' hv)
    · exact hno n i hni (hfi.symm.trans hfam)
  · intro m j hj hjf
    cases h with
    | keep p now htok hissues hcodes happroved hcalls => exact hno m j (hcalls m j hj) hjf
    | claim n i h' row hrow hunused htok hissues happroved hcodes hfamily hcalls =>
      rcases hcalls m j hj with ⟨-,rfl⟩ | ⟨-,hj⟩
      · obtain rfl := codeFamily_inj (hf.symm.trans (hjf.symm.trans hfamily))
        exact hinv.unused hash row hrow hunused hi
      · exact hno m j hj hjf
    | rotate n i r row now hrow hkind hvalid htok hissues happroved hcodes hfamily huser hcalls =>
      rcases hcalls m j hj with ⟨-,rfl⟩ | ⟨-,hj⟩
      · exact hall r row hrow (hfamily.symm.trans hjf) hvalid
      · exact hno m j hj hjf
    | insert n i r row hi' hnew htok hissues happroved hcodes hfamily huser hcalls hdone =>
      exact hno m j (hcalls m j hj) hjf

/-- A revocation of the whole family. -/
theorem dead_of_update {s s' : State} (family : String) (p : String → TokenRow → Bool) (now n : ℕ)
    (a : Answer) (hissued : ∃ h, family = codeFamily h ∧ Origin.code h ∈ s.issues)
    (hno : NoIssue s family) (htok : s'.tokens = s.tokens.update p (revokeRow now))
    (hissues : s'.issues = s.issues) (hcalls : s'.calls = s.calls.set n (.returned a))
    (hp : ∀ r row, s.tokens.get r = some row → row.family = family → row.revokedAt = none →
      p r row = true) : Dead s' family := by
  rw [noIssue_iff] at hno
  refine ⟨?_,(allRevoked_iff _ _).mpr ?_,(noIssue_iff _ _).mpr ?_⟩
  · obtain ⟨h,hf,hi⟩ := hissued
    exact ⟨h,hf,hissues ▸ hi⟩
  · intro r row' hr' hfam hv
    rw [htok, Table.get_update, Option.map_eq_some_iff] at hr'
    obtain ⟨row,hr,rfl⟩ := hr'
    split at hv
    · simp [revokeRow] at hv
    · rename_i hpr
      rw [if_neg hpr] at hfam
      exact hpr (hp r row hr hfam hv)
  · intro m j hj
    rcases issueAt_set hcalls m j hj with ⟨-,he⟩ | ⟨-,hj⟩
    · simp [Pc.issue] at he
    · exact hno m j hj

theorem mem_replayAnswered {s : State} {hash family : String}
    (h : family ∈ (s.replayAnswered hash).revoked) :
    family ∈ s.revoked ∨ family = codeFamily hash ∧ Origin.code hash ∈ s.issues := by
  unfold State.replayAnswered at h
  split at h
  · rename_i hi
    rcases List.mem_cons.mp h with h | h
    · exact Or.inr ⟨h,hi⟩
    · exact Or.inl h
  · exact Or.inl h

section
variable (k : Crypto)

/-- The family of which a statement ends the revocation has nothing left afterwards. -/
theorem next_revoked (o : Outside) (s : State) (n : ℕ) (pc : Pc) (hinv : Inv s)
    (hn : s.calls[n]? = some pc) (hpc : PcOk k s pc) (hord : Orderly k s (.next n o)) (family : String)
    (h : family ∈ (next k o s n pc).revoked) :
    family ∈ s.revoked ∨ Dead (next k o s n pc) family := by
  have hchange := next_change k o s n pc hn hpc
  simp only [Orderly, hn] at hord
  cases pc with
  | readCode p =>
    simp only [next, readCode] at h
    split at h
    · rename_i ho
      split at h
      · rename_i hnone
        rcases mem_replayAnswered h with h | ⟨rfl,hi⟩
        · exact Or.inl h
        · exact Or.inr (hchange.dead hinv ⟨⟨_,rfl,hi⟩,hord ho hnone hi⟩)
      · split at h <;> exact Or.inl h
    · exact Or.inl h
  | authCode p row =>
    simp only [next, authCode] at h
    split at h <;> exact Or.inl h
  | replayed hash =>
    by_cases ho : o.ok = true
    · simp only [next, replayed, ho, if_true] at h
      rcases mem_replayAnswered h with h | ⟨rfl,hi⟩
      · exact Or.inl h
      · right
        simp only [next, replayed, ho, if_true, State.replayAnswered]
        have hi' : Origin.code hash ∈ s.issues := hi
        rw [if_pos hi']
        exact dead_of_update (s := s) _ (ofFamily (codeFamily hash)) o.now n _ ⟨hash,rfl,hi'⟩ hord.1 rfl rfl rfl
          (fun r row _ hf hv => ofFamily_iff.mpr ⟨hf,hv⟩)
    · simp only [next, replayed, ho, Bool.false_eq_true, if_false] at h
      rcases mem_replayAnswered h with h | ⟨rfl,hi⟩
      · exact Or.inl h
      · exact Or.inr (hchange.dead hinv ⟨⟨hash,rfl,hi⟩,hord.2.resolve_left ho,hord.1⟩)
  | claim p row =>
    simp only [next, claim] at h
    split at h
    · exact Or.inl h
    · rcases mem_replayAnswered h with h | ⟨rfl,hi⟩
      · exact Or.inl h
      · exact Or.inr (hchange.dead hinv ⟨⟨_,rfl,hi⟩,hord hi⟩)
  | readRefresh p =>
    simp only [next, readRefresh] at h
    split at h
    · split at h
      · exact Or.inl h
      · split at h <;> exact Or.inl h
    · exact Or.inl h
  | authRefresh p row =>
    simp only [next, authRefresh] at h
    split at h
    · exact Or.inl h
    · split at h <;> exact Or.inl h
  | rotate p row =>
    simp only [next, rotate] at h
    split at h <;> exact Or.inl h
  | insertAccess i =>
    simp only [next, insertAccess] at h
    split at h <;> exact Or.inl h
  | insertRefresh i =>
    simp only [next, insertRefresh] at h
    split at h <;> exact Or.inl h
  | readToken tok =>
    simp only [next, readToken] at h
    split at h
    · exact Or.inl h
    · rename_i row hrow
      split at h
      · split at h <;> exact Or.inl h
      · rename_i ho
        split at h
        · rename_i hkind
          rcases List.mem_cons.mp h with rfl | h
          · exact Or.inr (hchange.dead hinv ⟨hinv.members _ _ (Or.inl ⟨_,row,hrow,rfl,rfl⟩),
              hord (by simpa using ho) row hrow hkind⟩)
          · exact Or.inl h
        · exact Or.inl h
  | revokeFamily fam =>
    simp only [next, revokeFamily] at h
    rcases List.mem_cons.mp h with rfl | h
    · by_cases ho : o.ok = true
      · right
        simp only [next, revokeFamily, ho, if_true]
        exact dead_of_update (s := s) _ (ofFamily family) o.now n _ hpc hord.1 rfl rfl rfl
          (fun r row _ hf hv => ofFamily_iff.mpr ⟨hf,hv⟩)
      · exact Or.inr (hchange.dead hinv ⟨hpc,hord.2.resolve_left ho,hord.1⟩)
    · split at h <;> exact Or.inl h
  | revokeToken tok =>
    simp only [next, revokeToken] at h
    split at h <;> exact Or.inl h
  | revokeGrant userUuid fam =>
    simp only [next, revokeGrant] at h
    split at h
    · rename_i ho
      split at h
      · exact Or.inl h
      · rename_i haff
        rcases List.mem_cons.mp h with rfl | h
        · obtain ⟨r₀,row₀,hr₀,hp₀⟩ := exists_of_affected haff
          simp only [ofGrant, Bool.and_eq_true, decide_eq_true_eq] at hp₀
          have hm₀ : Member s family userUuid := Or.inl ⟨r₀,row₀,hr₀,hp₀.1.1,hp₀.1.2⟩
          right
          simp only [next, revokeGrant, ho, if_true, haff, if_false]
          refine dead_of_update (s := s) _ (ofGrant userUuid family) o.now n .ok (hinv.members _ _ hm₀)
            (hord ho) rfl rfl rfl ?_
          intro r row hr hf hv
          have hu : row.userUuid = userUuid :=
            hinv.sameUser family _ _ (Or.inl ⟨r,row,hr,hf,rfl⟩) hm₀
          simp [ofGrant, hf, hu, hv]
        · exact Or.inl h
    · exact Or.inl h
  | returned a => exact Or.inl h
  | dropped => exact Or.inl h

structure Safe (s : State) : Prop where
  inv : Inv s
  reads : Reads k s
  dead : ∀ family ∈ s.revoked, Dead s family

theorem step_safe (s : State) (a : Action) (hs : Safe k s) (hord : Orderly k s a) :
    Safe k (step k s a) := by
  have hchange := step_change k s a hs.reads
  refine ⟨hchange.inv hs.inv,step_reads k s a hs.inv hs.reads,fun family hf => ?_⟩
  have hold : family ∈ s.revoked → Dead (step k s a) family :=
    fun h => hchange.dead hs.inv (hs.dead family h)
  cases a with
  | approve code row =>
    simp only [step, approve] at hf
    split at hf <;> exact hold hf
  | cleanup now => exact hold hf
  | clients t => exact hold hf
  | call r => exact hold hf
  | next n o =>
    cases hn : s.calls[n]? with
    | none =>
      simp only [step, hn] at hf
      exact hold hf
    | some pc =>
      simp only [step, hn] at hf hold ⊢
      exact (next_revoked k o s n pc hs.inv hn (hs.reads n pc hn) hord family hf).elim hold id
  | drop n =>
    simp only [step] at hf
    split at hf <;> exact hold hf

theorem Safe.revokedForGood {s : State} (hs : Safe k s) : RevokedForGood k s where
  access := by
    intro family hf tok row hr hfam users now scope
    have hv := (allRevoked_iff s family).mp (hs.dead family hf).quiet.1 _ row hr hfam
    have hnone : ¬row.revokedAt.isNone = true := by simpa using hv
    unfold resolveAccessTokenScoped
    split
    · rw [hr, Option.filter_some]
      simp [hnone]
    · rfl
  refresh := by
    intro family hf n o hacc
    unfold accepts at hacc
    split at hacc
    · rename_i p row hn
      split at hacc
      · rename_i haff
        obtain rfl := Option.some.inj hacc
        obtain ⟨r,cur,hcur,hp⟩ := exists_of_affected (t := s.tokens)
          (p := rotates (k.tokenHash p.refreshToken)) (by intro he; simp [he] at haff)
        obtain ⟨rfl,hv⟩ := rotates_iff.mp hp
        obtain ⟨cur',hcur',-,hfam,-⟩ := hs.reads n _ hn
        obtain rfl := Option.some.inj (hcur.symm.trans hcur')
        exact (allRevoked_iff s _).mp (hs.dead _ hf).quiet.1 _ cur hcur hfam hv
      · simp at hacc
    · simp at hacc

theorem start_reads (clients : Table String Client) : Reads k (OAuthGrants.start clients) := by
  intro n pc h
  simp [OAuthGrants.start] at h

theorem run_inv (clients : Table String Client) (acts : List Action) :
    Inv (run (step k) acts (OAuthGrants.start clients)) ∧
      Reads k (run (step k) acts (OAuthGrants.start clients)) := by
  apply invariant (step k) (fun s => Inv s ∧ Reads k s)
  · rintro s a ⟨hinv,hreads⟩
    exact ⟨(step_change k s a hreads).inv hinv,step_reads k s a hinv hreads⟩
  · exact ⟨start_inv clients,start_reads k clients⟩

theorem Inv.oneRefresh {s : State} (hinv : Inv s) : OneRefresh s := by
  intro r row r' row' hr hr' hk hk' hv hv' hf
  exact Holder.token.inj (hinv.holders row.family (.token r) (.token r') ⟨row,hr,hk,hv,rfl⟩
    ⟨row',hr',hk',hv',hf.symm⟩)

/-- In every run tokens are issued at most once for a code and for a refresh token, and a
family has at most one unrevoked refresh token. In an orderly run a family whose
revocation has returned is never accepted again. -/
theorem grants_once_and_revoked (clients : Table String Client) :
    (∀ acts, (run (step k) acts (OAuthGrants.start clients)).issues.Nodup ∧
      OneRefresh (run (step k) acts (OAuthGrants.start clients))) ∧
    ∀ acts, Guarded (step k) (Orderly k) acts (OAuthGrants.start clients) →
      RevokedForGood k (run (step k) acts (OAuthGrants.start clients)) := by
  constructor
  · intro acts
    have hinv := (run_inv k clients acts).1
    exact ⟨hinv.once,hinv.oneRefresh⟩
  · intro acts hg
    have hsafe := guarded_invariant (step k) (Orderly k) (Safe k) (step_safe k) acts
      (OAuthGrants.start clients)
      ⟨start_inv clients,start_reads k clients,by simp [OAuthGrants.start]⟩ hg
    exact hsafe.revokedForGood

end

/-! ## A revocation between a rotation and its insertions -/

def codeSecret : String :=
  "dfoc_1111111111114111811111111111111111111111111141118111111111111111"

def access1 : String :=
  "dfoa_2222222222224222822222222222222222222222222242228222222222222222"

def refresh1 : String :=
  "dfor_3333333333334333833333333333333333333333333343338333333333333333"

def access2 : String :=
  "dfoa_4444444444444444844444444444444444444444444444448444444444444444"

def refresh2 : String :=
  "dfor_5555555555554555855555555555555555555555555545558555555555555555"

/-- SHA-256 of the secrets below, and the challenge of the verifier. -/
def digests : Crypto where
  tokenHash tok :=
    if tok = codeSecret then "d18df1d41090b716cf9b15197514b7d2fa501292da1026e98d92397afd52692e"
    else if tok = access1 then "e90ff1fe9ab6a30dd0e64baad35bc7bb4cb4bdd40f392b27dc12842555cdd00a"
    else if tok = refresh1 then "e501a7479efab2837357743e568c34eeec466191af14035baac7de973b46d46c"
    else if tok = access2 then "e4c2e0ac2c0b695cfa5f7b92daf018c882337fc04e5749abf3120838a43ed854"
    else "8d887f8e56f086024b1227e0ef9e19ab3f73c2cb7171c118b9c967c0b768d496"
  pkceS256 _ := "7w_YNF9DSfIdPf_pRjSq646_kPr-2-o9NAl16JGghdM"

def code : CodeRow where
  clientId := "https://grok.example/client"
  clientName := "Grok"
  userUuid := "u1"
  redirectUri := "https://grok.example/callback"
  codeChallenge := "7w_YNF9DSfIdPf_pRjSq646_kPr-2-o9NAl16JGghdM"
  scope := "mcp"
  resource := ""
  expiresAt := 300
  usedAt := none

def exchange : Params where
  code := codeSecret
  codeVerifier := "vvvvvvvvvvvvvvvvvvvvvvvvvvvvvvvvvvvvvvvvvvv"
  redirectUri := "https://grok.example/callback"
  resource := ""
  refreshToken := ""
  clientId := "https://grok.example/client"
  secret := none

def renewal : Params where
  code := ""
  codeVerifier := ""
  redirectUri := ""
  resource := ""
  refreshToken := refresh1
  clientId := "https://grok.example/client"
  secret := none

def first : Outside := ⟨10,true,"",access1,refresh1⟩

def second : Outside := ⟨20,true,"",access2,refresh2⟩

/-- The first tokens are issued; the renewal has rotated its refresh token. -/
def untilRotated : List Action :=
  [.approve codeSecret code,.call (.token "authorization_code" exchange),.next 0 first,.next 0 first,
    .next 0 first,.next 0 first,.next 0 first,.call (.token "refresh_token" renewal),.next 1 second,
    .next 1 second,.next 1 second]

def revocation : List Action := [.call (.revoke refresh1),.next 2 second,.next 2 second]

def insertions : List Action := [.next 1 second,.next 1 second]

def user : User := ⟨"u1","user@example.org","User","","admin"⟩

def renewed : TokenRow :=
  ⟨.access,"https://grok.example/client","Grok","u1","mcp","",codeFamily (digests.tokenHash codeSecret),
    20+accessTtl,none⟩

theorem revoked_then_inserted : ¬∀ acts,
    RevokedForGood digests (run (step digests) acts (OAuthGrants.start Table.empty)) := by
  intro h
  have hrun : renewed.family ∈ (run (step digests) (untilRotated++revocation++insertions)
        (OAuthGrants.start Table.empty)).revoked ∧
      (run (step digests) (untilRotated++revocation++insertions)
        (OAuthGrants.start Table.empty)).tokens.get (digests.tokenHash access2) = some renewed := by
    decide +kernel
  have hnone := (h (untilRotated++revocation++insertions)).access _ hrun.1 _ renewed hrun.2 rfl
    (fun _ => some user) 30 "mcp"
  rw [resolveAccessTokenScoped, hrun.2] at hnone
  revert hnone
  decide +kernel

theorem grants_once_and_revoked_orderly :
    RevokedForGood digests (run (step digests) (untilRotated++insertions++revocation)
      (OAuthGrants.start Table.empty)) :=
  (grants_once_and_revoked digests Table.empty).2 (untilRotated++insertions++revocation)
    (by decide +kernel)

end DevForge.GrantsRevoked
