import DevForge.ClusterLocal
import DevForge.Transition

/-!
# Updates of the local cluster state

Requests and background tasks of one node read the row, wait, and write their
copy back, in any order; a restart applies the flags left on disk. Beside the
row stands the one that updates of single fields would have made.
-/

set_option autoImplicit false

namespace DevForge.LocalUpdates
open ClusterLocal Transition

/-- An operation under way and the copy of the row that it has read. -/
structure Session where
  op : Op
  copy : LocalClusterState
  deriving DecidableEq, Repr

structure State where
  row : LocalClusterState
  sessions : List Session
  /-- Delayed tasks that successful quiesces have left. -/
  timers : ℕ
  identity : Option LocalClusterState
  promoteFlag : Bool
  reclaimFlag : Option LocalClusterState
  /-- What each field holds when only the fields meant to change are updated. -/
  intended : Field → Value
  /-- The highest term ever written. -/
  highest : ℤ
  /-- A demotion succeeded, and no promotion since. -/
  demoted : Bool
  /-- A quiesce succeeded, and nothing meant to change the fence since. -/
  quiesced : Bool

def start (l : LocalClusterState) : State :=
  let row := setLocal l
  ⟨row,[],0,none,false,none,row.value,row.leaderTerm,false,false⟩

/-- `set_local`, for an operation meant to change the fields `p`. -/
def write (p : Field → Bool) (l : LocalClusterState) (s : State) : State :=
  let row := setLocal l
  { s with
    row := row
    intended := WriteBack.merge p row.value s.intended
    highest := max s.highest row.leaderTerm }

def begin (op : Op) (secret : String) (s : State) : State :=
  if !op.opens s.row || (op.authenticated && !clusterAuthOk s.row secret) then s
  else if op = .quiesceExpired then
    if s.timers = 0 then s
    else { s with timers := s.timers-1, sessions := s.sessions++[⟨op,s.row⟩] }
  else { s with sessions := s.sessions++[⟨op,s.row⟩] }

def demotes : Op → Bool
  | .failoverDemote _ => true
  | _ => false

/-- The row is written back, with what the operation leaves beside it. -/
def writeBack (op : Op) (copy : LocalClusterState) (s : State) : State :=
  let s := write (op.meant copy) (op.apply copy) s
  { s with
    timers := if op = .failoverQuiesce then s.timers+1 else s.timers
    identity := match op with
      | .failoverDemote _ | .persistAck _ => some s.row
      | _ => s.identity
    sessions := match op with
      | .reclaimFence _ => s.sessions++[⟨.reclaimFlag,s.row⟩]
      | _ => s.sessions
    demoted := s.demoted || demotes op
    quiesced := op = .failoverQuiesce || (s.quiesced && !op.meant copy .writesFenced) }

def commit (i : ℕ) (s : State) : State :=
  match s.sessions[i]? with
  | none => s
  | some ⟨op,copy⟩ =>
    let s := { s with sessions := s.sessions.eraseIdx i }
    match op with
    | .elect => { s with identity := some copy, promoteFlag := true }
    | .reclaimFlag => { s with reclaimFlag := some (op.apply copy) }
    | op => writeBack op copy s

def applyPromoteFlag (s : State) : State :=
  match s.promoteFlag, s.identity with
  | true, some l =>
    let s := write promotedFields (promoted l) s
    { s with identity := some s.row, promoteFlag := false, demoted := false, quiesced := false }
  | _, _ => { s with promoteFlag := false }

def applyReclaimFlag (s : State) : State :=
  match s.reclaimFlag with
  | some l =>
    let s := write (reclaimedFields l) (reclaimed l) s
    { s with identity := some s.row, reclaimFlag := none, quiesced := false }
  | none => s

def releaseOrphanFence (s : State) : State :=
  if s.row.writesFenced && s.row.actingLeader then
    { write (· = .writesFenced) { s.row with writesFenced := false } s with quiesced := false }
  else s

/-- Sessions and timers die with the process. -/
def died (s : State) : State := { s with sessions := [], timers := 0 }

/-- The boot applies the flags. -/
def restart (s : State) : State :=
  releaseOrphanFence (applyReclaimFlag (applyPromoteFlag (died s)))

inductive Action where
  | begin (op : Op) (secret : String)
  | commit (session : ℕ)
  | abort (session : ℕ)
  | restart
  deriving DecidableEq, Repr

def step (s : State) : Action → State
  | .begin op secret => begin op secret s
  | .commit i => commit i s
  | .abort i => { s with sessions := s.sessions.eraseIdx i }
  | .restart => restart s

/-- A field changed by an operation keeps its value until another operation
meant to change it succeeds; a demoted node does not lead, a quiesced one is
fenced, and the term never decreases. -/
structure NoLostUpdate (s : State) : Prop where
  fields : s.row.value = s.intended
  demoted : s.demoted → s.row.role = .worker ∧ s.row.actingLeader = false
  quiesced : s.quiesced → s.row.writesFenced
  term : s.highest ≤ s.row.leaderTerm

/-- The row still has the values of the copy, off the fields meant to change;
the term counts as read even where it is raised. -/
def Current (s : State) (p : Field → Bool) (copy : LocalClusterState) : Prop :=
  WriteBack.AgreeOff LocalClusterState.value (fun f => p f && f ≠ .leaderTerm) copy s.row

instance (s : State) (p : Field → Bool) (copy : LocalClusterState) : Decidable (Current s p copy) := by
  unfold Current
  infer_instance

def writesRow : Op → Bool
  | .elect | .reclaimFlag => false
  | _ => true

/-- Every copy that is written back is current: that of an operation, and at
boot the identity to promote or to restore. -/
def Orderly (s : State) : Action → Prop
  | .commit i => ∀ x ∈ s.sessions[i]?, writesRow x.op → Current s (x.op.meant x.copy) x.copy
  | .restart => (s.promoteFlag → ∀ l ∈ s.identity, Current s promotedFields l) ∧
      ∀ l ∈ (applyPromoteFlag (died s)).reclaimFlag,
        Current (applyPromoteFlag (died s)) (reclaimedFields l) l
  | _ => True

instance (s : State) (a : Action) : Decidable (Orderly s a) := by
  unfold Orderly
  split <;> infer_instance

structure SessionOk (x : Session) : Prop where
  normal : Normal x.copy
  leader : x.op.ofLeader → x.copy.role = .leader ∧ x.copy.actingLeader = false

structure Inv (s : State) : Prop where
  row : Normal s.row
  sessions : ∀ x ∈ s.sessions, SessionOk x
  identity : ∀ l ∈ s.identity, Normal l
  reclaimFlag : ∀ l ∈ s.reclaimFlag, Normal l ∧ l.role = .leader ∧ l.actingLeader = false
  holds : NoLostUpdate s

theorem start_inv (l : LocalClusterState) : Inv (start l) where
  row := setLocal_normal l
  sessions _ h := by simp [start] at h
  identity _ h := by simp [start] at h
  reclaimFlag _ h := by simp [start] at h
  holds := ⟨rfl,fun h => by simp [start] at h,fun h => by simp [start] at h,le_refl _⟩

section Write

variable {s : State} {p : Field → Bool} {copy new : LocalClusterState} (hn : Normal new)
  (hf : WriteBack.AgreeOff LocalClusterState.value p new copy) (hc : Current s p copy)
include hn

theorem write_row : (write p new s).row = new := hn.setLocal_eq

omit hn in
include hc in
theorem Current.off : WriteBack.AgreeOff LocalClusterState.value p copy s.row :=
  hc.mono (fun _ h => by
    simp only [Bool.and_eq_true] at h
    exact h.1)

omit hn in
include hc in
theorem Current.term : copy.leaderTerm = s.row.leaderTerm := by
  have h := hc .leaderTerm (by simp)
  simpa [LocalClusterState.value] using h

include hf hc

/-- Writing back a current copy is the update of the fields meant to change. -/
theorem write_fields (hs : s.row.value = s.intended) :
    (write p new s).row.value = (write p new s).intended := by
  have h := WriteBack.write_back hf hc.off
  simp only [write, hn.setLocal_eq, ← hs]
  exact h.symm

omit hf in
theorem write_term (ht : copy.leaderTerm ≤ new.leaderTerm) (hs : s.highest ≤ s.row.leaderTerm) :
    (write p new s).highest ≤ (write p new s).row.leaderTerm := by
  have hterm := hc.term
  simp only [write, hn.setLocal_eq]
  omega

omit hn in
/-- A field that is not meant to change keeps its value. -/
theorem kept (f : Field) (h : p f = false) : new.value f = s.row.value f :=
  (hf f h).trans (hc.off f h)

end Write

theorem demotes_iff {op : Op} : demotes op ↔ ∃ url, op = .failoverDemote url := by
  cases op <;> simp [demotes]

/-- A row that is not meant to lead again stays one of a worker. -/
theorem demoted_kept {s : State} {op : Op} {copy : LocalClusterState} (hs : Inv s)
    (hkept : ∀ f, op.meant copy f = false → (op.apply copy).value f = s.row.value f)
    (hd : s.demoted || demotes op) :
    (op.apply copy).role = .worker ∧ (op.apply copy).actingLeader = false := by
  by_cases hdem : demotes op
  · obtain ⟨url,rfl⟩ := demotes_iff.mp hdem
    exact ⟨rfl,rfl⟩
  · have hs' : s.demoted := by simpa [hdem] using hd
    obtain ⟨hr,ha⟩ := hs.holds.demoted hs'
    constructor
    · have hm : op.meant copy .role = false := by
        by_contra h
        exact hdem (demotes_iff.mpr (Op.meant_role (by simpa using h)))
      exact (Value.role.inj (hkept .role hm)).trans hr
    · cases hm : op.meant copy .actingLeader with
      | true => exact Op.meant_acting hm
      | false => exact (Value.flag.inj (hkept .actingLeader hm)).trans ha

theorem quiesced_kept {s : State} {op : Op} {copy : LocalClusterState} (hs : Inv s)
    (hkept : ∀ f, op.meant copy f = false → (op.apply copy).value f = s.row.value f)
    (hq : op = .failoverQuiesce || (s.quiesced && !op.meant copy .writesFenced)) :
    (op.apply copy).writesFenced := by
  simp only [Bool.or_eq_true, decide_eq_true_eq, Bool.and_eq_true, Bool.not_eq_true'] at hq
  rcases hq with rfl | ⟨hq,hm⟩
  · rfl
  · exact (Value.flag.inj (hkept .writesFenced hm)).trans (hs.holds.quiesced hq)

theorem Inv.writeBack {s : State} (hs : Inv s) (op : Op) (copy : LocalClusterState)
    (hok : SessionOk ⟨op,copy⟩) (hw : op ≠ .reclaimFlag) (hc : Current s (op.meant copy) copy) :
    Inv (writeBack op copy s) := by
  have hn : Normal (op.apply copy) := hok.normal.apply op
  have hf := op.apply_frame copy hok.leader hw
  have hrow : (write (op.meant copy) (op.apply copy) s).row = op.apply copy := write_row hn
  have hnrow : Normal (write (op.meant copy) (op.apply copy) s).row := by
    rw [hrow]
    exact hn
  have hkept := kept hf hc
  constructor
  · exact hnrow
  · intro x hx
    simp only [LocalUpdates.writeBack] at hx
    split at hx
    · rcases List.mem_append.mp hx with hx | hx
      · exact hs.sessions x hx
      · rw [List.mem_singleton.mp hx]
        refine ⟨hnrow,fun _ => ?_⟩
        simp only [hrow]
        exact ⟨rfl,rfl⟩
    · exact hs.sessions x hx
  · intro l hl
    simp only [LocalUpdates.writeBack] at hl
    split at hl
    · exact Option.mem_some.mp hl ▸ hnrow
    · exact Option.mem_some.mp hl ▸ hnrow
    · exact hs.identity l hl
  · exact hs.reclaimFlag
  · constructor
    · exact write_fields hn hf hc hs.holds.fields
    · intro hd
      have h := demoted_kept hs hkept hd
      rwa [← hrow] at h
    · intro hq
      have h := quiesced_kept hs hkept hq
      rwa [← hrow] at h
    · exact write_term hn hc (op.term_le copy) hs.holds.term

theorem Inv.setSessions {s : State} (hs : Inv s) (sessions : List Session) (timers : ℕ)
    (hx : ∀ x ∈ sessions, SessionOk x) : Inv { s with sessions := sessions, timers := timers } :=
  ⟨hs.row,hx,hs.identity,hs.reclaimFlag,hs.holds.fields,hs.holds.demoted,hs.holds.quiesced,
    hs.holds.term⟩

theorem Inv.begin {s : State} (hs : Inv s) (op : Op) (secret : String) :
    Inv (LocalUpdates.begin op secret s) := by
  unfold LocalUpdates.begin
  split
  · exact hs
  · rename_i hguard
    have hopen : op.opens s.row := by
      by_contra h
      exact hguard (by simp [h])
    have hok : SessionOk ⟨op,s.row⟩ := by
      refine ⟨hs.row,fun h => ?_⟩
      cases op <;> simp_all [Op.ofLeader, Op.opens, mayReclaim]
    have hall : ∀ x ∈ s.sessions++[⟨op,s.row⟩], SessionOk x := by
      intro x hx
      rcases List.mem_append.mp hx with hx | hx
      · exact hs.sessions x hx
      · rw [List.mem_singleton.mp hx]
        exact hok
    split
    · split
      · exact hs
      · exact hs.setSessions _ _ hall
    · exact hs.setSessions _ s.timers hall

theorem Inv.erase {s : State} (hs : Inv s) (i : ℕ) :
    Inv { s with sessions := s.sessions.eraseIdx i } :=
  hs.setSessions _ s.timers (fun x hx => hs.sessions x (List.eraseIdx_subset hx))

theorem Inv.commit {s : State} (hs : Inv s) (i : ℕ) (ho : Orderly s (.commit i)) :
    Inv (LocalUpdates.commit i s) := by
  unfold LocalUpdates.commit
  cases hx : s.sessions[i]? with
  | none => exact hs
  | some x =>
    obtain ⟨op,copy⟩ := x
    have hok := hs.sessions _ (List.mem_of_getElem? hx)
    have herase := hs.erase i
    have hcur := ho ⟨op,copy⟩ hx
    simp only
    split
    · refine ⟨herase.row,herase.sessions,fun l hl => ?_,herase.reclaimFlag,?_⟩
      · exact Option.mem_some.mp hl ▸ hok.normal
      · exact ⟨hs.holds.fields,hs.holds.demoted,hs.holds.quiesced,hs.holds.term⟩
    · refine ⟨herase.row,herase.sessions,herase.identity,fun l hl => ?_,?_⟩
      · obtain ⟨hr,ha⟩ := hok.leader rfl
        rw [← Option.mem_some.mp hl]
        exact ⟨hok.normal.apply .reclaimFlag,hr,ha⟩
      · exact ⟨hs.holds.fields,hs.holds.demoted,hs.holds.quiesced,hs.holds.term⟩
    · rename_i helect hflag
      refine herase.writeBack op copy hok hflag (hcur ?_)
      cases op <;> simp_all [writesRow]

theorem Inv.applyPromoteFlag {s : State} (hs : Inv s)
    (ho : s.promoteFlag → ∀ l ∈ s.identity, Current s promotedFields l) :
    Inv (LocalUpdates.applyPromoteFlag s) := by
  unfold LocalUpdates.applyPromoteFlag
  split
  · rename_i l hflag hid
    have hl : l ∈ s.identity := hid
    have hn : Normal (promoted l) := (hs.identity l hl).promoted
    have hf := promoted_frame l
    have hc := ho hflag l hl
    have hrow : (write promotedFields (promoted l) s).row = promoted l := write_row hn
    have hnrow : Normal (write promotedFields (promoted l) s).row := by
      rw [hrow]
      exact hn
    refine ⟨hnrow,hs.sessions,fun l' hl' => ?_,hs.reclaimFlag,?_⟩
    · exact Option.mem_some.mp hl' ▸ hnrow
    · exact ⟨write_fields hn hf hc hs.holds.fields,fun h => by simp at h,fun h => by simp at h,
        write_term hn hc (term_le_promoted l) hs.holds.term⟩
  · exact ⟨hs.row,hs.sessions,hs.identity,hs.reclaimFlag,hs.holds.fields,hs.holds.demoted,
      hs.holds.quiesced,hs.holds.term⟩

theorem Inv.applyReclaimFlag {s : State} (hs : Inv s)
    (ho : ∀ l ∈ s.reclaimFlag, Current s (reclaimedFields l) l) :
    Inv (LocalUpdates.applyReclaimFlag s) := by
  unfold LocalUpdates.applyReclaimFlag
  split
  · rename_i l hflag
    have hl : l ∈ s.reclaimFlag := hflag
    obtain ⟨hnl,hr,ha⟩ := hs.reclaimFlag l hl
    have hn : Normal (reclaimed l) := hnl.reclaimed
    have hf := reclaimed_frame l hr ha
    have hc := ho l hl
    have hrow : (write (reclaimedFields l) (reclaimed l) s).row = reclaimed l := write_row hn
    have hnrow : Normal (write (reclaimedFields l) (reclaimed l) s).row := by
      rw [hrow]
      exact hn
    -- the flag was written by a leader, so the row is still that of one
    have hrole : s.row.role = .leader := by
      have h := (hc.off .role rfl).symm
      exact (Value.role.inj h).trans hr
    refine ⟨hnrow,hs.sessions,fun l' hl' => ?_,fun _ h => by simp at h,?_⟩
    · exact Option.mem_some.mp hl' ▸ hnrow
    · refine ⟨write_fields hn hf hc hs.holds.fields,fun hd => ?_,fun h => by simp at h,
        write_term hn hc (le_refl _) hs.holds.term⟩
      have hw := (hs.holds.demoted hd).1
      rw [hrole] at hw
      exact NodeRole.noConfusion hw
  · exact hs

theorem Inv.releaseOrphanFence {s : State} (hs : Inv s) :
    Inv (LocalUpdates.releaseOrphanFence s) := by
  unfold LocalUpdates.releaseOrphanFence
  split
  · rename_i hfence
    have hn : Normal { s.row with writesFenced := false } := ⟨hs.row.preferred,hs.row.term⟩
    have hf : WriteBack.AgreeOff LocalClusterState.value (fun f => f = Field.writesFenced)
        { s.row with writesFenced := false } s.row := by
      intro f hm
      cases f <;> first | rfl | simp at hm
    have hc : Current s (fun f => f = Field.writesFenced) s.row := fun _ _ => rfl
    have hrow := write_row (s := s) (p := fun f => f = Field.writesFenced) hn
    have hnrow : Normal (write (fun f => f = Field.writesFenced)
        { s.row with writesFenced := false } s).row := by
      rw [hrow]
      exact hn
    refine ⟨hnrow,hs.sessions,hs.identity,hs.reclaimFlag,?_⟩
    refine ⟨write_fields hn hf hc hs.holds.fields,fun hd => ?_,fun h => by simp at h,
      write_term hn hc (le_refl _) hs.holds.term⟩
    have ha := (hs.holds.demoted hd).2
    simp [ha] at hfence
  · exact hs

theorem step_inv (s : State) (a : Action) (hs : Inv s) (ho : Orderly s a) : Inv (step s a) := by
  cases a with
  | begin op secret => exact hs.begin op secret
  | commit i => exact hs.commit i ho
  | abort i => exact hs.erase i
  | restart =>
    have h0 := hs.setSessions [] 0 (fun x hx => by simp at hx)
    exact ((h0.applyPromoteFlag ho.1).applyReclaimFlag ho.2).releaseOrphanFence

/-- Over every run whose write-backs are current, no update is lost. -/
theorem no_lost_update_of_current (l : LocalClusterState) (acts : List Action)
    (hg : Guarded step Orderly acts (start l)) : NoLostUpdate (run step acts (start l)) :=
  (guarded_invariant step Orderly Inv step_inv acts _ (start_inv l) hg).holds

def interim : LocalClusterState :=
  ⟨.leader,"http://b:8000","b","s","B","http://b:8000","default","http://a:8000","f",4,true,2,false⟩

/-- An interim leader is quiesced, takes a snapshot and is demoted; as a worker
it hears from the leader and accepts a snapshot. -/
def givesBack : List Action :=
  [.begin .failoverQuiesce "f",.commit 0,.begin .writeClusterSnapshot "",.commit 0,
    .begin (.failoverDemote "http://a:8000/") "f",.commit 0,.restart,
    .begin (.persistAck ⟨7,"","","",3⟩) "",.commit 0,.begin (.acceptClusterSnapshot 8) "f",.commit 0]

theorem interim_gives_back :
    ((run step givesBack (start interim)).demoted ∧
      (run step givesBack (start interim)).row.snapshotGeneration = 8) ∧
    Guarded step Orderly givesBack (start interim) ∧
    NoLostUpdate (run step givesBack (start interim)) :=
  have hg : Guarded step Orderly givesBack (start interim) := by decide
  ⟨by decide,hg,no_lost_update_of_current interim givesBack hg⟩

/-- A snapshot reads the row before a demotion, and writes it back after. -/
def snapshotOverDemote : List Action :=
  [.begin .writeClusterSnapshot "",.begin (.failoverDemote "http://a:8000/") "f",.commit 1,.commit 0]

theorem snapshot_undoes_demote :
    ¬ ∀ (l : LocalClusterState) (acts : List Action), NoLostUpdate (run step acts (start l)) := by
  intro h
  have hd : (run step snapshotOverDemote (start interim)).demoted := by decide
  have hr : (run step snapshotOverDemote (start interim)).row.role ≠ .worker := by decide
  exact hr ((h interim snapshotOverDemote).demoted hd).1

end DevForge.LocalUpdates
