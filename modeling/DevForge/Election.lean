import DevForge.ClusterLocal
import DevForge.Transition
import Mathlib.Data.List.Sort
import Mathlib.Data.String.Basic

/-!
# The election of an interim leader

Workers that have lost the leader read the same roster. Each asks the candidates before it
whether they lead already, follows the first that does, and otherwise promotes itself if it is
the first candidate of the roster, be the others reachable or not.
-/

set_option autoImplicit false

namespace DevForge.Election
open ClusterLocal Transition

/-! ## The roster -/

structure RosterEntry where
  id : String
  role : NodeRole
  advertiseUrl : String
  drained : Bool
deriving DecidableEq, Repr

/-- A worker that is not drained and has a URL. -/
def RosterEntry.candidate (n : RosterEntry) : Bool := n.role = .worker && !n.drained && trim n.advertiseUrl ≠ ""

/-- `min_by_key`: of equal keys the first one stays. -/
def minById (best : Option RosterEntry) (n : RosterEntry) : Option RosterEntry :=
  match best with
  | none => some n
  | some b => if n.id < b.id then some n else some b

def pickFailoverWinner (candidates : List RosterEntry) : Option RosterEntry :=
  (candidates.filter RosterEntry.candidate).foldl minById none

def iAmFailoverWinner (myId : String) (candidates : List RosterEntry) : Bool :=
  (pickFailoverWinner candidates).any (fun w => w.id = myId)

def earlierCandidates (myId : String) (candidates : List RosterEntry) : List RosterEntry :=
  (candidates.filter (fun n => n.candidate && n.id < myId)).insertionSort (fun a b => a.id ≤ b.id)

theorem minById_spec (best : Option RosterEntry) (n : RosterEntry) : ∃ m, minById best n = some m ∧
    (m = n ∨ best = some m) ∧ m.id ≤ n.id ∧ ∀ b ∈ best, m.id ≤ b.id := by
  cases best with
  | none => exact ⟨n,rfl,.inl rfl,le_refl _,nofun⟩
  | some b =>
    by_cases hlt : n.id < b.id
    · refine ⟨n,if_pos hlt,.inl rfl,le_refl _,fun c hc => ?_⟩
      cases hc
      exact hlt.le
    · refine ⟨b,if_neg hlt,.inr rfl,not_lt.mp hlt,fun c hc => ?_⟩
      cases hc
      exact le_refl _

/-- What the fold ends with: one of the entries, or what it began with, and of the least id. -/
theorem foldl_minById {l : List RosterEntry} {best : Option RosterEntry} {w : RosterEntry}
    (h : l.foldl minById best = some w) :
    (w ∈ l ∨ best = some w) ∧ (∀ n ∈ l, w.id ≤ n.id) ∧ ∀ b ∈ best, w.id ≤ b.id := by
  induction l generalizing best with
  | nil =>
    refine ⟨.inr h,nofun,fun b hb => ?_⟩
    cases hb.symm.trans h
    exact le_refl _
  | cons n l ih =>
    obtain ⟨m,hm,hfrom,hn,hbest⟩ := minById_spec best n
    rw [List.foldl_cons, hm] at h
    obtain ⟨hmem,hle,hleast⟩ := ih h
    have hwm : w.id ≤ m.id := hleast m rfl
    refine ⟨?_,?_,fun b hb => le_trans hwm (hbest b hb)⟩
    · obtain hmem | hmem := hmem
      · exact .inl (List.mem_cons_of_mem n hmem)
      · cases hmem
        obtain rfl | hfrom := hfrom
        · exact .inl List.mem_cons_self
        · exact .inr hfrom
    · intro c hc
      obtain rfl | hc := List.mem_cons.mp hc
      · exact le_trans hwm hn
      · exact hle c hc

theorem foldl_minById_none {l : List RosterEntry} {best : Option RosterEntry} (h : l.foldl minById best = none) :
    best = none ∧ l = [] := by
  induction l generalizing best with
  | nil => exact ⟨h,rfl⟩
  | cons n l ih =>
    obtain ⟨m,hm,-⟩ := minById_spec best n
    rw [List.foldl_cons, hm] at h
    cases (ih h).1

theorem pick_none_iff (roster : List RosterEntry) :
    pickFailoverWinner roster = none ↔ ∀ n ∈ roster, n.candidate = false := by
  constructor
  · intro h
    have hnil := (foldl_minById_none h).2
    intro n hn
    rw [List.filter_eq_nil_iff] at hnil
    simpa using hnil n hn
  · intro h
    have hnil : roster.filter RosterEntry.candidate = [] := List.filter_eq_nil_iff.mpr (fun n hn => by simp [h n hn])
    rw [pickFailoverWinner, hnil]
    rfl

theorem pick_spec {roster : List RosterEntry} {w : RosterEntry} (h : pickFailoverWinner roster = some w) :
    w ∈ roster ∧ w.candidate = true ∧ ∀ n ∈ roster, n.candidate = true → w.id ≤ n.id := by
  obtain ⟨hmem,hle,-⟩ := foldl_minById h
  obtain hmem | hmem := hmem
  · obtain ⟨hroster,hcandidate⟩ := List.mem_filter.mp hmem
    exact ⟨hroster,hcandidate,fun n hn hc => hle n (List.mem_filter.mpr ⟨hn,hc⟩)⟩
  · cases hmem

theorem iAmFailoverWinner_iff (myId : String) (roster : List RosterEntry) : iAmFailoverWinner myId roster = true ↔
    (∃ n ∈ roster, n.candidate = true ∧ n.id = myId) ∧ ∀ n ∈ roster, n.candidate = true → myId ≤ n.id := by
  unfold iAmFailoverWinner
  cases h : pickFailoverWinner roster with
  | none =>
    refine iff_of_false (by simp) ?_
    rintro ⟨⟨n,hn,hc,-⟩,-⟩
    rw [(pick_none_iff roster).mp h n hn] at hc
    cases hc
  | some w =>
    obtain ⟨hmem,hc,hle⟩ := pick_spec h
    simp only [Option.any_some, decide_eq_true_eq]
    constructor
    · rintro rfl
      exact ⟨⟨w,hmem,hc,rfl⟩,hle⟩
    · rintro ⟨⟨n,hn,hcn,rfl⟩,hmin⟩
      exact le_antisymm (hle n hn hcn) (hmin w hmem hc)

theorem mem_earlierCandidates {myId : String} {roster : List RosterEntry} {n : RosterEntry}
    (h : n ∈ earlierCandidates myId roster) : n ∈ roster ∧ n.candidate = true ∧ n.id < myId := by
  have hmem := List.mem_filter.mp (((List.perm_insertionSort _ _).mem_iff).mp h)
  simpa [and_assoc] using hmem

/-! ## The workers -/

/-- Where a worker may be promoted from. -/
inductive Mode where
  | standby
  | snapshot
deriving DecidableEq, Repr

inductive Outcome where
  | follows (id : String)
  /-- Not the winner, or nothing to be promoted from. -/
  | waits
  /-- The flag is written, the process restarts. -/
  | promotes (mode : Mode)
deriving DecidableEq, Repr

inductive Pc where
  | idle
  /-- The candidates that it has still to ask. -/
  | asking (peers : List RosterEntry)
  | ended (outcome : Outcome)
  /-- Promoted and restarted. -/
  | leads
deriving DecidableEq, Repr

/-- Workers that have lost the leader, with the roster that they read. A node that is not reachable
neither answers nor runs. -/
structure Cluster where
  roster : List RosterEntry
  reachable : String → Bool
  rows : String → LocalClusterState
  /-- A standby that streams, or else a snapshot file. -/
  mode : String → Option Mode
  workers : ∀ id, (rows id).nodeId = id ∧ (rows id).actingLeader = false
  usable : ∀ id, reachable id = true → (mode id).isSome = true

structure State where
  rows : String → LocalClusterState
  pcs : String → Pc

def start (c : Cluster) : State := ⟨c.rows,fun _ => .idle⟩

def State.setPc (s : State) (id : String) (pc : Pc) : State :=
  { s with pcs := fun i => if i = id then pc else s.pcs i }

def State.setRow (s : State) (id : String) (row : LocalClusterState) : State :=
  { s with rows := fun i => if i = id then row else s.rows i }

/-- The answer of a peer to `failover_status`: whether it leads. -/
def failoverStatus (c : Cluster) (s : State) (peer : RosterEntry) (secret : String) : Option Bool :=
  if c.reachable peer.id && clusterAuthOk (s.rows peer.id) secret then some (s.rows peer.id).actingLeader else none

/-- `try_elect`, up to the candidates it asks. -/
def begin_ (c : Cluster) (id : String) (s : State) : State :=
  if c.reachable id && s.pcs id = .idle then
    if c.roster.isEmpty then s.setPc id (.ended .waits)
    else s.setPc id (.asking (if (s.rows id).failoverSecret ≠ "" then earlierCandidates (s.rows id).nodeId c.roster else []))
  else s

/-- The next candidate is asked. -/
def ask (c : Cluster) (id : String) (s : State) : State :=
  match s.pcs id with
  | .asking (peer::peers) =>
    if failoverStatus c s peer (s.rows id).failoverSecret = some true then
      (s.setRow id (setLocal ((Op.followPeer peer.advertiseUrl).apply (s.rows id)))).setPc id (.ended (.follows peer.id))
    else s.setPc id (.asking peers)
  | _ => s

/-- All have been asked. -/
def decideWinner (c : Cluster) (id : String) (s : State) : State :=
  match s.pcs id with
  | .asking [] =>
    if iAmFailoverWinner (s.rows id).nodeId c.roster then
      match c.mode id with
      | some mode => s.setPc id (.ended (.promotes mode))
      | none => s.setPc id (.ended .waits)
    else s.setPc id (.ended .waits)
  | _ => s

/-- The restarted process applies the promotion flag. -/
def restart (id : String) (s : State) : State :=
  match s.pcs id with
  | .ended (.promotes _) => (s.setRow id (setLocal (promoted (s.rows id)))).setPc id .leads
  | _ => s

inductive Action where
  | begin_ (id : String)
  | ask (id : String)
  | decideWinner (id : String)
  | restart (id : String)
deriving DecidableEq, Repr

def step (c : Cluster) (s : State) : Action → State
  | .begin_ id => begin_ c id s
  | .ask id => ask c id s
  | .decideWinner id => decideWinner c id s
  | .restart id => restart id s

/-! ## What the election gives -/

def Pc.promotes : Pc → Bool
  | .ended (.promotes _) | .leads => true
  | _ => false

def Pc.finished : Pc → Bool
  | .ended _ | .leads => true
  | _ => false

/-- Every reachable worker of the roster has run `try_elect` to its end. -/
def Complete (c : Cluster) (s : State) : Prop :=
  ∀ n ∈ c.roster, n.role = .worker → c.reachable n.id = true → (s.pcs n.id).finished = true

/-- The roster without the nodes that are not reachable. -/
def Cluster.reachableRoster (c : Cluster) : List RosterEntry := c.roster.filter (fun n => c.reachable n.id)

/-- The first candidate among the reachable ones promotes itself, it alone, and nobody follows another. -/
structure Elected (c : Cluster) (s : State) : Prop where
  promotes : ∀ id, (s.pcs id).promotes = true ↔ iAmFailoverWinner id c.reachableRoster = true
  follows : ∀ id peer, s.pcs id = .ended (.follows peer) → iAmFailoverWinner peer c.reachableRoster = true

/-- The first candidate of the roster is reachable, or no candidate is. -/
def WinnerReachable (c : Cluster) : Prop :=
  (∀ w ∈ pickFailoverWinner c.roster, c.reachable w.id = true) ∨
    ∀ n ∈ c.roster, n.candidate = true → c.reachable n.id = false

/-! ## A step -/

/-- What a worker has done so far. -/
def PcOk (c : Cluster) (s : State) (id : String) : Pc → Prop
  | .idle => True
  | .asking peers => c.reachable id = true ∧ ∀ peer ∈ peers, peer.id < id
  | .ended (.follows peer) => (s.pcs peer).promotes = true ∧ peer < id
  | .ended .waits => iAmFailoverWinner id c.roster = false
  | .ended (.promotes _) | .leads => c.reachable id = true ∧ iAmFailoverWinner id c.roster = true

structure Inv (c : Cluster) (s : State) : Prop where
  ids : ∀ id, (s.rows id).nodeId = id
  acting : ∀ id, (s.rows id).actingLeader = true → (s.pcs id).promotes = true
  pcs : ∀ id, PcOk c s id (s.pcs id)

theorem inv_start (c : Cluster) : Inv c (start c) where
  ids id := (c.workers id).1
  acting id h := by
    rw [start, (c.workers id).2] at h
    cases h
  pcs _ := trivial

theorem PcOk.mono {c : Cluster} {s s' : State} {id : String} {pc : Pc} (h : PcOk c s id pc)
    (hs : ∀ i, (s.pcs i).promotes = true → (s'.pcs i).promotes = true) : PcOk c s' id pc := by
  unfold PcOk at h ⊢
  split
  · trivial
  · exact h
  · exact ⟨hs _ h.1,h.2⟩
  · exact h
  · exact h
  · exact h

/-- A worker goes on, and does not take a promotion back. -/
theorem Inv.setPc {c : Cluster} {s : State} (h : Inv c s) {id : String} {pc : Pc} (hpc : PcOk c s id pc)
    (hkept : (s.pcs id).promotes = true → pc.promotes = true) : Inv c (s.setPc id pc) := by
  have hmono : ∀ i, (s.pcs i).promotes = true → ((s.setPc id pc).pcs i).promotes = true := by
    intro i hi
    show (if i = id then pc else s.pcs i).promotes = true
    by_cases heq : i = id
    · rw [if_pos heq]
      exact hkept (heq ▸ hi)
    · rw [if_neg heq]
      exact hi
  refine ⟨h.ids,fun i hi => hmono i (h.acting i hi),fun i => ?_⟩
  by_cases heq : i = id
  · have hset : (s.setPc id pc).pcs i = pc := if_pos heq
    rw [hset, heq]
    exact hpc.mono hmono
  · have hset : (s.setPc id pc).pcs i = s.pcs i := if_neg heq
    rw [hset]
    exact (h.pcs i).mono hmono

/-- A row changes, and leads only after a promotion. -/
theorem Inv.setRow {c : Cluster} {s : State} (h : Inv c s) {id : String} {row : LocalClusterState}
    (hid : row.nodeId = id) (hacting : row.actingLeader = true → (s.pcs id).promotes = true) :
    Inv c (s.setRow id row) := by
  refine ⟨fun i => ?_,fun i hi => ?_,h.pcs⟩
  · show (if i = id then row else s.rows i).nodeId = i
    by_cases heq : i = id
    · rw [if_pos heq, hid, heq]
    · rw [if_neg heq, h.ids]
  · show (s.pcs i).promotes = true
    by_cases heq : i = id
    · have hset : (s.setRow id row).rows i = row := if_pos heq
      rw [hset] at hi
      rw [heq]
      exact hacting hi
    · have hset : (s.setRow id row).rows i = s.rows i := if_neg heq
      rw [hset] at hi
      exact h.acting i hi

theorem not_winner_of_nil {c : Cluster} (h : c.roster.isEmpty = true) (id : String) :
    iAmFailoverWinner id c.roster = false := by
  rw [List.isEmpty_iff.mp h]
  rfl

theorem Inv.step {c : Cluster} {s : State} (h : Inv c s) (a : Action) : Inv c (step c s a) := by
  cases a with
  | begin_ id =>
    show Inv c (Election.begin_ c id s)
    unfold Election.begin_
    split
    · next hguard =>
      rw [Bool.and_eq_true, decide_eq_true_eq] at hguard
      have hnot : ∀ pc : Pc, (s.pcs id).promotes = true → pc.promotes = true := by
        rw [hguard.2]
        exact fun _ h => by cases h
      split
      · next hempty => exact h.setPc (not_winner_of_nil hempty id) (hnot _)
      · refine h.setPc ⟨hguard.1,fun peer hpeer => ?_⟩ (hnot _)
        split at hpeer
        · rw [h.ids] at hpeer
          exact (mem_earlierCandidates hpeer).2.2
        · cases hpeer
    · exact h
  | ask id =>
    show Inv c (Election.ask c id s)
    unfold Election.ask
    split
    · next peer peers hpc =>
      have hasking := h.pcs id
      rw [hpc] at hasking
      have hnot : ∀ pc : Pc, (s.pcs id).promotes = true → pc.promotes = true := by
        rw [hpc]
        exact fun _ h => by cases h
      split
      · next hleads =>
        have hacting : (s.rows peer.id).actingLeader = true := by
          unfold failoverStatus at hleads
          split at hleads
          · exact Option.some.inj hleads
          · cases hleads
        have hrow : Inv c (s.setRow id (setLocal ((Op.followPeer peer.advertiseUrl).apply (s.rows id)))) :=
          h.setRow (h.ids id) (h.acting id)
        exact hrow.setPc ⟨h.acting peer.id hacting,hasking.2 peer List.mem_cons_self⟩ (hnot _)
      · exact h.setPc ⟨hasking.1,fun p hp => hasking.2 p (List.mem_cons_of_mem peer hp)⟩ (hnot _)
    · exact h
  | decideWinner id =>
    show Inv c (Election.decideWinner c id s)
    unfold Election.decideWinner
    split
    · next hpc =>
      have hasking := h.pcs id
      rw [hpc] at hasking
      have hnot : ∀ pc : Pc, (s.pcs id).promotes = true → pc.promotes = true := by
        rw [hpc]
        exact fun _ h => by cases h
      rw [h.ids]
      split
      · next hwinner =>
        split
        · exact h.setPc ⟨hasking.1,hwinner⟩ (hnot _)
        · next hmode =>
          have husable := c.usable id hasking.1
          rw [hmode] at husable
          cases husable
      · next hwinner => exact h.setPc (Bool.eq_false_iff.mpr hwinner) (hnot _)
    · exact h
  | restart id =>
    show Inv c (Election.restart id s)
    unfold Election.restart
    split
    · next mode hpc =>
      have hpromotes := h.pcs id
      rw [hpc] at hpromotes
      have hrow : Inv c (s.setRow id (setLocal (promoted (s.rows id)))) :=
        h.setRow (h.ids id) (fun _ => by rw [hpc]; rfl)
      exact hrow.setPc hpromotes (fun _ => rfl)
    · exact h

/-! ## A whole election -/

theorem inv_run (c : Cluster) (acts : List Action) : Inv c (run (step c) acts (start c)) :=
  invariant (step c) (Inv c) (fun _ a h => h.step a) acts (start c) (inv_start c)

theorem promotes_spec {c : Cluster} {s : State} (h : Inv c s) {id : String} (hp : (s.pcs id).promotes = true) :
    c.reachable id = true ∧ iAmFailoverWinner id c.roster = true := by
  have hok := h.pcs id
  cases hpc : s.pcs id with
  | ended outcome =>
    rw [hpc] at hp hok
    cases outcome with
    | promotes mode => exact hok
    | _ => cases hp
  | leads =>
    rw [hpc] at hok
    exact hok
  | _ =>
    rw [hpc] at hp
    cases hp

theorem winner_unique {roster : List RosterEntry} {a b : String} (ha : iAmFailoverWinner a roster = true)
    (hb : iAmFailoverWinner b roster = true) : a = b := by
  rw [iAmFailoverWinner_iff] at ha hb
  obtain ⟨⟨n,hn,hcn,rfl⟩,hamin⟩ := ha
  obtain ⟨⟨m,hm,hcm,rfl⟩,hbmin⟩ := hb
  exact le_antisymm (hamin m hm hcm) (hbmin n hn hcn)

/-- The winner of the roster, when it can be reached, is the winner among the reachable ones. -/
theorem winner_reachable {c : Cluster} {id : String} (hid : c.reachable id = true)
    (h : iAmFailoverWinner id c.roster = true) : iAmFailoverWinner id c.reachableRoster = true := by
  rw [iAmFailoverWinner_iff] at h ⊢
  obtain ⟨⟨n,hn,hc,rfl⟩,hmin⟩ := h
  refine ⟨⟨n,List.mem_filter.mpr ⟨hn,hid⟩,hc,rfl⟩,fun m hm hcm => ?_⟩
  exact hmin m (List.mem_filter.mp hm).1 hcm

/-- A winner that has run to its end has promoted itself. -/
theorem promotes_of_winner {c : Cluster} {s : State} (h : Inv c s) {id : String}
    (hwinner : iAmFailoverWinner id c.roster = true) (hdone : (s.pcs id).finished = true) :
    (s.pcs id).promotes = true := by
  have hok := h.pcs id
  cases hpc : s.pcs id with
  | idle =>
    rw [hpc] at hdone
    cases hdone
  | asking peers =>
    rw [hpc] at hdone
    cases hdone
  | leads => rfl
  | ended outcome =>
    rw [hpc] at hok
    cases outcome with
    | promotes mode => rfl
    | waits =>
      rw [show iAmFailoverWinner id c.roster = false from hok] at hwinner
      cases hwinner
    | follows peer =>
      obtain ⟨hpeer,hlt⟩ : (s.pcs peer).promotes = true ∧ peer < id := hok
      have hsame := winner_unique (promotes_spec h hpeer).2 hwinner
      exact absurd hlt (by rw [hsame]; exact lt_irrefl id)

/-- All workers have run: the first reachable candidate is elected, it alone, exactly when it is the
first of the roster or there is none. -/
theorem election_iff (c : Cluster) (acts : List Action) (hdone : Complete c (run (step c) acts (start c))) :
    Elected c (run (step c) acts (start c)) ↔ WinnerReachable c := by
  have hinv := inv_run c acts
  generalize run (step c) acts (start c) = s at hdone hinv
  constructor
  · intro h
    by_cases hnone : ∀ n ∈ c.roster, n.candidate = true → c.reachable n.id = false
    · exact .inr hnone
    · push Not at hnone
      obtain ⟨n,hn,hc,hreachable⟩ := hnone
      have hreachable : c.reachable n.id = true := by simpa using hreachable
      left
      intro w hw
      cases hpick : pickFailoverWinner c.reachableRoster with
      | none =>
        have hfalse := (pick_none_iff _).mp hpick n (List.mem_filter.mpr ⟨hn,hreachable⟩)
        rw [hc] at hfalse
        cases hfalse
      | some t =>
        have ht : iAmFailoverWinner t.id c.reachableRoster = true := by simp [iAmFailoverWinner, hpick]
        obtain ⟨hup,hwinner⟩ := promotes_spec hinv ((h.promotes t.id).mpr ht)
        have hwid : iAmFailoverWinner w.id c.roster = true := by
          rw [iAmFailoverWinner, Option.mem_def.mp hw]
          simp
        rw [winner_unique hwid hwinner]
        exact hup
  · intro h
    have hpromotes : ∀ id, (s.pcs id).promotes = true → iAmFailoverWinner id c.reachableRoster = true := by
      intro id hp
      obtain ⟨hup,hwinner⟩ := promotes_spec hinv hp
      exact winner_reachable hup hwinner
    refine ⟨fun id => ⟨hpromotes id,fun hid => ?_⟩,fun id peer hpc => ?_⟩
    · obtain ⟨⟨n,hn,hc,rfl⟩,-⟩ := (iAmFailoverWinner_iff _ _).mp hid
      obtain ⟨hmem,hreachable⟩ := List.mem_filter.mp hn
      obtain hup | hnone := h
      · cases hpick : pickFailoverWinner c.roster with
        | none =>
          rw [(pick_none_iff _).mp hpick n hmem] at hc
          cases hc
        | some w =>
          have hwup := hup w hpick
          have hwinner : iAmFailoverWinner w.id c.roster = true := by simp [iAmFailoverWinner, hpick]
          obtain ⟨hwmem,hwc,-⟩ := pick_spec hpick
          have hworker : w.role = .worker := by
            simp only [RosterEntry.candidate, Bool.and_eq_true, decide_eq_true_eq] at hwc
            exact hwc.1.1
          rw [winner_unique hid (winner_reachable hwup hwinner)]
          exact promotes_of_winner hinv hwinner (hdone w hwmem hworker hwup)
      · rw [hnone n hmem hc] at hreachable
        cases hreachable
    · have hok := hinv.pcs id
      rw [hpc] at hok
      exact hpromotes peer hok.1

def workerRow (id : String) : LocalClusterState where
  role := .worker
  leaderUrl := "http://leader:8000"
  nodeId := id
  nodeSecret := "secret-"++id
  nodeName := id
  advertiseUrl := "http://"++id++":8000"
  preferredLeaderId := LEADER_NODE_ID
  preferredLeaderUrl := "http://leader:8000"
  failoverSecret := "failover"
  snapshotGeneration := 3
  actingLeader := false
  leaderTerm := 1
  writesFenced := false

/-- Two workers, of which the second is reachable, and the first if `first` says so. -/
def twoWorkers (first : Bool) : Cluster where
  roster := [⟨"node_a",.worker,"http://node_a:8000",false⟩,⟨"node_b",.worker,"http://node_b:8000",false⟩]
  reachable id := id = "node_b" || (first && id = "node_a")
  rows := workerRow
  mode _ := some .snapshot
  workers _ := ⟨rfl,rfl⟩
  usable _ _ := rfl

instance (c : Cluster) (s : State) : Decidable (Complete c s) := by
  unfold Complete
  infer_instance

theorem twoWorkers_elect :
    Elected (twoWorkers true) (run (step (twoWorkers true))
      [.begin_ "node_a",.decideWinner "node_a",.restart "node_a",.begin_ "node_b",.ask "node_b"] (start (twoWorkers true))) ↔
      WinnerReachable (twoWorkers true) :=
  election_iff (twoWorkers true) _ (by decide +kernel)

/-- The first worker is gone: the second one has lost the leader, and waits. -/
theorem gone_winner_blocks : ¬∀ (c : Cluster) (acts : List Action), Complete c (run (step c) acts (start c)) →
    Elected c (run (step c) acts (start c)) := by
  intro h
  have helected := h (twoWorkers false) [.begin_ "node_b",.ask "node_b",.decideWinner "node_b"] (by decide +kernel)
  have hpromotes := helected.promotes "node_b"
  revert hpromotes
  decide +kernel

end DevForge.Election
