import DevForge.ClusterNodes
import DevForge.Transition

/-!
# Liveness of a node

The listing takes a node for offline when its heartbeats stop. The choice of a server for a project
and the reuse of an entry by a join read the stored status, which a node that stops does not change.
-/

set_option autoImplicit false

namespace DevForge.NodeLiveness
open ClusterLocal ClusterNodes Transition

/-- The row stands for the leader, and this node does not take it for online in any case. -/
def Unsettled (row : LocalClusterState) (e : NodeId × ClusterNode) : Prop :=
  leads e = false ∨ row.actingLeader = true ∨ ¬(row.nodeId = e.1.text ∨ e.1.text = LEADER_NODE_ID)

/-- The leader whose place an interim leader has taken, or a node whose last heartbeat is missing or
older than 45 s. -/
def Silent (w : World) (e : NodeId × ClusterNode) : Prop :=
  (leads e = true ∧ w.row.actingLeader = true ∧ e.1.text = w.row.preferredLeaderId) ∨
    (Unsettled w.row e ∧ e.2.status ≠ .joining ∧ stale w.now e.2 = true)

theorem listedStatus_offline_iff (w : World) (e : NodeId × ClusterNode) :
    listedStatus w.row w.now e = .offline ↔ Silent w e := by
  unfold listedStatus Silent Unsettled
  cases hl : leads e <;> cases ha : w.row.actingLeader <;> cases hs : stale w.now e.2 <;>
    by_cases hj : e.2.status = .joining <;> by_cases hp : e.1.text = w.row.preferredLeaderId <;>
    by_cases hn : w.row.nodeId = e.1.text ∨ e.1.text = LEADER_NODE_ID <;> simp_all

/-! ## What the listing reports -/

instance (w : World) (e : NodeId × ClusterNode) : Decidable (Silent w e) := by
  unfold Silent Unsettled
  infer_instance

section
variable (X : Externals)

def ReportedLive (w : World) (sid : String) : Prop :=
  ∃ e ∈ listNodes X w, e.1.text = sid ∧ e.2.status = .online ∧ e.2.drained = false

def SomeEligible (w : World) : Prop := ∃ e ∈ listNodes X w, eliminated e.2 = false

/-- With automatic placement and an eligible node, the server is one that the listing reports
online and not drained. -/
def LiveServer (w : World) (current : String) : Prop :=
  w.placementAuto = true → SomeEligible X w → ReportedLive X w (ensureLiveServerId X w current)

/-- A join by the worker of this entry, which the listing reports offline, takes its identifier. -/
def EntryReused (w : World) (req : JoinRequest) (id secret : Uuid) (e : NodeId × ClusterNode) : Prop :=
  ∀ r w', join X req id secret w = .ok (r,w') → e ∈ w.nodes.rows → e.2.role = .worker →
    (listNode w e).2.status = .offline → (e.2.name = r.node.name ∨ e.2.advertiseUrl = r.node.advertiseUrl) →
    r.id = e.1 ∧ w'.nodes.keys = w.nodes.keys

/-- The current server, if its stored row is taken for live, is not silent. -/
def CurrentHeard (w : World) (current : String) : Prop :=
  w.placementAuto = true → SomeEligible X w →
    ∀ e, getNode w (normalizeServerId current) = some e → storedLive e.2 = true → ¬Silent w e

/-- The entry is the first, by name, of those stored as joining or offline under the worker's name,
address or SSH host. -/
def FirstAway (w : World) (req : JoinRequest) (e : NodeId × ClusterNode) : Prop :=
  ∀ name advertise, joinChecks X req w = .ok (name,advertise) → e ∈ w.nodes.rows → e.2.role = .worker →
    Silent w e → (e.2.name = name ∨ e.2.advertiseUrl = advertise) →
    ∃ before after, storedNodes X w = before++e::after ∧
      reusable name advertise req.sshHost e = true ∧ ∀ x ∈ before, reusable name advertise req.sshHost x = false

/-! ## The choice of a server -/

theorem mem_storedNodes (w : World) (e : NodeId × ClusterNode) : e ∈ storedNodes X w ↔ e ∈ w.nodes.rows :=
  (List.perm_insertionSort _ _).mem_iff

theorem mem_listNodes (w : World) (e : NodeId × ClusterNode) :
    e ∈ listNodes X w ↔ ∃ e₀ ∈ w.nodes.rows, listNode w e₀ = e := by
  simp only [listNodes, List.mem_map, mem_storedNodes]

/-- A primary key. -/
theorem eq_of_text {w : World} {e e' : NodeId × ClusterNode} (h : e ∈ w.nodes.rows) (h' : e' ∈ w.nodes.rows)
    (ht : e.1.text = e'.1.text) : e = e' := by
  obtain ⟨⟨text,normal⟩,n⟩ := e
  obtain ⟨⟨text',normal'⟩,n'⟩ := e'
  cases ht
  have hn := ((w.nodes.mem_iff_get _ _).mp h).symm.trans ((w.nodes.mem_iff_get _ _).mp h')
  rw [Option.some.inj hn]

theorem getNode_some {w : World} {id : String} {e : NodeId × ClusterNode} (h : getNode w id = some e) :
    e ∈ w.nodes.rows ∧ e.1.text = id :=
  ⟨List.mem_of_find?_eq_some h,by simpa using List.find?_some h⟩

theorem not_eliminated {n : ClusterNode} (h : eliminated n = false) : n.status = .online ∧ n.drained = false := by
  simp only [eliminated, Bool.or_eq_false_iff] at h
  exact ⟨by simpa using h.1.2,h.1.1⟩

theorem scoreNode_isSome (n : ClusterNode) (count : ℕ) (workers : Bool) (weights : PlacementWeights) :
    (scoreNode n count workers weights).isSome = !eliminated n := by
  unfold scoreNode
  cases eliminated n <;> rfl

theorem eliminated_of_scored {n : ClusterNode} {count : ℕ} {workers : Bool} {weights : PlacementWeights} {score : Float}
    (h : scoreNode n count workers weights = some score) : eliminated n = false := by
  have hscore := scoreNode_isSome n count workers weights
  rw [h] at hscore
  simpa using hscore

section
variable (counts : String → ℕ) (workers : Bool) (weights : PlacementWeights)

/-- The best node is the former one or the one at hand with its score. -/
theorem better_some {best : Option (NodeId × Float)} {e : NodeId × ClusterNode} {r : NodeId × Float}
    (h : better counts workers weights best e = some r) :
    best = some r ∨ (r.1 = e.1 ∧ scoreNode e.2 (counts e.1.text) workers weights = some r.2) := by
  unfold better at h
  split at h
  · exact Or.inl h
  · next heq =>
    cases h
    exact Or.inr ⟨rfl,heq⟩
  · next heq =>
    split at h
    · cases h
      exact Or.inr ⟨rfl,heq⟩
    · split at h
      · cases h
        exact Or.inr ⟨rfl,heq⟩
      · exact Or.inl h

theorem better_isSome (best : Option (NodeId × Float)) (e : NodeId × ClusterNode)
    (h : best.isSome = true ∨ eliminated e.2 = false) : (better counts workers weights best e).isSome = true := by
  have hscore := scoreNode_isSome e.2 (counts e.1.text) workers weights
  unfold better
  split
  · next heq =>
    rw [heq] at hscore
    rcases h with h | h
    · exact h
    · simp [h] at hscore
  · rfl
  · split
    · rfl
    · split <;> rfl

theorem foldl_better_mem (l : List (NodeId × ClusterNode)) (best : Option (NodeId × Float)) (r : NodeId × Float)
    (h : l.foldl (better counts workers weights) best = some r) :
    best = some r ∨ ∃ e ∈ l, e.1 = r.1 ∧ scoreNode e.2 (counts e.1.text) workers weights = some r.2 := by
  induction l generalizing best with
  | nil => exact Or.inl h
  | cons e l ih =>
    rcases ih _ h with h | ⟨x,hx,hr⟩
    · rcases better_some counts workers weights h with h | ⟨hr,he⟩
      · exact Or.inl h
      · exact Or.inr ⟨e,List.mem_cons_self,hr.symm,he⟩
    · exact Or.inr ⟨x,List.mem_cons_of_mem e hx,hr⟩

theorem foldl_better_isSome (l : List (NodeId × ClusterNode)) (best : Option (NodeId × Float))
    (h : best.isSome = true ∨ ∃ e ∈ l, eliminated e.2 = false) :
    (l.foldl (better counts workers weights) best).isSome = true := by
  induction l generalizing best with
  | nil => simpa using h
  | cons e l ih =>
    apply ih
    by_cases hb : best.isSome = true ∨ eliminated e.2 = false
    · exact Or.inl (better_isSome counts workers weights best e hb)
    · push Not at hb
      obtain ⟨x,hx,hl⟩ := h.resolve_left hb.1
      rcases List.mem_cons.mp hx with rfl | hx
      · exact absurd hl hb.2
      · exact Or.inr ⟨x,hx,hl⟩

end

/-- Placement, as soon as there is an eligible node, finds one that the listing reports live. -/
theorem resolve_live {w : World} (hauto : w.placementAuto = true) (h : SomeEligible X w) :
    ReportedLive X w (resolveServerId X w (some "auto")) := by
  have hsome := foldl_better_isSome (projectCountsByNode w)
    ((listNodes X w).any (fun e => workerEligible e.2)) PlacementWeights.default (listNodes X w) none (Or.inr h)
  obtain ⟨r,hr⟩ := Option.isSome_iff_exists.mp hsome
  have hpick : pickPlacement (listNodes X w) (projectCountsByNode w) PlacementWeights.default = some r := hr
  rcases foldl_better_mem _ _ _ _ _ _ hr with hr | ⟨e,he,hid,hl⟩
  · cases hr
  · have hraw : (decide (((some "auto").map trim).getD "" = "") ||
        decide (toAsciiLowercase (((some "auto").map trim).getD "") = "auto")) = true := by decide
    have hresolved : resolveServerId X w (some "auto") = r.1.text := by
      simp only [resolveServerId, hraw, hauto, hpick, Bool.not_true, Bool.false_eq_true, if_false]
      exact r.1.normal
    rw [hresolved, ← hid]
    exact ⟨e,he,rfl,not_eliminated (eliminated_of_scored hl)⟩

theorem storedLive_spec {n : ClusterNode} (h : storedLive n = true) : n.status = .online ∧ n.drained = false := by
  simp only [storedLive, Bool.and_eq_true] at h
  exact ⟨by simpa using h.1.2,by simpa using h.1.1⟩

/-- A node that is stored online is listed online or offline. -/
theorem listed_online_iff {w : World} {e : NodeId × ClusterNode} (h : e.2.status = .online) :
    listedStatus w.row w.now e = .online ↔ ¬Silent w e := by
  rw [← listedStatus_offline_iff]
  unfold listedStatus
  rw [h]
  split
  · simp
  · split
    · simp
    · split
      · simp_all
      · split <;> simp

theorem reportedLive_iff {w : World} {e : NodeId × ClusterNode} (he : e ∈ w.nodes.rows)
    (hl : storedLive e.2 = true) : ReportedLive X w e.1.text ↔ ¬Silent w e := by
  obtain ⟨honline,hdrained⟩ := storedLive_spec hl
  rw [← listed_online_iff honline]
  constructor
  · rintro ⟨x,hx,ht,hs,-⟩
    obtain ⟨x₀,hx₀,rfl⟩ := (mem_listNodes X w x).mp hx
    rwa [eq_of_text hx₀ he ht] at hs
  · intro hs
    exact ⟨listNode w e,(mem_listNodes X w _).mpr ⟨e,he,rfl⟩,rfl,hs,hdrained⟩

theorem liveServer_iff (w : World) (current : String) : LiveServer X w current ↔ CurrentHeard X w current := by
  apply imp_congr_right
  intro hauto
  apply imp_congr_right
  intro helig
  cases hget : getNode w (normalizeServerId current) with
  | none =>
    simp only [ensureLiveServerId, hget, hauto, Option.any_none, Bool.false_eq_true, if_false, if_true]
    apply iff_of_true (resolve_live X hauto helig)
    intro e he
    cases he
  | some e =>
    obtain ⟨he,ht⟩ := getNode_some hget
    simp only [ensureLiveServerId, hget, hauto, Option.any_some, if_true]
    cases hl : storedLive e.2 with
    | true =>
      rw [if_pos rfl, ← ht, reportedLive_iff X he hl]
      constructor
      · intro hs e' he' _
        cases he'
        exact hs
      · intro hs
        exact hs e rfl hl
    | false =>
      rw [if_neg Bool.false_ne_true]
      apply iff_of_true (resolve_live X hauto helig)
      intro e' he' hl'
      cases he'
      exact absurd hl' (by simp [hl])

/-! ## The entry of a join -/

/-- The identifier under which a join stores its node. -/
def joinId (req : JoinRequest) (name advertise : String) (id : Uuid) (w : World) : NodeId :=
  ((reuse X req name advertise w).map Prod.fst).getD (newNodeId id)

theorem join_ok {req : JoinRequest} {w : World} {name advertise : String}
    (h : joinChecks X req w = .ok (name,advertise)) (id secret : Uuid) :
    ∃ r w', join X req id secret w = .ok (r,w') ∧ r.id = joinId X req name advertise id w ∧ r.node.name = name ∧
      r.node.advertiseUrl = advertise ∧ w'.nodes = (upsertNode r.id r.node w).nodes := by
  simp only [join, h]
  exact ⟨_,_,rfl,rfl,rfl,rfl,rfl⟩

theorem join_checked {req : JoinRequest} {w w' : World} {id secret : Uuid} {r : JoinResponse}
    (h : join X req id secret w = .ok (r,w')) :
    ∃ name advertise, joinChecks X req w = .ok (name,advertise) := by
  unfold join at h
  split at h
  · cases h
  · next name advertise hc => exact ⟨name,advertise,hc⟩

theorem upsert_keys {w : World} {id : NodeId} (h : id ∈ w.nodes.keys) (n : ClusterNode) :
    (upsertNode id n w).nodes.keys = w.nodes.keys := by
  simp only [upsertNode, h, if_true]
  exact w.nodes.update_keys _ _

theorem key_mem {w : World} {e : NodeId × ClusterNode} (h : e ∈ w.nodes.rows) : e.1 ∈ w.nodes.keys :=
  List.mem_map_of_mem h

theorem reuse_mem {req : JoinRequest} {name advertise : String} {w : World} {e : NodeId × ClusterNode}
    (h : reuse X req name advertise w = some e) : e ∈ w.nodes.rows :=
  (mem_storedNodes X w e).mp (List.mem_of_find?_eq_some h)

/-- The join of a worker takes the identifier of the entry exactly when it reuses it. -/
theorem joinId_eq_iff {req : JoinRequest} {name advertise : String} {w : World} {id : Uuid} {e : NodeId × ClusterNode}
    (he : e ∈ w.nodes.rows) (hid : newNodeId id ∉ w.nodes.keys) :
    joinId X req name advertise id w = e.1 ↔ reuse X req name advertise w = some e := by
  unfold joinId
  cases hr : reuse X req name advertise w with
  | none =>
    apply iff_of_false
    · intro h
      exact hid (Eq.mpr (congrArg (· ∈ w.nodes.keys) h) (key_mem he))
    · nofun
  | some e' =>
    simp only [Option.map_some, Option.getD_some, Option.some_inj]
    exact ⟨fun h => eq_of_text (reuse_mem X hr) he (congrArg NodeId.text h),fun h => congrArg Prod.fst h⟩

theorem reuse_eq_iff (req : JoinRequest) (name advertise : String) (w : World) (e : NodeId × ClusterNode) :
    reuse X req name advertise w = some e ↔ ∃ before after, storedNodes X w = before++e::after ∧
      reusable name advertise req.sshHost e = true ∧ ∀ x ∈ before, reusable name advertise req.sshHost x = false := by
  rw [reuse, List.find?_eq_some_iff_append]
  constructor
  · rintro ⟨hp,before,after,hl,hb⟩
    exact ⟨before,after,hl,hp,fun x hx => by simpa using hb x hx⟩
  · rintro ⟨before,after,hl,hp,hb⟩
    exact ⟨hp,before,after,hl,fun x hx => by simpa using hb x hx⟩

theorem entryReused_iff (w : World) (req : JoinRequest) (id secret : Uuid) (e : NodeId × ClusterNode)
    (hid : newNodeId id ∉ w.nodes.keys) : EntryReused X w req id secret e ↔ FirstAway X w req e := by
  constructor
  · intro h name advertise hc he hworker hsilent hsame
    obtain ⟨r,w',hj,hr,hn,ha,-⟩ := join_ok X hc id secret
    have hoff := (listedStatus_offline_iff w e).mpr hsilent
    have hreused := (h r w' hj he hworker hoff (by rwa [hn, ha])).1
    rw [← reuse_eq_iff, ← joinId_eq_iff X he hid, ← hr]
    exact hreused
  · intro h r w' hj he hworker hoff hsame
    obtain ⟨name,advertise,hc⟩ := join_checked X hj
    obtain ⟨r',w'',hj',hr,hn,ha,hw⟩ := join_ok X hc id secret
    cases hj.symm.trans hj'
    rw [hn, ha] at hsame
    have hfirst := h name advertise hc he hworker ((listedStatus_offline_iff w e).mp hoff) hsame
    rw [← reuse_eq_iff, ← joinId_eq_iff X he hid, ← hr] at hfirst
    refine ⟨hfirst,?_⟩
    rw [hw]
    exact upsert_keys (hfirst ▸ key_mem he) r.node

/-- Liveness is judged the same by the listing, the choice of a server and a join exactly when the
current server is heard from and the worker's entry is the first that is stored as away. -/
theorem liveness_agrees_iff (start : World) (acts : List Action) (current : String) (req : JoinRequest)
    (id secret : Uuid) (e : NodeId × ClusterNode) (hid : newNodeId id ∉ (run (step X) acts start).nodes.keys) :
    LiveServer X (run (step X) acts start) current ∧ EntryReused X (run (step X) acts start) req id secret e ↔
      CurrentHeard X (run (step X) acts start) current ∧ FirstAway X (run (step X) acts start) req e :=
  and_congr (liveServer_iff X _ current) (entryReused_iff X _ req id secret e hid)

end

/-- The hash of the one invitation of the runs below. -/
def sampleExternals : Externals where
  collates a b := decide (a ≤ b)
  hashSecret s := if s = "dfjoin_a" then "b1474896a1cf63a7c28d1e1968d4336926b38fd98a493b1ce3c9fbf251020ab8" else s

def sampleNode (name url : String) (role : NodeRole) (status : NodeStatus) : ClusterNode :=
  ⟨name,role,url,status,"linux","x86_64",["docker"],none,none,none,some 0,false,"",⟨none,none,none⟩,0⟩

theorem sampleIds_nodup : [leaderId,newNodeId 0].Nodup := by decide +kernel

/-- A leader and a worker, both seen at 0. -/
def sampleWorld (status : NodeStatus) : World where
  now := 0
  row := ⟨.leader,"",LEADER_NODE_ID,"","","",LEADER_NODE_ID,"","",0,false,1,false⟩
  nodes := ⟨[(leaderId,sampleNode "Leader" "" .leader .online),
    (newNodeId 0,sampleNode "alpha" "http://10.0.0.2:8000" .worker status)],sampleIds_nodup⟩
  secrets := fun _ => none
  invitations := [⟨sampleExternals.hashSecret "dfjoin_a",some 1000000000000,false⟩]
  projects := []
  placementAuto := true

def sampleJoin : JoinRequest :=
  ⟨"dfjoin_a","alpha","http://10.0.0.2:8000","linux","x86_64",[],none,none,none⟩

/-- 46 s without a heartbeat. -/
def silentWorld (status : NodeStatus) : World :=
  run (step sampleExternals) [.silence 46000000000] (sampleWorld status)

def awayEntry : NodeId × ClusterNode :=
  (newNodeId 0,sampleNode "alpha" "http://10.0.0.2:8000" .worker .offline)

theorem leader_heard : CurrentHeard sampleExternals (silentWorld .offline) "default" := by
  intro _ _ e he _
  have hall : (getNode (silentWorld .offline) (normalizeServerId "default")).all
      (fun e => !decide (Silent (silentWorld .offline) e)) = true := by decide +kernel
  rw [he] at hall
  simpa using hall

theorem away_first : FirstAway sampleExternals (silentWorld .offline) sampleJoin awayEntry := by
  intro name advertise hc he _ _ _
  have hchecks : joinChecks sampleExternals sampleJoin (silentWorld .offline) = .ok ("alpha","http://10.0.0.2:8000") := by
    decide +kernel
  cases hc.symm.trans hchecks
  have hid : newNodeId (16^20) ∉ (silentWorld .offline).nodes.keys := by decide +kernel
  rw [← reuse_eq_iff, ← joinId_eq_iff sampleExternals he hid]
  decide +kernel

theorem away_worker_reused : LiveServer sampleExternals (silentWorld .offline) "default" ∧
    EntryReused sampleExternals (silentWorld .offline) sampleJoin (16^20) 0 awayEntry :=
  (liveness_agrees_iff sampleExternals (sampleWorld .offline) [.silence 46000000000] "default" sampleJoin (16^20) 0
    awayEntry (by decide +kernel)).mpr ⟨leader_heard,away_first⟩

/-- A worker has been silent for 46 s: the listing reports it offline and the leader online, and a
project stays on it. -/
theorem silent_worker_kept : ¬∀ (X : Externals) (start : World) (acts : List Action) (current : String)
    (req : JoinRequest) (id secret : Uuid) (e : NodeId × ClusterNode),
    newNodeId id ∉ (run (step X) acts start).nodes.keys →
      LiveServer X (run (step X) acts start) current ∧ EntryReused X (run (step X) acts start) req id secret e := by
  intro h
  have hlive := (h sampleExternals (sampleWorld .online) [.silence 46000000000] (newNodeId 0).text sampleJoin
    (16^20) 0 awayEntry (by decide +kernel)).1
  have heligible : ((listNodes sampleExternals (silentWorld .online)).any (fun e => !eliminated e.2)) = true := by
    decide +kernel
  obtain ⟨x,hx,hl⟩ := List.any_eq_true.mp heligible
  have hstored : (getNode (silentWorld .online) (normalizeServerId (newNodeId 0).text)).any
      (fun e => storedLive e.2 && decide (Silent (silentWorld .online) e)) = true := by decide +kernel
  obtain ⟨e,he,hs⟩ := (Option.any_eq_true _ _).mp hstored
  simp only [Bool.and_eq_true, decide_eq_true_eq] at hs
  exact (liveServer_iff sampleExternals (silentWorld .online) _).mp hlive rfl ⟨x,hx,by simpa using hl⟩ e he hs.1 hs.2

/-! ## The stored status -/

def NeverOffline (w : World) : Prop := ∀ e ∈ w.nodes.rows, e.2.status ≠ .offline

theorem mem_upsert {w : World} {id : NodeId} {n : ClusterNode} {e : NodeId × ClusterNode}
    (h : e ∈ (upsertNode id n w).nodes.rows) : e ∈ w.nodes.rows ∨ e.2.status = n.status := by
  simp only [upsertNode] at h
  split at h
  · simp only [Table.update, List.mem_map] at h
    obtain ⟨x,hx,rfl⟩ := h
    split
    · exact Or.inr rfl
    · exact Or.inl hx
  · next hk =>
    rw [Table.insert_rows _ _ _ hk, List.mem_append, List.mem_singleton] at h
    rcases h with h | rfl
    · exact Or.inl h
    · exact Or.inr rfl

theorem NeverOffline.upsert {w : World} (h : NeverOffline w) (id : NodeId) {n : ClusterNode}
    (hn : n.status ≠ .offline) : NeverOffline (upsertNode id n w) := by
  intro e he
  rcases mem_upsert he with he | he
  · exact h e he
  · rwa [he]

section
variable (X : Externals)

theorem NeverOffline.join {w w' : World} (h : NeverOffline w) {req : JoinRequest} {id secret : Uuid} {r : JoinResponse}
    (hj : join X req id secret w = .ok (r,w')) : NeverOffline w' := by
  unfold ClusterNodes.join at hj
  split at hj
  · cases hj
  · cases hj
    exact h.upsert _ (n := joined _ _ _ _ _) nofun

theorem NeverOffline.heartbeat {w w' : World} (h : NeverOffline w) {secret : String} {payload : HeartbeatPayload}
    {n : ClusterNode} (hb : heartbeat X secret payload w = .ok (n,w')) : NeverOffline w' := by
  unfold ClusterNodes.heartbeat at hb
  split at hb
  · cases hb
  · split at hb
    · cases hb
    · split at hb
      · cases hb
      · split at hb
        · cases hb
        · cases hb
          exact h.upsert _ nofun

/-- A heartbeat that stops leaves the stored status as it is, and nothing else stores offline. -/
theorem NeverOffline.step {w : World} (h : NeverOffline w) (a : Action) : NeverOffline (step X w a) := by
  cases a with
  | join req id secret =>
    simp only [ClusterNodes.step]
    split
    · next r hj => exact h.join X hj
    · exact h
  | heartbeat secret payload =>
    simp only [ClusterNodes.step]
    split
    · next r hb => exact h.heartbeat X hb
    · exact h
  | silence nanoseconds => exact h
  | addViaSsh req id =>
    simp only [ClusterNodes.step, addViaSsh]
    split
    · exact h
    · exact h.upsert _ nofun
  | removeNode id =>
    simp only [ClusterNodes.step, removeNode]
    split
    · exact h
    · exact fun e he => h e (List.mem_of_mem_filter he)

/-- From rows that are stored as online or joining, a worker whose heartbeats stop never finds its
entry again: its next join makes a second one. -/
theorem silent_entry_not_reused {start : World} (hstart : NeverOffline start) (acts : List Action)
    {req : JoinRequest} {id secret : Uuid} {r : JoinResponse} {w' : World} {e : NodeId × ClusterNode}
    (hid : newNodeId id ∉ (run (step X) acts start).nodes.keys) (he : e ∈ (run (step X) acts start).nodes.rows)
    (hworker : leads e = false) (hsilent : Silent (run (step X) acts start) e)
    (hj : join X req id secret (run (step X) acts start) = .ok (r,w')) : r.id ≠ e.1 := by
  have hnever := invariant (step X) NeverOffline (fun _ a h => h.step X a) acts start hstart
  obtain ⟨name,advertise,hc⟩ := join_checked X hj
  obtain ⟨r',w'',hj',hr,-⟩ := join_ok X hc id secret
  cases hj.symm.trans hj'
  rw [hr, Ne, joinId_eq_iff X he hid]
  intro hreuse
  have haway : e.2.status = .joining ∨ e.2.status = .offline := by
    have hp := List.find?_some hreuse
    simp only [reusable, Bool.and_eq_true, Bool.or_eq_true, decide_eq_true_eq] at hp
    exact hp.1.2
  rcases hsilent with ⟨hl,-⟩ | ⟨-,hnot,-⟩
  · exact Bool.noConfusion (hworker.symm.trans hl)
  · exact haway.elim hnot (hnever e he)

end
end DevForge.NodeLiveness
