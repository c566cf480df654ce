import DevForge.ControlBoot

/-!
# A boot that survives its crashes

What a boot will install is a function of the world that it starts in. Each command keeps
it, or leaves a world that a crash would tear until a later command mends it.
-/

set_option autoImplicit false

namespace DevForge.BootSurvivesCrashes
open ClusterLocal CrashLogic ControlBoot Transition

/-! ## What a boot will install -/

def copyIn : Contents → Option Database
  | .cluster ⟨_,.tables d⟩ => some d
  | _ => none

def database (otherwise : Database) (c : Contents) : Database := (copyIn c).getD otherwise

/-- The volume whose data the boot runs on, once what is armed is in place. -/
def sourceVolume (w : World) : Volume :=
  if w.promoteFlag = some .standby then .standby else if w.armed then .incoming else .control

def base (w : World) : Database :=
  match w.pending with
  | some p => p.database
  | none => database (w.dbFile.getD .fresh) (w.volumes (sourceVolume w))

/-- The row that the flags leave. -/
def mark (w : World) (d : Database) : Database :=
  match w.promoteFlag, w.identity, w.reclaimFlag with
  | some _, some l, _ => { d with row := some (setLocal (promoted l)) }
  | none, _, some (some l) => { d with row := some (setLocal (reclaimed l)) }
  | _, _, _ => d

def outcome (w : World) : Database := mark w (base w)

/-- What was armed is whole: the clone that `arm_staged_clone` armed, the replica that the
election saw streaming, the identity that it wrote; the node's own database can be written. -/
structure Bootable (w : World) : Prop where
  clone : w.armed = true → ∃ d, w.volumes .incoming = .cluster ⟨false,.tables d⟩
  replica : w.promoteFlag = some .standby → ∃ d, server .standby w = some ⟨true,.tables d⟩
  primary : ∀ k, w.volumes .control = .cluster k → k.inRecovery = false ∧ k.schema ≠ .missing
  serving : w.containers .control = .running → ∃ k, w.volumes .control = .cluster k
  ident : w.promoteFlag.isSome = true → w.identity.isSome = true
  single : w.promoteFlag = none ∨ w.reclaimFlag = none

/-- The states in which a crash does harm. -/
def torn (s : State) : Bool :=
  (s.world.armed && s.world.volumes .incoming = .absent) ||
  (s.world.promoteFlag = some .standby && !(server .standby s.world).any (fun k => k.inRecovery)) ||
  (s.restoredSqlite && match s.world.volumes .control with
    | .cluster k => k.schema ≠ .blank && some k.schema ≠ s.world.dbFile.map Public.tables
    | _ => false) ||
  (s.promoting.isSome && s.world.promoteFlag.isSome && s.world.identity = s.promoting)

structure Ready (D : Database) (s : State) : Prop where
  sqlite : s.restoredSqlite = false
  promoting : s.promoting = none
  bootable : Bootable s.world
  outcome : outcome s.world = D

/-- What holds wherever the process may die. -/
def Crash (D : Database) (s : State) : Prop := torn s = true ∨ Ready D s.reset

theorem Ready.crash {D : Database} {s : State} (h : Ready D s) : Crash D s :=
  Or.inr ⟨rfl,rfl,h.bootable,h.outcome⟩

/-! ## Commands -/

@[simp] theorem setVolume_self (v : Volume) (c : Contents) (w : World) : (setVolume v c w).volumes v = c := by
  simp [setVolume]

theorem setVolume_ne {v u : Volume} (h : u ≠ v) (c : Contents) (w : World) :
    (setVolume v c w).volumes u = w.volumes u := by
  simp [setVolume, h]

theorem mount_cluster {v : Volume} {w : World} {k : Cluster} (h : w.volumes v = .cluster k) : mount v w = w := by
  simp [mount, h]

/-- A cluster is copied as it is. -/
theorem copyVolume_cluster {source : Volume} (target : Volume) {w : World} {k : Cluster}
    (h : w.volumes source = .cluster k) (htarget : w.volumes target ≠ .absent) :
    copyVolume source target w = (true,setVolume target (.cluster k) w) := by
  have hmount : mount target w = w := by simp [mount, htarget]
  rw [copyVolume, mount_cluster h, hmount, h]

/-- A world that differs in the control volume and container only. -/
structure Refitted (w w' : World) : Prop where
  volumes : ∀ v, v ≠ .control → w'.volumes v = w.volumes v
  standby : w'.containers .standby = w.containers .standby
  armed : w'.armed = w.armed
  promoteFlag : w'.promoteFlag = w.promoteFlag
  identity : w'.identity = w.identity
  reclaimFlag : w'.reclaimFlag = w.reclaimFlag
  pending : w'.pending = w.pending
  dbFile : w'.dbFile = w.dbFile

theorem Refitted.trans {w w' w'' : World} (h : Refitted w w') (h' : Refitted w' w'') : Refitted w w'' where
  volumes v hv := (h'.volumes v hv).trans (h.volumes v hv)
  standby := h'.standby.trans h.standby
  armed := h'.armed.trans h.armed
  promoteFlag := h'.promoteFlag.trans h.promoteFlag
  identity := h'.identity.trans h.identity
  reclaimFlag := h'.reclaimFlag.trans h.reclaimFlag
  pending := h'.pending.trans h.pending
  dbFile := h'.dbFile.trans h.dbFile

theorem refitted_setVolume (c : Contents) (w : World) : Refitted w (setVolume .control c w) :=
  ⟨fun _ hv => setVolume_ne hv c w,rfl,rfl,rfl,rfl,rfl,rfl,rfl⟩

theorem refitted_setContainer (status : Status) (w : World) : Refitted w (setContainer .control status w) :=
  ⟨fun _ _ => rfl,by simp [setContainer],rfl,rfl,rfl,rfl,rfl,rfl⟩

theorem Refitted.server {w w' : World} (h : Refitted w w') : server .standby w' = server .standby w := by
  have hvolume : w'.volumes Container.standby.volume = w.volumes Container.standby.volume :=
    h.volumes _ (by decide)
  simp only [ControlBoot.server, h.standby, hvolume]

theorem Refitted.mark {w w' : World} (h : Refitted w w') (d : Database) : mark w' d = mark w d := by
  unfold BootSurvivesCrashes.mark
  rw [h.promoteFlag, h.identity, h.reclaimFlag]

theorem server_eq {c : Container} {w : World} {k : Cluster} :
    server c w = some k ↔ w.containers c = .running ∧ w.volumes c.volume = .cluster k := by
  unfold server
  split
  · rename_i hrun hvol
    simp [hrun, hvol]
  · rename_i hno
    constructor
    · intro h
      simp at h
    · rintro ⟨hrun,hvol⟩
      exact absurd hvol (hno k hrun)

theorem psql_eq {f : Public → Option Public} {w : World} {k : Cluster} {schema : Public}
    (hserver : server .control w = some k) (hwrite : k.inRecovery = false) (hf : f k.schema = some schema) :
    psql f w = (true,setVolume .control (.cluster { k with schema := schema }) w) := by
  simp [psql, hserver, hwrite, hf]

/-! ## The clone -/

theorem outcome_refitted {w w' : World} (h : Refitted w w') (hsource : sourceVolume w ≠ .control) :
    outcome w' = outcome w := by
  have hsame : sourceVolume w' = sourceVolume w := by
    unfold sourceVolume
    rw [h.promoteFlag, h.armed]
  unfold outcome base
  rw [h.mark, h.pending, h.dbFile, hsame, h.volumes _ hsource]

theorem Bootable.refitted {w w' : World} (hb : Bootable w) (h : Refitted w w')
    (hprimary : ∀ k, w'.volumes .control = .cluster k → k.inRecovery = false ∧ k.schema ≠ .missing)
    (hserving : w'.containers .control = .running → ∃ k, w'.volumes .control = .cluster k) : Bootable w' where
  clone := by
    rw [h.armed, h.volumes _ (by decide)]
    exact hb.clone
  replica := by
    rw [h.promoteFlag, h.server]
    exact hb.replica
  primary := hprimary
  serving := hserving
  ident := by
    rw [h.promoteFlag, h.identity]
    exact hb.ident
  single := by
    rw [h.promoteFlag, h.reclaimFlag]
    exact hb.single

theorem refitted_stop (w : World) : Refitted w (stop .control w).2 := by
  unfold stop
  split
  · exact ⟨fun _ _ => rfl,rfl,rfl,rfl,rfl,rfl,rfl,rfl⟩
  · exact refitted_setContainer _ w

theorem stop_not_running (w : World) : (stop .control w).2.containers .control ≠ .running := by
  unfold stop
  split
  · rename_i habsent
    rw [habsent]
    decide
  · simp [setContainer]

theorem stop_volumes (c : Container) (w : World) : (stop c w).2.volumes = w.volumes := by
  unfold stop
  split <;> rfl

theorem refitted_mount (w : World) : Refitted w (mount .control w) := by
  unfold mount
  split
  · exact refitted_setVolume _ w
  · exact ⟨fun _ _ => rfl,rfl,rfl,rfl,rfl,rfl,rfl,rfl⟩

theorem mount_containers (v : Volume) (w : World) : (mount v w).containers = w.containers := by
  unfold mount
  split <;> rfl

theorem mount_cluster_iff {v : Volume} {w : World} {k : Cluster} :
    (mount v w).volumes v = .cluster k ↔ w.volumes v = .cluster k := by
  unfold mount
  split
  · rename_i habsent
    simp [habsent]
  · rfl

theorem mount_ne_absent (v : Volume) (w : World) : (mount v w).volumes v ≠ .absent := by
  unfold mount
  split
  · simp
  · assumption

theorem Ready.refitted {D : Database} {s : State} (h : Ready D s) {w' : World} (hr : Refitted s.world w')
    (harmed : s.world.armed = true)
    (hprimary : ∀ k, w'.volumes .control = .cluster k → k.inRecovery = false ∧ k.schema ≠ .missing)
    (hserving : w'.containers .control = .running → ∃ k, w'.volumes .control = .cluster k) :
    Ready D { s with world := w' } where
  sqlite := h.sqlite
  promoting := h.promoting
  bootable := h.bootable.refitted hr hprimary hserving
  outcome := by
    have hsource : sourceVolume s.world ≠ .control := by
      unfold sourceVolume
      rw [harmed]
      split <;> decide
    rw [← h.outcome]
    exact outcome_refitted hr hsource

/-- The clone is in the control volume: the incoming volume and the flag can go. -/
theorem Ready.adopted {D : Database} {s : State} (h : Ready D s) {d : Database}
    (hcontrol : s.world.volumes .control = .cluster ⟨false,.tables d⟩)
    (hincoming : s.world.volumes .incoming = .cluster ⟨false,.tables d⟩)
    (harmed : s.world.armed = true) :
    Ready D { s with world := { setVolume .incoming .absent s.world with armed := false } } where
  sqlite := h.sqlite
  promoting := h.promoting
  bootable := {
    clone := fun h => by cases h
    replica := h.bootable.replica
    primary := h.bootable.primary
    serving := h.bootable.serving
    ident := h.bootable.ident
    single := h.bootable.single }
  outcome := by
    rw [← h.outcome]
    show mark s.world _ = mark s.world _
    congr 1
    unfold base
    by_cases hmode : s.world.promoteFlag = some .standby <;>
      simp [sourceVolume, hmode, harmed, setVolume, hcontrol, hincoming]

theorem adopt_safe {D : Database} {s : State} (h : Ready D s) :
    adoptStagedCloneIfArmed.Safe (Crash D) (fun _ s' => Ready D s' ∧ s'.world.armed = false) s := by
  show (if s.world.armed then _ else _ : Boot Bool).Safe _ _ s
  by_cases harmed : s.world.armed = true
  · rw [if_pos harmed]
    obtain ⟨d,hd⟩ := h.bootable.clone harmed
    let w₁ := (stop .control s.world).2
    have hvol₁ : w₁.volumes = s.world.volumes := stop_volumes _ _
    have hrefit₁ : Refitted s.world w₁ := refitted_stop _
    have h₁ : Ready D { s with world := w₁ } := by
      refine h.refitted hrefit₁ harmed ?_ (fun hrun => absurd hrun (stop_not_running _))
      rw [hvol₁]
      exact h.bootable.primary
    have harmed₁ : w₁.armed = true := hrefit₁.armed.trans harmed
    let w₂ := mount .control w₁
    have hrefit₂ : Refitted w₁ w₂ := refitted_mount _
    have hcont₂ : w₂.containers = w₁.containers := mount_containers _ _
    have hstopped : ∀ w : World, w.containers = w₂.containers → w.containers .control ≠ .running := by
      intro w hw
      rw [hw, hcont₂]
      exact stop_not_running _
    have h₂ : Ready D { s with world := w₂ } := by
      refine h₁.refitted hrefit₂ harmed₁ ?_ (fun hrun => absurd hrun (hstopped _ rfl))
      intro k hk
      exact h₁.bootable.primary k (mount_cluster_iff.mp hk)
    have harmed₂ : w₂.armed = true := hrefit₂.armed.trans harmed₁
    have hincoming : w₂.volumes .incoming = .cluster ⟨false,.tables d⟩ := by
      rw [hrefit₂.volumes _ (by decide), hvol₁, hd]
    let w₃ := setVolume .control (.cluster ⟨false,.tables d⟩) w₂
    have hcopy : copyVolume .incoming .control w₂ = (true,w₃) :=
      copyVolume_cluster _ hincoming (mount_ne_absent _ _)
    have h₃ : Ready D { s with world := w₃ } := by
      refine h₂.refitted (refitted_setVolume _ _) harmed₂ ?_ (fun hrun => absurd hrun (hstopped _ rfl))
      intro k hk
      simp only [w₃, setVolume_self, Contents.cluster.injEq] at hk
      subst hk
      exact ⟨rfl,by simp⟩
    have hincoming₃ : w₃.volumes .incoming = .cluster ⟨false,.tables d⟩ := by
      rw [setVolume_ne (by decide), hincoming]
    have hremove : volumeRm .incoming w₃ = (true,setVolume .incoming .absent w₃) := by
      simp [volumeRm, hincoming₃, Container.volume]
    have h₅ := h₃.adopted (setVolume_self _ _ _) hincoming₃ harmed₂
    refine ⟨h.crash,h₁.crash,h₂.crash,?_⟩
    show Prog.Safe _ _ (Prog.bind (if (copyVolume .incoming .control w₂).1 then _ else _) _)
      { s with world := (copyVolume .incoming .control w₂).2 }
    rw [hcopy]
    refine ⟨h₃.crash,?_⟩
    show Crash D { s with world := (volumeRm .incoming w₃).2 } ∧
      Ready D { s with world := (removeArmed (volumeRm .incoming w₃).2).2 } ∧ _
    rw [hremove]
    refine ⟨Or.inl ?_,h₅,rfl⟩
    have harmed₄ : (setVolume .incoming .absent w₃).armed = true := harmed₂
    simp [torn, harmed₄]
  · rw [if_neg harmed]
    exact ⟨h,by simpa using harmed⟩

/-! ## The replica -/

/-- The replica is promoted: a crash is torn until the flag is gone. -/
structure Moving (D d : Database) (s : State) : Prop where
  sqlite : s.restoredSqlite = false
  promoting : s.promoting = none
  clone : s.world.armed = false
  mode : s.world.promoteFlag = some .standby
  replica : s.world.volumes .standby = .cluster ⟨false,.tables d⟩
  primary : ∀ k, s.world.volumes .control = .cluster k → k.inRecovery = false ∧ k.schema ≠ .missing
  serving : s.world.containers .control = .running → ∃ k, s.world.volumes .control = .cluster k
  ident : s.world.identity.isSome = true
  single : s.world.reclaimFlag = none
  outcome : mark s.world (match s.world.pending with | some p => p.database | none => d) = D

theorem Moving.torn {D d : Database} {s : State} (h : Moving D d s) : torn s = true := by
  have hpromoted : (server .standby s.world).any (fun k => k.inRecovery) = false := by
    rw [Option.any_eq_false]
    intro k hk
    obtain ⟨_,hvol⟩ := server_eq.mp hk
    have hsame : Contents.cluster k = .cluster ⟨false,.tables d⟩ := hvol.symm.trans h.replica
    cases hsame
    simp
  simp [BootSurvivesCrashes.torn, h.mode, hpromoted]

theorem Moving.crash {D d : Database} {s : State} (h : Moving D d s) : Crash D s := Or.inl h.torn

theorem Moving.refitted {D d : Database} {s : State} (h : Moving D d s) {w' : World}
    (hr : Refitted s.world w')
    (hprimary : ∀ k, w'.volumes .control = .cluster k → k.inRecovery = false ∧ k.schema ≠ .missing)
    (hserving : w'.containers .control = .running → ∃ k, w'.volumes .control = .cluster k) :
    Moving D d { s with world := w' } where
  sqlite := h.sqlite
  promoting := h.promoting
  clone := hr.armed.trans h.clone
  mode := hr.promoteFlag.trans h.mode
  replica := (hr.volumes _ (by decide)).trans h.replica
  primary := hprimary
  serving := hserving
  ident := by
    rw [hr.identity]
    exact h.ident
  single := hr.reclaimFlag.trans h.single
  outcome := by
    show mark w' (match w'.pending with | some p => p.database | none => d) = D
    rw [hr.mark, hr.pending]
    exact h.outcome

/-- The standby container may be stopped and removed. -/
theorem Moving.standby {D d : Database} {s : State} (h : Moving D d s) (status : Status) :
    Moving D d { s with world := setContainer .standby status s.world } where
  sqlite := h.sqlite
  promoting := h.promoting
  clone := h.clone
  mode := h.mode
  replica := h.replica
  primary := h.primary
  serving := by
    have hother : (setContainer .standby status s.world).containers .control = s.world.containers .control := by
      simp [setContainer]
    rw [hother]
    exact h.serving
  ident := h.ident
  single := h.single
  outcome := h.outcome

theorem Moving.stop {D d : Database} {s : State} (h : Moving D d s) (c : Container) :
    Moving D d { s with world := (stop c s.world).2 } := by
  cases c with
  | control =>
    refine h.refitted (refitted_stop _) ?_ (fun hrun => absurd hrun (stop_not_running _))
    rw [stop_volumes]
    exact h.primary
  | standby =>
    unfold ControlBoot.stop
    split
    · exact h
    · exact h.standby _

theorem Moving.rm {D d : Database} {s : State} (h : Moving D d s) (c : Container) :
    Moving D d { s with world := (rm c s.world).2 } := by
  unfold ControlBoot.rm
  split
  · cases c with
    | control => exact h.refitted (refitted_setContainer _ _) h.primary (fun hrun => by simp [setContainer] at hrun)
    | standby => exact h.standby _
  · exact h

/-! ## The data in place -/

/-- What is left of the boot installs, from the control volume. -/
def future (s : State) : Database :=
  if s.restoredSqlite then s.world.dbFile.getD .fresh else
  match s.world.pending with
  | some p => p.database
  | none => database (s.world.dbFile.getD .fresh) (s.world.volumes .control)

structure Placed (D : Database) (s : State) : Prop where
  clone : s.world.armed = false
  taken : s.world.promoteFlag = some .standby → (server .standby s.world).any (fun k => k.inRecovery) = false
  primary : ∀ k, s.world.volumes .control = .cluster k →
    k.inRecovery = false ∧ (k.schema = .missing → s.restoredSqlite = true)
  serving : s.world.containers .control = .running → ∃ k, s.world.volumes .control = .cluster k
  ident : s.world.promoteFlag.isSome = true → s.world.identity.isSome = true
  single : s.world.promoteFlag = none ∨ s.world.reclaimFlag = none
  moved : s.restoredSqlite = true → s.world.pending = none ∧ s.world.dbFile.isSome = true
  outcome : mark s.world (future s) = D

/-- Without the replica's flag, what is in place is bootable. -/
theorem Placed.crash {D : Database} {s : State} (h : Placed D s) : Crash D s := by
  by_cases hmode : s.world.promoteFlag = some .standby
  · left
    simp [torn, hmode, h.taken hmode]
  by_cases htorn : torn s = true
  · exact Or.inl htorn
  right
  have hsource : sourceVolume s.world = .control := by
    unfold sourceVolume
    rw [if_neg hmode, h.clone]
    rfl
  refine ⟨rfl,rfl,⟨fun harmed => ?_,fun hreplica => absurd hreplica hmode,?_,h.serving,h.ident,h.single⟩,?_⟩
  · exact absurd (h.clone.symm.trans harmed) (by decide)
  · intro k hk
    obtain ⟨hwrite,hmissing⟩ := h.primary k hk
    refine ⟨hwrite,fun hschema => htorn ?_⟩
    simp [torn, hmissing hschema, show s.world.volumes .control = .cluster k from hk, hschema]
  · rw [← h.outcome]
    show mark s.world (base s.world) = _
    congr 1
    unfold base future
    by_cases hsqlite : s.restoredSqlite = true
    · obtain ⟨hpending,hfile⟩ := h.moved hsqlite
      obtain ⟨d,hd⟩ := Option.isSome_iff_exists.mp hfile
      rw [if_pos hsqlite, hpending, hsource]
      show database _ (s.world.volumes .control) = _
      cases hvol : s.world.volumes .control with
      | absent => rfl
      | empty => rfl
      | cluster k =>
        obtain ⟨inRecovery,schema⟩ := k
        cases schema with
        | missing => exact absurd (by simp [torn, hsqlite, hvol]) htorn
        | blank => rfl
        | tables d' =>
          have hsame : d' = d := by
            by_contra hne
            exact htorn (by simp [torn, hsqlite, hvol, hd, hne])
          rw [hd, hsame]
          rfl
    · rw [if_neg hsqlite, hsource]

theorem Moving.placed {D d : Database} {s : State} (h : Moving D d s)
    (hcontrol : s.world.volumes .control = .cluster ⟨false,.tables d⟩) : Placed D s where
  clone := h.clone
  taken _ := by
    have htorn := h.torn
    rw [Option.any_eq_false]
    intro k hk
    obtain ⟨_,hvol⟩ := server_eq.mp hk
    have hsame : Contents.cluster k = .cluster ⟨false,.tables d⟩ := hvol.symm.trans h.replica
    cases hsame
    simp
  primary k hk := ⟨(h.primary k hk).1,fun hmissing => absurd hmissing (h.primary k hk).2⟩
  serving := h.serving
  ident _ := h.ident
  single := Or.inr h.single
  moved hsqlite := absurd (h.sqlite.symm.trans hsqlite) (by decide)
  outcome := by
    rw [← h.outcome]
    simp only [future, h.sqlite, hcontrol, database]
    rfl

theorem Ready.moving {D : Database} {s : State} (h : Ready D s) (hclone : s.world.armed = false)
    (hmode : s.world.promoteFlag = some .standby) :
    ∃ w', pgCtlPromote .standby s.world = (true,w') ∧ (server .standby w').any (fun k => !k.inRecovery) = true ∧
      ∃ d, Moving D d { s with world := w' } := by
  obtain ⟨d,hd⟩ := h.bootable.replica hmode
  obtain ⟨hrun,hvol⟩ := server_eq.mp hd
  refine ⟨setVolume .standby (.cluster ⟨false,.tables d⟩) s.world,?_,?_,d,?_⟩
  · simp [pgCtlPromote, hd, Container.volume]
  · have hserver : server .standby (setVolume .standby (.cluster ⟨false,.tables d⟩) s.world) =
        some ⟨false,.tables d⟩ := server_eq.mpr ⟨hrun,setVolume_self _ _ _⟩
    rw [hserver]
    rfl
  have hcontrol : (setVolume .standby (.cluster ⟨false,.tables d⟩) s.world).volumes .control =
      s.world.volumes .control := setVolume_ne (by decide) _ _
  constructor
  · exact h.sqlite
  · exact h.promoting
  · exact hclone
  · exact hmode
  · exact setVolume_self _ _ _
  · rw [hcontrol]
    exact h.bootable.primary
  · rw [hcontrol]
    exact h.bootable.serving
  · exact h.bootable.ident (by rw [hmode]; rfl)
  · exact h.bootable.single.resolve_left (by rw [hmode]; simp)
  · rw [← h.outcome]
    show mark s.world _ = mark s.world (base s.world)
    congr 1
    have hsource : s.world.volumes (sourceVolume s.world) = .cluster ⟨true,.tables d⟩ := by
      rw [sourceVolume, if_pos hmode]
      exact hvol
    simp only [base, hsource, database]
    rfl

theorem Moving.replaced {D d : Database} {s : State} (h : Moving D d s) :
    (replaceVolume .standby .control).Safe (Crash D) (fun ok s' => ok = true ∧ Moving D d s' ∧
      s'.world.volumes .control = .cluster ⟨false,.tables d⟩) s := by
  have hmount : Moving D d { s with world := mount .control s.world } := by
    refine h.refitted (refitted_mount _) (fun k hk => h.primary k (mount_cluster_iff.mp hk)) ?_
    rw [mount_containers]
    intro hrun
    obtain ⟨k,hk⟩ := h.serving hrun
    exact ⟨k,mount_cluster_iff.mpr hk⟩
  have hcopy := copyVolume_cluster .control hmount.replica (mount_ne_absent _ _)
  refine ⟨h.crash,hmount.crash,?_⟩
  show Prog.Safe _ _ (if (copyVolume .standby .control (mount .control s.world)).1 then _ else _)
    { s with world := (copyVolume .standby .control (mount .control s.world)).2 }
  rw [hcopy]
  refine ⟨rfl,?_,setVolume_self _ _ _⟩
  refine hmount.refitted (refitted_setVolume _ _) ?_ (fun _ => ⟨_,setVolume_self _ _ _⟩)
  intro k hk
  simp only [setVolume_self, Contents.cluster.injEq] at hk
  subst hk
  exact ⟨rfl,by simp⟩

theorem Ready.promoted {D : Database} {s : State} (h : Ready D s) (hclone : s.world.armed = false)
    (hmode : s.world.promoteFlag = some .standby) :
    (promoteContainer .standby).Safe (Crash D) (fun ok s' => ok = true ∧ ∃ d, Moving D d s') s := by
  obtain ⟨w₁,hpromote,hanswer,d,h₁⟩ := h.moving hclone hmode
  refine ⟨h.crash,?_⟩
  show Prog.Safe _ _ (if (pgCtlPromote .standby s.world).1 then _ else _)
    { s with world := (pgCtlPromote .standby s.world).2 }
  rw [hpromote]
  refine ⟨h₁.crash,?_⟩
  show Prog.Safe _ _ (if (server .standby w₁).any (fun k => !k.inRecovery) then _ else _) { s with world := w₁ }
  rw [hanswer]
  exact ⟨rfl,d,h₁⟩

theorem takeover_safe {D : Database} {s : State} (h : Ready D s) (hclone : s.world.armed = false)
    (hmode : s.world.promoteFlag = some .standby) :
    takeoverFromStandby.Safe (Crash D) (fun ok s' => ok = true ∧ Placed D s' ∧ s'.restoredSqlite = false) s := by
  refine (h.promoted hclone hmode).bind ?_
  rintro ok s₁ ⟨rfl,d,h₁⟩
  have h₂ := h₁.stop .control
  have h₃ := h₂.rm .control
  have h₄ := h₃.stop .standby
  refine ⟨h₁.crash,h₂.crash,h₃.crash,h₄.replaced.bind ?_⟩
  rintro ok s₅ ⟨rfl,h₅,hcontrol⟩
  refine ⟨h₅.crash,rfl,(h₅.rm .standby).placed ?_,h₅.sqlite⟩
  show (ControlBoot.rm .standby s₅.world).2.volumes .control = _
  unfold ControlBoot.rm
  split <;> exact hcontrol

theorem Ready.placed {D : Database} {s : State} (h : Ready D s) (hclone : s.world.armed = false)
    (hmode : s.world.promoteFlag ≠ some .standby) : Placed D s where
  clone := hclone
  taken htaken := absurd htaken hmode
  primary k hk := ⟨(h.bootable.primary k hk).1,fun hmissing => absurd hmissing (h.bootable.primary k hk).2⟩
  serving := h.bootable.serving
  ident := h.bootable.ident
  single := h.bootable.single
  moved hsqlite := absurd (h.sqlite.symm.trans hsqlite) (by decide)
  outcome := by
    rw [← h.outcome]
    show mark s.world _ = mark s.world (base s.world)
    congr 1
    have hsource : sourceVolume s.world = .control := by
      rw [sourceVolume, if_neg hmode, hclone]
      rfl
    simp only [future, h.sqlite, base, hsource]
    rfl

/-! ## The pending restore -/

theorem Placed.refitted {D : Database} {s : State} (h : Placed D s) {w' : World} (hr : Refitted s.world w')
    (hprimary : ∀ k, w'.volumes .control = .cluster k →
      k.inRecovery = false ∧ (k.schema = .missing → s.restoredSqlite = true))
    (hserving : w'.containers .control = .running → ∃ k, w'.volumes .control = .cluster k)
    (hfuture : future { s with world := w' } = future s) : Placed D { s with world := w' } where
  clone := hr.armed.trans h.clone
  taken := by
    show w'.promoteFlag = _ → (server .standby w').any _ = false
    rw [hr.promoteFlag, hr.server]
    exact h.taken
  primary := hprimary
  serving := hserving
  ident := by
    rw [hr.promoteFlag, hr.identity]
    exact h.ident
  single := by
    rw [hr.promoteFlag, hr.reclaimFlag]
    exact h.single
  moved := by
    rw [hr.pending, hr.dbFile]
    exact h.moved
  outcome := by
    rw [hfuture]
    exact (hr.mark _).trans h.outcome

/-- Where a pending file decides, the SQLite file does not. -/
theorem Placed.setAside {D : Database} {s : State} (h : Placed D s) {p : Pending}
    (hpending : s.world.pending = some p) : Placed D { s with world := (setAsideDb s.world).2 } where
  clone := h.clone
  taken := h.taken
  primary := h.primary
  serving := h.serving
  ident := h.ident
  single := h.single
  moved hsqlite := by
    have hnone := (h.moved hsqlite).1
    rw [hpending] at hnone
    cases hnone
  outcome := by
    have hsqlite : s.restoredSqlite = false := by
      rw [← Bool.not_eq_true]
      intro hsqlite
      have hnone := (h.moved hsqlite).1
      rw [hpending] at hnone
      cases hnone
    rw [← h.outcome]
    show mark s.world (future _) = mark s.world (future s)
    congr 1
    simp only [future, hsqlite, setAsideDb, hpending]
    rfl

theorem Placed.movePending {D : Database} {s : State} (h : Placed D s) {d : Database}
    (hpending : s.world.pending = some (.sqlite d)) (hsqlite : s.restoredSqlite = false) :
    Placed D (movePending d s).2 where
  clone := h.clone
  taken := h.taken
  primary k hk := ⟨(h.primary k hk).1,fun _ => rfl⟩
  serving := h.serving
  ident := h.ident
  single := h.single
  moved _ := ⟨rfl,rfl⟩
  outcome := by
    rw [← h.outcome]
    show mark s.world d = mark s.world (future s)
    congr 1
    simp only [future, hsqlite, hpending]
    rfl

theorem applyPendingRestore_safe {D : Database} {s : State} (h : Placed D s) (hsqlite : s.restoredSqlite = false) :
    applyPendingRestore.Safe (Crash D) (fun _ s' => Placed D s' ∧ ∀ d, s'.world.pending ≠ some (.sqlite d)) s := by
  unfold applyPendingRestore
  apply Prog.Safe.look
  cases hpending : s.world.pending with
  | none => exact ⟨h,by simp [hpending]⟩
  | some p =>
    cases p with
    | postgres d => exact ⟨h,by simp [hpending]⟩
    | sqlite d =>
      show Prog.Safe _ _ (if s.world.dbFile.isSome = true then _ else _) s
      split
      · have haside := h.setAside hpending
        exact ⟨h.crash,haside.crash,haside.movePending (d := d) hpending hsqlite,by simp [movePending]⟩
      · exact ⟨h.crash,h.movePending hpending hsqlite,by simp [movePending]⟩

/-! ## The container -/

theorem Placed.stop {D : Database} {s : State} (h : Placed D s) :
    Placed D { s with world := (stop .control s.world).2 } := by
  refine h.refitted (refitted_stop _) ?_ (fun hrun => absurd hrun (stop_not_running _)) ?_
  · rw [stop_volumes]
    exact h.primary
  · unfold future
    rw [stop_volumes, (refitted_stop s.world).pending, (refitted_stop s.world).dbFile]

theorem Placed.rm {D : Database} {s : State} (h : Placed D s) :
    Placed D { s with world := (rm .control s.world).2 } := by
  unfold ControlBoot.rm
  split
  · refine h.refitted (refitted_setContainer _ _) h.primary (fun hrun => ?_) rfl
    simp [setContainer] at hrun
  · exact h

/-- The control container on its volume, which is initialised where it was empty. -/
def served (w : World) : World := setContainer .control .running (initdb .control (mount .control w))

theorem served_volume (w : World) : ∃ k, (served w).volumes .control = .cluster k ∧
    (w.volumes .control = .cluster k ∨ k = ⟨false,.blank⟩ ∧ ∀ k', w.volumes .control ≠ .cluster k') := by
  show ∃ k, (initdb .control (mount .control w)).volumes .control = _ ∧ _
  unfold initdb
  split
  · rename_i k hk
    exact ⟨k,hk,Or.inl (mount_cluster_iff.mp hk)⟩
  · rename_i hno
    exact ⟨_,setVolume_self _ _ _,Or.inr ⟨rfl,fun k' hk' => hno k' (mount_cluster_iff.mpr hk')⟩⟩

theorem refitted_served (w : World) : Refitted w (served w) := by
  have hinit : ∀ w : World, Refitted w (initdb .control w) := by
    intro w
    unfold initdb
    split
    · exact ⟨fun _ _ => rfl,rfl,rfl,rfl,rfl,rfl,rfl,rfl⟩
    · exact refitted_setVolume _ w
  exact ((refitted_mount w).trans (hinit _)).trans (refitted_setContainer _ _)

theorem Placed.served {D : Database} {s : State} (h : Placed D s) :
    Placed D { s with world := served s.world } := by
  obtain ⟨k,hk,hfrom⟩ := served_volume s.world
  refine h.refitted (refitted_served _) ?_ (fun _ => ⟨k,hk⟩) ?_
  · intro k' hk'
    have hsame : k' = k := by simpa using hk'.symm.trans hk
    subst hsame
    rcases hfrom with hold | ⟨rfl,_⟩
    · exact h.primary k' hold
    · exact ⟨rfl,by simp⟩
  · have hdatabase : database (s.world.dbFile.getD .fresh) ((BootSurvivesCrashes.served s.world).volumes .control) =
        database (s.world.dbFile.getD .fresh) (s.world.volumes .control) := by
      rw [hk]
      rcases hfrom with hold | ⟨rfl,hno⟩
      · rw [hold]
      · cases hvol : s.world.volumes .control with
        | absent => rfl
        | empty => rfl
        | cluster k' => exact absurd hvol (hno k')
    unfold future
    rw [(refitted_served s.world).pending, (refitted_served s.world).dbFile, hdatabase]

/-- The server of the control plane accepts statements. -/
structure Serving (D : Database) (s : State) : Prop where
  placed : Placed D s
  noSqlite : ∀ d, s.world.pending ≠ some (.sqlite d)
  server : ∃ k, server .control s.world = some k

theorem server_setVolume {w : World} {k : Cluster} (h : server .control w = some k) (k' : Cluster) :
    server .control (setVolume .control (.cluster k') w) = some k' :=
  server_eq.mpr ⟨(server_eq.mp h).1,setVolume_self _ _ _⟩

/-- A statement that the server runs, and that leaves what is installed. -/
theorem Serving.write {D : Database} {s : State} (h : Serving D s) {k : Cluster} {f : Public → Option Public}
    {schema : Public} (hserver : ControlBoot.server .control s.world = some k) (hf : f k.schema = some schema)
    (hmissing : schema = .missing → s.restoredSqlite = true)
    (hfuture : future { s with world := setVolume .control (.cluster { k with schema := schema }) s.world } = future s) :
    ∃ w', psql f s.world = (true,w') ∧ Serving D { s with world := w' } ∧
      ControlBoot.server .control w' = some { k with schema := schema } ∧ Refitted s.world w' ∧
      future { s with world := w' } = future s := by
  obtain ⟨hwrite,_⟩ := h.placed.primary k (server_eq.mp hserver).2
  have hrefit := refitted_setVolume (.cluster { k with schema := schema }) s.world
  refine ⟨_,psql_eq hserver hwrite hf,⟨?_,h.noSqlite,_,server_setVolume hserver _⟩,
    server_setVolume hserver _,hrefit,hfuture⟩
  refine h.placed.refitted hrefit ?_ (fun _ => ⟨_,setVolume_self _ _ _⟩) hfuture
  intro k' hk'
  simp only [setVolume_self, Contents.cluster.injEq] at hk'
  subst hk'
  exact ⟨hwrite,hmissing⟩

theorem settled_safe {D : Database} {s : State} (h : Serving D s) :
    (need (pgIsReady .control) <| need (psql configure) <| .ret true : Boot Bool).Safe (Crash D)
      (fun ok s' => ok = true ∧ Serving D s') s := by
  obtain ⟨k,hk⟩ := h.server
  have hsame : setVolume .control (.cluster k) s.world = s.world := by
    rw [setVolume, ← (server_eq.mp hk).2]
    exact congrArg (fun v => { s.world with volumes := v }) (Function.update_eq_self _ _)
  obtain ⟨w',hpsql,h',_⟩ := h.write (f := configure) hk rfl
    (fun hmissing => (h.placed.primary k (server_eq.mp hk).2).2 hmissing) (by
      show future { s with world := setVolume .control (.cluster k) s.world } = future s
      rw [hsame])
  refine ⟨h.placed.crash,?_⟩
  show Prog.Safe _ _ (if (ControlBoot.server .control s.world).isSome then _ else _) s
  rw [hk]
  refine ⟨h.placed.crash,?_⟩
  show Prog.Safe _ _ (if (psql configure s.world).1 then _ else _) { s with world := (psql configure s.world).2 }
  rw [hpsql]
  exact ⟨rfl,h'⟩

theorem started_safe {D : Database} {s : State} (h : Placed D s) (hno : ∀ d, s.world.pending ≠ some (.sqlite d)) :
    (.look fun s => match s.world.containers .control with
      | .absent => need (runContainer .control) <| need (pgIsReady .control) <| need (psql configure) <| .ret true
      | .stopped => need (start .control) <| need (pgIsReady .control) <| need (psql configure) <| .ret true
      | .running => need (pgIsReady .control) <| need (psql configure) <| .ret true : Boot Bool).Safe (Crash D)
      (fun ok s' => ok = true ∧ Serving D s') s := by
  have hserved : Serving D { s with world := served s.world } := by
    obtain ⟨k,hk,_⟩ := served_volume s.world
    refine ⟨h.served,?_,k,server_eq.mpr ⟨by simp [served, setContainer],hk⟩⟩
    intro d
    show (served s.world).pending ≠ _
    rw [(refitted_served _).pending]
    exact hno d
  show Prog.Safe _ _ (match s.world.containers .control with | .absent => _ | .stopped => _ | .running => _) s
  cases hstatus : s.world.containers .control with
  | absent =>
    have hrun : runContainer .control s.world = (true,served s.world) := by
      rw [runContainer, if_pos hstatus]
      rfl
    refine ⟨h.crash,?_⟩
    show Prog.Safe _ _ (if (runContainer .control s.world).1 then _ else _)
      { s with world := (runContainer .control s.world).2 }
    rw [hrun]
    exact settled_safe hserved
  | stopped =>
    have hstart : start .control s.world = (true,served s.world) := by
      rw [start, if_neg (by rw [hstatus]; decide)]
      rfl
    refine ⟨h.crash,?_⟩
    show Prog.Safe _ _ (if (start .control s.world).1 then _ else _)
      { s with world := (start .control s.world).2 }
    rw [hstart]
    exact settled_safe hserved
  | running =>
    obtain ⟨k,hk⟩ := h.serving hstatus
    exact settled_safe ⟨h,hno,k,server_eq.mpr ⟨hstatus,hk⟩⟩

theorem startContainer_safe {D : Database} {s : State} (h : Placed D s)
    (hno : ∀ d, s.world.pending ≠ some (.sqlite d)) (recreate : Bool) :
    (startContainer recreate).Safe (Crash D) (fun ok s' => ok = true ∧ Serving D s') s := by
  show Prog.Safe _ _ (if recreate && s.world.containers .control ≠ .absent then _ else _) s
  split
  · have hno₁ : ∀ d, (stop .control s.world).2.pending ≠ some (.sqlite d) := by
      rw [(refitted_stop s.world).pending]
      exact hno
    refine ⟨h.crash,h.stop.crash,started_safe h.stop.rm ?_⟩
    intro d
    show (rm .control (stop .control s.world).2).2.pending ≠ _
    unfold ControlBoot.rm
    split <;> exact hno₁ d
  · exact started_safe h hno

/-! ## The database -/

/-- Nothing is pending, and the schema is what will be installed, or still to be made. -/
structure Loaded (D : Database) (s : State) : Prop where
  serving : Serving D s
  pending : s.world.pending = none
  schema : ∃ k, server .control s.world = some k ∧
    (k.schema = .tables (future s) ∨ k.schema = .blank ∧ future s = .fresh)

theorem future_pending_none {s : State} (hsqlite : s.restoredSqlite = false) (hpending : s.world.pending = none) :
    future s = database (s.world.dbFile.getD .fresh) (s.world.volumes .control) := by
  simp only [future, hsqlite, hpending]
  rfl

/-- A database that is still to be made comes from the SQLite file. -/
theorem future_unmade {s : State} (hpending : s.world.pending = none)
    (hunmade : database (s.world.dbFile.getD .fresh) (s.world.volumes .control) = s.world.dbFile.getD .fresh) :
    future s = s.world.dbFile.getD .fresh := by
  unfold future
  split
  · rfl
  · rw [hpending]
    exact hunmade

theorem future_setVolume (s : State) {c : Contents}
    (hsame : database (s.world.dbFile.getD .fresh) c =
      database (s.world.dbFile.getD .fresh) (s.world.volumes .control)) :
    future { s with world := setVolume .control c s.world } = future s := by
  unfold future
  rw [setVolume_self]
  show (if s.restoredSqlite = true then s.world.dbFile.getD .fresh else
    match s.world.pending with
    | some p => p.database
    | none => database (s.world.dbFile.getD .fresh) c) = _
  rw [hsame]

theorem importLegacySqlite_safe {D : Database} {s : State} (h : Serving D s) (hpending : s.world.pending = none)
    {k : Cluster} (hserver : server .control s.world = some k) (hmissing : k.schema ≠ .missing)
    (hblank : s.restoredSqlite = true → k.schema = .blank) :
    importLegacySqlite.Safe (Crash D) (fun ok s' => ok = true ∧ Loaded D s') s := by
  obtain ⟨inRecovery,schema⟩ := k
  have hvol : s.world.volumes .control = .cluster ⟨inRecovery,schema⟩ := (server_eq.mp hserver).2
  have htables : ∀ d, schema = .tables d → Loaded D s := by
    rintro d rfl
    have hsqlite : s.restoredSqlite = false := by
      rw [← Bool.not_eq_true]
      intro hsqlite
      have := hblank hsqlite
      cases this
    refine ⟨h,hpending,_,hserver,Or.inl ?_⟩
    rw [future_pending_none hsqlite hpending, hvol]
    rfl
  unfold importLegacySqlite
  apply Prog.Safe.look
  cases hfile : s.world.dbFile with
  | none =>
    refine ⟨rfl,?_⟩
    cases schema with
    | missing => exact absurd rfl hmissing
    | tables d => exact htables d rfl
    | blank =>
      refine ⟨h,hpending,_,hserver,Or.inr ⟨rfl,?_⟩⟩
      rw [future_unmade hpending (by rw [hvol]; rfl), hfile]
      rfl
  | some d =>
    show Prog.Safe _ _ (if (server .control s.world).any (fun k => k.schema.isTables) then _ else _) s
    rw [hserver]
    show Prog.Safe _ _ (if schema.isTables = true then _ else _) s
    cases schema with
    | missing => exact absurd rfl hmissing
    | tables d' => exact ⟨rfl,htables d' rfl⟩
    | blank =>
      have hfuture : future s = d := by
        rw [future_unmade hpending (by rw [hvol]; rfl), hfile]
        rfl
      have hload := future_setVolume s (c := .cluster ⟨inRecovery,.tables d⟩) (by
        rw [hvol, hfile]
        rfl)
      obtain ⟨w',hpsql,h',hserver',hrefit,hkept⟩ := h.write (f := load d) hserver rfl (by simp) hload
      refine ⟨h.placed.crash,?_⟩
      show Prog.Safe _ _ (if (psql (load d) s.world).1 then _ else _) { s with world := (psql (load d) s.world).2 }
      rw [hpsql]
      refine ⟨rfl,h',hrefit.pending.trans hpending,_,hserver',Or.inl ?_⟩
      rw [hkept, hfuture]

theorem replaceFromSqlite_safe {D : Database} {s : State} (h : Serving D s) (hsqlite : s.restoredSqlite = true) :
    replaceFromSqlite.Safe (Crash D) (fun ok s' => ok = true ∧ Loaded D s') s := by
  obtain ⟨k,hserver⟩ := h.server
  have hany : ∀ w' : World, w'.dbFile = s.world.dbFile → future { s with world := w' } = future s := by
    intro w' hfile
    simp only [future, hsqlite, hfile]
    rfl
  obtain ⟨w₁,hdrop,h₁,hserver₁,hrefit₁,hfuture₁⟩ := h.write (f := dropSchema) hserver rfl (fun _ => hsqlite)
    (hany _ rfl)
  obtain ⟨w₂,hcreate,h₂,hserver₂,hrefit₂,_⟩ := h₁.write (f := createSchema) hserver₁ rfl (by simp)
    ((hany (setVolume .control (.cluster ⟨k.inRecovery,.blank⟩) w₁) hrefit₁.dbFile).trans hfuture₁.symm)
  refine ⟨h.placed.crash,?_⟩
  show Prog.Safe _ _ (if (psql dropSchema s.world).1 then _ else _) { s with world := (psql dropSchema s.world).2 }
  rw [hdrop]
  refine ⟨h₁.placed.crash,?_⟩
  show Prog.Safe _ _ (if (psql createSchema w₁).1 then _ else _) { s with world := (psql createSchema w₁).2 }
  rw [hcreate]
  refine importLegacySqlite_safe h₂ ?_ hserver₂ (by simp) (fun _ => rfl)
  exact (hrefit₂.pending.trans hrefit₁.pending).trans (h.placed.moved hsqlite).1

/-- The database is what will be installed, but for the row that the flags leave. -/
structure Up (D d : Database) (s : State) : Prop where
  clone : s.world.armed = false
  taken : s.world.promoteFlag = some .standby → (server .standby s.world).any (fun k => k.inRecovery) = false
  server : server .control s.world = some ⟨false,.tables d⟩
  ident : s.world.promoteFlag.isSome = true → s.world.identity.isSome = true
  single : s.world.promoteFlag = none ∨ s.world.reclaimFlag = none
  pending : s.world.pending = none
  outcome : mark s.world d = D

theorem migrate_safe {D : Database} {s : State} (h : Loaded D s) :
    migrate.Safe (Crash D) (fun ok s' => ok = true ∧ ∃ d, Up D d s') s := by
  obtain ⟨k,hserver,hschema⟩ := h.schema
  have hvol : s.world.volumes .control = .cluster k := (server_eq.mp hserver).2
  have hf : migrateTables k.schema = some (.tables (future s)) := by
    rcases hschema with hmade | ⟨hblank,hfresh⟩
    · rw [hmade]
      rfl
    · rw [hblank, hfresh]
      rfl
  have hkept : future { s with world := setVolume .control (.cluster { k with schema := .tables (future s) }) s.world } =
      future s := by
    by_cases hsqlite : s.restoredSqlite = true
    · simp only [future, hsqlite]
      rfl
    · have hpending : future { s with world := setVolume .control (.cluster { k with schema := .tables (future s) }) s.world } =
          database (s.world.dbFile.getD .fresh) _ :=
        future_pending_none (by simpa using hsqlite) h.pending
      rw [hpending]
      rfl
  obtain ⟨w',hpsql,h',hserver',hrefit,hfuture⟩ := h.serving.write hserver hf (by simp) hkept
  refine ⟨h.serving.placed.crash,?_⟩
  show Prog.Safe _ _ (if (psql migrateTables s.world).1 then _ else _)
    { s with world := (psql migrateTables s.world).2 }
  rw [hpsql]
  have hwrite := (h.serving.placed.primary k hvol).1
  obtain ⟨inRecovery,schema⟩ := k
  cases hwrite
  refine ⟨rfl,future s,h'.placed.clone,h'.placed.taken,hserver',h'.placed.ident,h'.placed.single,
    hrefit.pending.trans h.pending,?_⟩
  rw [← h'.placed.outcome, hfuture]

theorem Loaded.crash {D : Database} {s : State} (h : Loaded D s) : Crash D s := h.serving.placed.crash

theorem connect_safe {D : Database} {s : State} (h : Serving D s) (hpending : s.world.pending = none)
    (restoredPg : Bool) (hrestored : restoredPg = true → s.restoredSqlite = false ∧ Loaded D s) :
    (connect restoredPg).Safe (Crash D) (fun ok s' => ok = true ∧ ∃ d, Up D d s') s := by
  obtain ⟨k,hserver⟩ := h.server
  have hload : (if s.restoredSqlite then replaceFromSqlite
      else if !restoredPg then importLegacySqlite else .ret true : Boot Bool).Safe (Crash D)
      (fun ok s' => ok = true ∧ Loaded D s') s := by
    by_cases hsqlite : s.restoredSqlite = true
    · rw [if_pos hsqlite]
      exact replaceFromSqlite_safe h hsqlite
    · rw [if_neg hsqlite]
      cases restoredPg with
      | true => exact ⟨rfl,(hrestored rfl).2⟩
      | false =>
        have hmissing : k.schema ≠ .missing := fun hmissing =>
          hsqlite ((h.placed.primary k (server_eq.mp hserver).2).2 hmissing)
        exact importLegacySqlite_safe h hpending hserver hmissing (fun h => absurd h hsqlite)
  refine ⟨h.placed.crash,?_⟩
  show Prog.Safe _ _ (if (server .control s.world).isSome then _ else _) s
  rw [hserver]
  refine hload.bind ?_
  rintro ok s' ⟨rfl,h'⟩
  exact migrate_safe h'

theorem restorePending_safe {D : Database} {s : State} (h : Serving D s) :
    restorePending.Safe (Crash D) (fun ok s' => ok = true ∧ ∃ d, Up D d s') s := by
  unfold restorePending
  apply Prog.Safe.look
  cases hpending : s.world.pending with
  | none => exact connect_safe h hpending false (by simp)
  | some p =>
    cases p with
    | sqlite d => exact absurd hpending (h.noSqlite d)
    | postgres d =>
      have hsqlite : s.restoredSqlite = false := by
        rw [← Bool.not_eq_true]
        intro hsqlite
        have hnone := (h.placed.moved hsqlite).1
        rw [hpending] at hnone
        cases hnone
      have hany : ∀ w' : World, w'.pending = s.world.pending → future { s with world := w' } = future s := by
        intro w' hsame
        simp only [future, hsqlite, hsame, hpending]
        rfl
      obtain ⟨k,hserver⟩ := h.server
      obtain ⟨w₁,hreset,h₁,hserver₁,hrefit₁,hfuture₁⟩ := h.write (f := resetSchema) hserver rfl (by simp)
        (hany _ rfl)
      obtain ⟨w₂,hload,h₂,hserver₂,hrefit₂,hfuture₂⟩ := h₁.write (f := load d) hserver₁ rfl (by simp)
        ((hany (setVolume .control (.cluster ⟨k.inRecovery,.tables d⟩) w₁) hrefit₁.pending).trans hfuture₁.symm)
      have hpending₂ : w₂.pending = some (.postgres d) := (hrefit₂.pending.trans hrefit₁.pending).trans hpending
      have hfuture : future { s with world := w₂ } = d := by
        rw [hfuture₂, hfuture₁]
        simp only [future, hsqlite, hpending]
        rfl
      have hremoved : future { s with world := { w₂ with pending := none } } = d := by
        rw [future_pending_none (s := { s with world := { w₂ with pending := none } }) hsqlite rfl]
        have hvol₂ : w₂.volumes .control = .cluster ⟨k.inRecovery,.tables d⟩ := (server_eq.mp hserver₂).2
        show database _ (w₂.volumes .control) = d
        rw [hvol₂]
        rfl
      have h₃ : Serving D { s with world := { w₂ with pending := none } } := by
        refine ⟨⟨h₂.placed.clone,h₂.placed.taken,h₂.placed.primary,h₂.placed.serving,h₂.placed.ident,
          h₂.placed.single,fun _ => ⟨rfl,?_⟩,?_⟩,by simp,_,hserver₂⟩
        · rename_i hs
          exact absurd (hsqlite.symm.trans hs) (by decide)
        · rw [hremoved, ← h₂.placed.outcome, hfuture]
          rfl
      refine ⟨h.placed.crash,?_⟩
      show Prog.Safe _ _ (Prog.bind (if (psql resetSchema s.world).1 then _ else _) _)
        { s with world := (psql resetSchema s.world).2 }
      rw [hreset]
      refine ⟨h₁.placed.crash,?_⟩
      show Prog.Safe _ _ (Prog.bind (if (psql (load d) w₁).1 then _ else _) _) { s with world := (psql (load d) w₁).2 }
      rw [hload]
      refine ⟨h₂.placed.crash,?_⟩
      refine connect_safe h₃ rfl true (fun _ => ⟨hsqlite,h₃,rfl,_,hserver₂,Or.inl ?_⟩)
      exact congrArg Public.tables hremoved.symm

theorem newState_safe {D : Database} {s : State} (h : Ready D s) (recreate : Bool) :
    (newState recreate).Safe (Crash D) (fun ok s' => ok = true ∧ ∃ d, Up D d s') s := by
  refine (adopt_safe h).bind ?_
  rintro _ s₁ ⟨h₁,hclone⟩
  have hplaced : (if s₁.world.promoteFlag = some .standby then takeoverFromStandby else .ret true : Boot Bool).Safe
      (Crash D) (fun ok s' => ok = true ∧ Placed D s' ∧ s'.restoredSqlite = false) s₁ := by
    split
    · rename_i hmode
      exact takeover_safe h₁ hclone hmode
    · rename_i hmode
      exact ⟨rfl,h₁.placed hclone hmode,h₁.sqlite⟩
  refine hplaced.bind ?_
  rintro taken s₂ ⟨rfl,h₂,hsqlite⟩
  refine (applyPendingRestore_safe h₂ hsqlite).bind ?_
  rintro _ s₃ ⟨h₃,hno⟩
  refine (startContainer_safe h₃ hno recreate).bind ?_
  rintro ready s₄ ⟨rfl,h₄⟩
  exact restorePending_safe h₄

/-! ## The flags -/

theorem Up.ready {D d : Database} {s : State} (h : Up D d s) (hmode : s.world.promoteFlag ≠ some .standby) :
    Ready D s.reset := by
  have hvol : s.world.volumes .control = .cluster ⟨false,.tables d⟩ := (server_eq.mp h.server).2
  refine ⟨rfl,rfl,⟨fun harmed => ?_,fun hreplica => absurd hreplica hmode,?_,fun _ => ⟨_,hvol⟩,h.ident,h.single⟩,?_⟩
  · exact absurd (h.clone.symm.trans harmed) (by decide)
  · intro k hk
    have hsame : k = ⟨false,.tables d⟩ := by simpa using hk.symm.trans hvol
    subst hsame
    exact ⟨rfl,by simp⟩
  · rw [← h.outcome]
    show mark s.world (base s.world) = mark s.world d
    have hsource : sourceVolume s.world = .control := by
      rw [sourceVolume, if_neg hmode, h.clone]
      rfl
    rw [base, h.pending, hsource]
    show mark s.world (database _ (s.world.volumes .control)) = _
    rw [hvol]
    rfl

theorem Up.crash {D d : Database} {s : State} (h : Up D d s) : Crash D s := by
  by_cases hmode : s.world.promoteFlag = some .standby
  · left
    simp [torn, hmode, h.taken hmode]
  · exact Or.inr (h.ready hmode)

/-- `set_local` changes the row, which the flag marks. -/
theorem Up.setLocal {D d : Database} {s : State} (h : Up D d s) {l : LocalClusterState}
    (hmark : mark s.world { d with row := some (setLocal l) } = mark s.world d) :
    ∃ w', psql (upsertLocal l) s.world = (true,w') ∧ Refitted s.world w' ∧
      ∀ promoting, Up D { d with row := some (ClusterLocal.setLocal l) } { s with world := w', promoting := promoting } := by
  have hrefit := refitted_setVolume (.cluster ⟨false,.tables { d with row := some (ClusterLocal.setLocal l) }⟩) s.world
  refine ⟨_,psql_eq h.server rfl rfl,hrefit,fun promoting => ⟨h.clone,?_,server_setVolume h.server _,h.ident,
    h.single,h.pending,?_⟩⟩
  · intro hmode
    rw [hrefit.server]
    exact h.taken hmode
  · exact ((hrefit.mark _).trans hmark).trans h.outcome

theorem applyPromoteFlag_safe {D d : Database} {s : State} (h : Up D d s) :
    applyPromoteFlag.Safe (Crash D) (fun _ s' => ∃ d', Up D d' s' ∧ s'.world.promoteFlag = none) s := by
  unfold applyPromoteFlag
  apply Prog.Safe.look
  cases hflag : s.world.promoteFlag with
  | none => exact ⟨d,h,hflag⟩
  | some mode =>
    obtain ⟨ident,hident⟩ := Option.isSome_iff_exists.mp (h.ident (by rw [hflag]; rfl))
    have hreclaim : s.world.reclaimFlag = none := h.single.resolve_left (by rw [hflag]; simp)
    have hmark : ∀ d : Database, mark s.world d = { d with row := some (setLocal (promoted ident)) } := by
      intro d
      simp only [mark, hflag, hident]
    rw [hident]
    obtain ⟨w₁,hset,hrefit,hup⟩ := h.setLocal (l := promoted ident) (by rw [hmark, hmark])
    have h₁ := hup (some (promoted ident))
    have hflag₁ : w₁.promoteFlag = some mode := hrefit.promoteFlag.trans hflag
    refine ⟨h.crash,?_⟩
    show Prog.Safe _ _ (if (psql (upsertLocal (promoted ident)) s.world).1 then _ else _)
      { s with world := (psql (upsertLocal (promoted ident)) s.world).2, promoting := some (promoted ident) }
    rw [hset]
    refine ⟨h₁.crash,Or.inl ?_,_,⟨h₁.clone,?_,h₁.server,?_,Or.inl rfl,h₁.pending,?_⟩,rfl⟩
    · simp [torn, onWorld, writeIdentity, hflag₁]
    · intro hmode
      cases hmode
    · intro hsome
      cases hsome
    · have houtcome := h₁.outcome
      rw [(hrefit.mark _), hmark] at houtcome
      rw [← houtcome]
      have hreclaim₁ : w₁.reclaimFlag = none := hrefit.reclaimFlag.trans hreclaim
      simp [mark, onWorld, removePromoteFlag, writeIdentity, hreclaim₁]

/-- The database is what is installed. -/
structure Installed (D : Database) (s : State) : Prop where
  server : server .control s.world = some ⟨false,.tables D⟩
  ready : Ready D s.reset

theorem Up.installed {D d : Database} {s : State} (h : Up D d s) (hflag : s.world.promoteFlag = none)
    (hmark : mark s.world d = d) : Installed D s where
  server := by
    rw [h.server, ← h.outcome, hmark]
  ready := h.ready (by rw [hflag]; simp)

theorem applyReclaimFlag_safe {D d : Database} {s : State} (h : Up D d s) (hflag : s.world.promoteFlag = none) :
    applyReclaimFlag.Safe (Crash D) (fun _ s' => Installed D s') s := by
  unfold applyReclaimFlag
  apply Prog.Safe.look
  cases hreclaim : s.world.reclaimFlag with
  | none => exact h.installed hflag (by simp only [mark, hflag, hreclaim])
  | some read =>
    cases read with
    | none => exact h.installed hflag (by simp only [mark, hflag, hreclaim])
    | some ident =>
      have hmark : ∀ d : Database, mark s.world d = { d with row := some (setLocal (reclaimed ident)) } := by
        intro d
        simp only [mark, hflag, hreclaim]
      obtain ⟨w₁,hset,hrefit,hup⟩ := h.setLocal (l := reclaimed ident) (by rw [hmark, hmark])
      have h₁ := hup s.promoting
      have hflag₁ : w₁.promoteFlag = none := hrefit.promoteFlag.trans hflag
      have hreclaim₁ : w₁.reclaimFlag = some (some ident) := hrefit.reclaimFlag.trans hreclaim
      have h₂ : Up D { d with row := some (setLocal (reclaimed ident)) }
          { s with world := { w₁ with identity := some (reclaimed ident) } } := by
        refine ⟨h₁.clone,h₁.taken,h₁.server,?_,h₁.single,h₁.pending,?_⟩
        · intro hsome
          rw [hflag₁] at hsome
          cases hsome
        · rw [← h₁.outcome]
          simp only [mark, hflag₁, hreclaim₁]
      have h₃ : Up D { d with row := some (setLocal (reclaimed ident)) }
          { s with world := { w₁ with identity := some (reclaimed ident), reclaimFlag := none } } := by
        refine ⟨h₂.clone,h₂.taken,h₂.server,h₂.ident,Or.inr rfl,h₂.pending,?_⟩
        rw [← h₁.outcome]
        simp only [mark, hflag₁, hreclaim₁]
      refine ⟨h.crash,?_⟩
      show Prog.Safe _ _ (if (psql (upsertLocal (reclaimed ident)) s.world).1 then _ else _)
        { s with world := (psql (upsertLocal (reclaimed ident)) s.world).2 }
      rw [hset]
      exact ⟨h₁.crash,h₂.crash,h₃.installed hflag₁ (by simp only [mark, hflag₁])⟩

theorem boot_safe {D : Database} {s : State} (h : Ready D s) (recreate : Bool) :
    (boot recreate).Safe (Crash D) (fun up s' => up = true ∧ Installed D s') s := by
  refine (newState_safe h recreate).bind ?_
  rintro up s₁ ⟨rfl,d,h₁⟩
  refine (applyPromoteFlag_safe h₁).bind ?_
  rintro _ s₂ ⟨d',h₂,hflag⟩
  refine (applyReclaimFlag_safe h₂ hflag).bind ?_
  intro _ s₃ h₃
  exact ⟨rfl,h₃⟩

/-! ## Crashes -/

/-- The copy that was armed. -/
def armedCopy (w : World) : Option Database :=
  match w.pending with
  | some p => some p.database
  | none =>
    if w.promoteFlag = some .standby then copyIn (w.volumes .standby)
    else if w.armed then copyIn (w.volumes .incoming) else none

theorem outcome_armedCopy {w : World} {c : Database} (hc : armedCopy w = some c) : (outcome w).data = c.data := by
  have hmark : ∀ d : Database, (mark w d).data = d.data := by
    intro d
    unfold mark
    split <;> rfl
  have hbase : base w = c := by
    unfold base
    unfold armedCopy at hc
    cases hpending : w.pending with
    | some p =>
      rw [hpending] at hc
      exact Option.some.inj hc
    | none =>
      rw [hpending] at hc
      have hcopy : copyIn (w.volumes (sourceVolume w)) = some c := by
        unfold sourceVolume
        by_cases hmode : w.promoteFlag = some .standby
        · rwa [if_pos hmode] at hc ⊢
        · rw [if_neg hmode] at hc ⊢
          by_cases harmed : w.armed = true
          · rwa [if_pos harmed] at hc ⊢
          · rw [if_neg harmed] at hc
            cases hc
      show (copyIn _).getD _ = c
      rw [hcopy]
      rfl
  rw [outcome, hmark, hbase]

theorem outcome_term {w : World} {l : LocalClusterState} (hflag : w.promoteFlag.isSome = true)
    (hl : w.identity = some l) (hpos : 0 ≤ l.leaderTerm) (hmax : l.leaderTerm < 2^63-1) :
    (outcome w).row.map (fun r => r.leaderTerm) = some (l.leaderTerm+1) := by
  obtain ⟨mode,hmode⟩ := Option.isSome_iff_exists.mp hflag
  have hrow : (outcome w).row = some (setLocal (promoted l)) := by
    simp only [outcome, mark, hmode, hl]
  have hterm : (setLocal (promoted l)).leaderTerm = l.leaderTerm+1 := by
    have hsucc : saturatingSucc l.leaderTerm = l.leaderTerm+1 := by
      unfold saturatingSucc
      rw [if_neg (by omega)]
    simp only [setLocal, promoted, hsucc]
    split <;> omega
  rw [hrow]
  exact congrArg some hterm

/-- A boot that is in order, after any crashes: it completes, the database is the copy that was
armed, and a promotion counts once. -/
theorem armed_copy_survives_crashes (w : World) (hw : Bootable w) (recreate : Bool) (events : List (Event Bool))
    (hg : Guarded (tick boot State.reset) (Untorn (fun s => torn s = true)) events ⟨boot recreate,⟨w,false,none⟩⟩) :
    let p := Transition.run (tick boot State.reset) events ⟨boot recreate,⟨w,false,none⟩⟩
    (p.prog.finish p.state).1 = true ∧
    ∃ d, server .control (p.prog.finish p.state).2.world = some ⟨false,.tables d⟩ ∧
      (∀ c, armedCopy w = some c → d.data = c.data) ∧
      (∀ l, w.promoteFlag.isSome = true → w.identity = some l → 0 ≤ l.leaderTerm → l.leaderTerm < 2^63-1 →
        d.row.map (fun r => r.leaderTerm) = some (l.leaderTerm+1)) := by
  intro p
  have hsafe := recovered (Ready (outcome w)) (Q := fun up s' => up = true ∧ Installed (outcome w) s')
    (fun recreate s hs => boot_safe hs recreate) (fun _ _ h => h.2.ready) (i := recreate)
    (s := ⟨w,false,none⟩) ⟨rfl,rfl,hw,rfl⟩ events hg
  obtain ⟨hup,hinstalled⟩ := hsafe.finish
  exact ⟨hup,outcome w,hinstalled.server,fun _ => outcome_armedCopy,fun _ => outcome_term⟩

def oldDatabase : Database := ⟨some 0,none⟩

def newDatabase : Database := ⟨some 1,none⟩

/-- A node that runs, with the clone of the interim staged and armed. -/
def stagedWorld : World where
  volumes
    | .control => .cluster ⟨false,.tables oldDatabase⟩
    | .incoming => .cluster ⟨false,.tables newDatabase⟩
    | .standby => .absent
  containers
    | .control => .running
    | .standby => .absent
  armed := true
  promoteFlag := none
  identity := none
  reclaimFlag := none
  pending := none
  dbFile := none

theorem stagedWorld_bootable : Bootable stagedWorld where
  clone _ := ⟨newDatabase,rfl⟩
  replica h := by cases h
  primary k hk := by
    cases hk
    exact ⟨rfl,by simp⟩
  serving _ := ⟨_,rfl⟩
  ident h := by cases h
  single := Or.inl rfl

/-- A crash after the copy, and one after the flag is gone. -/
theorem armed_copy_survives_two_crashes :
    let p := Transition.run (tick boot State.reset) [.next,.next,.next,.crash false,.next,.next,.next,.next,.next,.crash true]
      ⟨boot false,⟨stagedWorld,false,none⟩⟩
    (p.prog.finish p.state).1 = true ∧
    ∃ d, server .control (p.prog.finish p.state).2.world = some ⟨false,.tables d⟩ ∧
      (∀ c, armedCopy stagedWorld = some c → d.data = c.data) ∧
      (∀ l, stagedWorld.promoteFlag.isSome = true → stagedWorld.identity = some l → 0 ≤ l.leaderTerm →
        l.leaderTerm < 2^63-1 → d.row.map (fun r => r.leaderTerm) = some (l.leaderTerm+1)) :=
  armed_copy_survives_crashes stagedWorld stagedWorld_bootable false _ (by decide +kernel)

/-- The process dies between the removal of the incoming volume and that of the flag: the next
boot mounts a new volume and copies it. -/
theorem crash_before_flag_empties : ¬ ∀ (w : World) (_ : Bootable w) (recreate : Bool) (events : List (Event Bool)),
    let p := Transition.run (tick boot State.reset) events ⟨boot recreate,⟨w,false,none⟩⟩
    (p.prog.finish p.state).1 = true ∧
    ∃ d, server .control (p.prog.finish p.state).2.world = some ⟨false,.tables d⟩ ∧
      (∀ c, armedCopy w = some c → d.data = c.data) ∧
      (∀ l, w.promoteFlag.isSome = true → w.identity = some l → 0 ≤ l.leaderTerm → l.leaderTerm < 2^63-1 →
        d.row.map (fun r => r.leaderTerm) = some (l.leaderTerm+1)) := by
  intro h
  obtain ⟨_,d,hd,hcopy,_⟩ := h stagedWorld stagedWorld_bootable false [.next,.next,.next,.next,.crash false]
  have hempty : server .control (((Transition.run (tick boot State.reset) [.next,.next,.next,.next,.crash false]
      ⟨boot false,⟨stagedWorld,false,none⟩⟩ : Process State Bool).prog.finish
      (Transition.run (tick boot State.reset) [.next,.next,.next,.next,.crash false]
      ⟨boot false,⟨stagedWorld,false,none⟩⟩).state).2.world) = some ⟨false,.tables .fresh⟩ := by decide +kernel
  have hfresh : d = .fresh := by
    have hsame := hd.symm.trans hempty
    simpa using hsame
  have hdata := hcopy newDatabase rfl
  rw [hfresh] at hdata
  exact absurd hdata (by decide)

end DevForge.BootSurvivesCrashes
