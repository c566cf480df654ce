import DevForge.RouteSync
import DevForge.RoutersKept
import DevForge.FixedDigits
import Mathlib.Data.List.Nodup

/-!
# Hosts a synchronisation keeps

What a synchronisation may not do to the hosts of a server, and when it does not. The labels of a
new container are those of the accepted routes only, and the old container is gone before it runs.
-/

set_option autoImplicit false

namespace DevForge.HostsKept
open TraefikLabels RoutersKept LastWins RouteSync
open Dotenv (contains contains_iff)

/-! ## Steals and drops no host -/

/-- A container of another project, or of a preview. -/
def Foreign (uuid : ProjectUuid) (c : Container) : Prop :=
  c.name ≠ containerName uuid ∧ match c.owner with
    | .project other => other ≠ uuid.text
    | .preview _ _ => True
    | .other => False

def Claimed (d : Docker) (p : Container → Prop) (host : String) : Prop :=
  ∃ c ∈ d.containers, p c ∧ c.running = true ∧ c.claims host = true

/-- The labels for the proxy are these, in some order. -/
def Bears (c : Container) (m : Labels) : Prop := (c.labels.filter (fun l => isTraefik l.1)).Perm (labelTexts m)

def Fails (result : Except String Report) : Prop := ∀ report, result = .ok report → report.ok = false

section
variable (d : Docker) (uuid : ProjectUuid) (sso : Option String) (routes : List Route) (exec : Option Executor)

def after : Docker := (syncWith d uuid sso routes exec).1

structure Kept : Prop where
  notStolen : ∀ c ∈ (after d uuid sso routes exec).containers, c.name = containerName uuid → c.running = true →
    ∀ host, c.claims host = true → Claimed d (Foreign uuid) host → c ∈ d.containers
  notDropped : ∀ r ∈ routes, Claimed d (fun c => c.name = containerName uuid) r.host →
    ¬Claimed d (fun c => c.name ≠ containerName uuid) r.host →
    Claimed (after d uuid sso routes exec) (fun c => c.name = containerName uuid) r.host
  notRecreated : ∀ c ∈ d.containers, c.name = containerName uuid →
    Bears c (wantedLabels d uuid sso routes exec) → after d uuid sso routes exec = d
  stillRuns : Fails (syncWith d uuid sso routes exec).2 → ∀ c ∈ d.containers, c.name = containerName uuid →
    c.running = true → c ∈ (after d uuid sso routes exec).containers

/-! ## The condition -/

/-- The script is run: some route is accepted, and the labels are not seen to be in place. -/
def Runs (x : Executor) : Prop :=
  safeRoutes d uuid routes (some x) ≠ [] ∧ unchanged d uuid sso routes x = false

/-- The rule of a route that no later one replaces is on the host. -/
def Written (routes : List Route) (host : String) : Prop :=
  ∃ key, ∃ r ∈ lastWith routes key, onHost host (rule r) = true

/-- What the script may do to the container of the project. -/
structure Harmless (x : Executor) (c : Container) : Prop where
  foreign : x.recreation.stage = .replaced →
    ∀ host, Written (safeRoutes d uuid routes (some x)) host → ¬Claimed d (Foreign uuid) host
  own : ∀ r ∈ routes, c.running = true → c.claims r.host = true →
    ¬Claimed d (fun c => c.name ≠ containerName uuid) r.host → x.recreation.stage = .kept ∨
    x.recreation.stage = .replaced ∧ Written (safeRoutes d uuid routes (some x)) r.host
  borne : Bears c (wantedLabels d uuid sso routes (some x)) → x.recreation.stage = .kept ∨
    x.recreation.stage = .stopped ∧ c.running = false
  failure : ¬Succeeded x.recreation.reply → c.running = true → x.recreation.stage = .kept

def Clear : Prop := ∀ x ∈ exec, Runs d uuid sso routes x → ∀ c ∈ d.containers, c.name = containerName uuid →
  Harmless d uuid sso routes x c

end

/-- Every route is either applied or reported with its conflict. -/
theorem every_route_answered (d : Docker) (uuid : ProjectUuid) (routes : List Route) (exec : Option Executor) :
    (safeRoutes d uuid routes exec).length+(conflicts d uuid routes exec).length = routes.length := by
  have hparts : ∀ l : List (Route × ℕ), (l.filter (fun r => (checkRoute d uuid exec r).isNone)).length+
      (l.filterMap (checkRoute d uuid exec)).length = l.length := by
    intro l
    induction l with
    | nil => rfl
    | cons r l ih =>
      cases hr : checkRoute d uuid exec r with
      | none => simp [hr, ← ih]; omega
      | some c => simp [hr, ← ih]; omega
  rw [safeRoutes, conflicts, List.length_map, hparts, List.length_zipIdx]

/-! ## What the labels claim -/

theorem mem_of_onHost {host v : String} (h : onHost host v = true) : '(' ∈ v.toList := by
  have hsub := (contains_iff _ _).mp h
  apply hsub.subset
  simp [hostRule]

theorem serviceName_plain (uuid : ProjectUuid) : '(' ∉ (serviceName uuid.text).toList := by
  intro h
  rw [serviceName, String.toList_append, List.mem_append] at h
  obtain h | h := h
  · exact absurd h (by decide)
  · rw [String.toList_ofList] at h
    have hmem := uuid.valid.2 _ (List.mem_of_mem_take h)
    exact absurd hmem (by decide)

/-- Among the labels of a route only its rules are taken for rules on a host. -/
theorem rule_of_onHost {uuid : ProjectUuid} {r : Route} {sso : Option String} {k : Label} {v host : String}
    (h : get (traefikLabelsForService (serviceName uuid.text) r sso) k = some v)
    (hkey : isRouterRule k.text = true) (hv : onHost host v = true) :
    ∃ e, k = .router (routerName e (router (serviceName uuid.text) r)) .rule := by
  have hparen := mem_of_onHost hv
  have hport : '(' ∉ (toString r.port).toList := fun h =>
    absurd (FixedDigits.isDigit_of_mem_toString _ _ h) (by decide)
  rw [get_traefikLabelsForService, Option.or_eq_some_iff] at h
  obtain h | ⟨-,h⟩ := h
  · exfalso
    unfold authLabels at h
    split at h
    · cases h
    · have hmem := mem_of_get h
      simp only [List.mem_cons, Prod.mk.injEq, List.not_mem_nil, or_false] at hmem
      obtain ⟨rfl,-⟩ | ⟨-,rfl⟩ | ⟨-,rfl⟩ | ⟨-,rfl⟩ | ⟨-,rfl⟩ := hmem
      · revert hkey
        decide +kernel
      all_goals
        revert hparen
        decide +kernel
  · have hmem := mem_of_get h
    simp only [routeLabels, List.mem_cons, Prod.mk.injEq, List.not_mem_nil, or_false] at hmem
    obtain ⟨-,rfl⟩ | ⟨rfl,-⟩ | ⟨-,rfl⟩ | ⟨rfl,-⟩ | ⟨-,rfl⟩ | ⟨-,rfl⟩ | ⟨-,rfl⟩ | ⟨-,rfl⟩ | ⟨-,rfl⟩ := hmem
    · exact absurd hparen (by decide)
    · exact ⟨.http,rfl⟩
    · exact absurd hparen (by decide)
    · exact ⟨.https,rfl⟩
    · exact absurd hparen (by decide)
    · exact absurd hparen (by decide)
    · exact absurd hparen hport
    · exact absurd hparen (serviceName_plain uuid)
    · exact absurd hparen (serviceName_plain uuid)

theorem isRouterRule_rule (name : String) : isRouterRule (Label.router name .rule).text = true := by
  have htext : (Label.router name .rule).text.toList =
      "traefik.http.routers.".toList++(name.toList++".rule".toList) := by
    have hdot : ".".toList++"rule".toList = ".rule".toList := by decide
    have happ : (Label.router name .rule).text = "traefik.http.routers."++(name++"."++"rule") := rfl
    rw [happ, String.toList_append, String.toList_append, String.toList_append, List.append_assoc, hdot]
  rw [isRouterRule, Bool.and_eq_true, contains_iff, contains_iff, htext]
  constructor
  · exact (List.prefix_append _ _).isInfix
  · rw [← List.append_assoc]
    exact (List.suffix_append _ _).isInfix

theorem claims_labelTexts {c : Container} {m : Labels} (h : c.labels = labelTexts m) (host : String) :
    c.claims host = true ↔ ∃ e ∈ m, isRouterRule e.1.text = true ∧ onHost host e.2 = true := by
  rw [Container.claims, h, labelTexts, List.any_map, List.any_eq_true]
  simp only [Function.comp_apply, Bool.and_eq_true]

/-- A container with the labels of routes claims the hosts of the rules written to them. -/
theorem claims_iff_written (uuid : ProjectUuid) (sso : Option String) (routes : List Route) {c : Container}
    (h : c.labels = labelTexts (traefikLabelsForRoutes uuid.text routes sso)) (host : String) :
    c.claims host = true ↔ Written routes host := by
  rw [claims_labelTexts h]
  constructor
  · rintro ⟨⟨k,v⟩,he,hkey,hv⟩
    dsimp only at hkey hv
    have hnodup : KeysNodup (traefikLabelsForRoutes uuid.text routes sso) :=
      KeysNodup.foldl_merge (by simp [KeysNodup]) _ _
    have hkv : get (traefikLabelsForRoutes uuid.text routes sso) k = some v := get_of_mem hnodup he
    have hne : k ≠ .enable := by
      rintro rfl
      have hno : isRouterRule (Label.text .enable) = false := by decide +kernel
      rw [hno] at hkey
      cases hkey
    have hfind := hkv
    rw [get_routes _ _ _ hne] at hfind
    obtain ⟨r,-,hr⟩ := List.exists_of_findSome?_eq_some hfind
    obtain ⟨e,rfl⟩ := rule_of_onHost hr hkey hv
    have hrule := (get_routes_rule uuid.text routes sso e (hostRouterKey r.host)).symm.trans hkv
    obtain ⟨last,hlast,rfl⟩ := Option.map_eq_some_iff.mp hrule
    exact ⟨_,last,hlast,hv⟩
  · rintro ⟨key,r,hr,hon⟩
    have hr' : lastWith routes key = some r := hr
    have hget := get_routes_rule uuid.text routes sso .http key
    rw [hr', Option.map_some] at hget
    refine ⟨_,mem_of_get hget,?_,?_⟩
    · dsimp only
      exact isRouterRule_rule _
    · dsimp only
      exact hon

/-! ## What the script leaves -/

theorem named_iff {d : Docker} {name : String} {c : Container} :
    d.named name = some c ↔ c ∈ d.containers ∧ c.name = name := by
  constructor
  · intro h
    exact ⟨List.mem_of_find?_eq_some h,by simpa using List.find?_some h⟩
  · rintro ⟨hc,hname⟩
    cases h : d.named name with
    | none =>
      have hno := List.find?_eq_none.mp h c hc
      simp [hname] at hno
    | some c' =>
      have hname' : c'.name = name := by simpa using List.find?_some h
      rw [List.inj_on_of_nodup_map d.names (List.mem_of_find?_eq_some h) hc (hname'.trans hname.symm)]

theorem stop_running {d : Docker} {name : String} {c : Container} (h : c ∈ (d.stop name).containers)
    (hname : c.name = name) : c.running = false := by
  obtain ⟨c',-,rfl⟩ := List.mem_map.mp h
  by_cases hc : c'.name = name
  · rw [if_pos hc]
  · rw [if_neg hc] at hname
    exact absurd hname hc

theorem stop_stopped {d : Docker} {name : String} {c : Container} (h : d.named name = some c)
    (hrunning : c.running = false) : d.stop name = d := by
  have hsame : d.containers.map (fun c => if c.name = name then { c with running := false } else c) =
      d.containers := by
    refine (List.map_congr_left fun c' hc' => ?_).trans (List.map_id _)
    by_cases hname : c'.name = name
    · obtain rfl : c = c' := Option.some.inj (h.symm.trans (named_iff.mpr ⟨hc',hname⟩))
      rw [if_pos hname, ← hrunning]
      rfl
    · exact if_neg hname
  exact Docker.ext hsame rfl

theorem rm_named {d : Docker} {name : String} {c : Container} (h : c ∈ (d.rm name).containers) : c.name ≠ name := by
  simpa using List.of_mem_filter h

/-- The container as it runs after a replacement. -/
def renewed (d : Docker) (c : Container) (labels : List (String × String)) : Container :=
  { c with id := d.next, running := true, labels }

/-- What runs under the name once the script has begun is the new container. -/
theorem reach_running {d : Docker} {c c' : Container} {labels : List (String × String)} {s : Stage}
    (h : c' ∈ (d.reach c labels s).containers) (hname : c'.name = c.name) (hrunning : c'.running = true)
    (hs : s ≠ .kept) : s = .replaced ∧ c' = renewed d c labels := by
  cases s with
  | kept => exact absurd rfl hs
  | stopped =>
    rw [stop_running h hname] at hrunning
    cases hrunning
  | removed => exact absurd hname (rm_named h)
  | replaced =>
    obtain h | h := List.mem_cons.mp h
    · exact ⟨rfl,h⟩
    · exact absurd hname (rm_named h)

theorem not_mem_of_next {d : Docker} {c : Container} (hid : c.id = d.next) :
    c ∉ d.containers := by
  intro h
  have hlt := d.ids c h
  omega

section
variable {d : Docker} {uuid : ProjectUuid} {sso : Option String} {routes : List Route} {exec : Option Executor}

/-- Nothing is lost while nothing changes. -/
theorem kept_of_same (h : after d uuid sso routes exec = d) : Kept d uuid sso routes exec := by
  constructor
  · intro c hc _ _ _ _ _
    rwa [h] at hc
  · intro r _ hown _
    rwa [h]
  · intro c _ _ _
    exact h
  · intro _ c hc _ _
    rwa [h]

theorem after_quiet {x : Executor} (h : ¬Runs d uuid sso routes x) : after d uuid sso routes (some x) = d := by
  unfold after syncWith
  by_cases hsafe : safeRoutes d uuid routes (some x) = []
  · simp [hsafe]
  · have hunchanged : unchanged d uuid sso routes x = true := by
      by_contra hno
      exact h ⟨hsafe,by simpa using hno⟩
    simp [hsafe, hunchanged]

theorem after_none : after d uuid sso routes none = d := by
  unfold after syncWith
  by_cases hsafe : safeRoutes d uuid routes none = []
  · simp [hsafe]
  · simp [hsafe]

theorem after_runs {x : Executor} (h : Runs d uuid sso routes x) : after d uuid sso routes (some x) =
    (d.recreate (containerName uuid) (labelTexts (wantedLabels d uuid sso routes (some x))) x.recreation).1 := by
  unfold after syncWith
  simp [h.1, h.2]

theorem after_missing {x : Executor} (h : Runs d uuid sso routes x) (hc : d.named (containerName uuid) = none) :
    after d uuid sso routes (some x) = d := by
  rw [after_runs h, Docker.recreate, hc]

theorem after_reach {x : Executor} {c : Container} (h : Runs d uuid sso routes x)
    (hc : d.named (containerName uuid) = some c) : after d uuid sso routes (some x) =
    d.reach c (labelTexts (wantedLabels d uuid sso routes (some x))) x.recreation.stage := by
  rw [after_runs h, Docker.recreate, hc]

theorem fails_runs {x : Executor} {c : Container} (h : Runs d uuid sso routes x)
    (hc : d.named (containerName uuid) = some c) :
    Fails (syncWith d uuid sso routes (some x)).2 ↔ ¬Succeeded x.recreation.reply := by
  obtain ⟨f,hok,hreply⟩ : ∃ f : ExecResult → Report, (∀ r, (f r).ok = r.ok) ∧
      (syncWith d uuid sso routes (some x)).2 = x.recreation.reply.map f := by
    unfold syncWith Docker.recreate
    simp only [if_neg h.1, h.2, hc, Bool.false_eq_true, if_false]
    refine ⟨_,?_,rfl⟩
    intro r
    rfl
  rw [hreply]
  cases x.recreation.reply with
  | error e => simp [Fails, Succeeded, Except.map]
  | ok res =>
    obtain ⟨ok,output⟩ := res
    cases ok <;> simp [Fails, Succeeded, Except.map, hok]

theorem own_claimed {c : Container} (hc : d.named (containerName uuid) = some c) {host : String} :
    Claimed d (fun c => c.name = containerName uuid) host ↔ c.running = true ∧ c.claims host = true := by
  constructor
  · rintro ⟨c',hmem,hname,h⟩
    obtain rfl := Option.some.inj (hc.symm.trans (named_iff.mpr ⟨hmem,hname⟩))
    exact h
  · intro h
    obtain ⟨hmem,hname⟩ := named_iff.mp hc
    exact ⟨c,hmem,hname,h⟩

/-- The script keeps what has to be kept, if it does no harm to the container. -/
theorem kept_of_harmless {x : Executor} {c : Container} (hx : Runs d uuid sso routes x)
    (hc : d.named (containerName uuid) = some c) (h : Harmless d uuid sso routes x c) :
    Kept d uuid sso routes (some x) := by
  obtain ⟨hmem,hname⟩ := named_iff.mp hc
  have hafter := after_reach hx hc
  by_cases hkept : x.recreation.stage = .kept
  · rw [hkept] at hafter
    exact kept_of_same hafter
  have hnamed : ∀ c' ∈ d.containers, c'.name = containerName uuid → c = c' := fun c' hc' hname' =>
    Option.some.inj (hc.symm.trans (named_iff.mpr ⟨hc',hname'⟩))
  constructor
  · intro c' hc' hname' hrunning host hclaims hforeign
    rw [hafter] at hc'
    obtain ⟨hstage,rfl⟩ := reach_running hc' (hname'.trans hname.symm) hrunning hkept
    exact absurd hforeign (h.foreign hstage host ((claims_iff_written uuid sso _ rfl host).mp hclaims))
  · intro r hr hown hother
    obtain ⟨hrunning,hclaims⟩ := (own_claimed hc).mp hown
    obtain ⟨hstage,hwritten⟩ := (h.own r hr hrunning hclaims hother).resolve_left hkept
    rw [hafter, hstage]
    exact ⟨renewed d c _,List.mem_cons_self,hname,rfl,(claims_iff_written uuid sso _ rfl r.host).mpr hwritten⟩
  · intro c' hc' hname' hbears
    obtain rfl := hnamed c' hc' hname'
    obtain ⟨hstage,hrunning⟩ := (h.borne hbears).resolve_left hkept
    rw [hafter, hstage]
    exact stop_stopped (hname ▸ hc) hrunning
  · intro hf c' hc' hname' hrunning
    obtain rfl := hnamed c' hc' hname'
    exact absurd (h.failure ((fails_runs hx hc).mp hf) hrunning) hkept

theorem harmless_of_kept {x : Executor} {c : Container} (hx : Runs d uuid sso routes x)
    (hc : d.named (containerName uuid) = some c) (h : Kept d uuid sso routes (some x)) :
    Harmless d uuid sso routes x c := by
  obtain ⟨hmem,hname⟩ := named_iff.mp hc
  have hafter := after_reach hx hc
  have hgone : x.recreation.stage ≠ .kept → c.running = true →
      c ∉ (after d uuid sso routes (some x)).containers := by
    intro hkept hrunning hmem'
    rw [hafter] at hmem'
    have hnew := (reach_running hmem' rfl hrunning hkept).2
    exact not_mem_of_next (congrArg Container.id hnew) hmem
  constructor
  · intro hstage host hwritten hforeign
    have hnew : renewed d c (labelTexts (wantedLabels d uuid sso routes (some x))) ∈
        (after d uuid sso routes (some x)).containers := by
      rw [hafter, hstage]
      exact List.mem_cons_self
    exact not_mem_of_next rfl (h.notStolen _ hnew hname rfl host
      ((claims_iff_written uuid sso _ rfl host).mpr hwritten) hforeign)
  · intro r hr hrunning hclaims hother
    by_cases hkept : x.recreation.stage = .kept
    · exact .inl hkept
    · obtain ⟨c',hc',hname',hrunning',hclaims'⟩ := h.notDropped r hr ((own_claimed hc).mpr ⟨hrunning,hclaims⟩) hother
      rw [hafter] at hc'
      obtain ⟨hstage,rfl⟩ := reach_running hc' (hname'.trans hname.symm) hrunning' hkept
      exact .inr ⟨hstage,(claims_iff_written uuid sso _ rfl r.host).mp hclaims'⟩
  · intro hbears
    have hsame := h.notRecreated c hmem hname hbears
    by_cases hkept : x.recreation.stage = .kept
    · exact .inl hkept
    · have hrunning : c.running = false := by
        by_contra hrunning
        apply hgone hkept (by simpa using hrunning)
        rw [hsame]
        exact hmem
      refine .inr ⟨?_,hrunning⟩
      rw [hafter] at hsame
      cases hstage : x.recreation.stage with
      | kept => exact absurd hstage hkept
      | stopped => rfl
      | removed =>
        rw [hstage] at hsame
        have hrm : c ∈ (d.rm c.name).containers := congrArg Docker.containers hsame ▸ hmem
        exact absurd rfl (rm_named hrm)
      | replaced =>
        rw [hstage] at hsame
        have hnext : d.next+1 = d.next := congrArg Docker.next hsame
        omega
  · intro hreply hrunning
    by_contra hkept
    exact hgone hkept hrunning (h.stillRuns ((fails_runs hx hc).mpr hreply) c hmem hname hrunning)

/-- A synchronisation steals and drops no host if and only if its script does no harm. -/
theorem kept_iff_clear (d : Docker) (uuid : ProjectUuid) (sso : Option String) (routes : List Route)
    (exec : Option Executor) : Kept d uuid sso routes exec ↔ Clear d uuid sso routes exec := by
  cases exec with
  | none => exact iff_of_true (kept_of_same after_none) (fun x hx => by cases hx)
  | some x =>
    by_cases hx : Runs d uuid sso routes x
    · constructor
      · intro h x' hx' _ c hc hname
        obtain rfl := Option.some.inj hx'
        exact harmless_of_kept hx (named_iff.mpr ⟨hc,hname⟩) h
      · intro h
        cases hc : d.named (containerName uuid) with
        | none => exact kept_of_same (after_missing hx hc)
        | some c => exact kept_of_harmless hx hc (h x rfl hx c (named_iff.mp hc).1 (named_iff.mp hc).2)
    · refine iff_of_true (kept_of_same (after_quiet hx)) ?_
      intro x' hx' hruns
      obtain rfl := Option.some.inj hx'
      exact absurd hruns hx

end

/-! ## A check that fails without a word -/

def shopContainer : Container := ⟨0,"df-fbb6a152-ef0",true,[],.project shopUuid.text⟩

/-- The container of another project, with a rule on the host. -/
def production : Container := ⟨1,"df-0c11d7a3-9b4",true,
  [("traefik.http.routers.http-df-0c11d7a3-app-eu-example.rule","Host(`app.eu.example`)")],
  .project "0c11d7a3-9b4e-4f0a-8c1d-2e3f4a5b6c7d"⟩

def server : Docker := ⟨[production,shopContainer],2,by decide +kernel,by decide⟩

def shopRoutes : List Route := [⟨"app.eu.example","/",3000⟩]

def killedCheck : Executor := ⟨fun _ => .failed "",.printed,⟨.replaced,.ok ⟨true,"recreated"⟩,fun _ => rfl⟩⟩

/-- The check fails and prints nothing, and the host of another project is taken. -/
theorem failed_check_steals_host : ¬∀ (d : Docker) (uuid : ProjectUuid) (sso : Option String) (routes : List Route)
    (exec : Option Executor), Kept d uuid sso routes exec := by
  intro h
  have hruns : Runs server shopUuid none shopRoutes killedCheck := by
    constructor
    · decide +kernel
    · decide +kernel
  have hnamed : server.named (containerName shopUuid) = some shopContainer := by decide +kernel
  have hharmless := harmless_of_kept hruns hnamed (h _ _ _ _ _)
  have hsafe : safeRoutes server shopUuid shopRoutes (some killedCheck) = shopRoutes := by decide +kernel
  have hother : "0c11d7a3-9b4e-4f0a-8c1d-2e3f4a5b6c7d" ≠ shopUuid.text := by decide +kernel
  have hforeign : Foreign shopUuid production := ⟨by decide +kernel,hother⟩
  apply hharmless.foreign rfl "app.eu.example"
  · rw [hsafe]
    exact ⟨"app-eu-example",⟨"app.eu.example","/",3000⟩,by decide +kernel,by decide +kernel⟩
  · exact ⟨production,List.mem_cons_self,hforeign,rfl,by decide +kernel⟩

end DevForge.HostsKept
