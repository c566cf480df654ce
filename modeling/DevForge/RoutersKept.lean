import DevForge.TraefikLabels
import Mathlib.Data.Bool.AllAny

/-!
# When every route keeps its router

Routes whose hosts give one key share a router, and all routes of a project share
a service: the last route decides what these are. Two sites share them where the
first eight characters of their identifiers are the same.
-/

set_option autoImplicit false

namespace DevForge.RoutersKept
open TraefikLabels LastWins

/-- A router of the entry point with the route's rule, on a service with its port. -/
def Routed (m : Labels) (r : Route) (e : Entrypoint) : Prop :=
  ∃ name service, get m (.router name .rule) = some (rule r) ∧
    get m (.router name .entrypoints) = some e.text ∧
    get m (.router name .service) = some service ∧
    get m (.servicePort service) = some (toString r.port)

def RouterName (m : Labels) (name : String) : Prop := ∃ option, get m (.router name option) ≠ none

def ServiceName (m : Labels) (service : String) : Prop := get m (.servicePort service) ≠ none

structure KeepRouters (sha256 : Digest) (sso : Option String) (a b : Site) : Prop where
  first : ∀ r ∈ a.routes, ∀ e, Routed (a.labels sha256 sso) r e
  second : ∀ r ∈ b.routes, ∀ e, Routed (b.labels sha256 sso) r e
  routers : ∀ name, RouterName (a.labels sha256 sso) name → ¬RouterName (b.labels sha256 sso) name
  services : ∀ service,
    ServiceName (a.labels sha256 sso) service → ¬ServiceName (b.labels sha256 sso) service

/-! ## The condition -/

/-- The last of the routes whose host has this key. -/
def lastWith (routes : List Route) (key : String) : Option Route :=
  routes.reverse.find? (fun r => hostRouterKey r.host = key)

/-- Every rule is that of the last route with some key, and there is one port. -/
structure Distinct (routes : List Route) : Prop where
  rules : ∀ r ∈ routes, ∃ key, ∃ last ∈ lastWith routes key, rule last = rule r
  ports : ∀ r ∈ routes, ∀ r' ∈ routes, r.port = r'.port

structure Apart (sha256 : Digest) (a b : Site) : Prop where
  first : Distinct a.routes
  second : Distinct b.routes
  ids : serviceName (a.id sha256) = serviceName (b.id sha256) → a.routes = [] ∨ b.routes = []

/-! ## What the labels of a site are -/

theorem routerName_inj {e e' : Entrypoint} {x y : String} :
    routerName e x = routerName e' y ↔ e = e' ∧ x = y := by
  constructor
  · intro h
    have hchar : ∀ (e : Entrypoint) (x : String), (routerName e x).toList[4]? =
        some (if e = .http then '-' else 's') := by
      intro e x
      cases e with
      | http => exact getElem?_append_start (by decide)
      | https =>
        rw [routerName, String.append_assoc]
        exact getElem?_append_start (by decide)
    have he : e = e' := by
      have hc := (hchar e x).symm.trans ((congrArg (fun s => s.toList[4]?) h).trans (hchar e' y))
      cases e <;> cases e' <;> simp at hc <;> rfl
    subst he
    exact ⟨rfl,(String.append_right_inj _).mp h⟩
  · rintro ⟨rfl,rfl⟩
    rfl

theorem get_traefikLabelsForService {service : String} {r : Route} {sso : Option String} {k : Label} :
    get (traefikLabelsForService service r sso) k =
      (get (authLabels (router service r) sso) k).or (get (routeLabels service r) k) := by
  rw [traefikLabelsForService, get_merge, get_append, get_nil, Option.or_none]

theorem get_authLabels {router name : String} {option : RouterOption} {sso : Option String}
    (h : option ≠ .middlewares) : get (authLabels router sso) (.router name option) = none := by
  unfold authLabels
  split
  · rfl
  · simp [get_cons, h.symm]

theorem get_authLabels_port {router service : String} {sso : Option String} :
    get (authLabels router sso) (.servicePort service) = none := by
  unfold authLabels
  split
  · rfl
  · simp [get_cons]

theorem get_rule {service key : String} {r : Route} {sso : Option String} {e : Entrypoint} :
    get (traefikLabelsForService service r sso) (.router (routerName e (service++"-"++key)) .rule) =
      if decide (hostRouterKey r.host = key) then some (rule r) else none := by
  rw [get_traefikLabelsForService, get_authLabels (by decide), Option.none_or]
  by_cases h : hostRouterKey r.host = key
  · cases e <;> simp [routeLabels, get_cons, routerName_inj, router, h]
  · cases e <;> simp [routeLabels, get_cons, routerName_inj, router, h]

theorem get_entrypoints {service key : String} {r : Route} {sso : Option String} {e : Entrypoint} :
    get (traefikLabelsForService service r sso)
        (.router (routerName e (service++"-"++key)) .entrypoints) =
      if decide (hostRouterKey r.host = key) then some e.text else none := by
  rw [get_traefikLabelsForService, get_authLabels (by decide), Option.none_or]
  by_cases h : hostRouterKey r.host = key
  · cases e <;> simp [routeLabels, get_cons, routerName_inj, router, h, Entrypoint.text]
  · cases e <;> simp [routeLabels, get_cons, routerName_inj, router, h]

theorem get_service {service key : String} {r : Route} {sso : Option String} {e : Entrypoint} :
    get (traefikLabelsForService service r sso)
        (.router (routerName e (service++"-"++key)) .service) =
      if decide (hostRouterKey r.host = key) then some service else none := by
  rw [get_traefikLabelsForService, get_authLabels (by decide), Option.none_or]
  by_cases h : hostRouterKey r.host = key
  · cases e <;> simp [routeLabels, get_cons, routerName_inj, router, h]
  · cases e <;> simp [routeLabels, get_cons, routerName_inj, router, h]

theorem get_servicePort {service service' : String} {r : Route} {sso : Option String} :
    get (traefikLabelsForService service r sso) (.servicePort service') =
      if decide (service = service') then some (toString r.port) else none := by
  rw [get_traefikLabelsForService, get_authLabels_port, Option.none_or]
  by_cases h : service = service' <;> simp [routeLabels, get_cons, h]

/-- A router of one route is named by an entry point and the key of its host. -/
theorem router_named {service name : String} {option : RouterOption} {r : Route}
    {sso : Option String}
    (h : get (traefikLabelsForService service r sso) (.router name option) ≠ none) :
    ∃ e, name = routerName e (service++"-"++hostRouterKey r.host) := by
  by_contra hno
  have hhttp : routerName .http (router service r) ≠ name := fun h => hno ⟨.http,h.symm⟩
  have hhttps : routerName .https (router service r) ≠ name := fun h => hno ⟨.https,h.symm⟩
  apply h
  rw [get_traefikLabelsForService, Option.or_eq_none_iff]
  constructor
  · unfold authLabels
    split
    · rfl
    · simp [get_cons, hhttp, hhttps]
  · simp [routeLabels, get_cons, hhttp, hhttps]

/-- The last of the routes that has a label decides. -/
theorem get_routes (uuid : String) (routes : List Route) (sso : Option String) {k : Label} (hk : k ≠ .enable) :
    get (traefikLabelsForRoutes uuid routes sso) k =
      routes.reverse.findSome? (fun r => get (traefikLabelsForService (serviceName uuid) r sso) k) := by
  rw [traefikLabelsForRoutes, get_foldl_merge, get_singleton, if_neg hk.symm, Option.or_none]
  simp only [get_filter_ne hk]
  rfl

theorem get_routes_rule (uuid : String) (routes : List Route) (sso : Option String) (e : Entrypoint) (key : String) :
    get (traefikLabelsForRoutes uuid routes sso) (.router (routerName e (serviceName uuid++"-"++key)) .rule) =
      (lastWith routes key).map rule := by
  rw [get_routes _ _ _ (by simp)]
  simp only [get_rule]
  exact findSome?_ite _ _ _

/-! ## What the labels of a site are -/

variable {sha256 : Digest} {sso : Option String}

/-- The last of a site's routes that has a label decides. -/
theorem get_labels (s : Site) {k : Label} (hk : k ≠ .enable) : get (s.labels sha256 sso) k =
    s.routes.reverse.findSome? (fun r =>
      get (traefikLabelsForService (serviceName (s.id sha256)) r sso) k) := by
  cases s with
  | project uuid routes => exact get_routes uuid.text routes sso hk
  | preview uuid pr host port =>
    simp only [Site.labels, Site.routes, List.reverse_singleton, List.findSome?_singleton]
    rfl

theorem get_site_rule (s : Site) (e : Entrypoint) (key : String) :
    get (s.labels sha256 sso)
        (.router (routerName e (serviceName (s.id sha256)++"-"++key)) .rule) =
      (lastWith s.routes key).map rule := by
  rw [get_labels s (by simp)]
  simp only [get_rule]
  exact findSome?_ite _ _ _

theorem get_site_entrypoints (s : Site) (e : Entrypoint) (key : String) :
    get (s.labels sha256 sso)
        (.router (routerName e (serviceName (s.id sha256)++"-"++key)) .entrypoints) =
      (lastWith s.routes key).map (fun _ => e.text) := by
  rw [get_labels s (by simp)]
  simp only [get_entrypoints]
  exact findSome?_ite _ _ _

theorem get_site_service (s : Site) (e : Entrypoint) (key : String) :
    get (s.labels sha256 sso)
        (.router (routerName e (serviceName (s.id sha256)++"-"++key)) .service) =
      (lastWith s.routes key).map (fun _ => serviceName (s.id sha256)) := by
  rw [get_labels s (by simp)]
  simp only [get_service]
  exact findSome?_ite _ _ _

theorem get_site_servicePort (s : Site) (service : String) :
    get (s.labels sha256 sso) (.servicePort service) =
      if serviceName (s.id sha256) = service then s.routes.getLast?.map (fun r => toString r.port)
      else none := by
  rw [get_labels s (by simp)]
  simp only [get_servicePort]
  rw [findSome?_ite]
  by_cases h : serviceName (s.id sha256) = service
  · rw [if_pos h, ← List.head?_reverse]
    cases s.routes.reverse <;> simp [h]
  · rw [if_neg h]
    simp [h]

theorem site_router_named {s : Site} {name : String} (h : RouterName (s.labels sha256 sso) name) :
    s.routes ≠ [] ∧ ∃ e key, name = routerName e (serviceName (s.id sha256)++"-"++key) := by
  obtain ⟨option,ho⟩ := h
  rw [get_labels s (by simp), ne_eq, List.findSome?_eq_none_iff, not_forall] at ho
  obtain ⟨r,hr⟩ := ho
  rw [Classical.not_imp] at hr
  obtain ⟨e,he⟩ := router_named hr.2
  exact ⟨List.ne_nil_of_mem (List.mem_reverse.mp hr.1),e,_,he⟩

theorem site_service_iff {s : Site} {service : String} :
    ServiceName (s.labels sha256 sso) service ↔ service = serviceName (s.id sha256) ∧ s.routes ≠ [] := by
  rw [ServiceName, get_site_servicePort]
  by_cases h : serviceName (s.id sha256) = service
  · simp [h]
  · have h' : service ≠ serviceName (s.id sha256) := fun hs => h hs.symm
    simp [h, h']

/-! ## When the routers are kept -/

theorem lastWith_mem {routes : List Route} {key : String} {last : Route}
    (h : last ∈ lastWith routes key) : last ∈ routes :=
  List.mem_reverse.mp (List.mem_of_find?_eq_some h)

theorem routed_iff {s : Site} {r : Route} {e : Entrypoint} : Routed (s.labels sha256 sso) r e ↔
    (∃ key, ∃ last ∈ lastWith s.routes key, rule last = rule r) ∧
    ∃ last ∈ s.routes.getLast?, last.port = r.port := by
  constructor
  · rintro ⟨name,service,hrule,-,-,hport⟩
    constructor
    · obtain ⟨-,e',key,rfl⟩ := site_router_named ⟨.rule,by rw [hrule]; simp⟩
      rw [get_site_rule, Option.map_eq_some_iff] at hrule
      exact ⟨key,hrule⟩
    · rw [get_site_servicePort] at hport
      split at hport
      · obtain ⟨last,hlast,hp⟩ := Option.map_eq_some_iff.mp hport
        exact ⟨last,hlast,toString_inj hp⟩
      · simp at hport
  · rintro ⟨⟨key,last,hlast,hrule⟩,⟨final,hfinal,hport⟩⟩
    have hlast' : lastWith s.routes key = some last := hlast
    have hfinal' : s.routes.getLast? = some final := hfinal
    refine ⟨routerName e (serviceName (s.id sha256)++"-"++key),serviceName (s.id sha256),?_,?_,?_,?_⟩
    · rw [get_site_rule, hlast', Option.map_some, hrule]
    · rw [get_site_entrypoints, hlast', Option.map_some]
    · rw [get_site_service, hlast', Option.map_some]
    · rw [get_site_servicePort, if_pos rfl, hfinal', Option.map_some, hport]

theorem all_routed_iff (sha256 : Digest) {s : Site} :
    (∀ r ∈ s.routes, ∀ e, Routed (s.labels sha256 sso) r e) ↔ Distinct s.routes := by
  simp only [routed_iff]
  constructor
  · intro h
    constructor
    · intro r hr
      exact (h r hr .http).1
    · intro r hr r' hr'
      obtain ⟨last,hlast,hp⟩ := (h r hr .http).2
      obtain ⟨last',hlast',hp'⟩ := (h r' hr' .http).2
      rw [← hp, ← hp', Option.some.inj (hlast.symm.trans hlast')]
  · intro h r hr e
    obtain ⟨last,hlast⟩ := Option.ne_none_iff_exists'.mp
      (mt List.getLast?_eq_none_iff.mp (List.ne_nil_of_mem hr))
    exact ⟨h.rules r hr,last,hlast,h.ports last (List.mem_of_getLast? hlast) r hr⟩

theorem id_length (sha256 : Digest) (s : Site) : 8 ≤ (s.id sha256).toList.length := by
  cases s with
  | project uuid routes =>
    rw [Site.id, uuid.valid.1]
    omega
  | preview uuid pr host port =>
    rw [Site.id, previewInstanceId, String.toList_append, List.length_append]
    simp [sha256.length]

theorem serviceName_length (s : Site) : (serviceName (s.id sha256)).toList.length = 11 := by
  have hid := id_length sha256 s
  rw [serviceName, String.toList_append, List.length_append]
  simp
  omega

/-- Every route of two sites keeps its router, and the sites share none, where hosts,
ports and identifiers leave no name to two of them; and not elsewhere. -/
theorem keep_routers_iff (sha256 : Digest) (sso : Option String) (a b : Site) :
    KeepRouters sha256 sso a b ↔ Apart sha256 a b := by
  constructor
  · intro h
    refine ⟨(all_routed_iff _).mp h.first,(all_routed_iff _).mp h.second,fun hid => ?_⟩
    by_contra hne
    rw [not_or] at hne
    exact h.services (serviceName (a.id sha256)) (site_service_iff.mpr ⟨rfl,hne.1⟩)
      (site_service_iff.mpr ⟨hid,hne.2⟩)
  · intro h
    refine ⟨(all_routed_iff _).mpr h.first,(all_routed_iff _).mpr h.second,?_,?_⟩
    · intro name ha hb
      obtain ⟨hane,e,key,hname⟩ := site_router_named ha
      obtain ⟨hbne,e',key',hname'⟩ := site_router_named hb
      have hrouter := (routerName_inj.mp (hname.symm.trans hname')).2
      have hid : serviceName (a.id sha256) = serviceName (b.id sha256) := by
        have hl := congrArg String.toList hrouter
        simp only [String.toList_append, List.append_assoc] at hl
        apply String.toList_injective
        exact List.append_inj_left hl (by rw [serviceName_length, serviceName_length])
      exact (h.ids hid).elim hane hbne
    · intro service ha hb
      obtain ⟨rfl,hane⟩ := site_service_iff.mp ha
      obtain ⟨hid,hbne⟩ := site_service_iff.mp hb
      exact (h.ids hid).elim hane hbne

/-- Two domains with one key: the second takes the router of the first. -/
def shop : List Route := [⟨"app-eu.example","/",3000⟩,⟨"app.eu.example","/",3000⟩]

def shopUuid : ProjectUuid := 
  ⟨"fbb6a152-ef01-4c1e-9d2a-5b7f0c3e8a11",by decide +kernel,List.all_iff_forall_prop.mp (by decide +kernel)⟩

theorem second_domain_takes_router : ¬∀ (sso : Option String) (uuid : ProjectUuid)
    (routes : List Route), (routes.map (fun r => (r.host,r.pathPrefix))).Nodup →
    ∀ r ∈ routes, ∀ e, Routed (traefikLabelsForRoutes uuid.text routes sso) r e := by
  intro h
  have hall := h none shopUuid shop (by decide)
  have hkept : Distinct shop := (all_routed_iff
    ⟨fun _ => String.ofList (List.replicate 64 '0'),fun _ => by simp⟩ (s := .project shopUuid shop)).mp hall
  obtain ⟨key,last,hlast,hrule⟩ := hkept.rules _ List.mem_cons_self
  obtain rfl : hostRouterKey last.host = key := by simpa using List.find?_some hlast
  have hkey : ∀ r ∈ shop, hostRouterKey r.host = "app-eu-example" := by decide +kernel
  rw [hkey last (lastWith_mem hlast)] at hlast
  have hsecond : lastWith shop "app-eu-example" = some ⟨"app.eu.example","/",3000⟩ := by
    decide +kernel
  rw [← Option.some.inj (hsecond.symm.trans hlast)] at hrule
  exact absurd hrule (by decide +kernel)

end DevForge.RoutersKept
