import DevForge.LastWins
import DevForge.SeparatedParts
import DevForge.Sql

/-!
# Labels of the routers

The proxy reads its routers from the labels of a container: one router for each
host and entry point, and one service for a project. The labels of the routes of a
project are merged into one map.
-/

set_option autoImplicit false

namespace DevForge.TraefikLabels
open LastWins

/-! ## Names of labels -/

inductive RouterOption | rule | entrypoints | tls | service | middlewares
deriving DecidableEq

def RouterOption.text : RouterOption → String
  | .rule => "rule"
  | .entrypoints => "entrypoints"
  | .tls => "tls"
  | .service => "service"
  | .middlewares => "middlewares"

inductive AuthOption | address | trustForwardHeader | authResponseHeaders
deriving DecidableEq

def AuthOption.text : AuthOption → String
  | .address => "address"
  | .trustForwardHeader => "trustForwardHeader"
  | .authResponseHeaders => "authResponseHeaders"

/-- The keys of a map of labels. -/
inductive Label
  | enable
  | router (name : String) (option : RouterOption)
  | servicePort (service : String)
  | forwardAuth (middleware : String) (option : AuthOption)
deriving DecidableEq

def Label.text : Label → String
  | .enable => "traefik.enable"
  | .router name option => "traefik.http.routers."++(name++"."++option.text)
  | .servicePort service => "traefik.http.services."++(service++".loadbalancer.server.port")
  | .forwardAuth middleware option =>
    "traefik.http.middlewares."++((middleware++".forwardauth")++"."++option.text)

theorem RouterOption.text_injective : Function.Injective RouterOption.text := by
  intro a b h
  cases a <;> cases b <;> first | rfl | exact absurd h (by decide)

theorem AuthOption.text_injective : Function.Injective AuthOption.text := by
  intro a b h
  cases a <;> cases b <;> first | rfl | exact absurd h (by decide)

/-- The fourteenth character of a text tells which kind of label it is. -/
def Label.kind : Label → Char
  | .enable => 'e'
  | .router _ _ => 'r'
  | .servicePort _ => 's'
  | .forwardAuth _ _ => 'm'

theorem getElem?_append_start {a b : String} {n : ℕ} (h : n < a.toList.length) :
    (a++b).toList[n]? = a.toList[n]? := by
  rw [String.toList_append, List.getElem?_append_left h]

theorem Label.getElem?_text (l : Label) : l.text.toList[13]? = some l.kind := by
  cases l with
  | enable => rfl
  | router name option => exact getElem?_append_start (by decide)
  | servicePort service => exact getElem?_append_start (by decide)
  | forwardAuth middleware option => exact getElem?_append_start (by decide)

theorem dotted_inj {a b x y : String} (hx : '.' ∉ x.toList) (hy : '.' ∉ y.toList)
    (h : a++"."++x = b++"."++y) : a = b ∧ x = y := by
  have hl := congrArg String.toList h
  simp only [String.toList_append] at hl
  rw [List.append_assoc, List.append_assoc] at hl
  obtain ⟨h1,h2⟩ := SeparatedParts.append_sep_inj '.' hx hy hl
  exact ⟨String.toList_injective h1,String.toList_injective h2⟩

theorem RouterOption.plain (o : RouterOption) : '.' ∉ o.text.toList := by cases o <;> decide

theorem AuthOption.plain (o : AuthOption) : '.' ∉ o.text.toList := by cases o <;> decide

/-- Two different labels have different texts. -/
theorem Label.text_injective : Function.Injective Label.text := by
  intro l m h
  have hkind : l.kind = m.kind := by
    apply Option.some.inj
    rw [← l.getElem?_text, ← m.getElem?_text, h]
  cases l with
  | enable => cases m <;> first | rfl | simp [Label.kind] at hkind
  | router name option =>
    cases m with
    | router name' option' =>
      obtain ⟨hn,ho⟩ := dotted_inj option.plain option'.plain ((String.append_right_inj _).mp h)
      rw [hn, RouterOption.text_injective ho]
    | _ => simp [Label.kind] at hkind
  | servicePort service =>
    cases m with
    | servicePort service' =>
      rw [(String.append_left_inj _).mp ((String.append_right_inj _).mp h)]
    | _ => simp [Label.kind] at hkind
  | forwardAuth middleware option =>
    cases m with
    | forwardAuth middleware' option' =>
      obtain ⟨hm,ho⟩ := dotted_inj option.plain option'.plain ((String.append_right_inj _).mp h)
      rw [(String.append_left_inj _).mp hm, AuthOption.text_injective ho]
    | _ => simp [Label.kind] at hkind

abbrev Labels := List (Label × String)

/-! ## Routers and services -/

structure Route where
  host : String
  pathPrefix : String
  port : ℕ
deriving DecidableEq

inductive Entrypoint | http | https
deriving DecidableEq

def Entrypoint.text : Entrypoint → String
  | .http => "http"
  | .https => "https"

def routerName (e : Entrypoint) (router : String) : String := e.text++"-"++router

def ssoMiddlewareName : String := "devforge-sso-auth"

def authHeaders : String :=
  "X-Auth-Request-User,X-Auth-Request-Email,X-Auth-Request-Preferred-Username,X-Auth-Request-Groups,Authorization"

def pushKey (out : List Char) (c : Char) : List Char :=
  if c.isAlphanum then out++[c.toLower]
  else if out.getLast? ≠ some '-' then out++['-'] else out

/-- Letters and digits in lower case, one hyphen for what stands between them, 48 characters. -/
def hostRouterKey (host : String) : String :=
  let out := host.toList.foldl pushKey []
  let trimmed := trimBy (· = '-') (String.ofList out)
  if trimmed = "" then "host" else String.ofList (trimmed.toList.take 48)

def rule (r : Route) : String :=
  let path := if trim r.pathPrefix = "" then "/" else r.pathPrefix
  if path = "/" then "Host(`"++r.host++"`)"
  else "Host(`"++r.host++"`) && PathPrefix(`"++path++"`)"

def router (service : String) (r : Route) : String := service++"-"++hostRouterKey r.host

/-- Labels of the single sign-on, where an address is set. -/
def authLabels (router : String) (forwardAuthAddress : Option String) : Labels :=
  match (forwardAuthAddress.map trim).filter (· ≠ "") with
  | none => []
  | some addr =>
    [(.forwardAuth ssoMiddlewareName .address,addr),
      (.forwardAuth ssoMiddlewareName .trustForwardHeader,"true"),
      (.forwardAuth ssoMiddlewareName .authResponseHeaders,authHeaders),
      (.router (routerName .http router) .middlewares,ssoMiddlewareName),
      (.router (routerName .https router) .middlewares,ssoMiddlewareName)]

def routeLabels (service : String) (r : Route) : Labels :=
  let router := router service r
  [(.enable,"true"),
    (.router (routerName .http router) .rule,rule r),
    (.router (routerName .http router) .entrypoints,"http"),
    (.router (routerName .https router) .rule,rule r),
    (.router (routerName .https router) .entrypoints,"https"),
    (.router (routerName .https router) .tls,"true"),
    (.servicePort service,toString r.port),
    (.router (routerName .http router) .service,service),
    (.router (routerName .https router) .service,service)]

def traefikLabelsForService (service : String) (r : Route) (forwardAuthAddress : Option String) :
    Labels :=
  merge [] (routeLabels service r++authLabels (router service r) forwardAuthAddress)

/-- The service of a project, or of an instance, by the start of its identifier. -/
def serviceName (uuid : String) : String := "df-"++String.ofList (uuid.toList.take 8)

def traefikLabels (uuid : String) (r : Route) (forwardAuthAddress : Option String) : Labels :=
  traefikLabelsForService (serviceName uuid) r forwardAuthAddress

def traefikLabelsForRoutes (uuid : String) (routes : List Route)
    (forwardAuthAddress : Option String) : Labels :=
  routes.foldl (fun m r => merge m
    ((traefikLabels uuid r forwardAuthAddress).filter (fun e => e.1 ≠ .enable))) [(.enable,"true")]

/-! ## Sites -/

structure ProjectUuid where
  text : String
  valid : text.toList.length = 36 ∧ ∀ c ∈ text.toList, c ∈ "0123456789abcdef-".toList

/-- The hexadecimal SHA-256 of a text. -/
structure Digest where
  hex : String → String
  length : ∀ s, (hex s).toList.length = 64

/-- `pv` and ten digits for a project and a pull request. -/
def previewInstanceId (sha256 : Digest) (uuid : ProjectUuid) (pr : ℤ) : String :=
  "pv"++String.ofList ((sha256.hex (uuid.text++"#"++toString pr)).toList.take 10)

/-- What is served under labels: a project with its routes, or a preview of a pull
request on one host. -/
inductive Site
  | project (uuid : ProjectUuid) (routes : List Route)
  | preview (uuid : ProjectUuid) (pr : ℤ) (host : String) (port : ℕ)

def Site.id (sha256 : Digest) : Site → String
  | .project uuid _ => uuid.text
  | .preview uuid pr _ _ => previewInstanceId sha256 uuid pr

def Site.routes : Site → List Route
  | .project _ routes => routes
  | .preview _ _ host port => [⟨host,"/",port⟩]

def Site.labels (sha256 : Digest) (forwardAuthAddress : Option String) (s : Site) : Labels :=
  match s with
  | .project uuid routes => traefikLabelsForRoutes uuid.text routes forwardAuthAddress
  | .preview uuid pr host port =>
    traefikLabels (previewInstanceId sha256 uuid pr) ⟨host,"/",port⟩ forwardAuthAddress

end DevForge.TraefikLabels
