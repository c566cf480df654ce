import DevForge.IpAddresses

/-!
# Reading a public page

A watch reads its page with one request at a time and follows the redirects
itself. The URL library, the resolver and the HTTP client are parameters: the
client contacts the address written in the URL or one that the guarded
resolver has let through.
-/

set_option autoImplicit false

namespace DevForge.PageFetch
open IpAddresses ToolArguments

def MAX_BODY_BYTES : ℕ := 2*1024*1024
def MAX_REDIRECTS : ℕ := 5

/-- The bounds of a reading; `allowLoopback` is for local test servers. -/
structure FetchPolicy where
  maxBytes : ℕ
  allowLoopback : Bool

def FetchPolicy.default : FetchPolicy := ⟨MAX_BODY_BYTES,false⟩

def FetchPolicy.allows (policy : FetchPolicy) (ip : IpAddr) : Bool :=
  (policy.allowLoopback && ip.isLoopback) || !ipIsForbidden ip

/-- What the code reads of a parsed URL. -/
structure Url where
  scheme : String
  username : String
  password : Option String
  host : Option String
  text : String
  deriving DecidableEq, Repr

structure SocketAddr where
  ip : IpAddr
  port : ℕ
  deriving DecidableEq, Repr

/-- An error of the HTTP client, with the texts of its chain of causes. -/
structure ClientError where
  chain : List String
  timeout : Bool
  connect : Bool

structure Response where
  status : ℕ
  location : Option String
  contentType : Option String
  contentLength : Option ℕ
  chunks : List (Except ClientError (List UInt8))

/-- One request: the answers that the resolver got for the host, the addresses
that the client contacted, and what came back. -/
structure Exchange where
  answers : List (Option (List SocketAddr))
  contacted : List IpAddr
  result : Except ClientError Response

structure Web where
  parse : String → Option Url
  join : Url → String → Option Url
  exchange : ℕ → Url → Exchange
  /-- The number of requests sent when the time allowed runs out. -/
  timedOut : Option ℕ

/-! ## URLs -/

def BLOCKED_MESSAGE : String :=
  "Adresse interne refusée : seules les pages publiques sont surveillées."

def trimStartMatches (c : Char) (cs : List Char) : List Char := cs.dropWhile (· = c)

def trimEndMatches (c : Char) (cs : List Char) : List Char := (cs.reverse.dropWhile (· = c)).reverse

/-- A host without the brackets of an IPv6 address. -/
def bare (host : List Char) : List Char := trimEndMatches ']' (trimStartMatches '[' host)

def isLocal (host : List Char) : Bool :=
  host = "localhost".toList || ".localhost".toList.isSuffixOf host

/-- The checks of `validate_url` on the host. -/
def validateHost (policy : FetchPolicy) (host : List Char) : Except String Unit :=
  if host = [] then .error "Adresse sans domaine."
  else match parseIpAddr (String.ofList host) with
    | some ip => if !policy.allows ip then .error BLOCKED_MESSAGE else .ok ()
    | none =>
      let d := trimEndMatches '.' host
      if (isLocal d && !policy.allowLoopback) || d = [] then .error BLOCKED_MESSAGE else .ok ()

def validateUrl (web : Web) (raw : String) (policy : FetchPolicy) : Except String Url :=
  let raw := trim raw
  if raw = "" then .error "Indique l'adresse de la page."
  else if 2048 < raw.utf8ByteSize then .error "Adresse trop longue."
  else match web.parse raw with
    | none => .error "Adresse invalide (ex. https://exemple.fr/page)."
    | some url =>
      if url.scheme ≠ "http" ∧ url.scheme ≠ "https" then
        .error "Seules les adresses http et https sont acceptées."
      else if url.username ≠ "" ∨ url.password.isSome then
        .error "Pas d'identifiants dans l'adresse : seules les pages publiques sont surveillées."
      else match validateHost policy (bare (toLowercase (url.host.getD "")).toList) with
        | .error m => .error m
        | .ok _ => .ok url

/-- The address written in the URL, for which no name is resolved. -/
def literalIp (url : Url) : Option IpAddr :=
  url.host.bind (fun h => parseIpAddr (String.ofList (bare h.toList)))

/-! ## The resolver -/

def resolvePublic (host : String) (answer : Option (List SocketAddr)) (policy : FetchPolicy) :
    Except String (List SocketAddr) :=
  match answer with
  | none => .error ("Domaine introuvable : "++host)
  | some addrs =>
    if addrs = [] then .error ("Domaine introuvable : "++host)
    else if addrs.any (fun a => !policy.allows a.ip) then .error BLOCKED_MESSAGE
    else .ok addrs

/-- The client contacts only the address of the URL or resolved addresses. -/
def Guarded (web : Web) (policy : FetchPolicy) : Prop :=
  ∀ hop url, ∀ ip ∈ (web.exchange hop url).contacted, literalIp url = some ip ∨
    ∃ answer ∈ (web.exchange hop url).answers, ∃ addrs,
      resolvePublic (url.host.getD "") answer policy = .ok addrs ∧ ∃ a ∈ addrs, a.ip = ip

/-! ## The reading -/

structure Fetched where
  status : ℕ
  finalUrl : String
  /-- The bytes, before their lossy decoding. -/
  body : List UInt8
  deriving DecidableEq

structure FetchError where
  message : String
  httpStatus : Option ℕ
  blocked : Bool
  deriving DecidableEq

def FetchError.msg (m : String) : FetchError := ⟨m,none,false⟩

def FetchError.blockedAddress : FetchError := ⟨BLOCKED_MESSAGE,none,true⟩

def FetchError.refused (m : String) : FetchError := ⟨m,none,m = BLOCKED_MESSAGE⟩

def mapReqwest (e : ClientError) : FetchError :=
  if e.chain.any (fun t => contains t BLOCKED_MESSAGE) then .blockedAddress
  else if e.timeout then .msg "La page met trop de temps à répondre."
  else if e.connect then
    if contains (String.intercalate " : " e.chain) "Domaine introuvable" then
      .msg "Domaine introuvable."
    else .msg "Connexion impossible à la page."
  else .msg "Lecture de la page impossible."

def contentTypeOk (ct : String) : Bool :=
  let ct := toLowercase ct
  ct = "" || "text/".toList.isPrefixOf ct.toList || contains ct "html" || contains ct "xml" ||
    contains ct "json"

def tooBig (status : ℕ) (policy : FetchPolicy) : FetchError :=
  ⟨"Page trop lourde (plus de "++toString (max (policy.maxBytes/(1024*1024)) 1)++" Mo).",
    some status,false⟩

def readBody (status : ℕ) (policy : FetchPolicy) :
    List (Except ClientError (List UInt8)) → List UInt8 → Except FetchError (List UInt8)
  | [], buf => .ok buf
  | .error e::_, _ => .error (mapReqwest e)
  | .ok chunk::chunks, buf =>
    if policy.maxBytes < buf.length+chunk.length then .error (tooBig status policy)
    else readBody status policy chunks (buf++chunk)

def isRedirection (status : ℕ) : Bool := 300 ≤ status && status < 400

def isSuccess (status : ℕ) : Bool := 200 ≤ status && status < 300

/-- Where a redirect leads, once validated. -/
def redirect (web : Web) (policy : FetchPolicy) (url : Url) (resp : Response) :
    Except FetchError Url :=
  match resp.location with
  | none => .error (.msg "Redirection sans destination.")
  | some loc => match web.join url loc with
    | none => .error (.msg "Redirection invalide.")
    | some next => match validateUrl web next.text policy with
      | .error m => .error (.refused m)
      | .ok url => .ok url

/-- A response that is not a redirect ends the reading. -/
def readPage (policy : FetchPolicy) (url : Url) (resp : Response) : Except FetchError Fetched :=
  if !isSuccess resp.status then
    .error ⟨"La page répond "++toString resp.status++".",some resp.status,false⟩
  else if !contentTypeOk (resp.contentType.getD "") then
    .error ⟨"Ce n'est pas une page web (image, PDF…).",some resp.status,false⟩
  else if resp.contentLength.any (policy.maxBytes < ·) then .error (tooBig resp.status policy)
  else match readBody resp.status policy resp.chunks [] with
    | .error e => .error e
    | .ok body => .ok ⟨resp.status,url.text,body⟩

abbrev Requests := List (Url × List IpAddr)

/-- The loop of `fetch_inner`, with the number of turns left. -/
def hops (web : Web) (policy : FetchPolicy) : ℕ → ℕ → Url → Requests × Except FetchError Fetched
  | 0, _, _ => ([],.error (.msg "Trop de redirections."))
  | n+1, hop, url =>
    let exchange := web.exchange hop url
    let request := (url,exchange.contacted)
    match exchange.result with
    | .error e => ([request],.error (mapReqwest e))
    | .ok resp =>
      if isRedirection resp.status then
        match redirect web policy url resp with
        | .error e => ([request],.error e)
        | .ok next =>
          let (requests,result) := hops web policy n (hop+1) next
          (request::requests,result)
      else ([request],readPage policy url resp)

def fetchInner (web : Web) (rawUrl : String) (policy : FetchPolicy) :
    Requests × Except FetchError Fetched :=
  match validateUrl web rawUrl policy with
  | .error m => ([],.error (.refused m))
  | .ok url => hops web policy (MAX_REDIRECTS+1) 0 url

/-- The requests sent and the result. -/
def fetch (web : Web) (rawUrl : String) (policy : FetchPolicy) :
    Requests × Except FetchError Fetched :=
  let (requests,result) := fetchInner web rawUrl policy
  match web.timedOut with
  | none => (requests,result)
  | some n => (requests.take n,.error (.msg "La page met trop de temps à répondre."))

/-! ## Containment -/

theorem toNat_toLower (c : Char) :
    c.toLower.toNat = if 65 ≤ c.toNat ∧ c.toNat ≤ 90 then c.toNat+32 else c.toNat := by
  have hiff : (c.val ≥ 'A'.val ∧ c.val ≤ 'Z'.val) ↔ 65 ≤ c.toNat ∧ c.toNat ≤ 90 := by
    rw [ge_iff_le, UInt32.le_iff_toNat_le, UInt32.le_iff_toNat_le]
    rfl
  by_cases h : 65 ≤ c.toNat ∧ c.toNat ≤ 90
  · rw [if_pos h]
    have hl : c.toLower.val = c.val+32 := congrArg Char.val (dif_pos (hiff.mpr h))
    show c.toLower.val.toNat = c.toNat+32
    rw [hl, UInt32.toNat_add]
    show (c.toNat+32)%2^32 = c.toNat+32
    omega
  · rw [if_neg h]
    exact congrArg Char.toNat (dif_neg (fun hc => h (hiff.mp hc)))

theorem toNat_ofNat (n : ℕ) (h : n < 0xd800) : (Char.ofNat n).toNat = n := by
  have hv : n.isValidChar := Or.inl h
  rw [Char.ofNat, dif_pos hv]
  rfl

theorem lowerChar_cases (c : Char) :
    (lowerChar c).toNat = c.toNat+32 ∧ 65 ≤ c.toNat ∧ c.toNat ≤ 90 ∨
    lowerChar c = c ∨ 0xC0 ≤ c.toNat ∧ 103 ≤ (lowerChar c).toNat := by
  have hl := toNat_toLower c
  by_cases hk : c.toNat = 0x212A
  · right; right
    have : lowerChar c = 'k' := by simp only [lowerChar, hk, if_true]
    rw [this, hk]
    decide
  by_cases hr : 0xC0 ≤ c.toNat ∧ c.toNat ≤ 0xDE ∧ c.toNat ≠ 0xD7
  · right; right
    have : lowerChar c = Char.ofNat (c.toNat+0x20) := by
      simp only [lowerChar, hk, if_false]
      rw [if_pos (by simpa [and_assoc] using hr)]
    rw [this, toNat_ofNat _ (by omega)]
    omega
  have hlow : lowerChar c = c.toLower := by
    simp only [lowerChar, hk, if_false]
    rw [if_neg (by simpa [and_assoc] using hr)]
  rw [hlow]
  by_cases hu : 65 ≤ c.toNat ∧ c.toNat ≤ 90
  · left
    rw [hl, if_pos hu]
    exact ⟨rfl,hu⟩
  · right; left
    apply Char.ext
    apply UInt32.toNat_inj.mp
    rw [if_neg hu] at hl
    exact hl

theorem symOf_other (n : ℕ) (h : 103 ≤ n) : symOf n = .other := by
  have h1 : ¬ n ≤ 57 := by omega
  have h2 : ¬ n ≤ 70 := by omega
  have h3 : ¬ n ≤ 102 := by omega
  have h4 : n ≠ 46 := by omega
  have h5 : n ≠ 58 := by omega
  simp [symOf, h1, h2, h3, h4, h5]

theorem symOf_upper : ∀ n ≤ 90, 65 ≤ n → symOf (n+32) = symOf n := by decide

theorem sym_lowerChar (c : Char) : sym (lowerChar c) = sym c := by
  rcases lowerChar_cases c with ⟨h,hl,hu⟩ | h | ⟨hl,hu⟩
  · rw [sym, h]
    exact symOf_upper c.toNat hu hl
  · rw [h]
  · rw [sym, sym, symOf_other _ hu, symOf_other c.toNat (by omega)]

theorem lowerChar_bracket (c b : Char) (hb : b.toNat = 91 ∨ b.toNat = 93) :
    lowerChar c = b ↔ c = b := by
  have heq : ∀ x y : Char, x = y ↔ x.toNat = y.toNat :=
    fun x y => ⟨congrArg Char.toNat,fun h => Char.ext (UInt32.toNat_inj.mp h)⟩
  rw [heq, heq]
  rcases lowerChar_cases c with ⟨h,hl,hu⟩ | h | ⟨hl,hu⟩
  · omega
  · rw [h]
  · omega

theorem dropWhile_lowerChar (b : Char) (hb : b.toNat = 91 ∨ b.toNat = 93) (cs : List Char) :
    (cs.map lowerChar).dropWhile (· = b) = (cs.dropWhile (· = b)).map lowerChar := by
  induction cs with
  | nil => rfl
  | cons c cs ih =>
    by_cases hc : c = b
    · subst hc
      have hl := (lowerChar_bracket c c hb).mpr rfl
      simp [hl, ih]
    · have hn : ¬ lowerChar c = b := fun h => hc ((lowerChar_bracket c b hb).mp h)
      simp [hc, hn]

theorem bare_lowerChar (host : List Char) : bare (host.map lowerChar) = (bare host).map lowerChar := by
  simp only [bare, trimStartMatches, trimEndMatches]
  rw [dropWhile_lowerChar _ (Or.inl rfl), ← List.map_reverse, dropWhile_lowerChar _ (Or.inr rfl),
    ← List.map_reverse]

theorem parse_bare_lower (host : String) :
    parseIpAddr (String.ofList (bare (toLowercase host).toList)) =
      parseIpAddr (String.ofList (bare host.toList)) := by
  have hs : ∀ cs : List Char, (cs.map lowerChar).map sym = cs.map sym := by
    intro cs
    rw [List.map_map]
    apply List.map_congr_left
    intro c _
    exact sym_lowerChar c
  simp only [parseIpAddr, toLowercase, String.toList_ofList, bare_lowerChar, hs]

/-- The literal addresses of a validated URL are allowed. -/
def Validated (policy : FetchPolicy) (url : Url) : Prop :=
  ∀ ip, literalIp url = some ip → policy.allows ip

theorem validateHost_ok (policy : FetchPolicy) (host : List Char) (ip : IpAddr)
    (h : validateHost policy host = .ok ()) (hip : parseIpAddr (String.ofList host) = some ip) :
    policy.allows ip := by
  by_contra hn
  unfold validateHost at h
  split at h
  · simp at h
  · rw [hip] at h
    simp [hn] at h

theorem validateUrl_ok (web : Web) (raw : String) (policy : FetchPolicy) (url : Url)
    (h : validateUrl web raw policy = .ok url) : Validated policy url := by
  simp only [validateUrl] at h
  split at h
  · simp at h
  split at h
  · simp at h
  split at h
  · simp at h
  split at h
  · simp at h
  split at h
  · simp at h
  split at h
  · simp at h
  · rename_i hv
    obtain rfl := Except.ok.inj h
    intro ip hip
    obtain ⟨host,hh,hp⟩ := Option.bind_eq_some_iff.mp hip
    rw [hh, Option.getD_some] at hv
    exact validateHost_ok policy _ ip hv ((parse_bare_lower host).trans hp)

theorem resolvePublic_ok (host : String) (answer : Option (List SocketAddr)) (policy : FetchPolicy)
    (addrs : List SocketAddr) (h : resolvePublic host answer policy = .ok addrs) (a : SocketAddr)
    (ha : a ∈ addrs) : policy.allows a.ip := by
  unfold resolvePublic at h
  split at h
  · simp at h
  split at h
  · simp at h
  split at h
  · simp at h
  · rename_i hany
    obtain rfl := Except.ok.inj h
    simp only [List.any_eq_true, Bool.not_eq_true', not_exists, not_and, Bool.not_eq_false] at hany
    exact hany a ha

theorem exchange_allowed (web : Web) (policy : FetchPolicy) (hg : Guarded web policy) (hop : ℕ)
    (url : Url) (hv : Validated policy url) :
    ∀ ip ∈ (web.exchange hop url).contacted, policy.allows ip := by
  intro ip hip
  rcases hg hop url ip hip with hl | ⟨answer,_,addrs,hr,a,ha,rfl⟩
  · exact hv ip hl
  · exact resolvePublic_ok _ answer policy addrs hr a ha

theorem redirect_ok (web : Web) (policy : FetchPolicy) (url next : Url) (resp : Response)
    (h : redirect web policy url resp = .ok next) : Validated policy next := by
  unfold redirect at h
  split at h
  · simp at h
  split at h
  · simp at h
  split at h
  · simp at h
  · rename_i hv
    obtain rfl := Except.ok.inj h
    exact validateUrl_ok web _ policy _ hv

/-- Whatever turns are left, the requests go to allowed addresses. -/
theorem hops_allowed (web : Web) (policy : FetchPolicy) (hg : Guarded web policy) (n hop : ℕ)
    (url : Url) (hv : Validated policy url) :
    (hops web policy n hop url).1.length ≤ n ∧
    ∀ request ∈ (hops web policy n hop url).1, ∀ ip ∈ request.2, policy.allows ip := by
  induction n generalizing hop url with
  | zero => simp [hops]
  | succ n ih =>
    have hfirst := exchange_allowed web policy hg hop url hv
    simp only [hops]
    split
    · exact ⟨by simp,by simpa using hfirst⟩
    split
    · split
      · exact ⟨by simp,by simpa using hfirst⟩
      · rename_i next hr
        obtain ⟨hlen,hall⟩ := ih (hop+1) next (redirect_ok web policy url next _ hr)
        refine ⟨Nat.succ_le_succ hlen,?_⟩
        intro request hm
        rcases List.mem_cons.mp hm with rfl | hm
        · exact hfirst
        · exact hall request hm
    · exact ⟨by simp,by simpa using hfirst⟩

theorem fetch_allowed (web : Web) (rawUrl : String) (policy : FetchPolicy)
    (hg : Guarded web policy) :
    (fetch web rawUrl policy).1.length ≤ MAX_REDIRECTS+1 ∧
    ∀ request ∈ (fetch web rawUrl policy).1, ∀ ip ∈ request.2, policy.allows ip := by
  have hinner : (fetchInner web rawUrl policy).1.length ≤ MAX_REDIRECTS+1 ∧
      ∀ request ∈ (fetchInner web rawUrl policy).1, ∀ ip ∈ request.2, policy.allows ip := by
    unfold fetchInner
    split
    · simp
    · rename_i url hv
      exact hops_allowed web policy hg _ 0 url (validateUrl_ok web rawUrl policy url hv)
  simp only [fetch]
  split
  · exact hinner
  · rename_i n _
    refine ⟨le_trans (List.length_take_le' n _) hinner.1,?_⟩
    intro request hm
    exact hinner.2 request (List.mem_of_mem_take hm)

/-- No request of a reading goes to a forbidden address, at most five redirects
are followed, and the internal addresses are forbidden in every form. -/
theorem fetch_contained (web : Web) (rawUrl : String) (hg : Guarded web .default) :
    (∀ request ∈ (fetch web rawUrl .default).1, ∀ ip ∈ request.2, ipIsForbidden ip = false) ∧
    (fetch web rawUrl .default).1.length ≤ MAX_REDIRECTS+1 ∧
    (∀ v4, internal4 v4 → ipIsForbidden (.v4 v4) ∧
      ∀ v6, Embeds v4 v6 → ipIsForbidden (.v6 v6)) ∧
    ∀ v6, internal6 v6 → ipIsForbidden (.v6 v6) := by
  obtain ⟨hlen,hall⟩ := fetch_allowed web rawUrl .default hg
  refine ⟨?_,hlen,?_,fun v6 h => forbidden6_of_internal v6 h⟩
  · intro request hm ip hip
    simpa [FetchPolicy.allows, FetchPolicy.default] using hall request hm ip hip
  · intro v4 h
    have hf := forbidden4_of_internal v4 h
    exact ⟨hf,fun v6 he => forbidden_embeds v4 v6 hf he⟩

/-- A page that redirects once, to an address of its own. -/
def page : Url := ⟨"https","",none,some "exemple.fr","https://exemple.fr/"⟩

def mirror : Url := ⟨"http","",none,some "[2606:2800::1]","http://[2606:2800::1]/"⟩

def redirected : Web where
  parse raw := if raw = page.text then some page else if raw = mirror.text then some mirror else none
  join _ loc := if loc = mirror.text then some mirror else none
  exchange _ url :=
    if url = page then
      ⟨[some [⟨.v4 ⟨93,184,216,34⟩,0⟩]],[.v4 ⟨93,184,216,34⟩],
        .ok ⟨301,some mirror.text,none,none,[]⟩⟩
    else
      ⟨[],(literalIp url).toList,.ok ⟨200,none,some "text/html",none,[.ok [104,105]]⟩⟩
  timedOut := none

theorem redirected_guarded : Guarded redirected .default := by
  intro hop url ip hip
  by_cases h : url = page
  · subst h
    obtain rfl : ip = .v4 ⟨93,184,216,34⟩ := by simpa [redirected] using hip
    exact Or.inr ⟨some [⟨.v4 ⟨93,184,216,34⟩,0⟩],by simp [redirected],_,rfl,_,
      List.mem_singleton.mpr rfl,rfl⟩
  · left
    simpa [redirected, h] using hip

theorem redirected_contained :
    (∀ request ∈ (fetch redirected page.text .default).1, ∀ ip ∈ request.2,
      ipIsForbidden ip = false) ∧
    (fetch redirected page.text .default).1.length ≤ MAX_REDIRECTS+1 ∧
    (∀ v4, internal4 v4 → ipIsForbidden (.v4 v4) ∧
      ∀ v6, Embeds v4 v6 → ipIsForbidden (.v6 v6)) ∧
    ∀ v6, internal6 v6 → ipIsForbidden (.v6 v6) :=
  fetch_contained redirected page.text redirected_guarded

end DevForge.PageFetch
