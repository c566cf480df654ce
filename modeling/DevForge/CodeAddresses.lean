import DevForge.RedirectUris
import DevForge.Transition
import Mathlib.Tactic.SplitIfs

/-!
# Where authorization codes go

An address that is accepted for a registered client or by the rule of the
origin is an allowed one. The addresses of a metadata document are taken as
they stand, and a loopback address is compared by host and path only.
-/

set_option autoImplicit false

namespace DevForge.CodeAddresses
open RedirectUris Transition

section
variable (parse : String → Option Url)

/-- The origin of a URL is a URL on the same host. -/
def OriginHost : Prop := ∀ uri u host base, parse uri = some u → u.host = some host →
  parse (originText u host) = some base → base.host.map toAsciiLowercase = some (toAsciiLowercase host)

def IsLoopback (u : Url) : Prop := u.scheme = "http" ∧ ∃ host, u.host = some host ∧ isLoopbackHost host

/-- A registered loopback address and this one are the same but for the port. -/
def PortOnly (registered : List String) (uri : String) : Prop :=
  ∃ u, parse uri = some u ∧ IsLoopback u ∧
    ∃ reg ∈ registered, ∃ r, parse reg = some r ∧ { r with port := u.port } = u

/-- An https address on the host of the client, or on a subdomain of it. -/
def OnOwnHost (clientId uri : String) : Prop :=
  ∃ u host own clientHost, parse uri = some u ∧ u.scheme = "https" ∧ u.host = some host ∧
    parse clientId = some own ∧ own.host = some clientHost ∧
    (toAsciiLowercase host = toAsciiLowercase clientHost ∨
      endsWith (toAsciiLowercase host) ("."++toAsciiLowercase clientHost))

/-- No script, no file, and no plain http to another machine. -/
def Harmless (uri : String) : Prop :=
  ∃ u, parse uri = some u ∧ u.scheme ∉ ["javascript","data","file","vbscript","blob","about"] ∧
    (u.scheme = "http" → IsLoopback u)

def ProperAddress (client : ClientInfo) (uri : String) : Prop :=
  redirectUriAllowed parse uri = true ∧
    (uri ∈ client.redirectUris ∨ PortOnly parse client.redirectUris uri ∨ OnOwnHost parse client.clientId uri) ∧
    Harmless parse uri

/-- The client and the address that a request was accepted with. -/
def accepted (clients : Table String ClientRow) (doc : Option Document) (q : AuthorizeQuery) :
    Option (ClientInfo × String) :=
  match resolveClient parse clients doc (q.clientId.getD "") with
  | .error _ => none
  | .ok client =>
    match askedUri q client with
    | none => none
    | some uri => if redirectMatches parse client uri then some (client,uri) else none

/-- An address of a document is an allowed one, and a loopback address that matches without
being registered has no fragment and is a registered one but for the port. -/
def Filtered (client : ClientInfo) (uri : String) : Prop :=
  if uri ∈ client.redirectUris then
    "https://".toList.isPrefixOf client.clientId.toList = true → redirectUriAllowed parse uri = true
  else loopbackMatches parse client.redirectUris uri = true →
    (∀ u ∈ parse uri, u.fragment = none) ∧
      ∃ u ∈ parse uri, ∃ reg ∈ client.redirectUris, ∃ r ∈ parse reg, { r with port := u.port } = u

/-! ## Allowed addresses -/

variable {parse}

theorem harmless_of_allowed {uri : String} (h : redirectUriAllowed parse uri = true) :
    Harmless parse uri := by
  unfold redirectUriAllowed at h
  cases hp : parse uri with
  | none => simp [hp] at h
  | some u =>
    simp only [hp] at h
    split at h
    · simp at h
    split at h
    · rename_i hs
      exact ⟨u,hp,by rw [hs]; decide,fun he => absurd (hs.symm.trans he) (by decide)⟩
    split at h
    · rename_i hs
      refine ⟨u,hp,by rw [hs]; decide,fun _ => ⟨hs,?_⟩⟩
      cases hh : u.host with
      | none => simp [hh] at h
      | some host => exact ⟨host,rfl,by simpa [hh] using h⟩
    split at h
    · simp at h
    · rename_i hs hhttp hd
      refine ⟨u,hp,fun hm => hd ?_,fun he => absurd he hhttp⟩
      have hsub : ∀ s ∈ ["javascript","data","file","vbscript","blob","about"], s ∈ deniedSchemes := by
        decide
      exact hsub _ hm

theorem allowed_of_loopback {uri : String} {u : Url} (hp : parse uri = some u) (hl : IsLoopback u) :
    redirectUriAllowed parse uri = true ↔ u.fragment = none := by
  obtain ⟨hs,host,hh,hlo⟩ := hl
  unfold redirectUriAllowed
  simp only [hp, hs, hh]
  cases hf : u.fragment with
  | none => simp [hlo]
  | some f => simp

theorem loopbackMatches_iff {registered : List String} {uri : String} :
    loopbackMatches parse registered uri = true ↔ ∃ u, parse uri = some u ∧ IsLoopback u ∧
      ∃ reg ∈ registered, ∃ r, parse reg = some r ∧ r.scheme = "http" ∧ r.host = u.host ∧ r.path = u.path := by
  unfold loopbackMatches
  cases hp : parse uri with
  | none => simp
  | some u =>
    simp only [Bool.and_eq_true, decide_eq_true_eq, List.any_eq_true, Option.some.injEq,
      exists_eq_left']
    have hloop : (u.scheme = "http" ∧ (u.host.map isLoopbackHost).getD false = true) ↔ IsLoopback u := by
      cases hh : u.host <;> simp [IsLoopback, hh]
    rw [hloop]
    apply and_congr_right
    intro _
    apply exists_congr
    intro reg
    apply and_congr_right
    intro _
    cases parse reg with
    | none => simp
    | some r => simp [and_assoc]

theorem originMatches_own {clientId origin uri : String} (hlaw : OriginHost parse)
    (horigin : originOf parse clientId = some origin) (h : originMatches parse origin uri = true) :
    redirectUriAllowed parse uri = true ∧ OnOwnHost parse clientId uri := by
  unfold originOf at horigin
  cases hown : parse clientId with
  | none => simp [hown] at horigin
  | some own =>
    cases hch : own.host with
    | none => simp [hown, hch] at horigin
    | some clientHost =>
      obtain rfl : originText own clientHost = origin := by simpa [hown, hch] using horigin
      unfold originMatches at h
      cases hu : parse uri with
      | none => simp [hu] at h
      | some u =>
        cases hb : parse (originText own clientHost) with
        | none => simp [hu, hb] at h
        | some base =>
          simp only [hu, hb] at h
          split at h
          · simp at h
          · rename_i hschemes
            simp only [not_or, not_not] at hschemes
            obtain ⟨hs,-,hf⟩ := hschemes
            have hhost := hlaw clientId own clientHost base hown hch hb
            cases huh : u.host with
            | none => simp [huh] at h
            | some host =>
              cases hbh : base.host with
              | none => simp [hbh] at hhost
              | some baseHost =>
                rw [hbh, Option.map_some, Option.some.injEq] at hhost
                simp only [huh, hbh, hhost, Bool.and_eq_true, Bool.or_eq_true, decide_eq_true_eq] at h
                refine ⟨?_,u,host,own,clientHost,hu,hs,huh,hown,hch,h.2⟩
                have hnone : u.fragment.isSome = false := by simpa using hf
                simp [redirectUriAllowed, hu, hnone, hs, huh]

/-! ## The three kinds of clients -/

theorem clientFromUrlDoc_ok {clientId : String} {doc : Option Document} {client : ClientInfo}
    (h : clientFromUrlDoc parse clientId doc = .ok client) : client.clientId = clientId ∧
      (client.originRule = none ∨ client.redirectUris = [] ∧ client.originRule = originOf parse clientId) := by
  unfold clientFromUrlDoc at h
  split at h
  · simp at h
  · cases doc with
    | none =>
      obtain rfl := Except.ok.inj h
      exact ⟨rfl,Or.inr ⟨rfl,rfl⟩⟩
    | some d =>
      simp only at h
      split at h
      · simp at h
      split at h
      · obtain rfl := Except.ok.inj h
        exact ⟨rfl,Or.inl rfl⟩
      · obtain rfl := Except.ok.inj h
        exact ⟨rfl,Or.inr ⟨rfl,rfl⟩⟩

theorem resolveClient_ok {clients : Table String ClientRow} {doc : Option Document} {rawId : String}
    {client : ClientInfo} (h : resolveClient parse clients doc rawId = .ok client) :
    ("https://".toList.isPrefixOf client.clientId.toList = true ∧
      (client.originRule = none ∨
        client.redirectUris = [] ∧ client.originRule = originOf parse client.clientId)) ∨
    ∃ row, clients.get client.clientId = some row ∧ client.redirectUris = row.redirectUris ∧
      client.originRule = none := by
  unfold resolveClient at h
  simp only at h
  split at h
  · simp at h
  split at h
  · rename_i hhttps
    split at h
    · simp at h
    · split at h
      · simp at h
      · obtain ⟨hid,hrule⟩ := clientFromUrlDoc_ok h
        left
        rw [hid]
        exact ⟨hhttps,hrule⟩
  · split at h
    · simp at h
    · rename_i row hrow
      obtain rfl := Except.ok.inj h
      exact Or.inr ⟨row,hrow,rfl,rfl⟩

/-- What every row of the table of clients holds. -/
def Registered (parse : String → Option Url) (clients : Table String ClientRow) : Prop :=
  ∀ id row, clients.get id = some row → ∀ uri ∈ row.redirectUris, redirectUriAllowed parse uri = true

theorem registerClientCore_ok {body : Option ClientMetadata} {row : ClientRow}
    (h : registerClientCore parse body = .ok row) :
    ∀ uri ∈ row.redirectUris, redirectUriAllowed parse uri = true := by
  unfold registerClientCore at h
  split at h
  · simp at h
  · simp only at h
    split at h
    · simp at h
    split at h
    · simp at h
    · rename_i hnone
      split at h
      · simp at h
      · obtain rfl := Except.ok.inj h
        intro uri huri
        have := List.find?_eq_none.mp hnone uri huri
        simpa using this

theorem accepted_spec {clients : Table String ClientRow} {doc : Option Document} {q : AuthorizeQuery}
    {client : ClientInfo} {uri : String} (h : accepted parse clients doc q = some (client,uri)) :
    resolveClient parse clients doc (q.clientId.getD "") = .ok client ∧
      redirectMatches parse client uri = true := by
  unfold accepted at h
  split at h
  · simp at h
  · rename_i hres
    split at h
    · simp at h
    · split at h
      · rename_i hm
        obtain ⟨rfl,rfl⟩ := Prod.mk.inj (Option.some.inj h)
        exact ⟨hres,hm⟩
      · simp at h

theorem proper_iff_filtered (hlaw : OriginHost parse) {clients : Table String ClientRow}
    (hreg : Registered parse clients) {doc : Option Document} {q : AuthorizeQuery} {client : ClientInfo}
    {uri : String} (h : accepted parse clients doc q = some (client,uri)) :
    ProperAddress parse client uri ↔ Filtered parse client uri := by
  obtain ⟨hres,hmatch⟩ := accepted_spec h
  by_cases hexact : uri ∈ client.redirectUris
  · rw [Filtered, if_pos hexact]
    have hproper : ProperAddress parse client uri ↔ redirectUriAllowed parse uri = true :=
      ⟨fun h => h.1,fun h => ⟨h,Or.inl hexact,harmless_of_allowed h⟩⟩
    rw [hproper]
    rcases resolveClient_ok hres with ⟨hhttps,-⟩ | ⟨row,hrow,huris,-⟩
    · exact ⟨fun h _ => h,fun h => h hhttps⟩
    · rw [huris] at hexact
      have hallowed := hreg _ row hrow uri hexact
      simp [hallowed]
  · rw [Filtered, if_neg hexact]
    unfold redirectMatches at hmatch
    rw [if_neg hexact] at hmatch
    by_cases hloop : loopbackMatches parse client.redirectUris uri = true
    · obtain ⟨u,hu,hl,-⟩ := loopbackMatches_iff.mp hloop
      have hhost : ¬OnOwnHost parse client.clientId uri := by
        rintro ⟨u',_,_,_,hu',hs,-⟩
        obtain rfl := Option.some.inj (hu.symm.trans hu')
        rw [hl.1] at hs
        exact absurd hs (by decide)
      have hallowed := allowed_of_loopback hu hl
      simp only [hloop, forall_const]
      constructor
      · rintro ⟨ha,hmem,-⟩
        obtain ⟨u',hu',-,reg,hregm,r,hr,he⟩ := (hmem.resolve_left hexact).resolve_right hhost
        obtain rfl := Option.some.inj (hu.symm.trans hu')
        refine ⟨fun v hv => ?_,u,hu,reg,hregm,r,hr,he⟩
        obtain rfl := Option.some.inj (hu.symm.trans hv)
        exact hallowed.mp ha
      · rintro ⟨hfrag,u',hu',reg,hregm,r,hr,he⟩
        obtain rfl := Option.some.inj (hu.symm.trans hu')
        have ha := hallowed.mpr (hfrag u hu)
        exact ⟨ha,Or.inr (Or.inl ⟨u,hu,hl,reg,hregm,r,hr,he⟩),harmless_of_allowed ha⟩
    · rw [if_neg hloop] at hmatch
      simp only [hloop, Bool.false_eq_true, false_imp_iff, iff_true]
      cases hrule : client.originRule with
      | none => simp [hrule] at hmatch
      | some origin =>
        simp only [hrule] at hmatch
        rcases resolveClient_ok hres with ⟨-,hnone | ⟨-,horigin⟩⟩ | ⟨-,-,-,hnone⟩
        · rw [hnone] at hrule
          simp at hrule
        · rw [hrule] at horigin
          obtain ⟨ha,hown⟩ := originMatches_own hlaw horigin.symm hmatch
          exact ⟨ha,Or.inr (Or.inr hown),harmless_of_allowed ha⟩
        · rw [hnone] at hrule
          simp at hrule

/-! ## From the request to the code -/

theorem checkQuery_consent {base : String} {now : ℕ} {q : AuthorizeQuery} {client : ClientInfo}
    {uri : String} {row : RequestRow} (h : checkQuery base now q client uri = .consent row) :
    row.redirectUri = uri := by
  unfold checkQuery at h
  simp only at h
  split at h
  · simp at h
  split at h
  · simp at h
  split at h
  · simp at h
  split at h
  · simp at h
  · rw [← Reply.consent.inj h]

/-- A request that is put to the user was accepted with its address. -/
theorem authorize_consent {clients : Table String ClientRow} {doc : Option Document} {base : String}
    {now : ℕ} {q : AuthorizeQuery} {row : RequestRow}
    (h : authorize parse clients doc base now q = .consent row) :
    ∃ client, accepted parse clients doc q = some (client,row.redirectUri) := by
  unfold authorize at h
  split at h
  · simp at h
  · rename_i client hres
    split at h
    · simp at h
    · rename_i uri huri
      split at h
      · simp at h
      · rename_i hm
        rw [not_not] at hm
        refine ⟨client,?_⟩
        rw [checkQuery_consent h]
        simp [accepted, hres, huri, hm]

def FilteredStep (parse : String → Option Url) (s : State) : Action → Prop
  | .authorize _ _ _ doc q => ∀ x ∈ accepted parse s.clients doc q, Filtered parse x.1 x.2
  | _ => True

structure Inv (parse : String → Option Url) (s : State) : Prop where
  requests : ∀ id row, s.requests.get id = some row → redirectUriAllowed parse row.redirectUri = true
  sent : ∀ x ∈ s.sent, redirectUriAllowed parse x.2 = true

theorem step_registered (s : State) (a : Action) (h : Registered parse s.clients) :
    Registered parse (step parse s a).clients := by
  cases a with
  | register id body =>
    simp only [step]
    split
    · rename_i row hrow
      intro id' row' hrow'
      rw [Table.get_insert] at hrow'
      split at hrow'
      · obtain rfl := Option.some.inj hrow'
        exact registerClientCore_ok hrow
      · exact h id' row' hrow'
    · exact h
  | authorize id base now doc q =>
    simp only [step]
    split <;> exact h
  | approve id code now =>
    simp only [step, approveRequest]
    split <;> exact h
  | deny id => exact h

theorem get_of_get_delete {κ ρ : Type*} [DecidableEq κ] {t : Table κ ρ} {p : κ → ρ → Bool} {k : κ} {r : ρ}
    (h : (t.delete p).get k = some r) : t.get k = some r := by
  rw [Table.get_delete] at h
  exact (Option.filter_eq_some_iff.mp h).1

theorem step_inv (hlaw : OriginHost parse) (s : State) (a : Action) (hreg : Registered parse s.clients)
    (hs : Inv parse s) (hok : FilteredStep parse s a) : Inv parse (step parse s a) := by
  cases a with
  | register id body =>
    simp only [step]
    split
    · exact ⟨hs.requests,hs.sent⟩
    · exact hs
  | authorize id base now doc q =>
    simp only [step]
    split
    · rename_i row hrow
      obtain ⟨client,hacc⟩ := authorize_consent hrow
      have hproper := (proper_iff_filtered hlaw hreg hacc).mpr (hok _ hacc)
      refine ⟨fun id' row' hrow' => ?_,hs.sent⟩
      simp only [Table.get_insert] at hrow'
      split at hrow'
      · obtain rfl := Option.some.inj hrow'
        exact hproper.1
      · exact hs.requests id' row' (get_of_get_delete hrow')
    · exact hs
  | approve id code now =>
    simp only [step, approveRequest]
    split
    · exact hs
    · rename_i row hrow
      have hget := (Option.filter_eq_some_iff.mp hrow).1
      refine ⟨fun id' row' hrow' => hs.requests id' row' (get_of_get_delete hrow'),?_⟩
      intro x hx
      rcases List.mem_cons.mp hx with rfl | hx
      · exact hs.requests id row hget
      · exact hs.sent x hx
  | deny id => exact ⟨fun id' row' hrow' => hs.requests id' row' (get_of_get_delete hrow'),hs.sent⟩

theorem run_registered (acts : List Action) :
    Registered parse (run (step parse) acts RedirectUris.start).clients := by
  apply invariant (step parse) (fun s => Registered parse s.clients)
  · exact step_registered
  · intro id row h
    simp [RedirectUris.start] at h

/-- An accepted address is a proper one exactly where it is filtered, for every client there
can be; where every accepted address is, codes go to allowed and harmless addresses only. -/
theorem codes_to_allowed_addresses (hlaw : OriginHost parse) :
    (∀ acts doc q client uri,
      accepted parse (run (step parse) acts RedirectUris.start).clients doc q = some (client,uri) →
      (ProperAddress parse client uri ↔ Filtered parse client uri)) ∧
    ∀ acts, Guarded (step parse) (FilteredStep parse) acts RedirectUris.start →
      ∀ x ∈ (run (step parse) acts RedirectUris.start).sent,
        redirectUriAllowed parse x.2 = true ∧ Harmless parse x.2 := by
  constructor
  · intro acts doc q client uri h
    exact proper_iff_filtered hlaw (run_registered acts) h
  · intro acts hg x hx
    have hinv := guarded_invariant (step parse) (FilteredStep parse)
      (fun s => Registered parse s.clients ∧ Inv parse s)
      (fun s a hs hok => ⟨step_registered s a hs.1,step_inv hlaw s a hs.1 hs.2 hok⟩) acts
      RedirectUris.start ⟨run_registered [],⟨by simp [RedirectUris.start],by simp [RedirectUris.start]⟩⟩ hg
    have hallowed := hinv.2.sent x hx
    exact ⟨hallowed,harmless_of_allowed hallowed⟩

end

/-! ## A document with an address in plain http -/

def clientUrl : String := "https://client.example/oauth/metadata.json"

def callback : String := "https://client.example/callback"

def plainHttp : String := "http://evil.example/cb"

/-- What the parser gives for these addresses and their origins. -/
def parseUrl (uri : String) : Option Url :=
  if uri = clientUrl then
    some ⟨"https","",none,some "client.example",none,"/oauth/metadata.json",none,none⟩
  else if uri = callback then some ⟨"https","",none,some "client.example",none,"/callback",none,none⟩
  else if uri = "https://client.example" then
    some ⟨"https","",none,some "client.example",none,"/",none,none⟩
  else if uri = plainHttp then some ⟨"http","",none,some "evil.example",none,"/cb",none,none⟩
  else if uri = "http://evil.example" then
    some ⟨"http","",none,some "evil.example",none,"/",none,none⟩
  else none

theorem parseUrl_originHost : OriginHost parseUrl := by
  intro uri u host base hu hh hb
  unfold parseUrl at hu
  split_ifs at hu
  all_goals
    obtain rfl := Option.some.inj hu
    obtain rfl := Option.some.inj hh
    revert base
    decide +kernel

def document (uri : String) : Document := ⟨some clientUrl,[uri],some "Exemple"⟩

def query (uri : String) : AuthorizeQuery where
  responseType := some "code"
  clientId := some clientUrl
  redirectUri := some uri
  codeChallenge := some "7w_YNF9DSfIdPf_pRjSq646_kPr-2-o9NAl16JGghdM"
  codeChallengeMethod := some "S256"
  state := none
  scope := none
  resource := none

/-- The request, and the consent of the user. -/
def consent (uri : String) : List Action :=
  [.authorize "r1" "https://devforge.example" 0 (some (document uri)) (query uri),.approve "r1" "dfoc_1" 1]

/-- The code goes to an address in plain http, because the document lists it. -/
theorem code_sent_in_plain_http :
    ¬(∀ acts doc q client uri,
      accepted parseUrl (run (step parseUrl) acts RedirectUris.start).clients doc q = some (client,uri) →
      ProperAddress parseUrl client uri) ∧
    (run (step parseUrl) (consent plainHttp) RedirectUris.start).sent = [("dfoc_1",plainHttp)] := by
  constructor
  · intro h
    have hproper := h [] (some (document plainHttp)) (query plainHttp)
      ⟨clientUrl,"Exemple",[plainHttp],none⟩ plainHttp (by decide +kernel)
    have hallowed := hproper.1
    revert hallowed
    decide +kernel
  · decide +kernel

theorem codes_to_allowed_addresses_callback :
    redirectUriAllowed parseUrl callback = true ∧ Harmless parseUrl callback := by
  apply (codes_to_allowed_addresses parseUrl_originHost).2 (consent callback) ?_ ("dfoc_1",callback)
    (by decide +kernel)
  refine ⟨?_,trivial,trivial⟩
  intro x hx
  obtain rfl : (⟨clientUrl,"Exemple",[callback],none⟩,callback) = x := Option.some.inj
    ((show accepted parseUrl RedirectUris.start.clients (some (document callback)) (query callback) =
      some (⟨clientUrl,"Exemple",[callback],none⟩,callback) by decide +kernel).symm.trans hx)
  rw [Filtered, if_pos (by decide +kernel)]
  decide +kernel

end DevForge.CodeAddresses
