import DevForge.RecreateArgs
import DevForge.SeparatedParts

/-!
# What a recreation keeps

Which configurations come back from the arguments that they are turned into. A protocol, a network,
a volume or a mount beside the binds is lost where the loop over them leaves it out.
-/

set_option autoImplicit false

namespace DevForge.RecreateKeeps
open RecreateArgs LastWins
open Dotenv (splitOnce)
open ComposePorts (rsplitOnce rsplitOnce_append rsplitOnce_none)
open ToolArguments (digits digits_toString)
open WakeGate (Json)

/-! ## Reading options -/

theorem readOpts_flag {α : Type*} {f : String} {read : String → Option α} (opt : α → Opt)
    (hopt : ∀ v, readOpt f v = (read v).map opt) (vs rest : List String) :
    readOpts (flag f vs++rest) = if vs.all (fun v => (read v).isSome) then
      (readOpts rest).map (fun r => ((vs.filterMap read).map opt++r.1,r.2)) else none := by
  induction vs with
  | nil =>
    have hnil : flag f []++rest = rest := rfl
    rw [hnil, List.all_nil, if_pos rfl]
    cases readOpts rest <;> rfl
  | cons v vs ih =>
    have hcons : flag f (v::vs)++rest = f::v::(flag f vs++rest) := rfl
    rw [hcons, readOpts, hopt, ih]
    cases hv : read v with
    | none => simp [hv]
    | some a =>
      by_cases hall : vs.all (fun v => (read v).isSome) = true
      · rw [if_pos hall, List.all_cons, hv, hall]
        cases readOpts rest <;> simp [hv]
      · rw [if_neg hall, List.all_cons, hv]
        simp [hall]

theorem readOpts_all {α : Type*} {f : String} {read : String → Option α} (opt : α → Opt)
    (hopt : ∀ v, readOpt f v = (read v).map opt) {vs : List String} (hall : ∀ v ∈ vs, (read v).isSome = true)
    (rest : List String) :
    readOpts (flag f vs++rest) = (readOpts rest).map (fun r => ((vs.filterMap read).map opt++r.1,r.2)) := by
  rw [readOpts_flag opt hopt, if_pos (List.all_eq_true.mpr hall)]

section
variable (name image restart : String) (volumes : List String) {ports env labels : List String} (networks : List String)

def allArgs (volumes ports env labels networks : List String) : List String :=
  ["docker","run","-d"]++flag "--name" [name]++flag "--restart" (if restart ≠ "no" ∧ restart ≠ "" then [restart] else [])++
    flag "-v" volumes++flag "-p" ports++flag "-e" env++flag "--label" labels++flag "--network" networks++[image]

/-- What the arguments describe, where everything but the mounts can be read. -/
theorem dockerRun_allArgs (hports : ∀ v ∈ ports, (readPublish v).isSome = true)
    (henv : ∀ v ∈ env, (readPair v).isSome = true) (hlabels : ∀ v ∈ labels, (readPair v).isSome = true) :
    dockerRun (allArgs name image restart volumes ports env labels networks) =
      if volumes.all (fun v => (readVolume v).isSome) then
        some ⟨image,volumes.filterMap readVolume,ports.filterMap readPublish,env.filterMap readPair,
          labels.filterMap readPair,if networks = [] then ["bridge"] else networks⟩
      else none := by
  have hargs : (allArgs name image restart volumes ports env labels networks).drop 3 =
      flag "--name" [name]++(flag "--restart" (if restart ≠ "no" ∧ restart ≠ "" then [restart] else [])++
        (flag "-v" volumes++(flag "-p" ports++(flag "-e" env++(flag "--label" labels++(flag "--network" networks++
          [image])))))) := by
    simp [allArgs, flag]
  have hstart : (allArgs name image restart volumes ports env labels networks).take 3 = ["docker","run","-d"] := rfl
  have htext : ∀ {f : String} (opt : String → Opt), (∀ v, readOpt f v = (some v).map opt) → ∀ vs rest,
      readOpts (flag f vs++rest) = (readOpts rest).map (fun r => (vs.map opt++r.1,r.2)) := by
    intro f opt hopt vs rest
    rw [readOpts_all opt hopt (fun _ _ => rfl), List.filterMap_some]
  rw [dockerRun, if_pos hstart, hargs, htext .name (fun _ => rfl), htext .restart (fun _ => rfl),
    readOpts_flag .volume (fun _ => rfl), readOpts_all .publish (fun _ => rfl) hports,
    readOpts_all .env (fun _ => rfl) henv, readOpts_all .label (fun _ => rfl) hlabels,
    htext .network (fun _ => rfl), readOpts]
  by_cases hall : volumes.all (fun v => (readVolume v).isSome) = true
  · rw [if_pos hall, if_pos hall]
    simp [Config.of, networksOf, List.filterMap_cons, List.filterMap_append, List.filterMap_map, Opt.mount?, Opt.port?, Opt.env?, Opt.label?,
      Opt.network?, Function.comp_def]
  · rw [if_neg hall, if_neg hall]
    rfl

end

/-! ## Environment and labels -/

theorem toList_pair (key value : String) : (key++"="++value).toList = key.toList++ '='::value.toList := by
  rw [String.toList_append, String.toList_append, List.append_assoc]
  rfl

theorem readPair_pair {key : String} (h : '=' ∉ key.toList) (value : String) :
    readPair (key++"="++value) = some (key,value) := by
  rw [readPair, toList_pair, DotenvRoundTrip.splitOnce_assignment h, Option.map_some, String.ofList_toList,
    String.ofList_toList]

theorem readPair_isSome (key value : String) : (readPair (key++"="++value)).isSome = true := by
  rw [readPair, toList_pair, splitOnce, if_pos (by simp)]
  rfl

theorem readPair_key {entry : String} {kv : String × String} (h : readPair entry = some kv) : '=' ∉ kv.1.toList := by
  obtain ⟨x,hx,rfl⟩ := Option.map_eq_some_iff.mp h
  unfold splitOnce at hx
  split at hx
  · cases hx
    intro hmem
    rw [String.toList_ofList] at hmem
    have hne := List.mem_takeWhile_imp hmem
    simp at hne
  · cases hx

theorem version_plain : '=' ∉ VERSION.toList := by decide

/-- An entry of another key stays, and the version's is replaced. -/
theorem readPair_envSpec (target : String) (key : EnvKey) (value : String) :
    readPair (envSpec target (key.text++"="++value)) =
      some (if key.text = VERSION then (VERSION,target) else (key.text,value)) := by
  have hstart : (VERSION++"=").toList.isPrefixOf (key.text++"="++value).toList = true ↔ key.text = VERSION := by
    have hversion : (VERSION++"=").toList = VERSION.toList++['='] := by
      rw [String.toList_append]
      rfl
    rw [List.isPrefixOf_iff_prefix, toList_pair, hversion]
    constructor
    · rintro ⟨rest,hrest⟩
      rw [List.append_assoc, List.singleton_append] at hrest
      exact String.toList_injective (SeparatedParts.sep_append_inj '=' version_plain key.plain.2 hrest).1.symm
    · intro h
      rw [h]
      exact ⟨value.toList,by simp⟩
  rw [envSpec]
  by_cases h : key.text = VERSION
  · rw [if_pos (hstart.mpr h), if_pos h, readPair_pair version_plain]
  · rw [if_neg (mt hstart.mp h), if_neg h, readPair_pair key.plain.2]

section
variable (i : Inspect) (target : String)

theorem envSpecs_none (h : i.env = none) : envSpecs target (envJson i) = [VERSION++"="++target] := by
  rw [envJson, h]
  rfl

theorem envSpecs_some {es : List (EnvKey × String)} (h : i.env = some es) :
    envSpecs target (envJson i) = es.map (fun e => envSpec target (e.1.text++"="++e.2)) := by
  rw [envJson, h]
  simp [arrayOrNull, envSpecs, List.filterMap_map, Function.comp_def, Json.asStr]

theorem envSpecs_read : ∀ v ∈ envSpecs target (envJson i), (readPair v).isSome = true := by
  intro v hv
  cases henv : i.env with
  | none =>
    rw [envSpecs_none i target henv, List.mem_singleton] at hv
    rw [hv, readPair_pair version_plain]
    rfl
  | some es =>
    rw [envSpecs_some i target henv] at hv
    obtain ⟨e,-,rfl⟩ := List.mem_map.mp hv
    rw [readPair_envSpec]
    rfl

def newEnv : List (String × String) := (envSpecs target (envJson i)).filterMap readPair

theorem newEnv_none (h : i.env = none) : newEnv i target = [(VERSION,target)] := by
  rw [newEnv, envSpecs_none i target h]
  simp [readPair_pair version_plain]

theorem newEnv_some {es : List (EnvKey × String)} (h : i.env = some es) : newEnv i target =
    es.map (fun e => if e.1.text = VERSION then (VERSION,target) else (e.1.text,e.2)) := by
  rw [newEnv, envSpecs_some i target h, List.filterMap_map]
  simp only [Function.comp_def, readPair_envSpec]
  exact congrFun List.filterMap_eq_map es

theorem get_replaced (es : List (EnvKey × String)) {key : String} (h : key ≠ VERSION) :
    get (es.map (fun e => if e.1.text = VERSION then (VERSION,target) else (e.1.text,e.2))) key =
      get (es.map (fun e => (e.1.text,e.2))) key := by
  induction es with
  | nil => rfl
  | cons e es ih =>
    rw [List.map_cons, List.map_cons, get_cons, get_cons, ih]
    by_cases he : e.1.text = VERSION
    · rw [if_pos he, if_neg h.symm, if_neg (fun heq => h (heq.symm.trans he))]
    · rw [if_neg he]

theorem get_version (es : List (EnvKey × String)) :
    get (es.map (fun e => if e.1.text = VERSION then (VERSION,target) else (e.1.text,e.2))) VERSION = some target ↔
      ∃ e ∈ es, e.1.text = VERSION := by
  induction es with
  | nil => simp
  | cons e es ih =>
    rw [List.map_cons, get_cons]
    by_cases he : e.1.text = VERSION
    · rw [if_pos he, if_pos rfl]
      refine iff_of_true ?_ ⟨e,List.mem_cons_self,he⟩
      cases hget : get (es.map (fun e => if e.1.text = VERSION then (VERSION,target) else (e.1.text,e.2))) VERSION with
      | none => rfl
      | some v =>
        obtain ⟨e',-,hv⟩ := List.mem_map.mp (mem_of_get hget)
        by_cases he' : e'.1.text = VERSION
        · rw [if_pos he'] at hv
          cases hv
          rfl
        · rw [if_neg he'] at hv
          exact absurd (congrArg Prod.fst hv) he'
    · rw [if_neg he, if_neg he, Option.or_none, ih]
      simp [he]

theorem env_kept_iff : ((∀ key, key ≠ VERSION → get (newEnv i target) key = get i.envPairs key) ∧
    get (newEnv i target) VERSION = some target) ↔ ∀ es ∈ i.env, ∃ e ∈ es, e.1.text = VERSION := by
  cases henv : i.env with
  | none =>
    rw [newEnv_none i target henv, Inspect.envPairs, henv]
    refine iff_of_true ⟨fun key hkey => ?_,by simp [get_singleton]⟩ (fun es hes => by cases hes)
    rw [get_singleton, if_neg hkey.symm]
    rfl
  | some es =>
    have hpairs : i.envPairs = es.map (fun e => (e.1.text,e.2)) := by rw [Inspect.envPairs, henv, Option.getD_some]
    rw [newEnv_some i target henv, hpairs, get_version]
    simp only [Option.mem_some_iff, forall_eq']
    exact ⟨fun h => h.2,fun h => ⟨fun key hkey => get_replaced target es hkey,h⟩⟩

theorem labelSpecs_eq : labelSpecs (labelsJson i) = (i.labels.getD []).map (fun l => l.1++"="++l.2) := by
  rw [labelsJson, labelSpecs]
  cases i.labels with
  | none => rfl
  | some ls => simp [Json.members, List.filterMap_map, Json.asStr]

theorem labelSpecs_read : ∀ v ∈ labelSpecs (labelsJson i), (readPair v).isSome = true := by
  intro v hv
  rw [labelSpecs_eq] at hv
  obtain ⟨l,-,rfl⟩ := List.mem_map.mp hv
  exact readPair_isSome l.1 l.2

/-- A label whose name has an equals sign in it comes back under another. -/
theorem labels_kept_iff :
    (∀ key, get ((labelSpecs (labelsJson i)).filterMap readPair) key = get (i.labels.getD []) key) ↔
      ∀ l ∈ i.labels.getD [], '=' ∉ l.1.toList := by
  rw [labelSpecs_eq]
  constructor
  · intro h l hl hsign
    cases hget : get (i.labels.getD []) l.1 with
    | none =>
      rw [LastWins.get, Option.map_eq_none_iff, List.find?_eq_none] at hget
      exact absurd (decide_eq_true rfl) (hget l (List.mem_reverse.mpr hl))
    | some v =>
      obtain ⟨entry,-,hread⟩ := List.mem_filterMap.mp (mem_of_get ((h l.1).trans hget))
      exact readPair_key hread hsign
  · intro h key
    have hsame : ((i.labels.getD []).map (fun l => l.1++"="++l.2)).filterMap readPair = i.labels.getD [] := by
      rw [List.filterMap_map]
      have hread : ∀ l ∈ i.labels.getD [], (readPair ∘ fun l => l.1++"="++l.2) l = some l :=
        fun l hl => readPair_pair (h l hl) l.2
      rw [List.filterMap_congr hread, List.filterMap_some]
    rw [hsame]

theorem networkSpecs_eq : networkSpecs (networksJson i) = i.networks.take 1 := by
  simp [networkSpecs, networksJson, Json.members, Function.comp_def]

theorem networks_kept_iff : (∀ n, n ∈ (if i.networks.take 1 = [] then ["bridge"] else i.networks.take 1) ↔
    n ∈ i.networks) ↔ i.networks.length = 1 := by
  have hdistinct := i.distinct
  cases hn : i.networks with
  | nil => simp
  | cons a rest =>
    cases rest with
    | nil => simp
    | cons b rest =>
      rw [hn] at hdistinct
      have hne : b ≠ a := fun h => (List.nodup_cons.mp hdistinct).1 (h ▸ List.mem_cons_self)
      refine iff_of_false (fun h => ?_) (by simp)
      have hmem := (h b).mpr (by simp)
      simp [hne] at hmem

end

/-! ## Ports -/

theorem remove_plain {l : List Char} {c : Char} (h : c ∉ l) (p rest : List Char) :
    remove (c::p) 0 (l++rest) = l++remove (c::p) 0 rest := by
  induction l with
  | nil => rfl
  | cons a l ih =>
    rw [List.mem_cons, not_or] at h
    have hno : (c::p).isPrefixOf (a::(l++rest)) = false := by
      rw [List.isPrefixOf, beq_false_of_ne h.1]
      rfl
    rw [List.cons_append, remove, hno, if_neg Bool.false_ne_true, ih h.2, List.cons_append]

theorem digits_plain {n : ℕ} {c : Char} (hc : c.isDigit = false) : c ∉ (toString n).toList := fun h =>
  absurd (FixedDigits.isDigit_of_mem_toString n c h) (by rw [hc]; decide)

/-- A protocol that is cut off, or the one that stays. -/
def keptProto : Proto → List Char
  | .sctp => "/sctp".toList
  | _ => []

theorem portKey_text (port : ℕ) (proto : Proto) :
    (portKey (toString port++"/"++proto.text)).toList = (toString port).toList++keptProto proto := by
  have hplain : '/' ∉ (toString port).toList := digits_plain rfl
  have htext : (toString port++"/"++proto.text).toList = (toString port).toList++("/"++proto.text).toList := by
    rw [String.append_assoc, String.toList_append]
  have htcp : "/tcp".toList = '/'::"tcp".toList := rfl
  have hudp : "/udp".toList = '/'::"udp".toList := rfl
  rw [portKey, String.toList_ofList, htext, htcp, hudp, remove_plain hplain, remove_plain hplain]
  cases proto <;> rfl

theorem toList_ends (front back : String) : (front++":"++back).toList = front.toList++ ':'::back.toList := by
  rw [String.toList_append, String.toList_append, List.append_assoc]
  rfl

/-- What is published in place of a binding. -/
def readBack (proto : Proto) : Proto := if proto = .sctp then .sctp else .tcp

def portText (key : PortKey) (ip : HostIp) (hostPort : ℕ) : String :=
  (if ip.text = "" ∨ ip.text = "0.0.0.0" then toString hostPort else ip.text++":"++toString hostPort)++":"++
    portKey (toString key.port++"/"++key.proto.text)

theorem toString_ne_empty (n : ℕ) : toString n ≠ "" := by
  intro h
  have hdigits := digits_toString n
  rw [h] at hdigits
  cases hdigits

theorem portSpec_binding (key : PortKey) (b : Binding) :
    portSpec (portKey (toString key.port++"/"++key.proto.text)) (bindingJson b) = b.hostPort.map (portText key b.hostIp) := by
  have hip : strField (bindingJson b) "HostIp" = b.hostIp.text := rfl
  have hport : strField (bindingJson b) "HostPort" = (b.hostPort.map toString).getD "" := rfl
  rw [portSpec, hip, hport]
  cases b.hostPort with
  | none => rfl
  | some n =>
    have hne : (Option.map toString (some n)).getD "" ≠ "" := toString_ne_empty n
    have hn : (Option.map toString (some n)).getD "" = toString n := rfl
    rw [if_neg hne, hn, Option.map_some, portText]
    by_cases h : b.hostIp.text = "" ∨ b.hostIp.text = "0.0.0.0"
    · rw [if_pos h, if_pos h]
    · rw [if_neg h, if_neg h]

theorem portSpecs_eq (i : Inspect) : portSpecs (portsJson i) =
    i.ports.flatMap (fun p => p.2.filterMap (fun b => b.hostPort.map (portText p.1 b.hostIp))) := by
  have hmembers : (portsJson i).members =
      i.ports.map (fun p => (toString p.1.port++"/"++p.1.proto.text,.arr (p.2.map bindingJson))) := rfl
  rw [portSpecs, hmembers, List.flatMap_map]
  apply List.flatMap_congr
  intro p _
  have harray : asArray (Json.arr (p.2.map bindingJson)) = p.2.map bindingJson := rfl
  dsimp only
  rw [harray, List.filterMap_map]
  apply List.filterMap_congr
  intro b _
  exact portSpec_binding p.1 b

theorem readEnds_text (proto : Proto) (ip : HostIp) (hostPort port : ℕ) :
    readEnds proto ((if ip.text = "" ∨ ip.text = "0.0.0.0" then toString hostPort
      else ip.text++":"++toString hostPort).toList++ ':'::(toString port).toList) =
      some ⟨everyAddress ip.text,some hostPort,port,proto⟩ := by
  have hplain : ∀ n : ℕ, ':' ∉ (toString n).toList := fun n => digits_plain rfl
  rw [readEnds, rsplitOnce_append (hplain port)]
  dsimp only
  rw [digits_toString, Option.bind_some]
  by_cases h : ip.text = "" ∨ ip.text = "0.0.0.0"
  · have haddress : everyAddress ip.text = "" := by
      obtain h | h := h
      · rw [h]
        rfl
      · rw [h]
        rfl
    rw [if_pos h, rsplitOnce_none (hplain hostPort), haddress]
    dsimp only
    rw [digits_toString, Option.map_some]
  · rw [if_neg h, toList_ends, rsplitOnce_append (hplain hostPort)]
    dsimp only
    rw [digits_toString, Option.map_some, String.ofList_toList]

theorem readPublish_portText (key : PortKey) (ip : HostIp) (hostPort : ℕ) :
    readPublish (portText key ip hostPort) = some ⟨everyAddress ip.text,some hostPort,key.port,readBack key.proto⟩ := by
  have hends : '/' ∉ (if ip.text = "" ∨ ip.text = "0.0.0.0" then toString hostPort
      else ip.text++":"++toString hostPort).toList++ ':'::(toString key.port).toList := by
    intro hmem
    obtain hmem | hmem := List.mem_append.mp hmem
    · by_cases h : ip.text = "" ∨ ip.text = "0.0.0.0"
      · rw [if_pos h] at hmem
        exact digits_plain rfl hmem
      · rw [if_neg h, toList_ends] at hmem
        obtain hmem | hmem := List.mem_append.mp hmem
        · exact ip.plain hmem
        · exact digits_plain rfl ((List.mem_cons.mp hmem).resolve_left (by decide))
    · exact digits_plain rfl ((List.mem_cons.mp hmem).resolve_left (by decide))
  have htext := readEnds_text (readBack key.proto) ip hostPort key.port
  rw [readPublish, portText, toList_ends, portKey_text, ← List.cons_append, ← List.append_assoc]
  by_cases hproto : key.proto = .sctp
  · have hback : readBack key.proto = .sctp := if_pos hproto
    have hkept : keptProto key.proto = '/'::"sctp".toList := by rw [hproto]; rfl
    rw [hkept, rsplitOnce_append (by decide)]
    rw [hback] at htext ⊢
    exact htext
  · have hback : readBack key.proto = .tcp := if_neg hproto
    have hkept : keptProto key.proto = [] := by
      cases hp : key.proto with
      | sctp => exact absurd hp hproto
      | _ => rfl
    rw [hkept, List.append_nil, rsplitOnce_none hends]
    rw [hback] at htext ⊢
    exact htext

theorem portSpecs_read (i : Inspect) : ∀ v ∈ portSpecs (portsJson i), (readPublish v).isSome = true := by
  intro v hv
  rw [portSpecs_eq, List.mem_flatMap] at hv
  obtain ⟨p,-,hv⟩ := hv
  obtain ⟨b,-,hb⟩ := List.mem_filterMap.mp hv
  obtain ⟨n,-,rfl⟩ := Option.map_eq_some_iff.mp hb
  rw [readPublish_portText]
  rfl

theorem mem_newPorts (i : Inspect) (q : Published) : q ∈ (portSpecs (portsJson i)).filterMap readPublish ↔
    ∃ p ∈ i.ports, ∃ b ∈ p.2, ∃ n, b.hostPort = some n ∧
      q = ⟨everyAddress b.hostIp.text,some n,p.1.port,readBack p.1.proto⟩ := by
  rw [portSpecs_eq, List.mem_filterMap]
  constructor
  · rintro ⟨v,hv,hread⟩
    obtain ⟨p,hp,hv⟩ := List.mem_flatMap.mp hv
    obtain ⟨b,hb,hv⟩ := List.mem_filterMap.mp hv
    obtain ⟨n,hn,rfl⟩ := Option.map_eq_some_iff.mp hv
    rw [readPublish_portText] at hread
    exact ⟨p,hp,b,hb,n,hn,(Option.some.inj hread).symm⟩
  · rintro ⟨p,hp,b,hb,n,hn,rfl⟩
    refine ⟨portText p.1 b.hostIp n,?_,readPublish_portText p.1 b.hostIp n⟩
    exact List.mem_flatMap.mpr ⟨p,hp,List.mem_filterMap.mpr ⟨b,hb,by rw [hn, Option.map_some]⟩⟩

/-- A port is published again where it is not for UDP and its port on the host is set. -/
theorem ports_kept_iff (i : Inspect) :
    (∀ q, q ∈ (portSpecs (portsJson i)).filterMap readPublish ↔ q ∈ i.published) ↔
      ∀ p ∈ i.ports, ∀ b ∈ p.2, p.1.proto ≠ .udp ∧ b.hostPort ≠ none := by
  constructor
  · intro h p hp b hb
    have hmem : (⟨everyAddress b.hostIp.text,b.hostPort,p.1.port,p.1.proto⟩ : Published) ∈ i.published :=
      List.mem_flatMap.mpr ⟨p,hp,List.mem_map.mpr ⟨b,hb,rfl⟩⟩
    obtain ⟨p',-,b',-,n,-,heq⟩ := (mem_newPorts i _).mp ((h _).mpr hmem)
    injection heq with _ hport _ hproto
    constructor
    · intro hudp
      rw [hudp, readBack] at hproto
      split at hproto <;> cases hproto
    · rw [hport]
      simp
  · intro h q
    have hback : ∀ p ∈ i.ports, ∀ b ∈ p.2, readBack p.1.proto = p.1.proto := by
      intro p hp b hb
      have hudp := (h p hp b hb).1
      cases hproto : p.1.proto with
      | udp => exact absurd hproto hudp
      | _ => rfl
    rw [mem_newPorts, Inspect.published, List.mem_flatMap]
    constructor
    · rintro ⟨p,hp,b,hb,n,hn,rfl⟩
      exact ⟨p,hp,List.mem_map.mpr ⟨b,hb,by rw [hn, hback p hp b hb]⟩⟩
    · rintro ⟨p,hp,hq⟩
      obtain ⟨b,hb,rfl⟩ := List.mem_map.mp hq
      obtain ⟨n,hn⟩ := Option.ne_none_iff_exists'.mp (h p hp b hb).2
      exact ⟨p,hp,b,hb,n,hn,by rw [hn, hback p hp b hb]⟩

/-! ## Mounts -/

theorem path_ne_empty (p : AbsPath) : p.text ≠ "" := by
  intro h
  have habsolute := p.absolute
  rw [h] at habsolute
  cases habsolute

def specText (src dst : AbsPath) (rw : Bool) : String :=
  if rw then src.text++":"++dst.text else src.text++":"++dst.text++":ro"

/-- The path that an entry of the mounts is taken over with. -/
def pathOf (volumePath : String → AbsPath) : Kind → Option AbsPath
  | .bind source => some source
  | .volume name => some (volumePath name)
  | .tmpfs => none

theorem mountSpec_json (volumePath : String → AbsPath) (m : Mount) : mountSpec (mountJson volumePath m) =
    (pathOf volumePath m.kind).map (fun src => specText src m.destination m.rw) := by
  obtain ⟨kind,dst,rw⟩ := m
  cases kind with
  | tmpfs => rfl
  | bind source =>
    have hsrc : source.text ≠ "" ∧ dst.text ≠ "" := ⟨path_ne_empty source,path_ne_empty dst⟩
    cases rw <;> simp [mountSpec, mountJson, strField, Json.get, Json.members, Json.asStr, Json.asBool, pathOf, specText,
      List.lookup_cons, List.lookup_nil, hsrc.1, hsrc.2]
  | volume name =>
    have hsrc : (volumePath name).text ≠ "" ∧ dst.text ≠ "" := ⟨path_ne_empty (volumePath name),path_ne_empty dst⟩
    cases rw <;> simp [mountSpec, mountJson, strField, Json.get, Json.members, Json.asStr, Json.asBool, pathOf, specText,
      List.lookup_cons, List.lookup_nil, hsrc.1, hsrc.2]

theorem mountOf_absolute (src dst : AbsPath) (rw : Bool) :
    mountOf src.text.toList dst.text.toList rw = some ⟨.bind src,dst,rw⟩ := by
  have habsolute : ∀ p : AbsPath, (String.ofList p.text.toList).toList.head? = some '/' := by
    intro p
    rw [String.ofList_toList]
    exact p.absolute
  rw [mountOf, dif_pos (habsolute dst), dif_pos (habsolute src)]
  simp

theorem readVolume_specText {src dst : AbsPath} (hs : ':' ∉ src.text.toList) (hd : ':' ∉ dst.text.toList) (rw : Bool) :
    readVolume (specText src dst rw) = some ⟨.bind src,dst,rw⟩ := by
  cases rw with
  | true =>
    have hparts : (specText src dst true).toList.splitOn ':' = [src.text.toList,dst.text.toList] := by
      rw [specText, if_pos rfl, toList_ends, List.splitOn_append_cons_self_of_not_mem hs, List.splitOn_eq_singleton hd]
    rw [readVolume, hparts]
    exact mountOf_absolute src dst true
  | false =>
    have hparts : (specText src dst false).toList.splitOn ':' = [src.text.toList,dst.text.toList,"ro".toList] := by
      have htext : (specText src dst false).toList = src.text.toList++ ':'::(dst.text.toList++ ':'::"ro".toList) := by
        have hro : ":ro".toList = ':'::"ro".toList := rfl
        rw [specText, if_neg Bool.false_ne_true, String.toList_append, toList_ends, List.append_assoc, List.cons_append, hro]
      rw [htext, List.splitOn_append_cons_self_of_not_mem hs, List.splitOn_append_cons_self_of_not_mem hd,
        List.splitOn_eq_singleton (by decide)]
    have hmodes : (("ro".toList.splitOn ',').all (fun m => MODES.any (fun mode => mode.toList = m))) = true := by decide
    have hro : (!("ro".toList.splitOn ',').contains "ro".toList) = false := by decide
    rw [readVolume, hparts]
    dsimp only
    rw [if_pos hmodes, hro]
    exact mountOf_absolute src dst false

theorem mountOf_cases {source destination : List Char} {rw : Bool} {m : Mount}
    (h : mountOf source destination rw = some m) (hs : source.head? = some '/') :
    ∃ src : AbsPath, m.kind = .bind src ∧ src.text.toList = source ∧ m.destination.text.toList = destination := by
  have hs' : (String.ofList source).toList.head? = some '/' := by rwa [String.toList_ofList]
  unfold mountOf at h
  split at h
  · cases h
    exact ⟨_,rfl,String.toList_ofList,String.toList_ofList⟩
  · cases h

/-- What begins with a slash is read as a bind, of what stands between the colons. -/
theorem readVolume_absolute {v : String} {m : Mount} (h : readVolume v = some m) (hv : v.toList.head? = some '/') :
    ∃ src : AbsPath, m.kind = .bind src ∧ ':' ∉ src.text.toList ∧ ':' ∉ m.destination.text.toList := by
  have hcolon : ∀ part ∈ v.toList.splitOn ':', ':' ∉ part := by
    intro part hpart hmem
    rw [List.splitOn_eq_splitOnP] at hpart
    have hno := SeparatedParts.mem_splitOnP hpart ':' hmem
    simp at hno
  have hhead : ∀ part rest, v.toList.splitOn ':' = part::rest → part.head? = some '/' := by
    intro part rest hsplit
    cases hl : v.toList with
    | nil =>
      rw [hl] at hv
      cases hv
    | cons c l =>
      rw [hl] at hv hsplit
      obtain rfl : c = '/' := Option.some.inj hv
      rw [List.splitOn_eq_splitOnP, List.splitOnP_cons_eq_if_modifyHead, if_neg (by decide)] at hsplit
      obtain ⟨first,others,hfirst⟩ := List.exists_cons_of_ne_nil (List.splitOnP_ne_nil (· == ':') l)
      rw [hfirst, List.modifyHead_cons] at hsplit
      rw [← (List.cons.inj hsplit).1]
      rfl
  have hfound : ∃ source destination rest rw, v.toList.splitOn ':' = source::destination::rest ∧
      mountOf source destination rw = some m := by
    unfold readVolume at h
    split at h
    · next source destination hsplit => exact ⟨source,destination,[],true,hsplit,h⟩
    · next source destination modes hsplit =>
      split at h
      · exact ⟨source,destination,[modes],_,hsplit,h⟩
      · cases h
    · cases h
  obtain ⟨source,destination,rest,rw,hsplit,hmount⟩ := hfound
  obtain ⟨src,hkind,hsource,hdestination⟩ := mountOf_cases hmount (hhead _ _ hsplit)
  refine ⟨src,hkind,?_,?_⟩
  · rw [hsource]
    exact hcolon _ (by rw [hsplit]; exact List.mem_cons_self)
  · rw [hdestination]
    exact hcolon _ (by rw [hsplit]; exact List.mem_cons_of_mem _ List.mem_cons_self)

section
variable (volumePath : String → AbsPath) (i : Inspect)

/-- The mounts come back from the binds, or each is a bind whose paths have no colon. -/
def MountsPlain : Prop :=
  (∀ m ∈ i.mounts, ∃ b ∈ i.binds.getD [], readVolume b = some m) ∨
    i.binds.getD [] = [] ∧
      ∀ m ∈ i.mounts, ∃ src : AbsPath, m.kind = .bind src ∧ ':' ∉ src.text.toList ∧ ':' ∉ m.destination.text.toList

theorem strings_binds : strings (bindsJson i) = i.binds.getD [] := by
  rw [bindsJson]
  cases i.binds with
  | none => rfl
  | some bs => simp [arrayOrNull, strings, asArray, List.filterMap_map, Function.comp_def, Json.asStr]

theorem volumeSpecs_binds (h : i.binds.getD [] ≠ []) :
    volumeSpecs (bindsJson i) (mountsJson volumePath i) = i.binds.getD [] := by
  rw [volumeSpecs, strings_binds, if_pos h]

theorem volumeSpecs_mounts (h : i.binds.getD [] = []) : volumeSpecs (bindsJson i) (mountsJson volumePath i) =
    i.mounts.filterMap (fun m => (pathOf volumePath m.kind).map (fun src => specText src m.destination m.rw)) := by
  have harray : asArray (mountsJson volumePath i) = i.mounts.map (mountJson volumePath) := rfl
  rw [volumeSpecs, strings_binds, h, if_neg (by simp), harray, List.filterMap_map]
  apply List.filterMap_congr
  intro m _
  exact mountSpec_json volumePath m

/-- Read back, a text made of two absolute paths is a bind without colons in its paths. -/
theorem read_spec {src dst : AbsPath} {rw : Bool} {m : Mount} (h : readVolume (specText src dst rw) = some m) :
    ∃ src : AbsPath, m.kind = .bind src ∧ ':' ∉ src.text.toList ∧ ':' ∉ m.destination.text.toList := by
  apply readVolume_absolute h
  have hhead : ∀ rest : List Char, (src.text.toList++rest).head? = some '/' := by
    intro rest
    rw [List.head?_append, src.absolute]
    rfl
  cases rw with
  | true =>
    rw [specText, if_pos rfl, toList_ends]
    exact hhead _
  | false =>
    rw [specText, if_neg Bool.false_ne_true, String.toList_append, toList_ends, List.append_assoc]
    exact hhead _

theorem mounts_kept_iff :
    ((volumeSpecs (bindsJson i) (mountsJson volumePath i)).all (fun v => (readVolume v).isSome) = true ∧
      ∀ m, m ∈ (volumeSpecs (bindsJson i) (mountsJson volumePath i)).filterMap readVolume ↔ m ∈ i.mounts) ↔
    MountsPlain i := by
  by_cases hb : i.binds.getD [] = []
  · rw [volumeSpecs_mounts volumePath i hb]
    constructor
    · rintro ⟨-,h⟩
      refine .inr ⟨hb,fun m hm => ?_⟩
      obtain ⟨v,hv,hread⟩ := List.mem_filterMap.mp ((h m).mpr hm)
      obtain ⟨m',-,hspec⟩ := List.mem_filterMap.mp hv
      obtain ⟨src,-,rfl⟩ := Option.map_eq_some_iff.mp hspec
      exact read_spec hread
    · intro h
      have hplain : ∀ m ∈ i.mounts, ∃ v, (pathOf volumePath m.kind).map (fun src => specText src m.destination m.rw) = some v ∧
          readVolume v = some m := by
        intro m hm
        obtain hcover | ⟨-,hbinds⟩ := h
        · obtain ⟨b,hmem,-⟩ := hcover m hm
          rw [hb] at hmem
          cases hmem
        · obtain ⟨src,hkind,hs,hd⟩ := hbinds m hm
          refine ⟨specText src m.destination m.rw,by rw [hkind]; rfl,?_⟩
          rw [readVolume_specText hs hd, ← hkind]
      constructor
      · rw [List.all_eq_true]
        intro v hv
        obtain ⟨m,hm,hspec⟩ := List.mem_filterMap.mp hv
        obtain ⟨v',hspec',hread⟩ := hplain m hm
        obtain rfl := Option.some.inj (hspec.symm.trans hspec')
        rw [hread]
        rfl
      · intro m
        constructor
        · intro hm
          obtain ⟨v,hv,hread⟩ := List.mem_filterMap.mp hm
          obtain ⟨m',hm',hspec⟩ := List.mem_filterMap.mp hv
          obtain ⟨v',hspec',hread'⟩ := hplain m' hm'
          obtain rfl := Option.some.inj (hspec.symm.trans hspec')
          rwa [Option.some.inj (hread.symm.trans hread')]
        · intro hm
          obtain ⟨v,hspec,hread⟩ := hplain m hm
          exact List.mem_filterMap.mpr ⟨v,List.mem_filterMap.mpr ⟨m,hm,hspec⟩,hread⟩
  · rw [volumeSpecs_binds volumePath i hb]
    constructor
    · rintro ⟨-,h⟩
      refine .inl (fun m hm => ?_)
      obtain ⟨b,hmem,hread⟩ := List.mem_filterMap.mp ((h m).mpr hm)
      exact ⟨b,hmem,hread⟩
    · intro h
      have hcover : ∀ m ∈ i.mounts, ∃ b ∈ i.binds.getD [], readVolume b = some m :=
        h.resolve_right (fun hno => hb hno.1)
      constructor
      · rw [List.all_eq_true]
        intro b hmem
        obtain ⟨m,-,hread⟩ := i.listed b hmem
        rw [hread]
        rfl
      · intro m
        constructor
        · intro hm
          obtain ⟨b,hmem,hread⟩ := List.mem_filterMap.mp hm
          obtain ⟨m',hm',hread'⟩ := i.listed b hmem
          rwa [Option.some.inj (hread.symm.trans hread')]
        · intro hm
          obtain ⟨b,hmem,hread⟩ := hcover m hm
          exact List.mem_filterMap.mpr ⟨b,hmem,hread⟩

end

/-! ## The whole configuration -/

/-- What the loops over an inspected container carry over without a change. -/
structure Plain (i : Inspect) : Prop where
  mounts : MountsPlain i
  ports : ∀ p ∈ i.ports, ∀ b ∈ p.2, p.1.proto ≠ .udp ∧ b.hostPort ≠ none
  version : ∀ es ∈ i.env, ∃ e ∈ es, e.1.text = VERSION
  labels : ∀ l ∈ i.labels.getD [], '=' ∉ l.1.toList
  network : i.networks.length = 1

/-- A recreation keeps the configuration if and only if it has nothing that the loops lose. -/
theorem kept_iff_plain (volumePath : String → AbsPath) (name imageRef target restart : String) (i : Inspect) :
    (∃ c, dockerRun (recreateArgs volumePath name imageRef target restart i) = some c ∧ Same i target c) ↔ Plain i := by
  have hrun := dockerRun_allArgs name imageRef restart
    (volumeSpecs (bindsJson i) (mountsJson volumePath i)) (networkSpecs (networksJson i))
    (portSpecs_read i) (envSpecs_read i target) (labelSpecs_read i)
  have hargs : recreateArgs volumePath name imageRef target restart i =
      allArgs name imageRef restart (volumeSpecs (bindsJson i) (mountsJson volumePath i)) (portSpecs (portsJson i))
        (envSpecs target (envJson i)) (labelSpecs (labelsJson i)) (networkSpecs (networksJson i)) := rfl
  rw [hargs, hrun, networkSpecs_eq]
  constructor
  · rintro ⟨c,hc,hsame⟩
    split at hc
    · next hall =>
      cases hc
      exact ⟨(mounts_kept_iff volumePath i).mp ⟨hall,hsame.mounts⟩,(ports_kept_iff i).mp hsame.ports,
        (env_kept_iff i target).mp ⟨hsame.env,hsame.version⟩,(labels_kept_iff i).mp hsame.labels,
        (networks_kept_iff i).mp hsame.networks⟩
    · cases hc
  · intro h
    obtain ⟨hall,hmounts⟩ := (mounts_kept_iff volumePath i).mpr h.mounts
    obtain ⟨henv,hversion⟩ := (env_kept_iff i target).mpr h.version
    rw [if_pos hall]
    exact ⟨_,rfl,hmounts,(ports_kept_iff i).mpr h.ports,henv,hversion,(labels_kept_iff i).mpr h.labels,
      (networks_kept_iff i).mpr h.network⟩

/-- A container on two networks that answers DNS. -/
def resolver : Inspect where
  binds := none
  mounts := []
  ports := [(⟨53,.udp⟩,[⟨⟨"",by decide⟩,some 53⟩])]
  env := none
  labels := none
  networks := ["devforge","group"]
  listed := fun b hb => by cases hb
  distinct := by decide

theorem udp_port_lost : ¬∀ (volumePath : String → AbsPath) (name imageRef target restart : String) (i : Inspect),
    ∃ c, dockerRun (recreateArgs volumePath name imageRef target restart i) = some c ∧ Same i target c := by
  intro h
  obtain ⟨c,hrun,hsame⟩ := h (fun _ => ⟨"/volume",by decide⟩) "devforge" "devforge:2" "2" "no" resolver
  have hports := (dockerRun_allArgs "devforge" "devforge:2" "no"
    [] (networkSpecs (networksJson resolver))
    (portSpecs_read resolver) (envSpecs_read resolver "2") (labelSpecs_read resolver)).symm.trans hrun
  rw [List.all_nil, if_pos rfl] at hports
  cases hports
  exact ((ports_kept_iff resolver).mp hsame.ports _ List.mem_cons_self _ List.mem_cons_self).1 rfl

end DevForge.RecreateKeeps
