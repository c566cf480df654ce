import DevForge.Dotenv
import DevForge.ToolArguments
import Mathlib.Algebra.GroupWithZero.Nat

/-!
# Masking secrets

What is shown of a value in place of a secret: of one string, of the credentials in a URL, and
of a JSON value at every depth. A string that is worked on is the list of its characters.
-/

set_option autoImplicit false

namespace DevForge.Redact
open WakeGate (Json)
open Dotenv (contains splitOnce trimChars isMaskedPlaceholder)

def MASK : List Char := "***".toList

def ELLIPSIS : Char := '…'

/-! ## Names of secrets -/

def SENSITIVE_FRAGMENTS : List String :=
  ["token","secret","password","passwd","passphrase","api_key","apikey","private_key","privatekey","access_key",
    "secret_key","signing_key","encryption_key","master_key","client_key","authorization","auth_header","cookie",
    "credential","bearer","session_key","dsn","database_url","connection_string"]

def SENSITIVE_EXACT : List String := ["pwd","pass","pat","jwt","otp","x_api_key"]

def NON_SENSITIVE_EXACT : List String :=
  ["secret_keys","token_type","token_endpoint","token_endpoint_auth_method","token_prefix","token_hint",
    "secrets_masked","has_secrets","has_api_key","has_token","has_value","max_tokens","max_output_tokens",
    "prompt_tokens","completion_tokens","total_tokens","input_tokens","output_tokens","oauth_connected",
    "oauth_expires_at","oauth_scopes","secret"]

def SECRET_CONTAINERS : List String := ["headers","secrets","env","environment","env_vars"]

def normaliseChars : Bool → List Char → List Char
  | _, [] => []
  | prevLower, c::cs =>
    (if c.isUpper && prevLower then ['_'] else [])++
      (if c = '-' || c = ' ' || c = '.' then '_' else c.toLower)::normaliseChars (c.isLower || c.isDigit) cs

def normaliseKey (key : String) : String := String.ofList (normaliseChars false (trimChars key.toList))

def startsWith (k part : String) : Bool := part.toList.isPrefixOf k.toList

def endsWith (k part : String) : Bool := part.toList.isSuffixOf k.toList

def isSensitiveKey (key : String) : Bool :=
  let k := normaliseKey key
  if k = "" then false
  else if NON_SENSITIVE_EXACT.contains k || startsWith k "has_" || endsWith k "_expires_at" || endsWith k "_scopes" ||
      endsWith k "_masked" || endsWith k "_has_value" || endsWith k "_tokens" || endsWith k "_keys" ||
      endsWith k "public_key" then false
  else if SENSITIVE_EXACT.contains k then true
  else SENSITIVE_FRAGMENTS.any (fun f => contains f.toList k.toList) || endsWith k "_key" || endsWith k "_pat" ||
    endsWith k "_pass"

/-! ## One string -/

def maskSecret (value : String) : String :=
  let chars := value.toList
  if value = "" then ""
  else if isMaskedPlaceholder value then value
  else if chars.length < 20 then String.ofList MASK
  else String.ofList (chars.take 4++ELLIPSIS::chars.drop (chars.length-4))

theorem maskSecret_ne {s : String} (hne : s ≠ "") (hs : isMaskedPlaceholder s = false) : maskSecret s ≠ s := by
  intro heq
  rw [maskSecret, if_neg hne, hs] at heq
  simp only [Bool.false_eq_true, if_false] at heq
  split at heq
  · rw [← heq] at hs
    exact absurd hs (by decide +kernel)
  · next hlong =>
    have hlength := congrArg (fun t : String => t.toList.length) heq
    simp only [String.toList_ofList, List.length_append, List.length_take, List.length_cons, List.length_drop] at hlength
    omega

def TOKEN_PREFIXES : List String :=
  ["ghp_","gho_","ghu_","ghs_","ghr_","github_pat_","glpat-","xoxb-","xoxp-","xoxa-","xoxr-","xoxs-","xapp-","sk-",
    "sk_live_","sk_test_","rk_live_","pk_live_","AKIA","ASIA","AIza","ya29.","npm_","pypi-","hf_","dop_v1_","SG.",
    "shpat_"]

/-- The length in bytes. -/
def byteLen (v : List Char) : ℕ := (v.map Char.utf8Size).sum

def hasAuthScheme (v : List Char) : Bool :=
  let scheme := (v.takeWhile (· ≠ ' ')).map Char.toLower
  let rest := trimChars (v.dropWhile (· ≠ ' ')).tail
  ["bearer","basic","token","bot"].contains (String.ofList scheme) && !rest.isEmpty && !rest.contains ' '

def tokenChar (c : Char) : Bool := c.isAlphanum || "_-.=/+".toList.contains c

def segmentChar (c : Char) : Bool := c.isAlphanum || c = '-' || c = '_' || c = '='

def looksLikeToken (value : List Char) : Bool :=
  let v := trimChars value
  if v.isEmpty || v.any isWhitespace && !hasAuthScheme v then false
  else if hasAuthScheme v then true
  else if 16 ≤ byteLen v && TOKEN_PREFIXES.any (fun p => p.toList.isPrefixOf v) then v.all tokenChar
  else
    let segs := v.splitOn '.'
    segs.length = 3 && "eyJ".toList.isPrefixOf v && segs.all (fun s => 8 ≤ byteLen s && s.all segmentChar)

/-! ## The credentials of a URL -/

/-- The text before the first occurrence of `p`, and from it on. -/
def splitAtSub (p : List Char) : List Char → Option (List Char × List Char)
  | [] => if p.isEmpty then some ([],[]) else none
  | c::cs =>
    if p.isPrefixOf (c::cs) then some ([],c::cs) else (splitAtSub p cs).map (fun x => (c::x.1,x.2))

/-- The text before the last `sep`, and from it on. -/
def rsplitAt (sep : Char) (l : List Char) : Option (List Char × List Char) :=
  if l.contains sep then
    some ((l.reverse.dropWhile (· ≠ sep)).tail.reverse,sep::(l.reverse.takeWhile (· ≠ sep)).reverse)
  else none

def SEPARATOR : List Char := "://".toList

def schemeChar (c : Char) : Bool := c.isAlphanum || c = '+' || c = '-' || c = '.'

def inAuthority (c : Char) : Bool := c ≠ '/' && c ≠ '?' && c ≠ '#'

def isSensitiveQueryKey (k : String) : Bool :=
  isSensitiveKey k ||
    ["key","sig","signature","code","access_token","auth","apikey","x_amz_signature"].contains (normaliseKey k)

def secretPair (pair : List Char) : Bool :=
  match splitOnce '=' pair with
  | some (k,v) => !v.isEmpty && (isSensitiveQueryKey (String.ofList k) || looksLikeToken v)
  | none => false

def maskPair (pair : List Char) : List Char :=
  if secretPair pair then pair.takeWhile (· ≠ '=')++ '='::MASK else pair

def maskAuthority (authority : List Char) : List Char :=
  match rsplitAt '@' authority with
  | some (userinfo,host) =>
    match splitOnce ':' userinfo with
    | some (user,_) => user++ ':'::MASK++host
    | none => MASK++host
  | none => authority

/-- The pairs of the query, between `?` and `#`. -/
def queryPairs (tail : List Char) : List (List Char) :=
  ((tail.dropWhile (· ≠ '?')).tail.takeWhile (· ≠ '#')).splitOn '&'

def maskTail (tail : List Char) : List Char :=
  let path := tail.takeWhile (· ≠ '?')
  let queryAndFrag := tail.dropWhile (· ≠ '?')
  if queryAndFrag.isEmpty then path
  else path++ '?'::['&'].intercalate ((queryPairs tail).map maskPair)++queryAndFrag.tail.dropWhile (· ≠ '#')

def redactUrl (url : List Char) : List Char :=
  match splitAtSub SEPARATOR url with
  | none => url
  | some (scheme,fromScheme) =>
    if scheme.isEmpty || !scheme.all schemeChar then url
    else
      let rest := fromScheme.drop 3
      scheme++SEPARATOR++maskAuthority (rest.takeWhile inAuthority)++maskTail (rest.dropWhile inAuthority)

def looksLikeUrl (v : List Char) : Bool :=
  match splitAtSub SEPARATOR v with
  | some (scheme,_) => 0 < byteLen scheme && byteLen scheme < 20 && !v.any isWhitespace && scheme.all schemeChar
  | none => false

def redactStr (value : String) : String :=
  if looksLikeUrl value.toList then String.ofList (redactUrl value.toList)
  else if looksLikeToken value.toList then maskSecret value
  else value

/-! ## A JSON value -/

mutual

def maskValue : Json → Json
  | .str s => .str (maskSecret s)
  | .null => .null
  | .bool b => .bool b
  | .num _ => .str (String.ofList MASK)
  | .arr vs => .arr (maskValues vs)
  | .obj ms => .obj (maskMembers ms)

def maskValues : List Json → List Json
  | [] => []
  | v::vs => maskValue v::maskValues vs

def maskMembers : List (String × Json) → List (String × Json)
  | [] => []
  | (k,v)::ms => (k,maskValue v)::maskMembers ms

end

def valuePresent : Json → Bool
  | .null => false
  | .str s => s ≠ ""
  | _ => true

/-- Whether the object is a pair of a name and a value, and then whether the value is a secret. -/
def pairOf (ms : List (String × Json)) : Option Bool :=
  let name := ((ms.lookup "key").or (ms.lookup "name")).bind Json.asStr
  let secret := ((ms.lookup "secret").bind Json.asBool).getD false
  if (ms.lookup "value").isSome then name.map (fun name => secret || isSensitiveKey name) else none

def withHasValue (ms out : List (String × Json)) : List (String × Json) :=
  if (pairOf ms).isSome && (ms.lookup "has_value").isNone then
    out++[("has_value",.bool (((ms.lookup "value").map valuePresent).getD false))]
  else out

def isContainer (k : String) : Bool := SECRET_CONTAINERS.contains (normaliseKey k)

def isStr : Json → Bool
  | .str _ => true
  | _ => false

/-- An argument that starts with a dash: what is shown of it, and whether the next one is its secret. -/
def redactFlag (s : String) : String × Bool :=
  let flag := s.toList.dropWhile (· = '-')
  match splitOnce '=' flag with
  | some (k,v) =>
    if isSensitiveKey (String.ofList k) then
      (String.ofList (s.toList.take (s.toList.length-v.length-1)++ '='::(maskSecret (String.ofList v)).toList),false)
    else (redactStr s,false)
  | none => (s,isSensitiveKey (String.ofList flag))

mutual

def redactJson : Json → Json
  | .obj ms => .obj (withHasValue ms (redactMembers (pairOf ms) ms))
  | .arr vs => .arr (redactArray false vs)
  | .str s => .str (redactStr s)
  | v => v

def redactArray : Bool → List Json → List Json
  | _, [] => []
  | maskNext, v::vs =>
    match v with
    | .str s =>
      if maskNext then .str (maskSecret s)::redactArray false vs
      else if s.toList.head? = some '-' then .str (redactFlag s).1::redactArray (redactFlag s).2 vs
      else .str (redactStr s)::redactArray false vs
    | other => redactJson other::redactArray false vs

def redactMembers (pair : Option Bool) : List (String × Json) → List (String × Json)
  | [] => []
  | (k,v)::ms =>
    (k,if pair.isSome && k = "value" then (if pair = some true then maskValue v else redactJson v)
      else if isSensitiveKey k || (normaliseKey k = "secret" && isStr v) then maskValue v
      else if isContainer k then
        match v with
        | .obj inner => .obj (redactContainer inner)
        | other => redactJson other
      else redactJson v)::redactMembers pair ms

/-- The entries of a container of secrets. -/
def redactContainer : List (String × Json) → List (String × Json)
  | [] => []
  | (k,v)::ms =>
    (k,match v with
      | .obj o => redactJson (.obj o)
      | .arr a => redactJson (.arr a)
      | scalar => maskValue scalar)::redactContainer ms

end

end DevForge.Redact
