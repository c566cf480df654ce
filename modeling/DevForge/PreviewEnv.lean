import DevForge.SortedMap
import DevForge.Redact
import Mathlib.Data.String.Basic

/-!
# The environment of a preview

A preview runs with the variables of its project. A variable `PREVIEW_X` stands in for `X`, and
what points to the production host is turned to the host of the preview.
-/

set_option autoImplicit false

namespace DevForge.PreviewEnv
open Dotenv Redact

def PREVIEW_OVERRIDE_PREFIX : String := "PREVIEW_"

def DB_KEYS : List String :=
  ["TURSO_DATABASE_URL","DATABASE_URL","LIBSQL_URL","POSTGRES_URL","MONGODB_URI","REDIS_URL"]

/-- The variables that DevForge sets itself. -/
def isMarker (k : String) : Bool := "DEVFORGE_PREVIEW".toList.isPrefixOf k.toList

/-- `strip_prefix`. -/
def after (start s : String) : Option String :=
  if start.toList.isPrefixOf s.toList then some (String.ofList (s.toList.drop start.toList.length)) else none

/-- The variable that an override stands in for. -/
def overrideTarget (k : String) : Option String := (after PREVIEW_OVERRIDE_PREFIX k).filter (fun t => t ≠ "")

def isRedirectUriKey (key : String) : Bool :=
  let k := key.toList.map Char.toUpper
  "REDIRECT_URI".toList.isSuffixOf k || "REDIRECT_URL".toList.isSuffixOf k

/-! ## URLs -/

def stripScheme (url : List Char) : Option (List Char) :=
  if "https://".toList.isPrefixOf url then some (url.drop 8)
  else if "http://".toList.isPrefixOf url then some (url.drop 7)
  else none

def fqdnFromUrl (url : List Char) : Option (List Char) :=
  ((stripScheme url).map (fun s => (trimChars (s.takeWhile (· ≠ '/'))).map ToolArguments.lowerChar)).filter
    (fun s => s.contains '.')

/-- What ends the authority of a URL. -/
def endsAuthority (c : Char) : Bool := c = '/' || c = '?' || c = '#'

def rewriteUrlHost (value host : List Char) : Option (List Char) :=
  (splitAtSub SEPARATOR (trimChars value)).bind (fun x =>
    let scheme := x.1.map Char.toLower
    let rest := x.2.drop 3
    if scheme ≠ "https".toList && scheme ≠ "http".toList then none
    else if (rest.takeWhile (fun c => !endsAuthority c)).isEmpty then none
    else some ("https://".toList++host++rest.dropWhile (fun c => !endsAuthority c)))

/-! ## The variables -/

/-- A row goes to the overrides or to the other variables. -/
def addRow (maps : SortedMap String String × SortedMap String String) (row : String × String) :
    SortedMap String String × SortedMap String String :=
  if isMarker row.1 then maps
  else match overrideTarget row.1 with
    | some target => (maps.1,maps.2.insert target row.2)
    | none => (maps.1.insert row.1 row.2,maps.2)

def targetsProd (prodHost : Option (List Char)) (v : String) : Bool :=
  prodHost.any (fun h => (fqdnFromUrl (trimChars v.toList)).any (fun vh => vh.takeWhile (· ≠ ':') = h))

/-- The value of a variable without override. -/
def redirected (previewHost prodHost : Option (List Char)) (k v : String) : String :=
  if !isRedirectUriKey k && !targetsProd prodHost v then v
  else ((previewHost.bind (rewriteUrlHost v.toList)).map String.ofList).getD v

/-- The variables that DevForge adds. -/
def markers (pr : ℤ) (url : String) : List (String × String) :=
  [("DEVFORGE_PREVIEW","1"),("DEVFORGE_PREVIEW_PR",toString pr),("DEVFORGE_PREVIEW_URL",url)]

def buildPreviewEnv (rows : List (String × String)) (pr : ℤ) (url : String) (prodHost : Option (List Char)) :
    List (String × String) :=
  let (base,overrides) := rows.foldl addRow (.empty,.empty)
  let previewHost := fqdnFromUrl url.toList
  let base := base.mapValues (fun k v => if (overrides.get k).isSome then v else redirected previewHost prodHost k v)
  let all := (base.insertAll overrides.entries).retain (fun k => !isMarker k)
  all.entries++markers pr url

def isBlank (v : String) : Bool := (trimChars v.toList).isEmpty

/-- The databases that the preview is said to share with production. -/
def previewSharedDbKeys (rows : List (String × String)) : List String :=
  DB_KEYS.filter (fun k =>
    rows.any (fun row => row.1 = k && !isBlank row.2) &&
    !rows.any (fun row => after PREVIEW_OVERRIDE_PREFIX row.1 = some k && !isBlank row.2))

end DevForge.PreviewEnv
