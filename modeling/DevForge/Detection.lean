import DevForge.ComposePorts
import DevForge.MemoryRules
import DevForge.Redact

/-!
# Detection of the stack

What a repository is built with, read from its files. A tree is a hash map from paths to contents,
here the list of its entries in the order in which it is iterated. JSON is read by a library.
-/

set_option autoImplicit false

namespace DevForge.Detection
open Dotenv DotenvRoundTrip ComposePorts
open WakeGate (Json)
open ToolArguments (lowerChar)
open MemoryRules (splitWhitespace)
open Redact (splitAtSub)

abbrev FileTree := List (List Char × Option (List Char))

inductive FrameworkKind
  | dockerCompose | dockerfile | laravel | nextJs | nuxt | remix | astro | viteStatic | nitro | nestJs | express | node
  | rust | go | python | ruby | php | staticHtml | unknown
deriving DecidableEq, Repr

/-- The confidence is in hundredths. -/
structure DetectionResult where
  framework : FrameworkKind
  label : String
  confidence : ℕ
  buildPack : String
  port : ℕ
  isStatic : Bool
  publishDirectory : Option String
  baseDirectory : String
  dockerComposeLocation : Option String
  testCommand : Option String
  hints : List String
  evidence : List String
  exposedPorts : List ExposedPort
deriving DecidableEq, Repr

def DetectionResult.unknown : DetectionResult :=
  ⟨.unknown,"Inconnu",20,"nixpacks",3000,false,none,"/",none,none,["Aucun framework clair — nixpacks par défaut"],[],[]⟩

/-! ## Files of a tree -/

/-- `trim_start_matches("./")`. -/
def trimDotSlash : List Char → List Char
  | '.':: '/'::cs => trimDotSlash cs
  | cs => cs

def normPath (p : List Char) : List Char :=
  (trimDotSlash (trimChars p)).map (fun c => if c = backslash then '/' else c)

def lowercase (cs : List Char) : List Char := cs.map lowerChar

/-- The path is taken for a file of the name, at the root or below. -/
def isNamed (name : String) (path : List Char) : Bool :=
  let n := lowercase name.toList
  let k := normPath path
  eqIgnoreAsciiCase k name.toList || ('/'::n).isSuffixOf k || lowercase k = n

def findContent (tree : FileTree) (name : String) : Option (List Char) :=
  tree.findSome? (fun e => if isNamed name e.1 then e.2 else none)

/-! ## Ports -/

def DOCKERFILES : List String := ["Dockerfile","dockerfile"]

def COMPOSES : List String := ["docker-compose.yml","docker-compose.yaml","compose.yml","compose.yaml"]

def ENVS : List String := [".env.example",".env.sample",".env.template"]

variable (fromStr : String → Option Json) (tree : FileTree)

end DevForge.Detection
