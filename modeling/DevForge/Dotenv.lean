import DevForge.Sql

/-!
# Environment files

The writer of `.env` files, their reader, and the merge of what was read into the variables
of a project. A text is the list of its characters.
-/

set_option autoImplicit false

namespace DevForge.Dotenv

structure EnvVar where
  key : String
  value : String
  secret : Bool
  previewAllowed : Bool
deriving DecidableEq, Repr

def tab : Char := Char.ofNat 9
def carriageReturn : Char := Char.ofNat 13
def quote : Char := Char.ofNat 34
def apostrophe : Char := Char.ofNat 39
def backslash : Char := Char.ofNat 92

/-- `is_ascii_alphanumeric() || c == '_'`. -/
def keyChar (c : Char) : Bool := c.isAlphanum || c = '_'

/-- What `upsert` demands of a key. -/
def validKey (key : String) : Bool := !key.toList.isEmpty && key.toList.all keyChar

/-! ## Reading -/

def trimChars (cs : List Char) : List Char :=
  ((cs.dropWhile isWhitespace).reverse.dropWhile isWhitespace).reverse

def stripCarriageReturn (l : List Char) : List Char :=
  if l.getLast? = some carriageReturn then l.dropLast else l

/-- `str::lines`: a line that no break ends keeps its carriage return. -/
def lines (cs : List Char) : List (List Char) :=
  (cs.splitOn '\n').dropLast.map stripCarriageReturn++
    (cs.splitOn '\n').getLast?.toList.filter (fun l => !l.isEmpty)

/-- `strip_prefix("export ")`, or the line. -/
def stripExport (l : List Char) : List Char :=
  if "export ".toList.isPrefixOf l then l.drop 7 else l

def splitOnce (sep : Char) (l : List Char) : Option (List Char × List Char) :=
  if l.contains sep then some (l.takeWhile (· ≠ sep),(l.dropWhile (· ≠ sep)).tail) else none

def quotedBy (q : Char) (l : List Char) : Bool :=
  l.head? = some q && l.getLast? = some q && 2 ≤ l.length

/-- One pair of quotes is taken off. -/
def unquote (l : List Char) : List Char :=
  if quotedBy quote l || quotedBy apostrophe l then l.tail.dropLast else l

/-- The line number counts from zero; no variable is a blank line or a comment. -/
def parseLine (i : ℕ) (raw : List Char) : Except String (Option EnvVar) :=
  let line := trimChars raw
  if line.isEmpty || line.head? = some '#' then .ok none
  else match splitOnce '=' (trimChars (stripExport line)) with
    | none => .error ("ligne "++toString (i+1)++": format invalide (attendu KEY=value)")
    | some (key,value) =>
      let key := trimChars key
      if key.isEmpty || !key.all keyChar then
        .error ("ligne "++toString (i+1)++": clé invalide « "++String.ofList key++" »")
      else .ok (some ⟨String.ofList key,String.ofList (unquote (trimChars value)),true,false⟩)

def parseLines : ℕ → List (List Char) → Except String (List EnvVar)
  | _, [] => .ok []
  | i, l::ls => match parseLine i l, parseLines (i+1) ls with
    | .error e, _ => .error e
    | .ok _, .error e => .error e
    | .ok var, .ok vars => .ok (var.toList++vars)

def parseDotenv (content : String) : Except String (List EnvVar) := parseLines 0 (lines content.toList)

/-! ## Writing -/

def escapeChar (c : Char) : List Char :=
  if c = backslash then [backslash,backslash]
  else if c = '\n' then [backslash,'n']
  else if c = carriageReturn then [backslash,'r']
  else if c = tab then [backslash,'t']
  else [c]

def escape (value : List Char) : List Char := value.flatMap escapeChar

def formatDockerEnvLine (key value : String) : List Char :=
  key.toList++ '='::escape value.toList++['\n']

def serializeDockerEnvFile (vars : List (String × String)) : String :=
  String.ofList (vars.flatMap (fun v => formatDockerEnvLine v.1 v.2))

/-! ## The file of a working directory -/

inductive MaterializeOutcome | written | removed | absent
deriving DecidableEq, Repr

def materializeDotenvFile (vars : List (String × String)) (file : Option String) :
    MaterializeOutcome × Option String :=
  if vars.isEmpty then (if file.isSome then .removed else .absent,none)
  else (.written,some (serializeDockerEnvFile vars))

def readDotenvFile : Option String → Except String (Option (List EnvVar))
  | none => .ok none
  | some content => match parseDotenv content with
    | .ok vars => .ok (some vars)
    | .error e => .error e

/-! ## Merging -/

structure EnvMergeStats where
  imported : ℕ
  updated : ℕ
  unchanged : ℕ
  skipped : ℕ
deriving DecidableEq, Repr

def contains (p : List Char) : List Char → Bool
  | [] => p.isEmpty
  | c::cs => p.isPrefixOf (c::cs) || contains p cs

theorem contains_iff (part text : List Char) : contains part text = true ↔ part <:+: text := by
  induction text with
  | nil => simp [contains]
  | cons c cs ih => rw [contains, Bool.or_eq_true, ih, List.isPrefixOf_iff_prefix, List.infix_cons_iff]

/-- `redact::is_masked_placeholder`. -/
def isMaskedPlaceholder (value : String) : Bool :=
  let v := trimChars value.toList
  let parts := v.splitOn '…'
  !v.isEmpty &&
    (v.all (fun c => c = '*' || c = '•') && 3 ≤ v.length ||
      contains "••••".toList v || contains ":***@".toList v || contains "=***".toList v ||
      "***@".toList.isPrefixOf v ||
      parts.map List.length = [4,4])

/-- The map that a list of variables is collected into: the last value of a key. -/
def lookup (vars : List EnvVar) (key : String) : Option String :=
  (vars.reverse.find? (fun v => v.key = key)).map EnvVar.value

def mergeVar (existing : List EnvVar) (overwrite : Bool) (acc : List EnvVar × EnvMergeStats) (var : EnvVar) :
    List EnvVar × EnvMergeStats :=
  if isMaskedPlaceholder var.value then (acc.1,{ acc.2 with unchanged := acc.2.unchanged+1 })
  else match lookup existing var.key with
    | none => (acc.1++[var],{ acc.2 with imported := acc.2.imported+1 })
    | some prev =>
      if prev = var.value then (acc.1,{ acc.2 with unchanged := acc.2.unchanged+1 })
      else if overwrite then (acc.1++[var],{ acc.2 with updated := acc.2.updated+1 })
      else (acc.1,{ acc.2 with skipped := acc.2.skipped+1 })

/-- The variables to write, and the counts. -/
def envVarsNeedingWrite (existing incoming : List EnvVar) (overwrite : Bool) : List EnvVar × EnvMergeStats :=
  incoming.foldl (mergeVar existing overwrite) ([],⟨0,0,0,0⟩)

end DevForge.Dotenv
