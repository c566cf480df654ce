import DevForge.Sql
import DevForge.FixedDigits
import DevForge.WakeGate

/-!
# Arguments of tool calls

The arguments of a call are a JSON value chosen by the model. Before anything
reads them, the identity of the thread is written into them and the members
are brought to the types of the tool's schema.
-/

set_option autoImplicit false

namespace DevForge

namespace WakeGate.Json

def members : Json → List (String × Json)
  | .obj ms => ms
  | _ => []

/-- `Value::get` of a member. -/
def get (v : Json) (key : String) : Option Json := v.members.lookup key

def asStr : Json → Option String
  | .str s => some s
  | _ => none

def asBool : Json → Option Bool
  | .bool b => some b
  | _ => none

/-- `get(key).and_then(as_str).unwrap_or("").trim()`. -/
def field (v : Json) (key : String) : String := trim (((v.get key).bind asStr).getD "")

/-- `Map::insert`. -/
def insertMember (key : String) (v : Json) : List (String × Json) → List (String × Json)
  | [] => [(key,v)]
  | (k,w)::ms => if k = key then (k,v)::ms else (k,w)::insertMember key v ms

def insert (w : Json) (key : String) (v : Json) : Json :=
  match w with
  | .obj ms => .obj (insertMember key v ms)
  | w => w

def remove (w : Json) (key : String) : Json :=
  match w with
  | .obj ms => .obj (ms.filter (fun m => m.1 ≠ key))
  | w => w

theorem lookup_insertMember (key : String) (v : Json) (ms : List (String × Json)) (k : String) :
    (insertMember key v ms).lookup k = if k = key then some v else ms.lookup k := by
  induction ms with
  | nil => simp [insertMember, Table.lookup_cons]
  | cons m ms ih =>
    obtain ⟨a,w⟩ := m
    rw [insertMember]
    by_cases ha : a = key
    · subst ha
      by_cases h : k = a <;> simp [Table.lookup_cons, h]
    · rw [if_neg ha, Table.lookup_cons, Table.lookup_cons, ih]
      by_cases h : k = a
      · simp [h, ha]
      · simp [h]

theorem get_insert_ne (w : Json) (key : String) (v : Json) (k : String) (h : k ≠ key) :
    (w.insert key v).get k = w.get k := by
  cases w with
  | obj ms => simp [insert, get, members, lookup_insertMember, h]
  | _ => rfl

theorem get_insert_of_get (w : Json) (key : String) (u v : Json) (h : w.get key = some u) :
    (w.insert key v).get key = some v := by
  cases w with
  | obj ms => simp [insert, get, members, lookup_insertMember]
  | _ => simp [get, members] at h

end WakeGate.Json

namespace ToolArguments
open WakeGate (Json)

/-- `to_lowercase`, for what the code compares with ASCII and French text. -/
def lowerChar (c : Char) : Char :=
  let n := c.toNat
  if n = 0x212A then 'k'
  else if 0xC0 ≤ n && n ≤ 0xDE && n ≠ 0xD7 then Char.ofNat (n+0x20)
  else c.toLower

def toLowercase (s : String) : String := String.ofList (s.toList.map lowerChar)

def contains (s pattern : String) : Bool := s.toList.tails.any pattern.toList.isPrefixOf

/-! ## Coercion by the schema -/

/-- Texts of JSON and of floating-point numbers are read by libraries. -/
structure Readers where
  fromStr : String → Option Json
  parseF64 : String → Option String
  roundF64 : String → Option ℤ

/-- The text of a number is that of a float exactly when it has one of these. -/
def isF64 (text : String) : Bool := text.toList.any (· ∈ ['.','e','E'])

def isDigit (c : Char) : Bool := '0' ≤ c && c ≤ '9'

def digits (cs : List Char) : Option ℕ :=
  if cs = [] || cs.any (!isDigit ·) then none
  else some (cs.foldl (fun n c => 10*n+(c.toNat - '0'.toNat)) 0)

theorem digits_toString (n : ℕ) : digits (toString n).toList = some n := by
  have hd : (toString n).toList = Nat.toDigits 10 n := Nat.toList_repr
  have hdigit : ∀ c ∈ (toString n).toList, isDigit c = true := by
    intro c hc
    have h := FixedDigits.isDigit_of_mem_toString n c hc
    rw [Char.isDigit, Bool.and_eq_true] at h
    exact Bool.and_eq_true .. |>.mpr ⟨h.1,h.2⟩
  rw [digits, if_neg]
  · rw [hd]
    exact congrArg some Nat.ofDigitChars_ten_toDigits
  · rw [Bool.or_eq_true, not_or]
    constructor
    · rw [hd]
      simp [Nat.toDigits_ne_nil]
    · rw [List.any_eq_true]
      rintro ⟨c,hc,hnot⟩
      simp [hdigit c hc] at hnot

/-- `parse::<i64>`. -/
def parseI64 (s : String) : Option ℤ :=
  let value := match s.toList with
    | '-'::cs => (digits cs).map (fun n => -(n : ℤ))
    | '+'::cs => (digits cs).map (fun n => (n : ℤ))
    | cs => (digits cs).map (fun n => (n : ℤ))
  value.filter (fun n => -2^63 ≤ n && n < 2^63)

structure Split where
  out : List String
  cur : List Char
  quote : Option Char
  depth : ℤ

def Split.push (s : Split) (c : Char) : Split := { s with cur := s.cur++[c] }

def doubleQuote : Char := Char.ofNat 34
def singleQuote : Char := Char.ofNat 39

def splitChar (sep : Char) (s : Split) (c : Char) : Split :=
  if (c = doubleQuote || c = singleQuote) && s.quote.isNone && s.cur.all isWhitespace then
    { s.push c with quote := some c }
  else if s.quote = some c then { s.push c with quote := none }
  else if (c = '(' || c = '[' || c = '{') && s.quote.isNone then
    { s.push c with depth := s.depth+1 }
  else if (c = ')' || c = ']' || c = '}') && s.quote.isNone then
    { s.push c with depth := s.depth-1 }
  else if c = sep && s.quote.isNone && s.depth ≤ 0 then
    { s with out := s.out++[String.ofList s.cur], cur := [] }
  else s.push c

def splitOutsideQuotes (s : String) (sep : Char) : List String :=
  let last := s.toList.foldl (splitChar sep) ⟨[],[],none,0⟩
  last.out++[String.ofList last.cur]

/-- `str::split` at a character. -/
def split (sep : Char) (s : String) : List String :=
  (s.toList.splitOn sep).map String.ofList

/-- `str::lines`. -/
def lines (s : String) : List String :=
  let parts := s.toList.splitOn '\n'
  let parts := if parts.getLast? = some [] then parts.dropLast else parts
  parts.map (fun l => String.ofList (if l.getLast? = some '\r' then l.dropLast else l))

def trimStart (p : Char → Bool) (s : String) : String := String.ofList (s.toList.dropWhile p)

/-- Without its bullet or number, and without quotes around it. -/
def cleanItem (s : String) : String :=
  let t := trimStart isWhitespace (trimStart (· ∈ ['-','*','•']) (trim s))
  let number := t.toList.takeWhile isDigit
  let rest := t.toList.dropWhile isDigit
  let t := if number ≠ [] && (['.',' '].isPrefixOf rest || [')',' '].isPrefixOf rest)
    then trimStart isWhitespace (String.ofList (rest.drop 2)) else t
  trim (trimBy (· ∈ [doubleQuote,singleQuote]) (trim t))

/-- The steps of a plan are sentences: their commas separate nothing. -/
def propItemsAreProse (prop : Json) : Bool :=
  match (prop.get "description").bind Json.asStr with
  | some d => contains (toLowercase d) "étape" || contains (toLowercase d) "phrase"
  | none => false

def items (prop : Json) (t : String) : List String :=
  if t.toList.head? = some '[' && t.toList.getLast? = some ']' then
    splitOutsideQuotes (String.ofList t.toList.tail.dropLast) ','
  else if t.toList.any (· = '\n') then lines t
  else if t.toList.any (· = ';') then split ';' t
  else if t.toList.any (· = ',') && !propItemsAreProse prop then splitOutsideQuotes t ','
  else [t]

def itemValue (itemType : String) (i : String) : Json :=
  if itemType = "integer" then
    match parseI64 i with
    | some n => .num (toString n)
    | none => .str i
  else .str i

def stringToArray (read : Readers) (s : String) (prop : Json) : List Json :=
  let t := trim s
  if t = "" then []
  else match read.fromStr t with
    | some (.arr vs) => vs
    | _ =>
      let itemType := (((prop.get "items").bind (·.get "type")).bind Json.asStr).getD "string"
      (((items prop t).map cleanItem).filter (· ≠ "")).map (itemValue itemType)

def coerceValue (read : Readers) (expected : String) (prop : Json) : Json → Option Json
  | .str s =>
    if expected = "array" then some (.arr (stringToArray read s prop))
    else if expected = "boolean" then
      if toLowercase (trim s) ∈ ["true","1","yes","oui"] then some (.bool true)
      else if toLowercase (trim s) ∈ ["false","0","no","non"] then some (.bool false)
      else none
    else if expected = "integer" then (parseI64 (trim s)).map (fun n => .num (toString n))
    else if expected = "number" then (read.parseF64 (trim s)).map .num
    else if expected = "object" then
      match read.fromStr (trim s) with
      | some (.obj ms) => some (.obj ms)
      | _ => none
    else none
  | .num text =>
    if expected = "integer" && isF64 text then
      (read.roundF64 text).map (fun n => .num (toString n))
    else if expected = "string" then some (.str text)
    else none
  | .bool b => if expected = "string" then some (.str (toString b)) else none
  | _ => none

def coerceMember (read : Readers) (args : Json) (p : String × Json) : Json :=
  match (p.2.get "type").bind Json.asStr, args.get p.1 with
  | some expected, some current =>
    match coerceValue read expected p.2 current with
    | some fixed => args.insert p.1 fixed
    | none => args
  | _, _ => args

def coerceArgs (read : Readers) (schema args : Json) : Json :=
  match schema.get "properties" with
  | some (.obj props) => props.foldl (coerceMember read) args
  | _ => args

/-- What a property of the schema makes of the member of its name. -/
def coerced (read : Readers) (prop : Json) (current : Option Json) : Option Json :=
  match (prop.get "type").bind Json.asStr, current with
  | some expected, some v => (coerceValue read expected prop v).or (some v)
  | _, _ => current

theorem coerceMember_get (read : Readers) (args : Json) (p : String × Json) (k : String) :
    (coerceMember read args p).get k =
      if k = p.1 then coerced read p.2 (args.get k) else args.get k := by
  unfold coerceMember coerced
  by_cases hk : k = p.1
  · rw [if_pos hk, hk]
    cases (p.2.get "type").bind Json.asStr with
    | none => rfl
    | some expected =>
      cases hg : args.get p.1 with
      | none => exact hg
      | some current =>
        cases hc : coerceValue read expected p.2 current with
        | none => simp [hc, hg]
        | some fixed => simp [hc, Json.get_insert_of_get args p.1 current fixed hg]
  · rw [if_neg hk]
    split
    · split
      · exact Json.get_insert_ne _ _ _ _ hk
      · rfl
    · rfl

/-- What the defaults and the receipts read of the context of a turn. -/
structure Context where
  projectUuid : Option String
  agentUuid : Option String
  agentRole : Option String
  agentKind : Option String
  gitOwner : Option String
  gitRepo : Option String
  gitBranch : Option String
  userUuid : Option String
  runUuid : Option String
  unattended : Bool

def MEMORY_IDENTITY_ARGS : List String :=
  ["user_uuid","project_uuid","caller_agent_uuid","caller_agent_role","caller_agent_kind"]

def ROUTINE_IDENTITY_ARGS : List String := ["project_uuid","caller_agent_uuid"]

def DELEGATE_IDENTITY_ARGS : List String := ["project_uuid","caller_agent_uuid","parent_run_uuid"]

/-- The members that the server imposes: the model's own are dropped. -/
def impose (keys : List String) (values : List (String × Option String)) (args : Json) : Json :=
  values.foldl
    (fun args v => match v.2.filter (· ≠ "") with
      | some u => args.insert v.1 (.str u)
      | none => args)
    (keys.foldl Json.remove args)

/-- A member filled in when the model left it out or empty. -/
def fillIn (key : String) (value : Option String) (args : Json) : Json :=
  match value with
  | some v =>
    if ((args.get key).bind Json.asStr).getD "" = "" then args.insert key (.str v) else args
  | none => args

def ownProject (project : Option String) (args : Json) : Json :=
  match project with
  | some uuid =>
    if args.field "project_uuid" = "" || args.field "project_uuid" ≠ uuid
    then args.insert "project_uuid" (.str uuid) else args
  | none => args

def injectToolDefaults (tool : String) (ctx : Context) (args : Json) : Json :=
  if "memory_".toList.isPrefixOf tool.toList then
    impose MEMORY_IDENTITY_ARGS
      [("user_uuid",ctx.userUuid),("project_uuid",ctx.projectUuid),
       ("caller_agent_uuid",ctx.agentUuid),("caller_agent_role",ctx.agentRole),
       ("caller_agent_kind",ctx.agentKind)] args
  else if tool ∈ ["create_routine","list_routines","delete_routine"] then
    impose ROUTINE_IDENTITY_ARGS
      [("project_uuid",ctx.projectUuid),("caller_agent_uuid",ctx.agentUuid)] args
  else if tool = "delegate_task" then
    impose DELEGATE_IDENTITY_ARGS
      [("project_uuid",ctx.projectUuid),("caller_agent_uuid",ctx.agentUuid),
       ("parent_run_uuid",ctx.runUuid)] args
  else
    fillIn "branch" ctx.gitBranch (fillIn "repo" ctx.gitRepo (fillIn "owner" ctx.gitOwner
      (fillIn "caller_agent_uuid" ctx.agentUuid (ownProject ctx.projectUuid args))))

def ALWAYS_REMOTE : List String :=
  ["create_github_fix","sync_workdir_to_github","publish_to_github","create_github_repo",
   "trigger_deploy","cancel_deployment","upsert_env_var"]

def MCP_WRITES : List String :=
  ["create_pull_request","create_or_update_file","create_branch","push_files",
   "merge_pull_request","delete_file","create_repository","update_pull_request"]

/-- The writes of remote servers are recognised by the end of their name. -/
def mcpWrites (name : String) : Bool :=
  MCP_WRITES.any (fun w => w.toList.isSuffixOf (toLowercase name).toList)

/-- The tool that the guard reads in a call through MCP. -/
def guardedMcpTool (args : Json) : String :=
  trim ((((((args.get "tool").or (args.get "tool_name")).or (args.get "name"))).bind
    Json.asStr).getD "")

def isRemoteWrite (tool : String) (args : Json) : Bool :=
  if tool ∈ ALWAYS_REMOTE then true
  else if tool = "write_project_file" then
    ((args.get "mode").bind Json.asStr).map trim = some "github"
  else if tool = "mcp_call_tool" then mcpWrites (guardedMcpTool args)
  else false

def isGithubPush (tool : String) (args : Json) : Bool :=
  if tool ∈ ["create_github_fix","sync_workdir_to_github","publish_to_github"] then true
  else if tool = "write_project_file" || tool = "mcp_call_tool" then isRemoteWrite tool args
  else false

def AUTONOMOUS_TOOLS : List String := ["trigger_deploy"]

/-! ## What the executors do with the same arguments -/

/-- `write_project_file` in the mode that commits through GitHub. -/
def writesToGithub (args : Json) : Bool :=
  let path := args.field "path"
  let mode := trim (((args.get "mode").bind Json.asStr).getD "local")
  args.field "project_uuid" ≠ "" && path ≠ "" && !contains path ".." &&
    path.toList.head? ≠ some '/' && mode = "github"

def isWorkdirMcpAlias (serverId : String) : Bool :=
  let s := toAsciiLowercase (trim serverId)
  s ∈ ["devforge-workdir","devforge_workdir","workdir","local-workdir","local_workdir",
    "project-workdir","project_workdir","atelier","local"] || contains s "workdir"

/-- The remote tool that `mcp_call_tool` calls. -/
def remoteTool (args : Json) : Option String :=
  let serverId := args.field "server_id"
  let tool := args.field "tool"
  if serverId = "" || tool = "" || isWorkdirMcpAlias serverId then none else some tool

/-- The executor turns the call into a push or a remote publication. -/
def publishes (tool : String) (args : Json) : Bool :=
  tool ∈ ["create_github_fix","sync_workdir_to_github","publish_to_github","create_github_repo",
    "trigger_deploy"] ||
  (tool = "write_project_file" && writesToGithub args) ||
  (tool = "mcp_call_tool" && (remoteTool args).any mcpWrites)

/-- `parameters` of the two tools whose arguments decide. -/
def writeProjectFileProps : List (String × Json) :=
  ["project_uuid","path","content","mode","commit_message","branch"].map
    (fun k => (k,.obj [("type",.str "string")]))

def writeProjectFileSchema : Json :=
  .obj [("type",.str "object"),("properties",.obj writeProjectFileProps),
    ("required",.arr [.str "project_uuid",.str "path",.str "content"])]

def mcpCallToolProps : List (String × Json) :=
  [("server_id",.obj [("type",.str "string")]),("tool",.obj [("type",.str "string")]),
   ("arguments",.obj [("type",.str "object")])]

def mcpCallToolSchema : Json :=
  .obj [("type",.str "object"),("properties",.obj mcpCallToolProps),
    ("required",.arr [.str "server_id",.str "tool"])]

/-- `parameters` in the registry, by name. -/
structure Schemas where
  schema : String → Option Json
  writeProjectFile : schema "write_project_file" = some writeProjectFileSchema
  mcpCallTool : schema "mcp_call_tool" = some mcpCallToolSchema

/-- The arguments as the guard and the executor get them. -/
def prepared (read : Readers) (schemas : Schemas) (ctx : Context) (tool : String) (args : Json) :
    Json :=
  match schemas.schema tool with
  | some schema => coerceArgs read schema (injectToolDefaults tool ctx args)
  | none => injectToolDefaults tool ctx args

theorem digit_toNat (d : Char) (h : isDigit d) : 48 ≤ d.toNat ∧ d.toNat ≤ 57 := by
  simpa [isDigit, Char.le_def, UInt32.le_iff_toNat_le] using h

theorem isWhitespace_digit (d : Char) (h : isDigit d) : isWhitespace d = false := by
  have hn := digit_toNat d h
  simp only [isWhitespace, List.mem_cons, List.not_mem_nil, or_false, Bool.or_eq_false_iff,
    Bool.and_eq_false_iff, decide_eq_false_iff_not]
  omega

end ToolArguments

end DevForge
