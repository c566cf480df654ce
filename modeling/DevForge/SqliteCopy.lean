import DevForge.Dotenv
import DevForge.QuotedParts
import DevForge.Sql

/-!
# Copy of a SQLite file as PostgreSQL statements

Tables, columns, indexes and rows are what SQLite answers; a cell is what each
attempt to read it gives. The script is cut into statements again before it is
run. A text that a floating-point number is printed as, and the reading of
bytes as text, come from the standard library.
-/

set_option autoImplicit false

namespace DevForge.SqliteCopy

inductive ColKind where
  | int
  | float
  | bool
  | bytes
  | numeric
  | text
  deriving DecidableEq, Repr

structure Column where
  name : String
  kind : ColKind
  notNull : Bool
  defaultSql : Option String
  pk : ℤ
  deriving DecidableEq, Repr

/-- A row of `PRAGMA table_info`. -/
structure ColumnInfo where
  name : String
  type : String
  notNull : ℤ
  pk : ℤ
  default : Option String
  deriving DecidableEq, Repr

/-- A row of `PRAGMA index_list`, with the names of `PRAGMA index_info`. -/
structure IndexInfo where
  name : String
  origin : String
  unique : ℤ
  columns : List String
  deriving DecidableEq, Repr

/-- A floating-point number and the text it is printed as: digits, a point and a sign when it
is finite. -/
structure Real64 where
  finite : Bool
  display : String
  plain : finite = true → ∀ c ∈ display.toList, c.isDigit ∨ c = '.' ∨ c = '-'

/-- What reading a cell as each type gives. -/
structure Cell where
  isNull : Bool
  int : Option ℤ
  float : Option Real64
  text : Option String
  bytes : Option (List (Fin 256))

structure Table where
  name : String
  columns : List ColumnInfo
  indexes : List IndexInfo
  rows : List (List Cell)

/-! ## Quoting -/

def isAsciiAlphabetic (c : Char) : Bool :=
  (65 ≤ c.toNat && c.toNat ≤ 90) || (97 ≤ c.toNat && c.toNat ≤ 122)

def isAsciiDigit (c : Char) : Bool := 48 ≤ c.toNat && c.toNat ≤ 57

def safeIdent (name : String) : Bool :=
  match name.toList with
  | [] => false
  | c::cs => (isAsciiAlphabetic c || c = '_') &&
    cs.all (fun d => isAsciiAlphabetic d || isAsciiDigit d || d = '_') && name.utf8ByteSize ≤ 63

def QUOTE : Char := Char.ofNat 39
def IDENT_QUOTE : Char := Char.ofNat 34

def quoteIdent (name : String) : String :=
  String.ofList (IDENT_QUOTE::(QuotedParts.doubled IDENT_QUOTE name.toList++[IDENT_QUOTE]))

/-- The zero byte is dropped. -/
def sqlString (value : String) : String :=
  String.ofList (QUOTE::(QuotedParts.doubled QUOTE
    (value.toList.filter (fun c => c ≠ Char.ofNat 0))++[QUOTE]))

/-! ## Statements -/

def asciiUpper (c : Char) : Char :=
  if 97 ≤ c.toNat && c.toNat ≤ 122 then Char.ofNat (c.toNat-32) else c

def toAsciiUppercase (s : String) : String := String.ofList (s.toList.map asciiUpper)

def classify (ty : String) : ColKind :=
  let u := (toAsciiUppercase ty).toList
  let has (part : String) : Bool := Dotenv.contains part.toList u
  if has "BOOL" then .bool
  else if has "INT" then .int
  else if has "REAL" || has "FLOA" || has "DOUB" then .float
  else if has "BLOB" then .bytes
  else if has "NUM" || has "DEC" then .numeric
  else .text

def pgType : ColKind → String
  | .int => "BIGINT"
  | .float => "DOUBLE PRECISION"
  | .bool => "BOOLEAN"
  | .bytes => "BYTEA"
  | .numeric => "NUMERIC"
  | .text => "TEXT"

def dropSign : List Char → List Char
  | c::cs => if c = '+' ∨ c = '-' then cs else c::cs
  | [] => []

/-- `parse::<i64>` succeeds. -/
def parsesI64 (cs : List Char) : Bool :=
  let digits := dropSign cs
  let n := digits.foldl (fun n c => n*10+(c.toNat-48)) 0
  !digits.isEmpty && digits.all isAsciiDigit &&
    (if cs.head? = some '-' then n ≤ 2^63 else n < 2^63)

def isExponent : List Char → Bool
  | [] => true
  | c::cs => (c = 'e' || c = 'E') && !(dropSign cs).isEmpty && (dropSign cs).all isAsciiDigit

/-- A sign, digits with a point among them or none, an exponent or none. -/
def isNumber (cs : List Char) : Bool :=
  let whole := (dropSign cs).takeWhile isAsciiDigit
  match (dropSign cs).dropWhile isAsciiDigit with
  | '.':: rest => (!whole.isEmpty || !(rest.takeWhile isAsciiDigit).isEmpty) &&
      isExponent (rest.dropWhile isAsciiDigit)
  | rest => !whole.isEmpty && isExponent rest

/-- The names of what is no finite number. -/
def isNonFinite (cs : List Char) : Bool :=
  ["INF","INFINITY","NAN"].contains (toAsciiUppercase (String.ofList (dropSign cs)))

/-- `parse::<f64>` succeeds. -/
def parsesF64 (cs : List Char) : Bool := isNumber cs || isNonFinite cs

/-- The parts between doubled quote signs; `cur` is the part read so far. -/
def splitPairs (cur : List Char) : List Char → List (List Char)
  | [] => [cur]
  | c::cs =>
    if c = QUOTE then
      match cs with
      | [] => [cur++[c]]
      | d::ds => if d = QUOTE then cur::splitPairs [] ds else splitPairs (cur++[c]) (d::ds)
    else splitPairs (cur++[c]) cs

def KEYWORDS : List String := ["NULL","CURRENT_TIMESTAMP","CURRENT_DATE","CURRENT_TIME"]

def safeDefault (raw : String) : Option String :=
  let t := trim raw
  let cs := t.toList
  if t = "" ∨ cs.contains ';' ∨ Dotenv.contains "--".toList cs ∨ Dotenv.contains "/*".toList cs then none
  else if KEYWORDS.contains (toAsciiUppercase t) then some (toAsciiUppercase t)
  else if parsesI64 cs ∨ parsesF64 cs then some t
  else
    let inner := (cs.drop 1).dropLast
    if cs.head? = some QUOTE ∧ cs.getLast? = some QUOTE ∧ 2 ≤ cs.length ∧
        inner.contains (Char.ofNat 92) = false ∧
        (splitPairs [] inner).all (fun p => !p.contains QUOTE) then some t
    else none

/-- Every column, or the first whose name is refused. -/
def loadColumns (table : String) : List ColumnInfo → Except String (List Column)
  | [] => .ok []
  | i::is =>
    if safeIdent i.name then
      match loadColumns table is with
      | .error e => .error e
      | .ok cs => .ok (⟨i.name,classify i.type,i.notNull ≠ 0,i.default.bind safeDefault,i.pk⟩::cs)
    else .error ("colonne refusée : "++table++"."++i.name)

def primary (columns : List Column) : List Column := columns.filter (fun c => 0 < c.pk)

def singleIntPk (columns : List Column) : Bool :=
  match primary columns with
  | [c] => c.kind = .int
  | _ => false

def declaration (single : Bool) (col : Column) : String :=
  if single ∧ 0 < col.pk then
    quoteIdent col.name++" BIGINT GENERATED BY DEFAULT AS IDENTITY PRIMARY KEY"
  else
    quoteIdent col.name++" "++pgType col.kind++(if col.notNull ∧ col.pk = 0 then " NOT NULL" else "")++
      match col.defaultSql with
      | some d => " DEFAULT "++d
      | none => ""

def createTable (table : String) (columns : List Column) : String :=
  let single := singleIntPk columns
  let keys := (primary columns).mergeSort (fun a b => a.pk ≤ b.pk)
  let parts := columns.map (declaration single)++
    if !single && primary columns ≠ [] then
      ["PRIMARY KEY ("++", ".intercalate (keys.map (fun c => quoteIdent c.name))++")"]
    else []
  "CREATE TABLE IF NOT EXISTS "++quoteIdent table++" (\n  "++",\n  ".intercalate parts++"\n)"

def indexName (table : String) (i : IndexInfo) (columns : List String) : Option String :=
  if safeIdent i.name ∧ ¬"sqlite_".toList.isPrefixOf i.name.toList then some i.name
  else if i.unique ≠ 0 then some (table++"_"++"_".intercalate columns++"_key")
  else none

def createIndex (table : String) (i : IndexInfo) : Option String :=
  let columns := i.columns.filter safeIdent
  if i.origin = "pk" ∨ columns = [] then none
  else (indexName table i columns).bind fun name =>
    if safeIdent name then
      some ("CREATE "++(if i.unique ≠ 0 then "UNIQUE " else "")++"INDEX IF NOT EXISTS "++quoteIdent name++
        " ON "++quoteIdent table++" ("++", ".intercalate (columns.map quoteIdent)++")")
    else none

def createIndexes (table : String) (is : List IndexInfo) : List String :=
  is.filterMap (createIndex table)

def hexDigit (n : ℕ) : Char := ("0123456789abcdef".toList[n]?).getD '0'

def hexEncode (bytes : List (Fin 256)) : String :=
  String.ofList (bytes.flatMap (fun b => [hexDigit (b.val/16),hexDigit (b.val%16)]))

variable (lossy : List (Fin 256) → String)

def rowAsText (cell : Cell) : String :=
  match cell.text with
  | some s => s
  | none => match cell.int with
    | some n => toString n
    | none => match cell.float with
      | some x => x.display
      | none => match cell.bytes with
        | some b => lossy b
        | none => ""

def cellLiteral (cell : Cell) (kind : ColKind) : String :=
  if cell.isNull then "NULL"
  else match kind with
  | .int => match cell.int with
    | some n => toString n
    | none => sqlString (rowAsText lossy cell)
  | .float => match cell.float.filter (fun x => x.finite) with
    | some x => x.display
    | none => match cell.int with
      | some n => toString n
      | none => "NULL"
  | .bool => match cell.int with
    | some n => if n = 0 then "FALSE" else "TRUE"
    | none =>
      let t := toAsciiLowercase (rowAsText lossy cell)
      if t = "t" ∨ t = "true" ∨ t = "1" then "TRUE"
      else if t = "f" ∨ t = "false" ∨ t = "0" then "FALSE"
      else "NULL"
  | .bytes => match cell.bytes with
    | some b => String.ofList [QUOTE,Char.ofNat 92,'x']++hexEncode b++String.ofList [QUOTE]++"::bytea"
    | none => "NULL"
  | .numeric | .text => sqlString (rowAsText lossy cell)

/-- One `INSERT` for each row; a row has a cell for each column. -/
def copyRows (table : String) (columns : List Column) (rows : List (List Cell)) :
    Except String (List String) :=
  let listed := ", ".intercalate (columns.map (fun c => quoteIdent c.name))
  if 100000 < rows.length then
    .error ("table "++table++" : "++toString rows.length++" lignes, import limité à 100000")
  else .ok (rows.map fun row =>
    "INSERT INTO "++quoteIdent table++" ("++listed++") VALUES ("++
      ", ".intercalate (List.zipWith (fun cell col => cellLiteral lossy cell col.kind) row columns)++")")

def identitySetval (table : String) (columns : List Column) : Option String :=
  match primary columns with
  | [c] =>
    if c.kind = .int then
      some ("SELECT setval(pg_get_serial_sequence("++String.ofList [QUOTE]++"public."++
        String.ofList [IDENT_QUOTE]++table++String.ofList [IDENT_QUOTE,QUOTE]++", "++
        String.ofList [QUOTE]++c.name++String.ofList [QUOTE]++"), COALESCE((SELECT MAX("++
        quoteIdent c.name++") FROM "++quoteIdent table++"), 1), true)")
    else none
  | _ => none

/-- The statements that make the tables, and those that fill them. -/
structure Emitted where
  schema : List String
  inserts : List String
  deriving DecidableEq, Repr

def emitTable (t : Table) : Except String (Option Emitted) :=
  if safeIdent t.name then
    match loadColumns t.name t.columns with
    | .error e => .error e
    | .ok columns =>
      if columns = [] then .ok none
      else match copyRows lossy t.name columns t.rows with
        | .error e => .error e
        | .ok inserts => .ok (some ⟨createTable t.name columns::createIndexes t.name t.indexes,
            inserts++if 0 < t.rows.length then (identitySetval t.name columns).toList else []⟩)
  else .error ("table SQLite refusée : "++t.name)

def emitTables : List Table → Except String (List Emitted)
  | [] => .ok []
  | t::ts =>
    match emitTable lossy t with
    | .error e => .error e
    | .ok e? => match emitTables ts with
      | .error e => .error e
      | .ok es => .ok (e?.toList++es)

/-- The statements of the copy, in order. -/
def statements (es : List Emitted) : List String :=
  ["BEGIN"]++es.flatMap Emitted.schema++
    (if 0 < es.length then
      ["SET session_replication_role = replica"]++es.flatMap Emitted.inserts++
        ["SET session_replication_role = DEFAULT"]
    else [])++["COMMIT"]

/-- Each statement is followed by its end and a line break. -/
def script (stmts : List String) : String :=
  String.ofList (stmts.flatMap (fun s => s.toList++[ ';','\n']))

/-- `plan_from_pool`: the statements and their script. -/
def plan (tables : List Table) : Except String (List String × String) :=
  match emitTables lossy tables with
  | .error e => .error e
  | .ok es => .ok (statements es,script (statements es))

/-! ## The cut -/

/-- What was read of a statement, unless it is blank. -/
def piece (cur : List Char) : List String :=
  if trim (String.ofList cur) = "" then [] else [trim (String.ofList cur)]

def splitFrom : Bool → List Char → List Char → List String
  | _, cur, [] => piece cur
  | true, cur, c::cs =>
    if c = QUOTE then
      match cs with
      | [] => splitFrom false (cur++[c]) []
      | d::ds =>
        if d = QUOTE then splitFrom true (cur++[c]++[d]) ds else splitFrom false (cur++[c]) (d::ds)
    else splitFrom true (cur++[c]) cs
  | false, cur, c::cs =>
    if c = QUOTE then splitFrom true (cur++[c]) cs
    else if c = ';' then piece cur++splitFrom false [] cs
    else splitFrom false (cur++[c]) cs

def splitStatements (sql : String) : List String := splitFrom false [] sql.toList

end DevForge.SqliteCopy
