import DevForge.JsonText
import DevForge.SortedMap
import Mathlib.Data.String.Basic

/-!
# Results of tools for the model

A result that is too long is made shorter, a long text keeping its head and its tail and a long
array its first items, at five levels one after the other. The last resort is an excerpt of the
whole text.
-/

set_option autoImplicit false

namespace DevForge.Truncate
open WakeGate (Json)
open WakeGate.Json (asStr)

def READ_FILE_BUDGET : ℕ := 12000

def LOCKFILE_BUDGET : ℕ := 2000

def MAX_ARRAY_ITEMS : ℕ := 50

def LONG_TEXT_KEYS : List String :=
  ["content","logs","logs_tail","stdout","stderr","output","unified_diff","previous_content","diff","excerpt","body"]

def fileName (path : String) : List Char :=
  (path.toList.reverse.takeWhile (fun c => c ≠ '/' && c ≠ JsonText.backslash)).reverse

def isLockfile (path : String) : Bool :=
  let name := (ToolArguments.toLowercase (String.ofList (fileName path))).toList
  ["package-lock.json","npm-shrinkwrap.json","pnpm-lock.yaml","yarn.lock"].any (fun l => name = l.toList) ||
    ".lock".toList.isSuffixOf name || name = "bun.lockb".toList

def startsWithLogs (key : String) : Bool := "logs".toList.isPrefixOf key.toList

def tailFirst (key : String) : Bool := startsWithLogs key || key = "stderr" || key = "output" || key = "stdout"

def marker (omitted : ℕ) : List Char :=
  '\n':: '…':: '['::((toString omitted).toList++" caractères omis]…\n".toList)

/-- The head and the tail of a text, with a note on what is between. -/
def headTail (s : List Char) (head tail : ℕ) : List Char :=
  if s.length ≤ head+tail then s
  else s.take head++marker (s.length-head-tail)++s.drop (s.length-tail)

structure Limits where
  head : ℕ
  tail : ℕ
  logHead : ℕ
  logTail : ℕ
  other : ℕ

def Limits.level (level : ℕ) : Limits where
  head := 2000/2^level
  tail := 4000/2^level
  logHead := 1000/2^level
  logTail := 5000/2^level
  other := 4000/2^level

def shrinkText (s key : String) (lim : Limits) (lockfile : Bool) : String :=
  let cut := fun head tail => String.ofList (headTail s.toList head tail)
  if lockfile && (key = "content" || key = "previous_content" || key = "unified_diff") then
    cut (LOCKFILE_BUDGET/2) (LOCKFILE_BUDGET/2-200)
  else if LONG_TEXT_KEYS.contains key || startsWithLogs key then
    let (h,t) := if tailFirst key then (lim.logHead,lim.logTail) else (lim.head,lim.tail)
    if h+t < s.toList.length then cut h t else s
  else if lim.other < s.toList.length then cut (lim.other/2) (lim.other/2)
  else s

/-- The members of a map, in the order of their keys. -/
def insert (k : String) (v : Json) (ms : List (String × Json)) : List (String × Json) := SortedMap.put k (fun _ => v) ms

def lockfileAt (v : Json) : Bool := ((v.get "path").bind asStr).any isLockfile

/-- What is noted next to an array of which items are left out. -/
def noteOmitted (k : String) (v : Json) (out : List (String × Json)) : List (String × Json) :=
  match v with
  | .arr vs =>
    if MAX_ARRAY_ITEMS < vs.length then insert (k++"_omitted") (.num (toString (vs.length-MAX_ARRAY_ITEMS))) out else out
  | _ => out

mutual

def shrink (key : String) (lim : Limits) (lockfile : Bool) : Json → Json
  | .str s => .str (shrinkText s key lim lockfile)
  | .arr vs => .arr ((shrinkList key lim lockfile vs).take MAX_ARRAY_ITEMS)
  | .obj ms => .obj (shrinkMembers lim (lockfile || lockfileAt (.obj ms)) [] ms)
  | v => v

def shrinkList (key : String) (lim : Limits) (lockfile : Bool) : List Json → List Json
  | [] => []
  | v::vs => shrink key lim lockfile v::shrinkList key lim lockfile vs

def shrinkMembers (lim : Limits) (lockfile : Bool) (out : List (String × Json)) :
    List (String × Json) → List (String × Json)
  | [] => out
  | (k,v)::ms => shrinkMembers lim lockfile (noteOmitted k v (insert k (shrink k lim lockfile v) out)) ms

end

mutual

def hasArrayOver (n : ℕ) : Json → Bool
  | .arr vs => n < vs.length || anyArrayOver n vs
  | .obj ms => anyMemberOver n ms
  | _ => false

def anyArrayOver (n : ℕ) : List Json → Bool
  | [] => false
  | v::vs => hasArrayOver n v || anyArrayOver n vs

def anyMemberOver (n : ℕ) : List (String × Json) → Bool
  | [] => false
  | (_,v)::ms => hasArrayOver n v || anyMemberOver n ms

end

def HINT : String := "Fichier long : relis la partie utile avec offset (1re ligne) et limit (nb de lignes)."

/-- What the reading of a file returns: the file, or its head and tail with a hint. -/
def readFile (result : Json) (full : List Char) : List Char :=
  let content := (result.get "content").bind asStr
  let length := (content.map (fun c => c.toList.length)).getD 0
  if length ≤ READ_FILE_BUDGET && full.length ≤ READ_FILE_BUDGET+2000 then full
  else
    match result with
    | .obj ms =>
      let cut := (content.map (fun c => insert "content" (.str (String.ofList (headTail c.toList 4000 7000))) ms)).getD ms
      JsonText.text (.obj (insert "hint" (.str HINT) (insert "truncated" (.bool true) cut)))
    | v => JsonText.text v

/-- The text of a result at one of the levels. -/
def levelText (result : Json) (lockfile : Bool) (level : ℕ) : List Char :=
  JsonText.text (shrink "" (.level level) lockfile result)

def excerpt (result : Json) (full : List Char) (budget : ℕ) : Json :=
  .obj [("excerpt",.str (String.ofList (headTail full (budget/3) (budget/2)))),("ok",(result.get "ok").getD .null),
    ("truncated",.bool true)]

def forModel (tool : String) (args result : Json) (budget : ℕ) : List Char :=
  let full := JsonText.text result
  let lockfile := lockfileAt args || lockfileAt result
  if tool = "read_project_file" && !lockfile then readFile result full
  else if full.length ≤ budget && !lockfile && !hasArrayOver MAX_ARRAY_ITEMS result then full
  else
    let shorter := (List.range 5).map (levelText result lockfile)
    (shorter.find? (fun s => s.length ≤ budget)).getD (JsonText.text (excerpt result full budget))

end DevForge.Truncate
