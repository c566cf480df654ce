import DevForge.PreviewEnv
import Mathlib.Data.List.DropRight

/-!
# Hosts derived from the production host

The dev instance and the previews of a project have hosts of their own, made from its production
host, its zone and its slug.
-/

set_option autoImplicit false

namespace DevForge.DerivedHosts
open Dotenv

structure Project where
  productionUrl : Option String
  domainApex : String
  slug : String
  name : String

/-- Labels with a dot between two of them. -/
def dotted (labels : List (List Char)) : List Char := ['.'].intercalate labels

def isAsciiAlphanumeric (c : Char) : Bool :=
  let n := c.toNat
  48 ≤ n && n ≤ 57 || 65 ≤ n && n ≤ 90 || 97 ≤ n && n ≤ 122

def asciiLowercase (c : Char) : Char :=
  if 65 ≤ c.toNat && c.toNat ≤ 90 then Char.ofNat (c.toNat+32) else c

/-- `trim().trim_end_matches('.').to_ascii_lowercase()`. -/
def canonical (raw : List Char) : List Char := ((trimChars raw).rdropWhile (· = '.')).map asciiLowercase

def canonicalApex (apex : Option (List Char)) : Option (List Char) := (apex.map canonical).filter (fun a => !a.isEmpty)

/-- The labels of a host that has two of them at least. -/
def hostLabels (host : List Char) : Option (List (List Char)) :=
  let labels := host.splitOn '.'
  if labels.length < 2 || labels.any List.isEmpty then none else some labels

def www : List Char := "www".toList

def devFqdn (prodFqdn : List Char) (apex : Option (List Char)) : Option (List Char) :=
  let host := canonical prodFqdn
  (hostLabels host).map (fun labels =>
    let apex := canonicalApex apex
    let rest := dotted labels.tail
    if labels.length = 2 || apex = some host then "dev.".toList++host
    else if labels.headD [] = www && (labels.length = 3 || apex = some rest) then "dev.".toList++rest
    else "dev-".toList++labels.headD []++ '.'::rest)

def apexOf (p : Project) : Option (List Char) :=
  if PreviewEnv.isBlank p.domainApex then none else some p.domainApex.toList

def devUrlFor (p : Project) : Option (List Char) :=
  (p.productionUrl.bind (fun url => PreviewEnv.fqdnFromUrl url.toList)).bind (fun fqdn =>
    (devFqdn fqdn (apexOf p)).map ("https://".toList++·))

def devHostFor (p : Project) : Option (List Char) := (devUrlFor p).bind PreviewEnv.fqdnFromUrl

/-! ## Previews -/

def trimHyphens (l : List Char) : List Char := l.rdropWhile (· = '-')

def slugChar (c : Char) : Char := if isAsciiAlphanumeric c then c else '-'

/-- A hyphen is left out where one stands before it or nothing does. -/
def slugStep (out : List Char) (c : Char) : List Char :=
  if slugChar c = '-' && (out.isEmpty || out.getLast? = some '-') then out else out++[slugChar c]

def slugify (raw : List Char) : List Char := trimHyphens (((trimChars raw).map asciiLowercase).foldl slugStep [])

def previewStart (pr : ℤ) : List Char := "pr-".toList++(toString pr).toList++['-']

def previewFqdn (prodFqdn : List Char) (apex : Option (List Char)) (pr : ℤ) (slug : List Char) : Option (List Char) :=
  let host := canonical prodFqdn
  if pr ≤ 0 then none
  else (hostLabels host).map (fun labels =>
    let zone := if labels.length = 2 || canonicalApex apex = some host then host else dotted labels.tail
    let start := previewStart pr
    let s := if (slugify slug).isEmpty then slugify (labels.headD []) else slugify slug
    let label := trimHyphens (start++trimHyphens (s.take (63-start.length)))
    label++ '.'::zone)

def slugOf (p : Project) : List Char := if (trimChars p.slug.toList).isEmpty then p.name.toList else p.slug.toList

def previewHostFor (p : Project) (pr : ℤ) : Option (List Char) :=
  (p.productionUrl.bind (fun url => PreviewEnv.fqdnFromUrl url.toList)).bind (fun fqdn =>
    previewFqdn fqdn (apexOf p) pr (slugOf p))

end DevForge.DerivedHosts
