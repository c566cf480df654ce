import DevForge.Redact

/-!
# What a redacted JSON value still shows

A string under a sensitive key, or directly in a container of secrets, is shown masked at
whatever depth the key stands. The lists and the objects that a container holds are walked by
the ordinary rules.
-/

set_option autoImplicit false

namespace DevForge.SecretsMasked
open Redact
open WakeGate (Json)
open Dotenv (isMaskedPlaceholder)

/-! ## Paths into a value -/

inductive Step where
  | key (k : String)
  | index (i : ℕ)
deriving DecidableEq, Repr

def valueAt : List Step → Json → Option Json
  | [], v => some v
  | .key k::p, .obj ms => (ms.lookup k).bind (valueAt p)
  | .index i::p, .arr vs => vs[i]?.bind (valueAt p)
  | _, _ => none

/-- The path goes through a sensitive key or through the key of a container. -/
def beneath (p : List Step) : Bool :=
  p.any (fun s => match s with
    | .key k => isSensitiveKey k || isContainer k
    | .index _ => false)

/-- The property for one value: under a sensitive key or a container nothing is shown as it was. -/
def Complete (v : Json) : Prop :=
  ∀ p s, beneath p = true → s ≠ "" → valueAt p v = some (.str s) → valueAt p (redactJson v) ≠ some (.str s)

/-- Variables given as a list of pairs, of which only the secret ones are masked. -/
def envPairs : Json :=
  .obj [("env",.arr [.obj [("key",.str "AUTH_URL"),("secret",.bool false),("value",.str "https://app.example.com")]])]

/-- A secret that a client already sees masked. -/
def masked : Json := .obj [("token",.str "***")]

end DevForge.SecretsMasked
