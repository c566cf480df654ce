import DevForge.MemoryRefinement
import Mathlib.Algebra.Order.Ring.Unbundled.Rat

/-!
# Writes that can be stored

The checks of the table of memories, for the rows of both stores. A request that is valid makes rows
that pass them, but for a confirmation, whose note is longer than the content that it quotes.
-/

set_option autoImplicit false

namespace DevForge.StorableWrites
open MemoryRules MemoryStores MemoryRows MemoryVersions MemoryRefinement

section
variable {κ : Type}

/-- The checks of a row, and the range of a confidence. -/
structure Checks (r : Row κ) : Prop where
  content : 1 ≤ r.content.length ∧ r.content.length ≤ 2000
  kind : r.kind ∈ KINDS
  note : r.tier = .note → r.expiresAt.isSome
  confidence : 0 ≤ r.confidence ∧ r.confidence ≤ 1

/-- Every row passes the checks, and its scope the one of its columns. -/
def Checked (scope : κ → Prop) (s : Store κ) : Prop := ∀ r ∈ s.rows, Checks r ∧ scope r.place

end

/-- `project_uuid IS NOT NULL` for a project, and so on. -/
def scopeCheck (p : PgPlace) : Prop :=
  match p.scope with
  | .user => True
  | .project => p.projectUuid.isSome
  | .agent => p.agentUuid.isSome

theorem larger_range {a b : ℚ} (ha : 0 ≤ a ∧ a ≤ 1) (hb : 0 ≤ b ∧ b ≤ 1) : 0 ≤ larger a b ∧ larger a b ≤ 1 := by
  unfold larger
  split
  · exact hb
  · exact ha

section
variable {κ : Type} {scope : κ → Prop} {s : Store κ}

theorem Checked.setRow (h : Checked scope s) (u : Uuid) (f : Row κ → Row κ)
    (hf : ∀ r, Checks r → Checks (f r)) (hplace : ∀ r, (f r).place = r.place) : Checked scope (s.setRow u f) := by
  intro r' hr'
  obtain ⟨r,hr,rfl⟩ := mem_setRow.mp hr'
  obtain ⟨hchecks,hscope⟩ := h r hr
  split
  · exact ⟨hf r hchecks,by rwa [hplace]⟩
  · exact ⟨hchecks,hscope⟩

theorem Checks.refresh {r : Row κ} (h : Checks r) (req : WriteReq) {c : ℚ} (hc : 0 ≤ c ∧ c ≤ 1) (now : Instant) :
    Checks (r.refresh req c now) where
  content := h.content
  kind := h.kind
  note := by
    intro ht
    have := h.note ht
    simp [Row.refresh, this]
  confidence := hc

theorem Checks.reinforce {r : Row κ} (h : Checks r) {c : ℚ} (hc : 0 ≤ c ∧ c ≤ 1) (now : Instant) :
    Checks (r.reinforce c now) :=
  ⟨h.content,h.kind,h.note,larger_range h.confidence hc⟩

theorem Checks.replacedBy {r : Row κ} (h : Checks r) (new : Uuid) (now : Instant) : Checks (r.replacedBy new now) :=
  ⟨h.content,h.kind,h.note,h.confidence⟩

end

def quoting (content : String) : String := "Possible changement : "++trim content++" (à confirmer)"

section
variable {T : Texts} {req : WriteReq} {known : List String}

/-- The checks and the unique index of the table. -/
structure Constrained (s : Pg.PgStore) : Prop where
  checked : Checked scopeCheck s
  oneLive : OneLive Pg.scopeOf s

/-- The write is answered, and leaves a table that keeps its constraints. -/
def Stores (T : Texts) (req : WriteReq) (known : List String) (s : Pg.PgStore) : Prop :=
  (∃ out, (Pg.write T req known s).1 = .ok out) ∧ Constrained (Pg.write T req known s).2

end

/-- A fact that the user has said. -/
def city : WriteReq where
  userUuid := "u1"
  scope := .user
  projectUuid := none
  tier := .profile
  kind := "fact"
  key := some "city"
  content := "Lyon"
  source := "user_said"
  confidence := 1
  expiresIn := none
  createdBy := "user"

def observed (content : String) : WriteReq := { city with content := content, source := "observed", createdBy := "agent" }

/-- A long word. -/
def word (n : ℕ) : String := String.ofList (List.replicate n 'x')

end DevForge.StorableWrites
