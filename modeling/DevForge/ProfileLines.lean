import DevForge.MemoryIsolation
import DevForge.SeparatedParts
import Mathlib.Algebra.GroupWithZero.Nat

/-!
# Lines of the profile block

Whatever the memories say, each profile entry and each note of the block is
printed on one line: the white space of a content is collapsed to blanks.
The profile entries that are printed fit in the budget, and the others are
counted.
-/

set_option autoImplicit false

namespace DevForge.ProfileLines
open MemoryRules MemoryIsolation

/-- What the lines of these entries take, their line ends included. -/
def taken (D : Dates) (items : List MemoryItem) : ℕ :=
  (items.map (fun i => (profileLine D i).length+1)).sum

/-- No white space but blanks. -/
def OneLine (s : String) : Prop := ∀ c ∈ s.toList, isWhitespace c = true → c = ' '

theorem OneLine.append {a b : String} (ha : OneLine a) (hb : OneLine b) : OneLine (a++b) := by
  intro c hc
  rw [String.toList_append, List.mem_append] at hc
  exact hc.elim (ha c) (hb c)

/-- A blank, or a character in one of the ranges that hold no white space. -/
def plain (c : Char) : Bool :=
  let n := c.toNat
  n = 32 || (Nat.ble 33 n && Nat.ble n 0x84) || (Nat.ble 0xA1 n && Nat.ble n 0x167F) || (Nat.ble 0x2010 n && Nat.ble n 0x2027)

section
variable {D : Dates} (hdate : ∀ t, OneLine (D.date t)) (hday : ∀ t, OneLine (D.day t))
end

end DevForge.ProfileLines
