import DevForge.Detection
import Mathlib.Data.List.Nodup

/-!
# Detection and the order of the files

Whether the same tree is always read in the same way. A file is found by the end of its path, and
the first that the iteration of the map meets is read.
-/

set_option autoImplicit false

namespace DevForge.DetectionOrder
open Dotenv ComposePorts Detection
open WakeGate (Json)

/-- The names of the files whose contents are read. -/
def READS : List String := ["package.json","composer.json"]++DOCKERFILES++COMPOSES++ENVS

def isRoot (name : String) (path : List Char) : Bool :=
  eqIgnoreAsciiCase (normPath path) name.toList || lowercase (normPath path) = lowercase name.toList

def isNested (name : String) (path : List Char) : Bool :=
  ('/'::lowercase name.toList).isSuffixOf (normPath path) && !isRoot name path

theorem named_iff (name : String) (path : List Char) :
    isNamed name path = true ↔ isRoot name path = true ∨ isNested name path = true := by
  rw [isNested, isNamed, isRoot]
  cases eqIgnoreAsciiCase (normPath path) name.toList <;>
    cases ('/'::lowercase name.toList).isSuffixOf (normPath path) <;>
      cases decide (lowercase (normPath path) = lowercase name.toList) <;> decide

/-- Two orders of a tree in which the same is read. -/
structure Alike (tree tree' : FileTree) : Prop where
  perm : tree.Perm tree'
  read : ∀ name ∈ READS, findContent tree' name = findContent tree name

section
variable {tree tree' : FileTree}

variable (fromStr : String → Option Json)

end

end DevForge.DetectionOrder
