import FirmwareIndex.Text.Basic
import Std.Data.ExtTreeMap

/-!
# Components of a path

Two paths name the same place when they have the same components: the root, a leading `.`, each
`..`, and the names. Components are ordered with the root first, then `.`, then `..`, then the
names by their characters; a path is ordered by its list of components. Tables that are looked up
by path are keyed by component lists.
-/

set_option autoImplicit false

namespace FirmwareIndex

/-- What a piece of a path stands for. -/
inductive Component where
  /-- The root of the file system, at the start of an absolute path. -/
  | root
  | here
  | up
  | name (text : Text)
deriving DecidableEq, Repr

namespace Component

/-- The component that stands for a piece between slashes, if the piece is neither empty nor `.`. -/
def ofPiece? : Text → Option Component
  | [] => none
  | ['.'] => none
  | ['.', '.'] => some .up
  | t => some (.name t)

/-- The name of a component that is a name. -/
def name? : Component → Option Text
  | .name t => some t
  | _ => none

/-- The place of a kind of component in the order. -/
def rank : Component → Nat
  | .root => 0
  | .here => 1
  | .up => 2
  | .name _ => 3

/-- The characters that decide between two components of the same kind. -/
def label : Component → Text
  | .name t => t
  | _ => []

/-- Components are ordered by kind, and names by their characters. -/
instance : Ord Component where
  compare := compareLex (compareOn rank) (compareOn label)

instance : Std.TransOrd Component :=
  inferInstanceAs (Std.TransCmp (compareLex (compareOn rank) (compareOn label)))

instance : Std.LawfulEqOrd Component where
  eq_of_compare {a b} h := by
    have h' : (compareOn rank a b).then (compareOn label a b) = .eq := h
    rw [Ordering.then_eq_eq] at h'
    have hrank : a.rank = b.rank := Std.LawfulEqOrd.eq_of_compare h'.1
    have hlabel : a.label = b.label := Std.LawfulEqOrd.eq_of_compare h'.2
    cases a <;> cases b <;> simp_all [rank, label]

end Component

/-- A table whose entries are looked up by the components of a path. -/
abbrev PathMap (α : Type) := Std.ExtTreeMap (List Component) α

/-- A table whose entries are looked up by a text. -/
abbrev TextMap (α : Type) := Std.ExtTreeMap Text α

/-- Tables are compared by their entries. -/
instance tableDecidableEq {κ α : Type} [Ord κ] [Std.TransOrd κ] [Std.LawfulEqOrd κ]
    [DecidableEq α] : DecidableEq (Std.ExtTreeMap κ α) :=
  inferInstance

end FirmwareIndex
