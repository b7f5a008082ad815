import FirmwareIndex.Text.Basic

/-!
# Section headers

A header stands between brackets and consists of qualifiers set apart by commas. A qualifier is a
base name, an architecture and a module type, set apart by dots. The base of the first qualifier
names the section, whatever the case of its letters; a missing architecture means `common`.
-/

set_option autoImplicit false

namespace FirmwareIndex

/-- The architecture of a header that names none. -/
def commonArch : Text :=
  "common"

/-- The key of a section and the architectures its lines are for. -/
structure Header where
  key : Text
  arches : List Text
deriving DecidableEq, Repr

namespace Header

/-- The form in which section names are compared. -/
def canonical (name : Text) : Text :=
  Text.lower (Text.trim name)

/-- The text between the opening brackets and the first closing one. A header without a closing
bracket goes to the end of its line. -/
def body (line : Text) : Text :=
  Text.before ']' ((Text.trim line).dropWhile (· = '['))

/-- A part of a qualifier without blanks at its ends, if anything is left of it. -/
def part? (parts : List Text) (i : Nat) : Option Text :=
  (parts[i]?.map Text.trim).filter (· ≠ [])

/-- The architecture in the second part of a qualifier, in capitals. -/
def archOf (parts : List Text) : Text :=
  match part? parts 1 with
  | some arch => Text.upper arch
  | none => commonArch

/-- The key in a header line, and the architectures of its qualifiers, each once. -/
def ofLine (line : Text) : Header where
  key := canonical ((body line).takeWhile fun c => c != '.' && c != ',')
  arches :=
    (((body line).splitOn ',').map fun qualifier => archOf (qualifier.splitOn '.')).eraseDups

end Header

end FirmwareIndex
