import FirmwareIndex.Path.Component
import FirmwareIndex.Text.Word

/-!
# Macros

A reference is a dollar sign and a name of word characters between parentheses. Expansion goes
over a text once, from left to right: a reference to a known macro is replaced by its value, which
is not looked at again, and everything else stays as it is.
-/

set_option autoImplicit false

namespace FirmwareIndex

/-- The values of the macros that are known. -/
abbrev Macros := TextMap Text

namespace Macros

/-- How much of a reference has been read. -/
inductive Scan where
  | outside
  | dollar
  /-- The dollar sign, the opening parenthesis and a part of the name. -/
  | name (part : Text)
deriving DecidableEq, Repr

/-- The text that has been read and not yet been written. -/
def Scan.held : Scan → Text
  | .outside => []
  | .dollar => ['$']
  | .name part => '$' :: '(' :: part

/-- The text that a complete reference becomes. -/
def value (macros : Macros) (name : Text) : Text :=
  macros[name]?.getD ('$' :: '(' :: name ++ [')'])

/-- What a character that continues no reference becomes after a text: a dollar sign may start
another reference. -/
def restart (before : Text) (c : Char) : Text × Scan :=
  if c = '$' then (before, .dollar) else (before ++ [c], .outside)

/-- The text that one more character lets be written, and how much of a reference is read then. -/
def step (macros : Macros) : Scan → Char → Text × Scan
  | .dollar, '(' => ([], .name [])
  | .name part, c =>
    if Text.isWord c then ([], .name (part ++ [c]))
    else if c = ')' && part ≠ [] then (value macros part, .outside)
    else restart (Scan.name part).held c
  | scan, c => restart scan.held c

/-- Expands the rest of a text after what is held back. -/
def expandFrom (macros : Macros) : Scan → Text → Text
  | scan, [] => scan.held
  | scan, c :: t => (step macros scan c).1 ++ expandFrom macros (step macros scan c).2 t

/-- The text with every reference to a known macro replaced by its value. -/
def expand (macros : Macros) (t : Text) : Text :=
  expandFrom macros .outside t

end Macros

end FirmwareIndex
