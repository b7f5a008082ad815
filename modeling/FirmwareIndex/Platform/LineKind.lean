import FirmwareIndex.Text.Basic

/-!
# Kinds of line

What a logical line of a platform description does is decided by its start: a bracket opens a
section, the keyword `DEFINE` defines a macro, an exclamation mark starts a directive, and all
else is content of the section it stands in.
-/

set_option autoImplicit false

namespace FirmwareIndex

/-- What a line of a platform description is. -/
inductive LineKind where
  | header
  | definition
  | openCondition
  | branch
  | closeCondition
  | inclusion (target : Text)
  | ignored
  | content
deriving DecidableEq, Repr

namespace LineKind

/-- The kind of a directive, given without its exclamation mark. The keyword goes to the first
blank and is read whatever the case of its letters. -/
def ofDirective (t : Text) : LineKind :=
  let keyword := Text.lower (t.takeWhile fun c => !Text.isBlank c)
  if (["if", "ifdef", "ifndef"] : List Text).contains keyword then .openCondition
  else if (["elseif", "else"] : List Text).contains keyword then .branch
  else if keyword = "endif".toList then .closeCondition
  else if keyword = "include".toList then
    .inclusion (Text.trim (t.dropWhile fun c => !Text.isBlank c))
  else .ignored

/-- The kind of a line by how it begins. -/
def ofText (t : Text) : LineKind :=
  match t with
  | '[' :: _ => .header
  | '!' :: directive => ofDirective directive
  | _ => if "DEFINE ".toList.isPrefixOf t then .definition else .content

end LineKind

end FirmwareIndex
