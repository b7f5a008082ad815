import FirmwareIndex.Platform.SectionName
import FirmwareIndex.Section.Header

/-!
# Scopes of a section

Each qualifier of a header in a platform description names the section once more and gives the
architecture, and sometimes the type of module, that its lines are for. A header opens a section
only if all its qualifiers name sections that exist.
-/

set_option autoImplicit false

namespace FirmwareIndex

/-- What the lines of a section are for. -/
structure Scope where
  arch : Text
  moduleType : Option Text
deriving DecidableEq, Repr

/-- The scope of a section that names none. -/
def Scope.common : Scope :=
  ⟨commonArch, none⟩

/-- One qualifier of a header: the name of a section and a scope. -/
structure Qualifier where
  /-- The name of the section as it is written. -/
  base : Text
  scope : Scope
deriving DecidableEq, Repr

namespace Qualifier

/-- A qualifier: a name, an architecture and a third part, with dots between them. -/
def ofText (t : Text) : Qualifier :=
  let parts := t.splitOn '.'
  ⟨Text.trim (parts.headD []), Header.archOf parts, Header.part? parts 2⟩

/-- The qualifiers in the body of a header. -/
def ofBody (body : Text) : List Qualifier :=
  (body.splitOn ',').map ofText

/-- The first qualifier that names another section than the first one does. -/
def mismatch? : List Qualifier → Option (Text × Text)
  | [] => none
  | first :: rest =>
    (rest.find? fun q => !Text.sameName q.base first.base).map fun q => (first.base, q.base)

/-- The names with `name` at the end, unless they have it in some case of its letters. -/
def addName (names : List Text) (name : Text) : List Text :=
  if names.any (Text.sameName · name) then names else names ++ [name]

/-- The names of the qualifiers that are no sections, each once. -/
def unknown (qualifiers : List Qualifier) : List Text :=
  ((qualifiers.map Qualifier.base).filter fun base => (SectionName.ofText? base).isNone).foldl
    addName []

end Qualifier

/-- The section that lines belong to. -/
structure Active where
  kind : SectionName
  /-- What its lines are for, in the order of the qualifiers. -/
  scopes : List Scope
deriving DecidableEq, Repr

/-- The section that a list of qualifiers opens: the one that the first of them names. -/
def Active.ofQualifiers? (qualifiers : List Qualifier) : Option Active :=
  match qualifiers with
  | [] => none
  | first :: _ =>
    (SectionName.ofText? first.base).map fun kind => ⟨kind, qualifiers.map Qualifier.scope⟩

end FirmwareIndex
