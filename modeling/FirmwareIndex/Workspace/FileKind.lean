import FirmwareIndex.Path.Basic

/-!
# Kinds of build files

There are three kinds of build files, told apart by the ends of their names whatever the case of
their letters. A scan takes every file whose name ends in the extension, even if that is the whole
name; a single file is judged by its extension, which such a name does not have.
-/

set_option autoImplicit false

namespace FirmwareIndex

/-- The kinds of build files. -/
inductive FileKind where
  | module
  | declaration
  | platform
deriving DecidableEq, Repr

namespace FileKind

/-- The kinds in the order in which files are taken into the catalog. -/
def all : List FileKind :=
  [.module, .declaration, .platform]

/-- The extension of a kind, without its dot. -/
def extension : FileKind → Text
  | .module => "inf"
  | .declaration => "dec"
  | .platform => "dsc"

/-- The kind of a file by its extension. -/
def ofPath? (p : Path) : Option FileKind :=
  p.extension?.bind fun ext => all.find? fun k => k.extension = ext

/-- The kind of a file by the end of its name. -/
def ofName? (name : Text) : Option FileKind :=
  all.find? fun k => ('.' :: k.extension).isSuffixOf (Text.lower name)

end FileKind

end FirmwareIndex
