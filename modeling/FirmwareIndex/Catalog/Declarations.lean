import FirmwareIndex.Module.Record

/-!
# Package declarations

A module names the packages it uses by the end of the path of their declarations, such as
`MdePkg/MdePkg.dec`, which is relative to a search root that is not known. Declarations are
therefore grouped by the last two pieces of their paths. In a group the newest one comes first,
and there is one declaration for a file.
-/

set_option autoImplicit false

namespace FirmwareIndex

/-- The package declarations by the last two pieces of their paths. -/
structure Declarations where
  groups : TextMap (List ModuleRecord)
deriving DecidableEq

namespace Declarations

/-- No declarations. -/
def empty : Declarations :=
  ⟨∅⟩

/-- The key of a reference to a package. -/
def keyOf (reference : Text) : Text :=
  Path.tail ⟨Text.trim reference⟩ 2

/-- The declarations with a key, the newest first. -/
def group (d : Declarations) (key : Text) : List ModuleRecord :=
  d.groups[key]?.getD []

/-- The declarations with a new group under a key; an empty one is no group. -/
def setGroup (d : Declarations) (key : Text) (records : List ModuleRecord) : Declarations :=
  ⟨if records = [] then d.groups.erase key else d.groups.insert key records⟩

/-- Adds a declaration in front of its group, in place of an older one for the same file. -/
def insert (d : Declarations) (r : ModuleRecord) : Declarations :=
  let key := r.path.tail 2
  d.setGroup key (r :: (d.group key).filter fun other => ¬ other.path.Same r.path)

/-- The declaration of a file, found in the group of its path. -/
def find? (d : Declarations) (path : Path) : Option ModuleRecord :=
  (d.group (path.tail 2)).find? fun r => r.path.Same path

/-- Takes the declaration of a file out of the group of its path. -/
def remove (d : Declarations) (path : Path) : Declarations :=
  let key := path.tail 2
  d.setGroup key ((d.group key).eraseP fun r => r.path.Same path)

/-- The declarations that a reference may mean, the newest first. -/
def resolve (d : Declarations) (reference : Text) : List ModuleRecord :=
  d.group (keyOf reference)

/-- All declarations, by key, the newest of each key first. -/
def all (d : Declarations) : List ModuleRecord :=
  d.groups.values.flatten

/-- The number of declarations. -/
def size (d : Declarations) : Nat :=
  d.all.length

/-- Whether there are no declarations. -/
def isEmpty (d : Declarations) : Bool :=
  d.groups.isEmpty

end Declarations

end FirmwareIndex
