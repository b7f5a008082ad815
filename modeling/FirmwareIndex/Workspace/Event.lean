import FirmwareIndex.Catalog.Update

/-!
# Events

Operations on a workspace announce what they found: each package declaration and each platform
description that could be read, and the end of every scan with its totals.
-/

set_option autoImplicit false

namespace FirmwareIndex

/-- The totals of a workspace. -/
structure Summary where
  root : Path
  modules : Nat
  packages : Nat
  platforms : Nat
  libraryClasses : Nat
deriving DecidableEq, Repr

/-- The totals of a catalog. Modules count once they have been read. -/
def Summary.ofCatalog (root : Path) (c : Catalog) : Summary where
  root := root
  modules := c.modules.records.size
  packages := c.packages.all.length
  platforms := c.platforms.documents.size
  libraryClasses := c.libraries.grouped.size

/-- What subscribers are told. -/
inductive Event where
  | packageDiscovered (p : Package)
  /-- A platform description with so many problems was read. -/
  | projectDiscovered (path : Path) (problems : Nat)
  | scanCompleted (s : Summary)
deriving DecidableEq

namespace Event

/-- The name of the kind of event. -/
def kind : Event → Text
  | .packageDiscovered _ => "package-discovered"
  | .projectDiscovered _ _ => "project-discovered"
  | .scanCompleted _ => "scan-completed"

/-- The event of a file that was read. Modules have none, and neither has a file that could not be
read. -/
def ofOutcome (o : Outcome) : Option Event :=
  if o.fingerprint.isNone then none
  else
    match o.content with
    | .module _ => none
    | .declaration r => some (.packageDiscovered (.ofDeclaration r))
    | .platform d => some (.projectDiscovered d.file d.problems.length)

end Event

end FirmwareIndex
