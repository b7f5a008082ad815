import FirmwareIndex.Catalog.Platforms

/-!
# The catalog of a workspace

All that is known of the build files of a workspace: its modules, package declarations, packages,
libraries and platforms, and the fingerprint of every file that could be read.
-/

set_option autoImplicit false

namespace FirmwareIndex

/-- All that is known of the build files of a workspace. -/
structure Catalog where
  modules : Modules
  declarations : Declarations
  packages : Packages
  libraries : Libraries
  platforms : Platforms
  /-- The fingerprints of the texts that were read, by file. -/
  fingerprints : PathMap Text
deriving DecidableEq

/-- The catalog of no files. -/
def Catalog.empty : Catalog :=
  ⟨.empty, .empty, .empty, .empty, .empty, ∅⟩

end FirmwareIndex
