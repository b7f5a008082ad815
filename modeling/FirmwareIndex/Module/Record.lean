import FirmwareIndex.Module.Entry
import FirmwareIndex.Path.Reference
import FirmwareIndex.Section.Table
import FirmwareIndex.Source.Basic

/-!
# Module records

Module descriptions (`.inf`) and package declarations (`.dec`) have one grammar, so both are read
into one kind of record. Reading never fails: lines that are no entry of their section are left
out, and a file that cannot be read gives the record that has only its path.
-/

set_option autoImplicit false

namespace FirmwareIndex

/-- What a module description or a package declaration says. -/
structure ModuleRecord where
  path : Path
  directory : Path
  /-- The definitions; the last one of a name counts. -/
  defines : TextMap Text
  sources : List Path
  includes : List Path
  packages : List Text
  protocols : List GuidEntry
  guids : List GuidEntry
  ppis : List GuidEntry
  pcds : List Text
  components : List Text
  libraryClasses : List LibraryClass
  /-- The library classes that the module declares to implement. -/
  libraryRoles : List LibraryRole
deriving DecidableEq

namespace ModuleRecord

/-- The record that has only its path. -/
def empty (path : Path) : ModuleRecord where
  path := path
  directory := path.directory
  defines := ∅
  sources := []
  includes := []
  packages := []
  protocols := []
  guids := []
  ppis := []
  pcds := []
  components := []
  libraryClasses := []
  libraryRoles := []

/-- The sections that hold references to PCDs, in the order in which they are collected. -/
def pcdSections : List Text :=
  ["Pcd", "PcdEx", "FixedPcd", "FeaturePcd", "PatchPcd", "PcdsFeatureFlag", "PcdsFixedAtBuild",
   "PcdsPatchableInModule", "PcdsDynamic", "PcdsDynamicEx"]

/-- The definitions among some lines; a later one replaces an earlier one of the same name. -/
def definitionsOf (lines : List Text) : TextMap Text :=
  (lines.filterMap Entry.definition?).foldl (fun m d => m.insert d.1 d.2) ∅

/-- The record of a file whose sections are known. -/
def ofSections (path : Path) (s : Sections) : ModuleRecord where
  path := path
  directory := path.directory
  defines := definitionsOf (s.get "Defines")
  -- a source may be followed by a bar and the tool chains it is for
  sources := Path.distinct ((s.get "Sources").map fun line =>
    path.directory.join (Text.trim (Text.before '|' line)))
  includes := Path.distinct ((s.get "Includes").map path.directory.join)
  packages := (s.get "Packages").map Text.trim
  protocols := (s.get "Protocols").filterMap Entry.guid?
  guids := (s.get "Guids").filterMap Entry.guid?
  ppis := (s.get "Ppis").filterMap Entry.guid?
  pcds := pcdSections.flatMap fun name => (s.get name).map Text.trim
  components := (s.get "Components").filterMap Entry.component?
  libraryClasses := (s.get "LibraryClasses").filterMap Entry.libraryClass?
  libraryRoles := (s.get "Defines").filterMap Entry.libraryRole?

/-- The record of a file with a given text. -/
def ofText (path : Path) (t : Text) : ModuleRecord :=
  ofSections path (Sections.ofText t)

/-- The record of a file. A file that cannot be read gives the record that has only its path. -/
def ofFile (s : Sources) (path : Path) : ModuleRecord :=
  match s.read path with
  | .ok t => ofText path t
  | .error _ => empty path

/-- The name of the module: its `BASE_NAME`, or else the stem of its file. -/
def baseName (r : ModuleRecord) : Text :=
  r.defines["BASE_NAME".toList]?.getD r.path.stem

/-- The type of the module, if it defines one. -/
def moduleType? (r : ModuleRecord) : Option Text :=
  r.defines["MODULE_TYPE".toList]?

/-- Whether the module lists `source` among its sources. -/
def owns (r : ModuleRecord) (source : Path) : Bool :=
  r.sources.any fun s => s.Same source

end ModuleRecord

end FirmwareIndex
