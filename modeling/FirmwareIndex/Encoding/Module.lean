import FirmwareIndex.Json
import FirmwareIndex.Module.Record

/-!
# Module records as JSON

Records are written as objects with all their fields, paths as their texts, and definitions as an
object ordered by name.
-/

set_option autoImplicit false

namespace FirmwareIndex

/-- The path as an answer shows it. -/
def Path.json (p : Path) : Json :=
  .str p.text

/-- The paths as an array of texts. -/
def Json.paths (ps : List Path) : Json :=
  .arr (ps.map Path.json)

/-- A table as an object, ordered by key. -/
def Json.table {α : Type} (f : α → Json) (m : TextMap α) : Json :=
  .obj (m.toList.map fun entry => (entry.1, f entry.2))

/-- The entry as an answer shows it. -/
def GuidEntry.json (e : GuidEntry) : Json :=
  .obj [("name", .str e.name), ("guid", .str e.guid)]

/-- The library class as an answer shows it. -/
def LibraryClass.json (e : LibraryClass) : Json :=
  .obj [("class_name", .str e.className), ("path", .str e.path)]

/-- The role as an answer shows it. -/
def LibraryRole.json (r : LibraryRole) : Json :=
  .obj [("class_name", .str r.className), ("module_types", .texts r.moduleTypes)]

/-- The record as an answer shows it. -/
def ModuleRecord.json (r : ModuleRecord) : Json :=
  .obj [("path", r.path.json), ("directory", r.directory.json),
    ("defines", .table .str r.defines), ("sources", .paths r.sources),
    ("includes", .paths r.includes), ("packages", .texts r.packages),
    ("protocols", .arr (r.protocols.map GuidEntry.json)),
    ("guids", .arr (r.guids.map GuidEntry.json)), ("ppis", .arr (r.ppis.map GuidEntry.json)),
    ("pcds", .texts r.pcds), ("components", .texts r.components),
    ("library_classes", .arr (r.libraryClasses.map LibraryClass.json)),
    ("library_roles", .arr (r.libraryRoles.map LibraryRole.json))]

end FirmwareIndex
