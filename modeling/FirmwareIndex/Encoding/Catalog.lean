import FirmwareIndex.Catalog.Basic
import FirmwareIndex.Encoding.Platform

/-!
# Catalog entries as JSON

Libraries and packages are written as objects. A library without a package or a module is written
without that field; of a package, its name and its places are written.
-/

set_option autoImplicit false

namespace FirmwareIndex

/-- The library as an answer shows it. -/
def Library.json (l : Library) : Json :=
  .present [("class_name", some (.str l.className)), ("inf_path", some l.path.json),
    ("arch", some (.str l.arch)), ("package", l.package.map Json.str),
    ("module", l.module.map ModuleRecord.json)]

/-- The package as an answer shows it. -/
def Package.json (p : Package) : Json :=
  .obj [("name", .str p.name), ("file_path", p.file.json), ("package_root", p.root.json)]

end FirmwareIndex
