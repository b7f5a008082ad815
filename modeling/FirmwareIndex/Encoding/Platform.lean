import FirmwareIndex.Encoding.Module
import FirmwareIndex.Platform.Document

/-!
# Platform documents as JSON

Documents, their reduced forms, reports and diagnostics are written as objects. A column, a
context, a type of module and a value that are not there are left out.
-/

set_option autoImplicit false

namespace FirmwareIndex

/-- An object of those fields that have a value. -/
def Json.present (fields : List (Text × Option Json)) : Json :=
  .obj (fields.filterMap fun field => field.2.map fun value => (field.1, value))

/-- A number that is counted. -/
def Json.count (n : Nat) : Json :=
  .num n

/-- The location as an answer shows it. -/
def Location.json (l : Location) : Json :=
  .present [("file", some l.file.json), ("line", some (.count l.line)),
    ("column", l.column.map Json.count), ("conditional_context", l.context.map Json.str)]

/-- The severity as an answer shows it. -/
def Severity.json : Severity → Json
  | .fatal => .str "fatal"
  | .warning => .str "warning"

/-- The report as an answer shows it. -/
def Report.json (r : Report) : Json :=
  .obj [("location", r.location.json), ("message", .str r.message), ("severity", r.severity.json),
    ("offending_text", .str r.offending), ("line_text", .str r.lineText)]

/-- The number by which editors know a weight. -/
def Severity.level : Severity → Nat
  | .fatal => 1
  | .warning => 2

/-- A position on a line as an object. -/
def Json.position (line character : Nat) : Json :=
  .obj [("line", .count line), ("character", .count character)]

/-- The name under which diagnostics are shown. -/
def Diagnostic.source : Text :=
  "edk2-index"

/-- The diagnostic as an answer shows it, with its range on one line. -/
def Diagnostic.json (d : Diagnostic) : Json :=
  .obj [("range", .obj [("start", .position d.line d.start), ("end", .position d.line d.stop)]),
    ("severity", .count d.severity.level), ("source", .str source), ("message", .str d.message)]

/-- The definition as an answer shows it. -/
def Definition.json (d : Definition) : Json :=
  .obj [("name", .str d.name), ("value", .str d.value), ("location", d.location.json)]

/-- A choice of an implementation as an object. -/
def Override.json (o : Override) : Json :=
  .present [("arch", some (.str o.arch)), ("module_type", o.moduleType.map Json.str),
    ("class_name", some (.str o.className)), ("path", some (.str o.path)),
    ("location", some o.location.json)]

/-- The name of a section as it is written in an answer. -/
def SectionName.json (s : SectionName) : Json :=
  .str s.name

/-- The setting as an answer shows it. -/
def PcdSetting.json (p : PcdSetting) : Json :=
  .present [("section", some p.kind.json), ("arch", some (.str p.arch)),
    ("token_space", some (.str p.space)), ("name", some (.str p.name)),
    ("value", p.value.map Json.str), ("location", some p.location.json)]

/-- The component as an answer shows it. -/
def BuiltModule.json (c : BuiltModule) : Json :=
  .obj [("arch", .str c.arch), ("path", .str c.path),
    ("library_overrides", .arr (c.overrides.map Override.json)),
    ("pcds", .arr (c.pcds.map PcdSetting.json)), ("build_options", .texts c.buildOptions),
    ("location", c.location.json)]

/-- A line of build options as an object. -/
def BuildOption.json (o : BuildOption) : Json :=
  .obj [("arch", .str o.arch), ("text", .str o.text), ("location", o.location.json)]

/-- The document as an answer shows it. -/
def Document.json (d : Document) : Json :=
  .obj [("file_path", d.file.json), ("defines", .arr (d.definitions.map Definition.json)),
    ("libraries", .arr (d.libraries.map Override.json)),
    ("components", .arr (d.components.map BuiltModule.json)),
    ("pcds", .arr (d.pcds.map PcdSetting.json)),
    ("build_options", .arr (d.buildOptions.map BuildOption.json)), ("sku_ids", .texts d.skuIds),
    ("included_files", .paths d.included),
    ("errors", .arr (d.problems.map fun p => p.report.json))]

/-- The diagnostics of a document as an object with a field for each file. -/
def Document.diagnosticsJson (d : Document) : Json :=
  .obj (d.diagnostics.map fun group => (group.1.text, .arr (group.2.map Diagnostic.json)))

/-- A reduced platform description as an object. -/
def Reduced.json (r : Reduced) : Json :=
  .obj [("file_path", r.file.json), ("defines", .table .str r.definitions),
    ("libraries", .table (.table .str) r.libraries),
    ("library_classes", .table .str r.libraryClasses), ("components", .table .texts r.components),
    ("pcds", .table .str r.pcds)]

end FirmwareIndex
