import FirmwareIndex.Encoding.Platform
import FirmwareIndex.Log.Entry
import FirmwareIndex.Workspace.Basic

/-!
# What a run leaves in the log

A run tells what it does as entries of the log: that it starts, what was found, each file that was
read and taken into the catalog, the platform descriptions that packages looked for, the libraries
that were learned, and the totals. How long a scan took is not known to it.
-/

set_option autoImplicit false

namespace FirmwareIndex.CommandLine.Trail

/-- The totals of a scan in one line. -/
def totalsText (s : Summary) (last : Text) : Text :=
  Json.digits s.modules ++ " modules, " ++ Json.digits s.packages ++ " packages" ++ last ++
    Json.digits s.platforms ++ " platforms"

/-- The entry at the start of a scan. -/
def start (root : Path) : LogEntry :=
  .plain .info .workspace ("Scanning EDK2 workspace " ++ root.text)

/-- Making the pattern for the file names of a kind. Its entry comes with fields about where it was
written, of which only the area is known. -/
def filePattern (k : FileKind) : LogEntry where
  level := .debug
  area := .filePatterns
  message := "built glob set for **/*." ++ k.extension
  details := [("log.target", .str LogArea.filePatterns.name),
    ("log.module_path", .str LogArea.filePatterns.name), ("log.file", .null), ("log.line", .null)]

/-- The entries of the files that have been found, with the dead ends. -/
def discovery (files : Files) : List LogEntry :=
  FileKind.all.map filePattern ++
    (files.deadEnds.map fun p =>
      .plain .warn .workspace ("Failed to access directory entry: " ++ p.text)) ++
    [.plain .debug .workspace ("Discovered " ++ Json.digits files.modules.length ++ " modules, " ++
      Json.digits files.declarations.length ++ " packages, " ++
      Json.digits files.platforms.length ++ " platforms")]

/-- A file that could not be read. -/
def unreadable (file : Path) : LogEntry :=
  .plain .warn .workspace ("Failed to read " ++ file.text)

/-- Reading a module description or a package declaration. -/
def recordRead (c : Catalog) (r : ModuleRecord) : LogEntry :=
  if c.fingerprints[r.path.components]?.isSome then
    .plain .debug .records ("Parsed " ++ r.path.text ++ ": " ++ Json.digits r.sources.length ++
      " sources, " ++ Json.digits r.packages.length ++ " packages, " ++
      Json.digits r.libraryClasses.length ++ " library classes")
  else unreadable r.path

/-- Reading the text of a platform description, of which something is told. -/
def documentText (file : Path) (told : Text) : List LogEntry :=
  [.plain .trace .documents ("Finished " ++ file.text),
    .plain .debug .documents ("Parsed " ++ file.text ++ told)]

/-- The entries of a platform description that has been read, or could not be. -/
def documentRead (c : Catalog) (d : Document) : List LogEntry :=
  if c.fingerprints[d.file.components]?.isSome then
    documentText d.file (": " ++ Json.digits d.components.length ++ " components, " ++
      Json.digits d.libraries.length ++ " library overrides, " ++
      Json.digits d.problems.length ++ " errors")
  else [unreadable d.file, .plain .warn .documents ("Failed to open " ++ d.file.text)]

/-- The entry of a module that has been taken in. -/
def moduleTaken (r : ModuleRecord) : LogEntry :=
  .plain .trace .modules ("Indexed module " ++ r.path.text ++ " (" ++
    Json.digits r.sources.length ++ " sources)")

/-- Taking a package declaration into the catalog. -/
def declarationTaken (r : ModuleRecord) : LogEntry :=
  .plain .trace .declarations ("DEC " ++ r.path.text ++ " registered under " ++ r.path.tail 2)

/-- Learning the libraries that a module declares to implement. -/
def rolesLearned (r : ModuleRecord) : List LogEntry :=
  r.libraryRoles.map fun role =>
    .plain .trace .libraries (r.path.text ++ " implements " ++ role.className)

/-- Looking for the platform description beside a package, unless the catalog has it. -/
def siblingLoaded (c : Catalog) (p : Package) : List LogEntry :=
  match c.platforms.get? p.platformPath, p.sibling with
  | none, .loaded _ =>
    .plain .debug .packages ("Loading platform " ++ p.platformPath.text ++ " for package " ++
      p.name) :: documentText p.platformPath []
  | none, .absent => [.plain .trace .packages (p.name ++ " has no platform file")]
  | _, _ => []

/-- Learning the libraries that the mappings of a package mean. -/
def mappingsLearned (root : Path) (c : Catalog) (p : Package) : List LogEntry :=
  let count := (Libraries.mappingsOf root c.modules p).length
  siblingLoaded c p ++ [.plain .debug .libraries
    ("Package " ++ p.name ++ ": " ++ Json.digits count ++ " library class mappings")]

/-- Making the catalog of a workspace anew. -/
def catalog (root : Path) (c : Catalog) : List LogEntry :=
  let modules := c.modules.records.values
  let declarations := c.declarations.all
  (modules ++ declarations).map (recordRead c) ++ c.platforms.all.flatMap (documentRead c) ++
    modules.map moduleTaken ++ declarations.map declarationTaken ++
    modules.flatMap rolesLearned ++ c.packages.all.flatMap (mappingsLearned root c)

/-- The time that a process took for a scan with these totals. -/
def timing (process : Text) (s : Summary) : LogEntry where
  level := .info
  area := .workspace
  message := "Performance timing"
  details := [("operation", .str "workspace_scan"), ("duration_ms", .null),
    ("files", .count (s.modules + s.packages + s.platforms)), ("pid", .str process)]

/-- The end of a scan with these events. -/
def completed (process : Text) (s : Summary) (events : List Event) : List LogEntry :=
  [timing process s, .plain .info .workspace ("Indexed " ++ totalsText s ", ")] ++
    (events.map fun e => .plain .trace .workspace ("Publishing " ++ e.kind)) ++
    [.plain .info .program ("Indexed " ++ totalsText s " and ")]

/-- A scan by a process that has found files, made a workspace of them and announced events. -/
def scan (process : Text) (files : Files) (w : Workspace) (events : List Event) : List LogEntry :=
  discovery files ++ catalog w.root w.catalog ++ completed process w.summary events

/-- Asking for the include directories of a source: each package that is named by a module which
owns the source, and has no declaration. -/
def includes (c : Catalog) (source : Path) : List LogEntry :=
  (c.modules.ownersOf source).flatMap fun r =>
    (r.packages.filter fun reference => c.declarations.resolve reference = []).map fun reference =>
      .plain .trace .modules (r.path.text ++ ": package " ++ reference ++ " is not indexed")

end FirmwareIndex.CommandLine.Trail
