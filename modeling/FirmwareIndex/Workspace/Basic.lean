import FirmwareIndex.Tree.Sources
import FirmwareIndex.Workspace.Discovery
import FirmwareIndex.Workspace.Event

/-!
# Workspaces

A workspace is a root directory, the options for looking through it and the catalog of what was
found there. A scan makes the catalog anew from the tree; a rescan takes in the change of a single
file; modules that were left unread are read when those below a directory are asked for. An
operation that is refused, or that finds nothing to do, leaves the catalog as it is.
-/

set_option autoImplicit false

namespace FirmwareIndex

/-- A workspace: its root, what is looked for, and what is known. -/
structure Workspace where
  root : Path
  options : Options
  catalog : Catalog
deriving DecidableEq

namespace Workspace

/-- A workspace that has not been scanned. -/
def start (root : Path) (options : Options) : Workspace :=
  ⟨root, options, .empty⟩

/-- What the files of the workspace are read with. -/
def setting (w : Workspace) (t : Tree) : Setting :=
  ⟨t.sources, some w.root⟩

/-- The outcomes of reading the files that a scan reads. -/
def outcomes (w : Workspace) (t : Tree) (files : Files) : List Outcome :=
  let read := fun kind paths => paths.map (Outcome.ofFile (w.setting t) kind)
  (if w.options.eager then read .module files.modules else []) ++
    read .declaration files.declarations ++ read .platform files.platforms

/-- The workspace with a catalog made from outcomes. -/
def rebuiltFrom (w : Workspace) (t : Tree) (files : Files) (outcomes : List Outcome) : Workspace :=
  { w with catalog := .ofOutcomes (w.setting t) w.root files.modules outcomes }

/-- The events of a scan: those of the outcomes and the end of the scan. -/
def scanEvents (w : Workspace) (outcomes : List Outcome) : List Event :=
  (Outcome.arranged outcomes).filterMap Event.ofOutcome ++
    [.scanCompleted (.ofCatalog w.root w.catalog)]

/-- Makes the catalog anew from files that have been found. -/
def index (w : Workspace) (t : Tree) (files : Files) : Workspace × List Event :=
  let outcomes := w.outcomes t files
  let scanned := w.rebuiltFrom t files outcomes
  (scanned, scanned.scanEvents outcomes)

/-- Finds the build files of a tree and makes the catalog from them. -/
def scan (w : Workspace) (t : Tree) : Except Refusal (Workspace × List Event) :=
  (Discovery.run t w.options w.root).map (w.index t)

/-- The totals of a workspace. -/
def summary (w : Workspace) : Summary :=
  .ofCatalog w.root w.catalog

/-- The components of a path below the root, if it is below the root by its components alone. -/
def relative? (w : Workspace) (path : Path) : Option (List Component) :=
  w.root.components.isPrefixOf? path.components

/-- The files that have to be read when a path has changed: the file itself if it is a build file,
or else the platforms that included it. -/
def targets (w : Workspace) (path : Path) : List (Path × FileKind) :=
  match FileKind.ofPath? path with
  | some kind => [(path, kind)]
  | none => (w.catalog.platforms.visiting path).map fun d => (d.file, .platform)

/-- A rescan on its way: the catalog, the events and whether anything has changed. -/
structure Rescan where
  catalog : Catalog
  events : List Event
  changed : Bool

/-- Reads one file of a rescan for a changed path. The changed file is passed over if its text is
known. -/
def Rescan.read (s : Setting) (path : Path) (r : Rescan) (target : Path × FileKind) : Rescan :=
  if s.sources.present target.1 then
    let o := Outcome.ofFile s target.2 target.1
    if target.1.Same path && o.fingerprint.isSome &&
        r.catalog.fingerprints[target.1.components]? = o.fingerprint then r
    else ⟨r.catalog.take o, r.events ++ (Event.ofOutcome o).toList, true⟩
  else
    { r with
      catalog := r.catalog.forget target.1 target.2
      changed := r.changed || r.catalog.knows target.1 target.2 }

/-- Takes in the change of a file. The answer says whether the catalog has changed. Build files in
directories that are left out are ignored. -/
def rescan (w : Workspace) (t : Tree) (path : Path) :
    Except Refusal (Workspace × Bool × List Event) :=
  match w.relative? path with
  | none => .error (.outsideWorkspace path)
  | some relative =>
    if (FileKind.ofPath? path).isSome && w.options.excludesSteps relative then .ok (w, false, [])
    else
      let s := w.setting t
      let r := (w.targets path).foldl (Rescan.read s path) ⟨w.catalog, [], false⟩
      if r.changed then
        .ok ({ w with catalog := r.catalog.rebuild s w.root }, true, r.events)
      else .ok (w, false, [])

/-- Reads the modules below a directory that have not been read. -/
def loadUnder (w : Workspace) (t : Tree) (root : Path) : Workspace :=
  if w.catalog.modules.pending root = [] then w
  else
    let modules := w.catalog.modules.loadUnder t.sources root
    { w with catalog := { w.catalog with modules := modules }.rebuild (w.setting t) w.root }

/-- The modules below a directory, once they have been read. -/
def modulesUnder (w : Workspace) (root : Path) : List ModuleRecord :=
  w.catalog.modules.recordsUnder root

end Workspace

end FirmwareIndex
