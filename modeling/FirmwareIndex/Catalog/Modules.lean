import FirmwareIndex.Catalog.Declarations

/-!
# Modules

The known module descriptions, the records of those that have been read, and for each source file
the modules that own it. The module that was read last comes first among the owners. A file can be
known without having been read; it is read when the modules below a directory are asked for.
-/

set_option autoImplicit false

namespace FirmwareIndex

/-- The modules that are known, and those of them that have been read. -/
structure Modules where
  files : List Path
  /-- The records of the files that have been read. -/
  records : PathMap ModuleRecord
  owners : PathMap (List ModuleRecord)
deriving DecidableEq

/-- How a source file is built as a part of one module. -/
structure Configuration where
  module : ModuleRecord
  includes : List Path
deriving DecidableEq

namespace Modules

/-- No modules. -/
def empty : Modules :=
  ⟨[], ∅, ∅⟩

/-- The record of a file, if it has been read. -/
def get? (m : Modules) (path : Path) : Option ModuleRecord :=
  m.records[path.components]?

/-- Sets the list of known files, without reading any of them. -/
def setFiles (m : Modules) (files : List Path) : Modules :=
  { m with files := files }

/-- The known files below a directory. -/
def filesUnder (m : Modules) (root : Path) : List Path :=
  m.files.filter fun file => file.isUnder root

/-- The owners with `r` in front of those of one source. -/
def addOwner (r : ModuleRecord) (owners : PathMap (List ModuleRecord)) (source : Path) :
    PathMap (List ModuleRecord) :=
  owners.alter source.components fun list? => some (r :: list?.getD [])

/-- The owners without the module at `path` among those of one source. -/
def dropOwner (path : Path) (owners : PathMap (List ModuleRecord)) (source : Path) :
    PathMap (List ModuleRecord) :=
  owners.alter source.components fun list? =>
    match (list?.getD []).filter fun r => ¬ r.path.Same path with
    | [] => none
    | list => some list

/-- Removes the record of a file. The file stays known. -/
def remove (m : Modules) (path : Path) : Modules :=
  match m.get? path with
  | none => m
  | some r =>
    { m with
      records := m.records.erase path.components
      owners := r.sources.foldl (dropOwner path) m.owners }

/-- Adds a record, in place of an older one for the same file. -/
def insert (m : Modules) (r : ModuleRecord) : Modules :=
  let m := m.remove r.path
  { files := Path.addNew m.files r.path
    records := m.records.insert r.path.components r
    owners := r.sources.foldl (addOwner r) m.owners }

/-- Removes a file from the list, and its record. -/
def forget (m : Modules) (path : Path) : Modules :=
  { m with files := m.files.filter fun file => ¬ file.Same path }.remove path

/-- The records of the known files below a directory, in the order of the files. -/
def recordsUnder (m : Modules) (root : Path) : List ModuleRecord :=
  (m.filesUnder root).filterMap m.get?

/-- The known files below a directory that have not been read. -/
def pending (m : Modules) (root : Path) : List Path :=
  (m.filesUnder root).filter fun file => (m.get? file).isNone

/-- Reads the known files below a directory that have not been read. -/
def loadUnder (m : Modules) (sources : Sources) (root : Path) : Modules :=
  (m.pending root).foldl (fun m file => m.insert (.ofFile sources file)) m

/-- The modules that own a source, the newest first. -/
def ownersOf (m : Modules) (source : Path) : List ModuleRecord :=
  m.owners[source.components]?.getD []

/-- Whether a source is owned by any module. -/
def hasOwner (m : Modules) (source : Path) : Bool :=
  m.ownersOf source ≠ []

/-- The include directories of the packages that a module names, each once. -/
def includesOf (d : Declarations) (r : ModuleRecord) : List Path :=
  Path.distinct (r.packages.flatMap fun reference =>
    (d.resolve reference).flatMap ModuleRecord.includes)

/-- How a source is built in each of the modules that own it. -/
def configurations (m : Modules) (d : Declarations) (source : Path) : List Configuration :=
  (m.ownersOf source).map fun r => ⟨r, includesOf d r⟩

/-- The include directories of a source over all modules that own it, each once. -/
def includes (m : Modules) (d : Declarations) (source : Path) : List Path :=
  Path.distinct ((m.configurations d source).flatMap Configuration.includes)

end Modules

end FirmwareIndex
