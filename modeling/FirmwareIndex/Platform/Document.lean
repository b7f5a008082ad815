import FirmwareIndex.Path.Component
import FirmwareIndex.Platform.Problem
import FirmwareIndex.Platform.SectionName

/-!
# Platform documents

A document is all that a platform description and the files it includes say, in the order of the
lines, with the place of every entry. Its reduced form forgets the places: of several entries
under one key the first counts.
-/

set_option autoImplicit false

namespace FirmwareIndex

/-- The definition of a macro. -/
structure Definition where
  name : Text
  /-- The value, with the macros known before it expanded. -/
  value : Text
  location : Location
deriving DecidableEq, Repr

/-- The implementation chosen for a library class. -/
structure Override where
  arch : Text
  /-- The type of module it is chosen for, if one is named. -/
  moduleType : Option Text
  className : Text
  path : Text
  location : Location
deriving DecidableEq, Repr

/-- The setting of a platform configuration item. -/
structure PcdSetting where
  kind : SectionName
  arch : Text
  space : Text
  name : Text
  value : Option Text
  location : Location
deriving DecidableEq, Repr

/-- The full name of an item: its name space, a dot and its name. -/
def PcdSetting.qualifiedName (p : PcdSetting) : Text :=
  p.space ++ '.' :: p.name

/-- A component that is built for an architecture. -/
structure BuiltModule where
  arch : Text
  path : Text
  overrides : List Override
  pcds : List PcdSetting
  buildOptions : List Text
  location : Location
deriving DecidableEq, Repr

/-- A line of build options for an architecture. -/
structure BuildOption where
  arch : Text
  text : Text
  location : Location
deriving DecidableEq, Repr

/-- What a platform description and the files it includes say. -/
structure Document where
  file : Path
  definitions : List Definition
  libraries : List Override
  components : List BuiltModule
  pcds : List PcdSetting
  buildOptions : List BuildOption
  skuIds : List Text
  /-- The included files, in the order in which they were entered. -/
  included : List Path
  problems : List Problem
deriving DecidableEq, Repr

namespace Document

/-- The document of a file that says nothing. -/
def empty (file : Path) : Document :=
  ⟨file, [], [], [], [], [], [], [], []⟩

/-- The fatal problems of a document. -/
def fatal (d : Document) : List Problem :=
  d.problems.filter fun p => p.cause.severity = .fatal

/-- Whether a file was read for the document, as the platform file or through an include. -/
def visits (d : Document) (file : Path) : Bool :=
  d.file.Same file || d.included.any fun f => f.Same file

/-- The table with a diagnostic at the end of the group of its file. -/
def group (groups : PathMap (Path × List Diagnostic)) (p : Problem) :
    PathMap (Path × List Diagnostic) :=
  groups.alter p.location.file.components fun group? =>
    match group? with
    | none => some (p.location.file, [p.diagnostic])
    | some (file, list) => some (file, list ++ [p.diagnostic])

/-- The diagnostics of each file with problems, by path. A group carries the first spelling of
its file. -/
def diagnostics (d : Document) : List (Path × List Diagnostic) :=
  (d.problems.foldl group ∅).values

end Document

/-- A platform description without places, where the first entry under a key counts. -/
structure Reduced where
  file : Path
  definitions : TextMap Text
  libraries : TextMap (TextMap Text)
  libraryClasses : TextMap Text
  /-- The paths of the modules by architecture, each once. -/
  components : TextMap (List Text)
  /-- The settings by full name; a missing one is empty. -/
  pcds : TextMap Text
deriving DecidableEq

namespace Reduced

/-- The table with `path` at the end of the list of `arch`, unless the list has it. -/
def addComponent (m : TextMap (List Text)) (arch path : Text) : TextMap (List Text) :=
  m.alter arch fun paths? =>
    let paths := paths?.getD []
    some (if paths.contains path then paths else paths ++ [path])

/-- The table with an implementation for a class on an architecture, unless it has one. -/
def addLibrary (m : TextMap (TextMap Text)) (o : Override) : TextMap (TextMap Text) :=
  m.alter o.arch fun classes? => some ((classes?.getD ∅).insertIfNew o.className o.path)

/-- What a document says first under each key. -/
def ofDocument (d : Document) : Reduced where
  file := d.file
  definitions := d.definitions.foldl (fun m e => m.insertIfNew e.name e.value) ∅
  libraries := d.libraries.foldl addLibrary ∅
  libraryClasses := d.libraries.foldl (fun m o => m.insertIfNew o.className o.path) ∅
  components := d.components.foldl (fun m c => addComponent m c.arch c.path) ∅
  pcds := d.pcds.foldl (fun m p => m.insertIfNew p.qualifiedName (p.value.getD [])) ∅

end Reduced

end FirmwareIndex
