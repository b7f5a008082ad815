import FirmwareIndex.Catalog.Modules
import FirmwareIndex.Catalog.Packages

/-!
# Libraries

A library is an implementation of a library class. Libraries are learned from modules that declare
the classes they implement and from the mappings of packages. There is one library for a class and
a path; when it is learned again it takes the newer architecture, keeps the module and the package
that the newer one lacks, and moves to the end.
-/

set_option autoImplicit false

namespace FirmwareIndex

/-- An implementation of a library class. -/
structure Library where
  className : Text
  path : Path
  arch : Text
  /-- The name of the package whose mappings name it, if one does. -/
  package : Option Text
  /-- The module at its path, if that has been read. -/
  module : Option ModuleRecord
deriving DecidableEq

namespace Library

/-- The library as it is known once it has been learned again. -/
def mergedOver (new old : Library) : Library :=
  { new with module := new.module.or old.module, package := new.package.or old.package }

/-- Whether two libraries are of one class and at one path. -/
def sameEntry (a b : Library) : Bool :=
  a.className = b.className && a.path.Same b.path

end Library

/-- The libraries that have been learned, in a list and by class and path. -/
structure Libraries where
  /-- All libraries, in the order in which they were last learned. -/
  all : List Library
  byClass : TextMap (PathMap Library)
deriving DecidableEq

namespace Libraries

/-- No libraries. -/
def empty : Libraries :=
  ⟨[], ∅⟩

/-- The library of a class at a path. -/
def get? (ls : Libraries) (className : Text) (path : Path) : Option Library :=
  ls.byClass[className]?.bind fun paths => paths[path.components]?

/-- The library that learning `l` leads to. -/
def learned (ls : Libraries) (l : Library) : Library :=
  match ls.get? l.className l.path with
  | none => l
  | some old => l.mergedOver old

/-- Learns a library, which comes last and takes the place of an older one for its class and path.
-/
def add (ls : Libraries) (l : Library) : Libraries :=
  let new := ls.learned l
  { all := ls.all.filter (fun other => !other.sameEntry new) ++ [new]
    byClass := ls.byClass.alter new.className fun paths? =>
      some ((paths?.getD ∅).insert new.path.components new) }

/-- The library that a mapping of a package means. The paths of modules start at the root of the
workspace, all others at the root of the package. -/
def ofMapping (root : Path) (m : Modules) (p : Package) (arch : Text) (l : LibraryClass) :
    Library :=
  let base := if Entry.isModulePath l.path then root else p.root
  let path := base.join l.path
  ⟨l.className, path, arch, some p.name, m.get? path⟩

/-- The libraries that the mappings of a package mean, by architecture and class. The platform
description beside the package must have been looked for. -/
def mappingsOf (root : Path) (m : Modules) (p : Package) : List Library :=
  p.libraryClasses.toList.flatMap fun entry => entry.2.map (ofMapping root m p entry.1)

/-- Learns the libraries that the mappings of a package mean. -/
def addPackage (root : Path) (m : Modules) (ls : Libraries) (p : Package) : Libraries :=
  (mappingsOf root m p).foldl add ls

/-- The libraries that a module declares to implement. -/
def rolesOf (r : ModuleRecord) : List Library :=
  r.libraryRoles.map fun role => ⟨role.className, r.path, commonArch, none, some r⟩

/-- Learns the libraries that a module declares to implement. -/
def addModule (ls : Libraries) (r : ModuleRecord) : Libraries :=
  (rolesOf r).foldl add ls

/-- The libraries of a class, by path. -/
def implementations (ls : Libraries) (className : Text) : List Library :=
  (ls.byClass[className]?.map fun paths => paths.values).getD []

/-- The libraries of every class, by path. -/
def grouped (ls : Libraries) : TextMap (List Library) :=
  ls.byClass.map fun _ paths => paths.values

/-- The first library of a class whose path ends with the given text where a piece begins. -/
def find? (ls : Libraries) (className ending : Text) : Option Library :=
  ls.all.find? fun l => l.className = className && l.path.hasEnding ending

end Libraries

end FirmwareIndex
