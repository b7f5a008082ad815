import FirmwareIndex.Module.Record
import FirmwareIndex.Platform.Machine

/-!
# Packages

A package is known by its declaration. The platform description beside it, which has the same name
with another extension, says which implementations its library classes have. That description is
looked for once, when it is first needed, and what was found stays with the package.
-/

set_option autoImplicit false

namespace FirmwareIndex

/-- What is known of the platform description beside a package. -/
inductive Sibling where
  | unknown
  | absent
  | loaded (platform : Reduced)
deriving DecidableEq

/-- A package: its declaration, and the platform description beside it. -/
structure Package where
  name : Text
  file : Path
  root : Path
  declaration : ModuleRecord
  /-- What is known of the platform description beside it. -/
  sibling : Sibling
deriving DecidableEq

namespace Package

/-- The package of a declaration. It has the name that the declaration defines, or else that of
its file. -/
def ofDeclaration (r : ModuleRecord) : Package where
  name := r.defines["PACKAGE_NAME".toList]?.getD r.path.stem
  file := r.path
  root := r.directory
  declaration := r
  sibling := .unknown

/-- Where the platform description beside the package would be. -/
def platformPath (p : Package) : Path :=
  p.file.withExtension "dsc"

/-- Gives the package its platform description, unless it has been looked for. -/
def preload (p : Package) (platform : Reduced) : Package :=
  match p.sibling with
  | .unknown => { p with sibling := .loaded platform }
  | _ => p

/-- Looks for the platform description beside the package, unless that has been done. -/
def load (s : Setting) (p : Package) : Package :=
  match p.sibling with
  | .unknown =>
    if s.sources.present p.platformPath then
      { p with sibling := .loaded (.ofDocument (.ofFile s p.platformPath)) }
    else { p with sibling := .absent }
  | _ => p

/-- The platform description beside the package, if it was found. -/
def platform? (p : Package) : Option Reduced :=
  match p.sibling with
  | .loaded platform => some platform
  | _ => none

/-- The library classes and their paths by architecture. A package without a platform description
has those that it declares, for all architectures. -/
def libraryClasses (p : Package) : TextMap (List LibraryClass) :=
  match p.platform? with
  | some platform =>
    platform.libraries.map fun _ classes => classes.toList.map fun c => ⟨c.1, c.2⟩
  | none =>
    if p.declaration.libraryClasses = [] then ∅
    else (∅ : TextMap (List LibraryClass)).insert commonArch p.declaration.libraryClasses

/-- The paths of the components by architecture. -/
def components (p : Package) : TextMap (List Text) :=
  match p.platform? with
  | some platform => platform.components
  | none => ∅

/-- Whether a file lies below the package. -/
def owns (p : Package) (file : Path) : Bool :=
  file.isUnder p.root

end Package

/-- The packages in the order in which they became known, one for each declaration file. -/
structure Packages where
  all : List Package
deriving DecidableEq

namespace Packages

/-- No packages. -/
def empty : Packages :=
  ⟨[]⟩

/-- The package of a declaration file. -/
def find? (ps : Packages) (file : Path) : Option Package :=
  ps.all.find? fun p => p.file.Same file

/-- The packages with a name. -/
def named (ps : Packages) (name : Text) : List Package :=
  ps.all.filter fun p => p.name = name

/-- Puts a package in the place of the first one of the same declaration file. -/
def replace (p : Package) : List Package → List Package
  | [] => []
  | q :: rest => if q.file.Same p.file then p :: rest else q :: replace p rest

/-- Adds a package at the end, or in place of an older one of the same declaration file. -/
def add (ps : Packages) (p : Package) : Packages :=
  match ps.find? p.file with
  | some _ => ⟨replace p ps.all⟩
  | none => ⟨ps.all ++ [p]⟩

/-- Removes the package of a declaration file. -/
def remove (ps : Packages) (file : Path) : Packages :=
  ⟨ps.all.eraseP fun p => p.file.Same file⟩

end Packages

end FirmwareIndex
