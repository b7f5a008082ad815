import FirmwareIndex.Catalog.Libraries
import FirmwareIndex.Platform.Document

/-!
# Platforms

The documents of a workspace by the path of their platform file. A file can be read for several
platforms, and what was found in it is then reported once.
-/

set_option autoImplicit false

namespace FirmwareIndex

/-- The documents of platform descriptions by the places of their files. -/
structure Platforms where
  documents : PathMap Document
deriving DecidableEq

namespace Platforms

/-- No platforms. -/
def empty : Platforms :=
  ⟨∅⟩

/-- Adds a document, in place of an older one of the same file. -/
def insert (ps : Platforms) (d : Document) : Platforms :=
  ⟨ps.documents.insert d.file.components d⟩

/-- Takes out the document of a file. -/
def remove (ps : Platforms) (file : Path) : Platforms :=
  ⟨ps.documents.erase file.components⟩

/-- The document of a file. -/
def get? (ps : Platforms) (file : Path) : Option Document :=
  ps.documents[file.components]?

/-- All documents, by path. -/
def all (ps : Platforms) : List Document :=
  ps.documents.values

/-- The documents for which a file was read. -/
def visiting (ps : Platforms) (file : Path) : List Document :=
  ps.all.filter fun d => d.visits file

/-- The diagnostics in a file over all platforms, each once. -/
def diagnosticsIn (ps : Platforms) (file : Path) : List Diagnostic :=
  let found := ps.all.flatMap fun d =>
    (d.problems.filter fun p => p.location.file.Same file).map Problem.diagnostic
  found.eraseDups

/-- The choice that a document makes for a class and an architecture: the first one for that
architecture, whatever the case of its letters, or else the first one for all architectures. -/
def choose (overrides : List Override) (className arch : Text) : Option Override :=
  (overrides.find? fun o => o.className = className && Text.sameName o.arch arch).or
    (overrides.find? fun o => o.className = className && o.arch = commonArch)

/-- The library that a platform chooses for a class and an architecture. -/
def resolve (ps : Platforms) (libraries : Libraries) (file : Path) (className arch : Text) :
    Option Library :=
  (ps.get? file).bind fun d =>
    (choose d.libraries className arch).bind fun o => libraries.find? className o.path

end Platforms

end FirmwareIndex
