import FirmwareIndex.Catalog.Basic
import FirmwareIndex.Digest
import FirmwareIndex.Workspace.FileKind

/-!
# Updating the catalog

A build file that has been read gives an outcome, which is taken into the catalog in place of all
that was known of the file. A file that is gone is forgotten. The libraries depend on all modules
and packages together, so they are found anew once all outcomes have been taken in.
-/

set_option autoImplicit false

namespace FirmwareIndex

/-- What was read from a build file, by the kind of the file. -/
inductive Content where
  | module (r : ModuleRecord)
  | declaration (r : ModuleRecord)
  | platform (d : Document)
deriving DecidableEq

/-- The result of reading a build file. -/
structure Outcome where
  kind : FileKind
  path : Path
  /-- The fingerprint of its text, if that could be read. -/
  fingerprint : Option Text
  content : Content
deriving DecidableEq

namespace Outcome

/-- The outcome of reading a file as one of a kind. -/
def ofFile (s : Setting) (kind : FileKind) (path : Path) : Outcome where
  kind := kind
  path := path
  fingerprint := (s.sources.read path).toOption.map Digest.fingerprint
  content := match kind with
    | .module => .module (.ofFile s.sources path)
    | .declaration => .declaration (.ofFile s.sources path)
    | .platform => .platform (.ofFile s path)

/-- The outcomes of one kind in the order of the paths. -/
def ofKind (k : FileKind) (outcomes : List Outcome) : List Outcome :=
  ((outcomes.filter fun o => o.kind = k).foldl
    (fun m o => m.insert o.path.components o) (∅ : PathMap Outcome)).values

/-- The outcomes in the order in which they are taken in: by kind and path. -/
def arranged (outcomes : List Outcome) : List Outcome :=
  FileKind.all.flatMap fun k => ofKind k outcomes

end Outcome

namespace Catalog

/-- Sets or removes the fingerprint of a file. -/
def setFingerprint (c : Catalog) (path : Path) (fingerprint : Option Text) : Catalog :=
  { c with fingerprints := c.fingerprints.alter path.components fun _ => fingerprint }

/-- Takes the package beside a platform description back to a state in which that description has
not been looked for. -/
def refreshSibling (c : Catalog) (platform : Path) : Catalog :=
  match c.packages.find? (platform.withExtension FileKind.declaration.extension) with
  | none => c
  | some p => { c with packages := c.packages.add (.ofDeclaration p.declaration) }

/-- Takes in what was read from a file. A platform description is shown to the package beside it. -/
def takeContent (c : Catalog) (content : Content) : Catalog :=
  match content with
  | .module r => { c with modules := c.modules.insert r }
  | .declaration r =>
    { c with
      declarations := c.declarations.insert r
      packages := c.packages.add (.ofDeclaration r) }
  | .platform d => { c with platforms := c.platforms.insert d }.refreshSibling d.file

/-- Takes in the outcome of reading a file. -/
def take (c : Catalog) (o : Outcome) : Catalog :=
  (c.setFingerprint o.path o.fingerprint).takeContent o.content

/-- Whether anything is known of a file of a kind. A module that has not been read does not
count. -/
def knows (c : Catalog) (path : Path) : FileKind → Bool
  | .module => (c.modules.get? path).isSome
  | .declaration => (c.packages.find? path).isSome || (c.declarations.find? path).isSome
  | .platform => (c.platforms.get? path).isSome

/-- Removes all that is known of a file of a kind, and its fingerprint. -/
def forget (c : Catalog) (path : Path) (kind : FileKind) : Catalog :=
  let c := c.setFingerprint path none
  match kind with
  | .module => { c with modules := c.modules.forget path }
  | .declaration =>
    { c with
      declarations := c.declarations.remove path
      packages := c.packages.remove path }
  | .platform => { c with platforms := c.platforms.remove path }.refreshSibling path

/-- A package that has been given the platform description beside it, from the catalog if it is
there. -/
def loadPackage (s : Setting) (ps : Platforms) (p : Package) : Package :=
  match ps.get? p.platformPath with
  | some d => (p.preload (.ofDocument d)).load s
  | none => p.load s

/-- Finds the libraries anew, from the modules by path and then from the packages. -/
def rebuild (s : Setting) (root : Path) (c : Catalog) : Catalog :=
  let packages := c.packages.all.map (loadPackage s c.platforms)
  let ofModules := c.modules.records.values.foldl Libraries.addModule .empty
  { c with
    packages := ⟨packages⟩
    libraries := packages.foldl (Libraries.addPackage root c.modules) ofModules }

/-- The catalog of a workspace whose module descriptions are known, from the outcomes of its
files. The order of the outcomes has no effect. -/
def ofOutcomes (s : Setting) (root : Path) (modules : List Path) (outcomes : List Outcome) :
    Catalog :=
  rebuild s root ((Outcome.arranged outcomes).foldl take
    { Catalog.empty with modules := Modules.empty.setFiles modules })

end Catalog

end FirmwareIndex
