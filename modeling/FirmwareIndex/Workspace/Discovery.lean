import FirmwareIndex.Tree.Lookup
import FirmwareIndex.Workspace.FileKind
import FirmwareIndex.Workspace.Options
import FirmwareIndex.Workspace.Refusal

/-!
# Finding the build files of a workspace

The directories below the root are looked through, apart from those that the options leave out.
Links are passed over unless the options say that they are followed; a followed link that leads
nowhere, or back to a directory that is being looked through, is a dead end. So is a directory whose
path is too long, which only a followed link can bring about. What is found is listed by kind, in
the order of the paths, so the order in which a directory lists its entries has no effect.
-/

set_option autoImplicit false

namespace FirmwareIndex

/-- What is found in a workspace, each list in the order of the paths. -/
structure Files where
  modules : List Path
  declarations : List Path
  platforms : List Path
  /-- The followed links and directories that are dead ends. -/
  deadEnds : List Path
deriving DecidableEq, Repr

namespace Discovery

/-- What is done with an entry of a directory. -/
inductive Visit where
  | skip
  /-- It is a followed link that is a dead end. -/
  | deadEnd
  | file
  /-- It is a directory at an address, which is looked through. -/
  | enter (a : Address)
deriving DecidableEq, Repr

/-- What is done with the entry at an address that is reached by a path, below directories at the
addresses `above`. -/
def visit (t : Tree) (o : Options) (above : List Address) (a : Address) (path : Path) : Visit :=
  match t.node? a with
  | none => .skip
  | some (.file _) => .file
  | some .directory => .enter a
  | some (.link _) =>
    if o.followLinks then
      match t.lookup path with
      | .ok (_, .file _) => .file
      | .ok (b, .directory) => if above.contains b then .deadEnd else .enter b
      | _ => .deadEnd
    else .skip

/-- What is found on the way through a tree. -/
inductive Finding where
  | file (p : Path)
  /-- A followed link or a directory that is a dead end. -/
  | deadEnd (p : Path)
deriving DecidableEq, Repr

/-- The file that was found, if it is one. -/
def Finding.file? : Finding → Option Path
  | .file p => some p
  | .deadEnd _ => none

/-- The dead end that was found, if it is one. -/
def Finding.deadEnd? : Finding → Option Path
  | .file _ => none
  | .deadEnd p => some p

/-- What is found below a directory, at most `depth` levels deep, where `listing` gives the names
of the entries of a directory. -/
def below (t : Tree) (listing : Address → List Text) (o : Options) :
    Nat → List Address → Address → Path → List Finding
  | 0, _, _, _ => []
  | depth + 1, above, a, path =>
    (listing a).flatMap fun name =>
      let path := path.push name
      match visit t o above (name :: a) path with
      | .skip => []
      | .deadEnd => [.deadEnd path]
      | .file => [.file path]
      | .enter b =>
        if o.excludesName name then []
        else if Tree.maxPath ≤ Tree.byteLength path.text then [.deadEnd path]
        else below t listing o depth (b :: above) b path

/-- A number of levels that no path reaches. Between two followed links there are no more levels
than entries in the tree, and the links on a way lead to different entries. -/
def maxDepth (t : Tree) : Nat :=
  (t.nodes.size + 2) * (t.nodes.size + 2)

/-- The files of a kind in the order of their paths. -/
def ofKind (k : FileKind) (found : List Path) : List Path :=
  Path.sorted (found.filter fun p => p.fileName?.bind FileKind.ofName? = some k)

/-- What can be found below a root, where `listing` gives the names of the entries of a
directory. -/
def runWith (t : Tree) (listing : Address → List Text) (o : Options) (root : Path) :
    Except Refusal Files :=
  match t.lookup root with
  | .error _ => .error (.pathNotFound root)
  | .ok (a, .directory) =>
    let found := below t listing o (maxDepth t) [a] a root
    let files := found.filterMap Finding.file?
    .ok ⟨ofKind .module files, ofKind .declaration files, ofKind .platform files,
      Path.sorted (found.filterMap Finding.deadEnd?)⟩
  | .ok _ => .error (.notADirectory root)

/-- What can be found below a root. -/
def run (t : Tree) (o : Options) (root : Path) : Except Refusal Files :=
  runWith t t.names o root

end Discovery

end FirmwareIndex
