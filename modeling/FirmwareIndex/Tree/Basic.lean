import FirmwareIndex.Path.Basic
import FirmwareIndex.Text.Utf8

/-!
# Trees of files

A tree holds files, directories and symbolic links. Entries are kept by their addresses: the name
of an entry and the names of the directories above it, from the inside out. The root is a directory
that is always there. Reading can be denied for a path, which leaves the tree as it is.
-/

set_option autoImplicit false

namespace FirmwareIndex

/-- The name of an entry and the names of the directories above it, from the inside out. -/
abbrev Address := List Text

/-- An entry of a tree. -/
inductive Node where
  | file (bytes : List UInt8)
  | directory
  /-- A symbolic link and the path that it stands for. -/
  | link (target : Text)
deriving DecidableEq, Repr

/-- The entries below a root, and the paths that may not be read. -/
structure Tree where
  nodes : Std.ExtTreeMap Address Node
  denied : PathMap Unit
deriving DecidableEq

namespace Tree

/-- The tree that has only its root. -/
def empty : Tree :=
  ⟨∅, ∅⟩

/-- The entry at an address. The root is a directory. -/
def node? (t : Tree) (a : Address) : Option Node :=
  if a = [] then some .directory else t.nodes[a]?

/-- The names of the entries in a directory. -/
def names (t : Tree) (a : Address) : List Text :=
  t.nodes.keys.filterMap fun key =>
    match key with
    | [] => none
    | name :: above => if above = a then some name else none

/-- The tree with a directory at an address and at all those above it that have no entry. -/
def addDirectory (t : Tree) : Address → Tree
  | [] => t
  | name :: above =>
    let t := t.addDirectory above
    { t with nodes := t.nodes.insertIfNew (name :: above) .directory }

/-- The tree with an entry, and with the directories above it. -/
def put (t : Tree) (a : Address) (n : Node) : Tree :=
  let t := t.addDirectory a.tail
  { t with nodes := t.nodes.insert a n }

/-- The tree without an entry and without all that is below it. -/
def remove (t : Tree) (a : Address) : Tree :=
  { t with nodes := t.nodes.filter fun key _ => !a.isSuffixOf key }

/-- The tree in which a path may not be read. -/
def deny (t : Tree) (p : Path) : Tree :=
  { t with denied := t.denied.insert p.components () }

/-- The tree in which a path may be read again. -/
def allow (t : Tree) (p : Path) : Tree :=
  { t with denied := t.denied.erase p.components }

/-- Whether a path may not be read. -/
def isDenied (t : Tree) (p : Path) : Bool :=
  t.denied.contains p.components

end Tree

end FirmwareIndex
