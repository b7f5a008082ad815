import FirmwareIndex.Source.Basic
import FirmwareIndex.Tree.Basic

/-!
# Finding entries

A path leads through a tree piece by piece. Only a directory can be gone through; `..` leads to the
directory above; a link is replaced by the path it stands for, and forty links may be followed on
one way. Paths and names have a greatest length in bytes.
-/

set_option autoImplicit false

namespace FirmwareIndex.Tree

/-- Which missing entries a way may go through. -/
inductive Missing where
  | none
  | last
  /-- All, which are taken for directories that will be made. -/
  | any
deriving DecidableEq, Repr

/-- What to do at the borders of a tree. -/
structure Mode where
  /-- Whether a link at the end of a path is followed. -/
  followLast : Bool
  missing : Missing
deriving DecidableEq, Repr

/-- The entry that a path leads to. -/
def Mode.follow : Mode :=
  ⟨true, .none⟩

/-- The entry that a path leads to, or the link itself if it ends in one. -/
def Mode.keep : Mode :=
  ⟨false, .none⟩

/-- The place where a file would be opened to be written to. -/
def Mode.openFile : Mode :=
  ⟨true, .last⟩

/-- The place where an entry would be made together with the directories on the way. -/
def Mode.make : Mode :=
  ⟨true, .any⟩

/-- Whether a missing entry with so many pieces after it is gone through. -/
def Mode.admits (mode : Mode) (rest : List Text) : Bool :=
  match mode.missing with
  | .none => false
  | .last => rest.isEmpty
  | .any => true

/-- How many links may be followed on one way. -/
def maxLinks : Nat :=
  40

/-- How many bytes a name may have. -/
def maxName : Nat :=
  255

/-- How many bytes a path may not reach. -/
def maxPath : Nat :=
  4096

/-- The number of bytes of a text. -/
def byteLength : Text → Nat
  | [] => 0
  | c :: t => c.utf8Size + byteLength t

/-- The end of a way of pieces from an address, where `jump` goes on behind a link. -/
def goWith (t : Tree) (mode : Mode) (jump : Address → List Text → Except ReadError Address) :
    Address → List Text → Except ReadError Address
  | a, [] => .ok a
  | a, piece :: rest =>
    match t.node? a with
    | some (.file _) | some (.link _) => .error .notDirectory
    | none | some .directory =>
      if piece = [] || piece = ['.'] then goWith t mode jump a rest
      else if piece = ['.', '.'] then goWith t mode jump a.tail rest
      else if maxName < byteLength piece then .error .nameTooLong
      else
        match t.node? (piece :: a) with
        | none => if mode.admits rest then goWith t mode jump (piece :: a) rest else .error .noEntry
        | some (.link target) =>
          if rest = [] && !mode.followLast then .ok (piece :: a)
          else jump (if target.head? = some '/' then [] else a) (target.splitOn '/' ++ rest)
        | some _ => goWith t mode jump (piece :: a) rest

/-- The end of a way of pieces from an address, on which so many links may be followed. -/
def go (t : Tree) (mode : Mode) : Nat → Address → List Text → Except ReadError Address
  | 0 => goWith t mode fun _ _ => .error .tooManyLinks
  | links + 1 => goWith t mode (go t mode links)

/-- The address that a path leads to from the root. -/
def locate (t : Tree) (mode : Mode) (p : Path) : Except ReadError Address :=
  if p.text.contains (Char.ofNat 0) then .error .nulInPath
  else if maxPath ≤ byteLength p.text then .error .nameTooLong
  else if p.text = [] then .error .noEntry
  else t.go mode maxLinks [] (p.text.splitOn '/')

/-- The address and the entry that a path leads to. -/
def lookup (t : Tree) (p : Path) : Except ReadError (Address × Node) :=
  match t.locate .follow p with
  | .error reason => .error reason
  | .ok a =>
    match t.node? a with
    | none => .error .noEntry
    | some n => .ok (a, n)

/-- Whether a path leads to an entry. -/
def exists? (t : Tree) (p : Path) : Bool :=
  (t.lookup p).isOk

/-- Whether a path leads to a directory. -/
def isDirectory (t : Tree) (p : Path) : Bool :=
  match t.lookup p with
  | .ok (_, .directory) => true
  | _ => false

/-- Whether a path leads to a file. -/
def isFile (t : Tree) (p : Path) : Bool :=
  match t.lookup p with
  | .ok (_, .file _) => true
  | _ => false

/-- The text of the file that a path leads to. -/
def read (t : Tree) (p : Path) : Except ReadError Text :=
  if t.isDenied p then .error .denied
  else
    match t.lookup p with
    | .error reason => .error reason
    | .ok (_, .file bytes) => .ok (Utf8.decode bytes)
    | .ok _ => .error .isDirectory

/-- Writes a file, and makes the directories on the way to it. Nothing happens where there can be
no file. -/
def writeFile (t : Tree) (p : Path) (bytes : List UInt8) : Tree :=
  match t.locate .make p with
  | .ok (name :: above) =>
    if t.node? (name :: above) = some .directory then t else t.put (name :: above) (.file bytes)
  | _ => t

/-- Makes a link, and the directories on the way to it. Nothing happens where there is an entry. -/
def writeLink (t : Tree) (p : Path) (target : Text) : Tree :=
  match t.locate { Mode.make with followLast := false } p with
  | .ok a => if (t.node? a).isSome then t else t.put a (.link target)
  | .error _ => t

/-- Adds bytes at the end of a file. The file is made if there is none, in a directory that is
there. -/
def append (t : Tree) (p : Path) (bytes : List UInt8) : Except ReadError Tree :=
  match t.locate .openFile p with
  | .error reason => .error reason
  | .ok a =>
    match t.node? a with
    | none => .ok (t.put a (.file bytes))
    | some (.file old) => .ok (t.put a (.file (old ++ bytes)))
    | some _ => .error .isDirectory

/-- Removes the entry that a path leads to, with all that is below it. A link is removed itself. -/
def erase (t : Tree) (p : Path) : Tree :=
  match t.locate .keep p with
  | .ok (name :: above) => t.remove (name :: above)
  | _ => t

end FirmwareIndex.Tree
