import FirmwareIndex.Path.Component

/-!
# Paths

A path keeps the text it was written with, but it is compared, ordered and looked up by its
components: repeated slashes, a trailing slash and every `.` but a leading one leave no trace.
This module holds that view and the operations on the last component.
-/

set_option autoImplicit false

namespace FirmwareIndex

/-- The path of a file or a directory, as it was written. -/
structure Path where
  text : Text
deriving DecidableEq, Repr

namespace Path

instance : Inhabited Path := ⟨⟨[]⟩⟩

/-- The components of a path. Comparisons and look-ups see nothing else of it. -/
def components (p : Path) : List Component :=
  match p.text with
  | '/' :: rest => .root :: (rest.splitOn '/').filterMap Component.ofPiece?
  | t =>
    match t.splitOn '/' with
    | ['.'] :: rest => .here :: rest.filterMap Component.ofPiece?
    | pieces => pieces.filterMap Component.ofPiece?

/-- Two paths are the same place if they have the same components. -/
def Same (p q : Path) : Prop :=
  p.components = q.components

instance (p q : Path) : Decidable (p.Same q) :=
  inferInstanceAs (Decidable (p.components = q.components))

/-- Paths are ordered by their components. -/
def order (p q : Path) : Ordering :=
  compare p.components q.components

/-- Whether the path starts at the root. -/
def isAbsolute (p : Path) : Bool :=
  p.text.head? = some '/'

/-- Whether `base` is a leading path of `p`, component by component. -/
def isUnder (p base : Path) : Bool :=
  base.components.isPrefixOf p.components

/-- The pieces without those at the end that stand for no component. -/
def dropSilent (pieces : List Text) : List Text :=
  (pieces.reverse.dropWhile fun piece => Component.ofPiece? piece = none).reverse

/-- The text up to the end of the last component, without what follows it. -/
def trimmed (p : Path) : Text :=
  match p.text with
  | '/' :: rest => '/' :: ['/'].intercalate (dropSilent (rest.splitOn '/'))
  | t =>
    match t.splitOn '/' with
    | [] => []
    | head :: rest => ['/'].intercalate (head :: dropSilent rest)

/-- The path without its last component, or nothing for the root and the empty path. -/
def parent? (p : Path) : Option Path :=
  match p.text with
  | [] => none
  | '/' :: rest =>
    match dropSilent (rest.splitOn '/') with
    | [] => none
    | pieces => some ⟨'/' :: ['/'].intercalate (dropSilent pieces.dropLast)⟩
  | t =>
    match t.splitOn '/' with
    | [] => none
    | head :: rest =>
      match dropSilent rest with
      | [] => some ⟨[]⟩
      | pieces => some ⟨['/'].intercalate (head :: dropSilent pieces.dropLast)⟩

/-- The directory of a file: its parent, and the empty path where there is none. -/
def directory (p : Path) : Path :=
  p.parent?.getD ⟨[]⟩

/-- The last component, if it is a name. -/
def fileName? (p : Path) : Option Text :=
  p.components.getLast?.bind Component.name?

/-- A file name split at its last dot. A dot at the start does not count. -/
def splitName (name : Text) : Text × Option Text :=
  match Text.cut? '.' name.reverse with
  | none => (name, none)
  | some (_, []) => (name, none)
  | some (ending, stem) => (stem.reverse, some ending.reverse)

/-- The file name, or the empty text where there is none. -/
def baseName (p : Path) : Text :=
  p.fileName?.getD []

/-- The file name up to its last dot. -/
def stem (p : Path) : Text :=
  (p.fileName?.map fun name => (splitName name).1).getD []

/-- The file name after its last dot, with ASCII capitals made small. -/
def extension? (p : Path) : Option Text :=
  (p.fileName?.bind fun name => (splitName name).2).map Text.lower

/-- The path with the extension of its file name exchanged.

All that follows the stem of the last component is replaced. A file name such as `..x`, whose
stem is a single dot, has nothing put after it: without its extension it is no file name. -/
def withExtension (p : Path) (ext : Text) : Path :=
  match p.fileName? with
  | none => p
  | some name =>
    let (stem, old?) := splitName name
    let kept := p.trimmed.take (p.trimmed.length - (name.length - stem.length))
    if stem = ['.'] && old?.isSome && p.trimmed = p.text then ⟨kept ++ ['.']⟩
    else if ext = [] then ⟨kept⟩
    else ⟨kept ++ '.' :: ext⟩

/-- The path followed by `t`: an absolute `t` replaces it, a relative one comes after a slash. -/
def push (p : Path) (t : Text) : Path :=
  if t.head? = some '/' then ⟨t⟩
  else if p.text = [] || p.text.getLast? = some '/' then ⟨p.text ++ t⟩
  else ⟨p.text ++ '/' :: t⟩

/-- The path without its last component; a path that has no parent stays as it is. -/
def pop (p : Path) : Path :=
  p.parent?.getD p

/-- The list with `p` at its end, unless it already has a path that is the same place. -/
def addNew (paths : List Path) (p : Path) : List Path :=
  if paths.any (fun q => q.Same p) then paths else paths ++ [p]

/-- The paths without those that are the same place as an earlier one. -/
def distinct (paths : List Path) : List Path :=
  paths.foldl addNew []

/-- The paths in their order. Paths that are the same place are listed once. -/
def sorted (paths : List Path) : List Path :=
  (paths.foldl (fun m p => m.insertIfNew p.components p) (∅ : PathMap Path)).values

end Path

end FirmwareIndex
