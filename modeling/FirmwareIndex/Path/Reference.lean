import FirmwareIndex.Path.Basic

/-!
# References between files

Build files name other files by relative references, with slashes or backslashes. A reference is
joined to a directory by resolving its `.` and `..` pieces on the text alone. The other direction,
from a path to the references that may mean it, goes by the last pieces of its text.
-/

set_option autoImplicit false

namespace FirmwareIndex.Path

/-- One piece of a reference, applied to the path reached so far. -/
def step (p : Path) (piece : Text) : Path :=
  if piece = [] || piece = ['.'] then p
  else if piece = ['.', '.'] then p.pop
  else p.push piece

/-- The path that a relative reference means when it is read in the directory `p`.

A `..` takes away the last component and stays where it is if there is none. -/
def join (p : Path) (reference : Text) : Path :=
  ((Text.slashed (Text.trim reference)).splitOn '/').foldl step p

/-- The text of the path with every backslash turned into a slash. -/
def normalized (p : Path) : Text :=
  Text.slashed p.text

/-- Whether the text of the path ends with `ending` where a piece begins. -/
def hasEnding (p : Path) (ending : Text) : Bool :=
  match (Text.slashed (Text.trim ending)).dropWhile (· = '/') with
  | [] => false
  | wanted =>
    match wanted.reverse.isPrefixOf? p.normalized.reverse with
    | none => false
    | some [] => true
    | some (c :: _) => c = '/'

/-- The last `n` non-empty pieces of the text, joined by slashes. -/
def tail (p : Path) (n : Nat) : Text :=
  let pieces := (p.normalized.splitOn '/').filter (· ≠ [])
  ['/'].intercalate (pieces.drop (pieces.length - n))

end FirmwareIndex.Path
