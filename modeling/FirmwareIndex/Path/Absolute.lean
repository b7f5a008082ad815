import FirmwareIndex.Path.Basic

/-!
# Absolute paths

A path on the command line starts at the working directory unless it is absolute. Repeated slashes
and every `.` are left out, `..` is kept, and so is a slash at the end.
-/

set_option autoImplicit false

namespace FirmwareIndex.Path

/-- The pieces between the slashes of a path that are neither empty nor `.`. -/
def steps (p : Path) : List Text :=
  (p.text.splitOn '/').filter fun piece => (Component.ofPiece? piece).isSome

/-- Where a path starts, when relative paths start at `directory`. Two slashes at the start of a
path, unlike one or three, are kept. -/
def start (p directory : Path) : Path :=
  match p.text with
  | ['/', '/'] => ⟨"//"⟩
  | '/' :: '/' :: c :: _ => if c = '/' then ⟨"/"⟩ else ⟨"//"⟩
  | '/' :: _ => ⟨"/"⟩
  | _ => directory

/-- The path from the root, when relative paths start at `directory`. -/
def absolute (p directory : Path) : Path :=
  let whole := p.steps.foldl push (p.start directory)
  if p.text.getLast? = some '/' then whole.push [] else whole

end FirmwareIndex.Path
