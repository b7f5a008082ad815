import FirmwareIndex.Path.Basic

/-!
# Refusals

An operation on a workspace is refused as a whole when its root is no directory or when a path is
not below the root. Problems within single files are never a reason to refuse.
-/

set_option autoImplicit false

namespace FirmwareIndex

/-- Why a path is refused. -/
inductive Refusal where
  | pathNotFound (path : Path)
  | notADirectory (path : Path)
  | outsideWorkspace (path : Path)
deriving DecidableEq, Repr

namespace Refusal

/-- The path that the refusal is about. -/
def path : Refusal → Path
  | .pathNotFound p | .notADirectory p | .outsideWorkspace p => p

/-- The name of the kind of refusal. -/
def kind : Refusal → Text
  | .pathNotFound _ => "PathNotFound"
  | .notADirectory _ => "NotADirectory"
  | .outsideWorkspace _ => "OutsideWorkspace"

/-- What is said of a path that is refused. -/
def message : Refusal → Text
  | .pathNotFound p => "Path does not exist: " ++ p.text
  | .notADirectory p => "Workspace root is not a directory: " ++ p.text
  | .outsideWorkspace p => "Path is outside the workspace: " ++ p.text

end Refusal

end FirmwareIndex
