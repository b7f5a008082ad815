import FirmwareIndex.Path.Basic

/-!
# Sources of file texts

Readers get the texts of files from a source: it says which files there are and gives the text of
a file or the reason why it cannot be read. Only finitely many places can be read, and a source
carries a bound on their number; it bounds how deeply files can include one another.
-/

set_option autoImplicit false

namespace FirmwareIndex

/-- What keeps a file from being read. -/
inductive ReadError where
  /-- A set of files holds no file at the path. -/
  | notInSet
  | denied
  | noEntry
  /-- A component before the last one is a file. -/
  | notDirectory
  | isDirectory
  /-- The path or one of its names is too long. -/
  | nameTooLong
  | tooManyLinks
  | nulInPath
deriving DecidableEq, Repr

namespace ReadError

/-- What is said of a file that cannot be read. -/
def message : ReadError → Text
  | .notInSet => "File not found"
  | .denied => "denied"
  | .noEntry => "No such file or directory (os error 2)"
  | .notDirectory => "Not a directory (os error 20)"
  | .isDirectory => "Is a directory (os error 21)"
  | .nameTooLong => "File name too long (os error 36)"
  | .tooManyLinks => "Too many levels of symbolic links (os error 40)"
  | .nulInPath => "file name contained an unexpected NUL byte"

end ReadError

/-- The files that can be seen, and what reading gives. -/
structure Sources where
  /-- Whether there is a file at a path, readable or not. -/
  present : Path → Bool
  read : Path → Except ReadError Text
  capacity : Nat
  /-- Readable paths of which no two are the same place are no more than the bound. -/
  length_le_capacity : ∀ paths : List Path,
    paths.Pairwise (fun p q => ¬ p.Same q) → (∀ p ∈ paths, ∃ t, read p = .ok t) →
      paths.length ≤ capacity

end FirmwareIndex
