import FirmwareIndex.Text.Basic
import FirmwareIndex.Text.Word

/-!
# Entries

The kinds of line that stand under the headers of a build file: definitions, names with a GUID,
library classes with the path of a header or an implementation, and the class that a library
declares for itself. A line that lacks one of its sides is no entry.
-/

set_option autoImplicit false

namespace FirmwareIndex

/-- A name and the GUID it stands for. -/
structure GuidEntry where
  name : Text
  guid : Text
deriving DecidableEq, Repr

/-- A library class and the path given for it. -/
structure LibraryClass where
  className : Text
  path : Text
deriving DecidableEq, Repr

/-- A library class that a module implements, and the types of module it does so for. -/
structure LibraryRole where
  className : Text
  moduleTypes : List Text
deriving DecidableEq, Repr

namespace Entry

/-- The name and the value of `NAME = VALUE` or `DEFINE NAME = VALUE`. The name may not be empty. -/
def definition? (line : Text) : Option (Text × Text) :=
  match Text.cut? '=' ((Text.after? "DEFINE " line).getD line) with
  | none => none
  | some (name, value) =>
    if Text.trim name = [] then none else some (Text.trim name, Text.trim value)

/-- The two sides of a line cut at the first `sep`, when neither is blank. -/
def sides? (sep : Char) (line : Text) : Option (Text × Text) :=
  match Text.cut? sep line with
  | none => none
  | some (left, right) =>
    if Text.trim left = [] || Text.trim right = [] then none
    else some (Text.trim left, Text.trim right)

/-- The name and the identifier on the two sides of the first equals sign. -/
def guid? (line : Text) : Option GuidEntry :=
  (sides? '=' line).map fun (name, guid) => ⟨name, guid⟩

/-- The class and the path on the two sides of the first bar. -/
def libraryClass? (line : Text) : Option LibraryClass :=
  (sides? '|' line).map fun (className, path) => ⟨className, path⟩

/-- The class in the value of a `LIBRARY_CLASS` definition, and the module types after its bar. -/
def role? (value : Text) : Option LibraryRole :=
  let (className, types) := (Text.cut? '|' value).getD (value, [])
  if Text.trim className = [] then none else some ⟨Text.trim className, Text.words types⟩

/-- The role that a line declares, if it defines `LIBRARY_CLASS`. -/
def libraryRole? (line : Text) : Option LibraryRole :=
  match definition? line with
  | some (name, value) => if name = "LIBRARY_CLASS".toList then role? value else none
  | none => none

/-- Whether a path is that of a module description, whatever the case of its letters. -/
def isModulePath (path : Text) : Bool :=
  ".inf".toList.isSuffixOf (Text.lower path)

/-- The path of a module at the start of a component line: word characters and slashes, then
`.inf` in small letters. -/
def component? (line : Text) : Option Text :=
  let isPart := fun c => Text.isWord c || c = '/'
  let start := line.takeWhile isPart
  if start = [] then none
  else if ".inf".toList.isPrefixOf (line.dropWhile isPart) then some (start ++ ".inf") else none

end Entry

end FirmwareIndex
