import FirmwareIndex.Path.Component

/-!
# Options of a workspace

Options say which directories of a workspace are looked into and when modules are read. They have
defaults, which variables of the environment replace and arguments of the command line add to.
-/

set_option autoImplicit false

namespace FirmwareIndex

/-- The variables of the environment that are set. -/
abbrev Environment := TextMap Text

/-- The text of a variable that switches something on. -/
def switchedOn : Text :=
  "true"

/-- What is looked for in a workspace. -/
structure Options where
  excluded : List Text
  /-- Whether directories with a leading dot are left out. -/
  skipHidden : Bool
  followLinks : Bool
  /-- Whether a scan reads the modules. If not, they are read when they are asked for. -/
  eager : Bool
deriving DecidableEq, Repr

namespace Options

/-- The options where nothing is asked for. -/
def default : Options :=
  ⟨["Build".toList], true, false, true⟩

/-- The items of a list separated by commas, without blanks around them and without empty ones. -/
def items (t : Text) : List Text :=
  ((t.splitOn ',').map Text.trim).filter (· ≠ [])

/-- The options that the environment asks for. -/
def ofEnvironment (env : Environment) : Options :=
  let excluded := env["EDK2_INDEX_EXCLUDE".toList]?
  let follow := env["EDK2_INDEX_FOLLOW_SYMLINKS".toList]?
  let lazy := env["EDK2_INDEX_LAZY_MODULES".toList]?
  { excluded := (excluded.map items).getD default.excluded
    skipHidden := default.skipHidden
    followLinks := (follow.map (· == switchedOn)).getD default.followLinks
    eager := (lazy.map (· != switchedOn)).getD default.eager }

/-- The names with `name` at the end, unless they have it. -/
def addName (names : List Text) (name : Text) : List Text :=
  if names.contains name then names else names ++ [name]

/-- The options with further excluded names, and with links followed if that is asked for. -/
def override (o : Options) (exclude : List Text) (follow : Bool) : Options :=
  { o with
    excluded := exclude.foldl addName o.excluded
    followLinks := o.followLinks || follow }

/-- Whether a directory with this name is left out. -/
def excludesName (o : Options) (name : Text) : Bool :=
  (o.skipHidden && name.head? = some '.' && 1 < name.length) || o.excluded.contains name

/-- Whether a file is left out because of a directory on its way, given the components of its path
below the root of the workspace. The last one is the file. -/
def excludesSteps (o : Options) (steps : List Component) : Bool :=
  (steps.dropLast.filterMap Component.name?).any o.excludesName

end Options

end FirmwareIndex
