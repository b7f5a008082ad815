import FirmwareIndex.Module.Entry
import FirmwareIndex.Platform.Document
import FirmwareIndex.Platform.Scope

/-!
# Component blocks

A component may be followed by a block in braces, in which implementations, settings and build
options are given for this component alone. The parts of a block are opened by names in angle
brackets. When the block is closed, one component is built for each scope of its section, and each
carries all that the block says.
-/

set_option autoImplicit false

namespace FirmwareIndex

/-- What a line that sets a configuration item says. -/
structure PcdEntry where
  space : Text
  name : Text
  value : Option Text
deriving DecidableEq, Repr

/-- Reads `SPACE.NAME` or `SPACE.NAME|VALUE`. The name may hold no blanks. -/
def PcdEntry.ofText? (t : Text) : Option PcdEntry :=
  let value := (Text.cut? '|' t).map fun sides => Text.trim sides.2
  match Text.cut? '.' (Text.trim (Text.before '|' t)) with
  | none => none
  | some (left, right) =>
    let space := Text.trim left
    let name := Text.trim right
    if space = [] || name = [] || name.any Text.isBlank then none else some ⟨space, name, value⟩

/-- The setting that an entry is for an architecture. -/
def PcdEntry.setting (e : PcdEntry) (kind : SectionName) (location : Location) (arch : Text) :
    PcdSetting :=
  ⟨kind, arch, e.space, e.name, e.value, location⟩

/-- The part of a component block that is being read. -/
inductive BlockPart where
  | outside
  | libraries
  | pcds (kind : SectionName)
  | buildOptions
deriving DecidableEq, Repr

namespace BlockPart

/-- The name of a part in a line that starts with an angle bracket. -/
def nameOf (line : Text) : Text :=
  Text.trim (Text.before '>' (line.dropWhile (· = '<')))

/-- The part of a block with a name, in any case of its letters. -/
def ofName? (name : Text) : Option BlockPart :=
  if Text.sameName name "LibraryClasses" then some .libraries
  else if Text.sameName name "BuildOptions" then some .buildOptions
  else ((SectionName.ofText? name).filter SectionName.isPcd).map .pcds

end BlockPart

/-- A setting in a block, with its place. -/
structure BlockPcd where
  kind : SectionName
  entry : PcdEntry
  location : Location
deriving DecidableEq, Repr

/-- A component block that is being read. -/
structure Block where
  path : Text
  location : Location
  part : BlockPart
  libraries : List LibraryClass
  pcds : List BlockPcd
  buildOptions : List Text
deriving DecidableEq, Repr

namespace Block

/-- A block in which nothing has been given yet. -/
def start (path : Text) (location : Location) : Block :=
  ⟨path, location, .outside, [], [], []⟩

/-- The component that the block stands for in one scope. Its implementations have the place of
the component, its settings keep their own. -/
def component (b : Block) (s : Scope) : BuiltModule where
  arch := s.arch
  path := b.path
  overrides := b.libraries.map fun l => ⟨s.arch, none, l.className, l.path, b.location⟩
  pcds := b.pcds.map fun p => p.entry.setting p.kind p.location s.arch
  buildOptions := b.buildOptions
  location := b.location

end Block

end FirmwareIndex
