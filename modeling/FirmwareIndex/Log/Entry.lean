import FirmwareIndex.Json

/-!
# Log entries

What happens during a run is written to the log as entries. An entry has a level, an area of the
program that it comes from, a message, and possibly further fields with values.
-/

set_option autoImplicit false

namespace FirmwareIndex

/-- How important an entry of the log is. -/
inductive LogLevel where
  | error
  | warn
  | info
  | debug
  | trace
deriving DecidableEq, Repr

namespace LogLevel

/-- The levels, those that matter most first. -/
def all : List LogLevel :=
  [.error, .warn, .info, .debug, .trace]

/-- The number of a level. Levels that matter more have smaller numbers. -/
def rank : LogLevel → Nat
  | .error => 1
  | .warn => 2
  | .info => 3
  | .debug => 4
  | .trace => 5

/-- The name of a level. -/
def name : LogLevel → Text
  | .error => "ERROR"
  | .warn => "WARN"
  | .info => "INFO"
  | .debug => "DEBUG"
  | .trace => "TRACE"

end LogLevel

/-- The areas of the program that entries come from. -/
inductive LogArea where
  | program
  | workspace
  | filePatterns
  | records
  | documents
  | modules
  | declarations
  | packages
  | libraries
deriving DecidableEq, Repr

/-- The name of an area. The areas of the catalog and those of reading each share a beginning. -/
def LogArea.name : LogArea → Text
  | .program => "edk2_index"
  | .workspace => "edk2_index::workspace::index"
  | .filePatterns => "globset"
  | .records => "edk2_index::parser::inf"
  | .documents => "edk2_index::parser::dsc"
  | .modules => "edk2_index::store::inf_store"
  | .declarations => "edk2_index::store::dec_store"
  | .packages => "edk2_index::store::package_store"
  | .libraries => "edk2_index::store::library_store"

/-- An entry of the log. -/
structure LogEntry where
  level : LogLevel
  /-- The area of the program that it comes from. -/
  area : LogArea
  message : Text
  details : List (Text × Json)

namespace LogEntry

/-- An entry without further fields. -/
def plain (level : LogLevel) (area : LogArea) (message : Text) : LogEntry :=
  ⟨level, area, message, []⟩

/-- The fields of an entry, its message first. -/
def fields (e : LogEntry) : List (Text × Json) :=
  ("message", .str e.message) :: e.details

/-- Whether an entry has a field. -/
def hasField (e : LogEntry) (name : Text) : Bool :=
  e.fields.any fun field => field.1 = name

/-- The entry as an object. -/
def json (e : LogEntry) : Json :=
  .obj [("level", .str e.level.name), ("fields", .obj e.fields), ("target", .str e.area.name)]

/-- The entry in one line. -/
def text (e : LogEntry) : Text :=
  e.level.name ++ ' ' :: e.area.name ++ ": " ++ e.message ++
    e.details.flatMap fun field => ' ' :: field.1 ++ '=' :: field.2.compact

end LogEntry

end FirmwareIndex
