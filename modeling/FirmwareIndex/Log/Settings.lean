import FirmwareIndex.Log.Filter
import FirmwareIndex.Path.Basic
import FirmwareIndex.Workspace.Options

/-!
# Settings of the log

The log has a level, a file or else the error stream, and a format. The environment gives them and
the command line can replace level and file. A file can be made unique to a process by putting the
number of the process before its extension. There is no log at all if a part of the level would have
to be cut inside a character.
-/

set_option autoImplicit false

namespace FirmwareIndex

/-- How the log is written. -/
structure LogSettings where
  level : Text
  /-- The file, if it is not the error stream. -/
  file : Option Path
  json : Bool
deriving DecidableEq, Repr

namespace LogSettings

/-- The level where none is given. -/
def defaultLevel : Text :=
  "info"

/-- The name of a file with the number of a process before its extension. -/
def uniqueName (process name : Text) : Text :=
  match Path.splitName name with
  | (stem, some (c :: ext)) => stem ++ '.' :: process ++ '.' :: c :: ext
  | (stem, _) => stem ++ '.' :: process

/-- The path with the number of a process in its file name, if it has one. -/
def unique (process : Text) (p : Path) : Path :=
  match p.fileName? with
  | none => p
  | some name => p.pop.push (uniqueName process name)

/-- The settings that the environment gives to a process. -/
def ofEnvironment (env : Environment) (process : Text) : LogSettings :=
  let isUnique := env["EDK2_INDEX_LOG_UNIQUE".toList]? = some switchedOn
  { level := env["RUST_LOG".toList]?.getD defaultLevel
    file := env["EDK2_INDEX_LOG_FILE".toList]?.map fun t =>
      if isUnique then unique process ⟨t⟩ else ⟨t⟩
    json := env["EDK2_INDEX_LOG_JSON".toList]? = some switchedOn }

/-- The settings with level and file replaced where others are given. -/
def override (s : LogSettings) (level : Option Text) (file : Option Path) : LogSettings :=
  { s with level := level.getD s.level, file := file.or s.file }

/-- The filter that the level spells. A level that does not have the form of a filter is taken for
the default. There is no filter if a part would have to be cut inside a character. -/
def filter (s : LogSettings) : Option LogFilter :=
  match LogFilter.ofText s.level with
  | .ok filter => some filter
  | .error .malformed => some (.upTo .info)
  | .error .torn => none

/-- An entry as it is written to the log. -/
def line (s : LogSettings) (e : LogEntry) : Text :=
  (if s.json then e.json.compact else e.text) ++ ['\n']

end LogSettings

end FirmwareIndex
