import FirmwareIndex.CommandLine.Run
import Std.Time.Format

/-!
# The program

The program reads the paths of the files of a workspace from its standard input, one on a line, and
then the files themselves; a file that cannot be read is left out. All that follows is decided by
`CommandLine.run`. The answer goes to the standard output, messages go to the standard error, and
the log goes to its file or to the standard error.
-/

set_option autoImplicit false

namespace FirmwareIndex.CommandLine

/-- The variables of the environment that the program looks at. -/
def variableNames : List String :=
  ["RUST_LOG", "EDK2_INDEX_EXCLUDE", "EDK2_INDEX_FOLLOW_SYMLINKS", "EDK2_INDEX_LAZY_MODULES",
    "EDK2_INDEX_LOG_FILE", "EDK2_INDEX_LOG_JSON", "EDK2_INDEX_LOG_UNIQUE"]

/-- The variables that the program looks at. -/
def readEnvironment : IO Environment :=
  variableNames.foldlM (fun env name => do
    match ← IO.getEnv name with
    | some value => return env.insert name.toList value.toList
    | none => return env) ∅

/-- The lines of the standard input that are not empty. -/
partial def readLines (input : IO.FS.Stream) : IO (List Text) := do
  let line ← input.getLine
  if line.isEmpty then return []
  let rest ← readLines input
  match line.toList.filter (· ≠ '\n') with
  | [] => return rest
  | text => return text :: rest

/-- The tree with a file of the disk. -/
def readFile (directory : Path) (t : Tree) (name : Text) : IO Tree := do
  let path := (Path.mk name).absolute directory
  try
    let bytes ← IO.FS.readBinFile (String.ofList path.text)
    return t.writeFile path bytes.toList
  catch _ => return t

/-- Adds a text to a file of the disk. -/
def appendFile (path : Path) (text : Text) : IO Unit :=
  IO.FS.withFile (String.ofList path.text) .append fun handle =>
    handle.putStr (String.ofList text)

/-- The date and the time in UTC. -/
def clock : IO Text := do
  let now ← Std.Time.Timestamp.now
  let date := (Std.Time.PlainDate.ofEpochDay now.toDaysSinceUnixEpoch).toSQLDateString
  let second := (now.toSecondsSinceUnixEpoch.val % 86400).toNat
  let twoDigits := fun (n : Nat) => Nat.toDigits 10 (n / 10) ++ Nat.toDigits 10 (n % 10)
  return date.toList ++ 'T' :: twoDigits (second / 3600) ++ ':' :: twoDigits (second / 60 % 60) ++
    ':' :: twoDigits (second % 60) ++ ['Z']

/-- Writes the log, the errors and the answer of a run. -/
def write (t : Timing) (r : Run) : IO Unit := do
  match r.log.bind LogSettings.file with
  | some file => appendFile file r.lines
  | none => pure ()
  (← IO.getStderr).putStr (String.ofList r.errors)
  (← IO.getStdout).putStr (String.ofList (r.reply.output t))

/-- The number of the process, or a number that differs from run to run where it is not known. -/
def processNumber : IO Text := do
  let number ← try
      let status ← IO.FS.readFile "/proc/self/stat"
      pure (status.toList.takeWhile Char.isDigit)
    catch _ => pure []
  match number with
  | [] => return Nat.toDigits 10 (← IO.monoNanosNow)
  | digits => return digits

/-- Runs the program and gives its exit status. -/
def program (args : List Text) : IO UInt32 := do
  let started ← IO.monoMsNow
  let directory : Path := ⟨((← IO.getEnv "PWD").getD "/").toList⟩
  let env ← readEnvironment
  let number ← processNumber
  let names ← readLines (← IO.getStdin)
  let tree ← names.foldlM (readFile directory) Tree.empty
  let r := run ⟨args, env, directory, number⟩ tree
  write ⟨(← IO.monoMsNow) - started, ← clock⟩ r
  return r.reply.status.toUInt32

end FirmwareIndex.CommandLine

/-- The program. -/
def main (args : List String) : IO UInt32 :=
  FirmwareIndex.CommandLine.program (args.map String.toList)
