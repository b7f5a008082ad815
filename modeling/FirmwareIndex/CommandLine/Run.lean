import FirmwareIndex.CommandLine.Arguments
import FirmwareIndex.CommandLine.Reply
import FirmwareIndex.CommandLine.Trail
import FirmwareIndex.Log.Settings
import FirmwareIndex.Path.Absolute

/-!
# Runs of the program

A run takes the arguments, the environment and the tree of files to a reply and to the tree with the
log in it. The log is opened before anything is looked at, so that a run whose workspace cannot be
scanned still leaves its first entry. Arguments that do not follow the usage leave nothing.
-/

set_option autoImplicit false

namespace FirmwareIndex.CommandLine

/-- What a run is started with. -/
structure Invocation where
  args : List Text
  env : Environment
  directory : Path
  number : Text

/-- What a run answers and logs. -/
structure Run where
  reply : Reply
  /-- How the log is written, if it was opened. -/
  log : Option LogSettings
  entries : List LogEntry

/-- The answer to a command from a workspace that has been scanned. Relative paths start at a
directory. -/
def answer (directory : Path) (w : Workspace) (c : Command) : Reply :=
  let place := fun t => (Path.mk t).absolute directory
  let catalog := w.catalog
  match c with
  | .scan => .totals w.summary
  | .includes file => .value (.paths (catalog.modules.includes catalog.declarations (place file)))
  | .modules file => .value (.arr ((catalog.modules.ownersOf (place file)).map ModuleRecord.json))
  | .library className =>
    .value (.arr ((catalog.libraries.implementations className).map Library.json))
  | .diagnostics file =>
    .value (.arr ((catalog.platforms.diagnosticsIn (place file)).map Diagnostic.json))
  | .platform file =>
    match catalog.platforms.get? (place file) with
    | some d => .value (Reduced.ofDocument d).json
    | none => .noPlatform file
  | .packages => .value (.arr (catalog.packages.all.map Package.json))

/-- A path as the program opens it. -/
def Invocation.place (i : Invocation) (path : Path) : Path :=
  if path.text = [] then path else i.directory.push path.text

/-- How the program writes its log under the settings of its command line. -/
def Invocation.log (i : Invocation) (s : Settings) : LogSettings :=
  let log := LogSettings.ofEnvironment i.env i.number
  let log := log.override s.logLevel (s.logFile.map Path.mk)
  { log with file := log.file.map i.place }

/-- The tree in which the file of the log has been opened and lines are written to it. -/
def openLog (t : Tree) (log : LogSettings) (lines : Text) : Except ReadError Tree :=
  match log.file with
  | none => .ok t
  | some file => t.append file (Utf8.encode lines)

/-- The workspace of a run under the settings of its command line. -/
def Invocation.workspace (i : Invocation) (s : Settings) : Workspace :=
  let root := (s.root.map fun t => (Path.mk t).absolute i.directory).getD i.directory
  .start root ((Options.ofEnvironment i.env).override s.exclude s.followLinks)

/-- What a command adds to the log. -/
def trail (directory : Path) (w : Workspace) : Command → List LogEntry
  | .includes file => Trail.includes w.catalog ((Path.mk file).absolute directory)
  | _ => []

/-- The reply to a command and the entries of the log. -/
def execute (i : Invocation) (t : Tree) (s : Settings) (c : Command) : Reply × List LogEntry :=
  let w := i.workspace s
  match Discovery.run t w.options w.root with
  | .error refusal => (.refused refusal, [Trail.start w.root])
  | .ok files =>
    let (w, events) := w.index t files
    (answer i.directory w c,
      Trail.start w.root :: Trail.scan i.number files w events ++ trail i.directory w c)

/-- Runs the program on a tree of files. -/
def run (i : Invocation) (t : Tree) : Run :=
  match Request.ofArguments i.args with
  | .error e => ⟨.misused e, none, []⟩
  | .ok .help => ⟨.help, none, []⟩
  | .ok .version => ⟨.version, none, []⟩
  | .ok (.run s c) =>
    let log := i.log s
    match log.filter with
    | none => ⟨.tornLevel, none, []⟩
    | some filter =>
      match openLog t log [] with
      | .error reason => ⟨.noLog reason, none, []⟩
      | .ok t =>
        let (reply, entries) := execute i t s c
        ⟨reply, some log, entries.filter filter.passes⟩

namespace Run

/-- The lines of the log. -/
def lines (r : Run) : Text :=
  (r.log.map fun log => r.entries.flatMap log.line).getD []

/-- What is written to the error stream: the log, unless it has a file, and then the message. -/
def errors (r : Run) : Text :=
  (if (r.log.bind LogSettings.file).isSome then [] else r.lines) ++
    (r.reply.message?.map (· ++ ['\n'])).getD []

/-- The tree after the log has been written to its file. -/
def leave (r : Run) (t : Tree) : Tree :=
  match r.log with
  | none => t
  | some log => (openLog t log r.lines).toOption.getD t

end Run

end FirmwareIndex.CommandLine
