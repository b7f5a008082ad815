import FirmwareIndex.Text.Basic

/-!
# Usage

The words of the command line: the commands and the options that may stand before them, and what
is wrong with a command line that does not follow the usage.
-/

set_option autoImplicit false

namespace FirmwareIndex.CommandLine

/-- What the program is asked to print once the workspace is scanned. -/
inductive Command where
  | scan
  | includes (file : Text)
  | modules (file : Text)
  | library (className : Text)
  /-- The diagnostics of a platform description or an included file. -/
  | diagnostics (file : Text)
  | platform (file : Text)
  | packages
deriving DecidableEq, Repr

/-- An option that stands before the command. -/
inductive Flag where
  | root
  | logLevel
  | logFile
  /-- The name of a directory that is left out; it can be given many times. -/
  | exclude
  | followSymlinks
  | help
  | version
deriving DecidableEq, Repr

namespace Flag

/-- All options. -/
def all : List Flag :=
  [.root, .logLevel, .logFile, .exclude, .followSymlinks, .help, .version]

/-- The name of an option, without its hyphens. -/
def name : Flag → Text
  | .root => "root"
  | .logLevel => "log-level"
  | .logFile => "log-file"
  | .exclude => "exclude"
  | .followSymlinks => "follow-symlinks"
  | .help => "help"
  | .version => "version"

/-- What the value of an option is called, if it has one. -/
def valueName? : Flag → Option Text
  | .root => some "DIR"
  | .logLevel => some "LEVEL"
  | .logFile => some "FILE"
  | .exclude => some "NAME"
  | .followSymlinks | .help | .version => none

/-- An option as it stands in messages, with its value. -/
def label (f : Flag) : Text :=
  "--" ++ f.name ++ (f.valueName?.map fun name => " <" ++ name ++ ['>']).getD []

/-- The option with a name. -/
def ofName? (name : Text) : Option Flag :=
  all.find? fun f => f.name = name

/-- The option that a single letter stands for. -/
def ofLetter? (c : Char) : Option Flag :=
  if c = 'h' then some .help else if c = 'V' then some .version else none

end Flag

/-- What is wrong with a command line. -/
inductive UsageError where
  | unknownName (name : Text)
  | unknownLetter (letter : Char)
  | missingValue (f : Flag)
  | unwantedValue (f : Flag) (value : Text)
  | repeated (f : Flag)
  | emptyPath
  | missingCommand
  | unknownCommand (word : Text)
  | missingOperand
  | unexpectedWord (word : Text)
deriving DecidableEq, Repr

namespace UsageError

/-- What is said of a call that is not understood. -/
def message : UsageError → Text
  | .unknownName name => "error: unexpected argument '--" ++ name ++ "' found"
  | .unknownLetter letter => "error: unexpected argument '-" ++ letter :: "' found"
  | .missingValue f => "error: a value is required for '" ++ f.label ++ "' but none was supplied"
  | .unwantedValue f value =>
    "error: unexpected value '" ++ value ++ "' for '" ++ f.label ++
      "' found; no more were expected"
  | .repeated f => "error: the argument '" ++ f.label ++ "' cannot be used multiple times"
  | .emptyPath => "error: a path must not be empty"
  | .missingCommand => "error: a subcommand is required but one was not provided"
  | .unknownCommand word => "error: unrecognized subcommand '" ++ word ++ ['\'']
  | .missingOperand => "error: a required argument was not provided"
  | .unexpectedWord word => "error: unexpected argument '" ++ word ++ "' found"

end UsageError

end FirmwareIndex.CommandLine
