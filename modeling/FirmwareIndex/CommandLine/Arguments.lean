import FirmwareIndex.CommandLine.Usage

/-!
# Arguments

The arguments of the command line are read from left to right: options first, each with its value
in the next word or after an equals sign, then the command, then what the command is about. A word
that begins with a hyphen is an option, unless it is the hyphen alone or stands after `--`.
-/

set_option autoImplicit false

namespace FirmwareIndex.CommandLine

/-- What the options before the command say. -/
structure Settings where
  root : Option Text
  logLevel : Option Text
  logFile : Option Text
  exclude : List Text
  followLinks : Bool
deriving DecidableEq, Repr

/-- What the options say when there are none. -/
def Settings.none : Settings :=
  ⟨.none, .none, .none, [], false⟩

/-- What the arguments ask for. -/
inductive Request where
  | help
  | version
  | run (settings : Settings) (command : Command)
deriving DecidableEq, Repr

/-- How an argument is written. -/
inductive Form where
  /-- The two hyphens after which no argument is an option. -/
  | separator
  /-- An option by its name, and the value after the equals sign. -/
  | long (name : Text) (value : Option Text)
  | short (letter : Char)
  | word
deriving DecidableEq, Repr

/-- The form of an argument. Of several short options only the first is looked at. -/
def Form.ofText : Text → Form
  | ['-', '-'] => .separator
  | '-' :: '-' :: t =>
    match Text.cut? '=' t with
    | some (name, value) => .long name (some value)
    | none => .long t none
  | '-' :: letter :: _ => .short letter
  | _ => .word

/-- A path that is given must not be empty. -/
def checkPath (t : Text) : Except UsageError Text :=
  if t = [] then .error .emptyPath else .ok t

/-- Sets what must not have been set before. -/
def setOnce (f : Flag) (old : Option Text) (value : Text) : Except UsageError (Option Text) :=
  if old.isSome then .error (.repeated f) else .ok (some value)

/-- The settings after an option with a value. -/
def Settings.give (s : Settings) (f : Flag) (value : Text) : Except UsageError Settings :=
  match f with
  | .root => do
    let path ← checkPath value
    return { s with root := ← setOnce f s.root path }
  | .logLevel => do return { s with logLevel := ← setOnce f s.logLevel value }
  | .logFile => do
    let path ← checkPath value
    return { s with logFile := ← setOnce f s.logFile path }
  | .exclude => .ok { s with exclude := s.exclude ++ [value] }
  | .followSymlinks | .help | .version => .error (.unwantedValue f value)

/-- What follows the name of a command. -/
structure Operands where
  words : List Text
  asksHelp : Bool
deriving DecidableEq, Repr

/-- What follows the name of a command that is about so many things. Nothing is read after a
request for the usage. -/
def operands : Nat → List Text → Except UsageError Operands
  | 0, [] => .ok ⟨[], false⟩
  | _ + 1, [] => .error .missingOperand
  | missing, arg :: rest =>
    match Form.ofText arg with
    | .separator =>
      if rest.length < missing then .error .missingOperand
      else
        match rest.drop missing with
        | [] => .ok ⟨rest, false⟩
        | extra :: _ => .error (.unexpectedWord extra)
    | .long name value =>
      if Flag.ofName? name = some .help then
        match value with
        | some value => .error (.unwantedValue .help value)
        | none => .ok ⟨[], true⟩
      else .error (.unknownName name)
    | .short letter =>
      if Flag.ofLetter? letter = some .help then .ok ⟨[], true⟩
      else .error (.unknownLetter letter)
    | .word =>
      match missing with
      | 0 => .error (.unexpectedWord arg)
      | missing + 1 =>
        (operands missing rest).map fun more => { more with words := arg :: more.words }

/-- What a command is made of: its name alone, or a path or a name as well. -/
inductive Shape where
  | plain (c : Command)
  | path (c : Text → Command)
  | name (c : Text → Command)

/-- The commands by their names. -/
def shapes : List (Text × Shape) :=
  [("scan", .plain .scan), ("includes", .path .includes), ("modules", .path .modules),
    ("library", .name .library), ("diagnostics", .path .diagnostics),
    ("platform", .path .platform), ("packages", .plain .packages)]

/-- The name of the command that asks for the usage. -/
def helpName : Text :=
  "help"

/-- How many things a command is about. -/
def Shape.size : Shape → Nat
  | .plain _ => 0
  | .path _ | .name _ => 1

/-- Something that a command of a shape is about must not be an empty path. -/
def Shape.check (shape : Shape) (operand : Text) : Except UsageError Text :=
  match shape with
  | .path _ => checkPath operand
  | .plain _ | .name _ => .ok operand

/-- The command of a shape that is about a text, which counts only where something is named. -/
def Shape.command (shape : Shape) (operand : Text) : Command :=
  match shape with
  | .plain c => c
  | .path c | .name c => c operand

/-- The request of a command and what follows its name. What stands before a request for the usage
is checked too. -/
def Shape.request (s : Settings) (shape : Shape) (rest : List Text) :
    Except UsageError Request := do
  let operands ← operands shape.size rest
  let words ← operands.words.mapM shape.check
  if operands.asksHelp then return .help
  else return .run s (shape.command (words.headD []))

/-- Whether a word is the name of a command. -/
def isCommandName (word : Text) : Bool :=
  word = helpName || (shapes.lookup word).isSome

/-- The request for the usage, of all or of one command. -/
def helpOn : List Text → Except UsageError Request
  | [] => .ok .help
  | name :: rest =>
    if isCommandName name then
      match rest with
      | [] => .ok .help
      | extra :: _ => .error (.unknownCommand extra)
    else .error (.unknownCommand name)

/-- The request of a command's name and what follows it. -/
def Request.ofCommand (s : Settings) (name : Text) (rest : List Text) :
    Except UsageError Request :=
  match shapes.lookup name with
  | some shape => shape.request s rest
  | none => if name = helpName then helpOn rest else .error (.unknownCommand name)

/-- The request of the arguments that follow some options. -/
def Request.ofRest (s : Settings) : List Text → Except UsageError Request
  | [] => .error .missingCommand
  | arg :: rest =>
    match Form.ofText arg with
    | .separator =>
      match rest with
      | [] => .error .missingCommand
      | extra :: _ =>
        .error (if isCommandName extra then .unexpectedWord extra else .unknownCommand extra)
    | .short letter =>
      match Flag.ofLetter? letter with
      | some .help => .ok .help
      | some .version => .ok .version
      | _ => .error (.unknownLetter letter)
    | .word => Request.ofCommand s arg rest
    | .long name value =>
      match Flag.ofName? name, value with
      | none, _ => .error (.unknownName name)
      | some f, some value => (s.give f value).bind fun s => ofRest s rest
      | some .help, none => .ok .help
      | some .version, none => .ok .version
      | some .followSymlinks, none =>
        if s.followLinks then .error (.repeated .followSymlinks)
        else ofRest { s with followLinks := true } rest
      | some f, none =>
        match rest with
        | [] => .error (.missingValue f)
        | value :: rest =>
          if Form.ofText value = .word then (s.give f value).bind fun s => ofRest s rest
          else .error (.missingValue f)

/-- The request of the arguments of the program. -/
def Request.ofArguments (args : List Text) : Except UsageError Request :=
  Request.ofRest .none args

end FirmwareIndex.CommandLine
