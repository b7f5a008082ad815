import FirmwareIndex.CommandLine.Usage
import FirmwareIndex.Encoding.Workspace
import FirmwareIndex.Text.Visible

/-!
# Replies

A reply is what the program comes to: an answer for the output, or the reason why there is none.
Each has an exit status, a text for the output and at most one message for the error stream.
-/

set_option autoImplicit false

namespace FirmwareIndex.CommandLine

/-- What a run answers. -/
inductive Reply where
  | help
  | version
  | misused (e : UsageError)
  /-- A part of the level of the log would have to be cut inside a character. -/
  | tornLevel
  | noLog (reason : ReadError)
  | refused (r : Refusal)
  | noPlatform (path : Text)
  | totals (s : Summary)
  | value (j : Json)

/-- The name of the program. -/
def programName : Text :=
  "edk2-index"

/-- The version of the program. -/
def programVersion : Text :=
  "0.1.0"

/-- How the program is called, in one line. -/
def usage : Text :=
  "Usage: " ++ programName ++ " [OPTIONS] <COMMAND>\n"

/-- A refusal as the program ends with it. -/
def refusalText (r : Refusal) : Text :=
  "Error: " ++ r.kind ++ " \x7b path: " ++ Text.quoted r.path.text ++ " \x7d"

namespace Reply

/-- The exit status: zero for an answer, one for a failure, two if the question was not
understood or is about a platform that is not there. The program breaks off with a status of its
own if the level of the log cannot be cut. -/
def status : Reply → Nat
  | .help | .version | .totals _ | .value _ => 0
  | .noLog _ | .refused _ => 1
  | .misused _ | .noPlatform _ => 2
  | .tornLevel => 101

/-- The text for the output, where the totals are of a scan with a timing. -/
def output (t : Timing) : Reply → Text
  | .help => usage
  | .version => programName ++ ' ' :: programVersion ++ ['\n']
  | .totals s => (s.timedJson t).pretty 0 ++ ['\n']
  | .value j => j.pretty 0 ++ ['\n']
  | .misused _ | .tornLevel | .noLog _ | .refused _ | .noPlatform _ => []

/-- What goes to the error stream with a reply, if anything does. -/
def message? : Reply → Option Text
  | .misused e => some e.message
  | .tornLevel => some "The log level has a part that ends inside a character"
  | .noLog reason => some ("Failed to initialize logging: " ++ reason.message)
  | .refused r => some (refusalText r)
  | .noPlatform path => some ("No platform indexed at " ++ path)
  | .help | .version | .totals _ | .value _ => none

end Reply

end FirmwareIndex.CommandLine
