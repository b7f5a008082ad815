import FirmwareIndex.Json
import FirmwareIndex.Source.Basic

/-!
# Problems of a platform description

Reading a platform description never stops at a problem; it notes the problem and goes on. A
problem has a place, a cause, the text it is about and the physical line it stands on. What is
shown of it, to a person or to an editor, is a report: the wording and the weight of the cause, and
the range of characters to be marked.
-/

set_option autoImplicit false

namespace FirmwareIndex

/-- A place in a file. Lines and columns are not bounded here. Numbers of 32 bits are the same as
long as the file has at most `2 ^ 32` lines, and none of more than `2 ^ 32` characters. -/
structure Location where
  file : Path
  line : Nat
  /-- The column, counted from zero, where it is known. -/
  column : Option Nat
  /-- The conditions that the line stands under, if any. -/
  context : Option Text
deriving DecidableEq, Repr

/-- The start of a file. -/
def Location.startOf (file : Path) : Location :=
  ⟨file, 0, none, none⟩

/-- How bad a problem is. -/
inductive Severity where
  | fatal
  | warning
deriving DecidableEq, Repr

/-- What a problem is about. -/
inductive Cause where
  | emptyHeader
  | mixedSections (first other : Text)
  /-- A header that names a section that does not exist. -/
  | unknownSection (name : Text)
  | badDefinition
  | branchOutside
  /-- The end of a condition that was not opened. -/
  | endOutside
  | noSection
  /-- A library line without a class or a path. -/
  | badLibrary
  | badPcd
  /-- A part of a component block that does not exist. -/
  | unknownSubsection (name : Text)
  | noComponentPath
  /-- A component whose path is not that of a module. -/
  | notModule
  /-- A line in a component block before its first part. -/
  | outsideSubsection
  | openBlock (path : Text)
  | includeWithoutTarget
  /-- An include of a file that is being read. -/
  | recursiveInclude (file : Path)
  /-- An include of a file that cannot be read. -/
  | unreadableInclude (file : Path) (reason : ReadError)
  | unreadable (reason : ReadError)
deriving DecidableEq, Repr

namespace Cause

/-- What is said of a problem. -/
def message : Cause → Text
  | .emptyHeader => "Empty section header"
  | .mixedSections first other =>
    "Section qualifiers name different sections: '" ++ first ++ "' and '" ++ other ++ ['\'']
  | .unknownSection name => "Unknown section '" ++ name ++ ['\'']
  | .badDefinition => "Expected NAME = VALUE"
  | .branchOutside => "Conditional branch without a matching !if"
  | .endOutside => "!endif without a matching !if"
  | .noSection => "Line doesn't correspond to a section"
  | .badLibrary => "Expected ClassName|Path/To/Library.inf"
  | .badPcd => "Expected TokenSpaceGuid.PcdName|Value"
  | .unknownSubsection name => "Unknown component subsection '<" ++ name ++ ">'"
  | .noComponentPath => "Expected a component INF path"
  | .notModule => "Component is not an INF file"
  | .outsideSubsection => "Component block entry outside a <Section>"
  | .openBlock path => "Component block for '" ++ path ++ "' is not closed"
  | .includeWithoutTarget => "!include without a path"
  | .recursiveInclude file => "Recursive include of " ++ file.text
  | .unreadableInclude file reason =>
    "Unable to open included file " ++ file.text ++ ": " ++ reason.message
  | .unreadable reason => "Unable to open file: " ++ reason.message

/-- How bad a problem of this cause is. -/
def severity : Cause → Severity
  | .emptyHeader | .unknownSection _ | .noSection | .includeWithoutTarget | .recursiveInclude _
  | .unreadableInclude _ _ | .unreadable _ => .fatal
  | _ => .warning

end Cause

/-- A problem in a platform description, and the line it is about. -/
structure Problem where
  location : Location
  cause : Cause
  offending : Text
  lineText : Text
deriving DecidableEq, Repr

/-- What an editor shows: a range on one line and a message. The numbers are not bounded here. They
fit in 32 bits as long as the file has at most `2 ^ 32` lines, and none of `2 ^ 32` characters. -/
structure Diagnostic where
  line : Nat
  start : Nat
  stop : Nat
  severity : Severity
  message : Text
deriving DecidableEq, Repr

/-- A problem with its message, as it is shown. -/
structure Report where
  location : Location
  severity : Severity
  message : Text
  offending : Text
  lineText : Text
deriving DecidableEq, Repr

namespace Report

/-- The first character to be marked: the known column, or else the one at which the offending
text first occurs in its line, or else the first of the line. It is counted without a bound, and
fits in 32 bits as long as the line has at most `2 ^ 32` characters. -/
def start (r : Report) : Nat :=
  match r.location.column with
  | some column => column
  | none => if r.offending = [] then 0 else (Text.indexOf? r.offending r.lineText).getD 0

/-- The number of characters to be marked: those of the offending text, or, if there is none,
those of the line up to its last one that is not blank. It is counted without a bound, and fits in
32 bits as long as both texts have fewer than `2 ^ 32` characters. -/
def width (r : Report) : Nat :=
  if r.offending = [] then (Text.trimEnd r.lineText).length else r.offending.length

/-- The report as an editor shows it. -/
def diagnostic (r : Report) : Diagnostic :=
  ⟨r.location.line, r.start, r.start + r.width, r.severity, r.message⟩

/-- Whether the report is of a fatal problem. -/
def isFatal (r : Report) : Bool :=
  r.severity = .fatal

/-- The report in one line: the file, the line counted from one, and the message. -/
def text (r : Report) : Text :=
  r.location.file.text ++ ':' :: Json.digits (r.location.line + 1) ++ ": " ++ r.message

end Report

namespace Problem

/-- The report of a problem. -/
def report (p : Problem) : Report :=
  ⟨p.location, p.cause.severity, p.cause.message, p.offending, p.lineText⟩

/-- The problem as an editor shows it. -/
def diagnostic (p : Problem) : Diagnostic :=
  p.report.diagnostic

end Problem

end FirmwareIndex
