import FirmwareIndex.Text.Basic

/-!
# Logical lines

A physical line that ends in a backslash is continued by the next one. A logical line is a run of
physical lines joined in this way, without its comment, with each run of spaces and tabs written
as one space, and without blanks at its ends. It remembers where its first physical line stands
and what that line looks like, so that a report can point at it.
-/

set_option autoImplicit false

namespace FirmwareIndex

/-- A logical line and the place of its first physical line. -/
structure Line where
  /-- The number of the first physical line, counted from zero. It is not bounded here. A number of
  32 bits is the same as long as the text has at most `2 ^ 32` physical lines. -/
  number : Nat
  text : Text
  /-- The first physical line as it stands in the file. -/
  raw : Text
deriving DecidableEq, Repr

namespace Line

/-- A run of spaces and tabs as it is written: a single one stays, two or more become a space. -/
def writeRun (run : Text) : Text :=
  match run with
  | [] => []
  | [c] => [c]
  | _ => [' ']

/-- The text with each run of two or more spaces and tabs written as one space, where `run` holds
the spaces and tabs that stand right before it. -/
def collapseFrom (run : Text) : Text → Text
  | [] => writeRun run
  | c :: t =>
    if Text.isGap c then collapseFrom (c :: run) t
    else writeRun run ++ c :: collapseFrom [] t

/-- The text with each run of two or more spaces and tabs written as one space. -/
def collapse (t : Text) : Text :=
  collapseFrom [] t

/-- The normal form of a line: no comment, no runs of spaces, no blanks at the ends. -/
def normalize (t : Text) : Text :=
  Text.trim (collapse (Text.before '#' t))

/-- The text before its last character, if that is `c`. -/
def stripLast? (c : Char) (t : Text) : Option Text :=
  if t.getLast? = some c then some t.dropLast else none

/-- The physical lines of a text: its pieces between line feeds, each without a carriage return at
its end. -/
def physical (t : Text) : List Text :=
  (t.splitOn '\n').map fun piece => (stripLast? '\r' piece).getD piece

/-- A logical line that may still be continued. Its number has no bound, like that of a `Line`. -/
structure Open where
  number : Nat
  joined : Text
  raw : Text

/-- The logical line, unless its normal form is empty. -/
def Open.close (o : Open) : List Line :=
  if normalize o.joined = [] then [] else [⟨o.number, normalize o.joined, o.raw⟩]

/-- The logical lines of the physical lines from number `n` on, when the line before them may have
left one open. -/
def gather (n : Nat) : Option Open → List Text → List Line
  | none, [] => []
  | some o, [] => o.close
  | pending, line :: rest =>
    let o := pending.getD ⟨n, [], line⟩
    match stripLast? '\\' line with
    | some start => gather (n + 1) (some { o with joined := o.joined ++ start }) rest
    | none => { o with joined := o.joined ++ line : Open }.close ++ gather (n + 1) none rest

/-- The logical lines of a text that are not empty, in order. -/
def ofText (t : Text) : List Line :=
  gather 0 none (physical t)

end Line

end FirmwareIndex
