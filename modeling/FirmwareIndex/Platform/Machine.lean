import FirmwareIndex.Path.Reference
import FirmwareIndex.Platform.Reading

/-!
# Reading through includes

A platform description is read over a stack of frames, one for each file that is open, so that an
included file is read where its include stands while every line keeps its own place. A file that is
open is not opened again, and only finitely many places can be read, so the stack stays small and
every frame comes to its end.
-/

set_option autoImplicit false

namespace FirmwareIndex

/-- An open file and its lines that have not been read. -/
structure Frame where
  file : Path
  lines : List Line
deriving DecidableEq, Repr

/-- The open files, the innermost first, and what is carried from line to line. -/
structure Machine where
  frames : List Frame
  reading : Reading
deriving DecidableEq

/-- What the files of a platform are read with: their texts and the root of the workspace. -/
structure Setting where
  sources : Sources
  /-- The root of the workspace, if there is one. -/
  root : Option Path

namespace Machine

/-- The text without quotes at its ends. -/
def unquoted (t : Text) : Text :=
  ((t.dropWhile (· = '"')).reverse.dropWhile (· = '"')).reverse

/-- The paths that the target of an include may mean, in the order in which they are tried: beside
the including file, then from the root of the workspace. -/
def candidates (root : Option Path) (macros : Macros) (including : Path) (target : Text) :
    Path × List Path :=
  let target := macros.expand (unquoted target)
  let beside := including.directory.join target
  if target.head? = some '/' then (⟨target⟩, [])
  else (beside, (root.toList.map fun r => r.join target).filter fun p => ¬ p.Same beside)

/-- The file that the target of an include means: the first candidate that is there, or else the
first one. -/
def resolve (s : Setting) (macros : Macros) (including : Path) (target : Text) : Path :=
  let (first, others) := candidates s.root macros including target
  ((first :: others).find? s.sources.present).getD first

/-- Opens the file that an include means, unless it is open already or cannot be read. -/
def enter (s : Setting) (m : Machine) (here : Place) (target : Text) : Machine :=
  if target = [] then
    { m with reading := m.reading.note here .includeWithoutTarget here.line.text }
  else
    let file := resolve s m.reading.macros here.file target
    if m.frames.any fun f => f.file.Same file then
      { m with reading := m.reading.note here (.recursiveInclude file) target }
    else
      match s.sources.read file with
      | .error reason =>
        { m with reading := m.reading.note here (.unreadableInclude file reason) target }
      | .ok text =>
        ⟨⟨file, Line.ofText text⟩ :: m.frames,
          { m.reading with document := { m.reading.document with
              included := m.reading.document.included ++ [file] } }⟩

/-- Reads a line of the innermost file. -/
def line (s : Setting) (m : Machine) (here : Place) : Machine :=
  match LineKind.ofText here.line.text with
  | .header => { m with reading := m.reading.header here }
  | .definition => { m with reading := m.reading.define here }
  | .openCondition => { m with reading := m.reading.openCondition here }
  | .branch => { m with reading := m.reading.branch here }
  | .closeCondition => { m with reading := m.reading.closeCondition here }
  | .inclusion target => m.enter s here target
  | .ignored => m
  | .content => { m with reading := m.reading.content here }

/-- One step: reads the next line of the innermost file, or closes that file at its end. Nothing
happens when no file is open. -/
def step (s : Setting) (m : Machine) : Machine :=
  match m.frames with
  | [] => m
  | ⟨_, []⟩ :: rest => { m with frames := rest }
  | ⟨file, line :: lines⟩ :: rest =>
    Machine.line s { m with frames := ⟨file, lines⟩ :: rest } ⟨file, line⟩

/-- Reads the innermost file to its end and closes it, when the files that it includes may be
nested `depth` deep; a file that would be nested deeper is closed unread. -/
def close (s : Setting) : Nat → Machine → Machine
  | 0, m => { m with frames := m.frames.tail }
  | depth + 1, m =>
    match m.frames with
    | [] => m
    | frame :: _ =>
      step s (frame.lines.foldl (fun m _ =>
        let next := step s m
        if m.frames.length < next.frames.length then close s depth next else next) m)

/-- A machine that has opened a platform file. -/
def start (s : Setting) (file : Path) (text : Text) : Machine :=
  ⟨[⟨file, Line.ofText text⟩], .start file s.root⟩

end Machine

namespace Document

/-- The document of a platform file with a given text. The files open at one time are different
places, so they are nested no deeper than there are readable places. -/
def ofText (s : Setting) (file : Path) (text : Text) : Document :=
  ((Machine.start s file text).close s (s.sources.capacity + 1)).reading.finish.document

/-- The document of a platform file. A file that cannot be read is a problem at its start. -/
def ofFile (s : Setting) (file : Path) : Document :=
  match s.sources.read file with
  | .ok text => ofText s file text
  | .error reason =>
    { empty file with problems := [⟨.startOf file, .unreadable reason, file.text, []⟩] }

end Document

end FirmwareIndex
