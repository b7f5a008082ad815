import FirmwareIndex.Section.Header
import FirmwareIndex.Section.Line
import FirmwareIndex.Path.Component

/-!
# Sections of a build file

A build file without directives is a sequence of headers, each followed by its lines. The lines of
all headers with one key are collected in file order, once together and once for each
architecture. Lines before the first header belong to no section.
-/

set_option autoImplicit false

namespace FirmwareIndex

/-- The lines of a build file by section. -/
structure Sections where
  /-- The lines of each section, for all architectures together. -/
  merged : TextMap (List Text)
  /-- The lines of each section that has any, by architecture. -/
  byArch : TextMap (TextMap (List Text))
deriving DecidableEq

namespace Sections

/-- No sections. -/
def empty : Sections :=
  ⟨∅, ∅⟩

/-- The text without the backslashes before carriage return and line feed, and without those line
breaks. -/
def joinWide : Text → Text
  | '\\' :: '\r' :: '\n' :: t => joinWide t
  | c :: t => c :: joinWide t
  | [] => []

/-- The text without the backslashes before a line feed, and without those line feeds. -/
def joinNarrow : Text → Text
  | '\\' :: '\n' :: t => joinNarrow t
  | c :: t => c :: joinNarrow t
  | [] => []

/-- The text with a line feed for every line break. -/
def unifyBreaks : Text → Text
  | '\r' :: '\n' :: t => '\n' :: unifyBreaks t
  | '\r' :: t => '\n' :: unifyBreaks t
  | c :: t => c :: unifyBreaks t
  | [] => []

/-- The lines of a text in normal form, with continued lines joined. -/
def linesOf (t : Text) : List Text :=
  ((unifyBreaks (joinNarrow (joinWide t))).splitOn '\n').map Line.normalize

/-- The table with `line` at the end of the list at `key`. -/
def append (m : TextMap (List Text)) (key line : Text) : TextMap (List Text) :=
  m.alter key fun lines? => some (lines?.getD [] ++ [line])

/-- The sections with a new header: a key that was not there has no lines yet. -/
def addHeader (s : Sections) (h : Header) : Sections :=
  { s with merged := s.merged.alter h.key fun lines? => some (lines?.getD []) }

/-- The sections with one more line under a header. -/
def addLine (s : Sections) (h : Header) (line : Text) : Sections where
  merged := append s.merged h.key line
  byArch := s.byArch.alter h.key fun arches? =>
    some (h.arches.foldl (fun m arch => append m arch line) (arches?.getD ∅))

/-- The sections read so far and the header that the next line belongs to. -/
structure Reading where
  sections : Sections
  current : Option Header

/-- Reads a line: a header, or a line of the section that the last header has opened. -/
def Reading.line (r : Reading) (line : Text) : Reading :=
  match line with
  | [] => r
  | '[' :: _ =>
    let h := Header.ofLine line
    ⟨r.sections.addHeader h, some h⟩
  | _ =>
    match r.current with
    | none => r
    | some h => { r with sections := r.sections.addLine h line }

/-- The sections of a text. -/
def ofText (t : Text) : Sections :=
  ((linesOf t).foldl Reading.line ⟨empty, none⟩).sections

/-- The lines of a section, for all architectures together. -/
def get? (s : Sections) (name : Text) : Option (List Text) :=
  s.merged[Header.canonical name]?

/-- The lines of a section, none if it is not there. -/
def get (s : Sections) (name : Text) : List Text :=
  (s.get? name).getD []

/-- The lines of a section by architecture. -/
def arches? (s : Sections) (name : Text) : Option (TextMap (List Text)) :=
  s.byArch[Header.canonical name]?

end Sections

end FirmwareIndex
