import FirmwareIndex.Log.Entry
import FirmwareIndex.Log.Pattern
import FirmwareIndex.Text.Utf8

/-!
# Directives of a log filter

A directive says up to which level entries are written. It is a level, or the beginning of the names
of areas, or both with an equals sign between them; the level that is not given is the last one. A
part in brackets limits it to the spans of a name, and braces in that part limit it to what has a
field, possibly with a value:

    area[span{field=value}]=level

Spans never occur in this program, so a directive that is limited to them, or to values, concerns no
entry.

The characters of a directive are looked at without the blanks around it, and its parts are found by
their places in bytes. They are cut out of the text with the blanks, at the same places: blanks in
front move every part, and blanks at the end belong to the last one.
-/

set_option autoImplicit false

namespace FirmwareIndex

/-- Up to which level the entries of some areas are written. -/
structure Directive where
  area : Text
  /-- A field that the entries have, if one is asked for. -/
  field : Option Text
  /-- The last level that is written, if any is. -/
  last : Option LogLevel
deriving DecidableEq, Repr

/-- What keeps a filter of the log from being read. -/
inductive FilterFault where
  | malformed
  | torn
deriving DecidableEq, Repr

namespace Directive

/-- The last level that a word stands for: the name of a level, or `off` for none. -/
def ofName? (word : Text) : Option (Option LogLevel) :=
  if Text.sameName word "off" then some none
  else (LogLevel.all.find? fun l => Text.sameName word l.name).map some

/-- The last level that a number stands for, where zero is none. -/
def ofNumber? (n : Nat) : Option (Option LogLevel) :=
  if n = 0 then some none else (LogLevel.all.find? fun l => l.rank = n).map some

/-- The number that decimal digits stand for, which may follow a plus sign. -/
def number? (word : Text) : Option Nat :=
  let digits := (Text.after? "+" word).getD word
  if digits ≠ [] ∧ digits.all Char.isDigit then
    some (digits.foldl (fun n c => 10 * n + (c.toNat - '0'.toNat)) 0)
  else none

/-- The last level that a word stands for. -/
def level? (word : Text) : Option (Option LogLevel) :=
  ((number? word).bind ofNumber?).or (ofName? word)

/-- The parts of a directive on its way. -/
structure Draft where
  area : Text
  /-- Whether it is limited to spans or to values. -/
  isLimited : Bool
  /-- The field that is asked for, if one is. -/
  field : Option Text
  /-- The last level that is written, if any is. -/
  last : Option LogLevel

/-- What is being read, with the place where it began. -/
inductive Stage where
  | start
  /-- A level or the beginning of the names of areas. -/
  | word
  | span (since : Nat)
  | field (since : Nat)
  | bracket
  | equals
  | level (since : Nat)

/-- The part of a text between two places. -/
def part (t : Text) (first last : Nat) : Except FilterFault Text :=
  match Utf8.slice? first last t with
  | some part => .ok part
  | none => .error .torn

/-- Whether a directive can begin with a character. -/
def begins (c : Char) : Bool :=
  Text.isLetterOrNumber c || c = '-' || c = ':' || c = '_'

namespace Draft

/-- The parts of a directive that says nothing. -/
def empty : Draft :=
  ⟨[], false, none, some .trace⟩

/-- The parts with spans of a name. An empty name before a brace is none. -/
def withSpan (d : Draft) (name : Text) (beforeBrace : Bool) : Draft :=
  { d with isLimited := !(beforeBrace && name.isEmpty) }

/-- The parts with a field, which has a value after an equals sign. A second equals sign ends the
value. -/
def withField (d : Draft) (text : Text) : Except FilterFault Draft :=
  if text = [] then .error .malformed
  else
    match Text.cut? '=' text with
    | none => .ok { d with field := some text }
    | some (name, rest) =>
      if Pattern.isValue (Text.before '=' rest) then
        .ok { d with field := some name, isLimited := true }
      else .error .malformed

/-- The parts with a level. The empty text is the last level. -/
def withLevel (d : Draft) (text : Text) : Except FilterFault Draft :=
  if text = [] then .ok { d with last := some .trace }
  else
    match level? text with
    | some last => .ok { d with last := last }
    | none => .error .malformed

/-- The parts with a text that is either a level or the beginning of the names of areas. -/
def withWord (d : Draft) (text : Text) : Draft :=
  match level? text with
  | some last => { d with last := last }
  | none => { d with area := text }

/-- The directive of the parts, if it concerns any entries. -/
def directive? (d : Draft) : Option Directive :=
  if d.isLimited then none else some ⟨d.area, d.field, d.last⟩

end Draft

/-- Looks at the character at a place of a text. -/
def step (t : Text) (d : Draft) (place : Nat) (c : Char) :
    Stage → Except FilterFault (Draft × Stage)
  | .start =>
    if c = '[' then .ok (d, .span (place + 1))
    else if begins c then .ok (d, .word)
    else .error .malformed
  | .word =>
    if c = '=' || c = '[' then
      (part t 0 place).map fun area =>
        ({ d with area := area }, if c = '=' then .level (place + 1) else .span (place + 1))
    else .ok (d, .word)
  | .span since =>
    if c = ']' then (part t since place).map fun name => (d.withSpan name false, .equals)
    else if c = '\x7b' then
      (part t since place).map fun name => (d.withSpan name true, .field (place + 1))
    else .ok (d, .span since)
  | .field since =>
    if c = '\x7d' then do
      let field ← part t since place
      return (← d.withField field, .bracket)
    else .ok (d, .field since)
  | .bracket => if c = ']' then .ok (d, .equals) else .error .malformed
  | .equals => if c = '=' then .ok (d, .level (place + 1)) else .error .malformed
  | .level since => .ok (d, .level since)

/-- The draft of a directive at the end of its text. -/
def finish (t : Text) (d : Draft) : Stage → Except FilterFault Draft
  | .word => .ok (d.withWord t)
  | .equals => .ok d
  | .level since => do
    let level ← part t since (Utf8.encode t).length
    d.withLevel level
  | .start | .span _ | .field _ | .bracket => .error .malformed

/-- Reads characters from a place of a text on. -/
def read (t : Text) (d : Draft) (s : Stage) (place : Nat) : Text → Except FilterFault Draft
  | [] => finish t d s
  | c :: rest => do
    let (d, s) ← step t d place c s
    read t d s (place + c.utf8Size) rest

/-- The directive that a text spells, if it concerns any entries. -/
def ofText (t : Text) : Except FilterFault (Option Directive) :=
  (read t .empty .start 0 (Text.trim t)).map Draft.directive?

/-- Whether a directive is about an entry. -/
def concerns (d : Directive) (e : LogEntry) : Bool :=
  d.area.isPrefixOf e.area.name && d.field.all e.hasField

/-- Whether a directive says less about where it applies than another one that concerns the same
entry: its area is shorter, or it alone asks for no field, or its field comes first in the order of
texts. -/
def isVaguer (d other : Directive) : Bool :=
  d.area.length < other.area.length ||
    (d.area.length = other.area.length &&
      match d.field, other.field with
      | none, some _ => true
      | some a, some b => decide (a < b)
      | _, none => false)

end Directive

end FirmwareIndex
