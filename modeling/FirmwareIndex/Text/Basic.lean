import FirmwareIndex.Text.Blank

/-!
# Text

Build files are read as lists of characters, the form in which they are cut into lines, headers
and entries. This module holds the operations that all readers share: trimming, cutting at a
character, and the case rules of names, which know ASCII letters only.
-/

set_option autoImplicit false

namespace FirmwareIndex

/-- Text as the list of its characters. -/
abbrev Text := List Char

namespace Text

instance : Coe String Text := ⟨String.toList⟩

/-- The text without blanks at its start. -/
def trimStart (t : Text) : Text :=
  t.dropWhile isBlank

/-- The text without blanks at its end. -/
def trimEnd (t : Text) : Text :=
  (t.reverse.dropWhile isBlank).reverse

/-- The text without blanks at either end. -/
def trim (t : Text) : Text :=
  trimEnd (trimStart t)

/-- The texts before and after the first `sep`, or nothing if there is none. -/
def cut? (sep : Char) : Text → Option (Text × Text)
  | [] => none
  | c :: t => if c = sep then some ([], t) else (cut? sep t).map fun p => (c :: p.1, p.2)

/-- The text before the first `sep`: all of it if there is none. -/
def before (sep : Char) (t : Text) : Text :=
  t.takeWhile (· != sep)

/-- The words of a text: its longest pieces without blanks. -/
def words (t : Text) : List Text :=
  (t.splitOnP isBlank).filter (· ≠ [])

/-- The text with ASCII capitals made small. -/
def lower (t : Text) : Text :=
  t.map Char.toLower

/-- The text with small ASCII letters made capital. -/
def upper (t : Text) : Text :=
  t.map Char.toUpper

/-- Whether two names differ at most in the case of ASCII letters. -/
def sameName (a b : Text) : Bool :=
  lower a = lower b

/-- The text after `start`, if it begins with it. -/
def after? (start t : Text) : Option Text :=
  start.isPrefixOf? t

/-- The position, counted in characters, at which `part` first occurs. -/
def indexOf? (part : Text) : Text → Option Nat
  | [] => if part = [] then some 0 else none
  | c :: t => if part.isPrefixOf (c :: t) then some 0 else (indexOf? part t).map (· + 1)

/-- The text with every backslash turned into a slash. -/
def slashed (t : Text) : Text :=
  t.map fun c => if c = '\\' then '/' else c

/-- The digit of a number below sixteen, with small letters. -/
def hexDigit (n : Nat) : Char :=
  if n < 10 then Char.ofNat (48 + n) else Char.ofNat (87 + n)

end Text

end FirmwareIndex
