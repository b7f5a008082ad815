import FirmwareIndex.Text.Basic

/-!
# JSON values and their text

Answers are given as JSON. Objects keep the order of their fields. A value is written either on
one line without spaces, or over several lines with two spaces for each level, where an empty
array or object stays on one line. Characters beyond ASCII are written as they are.
-/

set_option autoImplicit false

namespace FirmwareIndex

/-- A JSON value whose numbers are integers. -/
inductive Json where
  | null
  | bool (b : Bool)
  | num (n : Int)
  | str (t : Text)
  | arr (items : List Json)
  | obj (fields : List (Text × Json))

namespace Json

/-- A character as it stands inside a string: quotes, backslashes and control characters are
escaped, the latter by a letter where there is one. -/
def escape (c : Char) : Text :=
  if c = '"' then "\\\""
  else if c = '\\' then "\\\\"
  else if c = '\n' then "\\n"
  else if c = '\r' then "\\r"
  else if c = '\t' then "\\t"
  else if c.toNat = 8 then "\\b"
  else if c.toNat = 12 then "\\f"
  else if c.toNat < 32 then "\\u00" ++ [Text.hexDigit (c.toNat / 16), Text.hexDigit (c.toNat % 16)]
  else [c]

/-- The text between quotes, with its special characters escaped. -/
def quote (t : Text) : Text :=
  '"' :: t.flatMap escape ++ ['"']

/-- The number in decimal digits. -/
def digits (n : Int) : Text :=
  if n < 0 then '-' :: (Nat.toDigits 10 n.natAbs) else Nat.toDigits 10 n.natAbs

mutual

/-- The value on one line, without spaces. -/
def compact : Json → Text
  | .null => "null"
  | .bool b => if b then "true" else "false"
  | .num n => digits n
  | .str t => quote t
  | .arr items => '[' :: [','].intercalate (compactItems items) ++ [']']
  | .obj fields => '\x7b' :: [','].intercalate (compactFields fields) ++ ['\x7d']

/-- The items of an array, each on one line. -/
def compactItems : List Json → List Text
  | [] => []
  | item :: rest => compact item :: compactItems rest

/-- The fields of an object, each on one line. -/
def compactFields : List (Text × Json) → List Text
  | [] => []
  | field :: rest => compactField field :: compactFields rest

/-- A field of an object on one line. -/
def compactField : Text × Json → Text
  | (key, value) => quote key ++ ':' :: compact value

end

/-- The start of a line at a level of nesting. -/
def newline (level : Nat) : Text :=
  '\n' :: List.replicate (2 * level) ' '

/-- Items between brackets, each on a line of its own one level deeper. -/
def block (opening closing : Char) (level : Nat) (items : List Text) : Text :=
  match items with
  | [] => [opening, closing]
  | _ =>
    opening :: newline (level + 1) ++ (',' :: newline (level + 1)).intercalate items ++
      newline level ++ [closing]

mutual

/-- The value over several lines, when its first line stands at a level of nesting. -/
def pretty (level : Nat) : Json → Text
  | .null => "null"
  | .bool b => if b then "true" else "false"
  | .num n => digits n
  | .str t => quote t
  | .arr items => block '[' ']' level (prettyItems (level + 1) items)
  | .obj fields => block '\x7b' '\x7d' level (prettyFields (level + 1) fields)

/-- The items of an array at a level of nesting. -/
def prettyItems (level : Nat) : List Json → List Text
  | [] => []
  | item :: rest => pretty level item :: prettyItems level rest

/-- The fields of an object at a level of nesting. -/
def prettyFields (level : Nat) : List (Text × Json) → List Text
  | [] => []
  | field :: rest => prettyField level field :: prettyFields level rest

/-- One field at a level of nesting. -/
def prettyField (level : Nat) : Text × Json → Text
  | (key, value) => quote key ++ ':' :: ' ' :: pretty level value

end

/-- An array of texts. -/
def texts (ts : List Text) : Json :=
  .arr (ts.map .str)

/-- The value in an option, or `null`. -/
def ofOption {α : Type} (f : α → Json) : Option α → Json
  | none => .null
  | some a => f a

end Json

end FirmwareIndex
