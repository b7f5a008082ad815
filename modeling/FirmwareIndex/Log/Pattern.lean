import FirmwareIndex.Text.Basic
import FirmwareIndex.Text.Letter

/-!
# Patterns of field values

A log filter can ask for fields with a value, which is a number or a pattern. Patterns are regular
expressions with alternatives, groups, classes, repetitions and flags. Only spans have values to
compare with and this program has none, so all that matters is which texts are patterns. The value
ends before the first closing brace: repetitions are never counted and no name stands in braces.

By its flags a pattern can pass over blanks and comments, and it can be about bytes instead of
characters. One about bytes must not match what is no text, and one about characters must not ask
for the ends of words. A pattern has a greatest depth.
-/

set_option autoImplicit false

namespace FirmwareIndex.Pattern

/-- How the characters of a pattern are read. -/
structure Mode where
  spaced : Bool
  bytes : Bool
deriving DecidableEq, Repr

namespace Mode

/-- The mode at the start of a pattern. -/
def start : Mode :=
  ⟨false, false⟩

/-- The mode with a flag on or off. -/
def set (m : Mode) (flag : Char) (on : Bool) : Mode :=
  if flag = 'x' then { m with spaced := on }
  else if flag = 'u' then { m with bytes := !on }
  else m

/-- The text after blanks and comments, which can start inside a comment. -/
def skipFrom (m : Mode) (inComment : Bool) : Text → Text
  | [] => []
  | c :: t =>
    if inComment then m.skipFrom (c ≠ '\n') t
    else if m.spaced && c = '#' then m.skipFrom true t
    else if m.spaced && Text.isBlank c then m.skipFrom false t
    else c :: t

/-- The text without what the mode passes over at its start. -/
def skip (m : Mode) (t : Text) : Text :=
  m.skipFrom false t

/-- The next character after blanks. A number sign and the blanks after it are passed over, but not
the rest of a comment. -/
def peek? (m : Mode) (t : Text) : Option Char :=
  if m.spaced then
    match t.dropWhile Text.isBlank with
    | '#' :: rest => (rest.dropWhile Text.isBlank).head?
    | rest => rest.head?
  else t.head?

end Mode

/-! ## Depth -/

/-- How deep a pattern may be nested. -/
def maxDepth : Nat :=
  250

/-- How deep the items nest that stand side by side, and those on the left of them behind a bar or
an operator. A single item is as deep as itself; several items side by side are one level above the
deepest of them, and so is what is joined by bars or operators. -/
structure Nesting where
  /-- The depth of what stands on the left, if anything does. -/
  left : Option Nat
  count : Nat
  /-- The greatest depth of an item before the last one. -/
  before : Nat
  last : Nat
deriving DecidableEq, Repr

namespace Nesting

/-- No items. -/
def empty : Nesting :=
  ⟨none, 0, 0, 0⟩

/-- The depth of the items side by side. -/
def row (n : Nesting) : Nat :=
  if n.count ≤ 1 then n.last else max n.before n.last + 1

/-- How deep the items are nested. -/
def depth (n : Nesting) : Nat :=
  match n.left with
  | none => n.row
  | some left => max left n.row + 1

/-- The items and one more of some depth. -/
def push (n : Nesting) (depth : Nat) : Nesting :=
  { n with count := n.count + 1, before := max n.before n.last, last := depth }

/-- The items when the last one is repeated, which is a level of its own. -/
def repeatLast (n : Nesting) : Nesting :=
  { n with last := n.last + 1 }

/-- The items before a bar. The alternatives of a group are all on one level. -/
def bar (n : Nesting) : Nesting :=
  { empty with left := some (max (n.left.getD 0) n.row) }

/-- The items before an operator. An operator is a level above the operators before it. -/
def operator (n : Nesting) : Nesting :=
  { empty with left := some n.depth }

end Nesting

/-! ## Single items -/

/-- What a single item of a pattern stands for. -/
inductive Atom where
  | literal (code : Nat)
  | set
  | place
deriving DecidableEq, Repr

/-- Whether an item can stand in a class. -/
def Atom.isMember (m : Mode) : Atom → Bool
  | .literal code => !m.bytes || code < 0x80
  | .set => true
  | .place => false

/-- The value of a hexadecimal digit. -/
def hexValue? (c : Char) : Option Nat :=
  if c.isDigit then some (c.toNat - 48)
  else if 'a' ≤ c ∧ c ≤ 'f' then some (c.toNat - 87)
  else if 'A' ≤ c ∧ c ≤ 'F' then some (c.toNat - 55)
  else none

/-- The number that starts with `n` and goes on with so many hexadecimal digits, and the text after
them. -/
def hex? (m : Mode) : Nat → Nat → Text → Option (Nat × Text)
  | 0, n, t => some (n, t)
  | count + 1, n, t =>
    match m.skip t with
    | [] => none
    | c :: rest => (hexValue? c).bind fun digit => hex? m count (16 * n + digit) rest

/-- The character whose code point has so many hexadecimal digits. One with two digits is a byte in
a pattern about bytes. -/
def code? (m : Mode) (count : Nat) (t : Text) : Option (Atom × Text) :=
  (hex? m count 0 t).bind fun r =>
    let isNoText := m.bytes && count = 2 && 0x80 ≤ r.1
    if decide r.1.isValidChar && !isNoText then some (.literal r.1, r.2) else none

/-- The characters of a general category, which has a name of one letter. -/
def category? (m : Mode) (t : Text) : Option (Atom × Text) :=
  match m.skip t with
  | [] => none
  | c :: rest =>
    if "CLMNPSZ".toList.contains c.toUpper && !m.bytes then some (.set, rest) else none

/-- The control characters that have letters, with their letters. -/
def controls : List (Char × Nat) :=
  [('a', 7), ('t', 9), ('n', 10), ('v', 11), ('f', 12), ('r', 13)]

/-- What stands for itself or for something else after a backslash, and the text after it. -/
def escape? (m : Mode) : Text → Option (Atom × Text)
  | [] => none
  | 'x' :: t => code? m 2 t
  | 'u' :: t => code? m 4 t
  | 'U' :: t => code? m 8 t
  | 'p' :: t | 'P' :: t => category? m t
  | c :: t =>
    if "dsw".toList.contains c then some (.set, t)
    else if "DSW".toList.contains c then if m.bytes then none else some (.set, t)
    else if c = 'A' || c = 'z' then some (.place, t)
    else if "bB<>".toList.contains c then if m.bytes then some (.place, t) else none
    else
      match controls.lookup c with
      | some code => some (.literal code, t)
      | none => if c.toNat < 0x80 && !c.isAlphanum then some (.literal c.toNat, t) else none

/-! ## Classes -/

/-- An item of a class, and the text after it. -/
def item? (m : Mode) : Text → Option (Atom × Text)
  | [] => none
  | '\\' :: t => escape? m t
  | c :: t => some (.literal c.toNat, t)

/-- The text after an item of a class or a range of characters. A dash makes no range before another
dash or the end of the class. -/
def element? (m : Mode) (t : Text) : Option Text :=
  (item? m t).bind fun first =>
    let alone := fun rest => if first.1.isMember m then some rest else none
    match m.skip first.2 with
    | '-' :: rest =>
      if m.peek? rest = some ']' || m.peek? rest = some '-' then alone ('-' :: rest)
      else
        (item? m (m.skip rest)).bind fun last =>
          match first.1, last.1 with
          | .literal a, .literal b =>
            if a ≤ b && first.1.isMember m && last.1.isMember m then some last.2 else none
          | _, _ => none
    | rest => alone rest

/-- The names of the classes of characters. -/
def classNames : List Text :=
  ["alnum".toList, "alpha".toList, "ascii".toList, "blank".toList, "cntrl".toList, "digit".toList,
    "graph".toList, "lower".toList, "print".toList, "punct".toList, "space".toList, "upper".toList,
    "word".toList, "xdigit".toList]

/-- The text after the name of a class, which stands between colons before a bracket. -/
def afterName? (t : Text) : Option Text :=
  (Text.cut? ':' t).bind fun r =>
    match r.2 with
    | ']' :: rest => if classNames.contains r.1 then some rest else none
    | _ => none

/-- Whether a named class is negated and the text after it, if one stands after a bracket. -/
def named? : Text → Option (Bool × Text)
  | ':' :: '^' :: t => (afterName? t).map fun rest => (true, rest)
  | ':' :: t => (afterName? t).map fun rest => (false, rest)
  | _ => none

/-- The text after the start of a class, which a caret negates. -/
def afterOpening? (m : Mode) (t : Text) : Option Text :=
  match m.skip t with
  | '^' :: rest => if m.bytes then none else some rest
  | rest => some rest

/-- Whether a character stands for itself at the start of a class: dashes do, and a bracket that is
the first item. -/
def isPlainAtStart (items : Nesting) (c : Char) : Bool :=
  c = '-' || (c = ']' && items.count = 0)

/-- The depth of a class and the text after it, where some items of it have been read, and those of
the classes that it stands in. -/
def afterItems? (m : Mode) : Nat → List Nesting → Nesting → Bool → Text → Option (Nat × Text)
  | 0, _, _, _, _ => none
  | fuel + 1, outer, items, atStart, t =>
    match m.skip t with
    | [] => none
    | c :: rest =>
      if atStart && isPlainAtStart items c then
        afterItems? m fuel outer (items.push 0) (c = '-') rest
      else
        match c :: rest with
        | '[' :: rest =>
          match named? rest with
          | some (negated, rest) =>
            if negated && m.bytes then none else afterItems? m fuel outer (items.push 0) false rest
          | none => (afterOpening? m rest).bind (afterItems? m fuel (items :: outer) .empty true)
        | ']' :: rest =>
          match outer with
          | [] => some (items.depth + 1, rest)
          | next :: outer => afterItems? m fuel outer (next.push (items.depth + 1)) false rest
        | '&' :: '&' :: rest | '-' :: '-' :: rest | '~' :: '~' :: rest =>
          afterItems? m fuel outer items.operator false rest
        | t => (element? m t).bind (afterItems? m fuel outer (items.push 0) false)

/-- The depth of a class whose first bracket has been read, and the text after it. -/
def class? (m : Mode) (t : Text) : Option (Nat × Text) :=
  (afterOpening? m t).bind (afterItems? m (t.length + 1) [] .empty true)

/-! ## Groups -/

/-- What an opening parenthesis starts. -/
inductive Opening where
  /-- Flags for the rest of the group it stands in. -/
  | flags (m : Mode) (rest : Text)
  | group (m : Mode) (name : Option Text) (rest : Text)

/-- The mode after flags, the letters of the flags, and the text that starts with their end. Each
flag stands once, and those after a minus sign are off. -/
def flags? (m : Mode) (seen : Text) (off dangling : Bool) : Text → Option (Mode × Text × Text)
  | [] => none
  | c :: t =>
    if c = ':' || c = ')' then if dangling then none else some (m, seen, c :: t)
    else if c = '-' then if off then none else flags? m seen true true t
    else if "imsURux".toList.contains c && !seen.contains c then
      flags? (m.set c !off) (c :: seen) off false t
    else none

/-- Whether a text is the name of a group. -/
def isGroupName : Text → Bool
  | [] => false
  | c :: rest =>
    (c = '_' || Text.isLetter c) &&
      rest.all fun c => "_.[]".toList.contains c || Text.isLetterOrNumber c

/-- A group whose name goes up to a closing angle. -/
def namedGroup? (m : Mode) (t : Text) : Option Opening :=
  (Text.cut? '>' t).bind fun r => if isGroupName r.1 then some (.group m (some r.1) r.2) else none

/-- What a parenthesis before a text opens. -/
def opening? (m : Mode) (t : Text) : Option Opening :=
  match m.skip t with
  | '?' :: 'P' :: '<' :: rest | '?' :: '<' :: rest => namedGroup? m rest
  | '?' :: rest =>
    match flags? m [] false false rest with
    | some (inner, _, ':' :: rest) => some (.group inner none rest)
    | some (inner, _ :: _, ')' :: rest) => some (.flags inner rest)
    | _ => none
  | rest => some (.group m none rest)

/-! ## Whole patterns -/

/-- How far a pattern has been read. -/
structure Reading where
  mode : Mode
  items : Nesting
  repeatable : Bool
  /-- How it is read after each of the open groups, and the items before that group. -/
  groups : List (Mode × Nesting)
  names : List Text

/-- A pattern of which nothing has been read. -/
def Reading.start : Reading :=
  ⟨.start, .empty, false, [], []⟩

/-- A pattern with one more item, which can be repeated. -/
def Reading.push (r : Reading) (depth : Nat) : Reading :=
  { r with items := r.items.push depth, repeatable := true }

/-- Whether the rest of a pattern can be read to its end, in so many steps. -/
def completes : Nat → Reading → Text → Bool
  | 0, _, _ => false
  | fuel + 1, r, t =>
    let single := fun (rest? : Option Text) => rest?.any (completes fuel (r.push 0))
    match r.mode.skip t with
    | [] => r.groups.isEmpty && r.items.depth ≤ maxDepth
    | '(' :: rest =>
      match opening? r.mode rest with
      | none => false
      | some (.flags m rest) =>
        completes fuel { r with mode := m, items := r.items.push 0, repeatable := false } rest
      | some (.group m name rest) =>
        name.all (fun name => !r.names.contains name) &&
          completes fuel ⟨m, .empty, false, (r.mode, r.items) :: r.groups, name.toList ++ r.names⟩
            rest
    | ')' :: rest =>
      match r.groups with
      | [] => false
      | (m, before) :: groups =>
        let depth := r.items.depth + 1
        completes fuel (Reading.push ⟨m, before, false, groups, r.names⟩ depth) rest
    | '|' :: rest => completes fuel { r with items := r.items.bar, repeatable := false } rest
    | '\x7b' :: _ => false
    | '[' :: rest => (class? r.mode rest).any fun c => completes fuel (r.push c.1) c.2
    | '\\' :: rest => single ((escape? r.mode rest).map Prod.snd)
    | '.' :: rest => single (if r.mode.bytes then none else some rest)
    | c :: rest =>
      if "?*+".toList.contains c then
        let isLazy := rest.head? = some '?'
        r.repeatable && completes fuel { r with items := r.items.repeatLast }
          (if isLazy then rest.tail else rest)
      else single (some rest)

/-- Whether a text is a pattern. -/
def isPattern (t : Text) : Bool :=
  completes (t.length + 1) .start t

/-! ## Numbers -/

/-- The text without a sign in front. -/
def unsigned : Text → Text
  | '+' :: t | '-' :: t => t
  | t => t

/-- Whether a text is an exponent or empty. -/
def isExponent : Text → Bool
  | [] => true
  | c :: t => (c = 'e' || c = 'E') && unsigned t ≠ [] && (unsigned t).all Char.isDigit

/-- Whether a text is a decimal number, or stands for infinity or for no number. -/
def isNumber (t : Text) : Bool :=
  let t := unsigned t
  let whole := t.takeWhile Char.isDigit
  let rest := t.dropWhile Char.isDigit
  let digits := fun (fraction : Text) => !(whole ++ fraction).isEmpty
  ["inf".toList, "infinity".toList, "nan".toList].any (Text.sameName t) ||
    match rest with
    | '.' :: rest =>
      digits (rest.takeWhile Char.isDigit) && isExponent (rest.dropWhile Char.isDigit)
    | rest => digits [] && isExponent rest

/-- Whether a text is a value that a filter can ask for. -/
def isValue (t : Text) : Bool :=
  isNumber t || isPattern t

end FirmwareIndex.Pattern
