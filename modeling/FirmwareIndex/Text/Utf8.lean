import FirmwareIndex.Text.Basic

/-!
# UTF-8

Texts are written as bytes, and places in them can be counted in bytes. Files are read as bytes.
Bytes that are no UTF-8 do not make a file unreadable: each longest piece that starts a character
and cannot be completed, and each byte that starts none, is read as one replacement character. A
byte order mark is a character like any other.
-/

set_option autoImplicit false

namespace FirmwareIndex.Utf8

/-- The bytes of a text. -/
def encode (t : Text) : List UInt8 :=
  t.flatMap String.utf8EncodeChar

/-- The text after its first `n` bytes, if a character ends with them. -/
def drop? : Nat → Text → Option Text
  | 0, t => some t
  | _ + 1, [] => none
  | n + 1, c :: t => if c.utf8Size ≤ n + 1 then drop? (n + 1 - c.utf8Size) t else none

/-- The text of the first `n` bytes, if a character ends with them. -/
def take? : Nat → Text → Option Text
  | 0, _ => some []
  | _ + 1, [] => none
  | n + 1, c :: t =>
    if c.utf8Size ≤ n + 1 then (take? (n + 1 - c.utf8Size) t).map (c :: ·) else none

/-- The part of a text between two places, counted in bytes, if characters begin at both. -/
def slice? (first last : Nat) (t : Text) : Option Text :=
  (drop? first t).bind (take? (last - first))

/-- The character that stands for bytes that are no UTF-8. -/
def replacement : Char :=
  Char.ofNat 0xFFFD

/-- A character whose first bytes have been read. -/
structure Pending where
  missing : Nat
  bits : Nat
  low : Nat
  high : Nat

/-- The characters that a first byte completes, and the character that it leaves pending.

The bounds on the byte after it rule out overlong forms, surrogates and code points beyond the
last one. -/
def start (b : Nat) : Text × Option Pending :=
  if b < 0x80 then ([Char.ofNat b], none)
  else if 0xC2 ≤ b && b ≤ 0xDF then ([], some ⟨1, b % 32, 0x80, 0xBF⟩)
  else if b = 0xE0 then ([], some ⟨2, 0, 0xA0, 0xBF⟩)
  else if b = 0xED then ([], some ⟨2, 13, 0x80, 0x9F⟩)
  else if 0xE1 ≤ b && b ≤ 0xEF then ([], some ⟨2, b % 16, 0x80, 0xBF⟩)
  else if b = 0xF0 then ([], some ⟨3, 0, 0x90, 0xBF⟩)
  else if 0xF1 ≤ b && b ≤ 0xF3 then ([], some ⟨3, b % 8, 0x80, 0xBF⟩)
  else if b = 0xF4 then ([], some ⟨3, 4, 0x80, 0x8F⟩)
  else ([replacement], none)

/-- Reads one byte after what is pending. A byte that does not continue the pending character ends
it and is read as a first byte itself. -/
def step (pending : Option Pending) (b : Nat) : Text × Option Pending :=
  match pending with
  | none => start b
  | some p =>
    if p.low ≤ b && b ≤ p.high then
      let bits := p.bits * 64 + b % 64
      if p.missing ≤ 1 then ([Char.ofNat bits], none)
      else ([], some ⟨p.missing - 1, bits, 0x80, 0xBF⟩)
    else (replacement :: (start b).1, (start b).2)

/-- The text of the bytes that come after what is pending. -/
def decodeFrom (pending : Option Pending) : List UInt8 → Text
  | [] => if pending.isSome then [replacement] else []
  | b :: rest => (step pending b.toNat).1 ++ decodeFrom (step pending b.toNat).2 rest

/-- The text of a sequence of bytes. -/
def decode (bytes : List UInt8) : Text :=
  decodeFrom none bytes

end FirmwareIndex.Utf8
