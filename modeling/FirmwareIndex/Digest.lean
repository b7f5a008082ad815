import FirmwareIndex.Text.Utf8

/-!
# Digests of texts

The fingerprint of a text is the SHA-256 digest of its UTF-8 bytes in hexadecimal. The message is
padded to whole blocks of sixteen words, and each block is mixed into the state in 64 rounds. The
words of a block and of its schedule are kept with the newest one first, since each further word
is computed from the sixteen before it.
-/

set_option autoImplicit false

namespace FirmwareIndex.Digest

/-- The eight words of a digest on its way. -/
structure Words where
  a : UInt32
  b : UInt32
  c : UInt32
  d : UInt32
  e : UInt32
  f : UInt32
  g : UInt32
  h : UInt32

/-- The words before any block. -/
def Words.initial : Words :=
  ⟨0x6a09e667, 0xbb67ae85, 0x3c6ef372, 0xa54ff53a, 0x510e527f, 0x9b05688c, 0x1f83d9ab, 0x5be0cd19⟩

/-- The constants of the rounds. -/
def constants : List UInt32 :=
  [0x428a2f98, 0x71374491, 0xb5c0fbcf, 0xe9b5dba5, 0x3956c25b, 0x59f111f1, 0x923f82a4, 0xab1c5ed5,
   0xd807aa98, 0x12835b01, 0x243185be, 0x550c7dc3, 0x72be5d74, 0x80deb1fe, 0x9bdc06a7, 0xc19bf174,
   0xe49b69c1, 0xefbe4786, 0x0fc19dc6, 0x240ca1cc, 0x2de92c6f, 0x4a7484aa, 0x5cb0a9dc, 0x76f988da,
   0x983e5152, 0xa831c66d, 0xb00327c8, 0xbf597fc7, 0xc6e00bf3, 0xd5a79147, 0x06ca6351, 0x14292967,
   0x27b70a85, 0x2e1b2138, 0x4d2c6dfc, 0x53380d13, 0x650a7354, 0x766a0abb, 0x81c2c92e, 0x92722c85,
   0xa2bfe8a1, 0xa81a664b, 0xc24b8b70, 0xc76c51a3, 0xd192e819, 0xd6990624, 0xf40e3585, 0x106aa070,
   0x19a4c116, 0x1e376c08, 0x2748774c, 0x34b0bcb5, 0x391c0cb3, 0x4ed8aa4a, 0x5b9cca4f, 0x682e6ff3,
   0x748f82ee, 0x78a5636f, 0x84c87814, 0x8cc70208, 0x90befffa, 0xa4506ceb, 0xbef9a3f7, 0xc67178f2]

/-- The word turned right by `n` bits. -/
def turn (n : UInt32) (x : UInt32) : UInt32 :=
  (x >>> n) ||| (x <<< (32 - n))

/-- The next word of a schedule, from the words before it, newest first. -/
def nextWord (ws : List UInt32) : UInt32 :=
  let x := ws.getD 14 0
  let y := ws.getD 1 0
  ws.getD 15 0 + (turn 7 x ^^^ turn 18 x ^^^ (x >>> 3)) + ws.getD 6 0 +
    (turn 17 y ^^^ turn 19 y ^^^ (y >>> 10))

/-- The schedule with so many more words, the last one first. -/
def extend : Nat → List UInt32 → List UInt32
  | 0, ws => ws
  | n + 1, ws => extend n (nextWord ws :: ws)

/-- One round with its constant and its word of the schedule. -/
def round (s : Words) (kw : UInt32 × UInt32) : Words :=
  let t₁ := s.h + (turn 6 s.e ^^^ turn 11 s.e ^^^ turn 25 s.e) +
    ((s.e &&& s.f) ^^^ ((~~~s.e) &&& s.g)) + kw.1 + kw.2
  let t₂ := (turn 2 s.a ^^^ turn 13 s.a ^^^ turn 22 s.a) +
    ((s.a &&& s.b) ^^^ (s.a &&& s.c) ^^^ (s.b &&& s.c))
  ⟨t₁ + t₂, s.a, s.b, s.c, s.d + t₁, s.e, s.f, s.g⟩

/-- The state after a block whose sixteen words are given newest first. -/
def mix (s : Words) (block : List UInt32) : Words :=
  let m := (constants.zip (extend 48 block).reverse).foldl round s
  ⟨s.a + m.a, s.b + m.b, s.c + m.c, s.d + m.d, s.e + m.e, s.f + m.f, s.g + m.g, s.h + m.h⟩

/-- The state after some words of a message, and the words of a block that is not complete. -/
structure Progress where
  state : Words
  block : List UInt32

/-- Takes one more word of the message. -/
def Progress.word (p : Progress) (w : UInt32) : Progress :=
  if p.block.length = 15 then ⟨mix p.state (w :: p.block), []⟩ else { p with block := w :: p.block }

/-- The number as `n` bytes, the most significant one first. -/
def bigEndian : Nat → Nat → List UInt8
  | 0, _ => []
  | n + 1, k => bigEndian n (k / 256) ++ [UInt8.ofNat k]

/-- The message, a bit that marks its end, zeros up to the last eight bytes of a block, and its
length in bits. -/
def pad (bytes : List UInt8) : List UInt8 :=
  bytes ++ 0x80 :: List.replicate ((119 - bytes.length % 64) % 64) 0 ++
    bigEndian 8 (8 * bytes.length)

/-- The words of a sequence of bytes. -/
def wordsOf : List UInt8 → List UInt32
  | a :: b :: c :: d :: rest =>
    (a.toUInt32 <<< 24 ||| b.toUInt32 <<< 16 ||| c.toUInt32 <<< 8 ||| d.toUInt32) :: wordsOf rest
  | _ => []

/-- The state after all words of a message. -/
def ofBytes (bytes : List UInt8) : Words :=
  ((wordsOf (pad bytes)).foldl Progress.word ⟨.initial, []⟩).state

/-- So many hexadecimal digits of a number. -/
def hex : Nat → Nat → Text
  | 0, _ => []
  | n + 1, k => hex n (k / 16) ++ [Text.hexDigit (k % 16)]

/-- The digest in hexadecimal digits. -/
def Words.hex (s : Words) : Text :=
  [s.a, s.b, s.c, s.d, s.e, s.f, s.g, s.h].flatMap fun w => Digest.hex 8 w.toNat

/-- The digest of the bytes of a text. -/
def fingerprint (t : Text) : Text :=
  (ofBytes (Utf8.encode t)).hex

end FirmwareIndex.Digest
