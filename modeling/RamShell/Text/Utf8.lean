/-!
# RamShell.Text.Utf8

Texts as UTF-8 bytes. Files hold bytes, commands hold text, and this module is the way between
the two.

Decoding is one scan with two readings. The scan yields `some c` for each character and `none`
for each *maximal invalid stretch*: the longest run of bytes that starts some well-formed
sequence but does not finish it, or else the single byte that starts none. `decode?` refuses a
text that has such a stretch, `decodeLossy` shows each as one replacement character.
-/

namespace RamShell

/-- Raw file content. -/
abbrev Bytes := List UInt8

namespace Text

/-- The UTF-8 bytes of a text. -/
def encode (s : String) : Bytes :=
  s.toList.flatMap String.utf8EncodeChar

/-- A character whose bytes have been read in part: how many bytes are still due after the next
one, the range the next one has to lie in, and the bits collected so far. -/
structure Unfinished where
  /-- Bytes due after the next one. -/
  due : Nat
  /-- Least value of the next byte. -/
  least : UInt8
  /-- Greatest value of the next byte. -/
  greatest : UInt8
  /-- The bits of the bytes read so far. -/
  bits : Nat

/-- What reading one byte gives: the characters and invalid stretches that end here, and the
character left unfinished. -/
abbrev Reading := List (Option Char) × Option Unfinished

/-- Reading a byte between two characters. The narrowed ranges after `E0`, `ED`, `F0` and `F4`
rule out overlong forms, surrogates and values past `10FFFF`. -/
def readLead (b : UInt8) : Reading :=
  if b < 0x80 then ([some (Char.ofNat b.toNat)], none)
  else if b < 0xC2 then ([none], none)
  else if b < 0xE0 then ([], some ⟨0, 0x80, 0xBF, b.toNat - 0xC0⟩)
  else if b == 0xE0 then ([], some ⟨1, 0xA0, 0xBF, 0⟩)
  else if b == 0xED then ([], some ⟨1, 0x80, 0x9F, 0xD⟩)
  else if b < 0xF0 then ([], some ⟨1, 0x80, 0xBF, b.toNat - 0xE0⟩)
  else if b == 0xF0 then ([], some ⟨2, 0x90, 0xBF, 0⟩)
  else if b < 0xF4 then ([], some ⟨2, 0x80, 0xBF, b.toNat - 0xF0⟩)
  else if b == 0xF4 then ([], some ⟨2, 0x80, 0x8F, 4⟩)
  else ([none], none)

/-- Reading a byte inside a character. A byte out of range ends that character as invalid and is
read afresh. -/
def Unfinished.read (u : Unfinished) (b : UInt8) : Reading :=
  if u.least ≤ b ∧ b ≤ u.greatest then
    let bits := u.bits * 64 + (b.toNat - 0x80)
    match u.due with
    | 0 => ([some (Char.ofNat bits)], none)
    | due + 1 => ([], some ⟨due, 0x80, 0xBF, bits⟩)
  else (none :: (readLead b).1, (readLead b).2)

/-- Reading one byte, inside a character or between two. -/
def read : Option Unfinished → UInt8 → Reading
  | none, b => readLead b
  | some u, b => u.read b

/-- The scan over the bytes that are left. A character that the end cuts off is invalid. -/
def scan : Option Unfinished → Bytes → List (Option Char)
  | none, [] => []
  | some _, [] => [none]
  | pending, b :: rest => (read pending b).1 ++ scan (read pending b).2 rest

/-- The text that the bytes encode, if every byte belongs to a well-formed character. -/
def decode? (bytes : Bytes) : Option String :=
  ((scan none bytes).mapM id).map String.ofList

/-- The text that the bytes encode, with U+FFFD for each maximal invalid stretch. -/
def decodeLossy (bytes : Bytes) : String :=
  String.ofList ((scan none bytes).map (·.getD '\uFFFD'))

@[simp] theorem encode_empty : encode "" = [] := rfl

@[simp] theorem encode_append (s t : String) : encode (s ++ t) = encode s ++ encode t := by
  simp [encode]

/-- A text has as many bytes as its UTF-8 size says. -/
theorem length_encode (s : String) : (encode s).length = s.utf8ByteSize := by
  rw [← String.size_toByteArray, ← String.utf8Encode_toList]
  simp [encode, List.utf8Encode]

end Text

end RamShell
