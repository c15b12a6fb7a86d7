/-!
Bytes and the characters they spell. Decoding goes byte by byte and gives one item for each character; where
the bytes spell none, it gives one item for the longest piece that could have begun a character.
-/
namespace SignatureDocs.Text

/-- The bytes of a character. -/
def encodeChar (c : Char) : List UInt8 :=
  let n := c.toNat
  if n < 0x80 then [UInt8.ofNat n]
  else if n < 0x800 then [UInt8.ofNat (0xC0 + n / 0x40), UInt8.ofNat (0x80 + n % 0x40)]
  else if n < 0x10000 then
    [UInt8.ofNat (0xE0 + n / 0x1000), UInt8.ofNat (0x80 + n / 0x40 % 0x40),
      UInt8.ofNat (0x80 + n % 0x40)]
  else
    [UInt8.ofNat (0xF0 + n / 0x40000), UInt8.ofNat (0x80 + n / 0x1000 % 0x40),
      UInt8.ofNat (0x80 + n / 0x40 % 0x40), UInt8.ofNat (0x80 + n % 0x40)]

/-- The bytes of a text. -/
def encode (cs : List Char) : List UInt8 := cs.flatMap encodeChar

/-- A character of which some bytes have been read: how many are still owed after the next one, the least and
the greatest value of the next one, and the number that the bytes spell so far. -/
structure Pending where
  owed : Nat
  least : Nat
  most : Nat
  value : Nat
deriving DecidableEq, Repr

/-- What a byte does. -/
inductive ByteStep where
  /-- It completes a character. -/
  | char (c : Char)
  /-- More bytes are needed. -/
  | more (p : Pending)
  /-- No character has it here. -/
  | broken
deriving DecidableEq, Repr

/-- A byte where a character may begin. -/
def firstByte (b : UInt8) : ByteStep :=
  let n := b.toNat
  if n < 0x80 then .char (Char.ofNat n)
  else if n < 0xC2 then .broken
  else if n < 0xE0 then .more ⟨0, 0x80, 0xBF, n - 0xC0⟩
  else if n = 0xE0 then .more ⟨1, 0xA0, 0xBF, 0⟩
  else if n = 0xED then .more ⟨1, 0x80, 0x9F, 0xD⟩
  else if n < 0xF0 then .more ⟨1, 0x80, 0xBF, n - 0xE0⟩
  else if n = 0xF0 then .more ⟨2, 0x90, 0xBF, 0⟩
  else if n < 0xF4 then .more ⟨2, 0x80, 0xBF, n - 0xF0⟩
  else if n = 0xF4 then .more ⟨2, 0x80, 0x8F, 4⟩
  else .broken

/-- A byte inside a character. -/
def Pending.next (p : Pending) (b : UInt8) : ByteStep :=
  let n := b.toNat
  if p.least ≤ n ∧ n ≤ p.most then
    let value := p.value * 0x40 + (n - 0x80)
    match p.owed with
    | 0 => .char (Char.ofNat value)
    | k + 1 => .more ⟨k, 0x80, 0xBF, value⟩
  else .broken

/-- Decodes from the middle of a character, or from between two. -/
def decodeFrom : Option Pending → List UInt8 → List (Option Char)
  | none, [] => []
  | some _, [] => [none]
  | none, b :: bs =>
    match firstByte b with
    | .char c => some c :: decodeFrom none bs
    | .more p => decodeFrom (some p) bs
    | .broken => none :: decodeFrom none bs
  | some p, b :: bs =>
    match p.next b with
    | .char c => some c :: decodeFrom none bs
    | .more q => decodeFrom (some q) bs
    | .broken =>
      match firstByte b with
      | .char c => none :: some c :: decodeFrom none bs
      | .more q => none :: decodeFrom (some q) bs
      | .broken => none :: none :: decodeFrom none bs

/-- The characters of a list of bytes, with nothing in place of what spells none. -/
def decode (bs : List UInt8) : List (Option Char) := decodeFrom none bs

/-- The text that bytes spell, if they all belong to characters. -/
def decode? (bs : List UInt8) : Option (List Char) := (decode bs).mapM id

/-- The text that bytes spell, with a replacement character for what spells none. -/
def decodeLossy (bs : List UInt8) : List Char :=
  (decode bs).map (·.getD '�')

end SignatureDocs.Text
