/-!
Offsets in a text count the bytes of its UTF-8 form. A span is a pair of offsets, and a piece of text is
cut out only where both ends fall between two characters.
-/
namespace SignatureDocs.Text

/-- The number of bytes of a text. -/
def byteLength (cs : List Char) : Nat :=
  cs.foldr (fun c n => c.utf8Size + n) 0

/-- What is left after the first `n` bytes, if these are whole characters. -/
def dropBytes? : List Char → Nat → Option (List Char)
  | cs, 0 => some cs
  | [], _ + 1 => none
  | c :: cs, n + 1 => if c.utf8Size ≤ n + 1 then dropBytes? cs (n + 1 - c.utf8Size) else none

/-- The first `n` bytes, if these are whole characters. -/
def takeBytes? : List Char → Nat → Option (List Char)
  | _, 0 => some []
  | [], _ + 1 => none
  | c :: cs, n + 1 =>
    if c.utf8Size ≤ n + 1 then (takeBytes? cs (n + 1 - c.utf8Size)).map (c :: ·) else none

/-- A range of byte offsets; `stop` is the first offset after it. -/
structure Span where
  start : Nat
  stop : Nat
deriving DecidableEq, Repr

/-- The text of a span: none if the span is reversed, leaves the text or cuts a character. -/
def slice? (cs : List Char) (s : Span) : Option (List Char) :=
  if s.start ≤ s.stop then (dropBytes? cs s.start).bind (takeBytes? · (s.stop - s.start)) else none

/-- The text of a span, empty where there is none. -/
def slice (cs : List Char) (s : Span) : List Char :=
  (slice? cs s).getD []

/-- A place in a text as people count it: lines and columns from one, a column for each character. -/
structure Place where
  line : Nat
  column : Nat
deriving DecidableEq, Repr

/-- Moves past one character. -/
def Place.next (p : Place) (c : Char) : Place :=
  if c = '\n' then ⟨p.line + 1, 1⟩ else ⟨p.line, p.column + 1⟩

/-- The place of a byte offset. -/
def placeOf (cs : List Char) (offset : Nat) : Place :=
  ((takeBytes? cs offset).getD cs).foldl Place.next ⟨1, 1⟩

end SignatureDocs.Text
