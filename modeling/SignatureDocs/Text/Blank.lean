/-!
Classes of blank characters. Three readers of a source text disagree on what is blank: comments are
gathered and names are trimmed by the Unicode property, declarations are read with a wider class, and the
ends of lines are judged on ASCII alone.
-/
namespace SignatureDocs.Text

/-- The Unicode space separators. -/
def isSpaceSeparator (c : Char) : Bool :=
  let n := c.toNat
  n = 0x20 || n = 0xA0 || n = 0x1680 || (0x2000 ≤ n && n ≤ 0x200A) || n = 0x202F || n = 0x205F ||
    n = 0x3000

/-- The six blank characters of ASCII. -/
def isAsciiBlank (c : Char) : Bool :=
  c = ' ' || (9 ≤ c.toNat && c.toNat ≤ 13)

/-- The Unicode property `White_Space`. -/
def isBlank (c : Char) : Bool :=
  isAsciiBlank c || isSpaceSeparator c || c.toNat = 0x85 || c.toNat = 0x2028 || c.toNat = 0x2029

/-- Characters that separate the words of a declaration file. The next-line control is not one of them,
the byte order mark and the zero-width joiners of words are. -/
def isSourceBlank (c : Char) : Bool :=
  let n := c.toNat
  isAsciiBlank c || isSpaceSeparator c || n = 0xFEFF || n = 0x2028 || n = 0x2029 || n = 0x2060 ||
    n = 0x200B

/-- Drops the blanks at both ends. -/
def trim (cs : List Char) : List Char :=
  ((cs.dropWhile isBlank).reverse.dropWhile isBlank).reverse

/-- Drops the blanks at both ends of a string. -/
def trimString (s : String) : String :=
  String.ofList (trim s.toList)

end SignatureDocs.Text
