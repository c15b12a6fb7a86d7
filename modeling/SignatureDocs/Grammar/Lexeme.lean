import SignatureDocs.Text.Blank

/-!
Lexemes of a declaration file. A reader takes the text and gives back the lexeme at its start and what
follows it, so that the two together are the text it was given; it refuses a text that does not start with
a lexeme of its kind. The text is taken to start at the lexeme: blanks and comments before it are skipped
elsewhere.
-/
namespace SignatureDocs.Grammar

open SignatureDocs.Text

/-- A reader of one kind of lexeme. -/
abbrev Reader := List Char → Option (List Char × List Char)

namespace Reader

/-- Reads as often as the reader accepts, at most once for each element of the first list. -/
def upTo (r : Reader) : List Char → List Char → List Char × List Char
  | [], cs => ([], cs)
  | _ :: budget, cs =>
    match r cs with
    | none => ([], cs)
    | some (x, rest) =>
      let (y, rest') := upTo r budget rest
      (x ++ y, rest')

/-- Reads as often as the reader accepts. A reader that always takes a character can do so at most once for
each character of the text. -/
def many (r : Reader) (cs : List Char) : List Char × List Char :=
  upTo r cs cs

/-- Reads at least once. -/
def some1 (r : Reader) : Reader := fun cs =>
  (r cs).map fun (x, rest) =>
    let (y, rest') := many r rest
    (x ++ y, rest')

/-- One reader after another. -/
def andThen (r q : Reader) : Reader := fun cs =>
  (r cs).bind fun (x, rest) => (q rest).map fun (y, rest') => (x ++ y, rest')

/-- The first reader that accepts. -/
def orElse (r q : Reader) : Reader := fun cs =>
  match r cs with
  | some p => some p
  | none => q cs

/-- A reader that may take nothing. -/
def optional (r : Reader) : Reader := fun cs =>
  some ((r cs).getD ([], cs))

/-- One character of a class. -/
def char (p : Char → Bool) : Reader
  | [] => none
  | c :: cs => if p c then some ([c], cs) else none

/-- A given text. -/
def exactly : List Char → Reader
  | [], cs => some ([], cs)
  | _ :: _, [] => none
  | w :: ws, c :: cs => if w = c then (exactly ws cs).map fun (x, rest) => (c :: x, rest) else none

/-- The longest run of characters of a class, possibly empty. -/
def run (p : Char → Bool) : Reader := fun cs =>
  some (cs.takeWhile p, cs.dropWhile p)

/-- The longest run of characters of a class, not empty. -/
def run1 (p : Char → Bool) : Reader := fun cs =>
  match cs.takeWhile p with
  | [] => none
  | x => some (x, cs.dropWhile p)

/-- At most `n` characters of a class, at least one. -/
def atMost (p : Char → Bool) (n : Nat) : Reader := fun cs =>
  match (cs.take n).takeWhile p with
  | [] => none
  | x => some (x, cs.drop x.length)

end Reader

open Reader

def isHexDigit (c : Char) : Bool :=
  c.isDigit || ('a' ≤ c && c ≤ 'f') || ('A' ≤ c && c ≤ 'F')

def isLineEnd (c : Char) : Bool :=
  c = '\n' || c = '\r' || c.toNat = 0x2028 || c.toNat = 0x2029

/-- Characters that a lexeme may contain: all but the null character, which belongs to no lexeme. -/
def isText (c : Char) : Bool := c != '\x00'

/-- Characters of a comment that ends with its line. -/
def isLineText (c : Char) : Bool := !isLineEnd c && isText c

/-- ASCII characters that no identifier contains, the digits and the backslash apart. -/
def isMark (c : Char) : Bool :=
  ":;`\"'@#.,|^&<=>+-*/\\%?!~()[]\x7b\x7d".toList.contains c

/-- Characters inside an identifier. Everything is one that is neither a control, nor blank, nor a mark:
letters of all scripts, but also currency signs and pictures. -/
def isWordChar (c : Char) : Bool :=
  0x20 ≤ c.toNat && !isSourceBlank c && !isMark c

/-- Characters at the start of an identifier. -/
def isWordStart (c : Char) : Bool :=
  isWordChar c && !c.isDigit

/-- A character written by its code point, in four digits or in braces. -/
def codePointEscape : Reader :=
  orElse
    (andThen (exactly "\\u\x7b".toList) (andThen (run1 isHexDigit) (exactly "\x7d".toList)))
    (andThen (exactly "\\u".toList)
      (andThen (char isHexDigit) (andThen (char isHexDigit)
        (andThen (char isHexDigit) (char isHexDigit)))))

/-- An identifier or a keyword. -/
def word : Reader :=
  andThen (orElse (char isWordStart) codePointEscape)
    (fun cs => some (many (orElse (run1 isWordChar) codePointEscape) cs))

/-- A name that is private to its class. -/
def privateName : Reader :=
  andThen (char (· = '#')) word

/-- Digits with single underscores between them. -/
def digits (p : Char → Bool) : Reader :=
  andThen (char p)
    (fun cs => some (many (orElse (char p) (andThen (char (· = '_')) (char p))) cs))

def isOctalDigit (c : Char) : Bool := '0' ≤ c && c ≤ '7'

def isBinaryDigit (c : Char) : Bool := c = '0' || c = '1'

/-- An exponent of a decimal number. -/
def exponent : Reader :=
  andThen (char fun c => c = 'e' || c = 'E')
    (andThen (optional (char fun c => c = '+' || c = '-')) (digits Char.isDigit))

/-- Digits that can be the whole part of a fraction: a zero in front stands alone or before a digit other
than zero. -/
def isWholePart : List Char → Bool
  | [] => false
  | '0' :: [] => true
  | '0' :: c :: _ => c.isDigit && c != '0'
  | _ => true

/-- A number in another base, after its mark. -/
def basedNumber (mark : Char) (p : Char → Bool) : Reader :=
  andThen (char (· = '0'))
    (andThen (char fun c => c = mark || c = mark.toUpper)
      (andThen (digits p) (optional (char (· = 'n')))))

/-- A number that starts with a digit of its whole part. -/
def wholeNumber : Reader := fun cs =>
  (digits Char.isDigit cs).bind fun (x, rest) =>
    let tail : Reader :=
      if isWholePart x then
        orElse (andThen (char (· = '.'))
            (andThen (optional (digits Char.isDigit)) (optional exponent)))
          (orElse exponent (optional (char (· = 'n'))))
      else optional (char (· = 'n'))
    (tail rest).map fun (y, rest') => (x ++ y, rest')

/-- A number literal. -/
def number : Reader :=
  orElse (basedNumber 'x' isHexDigit)
    (orElse (basedNumber 'b' isBinaryDigit)
      (orElse (basedNumber 'o' isOctalDigit)
        (orElse wholeNumber
          (andThen (char (· = '.')) (andThen (digits Char.isDigit) (optional exponent))))))

/-- An escape in a string or a template. -/
def escape : Reader :=
  orElse codePointEscape
    (andThen (char (· = '\\'))
      (orElse (andThen (char (· = 'x')) (andThen (char isHexDigit) (char isHexDigit)))
        (orElse (atMost isOctalDigit 3)
          (orElse (andThen (char fun c => c = '\r' || c = '?') (char (· = '\n')))
            (char fun c => c != 'x' && c != 'u' && isText c)))))

/-- A string literal with the given quote. -/
def quotedBy (quote : Char) : Reader :=
  andThen (char (· = quote))
    (andThen
      (fun cs => some (many (orElse
        (run1 fun c => c != quote && c != '\\' && c != '\n' && c != '\r' && isText c) escape) cs))
      (char (· = quote)))

/-- A string literal. -/
def quoted : Reader :=
  orElse (quotedBy '"') (quotedBy '\x27')

/-- A class of characters in a regular expression. -/
def regexClass : Reader :=
  andThen (char (· = '['))
    (andThen
      (fun cs => some (many (orElse (run1 fun c => c != ']' && c != '\n' && c != '\\' && isText c)
        (andThen (char (· = '\\')) (char fun c => c != '\n' && isText c))) cs))
      (char (· = ']')))

/-- A regular expression literal with its flags. -/
def regex : Reader :=
  andThen (char (· = '/'))
    (andThen
      (some1 (orElse regexClass
        (orElse (andThen (char (· = '\\')) (char fun c => c != '\n' && isText c))
          (char fun c => c != '/' && c != '\\' && c != '[' && c != '\n' && isText c))))
      (andThen (char (· = '/')) (run fun c => 'a' ≤ c && c ≤ 'z')))

/-- Text of a template up to a substitution, an escape or the end. -/
def templateText : Reader :=
  some1 fun
    | '$' :: '\x7b' :: _ => none
    | c :: cs => if c = '\x60' || c = '\\' || !isText c then none else some ([c], cs)
    | [] => none

/-- Text between the tags of a markup element. -/
def markupText : Reader :=
  run1 fun c => !("<>\x7b\x7d&".toList.contains c) && isText c

/-- A character written by name or number in markup. -/
def markupEntity : Reader :=
  andThen (char (· = '&'))
    (andThen
      (orElse (andThen (exactly "#x".toList) (atMost isHexDigit 6))
        (orElse (andThen (exactly "#X".toList) (atMost isHexDigit 6))
          (orElse (andThen (char (· = '#')) (atMost Char.isDigit 5)) (atMost Char.isAlpha 30))))
      (char (· = ';')))

/-- A name of a markup element or attribute that contains a hyphen. -/
def hyphenName : Reader :=
  andThen (char fun c => c.isAlpha || c = '_' || c = '$')
    (andThen (run fun c => c.isAlphanum || c = '_' || c = '$')
      (andThen (char (· = '-')) (run fun c => c.isAlphanum || c = '_' || c = '$' || c = '-')))

/-- A string in markup with the given quote. Lines may end in it, and an ampersand before a letter or a number
sign starts an entity. -/
def markupStringBy (quote : Char) : Reader :=
  let piece := orElse (run1 fun c => c != quote && c != '&' && isText c)
    (orElse markupEntity (andThen (char (· = '&')) (char fun c => c != '#' && !c.isAlpha && isText c)))
  andThen (char (· = quote)) (andThen (fun cs => some (many piece cs)) (char (· = quote)))

/-- A string in markup. -/
def markupString : Reader :=
  orElse (markupStringBy '"') (markupStringBy '\x27')

/-- A block comment after its opening: everything up to the first `*/`. -/
def blockTail : Reader
  | [] => none
  | '*' :: '/' :: cs => some (['*', '/'], cs)
  | c :: cs => if isText c then (blockTail cs).map fun (x, rest) => (c :: x, rest) else none

/-- A comment. A block comment that is not closed is none. -/
def comment : Reader
  | '/' :: '/' :: cs => (run isLineText cs).map fun (x, rest) => ('/' :: '/' :: x, rest)
  | '/' :: '*' :: cs => (blockTail cs).map fun (x, rest) => ('/' :: '*' :: x, rest)
  | _ => none

/-- A comment in the manner of markup, from its arrow to the end of the line. -/
def arrowComment : Reader :=
  andThen (orElse (exactly "<!--".toList) (exactly "-->".toList)) (run isLineText)

/-- The first line of a script. -/
def scriptLine : Reader :=
  andThen (exactly "#!".toList) (run fun c => c != '\n' && isText c)

/-- Operators and marks of more than one character that an expression may contain, longest first. -/
def operators : List (List Char) :=
  [">>>=", "...", "===", "!==", "**=", "<<=", ">>=", ">>>", "&&=", "||=", "??=", "=>", "==", "!=", "<=",
    ">=", "&&", "||", "??", "?.", "++", "--", "+=", "-=", "*=", "/=", "%=", "&=", "|=", "^=", "**", "<<",
    ">>"].map String.toList

/-- The longest operator at the start of a text, or its first character. A question mark before a fraction
stands alone. -/
def operator : Reader := fun cs =>
  match cs with
  | '?' :: '.' :: c :: _ => if c.isDigit then some (['?'], cs.drop 1) else exactly ['?', '.'] cs
  | _ =>
    match operators.find? (·.isPrefixOf cs) with
    | some op => exactly op cs
    | none => char (fun _ => true) cs

end SignatureDocs.Grammar
