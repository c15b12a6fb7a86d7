import SignatureDocs.Grammar.Cursor

/-!
The lexemes that a rule can ask for. Which ones are looked for depends on the rule, so a word is a keyword
only where a rule asks for that keyword, and a slash starts a regular expression only where an operand is
expected.
-/
namespace SignatureDocs.Grammar

/-- A lexeme that a rule asks for. -/
inductive Token where
  /-- A mark that none of the given characters follows directly. -/
  | mark (text : List Char) (stops : List Char)
  /-- An operator of the list, and no longer one. -/
  | oneOf (operators : List (List Char))
  | keyword (text : List Char)
  /-- A word, apart from the given ones. -/
  | word (except : List (List Char))
  | privateName
  | number
  | quoted
  | regex
  | hyphenName
  | markupString
  | arrowComment
  | scriptLine
  /-- A mark directly after the last lexeme. -/
  | here (text : List Char)
  | templateText
  | escape
  | markupText
  | markupEntity
  /-- The end of a line in place of a semicolon; nothing is taken. -/
  | lineEnd (binary : Bool)
  /-- The contrary: no line end stands for a semicolon. -/
  | sameLine (binary : Bool)
  /-- The end of a line in place of a semicolon, together with the comments before it. -/
  | closing (binary : Bool)
  /-- The end of the text. -/
  | finish
deriving DecidableEq, Repr

namespace Token

/-- A reader that accepts only some of its lexemes. -/
def only (r : Reader) (p : List Char → Bool) : Reader := fun cs =>
  (r cs).filter fun (x, _) => p x

/-- A mark with a condition on the character after it. -/
def markReader (text stops : List Char) : Reader := fun cs =>
  (Reader.exactly text cs).filter fun (_, rest) => !(rest.head?.any stops.contains)

/-- Reads the lexeme at a cursor. -/
def read? (c : Cursor) : Token → Option Cursor
  | mark text stops => c.read? (markReader text stops)
  | oneOf ops => c.read? (only operator ops.contains)
  | keyword text => c.read? (only Grammar.word (· == text))
  | word except => c.read? (only Grammar.word fun w => !except.contains w)
  | privateName => c.read? Grammar.privateName
  | number => c.read? Grammar.number
  | quoted => c.read? Grammar.quoted
  | regex => c.read? Grammar.regex
  | hyphenName => c.read? Grammar.hyphenName
  | markupString => c.read? Grammar.markupString
  | arrowComment => c.read? Grammar.arrowComment
  | scriptLine => c.read? Grammar.scriptLine
  | here text => c.readHere? (Reader.exactly text)
  | templateText => c.readHere? Grammar.templateText
  | escape => c.readHere? Grammar.escape
  | markupText => c.readHere? Grammar.markupText
  | markupEntity => c.readHere? Grammar.markupEntity
  | lineEnd binary => (c.lineEnd? binary).map fun _ => c
  | sameLine binary => if (c.lineEnd? binary).isSome then none else some c
  | closing binary => (c.lineEnd? binary).map Cursor.after
  | finish => if c.next.text.isEmpty then some c else none

end Token

end SignatureDocs.Grammar
