import SignatureDocs.Grammar.Lexeme
import SignatureDocs.Text.Offset

/-!
A cursor stands between two lexemes of a text. It keeps the text right after the last lexeme and the text at
the next one, with their offsets; in between are blanks and comments. The end of a line can stand for a
missing semicolon, and `Cursor.lineEnd?` says where.
-/
namespace SignatureDocs.Grammar

open SignatureDocs.Text

/-- A text with the offset at which it starts. -/
structure Located where
  text : List Char
  offset : Nat
deriving DecidableEq, Repr

namespace Located

/-- Skips one lexeme, if the reader finds it here. -/
def skip? (l : Located) (r : Reader) : Option Located :=
  (r l.text).map fun (x, rest) => ⟨rest, l.offset + byteLength x⟩

/-- Skips one run of blanks or one comment. -/
def skipGap? (l : Located) : Option Located :=
  l.skip? (Reader.orElse (Reader.run1 isSourceBlank) comment)

/-- Skips blanks and comments, at most as many pieces as the list is long. -/
def skipGaps : List Char → Located → Located
  | [], l => l
  | _ :: budget, l =>
    match l.skipGap? with
    | none => l
    | some l' => skipGaps budget l'

/-- Skips the blanks and comments before the next lexeme. -/
def next (l : Located) : Located :=
  skipGaps l.text l

end Located

/-- A place between two lexemes: `last` is the text right after the one before, `next` the text at the one
that follows. -/
structure Cursor where
  last : Located
  next : Located
deriving DecidableEq, Repr

namespace Cursor

/-- The cursor after a lexeme. -/
def after (l : Located) : Cursor := ⟨l, l.next⟩

/-- The cursor before the first lexeme of a text. -/
def start (cs : List Char) : Cursor := after ⟨cs, 0⟩

/-- Reads a lexeme that blanks and comments may precede. -/
def read? (c : Cursor) (r : Reader) : Option Cursor :=
  (c.next.skip? r).map after

/-- Reads a lexeme that follows the last one directly. -/
def readHere? (c : Cursor) (r : Reader) : Option Cursor :=
  (c.last.skip? r).map after

end Cursor

/-- A comment as the rule for line ends sees it: a line comment ends at a line feed, a block comment that is
not closed at the end of the text. -/
def looseComment : Reader
  | '/' :: '/' :: cs => (Reader.run (· != '\n') cs).map fun (x, rest) => ('/' :: '/' :: x, rest)
  | '/' :: '*' :: cs => some (((blockTail cs).map fun (x, rest) => ('/' :: '*' :: x, rest)).getD
      ('/' :: '*' :: cs, []))
  | _ => none

/-- The text after ASCII blanks and comments. -/
def dropLooseGaps (cs : List Char) : List Char :=
  (Reader.many (Reader.orElse (Reader.run1 isAsciiBlank) looseComment) cs).2

/-- `in` or `instanceof`, the operators that are words. The word counts where a letter does not follow, and
so does an identifier that continues `in` by another character. -/
def startsWordOperator : List Char → Bool
  | 'i' :: 'n' :: cs =>
    match cs with
    | [] => true
    | c :: _ =>
      if c.isAlpha then
        "stanceof".toList.isPrefixOf cs && !((cs.drop 8).head?.any Char.isAlpha)
      else true
  | _ => false

/-- May a text that starts a line stand after a semicolon that is not written? Not if it continues what came
before. A bracket continues an expression (`binary`), but not a type or the name of a member. -/
def startsAfresh (binary : Bool) : List Char → Bool
  | [] => true
  | '+' :: cs => cs.head? = some '+'
  | '-' :: cs => cs.head? = some '-'
  | '!' :: cs => cs.head? != some '='
  | c :: cs =>
    if "`,.;*%><=?^|&/:".toList.contains c then false
    else if c = '(' || c = '[' then !binary
    else !startsWordOperator (c :: cs)

/-- Does a semicolon that is not written stand right here? It does at the end of the text, before a closing
brace, and at the end of a line before text that starts afresh. A brace with a colon after it closes a pattern
and no statement, except after an expression. -/
def endsHere (binary : Bool) (cs : List Char) : Bool :=
  match cs.dropWhile fun c => isAsciiBlank c && c != '\n' with
  | [] => true
  | '\x00' :: _ => true
  | '\x7d' :: rest => binary || (rest.dropWhile isAsciiBlank).head? != some ':'
  | '\n' :: rest => startsAfresh binary (dropLooseGaps rest)
  | _ => false

/-- The first place, here or after one of the comments before the next lexeme, at which a semicolon that is
not written stands. Each comment has a character, so the text bounds their number. -/
def Located.lineEnd? (binary : Bool) : List Char → Located → Option Located
  | [], l => if endsHere binary l.text then some l else none
  | _ :: budget, l =>
    if endsHere binary l.text then some l
    else
      let l' := (l.skip? (Reader.run1 isSourceBlank)).getD l
      (l'.skip? comment).bind (lineEnd? binary budget)

/-- Where a semicolon that is not written stands before the next lexeme. -/
def Cursor.lineEnd? (c : Cursor) (binary : Bool) : Option Located :=
  Located.lineEnd? binary c.last.text c.last

end SignatureDocs.Grammar
