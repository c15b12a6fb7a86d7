import SignatureDocs.Grammar.Lexeme
import SignatureDocs.Outline.Basic

/-!
The comment of a member: all comments in the text before it, in order, one to a line.
-/
namespace SignatureDocs

open SignatureDocs.Text SignatureDocs.Grammar

/-- A block comment after its opening: everything up to the first `*/`, whatever characters it has. -/
def blockEnd : Reader
  | [] => none
  | '*' :: '/' :: cs => some (['*', '/'], cs)
  | c :: cs => (blockEnd cs).map fun (x, rest) => (c :: x, rest)

/-- A comment in the text before a member. A line comment ends with its line, a block comment that is not
closed with the text. -/
def triviaComment : Reader
  | '/' :: '/' :: cs =>
    (Reader.run (fun c => c != '\n' && c != '\r') cs).map fun (x, rest) => ('/' :: '/' :: x, rest)
  | '/' :: '*' :: cs =>
    match blockEnd cs with
    | some (x, rest) => some ('/' :: '*' :: x, rest)
    | none => some ('/' :: '*' :: cs, [])
  | _ => none

/-- The spans of the comments at the start of a text that begins at the given offset, up to the first character
that is neither blank nor in a comment. Each comment takes a character at least, so as many steps suffice as the
budget is long. -/
def commentSpansFrom : (budget : List Char) → (offset : Nat) → List Char → List Span
  | [], _, _ => []
  | _ :: budget, offset, cs =>
    match triviaComment (cs.dropWhile isBlank) with
    | none => []
    | some (x, rest) =>
      let start := offset + byteLength (cs.takeWhile isBlank)
      let stop := start + byteLength x
      ⟨start, stop⟩ :: commentSpansFrom budget stop rest

/-- The spans of the comments at the start of a text. -/
def commentSpans (cs : List Char) : List Span := commentSpansFrom cs 0 cs

/-- The comment that a text before a member carries. -/
def commentText (trivia : List Char) : List Char :=
  trim (List.intercalate ['\n'] ((commentSpans trivia).map (slice trivia)))

/-- The comment of the member whose trivia has the given span. -/
def leadingComment (source : List Char) (trivia : Span) : String :=
  String.ofList (commentText (slice source trivia))

end SignatureDocs
