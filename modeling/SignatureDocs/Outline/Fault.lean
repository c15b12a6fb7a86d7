import SignatureDocs.Grammar.TypeScript
import SignatureDocs.Outline.OfTree

/-!
Reading the outline of a file, and what is wrong with a file that cannot be read. The fault is told at the
farthest lexeme that reading came to: as a lexeme too many if the file is right without it, else as a lexeme
that is missing if reading gets past the place with it.
-/
namespace SignatureDocs

open SignatureDocs.Text SignatureDocs.Grammar

/-- What is wrong at one place of a file. -/
inductive Flaw where
  | unexpected (text : List Char)
  | missing (text : List Char)
deriving DecidableEq, Repr

/-- The longest part of a file that a message quotes. -/
def quotedLength : Nat := 40

/-- The words for a flaw. -/
def Flaw.message : Flaw → String
  | unexpected text => "unexpected `" ++ String.ofList (trim (text.take quotedLength)) ++ "`"
  | missing text => "missing `" ++ String.ofList text ++ "`"

/-- The name of a dialect. -/
def Grammar.Dialect.label : Dialect → String
  | .typeScript => "TypeScript"
  | .tsx => "TSX"

/-- A file that cannot be read: its dialect, the place and the flaw. -/
structure ParseFault where
  dialect : Dialect
  place : Place
  flaw : Flaw
deriving DecidableEq, Repr

def ParseFault.message (f : ParseFault) : String :=
  "Parse failed for " ++ f.dialect.label ++ " at line " ++ toString f.place.line ++ ", column " ++
    toString f.place.column ++ ": " ++ f.flaw.message

namespace Flaw

/-- Any lexeme at the start of a text. -/
def anyLexeme : Reader :=
  Reader.orElse word (Reader.orElse number (Reader.orElse quoted operator))

/-- Is a text read to its end? -/
def isWhole (d : Dialect) (cs : List Char) : Bool :=
  match readFile d cs with
  | .accepted _ _ _ => true
  | _ => false

/-- Does reading get past an offset? -/
def passes (d : Dialect) (cs : List Char) (offset : Nat) : Bool :=
  match readFile d cs with
  | .accepted _ _ _ => true
  | .refused reach => offset < reach.next
  | .exhausted => false

/-- Lexemes that can be missing, in the order in which they are tried. The no-break space keeps an end of line
from standing before a brace, so that a brace is missing only where nothing else is. -/
def candidates : List (List Char × List Char) :=
  [(",", ","), (";", ";"), ("\x7d", "\xa0\x7d"), (")", ")"), ("]", "]"), (">", ">")].map
    fun (shown, inserted) => (shown.toList, inserted.toList)

/-- The lexeme that ends where `before` does, with its start. -/
def lastLexeme? (before rest : List Char) : Option (List Char × List Char) :=
  (List.range before.length).findSome? fun n =>
    match anyLexeme (before.drop n ++ rest) with
    | some (x, tail) => if tail.length = rest.length then some (before.take n, x) else none
    | none => none

/-- The flaw of a text at which reading came no farther than `reach`, with its offset. -/
def find (d : Dialect) (cs : List Char) (reach : Reach) : Flaw × Nat :=
  let start := (takeBytes? cs reach.last).getD cs
  let tail := (dropBytes? cs reach.last).getD []
  let before := (takeBytes? cs reach.next).getD cs
  let rest := (dropBytes? cs reach.next).getD []
  let added := candidates.find? fun (_, t) =>
    passes d (start ++ t ++ tail) (reach.next + byteLength t)
  match anyLexeme rest, added with
  | none, some (t, _) => (missing t, reach.last)
  | none, none => (missing "\x7d".toList, reach.last)
  | some (lexeme, rest'), _ =>
    if isWhole d (before ++ rest') then (unexpected lexeme, reach.next)
    else
      match added, lastLexeme? start tail with
      | some (t, _), _ => (missing t, reach.last)
      | none, none => (unexpected lexeme, reach.next)
      | none, some (front, x) =>
        if isWhole d (front ++ tail) then (unexpected x, byteLength front)
        else (unexpected lexeme, reach.next)

end Flaw

/-- The fault of a text that is not read to its end. -/
def ParseFault.find (d : Dialect) (cs : List Char) (reach : Reach) : ParseFault :=
  let (flaw, offset) := Flaw.find d cs reach
  ⟨d, placeOf cs offset, flaw⟩

/-- The outline of a file in a dialect. -/
def Outline.read (d : Dialect) (source : List Char) : Except ParseFault Outline :=
  match readFile d source with
  | .accepted trees _ _ => .ok (outlineOf source trees)
  | .refused reach => .error (.find d source reach)
  | .exhausted => .error (.find d source .zero)

end SignatureDocs
