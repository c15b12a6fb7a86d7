import SignatureDocs.Text.Blank
import SignatureDocs.Toml.Lexeme

/-!
Values in the environment. A value may be a truth value, a number, a string in quotes, a character in
apostrophes, a list in brackets or a table in braces; what is none of these is taken as it stands.
-/
namespace SignatureDocs.EnvValue

open SignatureDocs.Text

/-- A reader of something at the start of a text. -/
abbrev Reader (α : Type) := List Char → Option (α × List Char)

/-- Blanks between the parts of a value. -/
def isGap (c : Char) : Bool := c = ' ' || c = '\t' || c = '\n' || c = '\x0c' || c = '\r'

def skipGap (cs : List Char) : List Char := cs.dropWhile isGap

/-- Characters that end a word. -/
def isSeparator (c : Char) : Bool := c = ',' || c = '\x7b' || c = '\x7d' || c = '[' || c = ']'

/-- A whole number without a minus sign, if it has at most 64 bits. -/
def unsigned? (cs : List Char) : Option Nat :=
  let ds := match cs with
    | '+' :: rest => rest
    | _ => cs
  if ds.isEmpty || !ds.all Char.isDigit then none
  else
    let n := Binary64.digitsValue ds
    if n < Nat.pow 2 64 then some n else none

/-- A whole number with a sign, if it has at most 64 bits. -/
def signed? (cs : List Char) : Option Int :=
  let (negative, ds) := Binary64.takeSign cs
  if ds.isEmpty || !ds.all Char.isDigit then none
  else
    let n := Binary64.signedValue negative ds
    if Toml.inRange n then some n else none

/-- The value of a word: a number with a point, a whole number or text. -/
def word (cs : List Char) : Value :=
  match (if cs.contains '.' then Binary64.read? cs else none) with
  | some x => .float x
  | none =>
    match unsigned? cs with
    | some n => .unsigned n
    | none =>
      match signed? cs with
      | some n => .signed n
      | none => .text (String.ofList cs)

/-- Items up to a closing mark, with commas between them; a comma may stand after the last one. -/
def collect {α : Type} (close : Char) (item : Reader α) : List Char → Reader (List α)
  | [], _ => none
  | _ :: budget, cs =>
    if cs.head? = some close then some ([], cs.tail)
    else
      match item cs with
      | none => none
      | some (a, rest) =>
        match rest with
        | ',' :: rest' => (collect close item budget rest').map fun (as, rest'') => (a :: as, rest'')
        | c :: rest' => if c = close then some ([a], rest') else none
        | [] => none

/-- A key of a table. -/
def key : Reader String
  | '"' :: cs => (Toml.basicTail ('"' :: cs) cs).map fun (s, rest) => (String.ofList s, rest)
  | cs =>
    match cs.takeWhile Toml.isBareKey with
    | [] => none
    | k => some (String.ofList k, cs.drop k.length)

/-- A key and its value. -/
def pair (value : Reader Value) : Reader (String × Value) := fun cs =>
  match key (skipGap cs) with
  | none => none
  | some (k, rest) =>
    match skipGap rest with
    | '=' :: rest' => (value rest').map fun (v, rest'') => ((k, v), rest'')
    | _ => none

/-- A value that starts after the blanks, with tables and lists in it at most so deep. -/
def core : Nat → Reader Value
  | 0 => fun _ => none
  | depth + 1 => fun cs =>
    let inner : Reader Value := fun cs =>
      (core depth (skipGap cs)).map fun (v, rest) => (v, skipGap rest)
    if "true".toList.isPrefixOf cs then some (.bool true, cs.drop 4)
    else if "false".toList.isPrefixOf cs then some (.bool false, cs.drop 5)
    else
      match cs with
      | '\x7b' :: rest =>
        (collect '\x7d' (pair inner) cs rest).map fun (ps, rest') => (.ofPairs ps, rest')
      | '[' :: rest => (collect ']' inner cs rest).map fun (vs, rest') => (.array vs, rest')
      | '"' :: rest =>
        (Toml.basicTail cs rest).map fun (s, rest') => (.text (String.ofList s), rest')
      | '\x27' :: rest =>
        match rest with
        | c :: '\x27' :: rest' => some (.char c, rest')
        | _ => none
      | _ => some (word (trim (cs.takeWhile (!isSeparator ·))), cs.dropWhile (!isSeparator ·))

/-- The value of a text. A text that is not wholly a value stands for itself. -/
def parse (cs : List Char) : Value :=
  match core (cs.length + 1) (skipGap cs) with
  | some (v, rest) => if (skipGap rest).isEmpty then v else .text (String.ofList cs)
  | none => .text (String.ofList cs)

end SignatureDocs.EnvValue
