import SignatureDocs.Json.Basic
import SignatureDocs.Text.Hex

/-!
Reading JSON. The text is that of a list of bytes, so that it may hold bytes that spell no character: these may
stand in strings, which then have no text, and nowhere else.
-/
namespace SignatureDocs.Json

open SignatureDocs.Text

/-- A text in which some bytes may spell no character. -/
abbrev Source := List (Option Char)

/-- A reader of something at the start of a text. -/
abbrev Reader (α : Type) := Source → Option (α × Source)

/-- Blanks between the parts of a value. -/
def isGap (c : Option Char) : Bool :=
  c = some ' ' || c = some '\n' || c = some '\t' || c = some '\r'

def skipGap (cs : Source) : Source := cs.dropWhile isGap

/-- A piece of a string: a character, a half of one written by its code, or bytes that spell none. -/
inductive Piece where
  | char (c : Char)
  | unit (n : Nat)
  | broken
deriving DecidableEq, Repr

/-- The first and the second halves of characters beyond the first 65536. -/
def isHighHalf (n : Nat) : Bool := 0xD800 ≤ n && n < 0xDC00

def isLowHalf (n : Nat) : Bool := 0xDC00 ≤ n && n < 0xE000

/-- The text that pieces spell. Two halves that belong together make one character, and a half alone makes
none. -/
def spell? : List Piece → Option (List Char)
  | [] => some []
  | .char c :: ps => (spell? ps).map (c :: ·)
  | .unit n :: ps =>
    if isHighHalf n then
      match ps with
      | .unit m :: ps' =>
        if isLowHalf m then
          (spell? ps').map (Char.ofNat (0x10000 + (n - 0xD800) * 0x400 + (m - 0xDC00)) :: ·)
        else none
      | _ => none
    else if isLowHalf n then none
    else (spell? ps).map (Char.ofNat n :: ·)
  | .broken :: _ => none

/-- The value of four hexadecimal digits. -/
def fourDigits? (cs : Source) : Option Nat :=
  if cs.length < 4 then none
  else
    ((cs.take 4).mapM fun (c : Option Char) => c.bind hexValue?).map fun ds => ds.foldl (fun n d => 16 * n + d) 0

/-- An escape after its backslash. -/
def escape : Reader Piece
  | some c :: cs =>
    match c with
    | '"' => some (.char '"', cs)
    | '\\' => some (.char '\\', cs)
    | '/' => some (.char '/', cs)
    | 'b' => some (.char '\x08', cs)
    | 'f' => some (.char '\x0c', cs)
    | 'n' => some (.char '\n', cs)
    | 'r' => some (.char '\r', cs)
    | 't' => some (.char '\t', cs)
    | 'u' => (fourDigits? cs).map fun n => (.unit n, cs.drop 4)
    | _ => none
  | _ => none

/-- A string after its first quote. The first list bounds the number of steps. -/
def stringTail : Source → Reader (List Piece)
  | [], _ => none
  | _ :: _, [] => none
  | _ :: budget, none :: cs => (stringTail budget cs).map fun (ps, rest) => (.broken :: ps, rest)
  | _ :: budget, some c :: cs =>
    if c = '"' then some ([], cs)
    else if c = '\\' then
      match escape cs with
      | none => none
      | some (p, rest) => (stringTail budget rest).map fun (ps, rest') => (p :: ps, rest')
    else if c < ' ' then none
    else (stringTail budget cs).map fun (ps, rest) => (.char c :: ps, rest)

/-- A string, with its text if it has one. -/
def stringToken : Reader (Option (List Char))
  | some '"' :: cs => (stringTail (none :: cs) cs).map fun (ps, rest) => (spell? ps, rest)
  | _ => none

/-- The digits at the start of a text. -/
def digitRun (cs : Source) : List Char :=
  (cs.takeWhile fun c => c.any Char.isDigit).map (·.getD '0')

/-- Digits of which there has to be at least one. -/
def someDigits (cs : Source) : Option (List Char × Source) :=
  match digitRun cs with
  | [] => none
  | ds => some (ds, cs.drop ds.length)

/-- The fraction of a number, if there is one. -/
def fraction (cs : Source) : Option (List Char × Source) :=
  match cs with
  | some '.' :: rest => (someDigits rest).map fun (ds, rest') => ('.' :: ds, rest')
  | _ => some ([], cs)

/-- The exponent of a number, if there is one. -/
def exponent (cs : Source) : Option (List Char × Source) :=
  match cs with
  | some c :: rest =>
    if c = 'e' || c = 'E' then
      match rest with
      | some '+' :: rest' => (someDigits rest').map fun (ds, r) => (c :: '+' :: ds, r)
      | some '-' :: rest' => (someDigits rest').map fun (ds, r) => (c :: '-' :: ds, r)
      | _ => (someDigits rest).map fun (ds, r) => (c :: ds, r)
    else some ([], cs)
  | _ => some ([], cs)

/-- A number without sign: a zero in front of its whole part stands alone. -/
def unsignedNumber (cs : Source) : Option (List Char × Source) := do
  let (whole, rest) ← someDigits cs
  if whole.head? = some '0' && whole.length != 1 then none
  else
    let (frac, rest) ← fraction rest
    let (power, rest) ← exponent rest
    return (whole ++ frac ++ power, rest)

/-- A number. -/
def numberToken : Reader (List Char)
  | some '-' :: cs => (unsignedNumber cs).map fun (ds, rest) => ('-' :: ds, rest)
  | cs => unsignedNumber cs

/-- Takes a word off a text. -/
def dropWord? (w : String) (cs : Source) : Option Source :=
  let pattern := w.toList.map some
  if pattern.isPrefixOf cs then some (cs.drop pattern.length) else none

/-- Items with commas between them, up to the closing mark. -/
def itemsTail {α : Type} (close : Char) (item : Reader α) : Source → Reader (List α)
  | [], _ => none
  | _ :: budget, cs =>
    match item (skipGap cs) with
    | none => none
    | some (a, rest) =>
      match skipGap rest with
      | some c :: rest' =>
        if c = close then some ([a], rest')
        else if c = ',' then (itemsTail close item budget rest').map fun (as, r) => (a :: as, r)
        else none
      | _ => none

/-- Items with commas between them after the opening mark, possibly none. -/
def itemList {α : Type} (close : Char) (item : Reader α) (cs : Source) : Option (List α × Source) :=
  match skipGap cs with
  | some c :: rest => if c = close then some ([], rest) else itemsTail close item (none :: cs) cs
  | _ => none

/-- A field of an object. -/
def fieldOf (value : Reader Json) : Reader (Option (List Char) × Json) := fun cs =>
  match stringToken cs with
  | none => none
  | some (k, rest) =>
    match skipGap rest with
    | some ':' :: rest' => (value (skipGap rest')).map fun (v, r) => ((k, v), r)
    | _ => none

/-- A value with others in it at most so deep. -/
def valueUpTo : Nat → Reader Json
  | 0 => fun _ => none
  | depth + 1 => fun cs =>
    match cs with
    | some '"' :: _ => (stringToken cs).map fun (s, rest) => (.string s, rest)
    | some '[' :: rest => (itemList ']' (valueUpTo depth) rest).map fun (vs, r) => (.array vs, r)
    | some '\x7b' :: rest =>
      (itemList '\x7d' (fieldOf (valueUpTo depth)) rest).map fun (fs, r) => (.object fs, r)
    | some 'n' :: _ => (dropWord? "null" cs).map fun rest => (.null, rest)
    | some 't' :: _ => (dropWord? "true" cs).map fun rest => (.bool true, rest)
    | some 'f' :: _ => (dropWord? "false" cs).map fun rest => (.bool false, rest)
    | _ => (numberToken cs).map fun (ds, rest) => (.number ds, rest)

/-- The value of a text, which holds nothing else but blanks. -/
def parse? (cs : Source) : Option Json :=
  match valueUpTo (cs.length + 1) (skipGap cs) with
  | some (v, rest) => if (skipGap rest).isEmpty then some v else none
  | none => none

end SignatureDocs.Json
