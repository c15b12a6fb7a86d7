import SignatureDocs.Number.Binary64
import SignatureDocs.Settings.Value
import SignatureDocs.Text.Hex

/-!
The pieces of a TOML file: blanks, comments, strings, keys, numbers and dates. A reader takes the text that is
left and gives what it read with what follows, or nothing if the text is wrong.
-/
namespace SignatureDocs.Toml

open SignatureDocs.Text

/-- A reader of something at the start of a text. -/
abbrev Reader (α : Type) := List Char → Option (α × List Char)

/-- Blanks inside a line. -/
def isBlank (c : Char) : Bool := c = ' ' || c = '\t'

def skipBlanks (cs : List Char) : List Char := cs.dropWhile isBlank

/-- Characters that may stand in a comment or a string: no controls but the tab. -/
def isPlain (c : Char) : Bool := c = '\t' || (' ' ≤ c && c.toNat != 0x7F)

/-- The end of a line. -/
def lineEnd? : List Char → Option (List Char)
  | '\n' :: cs => some cs
  | '\r' :: '\n' :: cs => some cs
  | _ => none

/-- Skips a comment if there is one. -/
def skipComment : List Char → List Char
  | '#' :: cs => cs.dropWhile isPlain
  | cs => cs

/-- The rest of a line after something: blanks and a comment. -/
def lineTail? (cs : List Char) : Option (List Char) :=
  match skipComment (skipBlanks cs) with
  | [] => some []
  | cs => lineEnd? cs

/-- Skips blanks, comments and ends of lines, at most as many of them as the first list is long. -/
def skipGapUpTo : List Char → List Char → List Char
  | [], cs => cs
  | _ :: budget, cs =>
    let cs := skipComment (skipBlanks cs)
    match lineEnd? cs with
    | some rest => skipGapUpTo budget rest
    | none => cs

/-- Skips blanks, comments and ends of lines. -/
def skipGap (cs : List Char) : List Char := skipGapUpTo (' ' :: cs) cs

/-- The character of a code point in hexadecimal digits. -/
def codePoint? (digits : List Char) : Option Char :=
  (digits.mapM hexValue?).bind fun ds =>
    let n := ds.foldl (fun n d => 16 * n + d) 0
    if h : n.isValidChar then some (Char.ofNatAux n h) else none

/-- An escape, after its backslash. -/
def escape : Reader Char
  | 'b' :: cs => some ('\x08', cs)
  | 't' :: cs => some ('\t', cs)
  | 'n' :: cs => some ('\n', cs)
  | 'f' :: cs => some ('\x0c', cs)
  | 'r' :: cs => some ('\r', cs)
  | '"' :: cs => some ('"', cs)
  | '\\' :: cs => some ('\\', cs)
  | 'u' :: cs => if cs.length < 4 then none else (codePoint? (cs.take 4)).map fun c => (c, cs.drop 4)
  | 'U' :: cs => if cs.length < 8 then none else (codePoint? (cs.take 8)).map fun c => (c, cs.drop 8)
  | _ => none

/-- A string in double quotes, after the first quote. The first list bounds the number of steps. -/
def basicTail : List Char → Reader (List Char)
  | [], _ => none
  | _ :: _, [] => none
  | _ :: budget, c :: cs =>
    if c = '"' then some ([], cs)
    else if c = '\\' then
      match escape cs with
      | none => none
      | some (d, rest) => (basicTail budget rest).map fun (s, rest') => (d :: s, rest')
    else if isPlain c then (basicTail budget cs).map fun (s, rest) => (c :: s, rest)
    else none

/-- A string in single quotes, after the first quote. -/
def literalTail (cs : List Char) : Option (List Char × List Char) :=
  let body := cs.takeWhile fun c => isPlain c && c != '\x27'
  match cs.drop body.length with
  | '\x27' :: rest => some (body, rest)
  | _ => none

/-- The blanks and line ends that a backslash at the end of a line joins. -/
def skipJoined : List Char → List Char → List Char
  | [], cs => cs
  | _ :: budget, cs =>
    match lineEnd? (skipBlanks cs) with
    | some rest => skipJoined budget rest
    | none => skipBlanks cs

/-- A string of several lines, after its opening. A run of quotes in it closes it if it has three to five
quotes, of which the last three are the end. Escapes are read if `escapes` says so. -/
def linesTail (quote : Char) (escapes : Bool) : List Char → Reader (List Char)
  | [], _ => none
  | _ :: _, [] => none
  | _ :: budget, c :: cs =>
    if c = quote then
      let run := (c :: cs).takeWhile (· = quote)
      let rest := (c :: cs).drop run.length
      if run.length < 3 then (linesTail quote escapes budget rest).map fun (s, rest') => (run ++ s, rest')
      else if run.length ≤ 5 then some (run.drop 3, rest)
      else none
    else if c = '\\' && escapes then
      match lineEnd? (skipBlanks cs) with
      | some rest => linesTail quote escapes budget (skipJoined (' ' :: rest) rest)
      | none =>
        match escape cs with
        | none => none
        | some (d, rest) => (linesTail quote escapes budget rest).map fun (s, rest') => (d :: s, rest')
    else if isPlain c then (linesTail quote escapes budget cs).map fun (s, rest) => (c :: s, rest)
    else
      match lineEnd? (c :: cs) with
      | some rest => (linesTail quote escapes budget rest).map fun (s, rest') => ('\n' :: s, rest')
      | none => none

/-- Skips the end of a line right after the opening of a string. -/
def skipFirstLineEnd (cs : List Char) : List Char := (lineEnd? cs).getD cs

/-- A string of one of the four kinds. -/
def string : Reader String := fun cs =>
  let read : Option (List Char × List Char) :=
    match cs with
    | '"' :: '"' :: '"' :: rest => linesTail '"' true cs (skipFirstLineEnd rest)
    | '\x27' :: '\x27' :: '\x27' :: rest => linesTail '\x27' false cs (skipFirstLineEnd rest)
    | '"' :: rest => basicTail cs rest
    | '\x27' :: rest => literalTail rest
    | _ => none
  read.map fun (s, rest) => (String.ofList s, rest)

/-- Characters of a key without quotes. -/
def isBareKey (c : Char) : Bool := c.isAlphanum || c = '_' || c = '-'

/-- One part of a key. -/
def keyPart : Reader String
  | '"' :: cs => (basicTail ('"' :: cs) cs).map fun (s, rest) => (String.ofList s, rest)
  | '\x27' :: cs => (literalTail cs).map fun (s, rest) => (String.ofList s, rest)
  | cs =>
    match cs.takeWhile isBareKey with
    | [] => none
    | k => some (String.ofList k, cs.drop k.length)

/-- The parts of a key between dots, each with blanks around it. -/
def keyParts : List Char → Reader (List String)
  | [], _ => none
  | _ :: budget, cs =>
    match keyPart (skipBlanks cs) with
    | none => none
    | some (k, rest) =>
      match skipBlanks rest with
      | '.' :: rest' => (keyParts budget rest').map fun (ks, rest'') => (k :: ks, rest'')
      | rest' => some ([k], rest')

/-- How deep values and keys may be nested. -/
def depthLimit : Nat := 80

/-- A key. -/
def key : Reader (List String) := fun cs =>
  match keyParts (' ' :: cs) cs with
  | some (ks, rest) => if ks.length < depthLimit then some (ks, rest) else none
  | none => none

/-- Digits of a base with single underscores between them, read from the left; `after` says whether the last
character was a digit. -/
def plainDigits? (isDigit : Char → Bool) : Bool → List Char → Option (List Char)
  | after, [] => if after then some [] else none
  | after, c :: cs =>
    if isDigit c then (plainDigits? isDigit true cs).map (c :: ·)
    else if c = '_' && after then plainDigits? isDigit false cs
    else none

/-- The digits of a whole number without needless zeros in front. -/
def wholeDigits? (cs : List Char) : Option (List Char) :=
  match cs with
  | '0' :: _ :: _ => none
  | _ => plainDigits? Char.isDigit false cs

/-- The whole numbers that can be written. -/
def inRange (n : Int) : Bool := -(Int.pow 2 63) ≤ n && n < Int.pow 2 63

/-- A whole number in another base. -/
def based? (base : Nat) (isDigit : Char → Bool) (cs : List Char) : Option Int :=
  (plainDigits? isDigit false cs).bind fun ds =>
    (ds.mapM hexValue?).bind fun vs =>
      let n := vs.foldl (fun n d => base * n + d) 0
      if inRange n then some n else none

/-- A whole number. -/
def integer? (cs : List Char) : Option Int :=
  match cs with
  | '0' :: 'x' :: ds => based? 16 (fun c => (hexValue? c).isSome) ds
  | '0' :: 'o' :: ds => based? 8 (fun c => '0' ≤ c && c ≤ '7') ds
  | '0' :: 'b' :: ds => based? 2 (fun c => c = '0' || c = '1') ds
  | _ =>
    let (negative, ds) := Binary64.takeSign cs
    (wholeDigits? ds).bind fun ds =>
      let n := Binary64.signedValue negative ds
      if inRange n then some n else none

/-- A number with a fraction or an exponent. One that is too large is refused, but not one that is too small. -/
def float? (cs : List Char) : Option Binary64 :=
  let (negative, rest) := Binary64.takeSign cs
  if rest = "inf".toList then some (.infinite negative)
  else if rest = "nan".toList then some .nan
  else
    let isMark := fun (c : Char) => c = 'e' || c = 'E'
    let mantissa := rest.takeWhile fun c => !isMark c
    let power := (rest.drop mantissa.length).drop 1
    let whole := mantissa.takeWhile (· != '.')
    let fraction := (mantissa.drop whole.length).drop 1
    let hasFraction := whole.length < mantissa.length
    let hasPower := mantissa.length < rest.length
    let (_, powerDigits) := Binary64.takeSign power
    let right :=
      (wholeDigits? whole).isSome &&
        (!hasFraction || (plainDigits? Char.isDigit false fraction).isSome) &&
        (!hasPower || (plainDigits? Char.isDigit false powerDigits).isSome) && (hasFraction || hasPower)
    if right then
      match Binary64.read? (cs.filter (· != '_')) with
      | some (.infinite false) => none
      | x => x
    else none

/-- Two digits with a value in a range. -/
def twoDigits? (least most : Nat) : List Char → Bool
  | [a, b] =>
    a.isDigit && b.isDigit &&
      let n := Binary64.digitsValue [a, b]
      least ≤ n && n ≤ most
  | _ => false

/-- The days of a month. -/
def daysOf (year month : Nat) : Nat :=
  if month = 2 then (if year % 4 = 0 && (year % 100 != 0 || year % 400 = 0) then 29 else 28)
  else if month = 4 || month = 6 || month = 9 || month = 11 then 30
  else 31

/-- A date: year, month and day. -/
def isDate : List Char → Bool
  | [a, b, c, d, '-', e, f, '-', g, h] =>
    [a, b, c, d].all Char.isDigit && twoDigits? 1 12 [e, f] &&
      twoDigits? 1 (daysOf (Binary64.digitsValue [a, b, c, d]) (Binary64.digitsValue [e, f])) [g, h]
  | _ => false

/-- A time of day and what follows it. -/
def time? : List Char → Option (List Char)
  | a :: b :: ':' :: c :: d :: ':' :: e :: f :: rest =>
    if twoDigits? 0 23 [a, b] && twoDigits? 0 59 [c, d] && twoDigits? 0 60 [e, f] then
      match rest with
      | '.' :: ds =>
        if (ds.takeWhile Char.isDigit).isEmpty then none else some (ds.dropWhile Char.isDigit)
      | _ => some rest
    else none
  | _ => none

/-- The distance of a clock from universal time. -/
def isOffset : List Char → Bool
  | [] => true
  | [z] => z = 'Z' || z = 'z'
  | [sign, a, b, ':', c, d] =>
    (sign = '+' || sign = '-') && twoDigits? 0 23 [a, b] && twoDigits? 0 59 [c, d]
  | _ => false

/-- A date, a time or both. -/
def isMoment (cs : List Char) : Bool :=
  isDate cs || time? cs = some [] ||
    (isDate (cs.take 10) &&
      match cs.drop 10 with
      | sep :: rest => (sep = 'T' || sep = 't' || sep = ' ') && (time? rest).any isOffset
      | [] => false)

/-- Characters of numbers, dates and words. -/
def isScalarChar (c : Char) : Bool :=
  c.isAlphanum || c = '_' || c = '+' || c = '-' || c = '.' || c = ':'

/-- The characters of a number, a date or a word. A blank between a date and a time belongs to them. -/
def scalarText (cs : List Char) : List Char × List Char :=
  let run := cs.takeWhile isScalarChar
  let rest := cs.drop run.length
  match rest with
  | ' ' :: more =>
    let next := more.takeWhile isScalarChar
    if isDate run && (next.drop 2).head? = some ':' then (run ++ ' ' :: next, more.drop next.length)
    else (run, rest)
  | _ => (run, rest)

/-- The name under which the text of a date is kept. -/
def momentKey : String := "$__toml_private_datetime"

/-- A number, a date or a word. -/
def scalar? (cs : List Char) : Option Value :=
  if cs = "true".toList then some (.bool true)
  else if cs = "false".toList then some (.bool false)
  else
    match integer? cs with
    | some n => some (.signed n)
    | none =>
      match float? cs with
      | some x => some (.float x)
      | none => if isMoment cs then some (.table [(momentKey, .text (String.ofList cs))]) else none

end SignatureDocs.Toml
