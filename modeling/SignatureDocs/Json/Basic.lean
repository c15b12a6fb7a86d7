import SignatureDocs.Text.Quoted

/-!
JSON values and their two layouts: on one line, and with one item a line.
-/
namespace SignatureDocs

open SignatureDocs.Text

/-- A JSON value. A string has no text if its escapes or its bytes spell none; so may the name of a field. -/
inductive Json where
  | null
  | bool (b : Bool)
  /-- A number by its characters. -/
  | number (digits : List Char)
  | string (text : Option (List Char))
  | array (items : List Json)
  | object (fields : List (Option (List Char) × Json))
deriving Repr

namespace Json

/-- A string. -/
def ofString (s : String) : Json := string (some s.toList)

/-- A whole number. -/
def ofNat (n : Nat) : Json := number (Nat.toDigits 10 n)

/-- An object with named fields. -/
def record (fields : List (String × Json)) : Json :=
  object (fields.map fun (k, v) => (some k.toList, v))

/-- Two hexadecimal digits. -/
def hexPair (n : Nat) : List Char :=
  let ds := hexDigits n
  if ds.length < 2 then '0' :: ds else ds

/-- A character of a string. -/
def escapeChar (c : Char) : List Char :=
  if c = '"' then ['\\', '"']
  else if c = '\\' then ['\\', '\\']
  else if c = '\x08' then ['\\', 'b']
  else if c = '\t' then ['\\', 't']
  else if c = '\n' then ['\\', 'n']
  else if c = '\x0c' then ['\\', 'f']
  else if c = '\r' then ['\\', 'r']
  else if c < ' ' then ['\\', 'u', '0', '0'] ++ hexPair c.toNat
  else [c]

/-- A string between quotes. -/
def quoted (s : Option (List Char)) : List Char :=
  '"' :: (s.getD []).flatMap escapeChar ++ ['"']

/-- How a value is laid out. -/
inductive Layout where
  | compact
  | pretty
deriving DecidableEq, Repr

/-- The start of a line at a depth; nothing if all stands on one line. -/
def Layout.newLine (l : Layout) (depth : Nat) : List Char :=
  match l with
  | compact => []
  | pretty => '\n' :: List.replicate (2 * depth) ' '

/-- What stands between the name of a field and its value. -/
def Layout.colon : Layout → List Char
  | compact => [':']
  | pretty => [':', ' ']

mutual

/-- The text of a value at a depth. -/
def render (l : Layout) (depth : Nat) : Json → List Char
  | null => "null".toList
  | bool b => (toString b).toList
  | number digits => digits
  | string s => quoted s
  | array [] => "[]".toList
  | array (v :: vs) =>
    '[' :: l.newLine (depth + 1) ++ render l (depth + 1) v ++ renderItems l (depth + 1) vs ++
      l.newLine depth ++ [']']
  | object [] => "\x7b\x7d".toList
  | object ((k, v) :: fs) =>
    '\x7b' :: l.newLine (depth + 1) ++ quoted k ++ l.colon ++ render l (depth + 1) v ++
      renderFields l (depth + 1) fs ++ l.newLine depth ++ ['\x7d']

/-- The items after the first one. -/
def renderItems (l : Layout) (depth : Nat) : List Json → List Char
  | [] => []
  | v :: vs => ',' :: l.newLine depth ++ render l depth v ++ renderItems l depth vs

/-- The fields after the first one. -/
def renderFields (l : Layout) (depth : Nat) : List (Option (List Char) × Json) → List Char
  | [] => []
  | (k, v) :: fs =>
    ',' :: l.newLine depth ++ quoted k ++ l.colon ++ render l depth v ++ renderFields l depth fs

end

/-- The text of a value. -/
def text (l : Layout) (v : Json) : String := String.ofList (render l 0 v)

end Json

end SignatureDocs
