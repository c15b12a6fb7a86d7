import SignatureDocs.Number.Shortest
import SignatureDocs.Text.Quoted

/-!
Values of settings as they are written in files and in the environment, before it is known which are wanted.
-/
namespace SignatureDocs

open SignatureDocs.Text

/-- A value. Whole numbers are kept apart by where they are written: files have signed ones, the environment
has unsigned ones unless there is a minus sign. -/
inductive Value where
  | text (s : String)
  | char (c : Char)
  | bool (b : Bool)
  | unsigned (n : Nat)
  | signed (n : Int)
  | float (x : Binary64)
  | array (items : List Value)
  | table (fields : List (String × Value))
deriving Repr

/-- Puts something under a key, in the order of the keys; it replaces what was there. -/
def putKey {α : Type} (key : String) (a : α) : List (String × α) → List (String × α)
  | [] => [(key, a)]
  | (k, b) :: rest =>
    if key < k then (key, a) :: (k, b) :: rest
    else if key = k then (key, a) :: rest
    else (k, b) :: putKey key a rest

/-- Pairs in the order of their keys. The last pair of a key counts. -/
def sortKeys {α : Type} (fields : List (String × α)) : List (String × α) :=
  fields.foldl (fun acc (k, a) => putKey k a acc) []

namespace Value

/-- A table of pairs. -/
def ofPairs (fields : List (String × Value)) : Value := table (sortKeys fields)

/-- How a message names a value. -/
def describe : Value → String
  | text s => "string " ++ quote s
  | char c => "string " ++ quote (String.ofList [c])
  | bool b => "bool " ++ toString b
  | unsigned n => "unsigned int `" ++ toString n ++ "`"
  | signed n => "signed int `" ++ toString n ++ "`"
  | float x => "float `" ++ x.text ++ "`"
  | array _ => "sequence"
  | table _ => "map"

end Value

end SignatureDocs
