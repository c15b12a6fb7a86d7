import SignatureDocs.Text.Hex
import SignatureDocs.Text.Hidden

/-!
Strings between double quotes, as messages and log lines show them: quotes, backslashes and characters without
a form of their own are written as escapes.
-/
namespace SignatureDocs.Text

/-- A character between quotes. -/
def quoteChar (c : Char) : List Char :=
  if c = '"' then ['\\', '"']
  else if c = '\\' then ['\\', '\\']
  else if c = '\n' then ['\\', 'n']
  else if c = '\r' then ['\\', 'r']
  else if c = '\t' then ['\\', 't']
  else if c = '\x00' then ['\\', '0']
  else if isHidden c then "\\u\x7b".toList ++ hexDigits c.toNat ++ ['\x7d']
  else [c]

/-- A string between quotes. -/
def quote (s : String) : String :=
  String.ofList ('"' :: s.toList.flatMap quoteChar ++ ['"'])

/-- A list of strings between quotes and brackets. -/
def quoteList (l : List String) : String :=
  "[" ++ String.intercalate ", " (l.map quote) ++ "]"

end SignatureDocs.Text
