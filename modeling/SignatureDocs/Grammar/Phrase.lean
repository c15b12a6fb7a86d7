import SignatureDocs.Grammar.Rule

/-!
The phrases of a declaration file that refer to each other, and short names for rules over them.
-/
namespace SignatureDocs.Grammar

/-- The two dialects of declaration files. -/
inductive Dialect where
  | typeScript
  | tsx
deriving DecidableEq, Repr

/-- What surrounds an expression. -/
structure Setting where
  /-- An end of line may close the expression. -/
  line : Bool
  /-- An arrow function in it may state the type of its result. -/
  typed : Bool
  /-- The expression starts a statement. -/
  head : Bool
deriving DecidableEq, Repr

namespace Setting

/-- An expression between brackets. -/
def inner : Setting := ⟨false, true, false⟩

/-- An expression that ends with its line. -/
def toLineEnd : Setting := ⟨true, true, false⟩

/-- What follows the first lexeme of an expression. -/
def later (s : Setting) : Setting := ⟨s.line, s.typed, false⟩

end Setting

/-- The phrases that rules refer to. Where a phrase carries a `line`, it is whether an end of line may close
it; where a block carries a `binary`, it is whether an operator may follow it. -/
inductive Phrase where
  | typeExpr (line : Bool)
  | typeOperand (line : Bool)
  | typeElement (line : Bool)
  | typeArguments
  | typeParameters
  | typeBody
  | typeMember
  | callSignature (line : Bool)
  | parameters
  | pattern
  | expression (s : Setting)
  | operand (s : Setting)
  | unary (s : Setting)
  | atom (s : Setting)
  | suffix (s : Setting)
  | expressions (s : Setting)
  | arguments
  | template
  | objectLiteral
  | markup
  | propertyKey
  | decorator
  | classBody
  | classItem
  | statement
  | block (binary : Bool)
  | declaration
  | exportForm
deriving DecidableEq, Repr

open Rule

/-- Rules of declaration files. -/
abbrev Form := Rule Phrase

def mark (text : String) : Form := token (.mark text.toList [])

/-- A mark that none of the characters of `stops` follows. -/
def markNot (text stops : String) : Form := token (.mark text.toList stops.toList)

def keyword (text : String) : Form := token (.keyword text.toList)

def keywords (texts : List String) : Form := any (texts.map keyword)

def oneOf (texts : List String) : Form := token (.oneOf (texts.map String.toList))

def here (text : String) : Form := token (.here text.toList)

/-- Any word. -/
def anyWord : Form := token (.word [])

/-- A word that is not in the list. -/
def wordExcept (texts : List String) : Form := token (.word (texts.map String.toList))

/-- No end of line stands here for a semicolon, if one could. -/
def sameLineIf (line binary : Bool) : Form :=
  if line then token (.sameLine binary) else nothing

def lineEnd (binary : Bool) : Form := token (.lineEnd binary)

/-- The end of a statement. -/
def semicolon (binary : Bool) : Form := any [mark ";", lineEnd binary]

/-- The end of a block or class: the end of its line with the comments before it, if there is one. On the same
line no comment that is an arrow may follow. -/
def closing (binary : Bool) : Form := any [token (.closing binary), absent (token .arrowComment)]

/-- Items between commas; items may be missing. -/
def commaList (item : Form) : Form := both (opt item) (many (both (mark ",") (opt item)))

/-- At least one item, with commas between. -/
def commaList1 (item : Form) : Form := separated item (mark ",")

/-- The equals sign of an initial value. -/
def equals : Form := markNot "=" "=>"

/-- The arrow of a function. -/
def arrowMark : Form := mark "=>"

def typeExpr (line : Bool) : Form := phrase (.typeExpr line)

def expression (s : Setting) : Form := phrase (.expression s)

/-- A type after a colon. -/
def ofType (line : Bool) : Form := both (mark ":") (typeExpr line)

/-- A value after an equals sign. -/
def initialValue (s : Setting) : Form := both equals (expression s)

/-- Dotted names. -/
def dottedName : Form := separated anyWord (mark ".")

end SignatureDocs.Grammar
