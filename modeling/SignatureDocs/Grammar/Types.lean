import SignatureDocs.Grammar.Phrase

/-!
Types, type parameters and the signatures of functions. A type can stand at the end of a line, and then a
bracket on the next line does not belong to it.
-/
namespace SignatureDocs.Grammar

open Rule

/-- Words with a meaning of their own where a type starts. -/
def typeWords : List String :=
  ["any", "number", "boolean", "string", "symbol", "unique", "void", "unknown", "never", "object",
    "typeof", "keyof", "readonly", "infer", "new", "abstract", "this", "true", "false", "null",
    "undefined", "const", "import"]

/-- The types that are single words. -/
def basicType : Form :=
  any [keywords ["any", "number", "boolean", "string", "symbol", "void", "unknown", "never", "object"],
    both (keyword "unique") (keyword "symbol")]

/-- The marks of unions and intersections. -/
def unionMark : Form := any [markNot "|" "\x7d=", markNot "&" "="]

/-- The same after an operand of an expression, where two bars or two ampersands are an operator. -/
def operandUnionMark : Form := any [markNot "|" "|\x7d=", markNot "&" "&="]

/-- A statement on a parameter as the result of a function: `x is T`. -/
def predicateType (line : Bool) : Form :=
  all [anyWord, sameLineIf line false, keyword "is", typeExpr line]

/-- The result of a function after its colon or arrow. -/
def resultType (line : Bool) : Form :=
  any [both (keyword "asserts") (any [predicateType line, anyWord]),
    both (absent (keyword "asserts")) (any [predicateType line, typeExpr line])]

def functionType (line : Bool) : Form :=
  all [opt (phrase .typeParameters), phrase .parameters, arrowMark, resultType line]

def constructorType (line : Bool) : Form :=
  all [opt (keyword "abstract"), keyword "new", opt (phrase .typeParameters), phrase .parameters,
    arrowMark, typeExpr line]

/-- A type of operands with marks between them. The first mark may come before the first operand, and marks
may be repeated. -/
def typeWith (join : Form) (line : Bool) : Form :=
  let operand := both (many join) (phrase (.typeOperand line))
  all [operand, many (all [sameLineIf line false, join, operand]),
    opt (all [sameLineIf line false, keyword "extends", typeExpr line, mark "?", typeExpr line, mark ":",
      typeExpr line])]

def typeExprRule (line : Bool) : Form := typeWith unionMark line

/-- A type taken from another module. -/
def importedType : Form :=
  both (keyword "import")
    (many1 (any [both (mark ".") (any [anyWord, token .privateName]), phrase .arguments]))

def typeOperandRule (line : Bool) : Form :=
  any [functionType line, constructorType line, importedType, both (keyword "readonly") (typeExpr line),
    all [keyword "infer", anyWord, opt (all [sameLineIf line false, keyword "extends", typeExpr line])],
    phrase (.typeElement line)]

/-- The type of a value, by a path from a name to it. -/
def typeQuery (line : Bool) : Form :=
  let name := any [anyWord, token .privateName]
  let onward (form : Form) := both (sameLineIf line false) form
  let step := any [
    both (any [mark ".", mark "?."]) name,
    all [opt (mark "?."), mark "[", any [basicType, token .quoted, token .number], mark "]"],
    phrase .arguments]
  all [keyword "typeof", anyWord, many (onward step), opt (onward (phrase .typeArguments))]

def literalType : Form :=
  any [token .number, token .quoted, both (any [mark "-", mark "+"]) (token .number),
    keywords ["true", "false", "null", "undefined"]]

/-- A type inside a template. A function, a constructor or a `readonly` type takes in all that follows and cannot
stand there, and a type from another module cannot stand there alone. -/
def substitutedType : Form :=
  both (absent (any [functionType false, constructorType false, keyword "readonly",
    both importedType (mark "\x7d")])) (typeExpr false)

def templateType : Form :=
  all [mark "`", many (any [token .templateText, all [here "$\x7b", substitutedType, mark "\x7d"]]),
    here "`"]

def tupleMember : Form :=
  let name := wordExcept typeWords
  any [all [opt (mark "..."), name, ofType false], all [name, mark "?", ofType false],
    both (mark "...") (typeExpr false), both (typeExpr false) (opt (mark "?"))]

def tupleType : Form :=
  all [mark "[", opt (commaList1 tupleMember), opt (mark ","), mark "]"]

/-- A named type, perhaps inside namespaces, perhaps applied. -/
def namedType (line : Bool) : Form :=
  let onward (form : Form) := both (sameLineIf line false) form
  all [wordExcept typeWords, many (onward (both (mark ".") anyWord)), opt (onward (phrase .typeArguments))]

def typePrimary (line : Bool) : Form :=
  any [namedType line, basicType, all [mark "(", typeExpr false, mark ")"],
    node .enclosed (phrase .typeBody), tupleType, literalType, templateType, typeQuery line,
    both (keyword "keyof") (phrase (.typeElement line)), keywords ["this", "const"],
    both (mark "?") (phrase (.typeElement line)), mark "*"]

def typeElementRule (line : Bool) : Form :=
  both (typePrimary line)
    (many (all [sameLineIf line false, mark "[", opt (typeExpr false), mark "]"]))

def typeArgumentsRule : Form :=
  all [mark "<", commaList1 (typeExpr false), opt (mark ","), mark ">"]

def typeParameter : Form :=
  all [opt (keyword "const"), wordExcept ["const"],
    opt (both (any [keyword "extends", mark ":"]) (typeExpr false)), opt (both equals (typeExpr false))]

def typeParametersRule : Form :=
  all [mark "<", commaList1 typeParameter, opt (mark ","), mark ">"]

/-- A word before the name of a parameter that sets how it is kept. -/
def parameterModifier (texts : List String) : Form :=
  both (keywords texts) (ahead (any [anyWord, mark "\x7b", mark "[", mark "..."]))

def parameter : Form :=
  all [many (phrase .decorator), opt (parameterModifier ["public", "private", "protected"]),
    opt (parameterModifier ["override"]), opt (parameterModifier ["readonly"]),
    any [phrase .pattern, keyword "this"], opt (mark "?"), opt (ofType false),
    opt (initialValue .inner)]

def parametersRule : Form :=
  all [mark "(", opt (both (commaList1 parameter) (opt (mark ","))), mark ")"]

/-- Parameters and result of a function or method. -/
def callSignatureRule (line : Bool) : Form :=
  all [opt (phrase .typeParameters), phrase .parameters, opt (both (mark ":") (resultType line))]

end SignatureDocs.Grammar
