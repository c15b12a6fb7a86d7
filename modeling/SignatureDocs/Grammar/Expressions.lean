import SignatureDocs.Grammar.Phrase
import SignatureDocs.Grammar.Types

/-!
Expressions and patterns. Only what is accepted matters here, so operators have no order of precedence: an
expression is operands with operators between them. Names that have a meaning where an expression starts are
no identifiers there; all other words are, keywords of statements among them.
-/
namespace SignatureDocs.Grammar

open Rule

/-- Words that start an expression of their own. -/
def expressionWords : List String :=
  ["function", "class", "typeof", "void", "delete", "await", "yield", "import", "this", "super", "true",
    "false", "null", "using"]

/-- Words that start a statement or an expression of their own. -/
def statementWords : List String :=
  expressionWords ++ ["if", "for", "while", "do", "switch", "try", "with", "break", "continue",
    "debugger", "return", "throw", "var", "const", "enum", "interface", "abstract"]

/-- Names that can stand where an expression starts. -/
def identifier (s : Setting) : Form :=
  wordExcept (if s.head then statementWords else expressionWords)

def assignmentMarks : List String :=
  ["=", "+=", "-=", "*=", "/=", "%=", "^=", "&=", "|=", ">>=", ">>>=", "<<=", "**=", "&&=", "||=", "??="]

def binaryMarks : List String :=
  ["&&", "||", ">>", ">>>", "<<", "&", "^", "|", "+", "-", "*", "/", "%", "**", "<", "<=", "==", "===",
    "!=", "!==", ">=", ">", "??"]

/-- The new value of what was just named. -/
def assignment (s : Setting) : Form :=
  all [sameLineIf s.line true, oneOf assignmentMarks, expression s.later]

/-- A pattern in brackets or braces. -/
def bracketPattern : Form :=
  let value := both (phrase .pattern) (opt (initialValue .inner))
  let property := any [
    both (mark "...") (phrase .pattern),
    all [phrase .propertyKey, mark ":", value],
    both (anyWord) (opt (initialValue .inner)),
    both (ahead (any [mark "\x7b", mark "["])) (both (phrase .pattern) (initialValue .inner))]
  any [all [mark "\x7b", commaList property, mark "\x7d"], all [mark "[", commaList value, mark "]"]]

/-- The target of a value: a pattern, or a name with a path from it. -/
def patternRule : Form :=
  let step := any [
    both (mark ".") (any [anyWord, token .privateName]),
    all [mark "[", phrase (.expressions .inner), mark "]"],
    markNot "!" "="]
  both (opt (mark "...")) (any [bracketPattern, both (wordExcept expressionWords) (many step),
    both (keyword "this") (many1 step)])

def asyncWord (line : Bool) : Form := both (keyword "async") (sameLineIf line true)

def arrowBody (s : Setting) : Form :=
  any [both (ahead (mark "\x7b")) (phrase (.block true)), expression s.later]

def arrowFunction (s : Setting) : Form :=
  let result := if s.typed then opt (both (mark ":") (resultType false)) else nothing
  let head := any [both (identifier s) arrowMark,
    all [asyncWord s.line, wordExcept expressionWords, arrowMark],
    all [opt (asyncWord s.line), ahead (any [mark "(", mark "<"]), opt (phrase .typeParameters),
      phrase .parameters, result, arrowMark]]
  all [head, arrowBody s, many (phrase (.suffix s))]

def functionExpression (line : Bool) : Form :=
  all [opt (asyncWord line), keyword "function", opt (mark "*"), opt anyWord,
    phrase (.callSignature false), phrase (.block true)]

def templateRule : Form :=
  all [mark "`", many (any [token .templateText, token .escape,
      all [here "$\x7b", phrase (.expressions .inner), mark "\x7d"]]),
    here "`"]

/-- An expression or a spread of one. -/
def item : Form := any [both (mark "...") (expression .inner), expression .inner]

def argumentsRule : Form := all [mark "(", commaList item, mark ")"]

def arrayLiteral : Form := all [mark "[", commaList item, mark "]"]

def parenthesized : Form :=
  all [mark "(", expression .inner,
    any [many1 (both (mark ",") (expression .inner)), opt (ofType false)], mark ")"]

/-- The construction of an object, or the word `new` asked for its target. -/
def newExpression (s : Setting) : Form :=
  let step := any [
    both (mark ".") (any [anyWord, token .privateName]),
    all [mark "[", phrase (.expressions .inner), mark "]"],
    markNot "!" "=", phrase .template]
  let onward (form : Form) := both (sameLineIf s.line true) form
  any [all [keyword "new", mark ".", anyWord],
    all [keyword "new", sameLineIf s.line true, phrase (.atom .inner), many (onward step),
      opt (onward (phrase .typeArguments)), opt (onward (phrase .arguments))]]

def importExpression : Form :=
  both (keyword "import") (any [both (mark ".") anyWord,
    both (opt (phrase .typeArguments)) (phrase .arguments)])

/-- A namespace with its name and perhaps its body. -/
def namespaceForm (line : Bool) : Form :=
  all [keyword "namespace", sameLineIf line true, any [token .quoted, dottedName],
    opt (phrase (.block true))]

/-- The name of a class. -/
def className : Form := node .declarationName (wordExcept ["extends", "implements"])

/-- A class without the end of a statement. -/
def classExpression : Form :=
  node (.declaration .classKind) (all [many (node .enclosed (phrase .decorator)), keyword "class",
    opt className, phrase .classBody])

/-- A class without a name. -/
def namelessClass : Form :=
  node (.declaration .classKind) (all [many (node .enclosed (phrase .decorator)), keyword "class",
    phrase .classBody])

/-- A value that is given up at the end of its block. -/
def resourceBinding (s : Setting) : Form :=
  all [keyword "using", any [phrase .pattern, parenthesized], equals, expression s.later]

/-- An operand of a dialect: markup starts with an angle bracket in one of them. -/
def atomRule (d : Dialect) (s : Setting) : Form :=
  let opening := if s.head then [] else
    [functionExpression s.line, classExpression, namespaceForm s.line]
  let markup := match d with
    | .typeScript => []
    | .tsx => [phrase .markup]
  any (opening ++ [newExpression s, importExpression,
    both (identifier s) (opt (assignment s)), resourceBinding s,
    keywords ["this", "super", "true", "false", "null"],
    both parenthesized (opt (assignment s)), token .number, token .quoted, phrase .template,
    token .regex, arrayLiteral, phrase .objectLiteral,
    both (token .privateName) (ahead (keyword "in"))] ++ markup)

/-- What can start an operand after a closing angle bracket. -/
def operandStart : Form :=
  any [wordExcept ["in", "instanceof", "as", "satisfies", "of", "extends", "implements", "is"],
    token .number, token .quoted, mark "(", mark "[", mark "`"]

/-- What may follow an operand, unless its line ends first. -/
def suffixRule (s : Setting) : Form :=
  let name := any [anyWord, token .privateName]
  let index := all [mark "[", phrase (.expressions .inner), mark "]"]
  let assign := opt (assignment s)
  both (sameLineIf s.line true) <| any [all [mark ".", name, assign],
    both (oneOf ["?."]) (any [both name assign, both index assign,
      both (opt (phrase .typeArguments)) (phrase .arguments)]),
    both index assign, phrase .arguments, phrase .template,
    both (markNot "!" "=") assign, oneOf ["++", "--"],
    both (phrase .typeArguments) (any [phrase .arguments, absent operandStart])]

def unaryRule (d : Dialect) (s : Setting) : Form :=
  let assertion := match d with
    | .typeScript => [both (phrase .typeArguments) (phrase (.unary s.later))]
    | .tsx => []
  any ([both (oneOf ["!", "~", "+", "-", "++", "--"]) (phrase (.unary s.later)),
    both (keywords ["typeof", "void", "delete", "await"]) (phrase (.unary s.later)),
    both (keyword "yield") (any [both (mark "*") (expression s.later),
      both (sameLineIf s.line true) (expression s.later), nothing])] ++ assertion ++
    [both (phrase (.atom s)) (many (phrase (.suffix s)))])

def operandRule (s : Setting) : Form := any [arrowFunction s, phrase (.unary s)]

/-- A choice between two values. Where the first would read the colon as the type of an arrow function, it is
read again without such types. -/
def conditional (s : Setting) : Form :=
  let branches (typed : Bool) :=
    all [expression ⟨false, typed, false⟩, mark ":", expression s.later]
  both (oneOf ["?"]) (if s.typed then any [branches true, branches false] else branches false)

/-- An operator with its right side, unless the line ends first. -/
def binaryTail (s : Setting) : Form :=
  both (sameLineIf s.line true) <| any [both (oneOf binaryMarks) (phrase (.operand s.later)),
    both (keywords ["in", "instanceof"]) (phrase (.operand s.later)),
    both (keyword "as") (any [keyword "const", typeWith operandUnionMark s.line]),
    both (keyword "satisfies") (typeWith operandUnionMark s.line),
    conditional s]

def expressionRule (s : Setting) : Form :=
  any [all [ahead (any [mark "\x7b", mark "["]), bracketPattern, equals, expression s.later],
    both (phrase (.operand s)) (many (binaryTail s))]

def expressionsRule (s : Setting) : Form :=
  both (expression s) (many (both (mark ",") (expression s.later)))

def markupName : Form :=
  any [separated (any [token .hyphenName, anyWord]) (any [mark ".", mark ":"])]

/-- An expression, a spread or nothing between braces. -/
def markupHole : Form :=
  all [mark "\x7b", opt (any [both (mark "...") (expression .inner), phrase (.expressions .inner)]),
    mark "\x7d"]

def markupAttribute : Form :=
  any [markupHole, both markupName (opt (both (mark "=")
    (any [token .markupString, markupHole, phrase .markup])))]

def markupRule : Form :=
  let child := any [token .markupText, token .markupEntity, phrase .markup, markupHole]
  both (markNot "<" "/") (both
    (opt (all [markupName, opt (phrase .typeArguments), many markupAttribute]))
    (any [mark "/>", all [mark ">", many child, mark "</", opt markupName, mark ">"]]))

end SignatureDocs.Grammar
