import SignatureDocs.Grammar.Members

/-!
Statements and declarations. Each starts with a word of its own or is an expression, so a declaration that is
broken off is never taken for something else.
-/
namespace SignatureDocs.Grammar

open Rule

/-- A keyword that could also be a name, with more of its statement on the same line. -/
def leadWord (text : String) : Form := both (keyword text) (token (.sameLine true))

/-- Statements between braces. -/
def braced : Form := all [mark "\x7b", many (phrase .statement), mark "\x7d"]

def blockRule (binary : Bool) : Form := both braced (closing binary)

/-- A block whose end is that of a statement. -/
def body : Form := phrase (.block false)

def variableDeclarator (line : Bool) : Form :=
  let s : Setting := ⟨line, true, false⟩
  let ends (binary : Bool) := if line then ahead (any [mark ",", semicolon binary]) else nothing
  any [all [anyWord, mark "!", ofType line, ends false],
    all [any [anyWord, bracketPattern], opt (ofType line),
      any [both (initialValue s) (ends true), ends false]]]

/-- Variables, with the word that declares them. -/
def bindings : Form :=
  all [any [keyword "var", keyword "const", leadWord "let"], commaList1 (variableDeclarator true),
    semicolon false]

/-- What may continue a class or function so that it is an operand and not a declaration: no lexeme that could
start a statement of its own. -/
def operandContinues : Form :=
  any [mark ".", mark ",", oneOf ["?."], oneOf ["&&", "||", ">>", ">>>", "<<", "&", "^", "|", "*", "%", "**",
      "<=", "==", "===", "!=", "!==", ">=", ">", "??", "?"],
    both (token (.sameLine true)) (keywords ["as", "satisfies"]), keywords ["in", "instanceof"]]

/-- The rest of an expression statement after its first operand. -/
def operandRest : Form :=
  let s := Setting.toLineEnd
  all [many (phrase (.suffix s)), many (binaryTail s), many (both (mark ",") (expression s)),
    semicolon true]

/-- An operand that starts a statement, and is a declaration unless it is continued. -/
def declaredOperand (form : Form) : Form :=
  both form (any [absent operandContinues, operandRest])

def functionDeclaration : Form :=
  let head := both (opt (asyncWord true)) (keyword "function")
  any [
    all [head, mark "*", anyWord, phrase (.callSignature true), phrase (.block true)],
    all [head, anyWord, phrase (.callSignature true), any [phrase (.block true), semicolon false]]]

/-- A function without a name starts an expression. -/
def functionStatement : Form :=
  any [declaredOperand functionDeclaration,
    all [opt (asyncWord true), keyword "function", opt (mark "*"), phrase (.callSignature false),
      phrase (.block true), operandRest]]

/-- A class without a name starts an expression. -/
def classStatement : Form :=
  any [declaredOperand classDeclaration, both namelessClass operandRest]

def typeAlias : Form :=
  all [leadWord "type", anyWord, opt (phrase .typeParameters), equals, typeExpr true, semicolon false]

def enumDeclaration : Form :=
  let entry := both (phrase .propertyKey) (opt (initialValue .inner))
  all [opt (keyword "const"), keyword "enum", anyWord, mark "\x7b",
    opt (both (commaList1 entry) (opt (mark ","))), mark "\x7d"]

def moduleDeclaration : Form :=
  all [leadWord "module", any [token .quoted, dottedName], opt body]

def importAlias : Form :=
  all [keyword "import", anyWord, equals, dottedName, semicolon false]

def ambientDeclaration : Form :=
  both (leadWord "declare") (any [phrase .declaration, both (keyword "global") body,
    all [keyword "module", mark ".", anyWord, mark ":", typeExpr true, semicolon false]])

def declarationRule : Form :=
  any [interfaceDeclaration, classDeclaration, abstractClassDeclaration, enumDeclaration,
    functionDeclaration, bindings, moduleDeclaration, namespaceForm true, typeAlias, importAlias,
    ambientDeclaration]

def moduleName : Form := any [anyWord, token .quoted]

def fromClause : Form := both (keyword "from") (token .quoted)

def exportClause : Form :=
  let renamed := both moduleName (opt (both (keyword "as") moduleName))
  let specifier := any [both (keywords ["type", "typeof"]) renamed, renamed]
  all [mark "\x7b", opt (commaList1 specifier), opt (mark ","), mark "\x7d"]

def exportFormRule : Form :=
  both (leadWord "export") (any [
    all [mark "*", opt (both (keyword "as") moduleName), fromClause, semicolon false],
    all [opt (keyword "type"), exportClause, opt fromClause, semicolon false],
    importAlias,
    all [equals, expression .toLineEnd, semicolon true],
    all [keyword "as", keyword "namespace", anyWord, semicolon false],
    both (keyword "default") (any [phrase .declaration,
      both (expression .toLineEnd) (semicolon true)]),
    phrase .declaration])

def importStatement : Form :=
  let specifier := any [all [moduleName, keyword "as", anyWord], anyWord]
  let named := all [mark "\x7b",
    opt (commaList1 (any [both (keywords ["type", "typeof"]) specifier, specifier])), opt (mark ","), mark "\x7d"]
  let wildcard := all [mark "*", keyword "as", anyWord]
  let clause := any [wildcard, named, both anyWord (opt (both (mark ",") (any [wildcard, named])))]
  let required := all [anyWord, equals, keyword "require", mark "(", token .quoted, mark ")"]
  let source := any [both clause fromClause, required, token .quoted]
  all [keyword "import", any [both (keywords ["type", "typeof"]) source, source],
    opt (both (keyword "with") (phrase .objectLiteral)), semicolon false]

def forHeader : Form :=
  let target := any [
    all [keyword "var", any [anyWord, bracketPattern], opt (initialValue .inner)],
    both (keywords ["const", "let"]) (any [anyWord, bracketPattern]),
    phrase .pattern, parenthesized]
  all [mark "(", target, keywords ["in", "of"], phrase (.expressions .inner), mark ")"]

def forClauses : Form :=
  let start := any [
    all [any [keyword "var", keyword "const", keyword "let"], commaList1 (variableDeclarator false),
      mark ";"],
    both (phrase (.expressions .inner)) (mark ";"), mark ";"]
  all [mark "(", start, opt (phrase (.expressions .inner)), mark ";",
    opt (phrase (.expressions .inner)), mark ")"]

def switchStatement : Form :=
  let statements := many (both (absent (keywords ["case", "default"])) (phrase .statement))
  let group := any [
    all [keyword "case", phrase (.expressions .inner), mark ":", statements],
    all [keyword "default", mark ":", statements]]
  all [keyword "switch", parenthesized, mark "\x7b", many group, mark "\x7d"]

def tryStatement : Form :=
  let parameter := all [mark "(", any [anyWord, bracketPattern], opt (ofType false), mark ")"]
  all [keyword "try", body, opt (all [keyword "catch", opt parameter, body]),
    opt (both (keyword "finally") body)]

def controlStatement : Form :=
  let s := phrase .statement
  let labelled := opt (both (token (.sameLine false)) (wordExcept []))
  any [
    all [keyword "if", parenthesized, s, opt (both (keyword "else") s)],
    all [keyword "for", any [both (opt (keyword "await")) forHeader, forClauses], s],
    all [keyword "while", parenthesized, s],
    all [keyword "do", s, keyword "while", parenthesized, opt (semicolon false)],
    switchStatement, tryStatement,
    all [keyword "with", parenthesized, s],
    all [keywords ["break", "continue"], labelled, semicolon false],
    both (keyword "debugger") (semicolon false),
    both (keyword "return") (any [
      all [token (.sameLine false), phrase (.expressions .toLineEnd), semicolon true],
      semicolon false]),
    all [keyword "throw", phrase (.expressions .toLineEnd), semicolon true]]

/-- A block, or a pattern or object in its place. -/
def braceStatement : Form :=
  both (ahead (mark "\x7b")) (any [
    all [bracketPattern, equals, expression .toLineEnd, semicolon true],
    body])

def expressionStatement : Form :=
  both (phrase (.expressions ⟨true, true, true⟩)) (semicolon true)

def statementRule : Form :=
  any [interfaceDeclaration, classStatement, abstractClassDeclaration,
    both (many (phrase .decorator)) (phrase .exportForm),
    ambientDeclaration, namespaceForm true, moduleDeclaration, typeAlias, enumDeclaration,
    functionStatement, bindings, importStatement, importAlias, controlStatement, mark ";",
    all [wordExcept statementWords, mark ":", phrase .statement],
    braceStatement, expressionStatement, token .arrowComment]

def program : Form :=
  all [opt (token .scriptLine), many (phrase .statement), token .finish]

end SignatureDocs.Grammar
