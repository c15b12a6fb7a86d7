import SignatureDocs.Grammar.Expressions

/-!
Classes, interfaces and their members. A word before a member's name is a modifier only if a name follows it on
the same line; otherwise it is the name. Everything that an outline needs becomes a part of the tree here.
-/
namespace SignatureDocs.Grammar

open Rule

def accessWords : List String := ["public", "private", "protected"]

/-- The key of a property, method or accessor. -/
def propertyKeyRule : Form :=
  any [anyWord, token .privateName, token .quoted, token .number,
    all [mark "[", expression .inner, mark "]"]]

def memberName : Form := node .memberName (phrase .propertyKey)

/-- What a key can start with. -/
def keyStart : Form :=
  any [anyWord, token .privateName, token .quoted, token .number, mark "["]

/-- One of the words as a modifier. -/
def modifier (line : Bool) (texts : List String) : Form :=
  all [keywords texts, sameLineIf line false, ahead (any [keyStart, mark "*"])]

/-- The word of an accessor. -/
def accessorWord (line : Bool) : Form :=
  all [node .accessorWord (keywords ["get", "set"]), sameLineIf line false, ahead keyStart]

/-- The name and parameters of a method. -/
def methodTail (line : Bool) : Form :=
  all [opt (any [accessorWord line, mark "*"]), memberName, opt (mark "?"), sameLineIf line false,
    phrase (.callSignature line)]

/-- A method up to its body. -/
def methodHead (line : Bool) : Form :=
  all [opt (modifier line accessWords), opt (modifier line ["static"]),
    opt (modifier line ["override"]), opt (modifier line ["readonly"]), opt (modifier line ["async"]),
    methodTail line]

/-- An index signature, or the clause of a mapped type in its place. -/
def indexSignature (line : Bool) : Form :=
  let sign := opt (any [mark "-", mark "+"])
  let mapped := all [anyWord, keyword "in", typeExpr false, opt (both (keyword "as") (typeExpr false))]
  all [opt (all [sign, keyword "readonly", sameLineIf line false]), mark "[",
    any [both (node .memberName anyWord) (ofType false), mapped], mark "]",
    both (any [mark "-?:", mark "+?:", mark "?:", mark ":"]) (typeExpr line)]

def objectMember : Form :=
  any [both (mark "...") (expression .inner),
    node .enclosed (both (methodHead false) (phrase (.block false))),
    all [phrase .propertyKey, mark ":", expression .inner], anyWord]

def objectLiteralRule : Form := all [mark "\x7b", commaList objectMember, mark "\x7d"]

def separatorMark (text : String) : Form := node .separator (mark text)

/-- The keyword `abstract` starts a construct signature and is no name of a member. -/
def notAbstract : Form := absent (keyword "abstract")

/-- A method of an interface. -/
def interfaceMethod : Form := both notAbstract (methodHead true)

def typeMemberRule : Form :=
  let construct := all [opt (keyword "abstract"), keyword "new", sameLineIf true false,
    opt (phrase .typeParameters), phrase .parameters, opt (ofType true)]
  let property := all [opt (modifier true accessWords), opt (modifier true ["static"]),
    opt (modifier true ["override"]), opt (modifier true ["readonly"]), memberName, opt (mark "?"),
    opt (ofType true)]
  any [node (.member .other) (phrase .exportForm),
    node (.member .indexSignature) (indexSignature true),
    node (.member .callSignature) construct,
    node (.member .callSignature) (phrase (.callSignature true)),
    node (.member .method) interfaceMethod,
    node (.member .property) (both notAbstract property)]

/-- The members of an interface or object type between their braces. One separator stands between two members,
and one may stand before the first. -/
def typeBodyRule : Form :=
  let remarks := many (node (.member .other) (token .arrowComment))
  let separator := any [separatorMark ",", separatorMark ";", lineEnd false]
  let member := both remarks (phrase .typeMember)
  let members := all [opt (any [separatorMark ",", separatorMark ";"]), member,
    many (both separator member), opt separator]
  all [any [node (.member .other) (mark "\x7b|"), separatorMark "\x7b"], opt members, remarks,
    any [mark "\x7d", node (.member .other) (mark "|\x7d")]]

def interfaceDeclaration : Form :=
  let base := all [anyWord, many (both (mark ".") anyWord), opt (phrase .typeArguments)]
  node (.declaration .interfaceKind) (all [keyword "interface", node .declarationName anyWord,
    opt (phrase .typeParameters), opt (both (keyword "extends") (commaList1 base)),
    node .body (phrase .typeBody)])

def decoratorRule : Form :=
  let target := both dottedName (opt (both (opt (phrase .typeArguments)) (phrase .arguments)))
  both (mark "@") (any [all [mark "(", target, mark ")"], target])

/-- The end of a member that has no body. -/
def memberEnd (binary : Bool) : Form := any [mark ";", mark ",", lineEnd binary]

/-- A separator after a member that has been seen to end. -/
def memberSeparator : Form := opt (any [separatorMark ";", separatorMark ","])

/-- A method of a class up to its body. -/
def classMethodHead : Form :=
  both (absent (both (opt (modifier true accessWords)) (keywords ["abstract", "accessor"]))) (methodHead true)

/-- The body of a method, after which no comma may stand. -/
def methodBody : Form := both (phrase (.block false)) (absent (mark ","))

/-- A method of a class: with a body, or ended like a field. With decorators it has a body. -/
def classMethod : Form :=
  any [all [many1 (node .decorator (phrase .decorator)),
      node (.member .method) (both classMethodHead methodBody), memberSeparator],
    both (node (.member .method) (both classMethodHead (any [methodBody, ahead (memberEnd false)])))
      memberSeparator]

/-- An abstract method, which is seen to end. -/
def abstractSignature : Form :=
  all [opt (modifier true accessWords), keyword "abstract", opt (modifier true ["override"]), methodTail true,
    ahead (memberEnd false)]

def abstractMethod : Form := both (node (.member .method) abstractSignature) memberSeparator

/-- A field with its modifiers, type and initial value. -/
def classField : Form :=
  let access := modifier true accessWords
  let declared := modifier true ["declare"]
  let readonlyWord := modifier true ["readonly"]
  let leading := opt (any [both declared (opt access), both access (opt declared)])
  let middle := any [both (keyword "abstract") (opt readonlyWord),
    both readonlyWord (keyword "abstract"), keyword "accessor",
    all [opt (modifier true ["static"]), opt (modifier true ["override"]), opt readonlyWord]]
  let ending := any [both (initialValue .toLineEnd) (ahead (memberEnd true)), ahead (memberEnd false)]
  both (node (.member .property) (all [many (phrase .decorator), leading, middle, memberName,
    opt (any [mark "?", both (token (.sameLine false)) (mark "!")]), opt (ofType true), ending]))
    memberSeparator

def classItemRule : Form :=
  any [separatorMark ";",
    node (.member .other) (token .arrowComment),
    node (.member .other) (all [keyword "static", sameLineIf true false, phrase (.block false)]),
    both (node (.member .indexSignature) (both (indexSignature true) (ahead (memberEnd false))))
      memberSeparator,
    classMethod, abstractMethod, classField]

/-- What follows the name of a class. -/
def classBodyRule : Form :=
  let bases := both (keyword "extends")
    (commaList1 (both (expression .inner) (opt (phrase .typeArguments))))
  let contracts := both (keyword "implements") (commaList1 (typeExpr false))
  all [opt (phrase .typeParameters), opt (any [both bases (opt contracts), contracts]),
    node .body (all [separatorMark "\x7b", many (phrase .classItem), mark "\x7d"])]

/-- A class that is declared. It ends with its line, and comments up to there belong to it. -/
def classDeclaration : Form :=
  node (.declaration .classKind) (all [many (node .enclosed (phrase .decorator)), keyword "class",
    className, phrase .classBody, closing true])

def abstractClassDeclaration : Form :=
  node (.declaration .classKind) (all [many (node .enclosed (phrase .decorator)), keyword "abstract",
    keyword "class", node .declarationName anyWord, phrase .classBody])

end SignatureDocs.Grammar
