import SignatureDocs.Grammar.Statements

/-!
The grammar of declaration files as one table from phrases to rules, and reading a whole file by it.
-/
namespace SignatureDocs.Grammar

open SignatureDocs.Text

/-- The rule of each phrase in a dialect. -/
def rules (d : Dialect) : Phrase → Form
  | .typeExpr line => typeExprRule line
  | .typeOperand line => typeOperandRule line
  | .typeElement line => typeElementRule line
  | .typeArguments => typeArgumentsRule
  | .typeParameters => typeParametersRule
  | .typeBody => typeBodyRule
  | .typeMember => typeMemberRule
  | .callSignature line => callSignatureRule line
  | .parameters => parametersRule
  | .pattern => patternRule
  | .expression s => expressionRule s
  | .operand s => operandRule s
  | .unary s => unaryRule d s
  | .atom s => atomRule d s
  | .suffix s => suffixRule s
  | .expressions s => expressionsRule s
  | .arguments => argumentsRule
  | .template => templateRule
  | .objectLiteral => objectLiteralRule
  | .markup => markupRule
  | .propertyKey => propertyKeyRule
  | .decorator => decoratorRule
  | .classBody => classBodyRule
  | .classItem => classItemRule
  | .statement => statementRule
  | .block binary => blockRule binary
  | .declaration => declarationRule
  | .exportForm => exportFormRule

/-- Steps enough for a text: a bounded number of them before each character is taken. -/
def budget (cs : List Char) : Nat := 400 * (cs.length + 2)

/-- Reads a whole file. -/
def readFile (d : Dialect) (cs : List Char) : Outcome :=
  Rule.read (rules d) (budget cs) program (Cursor.start cs)

end SignatureDocs.Grammar
