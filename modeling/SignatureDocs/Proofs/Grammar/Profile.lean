import SignatureDocs.Grammar.TypeScript
import SignatureDocs.Proofs.Grammar.Cursor

/-!
What can be told from a rule before anything is read by it: whether it takes a lexeme, what the lexeme starts
with, and which parts of the tree it makes and in which order. Each answer is computed from the rule and from
the same answers for the phrases it refers to, so the answers for a grammar are checked phrase by phrase.
-/
namespace SignatureDocs.Grammar

variable {P : Type}

/-- What is claimed of the phrases of a grammar, apart from taking a lexeme, which every phrase does. -/
structure Profile (P : Type) where
  /-- The phrase starts with a solid character. -/
  solid : P → Bool
  /-- Behind each part of the phrase, except for a bare mark, comes a lexeme with a solid start. -/
  closed : P → Bool
  /-- The last part of the phrase is a body. -/
  endsInBody : P → Bool

namespace Rule

mutual

/-- The rule takes a lexeme wherever it accepts. -/
def firm : Rule P → Bool
  | token t => t.isLexeme
  | phrase _ => true
  | both a b => firm a || soft a && firm b
  | either a b => firm a && firm b
  | node _ a => firm a
  | nothing | many _ | ahead _ | absent _ => false

/-- Wherever the rule accepts it takes nothing, or starts by taking a lexeme. -/
def soft : Rule P → Bool
  | token t => t.isLexeme || t.isIdle
  | phrase _ | nothing | ahead _ | absent _ => true
  | both a b => firm a || soft a && soft b
  | either a b => soft a && soft b
  | many a => soft a
  | node _ a => firm a

end

/-- A lexeme that the rule starts with starts with a solid character. -/
def solid (f : Profile P) : Rule P → Bool
  | token t => t.isSolid
  | phrase p => f.solid p
  | both a b => a.solid f && (a.firm || b.solid f)
  | either a b => a.solid f && b.solid f
  | many a | node _ a => a.solid f
  | nothing | ahead _ | absent _ => true

/-- The rule makes no parts. -/
def barren : Rule P → Bool
  | token _ | nothing | ahead _ | absent _ => true
  | phrase _ | node _ _ => false
  | both a b | either a b => a.barren && b.barren
  | many a => a.barren

/-- All parts that the rule makes are decorators. -/
def decorates : Rule P → Bool
  | node .decorator _ => true
  | both a b => a.decorates && b.decorates
  | many a => a.decorates
  | _ => false

mutual

/-- A decorator among the parts that the rule makes stands before another or before a member. -/
def orderly : Rule P → Bool
  | node part _ => part != .decorator
  | both a b => orderly a && orderly b || a.decorates && led b
  | either a b => orderly a && orderly b
  | many a => orderly a
  | token _ | phrase _ | nothing | ahead _ | absent _ => true

/-- The first part that the rule makes is a member. -/
def led : Rule P → Bool
  | node (.member _) _ => true
  | both a b => led a && orderly b
  | either a b => led a && led b
  | _ => false

end

/-- The rule takes a lexeme that starts with a solid character. -/
def capped (f : Profile P) : Rule P → Bool
  | token t => t.isLexeme && t.isSolid
  | phrase p => f.solid p
  | both a b => a.capped f || b.capped f
  | either a b => a.capped f && b.capped f
  | node _ a => a.capped f
  | nothing | many _ | ahead _ | absent _ => false

/-- Behind each part that it makes, except for a bare mark, the rule takes a lexeme with a solid start. -/
def closed (f : Profile P) : Rule P → Bool
  | token _ | node (.member .other) (token _) => true
  | phrase p => f.closed p
  | both _ b => b.capped f && b.closed f
  | either a b => a.closed f && b.closed f
  | _ => false

/-- The last part that the rule makes is a body. -/
def endsInBody (f : Profile P) : Rule P → Bool
  | node .body _ => true
  | phrase p => f.endsInBody p
  | both a b => b.endsInBody f || a.endsInBody f && b.barren
  | either a b => a.endsInBody f && b.endsInBody f
  | _ => false

/-- A mark of one byte that is not blank. -/
def isBareMark : Rule P → Bool
  | token (.mark [c] _) => c.utf8Size = 1 && c != ' ' && c != '\t'
  | _ => false

/-- What a part of the tree asks of the rule it is made by. -/
def suits (f : Profile P) (part : Part) (a : Rule P) : Bool :=
  match part with
  | .separator => a.isBareMark
  | .body => a.solid f && a.orderly && a.closed f
  | .declaration _ => a.solid f && a.endsInBody f
  | _ => a.solid f

/-- Every part that the rule makes takes a lexeme and suits the rule it is made by. -/
def fit (f : Profile P) : Rule P → Bool
  | token _ | phrase _ | nothing | ahead _ | absent _ => true
  | both a b | either a b => a.fit f && b.fit f
  | many a => a.fit f
  | node part a => a.fit f && a.firm && a.suits f part

end Rule

/-- The rule of a phrase bears out what is claimed of the phrase. -/
def Profile.holds (f : Profile P) (grammar : P → Rule P) (p : P) : Bool :=
  (grammar p).firm && (grammar p).orderly && (grammar p).fit f &&
    (!f.solid p || (grammar p).solid f) && (!f.closed p || (grammar p).closed f) &&
    (!f.endsInBody p || (grammar p).endsInBody f)

/-- What is claimed of the phrases of declaration files: only statements and the items of a class can start
with a separator. -/
def profile : Profile Phrase where
  solid p := p != .statement && p != .classItem
  closed p := p == .typeBody
  endsInBody p := p == .classBody

theorem profile_holds (d : Dialect) (p : Phrase) : profile.holds (rules d) p = true := by
  cases d <;> cases p with
  | typeExpr line | typeOperand line | typeElement line | callSignature line | block line =>
    cases line <;> decide +kernel
  | expression s | operand s | unary s | atom s | suffix s | expressions s =>
    obtain ⟨line, typed, head⟩ := s
    cases line <;> cases typed <;> cases head <;> decide +kernel
  | _ => decide +kernel

theorem program_fit : program.fit profile = true := by decide

end SignatureDocs.Grammar
