import SignatureDocs.Text.Offset

/-!
The parts of a declaration file that its outline needs, as trees over the text. All other structure of the
file is checked when it is read and leaves no trace here.
-/
namespace SignatureDocs

/-- The two kinds of declaration that have members to document. -/
inductive DeclarationKind where
  | classKind
  | interfaceKind
deriving DecidableEq, Repr

namespace Grammar

open SignatureDocs.Text

/-- The form of a member, as far as its first lexemes decide it. -/
inductive MemberForm where
  | method
  | property
  | indexSignature
  | callSignature
  | other
deriving DecidableEq, Repr

/-- What a node of the tree stands for. -/
inductive Part where
  /-- A class or interface with everything that belongs to it. -/
  | declaration (kind : DeclarationKind)
  /-- The name of a declaration. -/
  | declarationName
  /-- The name of a member. -/
  | memberName
  /-- The braces of a declaration and what is between them. -/
  | body
  | member (form : MemberForm)
  /-- The word that makes a method an accessor. -/
  | accessorWord
  /-- A decorator before a member. -/
  | decorator
  /-- A brace, semicolon or comma at which the text before the next member starts. -/
  | separator
  /-- Something whose inner names are not names of what encloses it. -/
  | enclosed
deriving DecidableEq, Repr

/-- A part of the text with the parts inside it, in the order of the text. -/
inductive Tree where
  | node (part : Part) (span : Span) (children : List Tree)

namespace Tree

def part : Tree → Part
  | node p _ _ => p

def span : Tree → Span
  | node _ s _ => s

def children : Tree → List Tree
  | node _ _ cs => cs

mutual

/-- A tree and all trees inside it, each before those inside it. -/
def preorder : Tree → List Tree
  | node p s cs => node p s cs :: preorderAll cs

/-- The trees of a list with all trees inside them, in the order of the text. -/
def preorderAll : List Tree → List Tree
  | [] => []
  | t :: ts => preorder t ++ preorderAll ts

end

end Tree

end Grammar

end SignatureDocs
