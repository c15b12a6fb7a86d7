import SignatureDocs.Method.Basic
import SignatureDocs.Proofs.Grammar.Signs

/-!
Declarations written out. A forest of namespaces, interfaces and classes has one text, with a line for each method
and, where it has a comment, a line for that before it. Which methods a name stands for is told from the forest
alone.
-/
namespace SignatureDocs.Written

open SignatureDocs.Grammar (IsRemark remarkGap)

/-- A capital letter, with letters and digits behind it. -/
structure Name where
  first : Char
  more : List Char
  isUpper : first.isUpper = true
  isAlphanum : ∀ c ∈ more, c.isAlphanum = true

def Name.chars (n : Name) : List Char := n.first :: n.more

def Name.text (n : Name) : String := String.ofList n.chars

/-- A comment, without the marks around it. -/
structure Comment where
  inside : List Char
  isRemark : IsRemark inside

def Comment.chars (c : Comment) : List Char := '/' :: '*' :: (c.inside ++ ['*', '/'])

structure Parameter where
  name : Name
  optional : Bool
  type : Name

def Parameter.chars (p : Parameter) : List Char :=
  p.name.chars ++ ((if p.optional then ['?'] else []) ++ ':' :: ' ' :: p.type.chars)

/-- Parameters that follow another. -/
def moreChars (ps : List Parameter) : List Char := ps.flatMap fun p => ',' :: ' ' :: p.chars

/-- Parameters with a comma between each two. -/
def parameterChars : List Parameter → List Char
  | [] => []
  | p :: ps => p.chars ++ moreChars ps

/-- A method as it stands in its declaration. -/
structure Method where
  comment : Option Comment
  name : Name
  parameters : List Parameter
  result : Name

namespace Method

/-- What stands between the opening parenthesis and the semicolon. -/
def inner (m : Method) : List Char := parameterChars m.parameters ++ ')' :: ':' :: ' ' :: m.result.chars

def signature (m : Method) : List Char := m.name.chars ++ '(' :: (m.inner ++ [';'])

def commentChars (m : Method) : List Char := m.comment.elim [] Comment.chars

/-- The lines of the method. -/
def chars (m : Method) : List Char :=
  m.comment.elim [] (fun c => c.chars ++ ['\n']) ++ (m.signature ++ ['\n'])

/-- What is to be found of the method in a declaration of the given name. -/
def record (declarationName : String) (m : Method) : SignatureDocs.Method where
  declarationName := declarationName
  methodName := m.name.text
  signature := String.ofList m.signature
  comment := String.ofList m.commentChars

end Method

/-- A class or interface with methods only, or a namespace around more of these. -/
inductive Item where
  | declaration (kind : DeclarationKind) (name : Name) (methods : List Method)
  | scope (name : Name) (items : List Item)

/-- The words before the name of a declaration. -/
def openingChars : DeclarationKind → List Char
  | .interfaceKind => "interface ".toList
  | .classKind => "declare class ".toList

/-- The word before the name of a namespace. -/
def scopeChars : List Char := ['n', 'a', 'm', 'e', 's', 'p', 'a', 'c', 'e', ' ']

mutual

def Item.chars : Item → List Char
  | .declaration kind name methods =>
    openingChars kind ++ (name.chars ++ ' ' :: '\x7b' :: '\n' :: (methods.flatMap Method.chars ++ ['\x7d', '\n']))
  | .scope name items =>
    scopeChars ++ (name.chars ++ ' ' :: '\x7b' :: '\n' :: (itemChars items ++ ['\x7d', '\n']))

/-- The text of a forest. -/
def itemChars : List Item → List Char
  | [] => []
  | i :: is => i.chars ++ itemChars is

end

mutual

def Item.records (wanted : String) : Item → List SignatureDocs.Method
  | .declaration _ name methods => if name.text = wanted then methods.map (Method.record wanted) else []
  | .scope _ items => itemRecords wanted items

/-- The methods of all classes and interfaces of the wanted name, in the order of the text. -/
def itemRecords (wanted : String) : List Item → List SignatureDocs.Method
  | [] => []
  | i :: is => i.records wanted ++ itemRecords wanted is

end

namespace Method

/-- The gap before the name of the method. A lexeme is read with the gap before it, so the text of a method is taken
from the end of the line before. -/
def lead (m : Method) : List Char := m.comment.elim ['\n'] fun c => remarkGap c.inside

theorem signature_append (m : Method) (rest : List Char) :
    m.signature ++ rest = m.name.chars ++ '(' :: (m.inner ++ ';' :: rest) := by
  simp [signature]

theorem line_chars (m : Method) (rest : List Char) :
    '\n' :: (m.chars ++ rest) = m.lead ++ (m.signature ++ '\n' :: rest) := by
  cases h : m.comment <;> simp [chars, lead, h, Comment.chars, remarkGap]

end Method

/-- The brace that closes a block, on a line of its own. -/
abbrev closeChars (rest : List Char) : List Char := '\n' :: '\x7d' :: rest

/-- The text of methods from the end of the line before the first up to the rest. -/
def methodChars (rest : List Char) : List Method → List Char
  | [] => rest
  | m :: ms => m.lead ++ (m.signature ++ methodChars rest ms)

theorem line_methodChars (ms : List Method) (rest : List Char) :
    '\n' :: (ms.flatMap Method.chars ++ rest) = methodChars ('\n' :: rest) ms := by
  induction ms with
  | nil => rfl
  | cons m ms ih =>
    rw [List.flatMap_cons, List.append_assoc, m.line_chars, ih]
    rfl

theorem methodChars_suffix (ms : List Method) {source rest : List Char}
    (hs : methodChars rest ms <:+ source) : rest <:+ source := by
  induction ms with
  | nil => exact hs
  | cons m ms ih =>
    exact ih ((List.suffix_append m.signature _).trans ((List.suffix_append m.lead _).trans hs))

theorem Item.declaration_append (kind : DeclarationKind) (name : Name) (ms : List Method) (rest : List Char) :
    (Item.declaration kind name ms).chars ++ rest =
      openingChars kind ++ (name.chars ++ ' ' :: '\x7b' :: methodChars (closeChars ('\n' :: rest)) ms) := by
  rw [Item.chars, closeChars, ← line_methodChars]
  simp

theorem Item.scope_append (name : Name) (items : List Item) (rest : List Char) :
    (Item.scope name items).chars ++ rest = scopeChars ++
      (name.chars ++ ' ' :: '\x7b' :: '\n' :: (itemChars items ++ '\x7d' :: '\n' :: rest)) := by
  simp [Item.chars]

/-- An item ends with its line. -/
theorem Item.chars_eq (i : Item) : ∃ xs, xs ≠ [] ∧ i.chars = xs ++ ['\n'] := by
  cases i with
  | declaration kind name methods =>
    refine ⟨openingChars kind ++ (name.chars ++ ' ' :: '\x7b' :: '\n' ::
      (methods.flatMap Method.chars ++ ['\x7d'])), by simp, ?_⟩
    simp [Item.chars]
  | scope name items =>
    refine ⟨scopeChars ++ (name.chars ++ ' ' :: '\x7b' :: '\n' :: (itemChars items ++ ['\x7d'])),
      by simp, ?_⟩
    simp [Item.chars]

end SignatureDocs.Written
