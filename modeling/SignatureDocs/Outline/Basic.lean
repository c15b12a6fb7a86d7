import SignatureDocs.Grammar.Tree

/-!
The outline of a declaration file: a table of its named classes and interfaces, each with its members and the
numbers of the declarations inside it.
-/
namespace SignatureDocs

open SignatureDocs.Text

/-- The name of a kind of declaration. -/
def DeclarationKind.label : DeclarationKind → String
  | .classKind => "class"
  | .interfaceKind => "interface"

/-- The kinds of members. Only methods are documented. -/
inductive MemberKind where
  | method
  | constructorMethod
  | accessor
  | property
  | indexSignature
  | callSignature
  | other
deriving DecidableEq, Repr

/-- The name of a kind of member. -/
def MemberKind.label : MemberKind → String
  | .method => "method"
  | .constructorMethod => "constructor"
  | .accessor => "accessor"
  | .property => "property"
  | .indexSignature => "index_signature"
  | .callSignature => "call_signature"
  | .other => "other"

/-- A member of a declaration. Its span includes a separator that follows; `trivia` is the text between the
member or separator before it and its own start. -/
structure Member where
  kind : MemberKind
  name : Option String
  span : Span
  trivia : Span
deriving DecidableEq, Repr

/-- A named class or interface with its members and the numbers of the declarations directly inside it. -/
structure Declaration where
  kind : DeclarationKind
  name : String
  span : Span
  members : List Member
  children : List Nat
deriving DecidableEq, Repr

/-- A declaration with more declarations inside it, given by their numbers. -/
def Declaration.adopt (d : Declaration) (numbers : List Nat) : Declaration :=
  { d with children := d.children ++ numbers }

/-- The declarations of a file, numbered from zero in the order of the text, and the numbers of those that are
not inside another. -/
structure Outline where
  declarations : List Declaration
  roots : List Nat
deriving DecidableEq, Repr

namespace Outline

def empty : Outline := ⟨[], []⟩

/-- Adds a declaration: inside the one of the given number, or outermost if there is none of that number. -/
def add (o : Outline) (d : Declaration) (parent : Option Nat) : Outline :=
  let number := o.declarations.length
  let declarations := o.declarations ++ [d]
  match parent.filter (· < declarations.length) with
  | some p => ⟨declarations.modify p (·.adopt [number]), o.roots⟩
  | none => ⟨declarations, o.roots ++ [number]⟩

/-- Visits the declarations on a worklist and all that are inside them, and adds what each visit gives to what
was `found` before. What is inside a declaration comes before the rest of the list. Declarations that are inside
each other would be visited without end, so the budget says how many may be taken from the list; if it runs out,
nothing is given. -/
def walk {α : Type} (o : Outline) (visit : Nat → Declaration → List α) :
    (budget : Nat) → (work : List Nat) → (found : List α) → Option (List α)
  | _, [], found => some found
  | 0, _ :: _, _ => none
  | n + 1, number :: rest, found =>
    match o.declarations[number]? with
    | none => walk o visit n rest found
    | some d => walk o visit n (d.children ++ rest) (found ++ visit number d)

end Outline

end SignatureDocs
