import SignatureDocs.Log
import SignatureDocs.Method.Comment
import SignatureDocs.Method.Filter
import SignatureDocs.Outline.OfTree
import SignatureDocs.Text.Quoted

/-!
The methods of a declaration with their signatures and comments. Declarations are visited in the order of the
text; every declaration of the wanted name gives its methods, wherever it is nested.
-/
namespace SignatureDocs

open SignatureDocs.Text

/-- A method to document. -/
structure Method where
  declarationName : String
  methodName : String
  signature : String
  comment : String
deriving DecidableEq, Repr

namespace Method

/-- The name of a method together with that of its declaration. -/
def qualifiedName (m : Method) : String := m.declarationName ++ "." ++ m.methodName

def hasComment (m : Method) : Bool := m.comment != ""

end Method

/-- Which methods are wanted: those of one declaration that a filter lets through. -/
structure Selection where
  declarationName : String
  filter : NameFilter
deriving DecidableEq, Repr

/-- What happens on the way through an outline. -/
inductive Visit where
  /-- The declaration has another name. -/
  | skipped (kind : DeclarationKind) (name : String)
  /-- The filter does not let a method through. -/
  | filtered (declarationName methodName : String)
  | found (m : Method)
deriving DecidableEq, Repr

namespace Visit

def method? : Visit → Option Method
  | found m => some m
  | _ => none

/-- The visit to one member of a declaration of the wanted name. -/
def member? (source : List Char) (s : Selection) (declarationName : String) (m : Member) :
    Option Visit :=
  match m.kind, m.name with
  | .method, some name =>
    if s.filter.accepts name then
      (slice? source m.span).map fun signature =>
        found ⟨declarationName, name, String.ofList signature, leadingComment source m.trivia⟩
    else some (filtered declarationName name)
  | _, _ => none

/-- The visit to one declaration. -/
def declaration (source : List Char) (s : Selection) (d : Declaration) : List Visit :=
  if d.name = s.declarationName then d.members.filterMap (member? source s d.name)
  else [skipped d.kind d.name]

/-- The log line of a visit. -/
def log : Visit → LogLine
  | skipped kind name => ⟨.visits, .trace, "skipping declaration", [("kind", kind.label), ("name", name)]⟩
  | filtered declarationName methodName =>
    ⟨.visits, .trace, "filtered out", [("declaration", declarationName), ("method", quote methodName)]⟩
  | found m =>
    ⟨.visits, .trace, "extracted", [("method", m.qualifiedName), ("commented", toString m.hasComment)]⟩

end Visit

/-- All visits on the way through an outline, each of whose declarations is visited once. -/
def visits (source : List Char) (s : Selection) (o : Outline) : List Visit :=
  (o.walk (fun _ => Visit.declaration source s) o.declarations.length o.roots []).getD []

/-- The wanted methods of an outline. -/
def methodsOf (source : List Char) (s : Selection) (o : Outline) : List Method :=
  (visits source s o).filterMap Visit.method?

end SignatureDocs
