import SignatureDocs.Outline.Basic

/-!
From the tree of a file to its outline. A declaration without a name leaves no trace, and what is declared
inside it belongs to the declaration around it.
-/
namespace SignatureDocs

open SignatureDocs.Text SignatureDocs.Grammar

/-- The text of a span as a string. -/
def textOf (source : List Char) (s : Span) : String :=
  String.ofList (slice source s)

/-- The first child that is the given part. -/
def childPart? (part : Part) (children : List Tree) : Option Tree :=
  children.find? fun t => t.part = part

/-- The end of a member together with a separator behind it, which spaces and tabs may precede. -/
def separatorEnd (source : List Char) (stop : Nat) : Nat :=
  let rest := (dropBytes? source stop).getD []
  let gap := rest.takeWhile fun c => c = ' ' || c = '\t'
  match rest.drop gap.length with
  | ';' :: _ | ',' :: _ => stop + gap.length + 1
  | _ => stop

/-- The kind of a member of a class or interface: a method is an accessor by its first word and, in a class, a
constructor by its name. -/
def memberKind (owner : DeclarationKind) (form : MemberForm) (name : Option String)
    (children : List Tree) : MemberKind :=
  match form with
  | .property => .property
  | .indexSignature => .indexSignature
  | .callSignature => .callSignature
  | .other => .other
  | .method =>
    if (childPart? .accessorWord children).isSome then .accessor
    else if owner = .classKind && name = some "constructor" then .constructorMethod
    else .method

/-- Where the next member's trivia starts, and the first decorator that waits for its member. -/
structure BodyState where
  cursor : Nat
  decorated : Option Nat

/-- Reads the parts of a body in order. -/
def membersFrom (source : List Char) (owner : DeclarationKind) : BodyState → List Tree → List Member
  | _, [] => []
  | st, .node part span children :: rest =>
    match part with
    | .separator => membersFrom source owner { st with cursor := span.stop } rest
    | .decorator =>
      membersFrom source owner { st with decorated := some (st.decorated.getD span.start) } rest
    | .member form =>
      let start := st.decorated.getD span.start
      let stop := separatorEnd source span.stop
      let name := (childPart? .memberName children).map fun t => textOf source t.span
      ⟨memberKind owner form name children, name, ⟨start, stop⟩, ⟨st.cursor, start⟩⟩ ::
        membersFrom source owner ⟨stop, none⟩ rest
    | _ => membersFrom source owner st rest

/-- The members of a declaration, from the parts directly inside it. -/
def membersOf (source : List Char) (owner : DeclarationKind) (children : List Tree) : List Member :=
  match childPart? .body children with
  | none => []
  | some body => membersFrom source owner ⟨body.span.start, none⟩ body.children

/-- The declaration that a tree stands for, with nothing inside it yet. -/
def declaration? (source : List Char) : Tree → Option Declaration
  | .node (.declaration kind) span children =>
    (childPart? .declarationName children).map fun name =>
      ⟨kind, textOf source name.span, span, membersOf source kind children, []⟩
  | _ => none

/-- An outline in the making, with the declarations that are still open, the innermost first: where each ends
and its number. -/
structure Draft where
  outline : Outline
  opened : List (Nat × Nat)

/-- Closes the declarations that end before an offset. -/
def closeBefore (offset : Nat) (opened : List (Nat × Nat)) : List (Nat × Nat) :=
  opened.dropWhile fun (stop, _) => stop ≤ offset

/-- Adds the declaration of a tree, if it is one, inside the innermost that is open where it starts. -/
def Draft.visit (source : List Char) (s : Draft) (t : Tree) : Draft :=
  match declaration? source t with
  | none => s
  | some d =>
    let opened := closeBefore d.span.start s.opened
    ⟨s.outline.add d (opened.head?.map Prod.snd),
      (d.span.stop, s.outline.declarations.length) :: opened⟩

/-- The outline of a list of trees. -/
def outlineOf (source : List Char) (trees : List Tree) : Outline :=
  ((Tree.preorderAll trees).foldl (Draft.visit source) ⟨.empty, []⟩).outline

end SignatureDocs
