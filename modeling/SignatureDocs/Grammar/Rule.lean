import SignatureDocs.Grammar.Token
import SignatureDocs.Grammar.Tree

/-!
Rules of a grammar as data, and the one function that reads a text by them. Alternatives are tried in order
and the first that accepts is taken for good; looking ahead takes nothing. Reading is bounded by a budget of
steps, so it always ends, and running out of steps is told apart from a refusal.
-/
namespace SignatureDocs.Grammar

open SignatureDocs.Text

/-- A rule over the phrases `P` of a grammar. -/
inductive Rule (P : Type) where
  | token (t : Token)
  | phrase (p : P)
  | nothing
  | both (first second : Rule P)
  | either (first second : Rule P)
  | many (item : Rule P)
  /-- Accepts where the rule would, and takes nothing. -/
  | ahead (rule : Rule P)
  /-- Accepts where the rule would refuse, and takes nothing. -/
  | absent (rule : Rule P)
  /-- Makes what the rule takes a part of the tree. -/
  | node (part : Part) (rule : Rule P)
deriving DecidableEq

/-- How far reading came: where the farthest lexeme starts that was looked for and not found, and where the
lexeme before it ends. -/
structure Reach where
  last : Nat
  next : Nat
deriving DecidableEq, Repr

namespace Reach

/-- The reach of an attempt at a cursor that failed there. -/
def ofCursor (c : Cursor) : Reach := ⟨c.last.offset, c.next.offset⟩

/-- The start of the text. -/
def zero : Reach := ⟨0, 0⟩

/-- The farther of two. -/
def max (r q : Reach) : Reach := if r.next < q.next then q else r

end Reach

/-- The result of reading by a rule. The `reach` covers this attempt and all that were given up in it. -/
inductive Outcome where
  | accepted (trees : List Tree) (next : Cursor) (reach : Reach)
  | refused (reach : Reach)
  | exhausted

namespace Outcome

/-- An outcome after other attempts that got as far as `reach`. -/
def reaching (reach : Reach) : Outcome → Outcome
  | accepted ts c r => accepted ts c (reach.max r)
  | refused r => refused (reach.max r)
  | exhausted => exhausted

/-- An outcome with other trees before its own. -/
def after (trees : List Tree) : Outcome → Outcome
  | accepted ts c r => accepted (trees ++ ts) c r
  | refused r => refused r
  | exhausted => exhausted

end Outcome

namespace Rule

variable {P : Type}

/-- Reads at a cursor by a rule, in at most `budget` nested steps. -/
def read (grammar : P → Rule P) : (budget : Nat) → Rule P → Cursor → Outcome
  | 0, _, _ => .exhausted
  | n + 1, rule, c =>
    match rule with
    | token t =>
      match t.read? c with
      | some c' => .accepted [] c' .zero
      | none => .refused (.ofCursor c)
    | phrase p => read grammar n (grammar p) c
    | nothing => .accepted [] c .zero
    | both a b =>
      match read grammar n a c with
      | .accepted ts c' r => ((read grammar n b c').after ts).reaching r
      | other => other
    | either a b =>
      match read grammar n a c with
      | .refused r => (read grammar n b c).reaching r
      | other => other
    | many a =>
      match read grammar n a c with
      | .accepted ts c' r =>
        if c.last.offset < c'.last.offset then
          ((read grammar n (many a) c').after ts).reaching r
        else .accepted [] c r
      | .refused r => .accepted [] c r
      | .exhausted => .exhausted
    | ahead a =>
      match read grammar n a c with
      | .accepted _ _ _ => .accepted [] c .zero
      | other => other
    | absent a =>
      match read grammar n a c with
      | .accepted _ _ _ => .refused (.ofCursor c)
      | .refused _ => .accepted [] c .zero
      | .exhausted => .exhausted
    | node p a =>
      match read grammar n a c with
      | .accepted ts c' r => .accepted [.node p ⟨c.next.offset, c'.last.offset⟩ ts] c' r
      | other => other

/-- Rules one after another. -/
def all : List (Rule P) → Rule P
  | [] => nothing
  | [r] => r
  | r :: rs => both r (all rs)

/-- The first rule that accepts; an empty list refuses. -/
def any : List (Rule P) → Rule P
  | [] => absent nothing
  | [r] => r
  | r :: rs => either r (any rs)

/-- The rule or nothing. -/
def opt (r : Rule P) : Rule P := either r nothing

/-- The rule at least once. -/
def many1 (r : Rule P) : Rule P := both r (many r)

/-- The rule once or more, with another rule between. -/
def separated (r separator : Rule P) : Rule P := both r (many (both separator r))

end Rule

end SignatureDocs.Grammar
