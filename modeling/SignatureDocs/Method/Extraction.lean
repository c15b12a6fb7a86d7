import SignatureDocs.Method.Basic
import SignatureDocs.Outline.Fault
import SignatureDocs.Path

/-!
From the text of a file to the wanted methods, with the log of what was found on the way.
-/
namespace SignatureDocs

open SignatureDocs.Text SignatureDocs.Grammar

/-- The dialect that an extension stands for, if it is known. -/
def Grammar.Dialect.ofExtension? : String → Option Dialect
  | "tsx" => some .tsx
  | "ts" | "mts" | "cts" => some .typeScript
  | _ => none

/-- The dialect of a file, by its extension; a file of another kind is read as plain declarations. -/
def Grammar.Dialect.ofPath (p : Path) : Dialect :=
  ((Path.extension? p).bind Dialect.ofExtension?).getD .typeScript

/-- An extension that is not known leaves a note. -/
def dialectLog (p : Path) : List LogLine :=
  match (Path.extension? p).bind Dialect.ofExtension? with
  | some _ => []
  | none =>
    let shown := match Path.extension? p with
      | some e => "Some(" ++ quote e ++ ")"
      | none => "None"
    [⟨.outline, .debug, "unrecognized extension; parsing as TypeScript", [("path", p), ("extension", shown)]⟩]

/-- The wanted methods of a text. -/
def extract (d : Dialect) (source : List Char) (s : Selection) : Except ParseFault (List Method) :=
  (Outline.read d source).map (methodsOf source s)

/-- The log of reading a text and visiting its outline. -/
def extractLog (d : Dialect) (source : List Char) (s : Selection) : List LogLine :=
  match Outline.read d source with
  | .error _ => []
  | .ok o =>
    let all := o.declarations
    let read := all.map fun x => (⟨.outline, .trace, "declaration", [("kind", x.kind.label), ("name", x.name),
      ("members", toString x.members.length)]⟩ : LogLine)
    let summary : LogLine :=
      if all.isEmpty then
        ⟨.extraction, .debug, "no class or interface declarations in source", [("lang", d.label)]⟩
      else ⟨.extraction, .debug, "parsed declaration tree",
        [("lang", d.label), ("declarations", toString all.length)]⟩
    let walk := (visits source s o).map Visit.log
    let none : List LogLine :=
      if (methodsOf source s o).isEmpty then
        [⟨.visits, .debug, "no methods extracted", [("declaration", s.declarationName),
          ("available", quoteList (all.map Declaration.name))]⟩]
      else []
    read ++ [summary] ++ walk ++ none

end SignatureDocs
