import SignatureDocs.Documentation.Page
import SignatureDocs.Method.Basic

/-!
What a completion model is asked: an example of documentation, then the method to document.
-/
namespace SignatureDocs

open SignatureDocs.Text

namespace Prompt

/-- What is wanted, between the example and the method. -/
def instruction : String :=
  "Use the provided examples of documenting methods and knowledge of mod-eluna and azerothcore to create " ++
    "markdown docs for this method:"

/-- How long the examples in the documentation should be. -/
def guidance : String := "The examples should not be too simple, and should have 10-20 lines."

/-- The prompt for a method. -/
def build (sample : String) (m : Method) : String :=
  sample ++ "\n\n" ++ instruction ++ "\n\ndeclare class " ++ m.declarationName ++
    " \x7b\n Inline Code Comment: " ++ m.comment ++ " Method: " ++ m.methodName ++ " MethodSignature " ++
    m.signature ++ "\n\x7d " ++ guidance

/-- The example of documentation: the text of a file, or nothing if no file is given. -/
def loadSample (t : FileTree) : Option Path → Except PathFault String
  | none => .ok ""
  | some p =>
    match t.readText p with
    | .ok cs => .ok (String.ofList cs)
    | .error f => .error ⟨p, f⟩

end Prompt

end SignatureDocs
