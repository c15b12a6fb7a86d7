import SignatureDocs.Method.Extraction
import SignatureDocs.Storage.FileTree

/-!
The wanted methods of a file.
-/
namespace SignatureDocs

open SignatureDocs.Text SignatureDocs.Grammar

/-- Why no methods could be taken from a file. -/
inductive ExtractFault where
  | unreadable (path : Path) (fault : FileFault)
  | unparsable (fault : ParseFault)
deriving DecidableEq, Repr

namespace ExtractFault

def message : ExtractFault → String
  | unreadable p f => "Failed to read " ++ p ++ ": " ++ f.message
  | unparsable f => f.message

end ExtractFault

/-- The wanted methods of a file. -/
def extractFile (t : FileTree) (p : Path) (s : Selection) : Except ExtractFault (List Method) :=
  match t.readText p with
  | .error f => .error (.unreadable p f)
  | .ok source => (extract (Dialect.ofPath p) source s).mapError .unparsable

/-- The log of taking methods from a file. -/
def extractFileLog (t : FileTree) (p : Path) (s : Selection) : List LogLine :=
  match t.readText p with
  | .error _ => []
  | .ok source =>
    let d := Dialect.ofPath p
    dialectLog p ++ ⟨.extraction, .debug, "parsing declaration file",
      [("file", p), ("lang", d.label), ("bytes", toString (byteLength source))]⟩ :: extractLog d source s

end SignatureDocs
