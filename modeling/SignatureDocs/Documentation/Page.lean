import SignatureDocs.Storage.FileTree
import SignatureDocs.Text.LowerCase

/-!
Pages of documentation. Each declaration has one page, a file in the output directory, and fragments are added
to its end in the order in which they come.
-/
namespace SignatureDocs

open SignatureDocs.Text

/-- A fault on a path. -/
structure PathFault where
  path : Path
  fault : FileFault
deriving DecidableEq, Repr

def PathFault.message (f : PathFault) : String :=
  "I/O error on " ++ f.path ++ ": " ++ f.fault.message

/-- Removes the first place where a text contains another. -/
def eraseFirst (marker : List Char) : List Char → List Char
  | [] => []
  | c :: cs =>
    if marker.isPrefixOf (c :: cs) then (c :: cs).drop marker.length else c :: eraseFirst marker cs

namespace Page

/-- The file of a declaration's page. -/
def path (outputDir : Path) (declarationName : String) : Path :=
  Path.join outputDir (declarationName ++ ".md")

/-- The line by which a fragment may name its page. The name is in lower case, whatever the file's is. -/
def marker (declarationName : String) : List Char :=
  "filename: ".toList ++ lower declarationName.toList ++ ".md\n".toList

/-- What is added to a page for a fragment: the fragment without the line that names the page, and an empty
line. -/
def addition (declarationName fragment : String) : List Char :=
  eraseFirst (marker declarationName) fragment.toList ++ ['\n', '\n']

/-- Adds a fragment to the page of a declaration, as far as there is room, and gives the path of the page. The output
directory is made if it is missing. -/
def appendOn (room : Room) (t : FileTree) (outputDir : Path) (declarationName fragment : String) :
    FileTree × Except PathFault Path :=
  match t.createDirectories outputDir with
  | (t', some f) => (t', .error ⟨outputDir, f⟩)
  | (t', none) =>
    let p := path outputDir declarationName
    match t'.append room p (encode (addition declarationName fragment)) with
    | (t'', some f) => (t'', .error ⟨p, f⟩)
    | (t'', none) => (t'', .ok p)

/-- Adds a fragment to a page where there is room for it. -/
def append (t : FileTree) (outputDir : Path) (declarationName fragment : String) :
    FileTree × Except PathFault Path :=
  appendOn .enough t outputDir declarationName fragment

end Page

end SignatureDocs
