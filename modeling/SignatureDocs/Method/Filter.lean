import SignatureDocs.Text.Blank

/-!
Which methods are documented: lists of names to include and to exclude. Excluding wins.
-/
namespace SignatureDocs

open SignatureDocs.Text

/-- A set of names as a list without repetitions, in the order of their UTF-8 bytes, which is that of their
code points. -/
abbrev NameSet := List String

namespace NameSet

/-- Adds a name in its place. -/
def insert (name : String) : NameSet → NameSet
  | [] => [name]
  | n :: ns => if name < n then name :: n :: ns else if name = n then n :: ns else n :: insert name ns

/-- The set of the names of a list. -/
def ofList (names : List String) : NameSet := names.foldr insert []

/-- Names between commas. Blanks around a name do not count, and a name that is then empty is none. -/
def parse (raw : String) : NameSet :=
  let pieces := raw.toList.splitOn ','
  ofList (((pieces.map trim).filter (!·.isEmpty)).map String.ofList)

end NameSet

/-- The names to include, all if none are given, and the names to exclude. -/
structure NameFilter where
  includes : Option NameSet
  excludes : NameSet
deriving DecidableEq, Repr

namespace NameFilter

def excluded (f : NameFilter) (name : String) : Bool := f.excludes.contains name

def included (f : NameFilter) (name : String) : Bool := f.includes.all (·.contains name)

/-- A name is taken if it is included and not excluded. -/
def accepts (f : NameFilter) (name : String) : Bool := !f.excluded name && f.included name

end NameFilter

end SignatureDocs
