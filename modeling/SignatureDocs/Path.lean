/-!
Paths of files, written with slashes.
-/
namespace SignatureDocs

/-- A path as it is written. -/
abbrev Path := String

namespace Path

/-- Does a path start at the root? -/
def isAbsolute (p : Path) : Bool := p.toList.head? = some '/'

/-- The pieces of a path between its slashes. -/
def pieces (p : Path) : List String := (p.toList.splitOn '/').map String.ofList

/-- The pieces of a path that name something: no empty pieces, and no dot except the first of a relative
path. -/
def components (p : Path) : List String :=
  let named := fun s => s != "" && s != "."
  if isAbsolute p then (pieces p).filter named
  else
    match pieces p with
    | [] => []
    | first :: rest => (if first = "" then [] else [first]) ++ rest.filter named

/-- Do two paths differ at most in spelling? -/
def same (p q : Path) : Bool := isAbsolute p = isAbsolute q && components p = components q

/-- The last piece of a path, unless it leads upwards or nowhere. -/
def fileName? (p : Path) : Option String :=
  match (components p).getLast? with
  | some "." | some ".." | none => none
  | some name => some name

/-- What follows the last dot of the file name, if something stands before that dot. -/
def extension? (p : Path) : Option String :=
  (fileName? p).bind fun name =>
    let cs := name.toList
    let tail := (cs.reverse.takeWhile (· != '.')).reverse
    let stem := cs.length - tail.length - 1
    if tail.length < cs.length && 0 < stem then some (String.ofList tail) else none

/-- A path inside another; an absolute one stays as it is. -/
def join (base child : Path) : Path :=
  if isAbsolute child then child
  else if base = "" || base.toList.getLast? = some '/' then base ++ child
  else base ++ "/" ++ child

end Path

end SignatureDocs
