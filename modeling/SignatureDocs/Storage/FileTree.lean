import SignatureDocs.Path
import SignatureDocs.Storage.Fault
import SignatureDocs.Text.Offset
import SignatureDocs.Text.Utf8

/-!
A tree of files as a value, with the directory in which a program runs. Paths are followed name by name: every
name but the last has to be that of a directory, and two dots lead to the directory above.
-/
namespace SignatureDocs

open SignatureDocs.Text

/-- The names that lead from the root to a place. -/
abbrev Location := List String

/-- Where a name leads from a place, as far as its text says. -/
def Location.enter (l : Location) (name : String) : Location :=
  if name = "" || name = "." then l else if name = ".." then l.dropLast else l ++ [name]

/-- What can stand in a place. -/
inductive Entry where
  | file (bytes : List UInt8)
  | directory
deriving DecidableEq, Repr

/-- The entries of a tree and the place of its working directory. The root is always a directory. -/
structure FileTree where
  entries : List (Location × Entry)
  here : Location
deriving DecidableEq, Repr

namespace FileTree

/-- What stands in a place. -/
def get? (t : FileTree) (l : Location) : Option Entry :=
  if l = [] then some .directory else t.entries.lookup l

/-- Puts something in a place, instead of what stood there. -/
def put (t : FileTree) (l : Location) (e : Entry) : FileTree :=
  { t with entries := (l, e) :: t.entries.filter (·.1 != l) }

/-- The longest name that an entry can have, in bytes. -/
def nameLimit : Nat := 255

/-- The bytes of a path have to be fewer than this. -/
def pathLimit : Nat := 4096

/-- One name after a place, with what stands in the new place. -/
def step (t : FileTree) (l : Location) (name : String) : Except FileFault (Location × Option Entry) :=
  if name = "" || name = "." then .ok (l, some .directory)
  else if name = ".." then .ok (l.dropLast, some .directory)
  else if nameLimit < byteLength name.toList then .error .nameTooLong
  else .ok (l ++ [name], t.get? (l ++ [name]))

/-- Follows names from a place where something may stand. -/
def follow (t : FileTree) : Location → Option Entry → List String → Except FileFault (Location × Option Entry)
  | l, e, [] => .ok (l, e)
  | l, some .directory, name :: names =>
    match t.step l name with
    | .error f => .error f
    | .ok (l', e') => follow t l' e' names
  | _, some (.file _), _ :: _ => .error .notDirectory
  | _, none, _ :: _ => .error .notFound

/-- Where a path starts. -/
def origin (t : FileTree) (p : Path) : Location :=
  if Path.isAbsolute p then [] else t.here

/-- The place of a path, as far as its text says. -/
def written (t : FileTree) (p : Path) : Location :=
  (Path.pieces p).foldl Location.enter (t.origin p)

/-- Paths that no place can have. -/
def pathFault? (p : Path) : Option FileFault :=
  if p.toList.contains '\x00' then some .nullInPath
  else if p = "" then some .notFound
  else if pathLimit ≤ byteLength p.toList then some .nameTooLong
  else none

/-- The place of a path and what stands there. -/
def resolve (t : FileTree) (p : Path) : Except FileFault (Location × Option Entry) :=
  match pathFault? p with
  | some f => .error f
  | none => t.follow (t.origin p) (some .directory) (Path.pieces p)

/-- Does something stand at a path? -/
def isPresent (t : FileTree) (p : Path) : Bool :=
  match t.resolve p with
  | .ok (_, some _) => true
  | _ => false

def isDirectory (t : FileTree) (p : Path) : Bool :=
  match t.resolve p with
  | .ok (_, some .directory) => true
  | _ => false

/-- The bytes of a file. -/
def read (t : FileTree) (p : Path) : Except FileFault (List UInt8) :=
  match t.resolve p with
  | .error f => .error f
  | .ok (_, none) => .error .notFound
  | .ok (_, some .directory) => .error .isDirectory
  | .ok (_, some (.file bytes)) => .ok bytes

/-- The text of a file. -/
def readText (t : FileTree) (p : Path) : Except FileFault (List Char) :=
  match t.read p with
  | .error f => .error f
  | .ok bytes =>
    match decode? bytes with
    | none => .error .notText
    | some cs => .ok cs

/-- Opens a file at its end: its place and the bytes before. A file that is missing starts with none. -/
def openEnd (t : FileTree) (p : Path) : Except FileFault (Location × List UInt8) :=
  match t.resolve p with
  | .error f => .error f
  | .ok (l, none) => .ok (l, [])
  | .ok (_, some .directory) => .error .isDirectory
  | .ok (l, some (.file old)) => .ok (l, old)

/-- Adds bytes to the end of a file, which is made if it is missing. If there is no room for all of them, those that
were taken stay. -/
def append (t : FileTree) (room : Room) (p : Path) (bytes : List UInt8) : FileTree × Option FileFault :=
  match t.openEnd p with
  | .error f => (t, some f)
  | .ok (l, old) => (t.put l (.file (old ++ room.taken bytes)), room.fault? bytes)

/-- Makes one directory. The names are those of its path from the last to the first. -/
def makeDirectory (t : FileTree) (start : Location) : List String → Except FileFault FileTree
  | [] => .error .occupied
  | last :: above =>
    match t.follow start (some .directory) above.reverse with
    | .error f => .error f
    | .ok (_, none) => .error .notFound
    | .ok (_, some (.file _)) => .error .notDirectory
    | .ok (l, some .directory) =>
      if last = "." || last = ".." then .error .occupied
      else
        match t.step l last with
        | .error f => .error f
        | .ok (_, some _) => .error .occupied
        | .ok (l', none) => .ok (t.put l' .directory)

/-- Do names, from the last to the first, lead to a directory? -/
def leadsToDirectory (t : FileTree) (start : Location) (names : List String) : Bool :=
  match t.follow start (some .directory) names.reverse with
  | .ok (_, some .directory) => true
  | _ => false

/-- The names of the directory above, from the last to the first. A dot adds nothing to a path. -/
def above (names : List String) : List String :=
  (names.dropWhile (· = ".")).tail

theorem length_above_lt {names : List String} (h : names ≠ []) : (above names).length < names.length := by
  have hd : (names.dropWhile (· = ".")).length ≤ names.length := (List.dropWhile_suffix _).length_le
  have hp : 0 < names.length := List.length_pos_iff.2 h
  simp only [above, List.length_tail]
  omega

/-- Makes a directory and those above it that are missing; the names of its path go from the last to the
first. What was made stays even if something fails afterwards. -/
def makeDirectories (t : FileTree) (start : Location) (names : List String) : FileTree × Option FileFault :=
  if _ : names = [] then (t, none)
  else
    match t.makeDirectory start names with
    | .ok t' => (t', none)
    | .error .notFound =>
      match makeDirectories t start (above names) with
      | (t', some f) => (t', some f)
      | (t', none) =>
        match t'.makeDirectory start names with
        | .ok t'' => (t'', none)
        | .error f => (t', if t'.leadsToDirectory start names then none else some f)
    | .error f => (t, if t.leadsToDirectory start names then none else some f)
termination_by names.length
decreasing_by exact length_above_lt (by assumption)

/-- Makes the directory of a path and those above it that are missing. The empty path is the working
directory. -/
def createDirectories (t : FileTree) (p : Path) : FileTree × Option FileFault :=
  if p = "" then (t, none)
  else
    match pathFault? p with
    | some f => (t, some f)
    | none => t.makeDirectories (t.origin p) ((Path.pieces p).filter (· != "")).reverse

end FileTree

end SignatureDocs
