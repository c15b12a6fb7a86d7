import SignatureDocs.CommandLine.Options

/-!
Reading the words of a command line. The value of an option may be attached to it or follow as the next word;
one that follows is checked only when the next option comes or the words end, so that a word that is not
understood is reported before it.
-/
namespace SignatureDocs.CommandLine

/-- What has been read in one place. -/
structure Scan where
  /-- The options with their values, in order; those without values have none. -/
  found : List (Opt × String) := []
  /-- An option whose value is still to be checked, with the value if it has come. -/
  pending : Option (Opt × Option String) := none
deriving DecidableEq, Repr

namespace Scan

def has (s : Scan) (o : Opt) : Bool := s.found.any (·.1 = o)

/-- The value of an option. -/
def value? (s : Scan) (o : Opt) : Option String := s.found.lookup o

/-- Is the next word the value of an option? -/
def awaits (s : Scan) : Bool :=
  match s.pending with
  | some (_, none) => true
  | _ => false

/-- Takes in an option with its value. -/
def record (s : Scan) (o : Opt) (v : String) : Except UsageFault Scan :=
  if s.has o then .error .repeated
  else if !o.accepts v then .error .invalidValue
  else .ok { s with found := s.found ++ [(o, v)] }

/-- Checks the option that is pending. -/
def settle (s : Scan) : Except UsageFault Scan :=
  match s.pending with
  | none => .ok s
  | some (_, none) => .error .invalidValue
  | some (o, some v) => { s with pending := none }.record o v

/-- An option that takes no value. -/
def flag (s : Scan) (o : Opt) : Except UsageFault Scan := do
  let s ← s.settle
  match o with
  | .help => .error .help
  | .version => .error .version
  | o => s.record o ""

/-- An option with a value, which is attached or still to come. -/
def option (s : Scan) (o : Opt) (attached : Option String) : Except UsageFault Scan := do
  let s ← s.settle
  match attached with
  | some v => s.record o v
  | none => return { s with pending := some (o, none) }

/-- A word that starts with two hyphens, without them. -/
def longWord (scope : Scope) (s : Scan) (cs : List Char) : Except UsageFault Scan :=
  let name := cs.takeWhile (· != '=')
  let attached := (cs.drop name.length).tail?.map String.ofList
  match scope.long? (String.ofList name) with
  | none => .error .unknownArgument
  | some o =>
    if o.takesValue then s.option o attached
    else if attached.isSome then .error .needlessValue
    else s.flag o

/-- A word that starts with one hyphen, without it. The rest of the word is the value of the first letter that
takes one. -/
def shortWord (scope : Scope) : Scan → List Char → Except UsageFault Scan
  | s, [] => .ok s
  | s, c :: cs =>
    match scope.short? c with
    | none => .error .unknownArgument
    | some o =>
      if o.takesValue then
        s.option o (match cs with
          | [] => none
          | '=' :: v => some (String.ofList v)
          | v => some (String.ofList v))
      else
        match s.flag o with
        | .error f => .error f
        | .ok s' => shortWord scope s' cs

/-- The words after a request for help name commands. -/
def helpOn : List String → UsageFault
  | [] => .help
  | w :: ws =>
    match Scope.ofName? w with
    | some _ => if ws.isEmpty then .help else .unknownCommand
    | none => if w = "help" && ws.isEmpty then .help else .unknownCommand

/-- A word that is neither an option nor a value, nor a command where one may stand; `after` says whether it
follows a lone pair of hyphens. -/
def strayWord (scope : Scope) (after : Bool) (w : String) : UsageFault :=
  match scope with
  | .root =>
    if after && ((Scope.ofName? w).isSome || w = "help") then .unknownArgument else .unknownCommand
  | _ => .unknownArgument

/-- Reads words up to the end or to a command, which comes with the words after it. -/
def words (scope : Scope) : Bool → Scan → List String → Except UsageFault (Scan × Option (Scope × List String))
  | _, s, [] => .ok (s, none)
  | true, _, w :: _ => .error (strayWord scope true w)
  | false, s, w :: ws =>
    match (if scope = .root && !s.awaits then Scope.ofName? w else none) with
    | some command => .ok (s, some (command, ws))
    | none =>
      if scope = .root && !s.awaits && w = "help" then .error (helpOn ws)
      else
        match w.toList with
        | ['-', '-'] => words scope true s ws
        | '-' :: '-' :: cs =>
          match longWord scope s cs with
          | .error f => .error f
          | .ok s' => words scope false s' ws
        | '-' :: c :: cs =>
          match shortWord scope s (c :: cs) with
          | .error f => .error f
          | .ok s' => words scope false s' ws
        | _ =>
          match s.pending with
          | some (o, none) => words scope false { s with pending := some (o, some w) } ws
          | _ => .error (strayWord scope false w)

/-- Checks what has been read after a command: the value that is pending, then that nothing is missing. -/
def finish (scope : Scope) (s : Scan) : Except UsageFault Scan := do
  let s ← s.settle
  if scope.required.all s.has then return s else .error .missingRequired

end Scan

end SignatureDocs.CommandLine
