import SignatureDocs.CommandLine.Scan
import SignatureDocs.Json.Basic
import SignatureDocs.Method.Basic

/-!
What a command line asks for. An option that may stand anywhere counts where it stands last: before the command
or after it.
-/
namespace SignatureDocs

/-- Options of all commands. -/
structure GlobalOptions where
  format : Json.Layout
  quiet : Bool
  verbose : Bool
  /-- A further file of settings. -/
  config : Option Path
deriving DecidableEq, Repr

/-- What is wanted of a file. -/
structure Target where
  file : Path
  declarationName : String
  includes : Option NameSet
  excludes : Option NameSet
deriving DecidableEq, Repr

/-- The selection of methods that is wanted. -/
def Target.selection (t : Target) : Selection := ⟨t.declarationName, ⟨t.includes, t.excludes.getD []⟩⟩

/-- What documentation is wanted; what is not given comes from the settings. -/
structure GenerateOptions where
  model : Option Model
  outDir : Option Path
  sample : Option Path
deriving DecidableEq, Repr

inductive Command where
  | extract (target : Target)
  | generate (target : Target) (options : GenerateOptions)
deriving DecidableEq, Repr

structure Invocation where
  options : GlobalOptions
  command : Command
deriving DecidableEq, Repr

namespace CommandLine

/-- The options for all commands, from the words before and after the command. -/
def globalOptions (root sub : Scan) : GlobalOptions :=
  let value := fun (o : Opt) => (sub.value? o).or (root.value? o)
  let given := fun (o : Opt) => sub.has o || root.has o
  ⟨if value .format = some "raw" then .compact else .pretty, given .quiet, given .verbose, value .config⟩

/-- The wanted methods. -/
def targetOf (s : Scan) : Target :=
  ⟨(s.value? .file).getD "", (s.value? .declaration).getD "", (s.value? .includes).map NameSet.parse,
    (s.value? .excludes).map NameSet.parse⟩

/-- The command of a place. -/
def commandOf (scope : Scope) (s : Scan) : Command :=
  match scope with
  | .generate =>
    .generate (targetOf s)
      ⟨(s.value? .model).bind Model.ofName?, s.value? .outDir, s.value? .sample⟩
  | _ => .extract (targetOf s)

/-- Understands a command line, given without the name of the program. -/
def parse (args : List String) : Except UsageFault Invocation := do
  let (root, rest) ← Scan.words .root false {} args
  match rest with
  | none =>
    let root ← root.settle
    .error (if root.found.isEmpty then .nothingGiven else .missingCommand)
  | some (scope, ws) =>
    let (sub, _) ← Scan.words scope false {} ws
    let sub ← sub.finish scope
    let root ← root.settle
    return ⟨globalOptions root sub, commandOf scope sub⟩

end CommandLine

end SignatureDocs
