import SignatureDocs.Program.Command
import SignatureDocs.Program.LogFilter

/-!
A whole run of the program, from its command line to its exit code.
-/
namespace SignatureDocs

/-- What a run leaves, says and ends with. -/
structure Ending where
  files : FileTree
  exchange : Exchange
  exitCode : Nat
  stdout : String
  stderr : String
  log : List LogLine

/-- The name of the program and its version. -/
def versionText : String := "sigdoc 0.1.0\n"

/-- How the program is called. -/
def usageText : String :=
  "Extract TypeScript method signatures and generate markdown docs\n\nUsage: sigdoc [OPTIONS] <COMMAND>\n\n" ++
    "Commands:\n  extract   Print the methods of a class or interface as JSON\n" ++
    "  generate  Extract methods and render markdown documentation for each\n"

/-- Ends a run whose command line was not understood or asks for something else. -/
def endWithUsage (w : World) (f : CommandLine.UsageFault) : Ending :=
  let text := match f with
    | .version => versionText
    | _ => usageText
  if f.exitCode = 0 then ⟨w.files, w.exchange, 0, text, "", []⟩
  else ⟨w.files, w.exchange, f.exitCode, "", text, []⟩

/-- Runs the program. -/
def runProgramOn (machine : Machine) (w : World) (args : List String) : Ending :=
  match CommandLine.parse args with
  | .error f => endWithUsage w f
  | .ok i =>
    let r := i.runOn machine w
    let log := r.log.filter (logFilter w.environment i.options).shows
    match r.result with
    | .ok out => ⟨r.files, r.exchange, 0, out, "", log⟩
    | .error f => ⟨r.files, r.exchange, 1, "", "sigdoc error: " ++ f.message ++ "\n", log⟩

/-- Runs the program on a sound machine. -/
def runProgram (w : World) (args : List String) : Ending := runProgramOn .sound w args

end SignatureDocs
