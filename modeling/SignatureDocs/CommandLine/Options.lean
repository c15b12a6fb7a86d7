import SignatureDocs.Path
import SignatureDocs.Settings.Model

/-!
The options of the command line, where each may stand and what values it takes.
-/
namespace SignatureDocs.CommandLine

/-- An option. -/
inductive Opt where
  | format
  | quiet
  | verbose
  | config
  | help
  | version
  | file
  | declaration
  | includes
  | excludes
  | model
  | outDir
  | sample
deriving DecidableEq, Repr

namespace Opt

/-- The name of an option after two hyphens. -/
def long : Opt → String
  | format => "format"
  | quiet => "quiet"
  | verbose => "verbose"
  | config => "config"
  | help => "help"
  | version => "version"
  | file => "file"
  | declaration => "class"
  | includes => "include"
  | excludes => "exclude"
  | model => "model"
  | outDir => "out-dir"
  | sample => "example"

/-- The letter of an option after one hyphen, if it has one. -/
def short? : Opt → Option Char
  | quiet => some 'q'
  | verbose => some 'v'
  | help => some 'h'
  | version => some 'V'
  | file => some 'f'
  | declaration => some 'c'
  | includes => some 'i'
  | excludes => some 'e'
  | model => some 'm'
  | format | config | outDir | sample => none

/-- Does an option take a value? -/
def takesValue : Opt → Bool
  | quiet | verbose | help | version => false
  | _ => true

/-- May an option have a value? Paths are not empty, and formats and models are known. -/
def accepts : Opt → String → Bool
  | format, v => v = "json" || v = "raw"
  | model, v => (Model.ofName? v).isSome
  | config, v | file, v | outDir, v | sample, v => v != ""
  | _, _ => true

end Opt

/-- Where options stand: before the command or after one. -/
inductive Scope where
  | root
  | extract
  | generate
deriving DecidableEq, Repr

namespace Scope

/-- Options that may stand anywhere. -/
def anywhere : List Opt := [.format, .quiet, .verbose, .config, .help]

/-- Options that say what is wanted of a file. -/
def target : List Opt := [.file, .declaration, .includes, .excludes]

/-- The options that may stand in a place. -/
def options : Scope → List Opt
  | root => anywhere ++ [.version]
  | extract => anywhere ++ target
  | generate => anywhere ++ target ++ [.model, .outDir, .sample]

/-- The option of a name in a place. -/
def long? (s : Scope) (name : String) : Option Opt := s.options.find? (·.long = name)

/-- The option of a letter in a place. -/
def short? (s : Scope) (c : Char) : Option Opt := s.options.find? (·.short? = some c)

/-- The options without which a command cannot run. -/
def required : Scope → List Opt
  | root => []
  | extract | generate => [.file, .declaration]

/-- The command of a name. -/
def ofName? : String → Option Scope
  | "extract" => some extract
  | "generate" => some generate
  | _ => none

end Scope

/-- Why the command line is not understood, or what it asks for instead of a command. -/
inductive UsageFault where
  | help
  | version
  /-- Nothing was given at all. -/
  | nothingGiven
  | missingRequired
  | unknownArgument
  | invalidValue
  /-- An option is given twice. -/
  | repeated
  /-- A value is given to an option that takes none. -/
  | needlessValue
  | unknownCommand
  | missingCommand
deriving DecidableEq, Repr

/-- The exit code: asking for help or for the version is no failure. -/
def UsageFault.exitCode : UsageFault → Nat
  | help | version => 0
  | _ => 2

end SignatureDocs.CommandLine
