import SignatureDocs.Settings.Decode
import SignatureDocs.Storage.FileTree
import SignatureDocs.Toml.Document

/-!
Where settings come from, each over the one before: what is built in, the user's file, the project's file, a
file that is named, and the environment.
-/
namespace SignatureDocs

open SignatureDocs.Text

/-- Why settings could not be loaded. -/
inductive SettingsFault where
  /-- A file is no text or has no right form; its path is as messages show it. -/
  | unreadable (shown : String)
  | misfit (fault : SettingFault)
  /-- The file that is named is missing. -/
  | missingFile (path : Path)
deriving DecidableEq, Repr

namespace SettingsFault

/-- The cause in words. -/
def cause : SettingsFault → String
  | unreadable shown => "invalid TOML in " ++ shown ++ " TOML file"
  | misfit f => f.message
  | missingFile p => "config file " ++ p ++ " does not exist"

def message : SettingsFault → String
  | missingFile p => "config file " ++ p ++ " does not exist"
  | f => "failed to load sigdoc configuration: " ++ f.cause

end SettingsFault

/-- The names on the way from one absolute place to another. -/
def Path.between : List String → List String → List String
  | a :: target, b :: base =>
    if a = b then Path.between target base
    else (".." :: base.map fun _ => "..") ++ a :: target
  | target, [] => target
  | [], base => base.map fun _ => ".."

/-- How messages show the path of a file: from the working directory, if that has fewer names. -/
def FileTree.shown (t : FileTree) (p : Path) : String :=
  let names := if Path.isAbsolute p then Path.components p else t.here ++ (Path.components p).filter (· != ".")
  let short := Path.between names t.here
  if short.length < names.length + 1 then String.intercalate "/" short
  else "/" ++ String.intercalate "/" names

/-- The layer that is built in. All of it comes again when settings are decoded, except that the tables of the
sections are there to be laid over. -/
def builtInLayer : Layer :=
  [("anthropic", .table .builtIn []), ("openai", .table .builtIn []), ("render", .table .builtIn [])]

/-- The layer of a file. A directory in its place gives an empty one. -/
def fileLayer (t : FileTree) (p : Path) : Except SettingsFault Layer :=
  if t.isDirectory p then .ok []
  else
    match t.readText p with
    | .error _ => .error (.unreadable (t.shown p))
    | .ok cs =>
      match Toml.parse? cs with
      | none => .error (.unreadable (t.shown p))
      | some fields => .ok (Layer.ofFile (t.shown p) fields)

/-- The layer of a file that may be missing. -/
def optionalLayer (t : FileTree) (p : Path) : Except SettingsFault Layer :=
  if t.isPresent p then fileLayer t p else .ok []

/-- The user's file: in the directory that a variable names if that is an absolute path, else in the usual
place at home. -/
def userFile? (env : Environment) : Option Path :=
  let rest := "sigdoc/config.toml"
  match env.lookup "XDG_CONFIG_HOME" with
  | some d =>
    if Path.isAbsolute d then some (Path.join d rest)
    else (env.lookup "HOME").map fun h => Path.join (Path.join h ".config") rest
  | none => (env.lookup "HOME").map fun h => Path.join (Path.join h ".config") rest

/-- The project's file. -/
def projectFile : Path := ".sigdoc/config.toml"

/-- The layers of all files, from below. -/
def fileLayers (t : FileTree) (env : Environment) (named : Option Path) :
    Except SettingsFault (List Layer) := do
  let user ← match userFile? env with
    | some p => optionalLayer t p
    | none => .ok []
  let project ← optionalLayer t projectFile
  let extra ← match named with
    | some p => fileLayer t p
    | none => .ok []
  return [user, project, extra]

/-- Loads the settings. -/
def Settings.load (t : FileTree) (env : Environment) (named : Option Path) :
    Except SettingsFault Settings :=
  match named.filter (!t.isPresent ·) with
  | some p => .error (.missingFile p)
  | none =>
    match fileLayers t env named with
    | .error f => .error f
    | .ok layers =>
      let merged := (layers ++ [environmentLayer env]).foldl Layer.overlay builtInLayer
      (Settings.ofLayer merged).mapError .misfit

end SignatureDocs
