import SignatureDocs.Program.Run

/-!
The program at the command line. The places that a run can look at are read first, the run itself works on that
picture of the files, and what it changed is written at the end. Nothing is sent to a provider: every request
stays without an answer.
-/
namespace SignatureDocs

open SignatureDocs.Text

/-- The variables in a block of texts of the form `name=value`, each ended by a null byte. -/
def Environment.ofBlock (bytes : List UInt8) : Environment :=
  (bytes.splitOn 0).filterMap fun b =>
    let cs := decodeLossy b
    let name := cs.takeWhile (· != '=')
    if name.length < cs.length then some (String.ofList name, String.ofList (cs.drop (name.length + 1))) else none

/-- The absolute path of a place. -/
def Location.path (l : Location) : Path := "/" ++ String.intercalate "/" l

/-- What stands at an absolute path. -/
def look (p : Path) : IO (Option Entry) := do
  try
    return some (.file (← IO.FS.readBinFile p).toList)
  catch
    | .inappropriateType .. => return some .directory
    | _ => return none

/-- Takes a place and those above it into the picture of the files. -/
def picture (t : FileTree) (p : Path) : IO FileTree := do
  let l := t.written p
  let mut t := t
  for n in [1:l.length + 1] do
    let m := l.take n
    if (t.get? m).isNone then
      if let some e ← look (Location.path m) then
        t := t.put m e
  return t

/-- The places that a run looks at, whatever its settings are. -/
def Invocation.places (i : Invocation) (env : Environment) : List Path :=
  match i.command with
  | .extract t => [".", t.file]
  | .generate t _ => [".", t.file, ".env", projectFile] ++ (userFile? env).toList ++ i.options.config.toList

/-- The further places that a run looks at with its settings. -/
def Invocation.placesOf (i : Invocation) (s : Settings) : List Path :=
  match i.command with
  | .extract _ => []
  | .generate t g =>
    Page.path (g.outDir.getD s.render.outputDir) t.declarationName :: (g.sample.or s.render.samplePath).toList

/-- Takes all places that a run looks at into the picture of the files. -/
def survey (w : World) (i : Invocation) : IO World := do
  let files ← (i.places w.environment).foldlM picture w.files
  let w := { w with files }
  match loadSettings w i.options with
  | .error _ => return w
  | .ok s => return { w with files := ← (i.placesOf s).foldlM picture files }

/-- Writes what a run has changed, directories before what stands in them. -/
def save (old new : FileTree) : IO Unit := do
  for (l, e) in new.entries.reverse do
    if old.get? l != some e then
      match e with
      | .directory => IO.FS.createDirAll (Location.path l)
      | .file bytes => IO.FS.writeBinFile (Location.path l) ⟨bytes.toArray⟩

/-- The world before a run, without any of its files. -/
def startingWorld : IO World := do
  let here := (Path.components (toString (← IO.currentDir)))
  let env ← try pure (← IO.FS.readBinFile "/proc/self/environ").toList catch _ => pure []
  return ⟨⟨[], here⟩, Environment.ofBlock env, ⟨fun _ => none, []⟩⟩

end SignatureDocs

open SignatureDocs in
/-- Runs the program and ends with its exit code. -/
def main (args : List String) : IO UInt32 := do
  let start ← startingWorld
  let w ← match CommandLine.parse args with
    | .ok i => survey start i
    | .error _ => pure start
  let e := runProgram w args
  save w.files e.files
  for l in e.log do
    IO.eprintln l.render
  IO.print e.stdout
  IO.eprint e.stderr
  return UInt32.ofNat e.exitCode
