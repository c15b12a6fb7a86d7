import SignatureDocs.Program.Failure

/-!
The commands of the program. A command takes the state of the world around it, which is its files, its
environment and the answers of the providers, and gives what it leaves behind and what it says.
-/
namespace SignatureDocs

/-- What a command finds around it. -/
structure World where
  files : FileTree
  environment : Environment
  exchange : Exchange

/-- What a command leaves and says. -/
structure Report where
  files : FileTree
  exchange : Exchange
  result : Except Failure String
  log : List LogLine

/-- A report of a command that changed nothing. -/
def World.report (w : World) (result : Except Failure String) (log : List LogLine) : Report :=
  ⟨w.files, w.exchange, result, log⟩

/-- A method as a record. -/
def Method.toJson (m : Method) : Json :=
  .record [("declaration_name", .ofString m.declarationName), ("method_name", .ofString m.methodName),
    ("signature_text", .ofString m.signature), ("comment_text", .ofString m.comment)]

/-- What a command prints for a value. -/
def printed (l : Json.Layout) (v : Json) : String := v.text l ++ "\n"

namespace Target

/-- The wanted methods of the file. -/
def extract (t : Target) (files : FileTree) : Except Failure (List Method) :=
  (extractFile files t.file t.selection).mapError (.extraction t.declarationName t.file)

/-- The log of looking for the wanted methods. -/
def extractLog (t : Target) (files : FileTree) : List LogLine :=
  extractFileLog files t.file t.selection ++
    match t.extract files with
    | .error _ => []
    | .ok [] => [⟨.command, .warn, "no methods matched", [("declaration", t.declarationName), ("file", t.file)]⟩]
    | .ok ms => [⟨.command, .debug, "extracted methods", [("count", toString ms.length)]⟩]

end Target

/-- Prints the wanted methods of a file. -/
def runExtract (w : World) (o : GlobalOptions) (t : Target) : Report :=
  w.report ((t.extract w.files).map fun ms => printed o.format (.array (ms.map Method.toJson)))
    (t.extractLog w.files)

/-- The file of environment variables in the working directory. -/
def FileTree.envFile (t : FileTree) : Path :=
  Path.join ("/" ++ String.intercalate "/" t.here) ".env"

/-- The environment with what the file of variables sets. -/
def loadEnvironment (w : World) : Except Failure Environment :=
  let p := w.files.envFile
  if w.files.isPresent p then
    match w.files.readText p with
    | .error f => .error (.envFile p (.unreadable f))
    | .ok cs => (EnvFile.load w.environment cs).mapError fun f => .envFile p (.badLine f)
  else .ok w.environment

/-- The settings, after the file of variables has been read. -/
def loadSettings (w : World) (o : GlobalOptions) : Except Failure Settings := do
  let env ← loadEnvironment w
  (Settings.load w.files env o.config).mapError (.settings o.config)

/-- What the documentation of a declaration came to. -/
structure GenerateSummary where
  declarationName : String
  model : Model
  summary : Summary
deriving DecidableEq, Repr

def GenerateSummary.toJson (s : GenerateSummary) : Json :=
  .record [("declaration", .ofString s.declarationName), ("model", .ofString s.model.name),
    ("rendered", .ofNat s.summary.rendered), ("files", .array (s.summary.pages.map Json.ofString))]

/-- The pipeline of a client. -/
def Client.pipeline (c : Client) (m : Model) (sample : String) (outputDir : Path) : Pipeline Exchange where
  model := m
  sample := sample
  outputDir := outputDir
  complete := c.complete
  askLog := [c.requestLog m]

/-- What the machine decides: why no client can be made for a timeout, if none can, and what its disk makes of
writes. -/
structure Machine where
  noClient : UInt64 → Option HttpFault
  disk : Disk

/-- A machine on which clients can be made and that has room for everything. -/
def Machine.sound : Machine := ⟨fun _ => none, .roomy⟩

/-- Makes documentation with settings that have been loaded. Without methods nothing else is needed; else the
example is read first, then the provider has to be usable. -/
def generateOn (machine : Machine) (w : World) (o : GlobalOptions) (t : Target) (g : GenerateOptions)
    (s : Settings) : Report :=
  let m := g.model.getD s.render.model
  let outputDir := g.outDir.getD s.render.outputDir
  let log := t.extractLog w.files
  let done := fun (summary : Summary) =>
    printed o.format (GenerateSummary.toJson ⟨t.declarationName, m, summary⟩)
  match t.extract w.files with
  | .error f => w.report (.error f) log
  | .ok [] => w.report (.ok (done {})) log
  | .ok ms =>
    match Prompt.loadSample w.files (g.sample.or s.render.samplePath) with
    | .error f => w.report (.error (.sample f)) log
    | .ok sample =>
      match Client.ofSettings s m with
      | .error f => w.report (.error (.provider m f)) log
      | .ok c =>
        match machine.noClient s.render.timeoutSecs with
        | some f => w.report (.error (.connection m f)) log
        | none =>
          let (p, fault) := (c.pipeline m sample outputDir).runOn machine.disk w.exchange w.files ms
          let result := match fault with
            | some f => .error (.generation f)
            | none => .ok (done p.summary)
          ⟨p.files, p.source, result, log ++ p.log⟩

/-- Makes documentation for the wanted methods of a file. -/
def runGenerateOn (machine : Machine) (w : World) (o : GlobalOptions) (t : Target) (g : GenerateOptions) : Report :=
  match loadSettings w o with
  | .error f => w.report (.error f) []
  | .ok s => generateOn machine w o t g s

/-- Runs what a command line asks for. -/
def Invocation.runOn (machine : Machine) (i : Invocation) (w : World) : Report :=
  match i.command with
  | .extract t => runExtract w i.options t
  | .generate t g => runGenerateOn machine w i.options t g

/-- Runs what a command line asks for on a sound machine. -/
def Invocation.run (i : Invocation) (w : World) : Report := i.runOn .sound w

end SignatureDocs
