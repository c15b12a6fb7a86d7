import SignatureDocs.Completion.Client
import SignatureDocs.Documentation.Prompt

/-!
Documentation for a list of methods: for each one in turn a completion is asked for and added to the page of its
declaration. The first failure ends the run; what was written before it stays, and so does what the disk took of a
fragment that did not fit.
-/
namespace SignatureDocs

/-- Why documentation could not be made. -/
inductive RenderFault where
  | completion (fault : CompletionFault)
  | storage (fault : PathFault)
deriving DecidableEq, Repr

def RenderFault.message : RenderFault → String
  | completion f => f.message
  | storage f => f.message

/-- What a run has done: the number of methods, and the pages in the order in which they were first written. -/
structure Summary where
  rendered : Nat := 0
  pages : List Path := []
deriving DecidableEq, Repr

/-- Takes in a page that was written. Paths that differ only in spelling are the same page. -/
def Summary.add (s : Summary) (page : Path) : Summary :=
  ⟨s.rendered + 1, if s.pages.any (Path.same page) then s.pages else s.pages ++ [page]⟩

/-- How documentation is made, with a source of completions that has a state. -/
structure Pipeline (σ : Type) where
  model : Model
  /-- The example of documentation that every prompt starts with. -/
  sample : String
  outputDir : Path
  complete : σ → Model → String → σ × Except CompletionFault String
  /-- What is noted when a completion is asked for. -/
  askLog : List LogLine := []

/-- What the disk makes of the writes of a run, by the number of methods before. -/
abbrev Disk := Nat → Room

/-- A disk that takes everything. -/
def Disk.roomy : Disk := fun _ => .enough

/-- How far a run has come. -/
structure Progress (σ : Type) where
  source : σ
  files : FileTree
  summary : Summary := {}
  log : List LogLine := []

namespace Pipeline

variable {σ : Type}

/-- One method. -/
def step (p : Pipeline σ) (room : Room) (s : Progress σ) (m : Method) : Progress σ × Option RenderFault :=
  let asked := s.log ++ p.askLog
  match p.complete s.source p.model (Prompt.build p.sample m) with
  | (source, .error f) => ({ s with source, log := asked }, some (.completion f))
  | (source, .ok fragment) =>
    let log := asked ++ [⟨.pipeline, .info, "writing documentation for " ++ m.qualifiedName, []⟩]
    match Page.appendOn room s.files p.outputDir m.declarationName fragment with
    | (files, .error f) => ({ s with source, files, log }, some (.storage f))
    | (files, .ok page) => (⟨source, files, s.summary.add page, log⟩, none)

/-- The methods of a list until one fails. -/
def steps (p : Pipeline σ) : Disk → Progress σ → List Method → Progress σ × Option RenderFault
  | _, s, [] => (s, none)
  | disk, s, m :: ms =>
    match p.step (disk 0) s m with
    | (s', some f) => (s', some f)
    | (s', none) => steps p (fun i => disk (i + 1)) s' ms

/-- A run over a list of methods. -/
def runOn (p : Pipeline σ) (disk : Disk) (source : σ) (files : FileTree) (ms : List Method) :
    Progress σ × Option RenderFault :=
  let started : LogLine := ⟨.pipeline, .debug, "rendering documentation",
    [("count", toString ms.length), ("output_dir", p.outputDir)]⟩
  p.steps disk { source, files, log := [started] } ms

/-- A run on a disk that takes everything. -/
def run (p : Pipeline σ) (source : σ) (files : FileTree) (ms : List Method) :
    Progress σ × Option RenderFault :=
  p.runOn .roomy source files ms

end Pipeline

end SignatureDocs
