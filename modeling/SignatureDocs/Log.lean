/-!
Log lines: where they come from, a level, a message and named values, and which levels are shown.
-/
namespace SignatureDocs

/-- How much a log line matters, from least to most. -/
inductive Level where
  | trace
  | debug
  | info
  | warn
  | error
deriving DecidableEq, Repr

namespace Level

def rank : Level → Nat
  | trace => 0
  | debug => 1
  | info => 2
  | warn => 3
  | error => 4

def label : Level → String
  | trace => "TRACE"
  | debug => "DEBUG"
  | info => "INFO"
  | warn => "WARN"
  | error => "ERROR"

end Level

/-- The parts of the program that log. -/
inductive LogSource where
  | extraction
  | outline
  | visits
  | client
  | pipeline
  | command
deriving DecidableEq, Repr

/-- The name by which a filter can ask for the lines of a part. -/
def LogSource.target : LogSource → String
  | extraction => "sigdoc_parser"
  | outline => "sigdoc_parser::parser"
  | visits => "sigdoc_parser::walker"
  | client => "sigdoc_render::client"
  | pipeline => "sigdoc_render::renderer"
  | command => "sigdoc::commands::extract"

/-- A log line with its values as they are shown. -/
structure LogLine where
  source : LogSource
  level : Level
  message : String
  fields : List (String × String)
deriving DecidableEq, Repr

/-- The text of a log line. -/
def LogLine.render (l : LogLine) : String :=
  String.intercalate " " (l.level.label :: l.message :: l.fields.map fun (k, v) => k ++ "=" ++ v)

/-- The lines that matter at least as much as the level; none if there is no level. -/
def LogLine.shown (threshold : Option Level) (lines : List LogLine) : List LogLine :=
  match threshold with
  | none => []
  | some t => lines.filter fun l => t.rank ≤ l.level.rank

end SignatureDocs
