import SignatureDocs.CommandLine.Invocation
import SignatureDocs.Log
import SignatureDocs.Settings.Layer

/-!
Which log lines a run shows. A variable of the environment can hold a filter, which is a list of directives: each is
about some lines and says from which level on they are shown. Of all that are about a line the most specific one
counts. Without a filter, or with one that cannot be read, the command line decides.
-/
namespace SignatureDocs

/-- The level that a text names, with `off` for none at all. -/
def Level.ofName? (s : String) : Option (Option Level) :=
  match asciiLower s with
  | "trace" | "5" => some (some .trace)
  | "debug" | "4" => some (some .debug)
  | "info" | "3" => some (some .info)
  | "warn" | "2" => some (some .warn)
  | "error" | "1" => some (some .error)
  | "off" | "0" => some none
  | _ => none

/-- A directive of a filter: the lines that it is about, and the level from which they are shown, if they are. -/
structure Directive where
  level : Option Level
  /-- What the target of a line has to start with. -/
  target : Option String := none
  /-- The field that a line has to have. -/
  field : Option String := none
  /-- Is it about lines inside some span? This program opens none. -/
  inSpan : Bool := false
deriving DecidableEq, Repr

namespace Directive

/-- Can a character be part of a target? -/
def isTargetChar (c : Char) : Bool :=
  c.isAlphanum || c = '_' || c = ':' || c = '-' || 0x80 ≤ c.toNat

/-- What a directive is about, as it is written: a target, or a span in brackets. -/
inductive Scope where
  | target (cs : List Char)
  | span (inside : List Char)
deriving DecidableEq, Repr

/-- Reads a target or a span. -/
def scope? : List Char → Option (Scope × List Char)
  | '[' :: cs =>
    match cs.dropWhile (· != ']') with
    | _ :: rest => some (.span (cs.takeWhile (· != ']')), rest)
    | [] => none
  | cs =>
    let text := cs.takeWhile isTargetChar
    if text.isEmpty then none else some (.target text, cs.dropWhile isTargetChar)

/-- The level behind what a directive is about. Without one, everything is shown. -/
def levelAfter? : List Char → Option (Option Level)
  | [] | ['='] => some (some .trace)
  | '=' :: name => Level.ofName? (String.ofList name)
  | _ => none

/-- The directive with one more thing that it is about. The name of a level is no target, and the inside of a span is
a name and a field in braces, perhaps with a value. -/
def narrow (d : Directive) : Scope → Directive
  | .target cs =>
    let text := String.ofList cs
    { d with target := if (Level.ofName? text).isSome then none else some text }
  | .span inside =>
    let braces := inside.dropWhile (· != '\x7b')
    let field := if braces.contains '\x7d' then (braces.drop 1).takeWhile (· != '\x7d') else []
    { d with
      field := if field.isEmpty then none else some (String.ofList field)
      inSpan := inside.head?.any (· != '\x7b') || field.contains '=' }

/-- Reads a directive: a level alone, or one or two things that it is about and perhaps a level behind an equals
sign. -/
def parse? (cs : List Char) : Option Directive :=
  match Level.ofName? (String.ofList cs) with
  | some level => some { level }
  | none => do
    let (first, rest) ← scope? cs
    match scope? rest with
    | none => return narrow { level := ← levelAfter? rest } first
    | some (second, rest) => return narrow (narrow { level := ← levelAfter? rest } first) second

/-- Is a directive about a line? -/
def isAbout (d : Directive) (l : LogLine) : Bool :=
  !d.inSpan && d.target.all (fun t => t.toList.isPrefixOf l.source.target.toList) &&
    d.field.all fun k => k = "message" || l.fields.any fun q => q.1 = k

/-- Does a directive go before another one that is about the same line? A longer target goes before a shorter one,
then a field before none. -/
def outranks (d e : Directive) : Bool :=
  let length (d : Directive) := (d.target.map String.length).getD 0
  length e < length d || length e = length d &&
    match d.field, e.field with
    | some k, some k' => k' < k
    | some _, none => true
    | none, _ => false

end Directive

/-- A filter for log lines. -/
abbrev LogFilter := List Directive

namespace LogFilter

/-- Reads a filter. One without any directive shows errors. -/
def parse? (s : String) : Option LogFilter :=
  (((s.toList.splitOn ',').filter (!·.isEmpty)).mapM Directive.parse?).map fun ds =>
    if ds.isEmpty then [{ level := some .error }] else ds

/-- The directive that counts for a line. Of those of equal rank it is the last one. -/
def directiveFor? (f : LogFilter) (l : LogLine) : Option Directive :=
  f.foldl (fun best d => if d.isAbout l && !best.any (·.outranks d) then some d else best) none

/-- Is a line shown? -/
def shows (f : LogFilter) (l : LogLine) : Bool :=
  (f.directiveFor? l).any fun d => d.level.any fun threshold => threshold.rank ≤ l.level.rank

end LogFilter

/-- The level that the command line asks for: errors if it should be quiet, more if it should be verbose. -/
def GlobalOptions.logLevel (o : GlobalOptions) : Level :=
  if o.quiet then .error else if o.verbose then .debug else .warn

/-- The filter of a run. -/
def logFilter (env : Environment) (o : GlobalOptions) : LogFilter :=
  ((env.lookup "SIGDOC_LOG").bind LogFilter.parse?).getD [{ level := some o.logLevel }]

end SignatureDocs
