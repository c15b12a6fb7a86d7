import SignatureDocs.Settings.EnvValue

/-!
Settings in layers. Each layer is a table whose values remember where they were given, and a layer is laid over
the ones below it: a table goes into a table, and anything else takes the place of what was there.
-/
namespace SignatureDocs

open SignatureDocs.Text

/-- Where a value was given. -/
inductive Origin where
  | builtIn
  /-- A file, by its path as messages show it. -/
  | file (shown : String)
  /-- One of the variables with a name of their own. -/
  | bareVariable
  /-- A variable with the common start of names. -/
  | prefixedVariable
deriving DecidableEq, Repr

/-- A value with its origin; the fields of a table may have different ones. -/
inductive Setting where
  | given (origin : Origin) (v : Value)
  | table (origin : Origin) (fields : List (String × Setting))
deriving Repr

namespace Setting

/-- Where a setting was given. -/
def origin : Setting → Origin
  | given o _ => o
  | table o _ => o

mutual

/-- A value from one origin. -/
def ofValue (o : Origin) : Value → Setting
  | .table fields => .table o (ofFields o fields)
  | v => .given o v

def ofFields (o : Origin) : List (String × Value) → List (String × Setting)
  | [] => []
  | (k, v) :: rest => (k, ofValue o v) :: ofFields o rest

end

mutual

/-- Lays a setting over another. -/
def overlay (below : Setting) : Setting → Setting
  | table o fields =>
    match below with
    | table o' fields' => table o' (overlayFields fields' fields)
    | given _ _ => table o fields
  | given o v => given o v

/-- Lays fields over others. -/
def overlayFields (below : List (String × Setting)) : List (String × Setting) → List (String × Setting)
  | [] => below
  | (k, s) :: rest =>
    let s' := match below.lookup k with
      | some b => overlay b s
      | none => s
    overlayFields (putKey k s' below) rest

end

/-- A value under a path of keys. -/
def nest (o : Origin) : List String → Value → Setting
  | [], v => ofValue o v
  | k :: path, v => table o [(k, nest o path v)]

end Setting

/-- A layer: the fields of its table. -/
abbrev Layer := List (String × Setting)

/-- The variables of the environment in their order. -/
abbrev Environment := List (String × String)

namespace Layer

/-- A layer over another. -/
def overlay (below above : Layer) : Layer := Setting.overlayFields below above

/-- The layer of a file. -/
def ofFile (shown : String) (fields : List (String × Value)) : Layer := Setting.ofFields (.file shown) fields

/-- A layer under one more variable, which has been given its path. -/
def withVariable (o : Origin) (layer : Layer) (q : List String × String) : Layer :=
  match Setting.nest o q.1 (EnvValue.parse (trim q.2.toList)) with
  | .table _ fields => overlay layer fields
  | .given _ _ => layer

/-- The layer of variables with their paths; later variables lie over earlier ones. -/
def ofVariables (o : Origin) (vars : List (List String × String)) : Layer := vars.foldl (withVariable o) []

end Layer

/-- The lower case of ASCII letters. -/
def asciiLower (s : String) : String := String.ofList (s.toList.map Char.toLower)

/-- The upper case of ASCII letters. -/
def asciiUpper (s : String) : String := String.ofList (s.toList.map Char.toUpper)

/-- What the names of variables start with. -/
def variableStart : String := "SIGDOC_"

/-- Two underscores in a row become a dot. -/
def dotted : List Char → List Char
  | '_' :: '_' :: cs => '.' :: dotted cs
  | c :: cs => c :: dotted cs
  | [] => []

/-- The segments of the key of a variable, if its name has the common start. Case does not count in names, nor do
blanks around the name or the key. -/
def variableSegments? (name : String) : Option (List String) :=
  let cs := trim name.toList
  let n := variableStart.length
  if asciiUpper (String.ofList (cs.take n)) = variableStart then
    some (((dotted ((trim (cs.drop n)).map Char.toLower)).splitOn '.').map String.ofList)
  else none

/-- The path that a variable sets. It sets nothing if a segment of its key is empty. -/
def variablePath? (name : String) : Option (List String) :=
  (variableSegments? name).filter fun path => !path.contains ""

/-- The layer of the variable of one name, which sets one path. -/
def bareLayer (name : String) (path : List String) (env : Environment) : Layer :=
  Layer.ofVariables .bareVariable
    ((env.filter fun (k, _) => asciiUpper (trimString k) = name).map fun (_, v) => (path, v))

/-- The layer of the variables whose names have the common start. -/
def prefixedLayer (env : Environment) : Layer :=
  Layer.ofVariables .prefixedVariable
    (env.filterMap fun (k, v) => (variablePath? k).map fun path => (path, v))

/-- The layer of the variables with names of their own, which hold the keys of the providers. -/
def keysLayer (env : Environment) : Layer :=
  (bareLayer "OPENAI_API_KEY" ["openai", "api_key"] env).overlay
    (bareLayer "CLAUDE_API_KEY" ["anthropic", "api_key"] env)

/-- The layer of the environment: the keys of the providers, and over them the variables with the common
start. -/
def environmentLayer (env : Environment) : Layer := (keysLayer env).overlay (prefixedLayer env)

end SignatureDocs
