import SignatureDocs.Settings.Layer
import SignatureDocs.Text.Cased
import SignatureDocs.Text.Offset

/-!
Files of environment variables, one to a line as `NAME=value`. A value may be in quotes, which may go over
several lines, and may refer to variables. Variables that are set already keep their values.
-/
namespace SignatureDocs.EnvFile

open SignatureDocs.Text

/-- A line that is not understood, and the place in it. -/
structure Fault where
  line : List Char
  index : Nat
deriving DecidableEq, Repr

def Fault.message (f : Fault) : String :=
  "Error parsing line: '" ++ String.ofList f.line ++ "', error at line index: " ++ toString f.index

/-- What the characters of a line have opened. -/
inductive Opened where
  | nothing
  /-- A blank outside quotes. -/
  | blank
  | escape
  | weak
  | weakEscape
  | strong
  | strongEscape
deriving DecidableEq, Repr

/-- The next character outside quotes. -/
def Opened.plain (c : Char) : Opened :=
  if c = '\\' then .escape
  else if c = '"' then .weak
  else if c = '\x27' then .strong
  else .nothing

/-- The next character. -/
def Opened.next (o : Opened) (c : Char) : Opened :=
  match o with
  | nothing => if isBlank c && c != '\n' && c != '\r' then blank else Opened.plain c
  | blank => Opened.plain c
  | escape => nothing
  | weak => if c = '\\' then weakEscape else if c = '"' then nothing else weak
  | weakEscape => weak
  | strong => if c = '\\' then strongEscape else if c = '\x27' then nothing else strong
  | strongEscape => strong

/-- Goes through a line up to a comment, which starts with a hash after a blank outside quotes. Gives what stands
before the comment, what is open at the end, and whether there is a comment. -/
def Opened.through : Opened → List Char → List Char × Opened × Bool
  | o, [] => ([], o, false)
  | o, c :: cs =>
    if o = blank && c = '#' then ([], o, true)
    else
      let (before, o', comment) := through (o.next c) cs
      (c :: before, o', comment)

/-- The lines of a text with their ends. -/
def physicalLines : List Char → List (List Char)
  | [] => []
  | c :: cs =>
    if c = '\n' then [c] :: physicalLines cs
    else
      match physicalLines cs with
      | [] => [[c]]
      | l :: ls => (c :: l) :: ls

/-- A line without its end. -/
def dropLineEnd (cs : List Char) : List Char :=
  match cs.reverse with
  | '\n' :: '\r' :: rest => rest.reverse
  | '\n' :: rest => rest.reverse
  | _ => cs

/-- Joins lines as long as something is open. What is open at the end of the text is a fault. -/
def logicalLines (buffer : List Char) (o : Opened) : List (List Char) → List (Except Fault (List Char))
  | [] => if o = .nothing then [] else [.error ⟨buffer, byteLength buffer⟩]
  | l :: ls =>
    if ((buffer ++ l).dropWhile isBlank).head? = some '#' then .ok [] :: logicalLines [] .nothing ls
    else
      match o.through l with
      | (before, _, true) => .ok (buffer ++ before) :: logicalLines [] .nothing ls
      | (_, .nothing, false) => .ok (dropLineEnd (buffer ++ l)) :: logicalLines [] .nothing ls
      | (_, o', false) => logicalLines (buffer ++ l) o' ls

/-- Characters of a name that a dollar refers to. -/
def isNameChar (c : Char) : Bool := c.isAlphanum || (0x7F < c.toNat && isCased c)

/-- The value of a variable that is referred to: from the environment, else from the lines before. -/
def referred (env : Environment) (earlier : List (String × String)) (name : List Char) : List Char :=
  (((env.lookup (String.ofList name)).or (earlier.lookup (String.ofList name))).getD "").toList

/-- How far a value has been read. -/
inductive Mode where
  | plain
  | weak
  | strong
  /-- After a dollar, with the name so far. -/
  | name (weak : Bool) (sofar : List Char)
  /-- After a dollar and a brace, with the name so far. -/
  | braced (weak : Bool) (sofar : List Char)
  /-- After a backslash. -/
  | escaped (weak : Bool)
  /-- After a blank outside quotes. -/
  | ending
deriving DecidableEq, Repr

/-- The mode after a reference. -/
def Mode.outside (inWeak : Bool) : Mode := if inWeak then .weak else .plain

/-- Reads a value from a mode. `look` gives the value of a name, and `index` counts the characters before. -/
def valueFrom (whole : List Char) (look : List Char → List Char) :
    Mode → Nat → List Char → Except Fault (List Char)
  | m, _, [] =>
    match m with
    | .weak | .strong | .braced _ _ | .name true _ | .escaped true => .error ⟨whole, byteLength whole - 1⟩
    | .name false sofar => .ok (look sofar)
    | .plain | .escaped false | .ending => .ok []
  | m, index, c :: cs =>
    let go := fun (m' : Mode) (out : List Char) =>
      (valueFrom whole look m' (index + 1) cs).map (out ++ ·)
    match m with
    | .ending =>
      if c = ' ' || c = '\t' then go .ending []
      else if c = '#' then .ok []
      else .error ⟨whole, index⟩
    | .escaped w =>
      if c = '\\' || c = '\x27' || c = '"' || c = '$' || c = ' ' then go (.outside w) [c]
      else if c = 'n' then go (.outside w) ['\n']
      else .error ⟨whole, index⟩
    | .strong => if c = '\x27' then go .plain [] else go .strong [c]
    | .name w sofar =>
      if isNameChar c then go (.name w (sofar ++ [c])) []
      else if c = '\x7b' && sofar.isEmpty then go (.braced w []) []
      else if c = '$' then go (.name w []) (look sofar)
      else go (.outside w) (look sofar ++ [c])
    | .braced w sofar =>
      if c = '\x7d' then go (.outside w) (look sofar) else go (.braced w (sofar ++ [c])) []
    | .weak =>
      if c = '$' then go (.name true []) []
      else if c = '"' then go .plain []
      else if c = '\\' then go (.escaped true) []
      else go .weak [c]
    | .plain =>
      if c = '$' then go (.name false []) []
      else if c = '\x27' then go .strong []
      else if c = '"' then go .weak []
      else if c = '\\' then go (.escaped false) []
      else if c = ' ' || c = '\t' then go .ending []
      else go .plain [c]

/-- The name at the start of a text. -/
def takeName? (cs : List Char) : Option (List Char × List Char) :=
  match cs with
  | c :: _ =>
    if c.isAlpha || c = '_' then
      let isPart := fun (c : Char) => c.isAlphanum || c = '_' || c = '.'
      some (cs.takeWhile isPart, cs.dropWhile isPart)
    else none
  | [] => none

def skipBlanks (cs : List Char) : List Char := cs.dropWhile isBlank

/-- The name that a line sets, and its value as it is written. The word `export` may stand before the name. The
line is given as it stands and without the blanks at its end. -/
def splitLine (whole line : List Char) : Except Fault (List Char × List Char) :=
  let cs := skipBlanks line
  let fault := fun (rest : List Char) => (⟨whole, byteLength line - byteLength rest⟩ : Fault)
  let value := fun (name rest : List Char) =>
    match rest with
    | '=' :: rest' => Except.ok (name, skipBlanks rest')
    | _ => .error (fault rest)
  match takeName? cs with
  | none => .error (fault cs)
  | some (name, rest) =>
    let rest := skipBlanks rest
    if name = "export".toList && rest.head? != some '=' then
      match takeName? rest with
      | none => .error (fault rest)
      | some (name', rest') => value name' (skipBlanks rest')
    else value name rest

/-- What a line sets, if anything. -/
def parseLine (env : Environment) (earlier : List (String × String)) (whole : List Char) :
    Except Fault (Option (String × String)) :=
  let line := (whole.reverse.dropWhile isBlank).reverse
  let cs := skipBlanks line
  if cs.isEmpty || cs.head? = some '#' then .ok none
  else
    match splitLine whole line with
    | .error f => .error f
    | .ok (name, raw) =>
      if raw.isEmpty || raw.head? = some '#' then .ok (some (String.ofList name, ""))
      else
        (valueFrom raw (referred env earlier) .plain 0 raw).map fun v =>
          some (String.ofList name, String.ofList v)

/-- Takes in the lines of a file, one after the other. -/
def loadLines : Environment → List (String × String) → List (Except Fault (List Char)) →
    Except Fault Environment
  | env, _, [] => .ok env
  | _, _, .error f :: _ => .error f
  | env, earlier, .ok l :: ls =>
    match parseLine env earlier l with
    | .error f => .error f
    | .ok none => loadLines env earlier ls
    | .ok (some (k, v)) =>
      let env' := if (env.lookup k).isSome then env else env ++ [(k, v)]
      loadLines env' ((k, v) :: earlier) ls

/-- The environment with what a file sets. -/
def load (env : Environment) (cs : List Char) : Except Fault Environment :=
  let cs := if cs.head?.map Char.toNat = some 0xFEFF then cs.tail else cs
  loadLines env [] (logicalLines [] .nothing (physicalLines cs))

end SignatureDocs.EnvFile
