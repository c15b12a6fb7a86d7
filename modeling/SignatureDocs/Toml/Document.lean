import SignatureDocs.Toml.Lexeme

/-!
A TOML file as a table of values. Headers open tables, and a table may be opened once; a table that came into
being only because of one inside it may still be opened, and one that came into being by a key with dots may
still get more such keys.
-/
namespace SignatureDocs.Toml

/-- What stands under a key while a file is read. -/
inductive Node where
  | value (v : Value)
  /-- A table. It is implicit if it was never opened by its own header, and dotted if it came into being by a
  key with dots. -/
  | table (implicit dotted : Bool) (items : List (String × Node))
  /-- Tables with the same header in double brackets. -/
  | tables (rows : List (List (String × Node)))
deriving Repr

/-- A table while a file is read. -/
structure Table where
  implicit : Bool
  dotted : Bool
  items : List (String × Node)
deriving Repr

namespace Table

/-- A table that was opened by its header. -/
def opened (items : List (String × Node)) : Table := ⟨false, false, items⟩

def get? (t : Table) (key : String) : Option Node := t.items.lookup key

def put (t : Table) (key : String) (n : Node) : Table := { t with items := putKey key n t.items }

def toNode (t : Table) : Node := .table t.implicit t.dotted t.items

/-- Changes the table at the end of a path. Tables on the way that are missing come into being; under tables
with one header, the last one is meant. A path with dots does not lead into a table that was opened. -/
def descend (dotted : Bool) (f : Table → Option Table) : List String → Table → Option Table
  | [], t => f t
  | k :: path, t =>
    match t.get? k with
    | none => (descend dotted f path ⟨true, dotted, []⟩).map fun c => t.put k c.toNode
    | some (.value _) => none
    | some (.tables rows) =>
      match rows.reverse with
      | [] => none
      | last :: before =>
        (descend dotted f path (opened last)).map fun c =>
          t.put k (.tables (before.reverse ++ [c.items]))
    | some (.table implicit d items) =>
      if dotted && !implicit then none
      else (descend dotted f path ⟨implicit, d, items⟩).map fun c => t.put k c.toNode

/-- Gives a value to a key. A key without dots belongs to a table that is not dotted, one with dots to a table
that is, and no key is given twice. -/
def assign (path : List String) (v : Value) (t : Table) : Option Table :=
  match path.reverse with
  | [] => none
  | last :: above =>
    descend true (fun t' =>
      if t'.dotted = above.isEmpty || (t'.get? last).isSome then none
      else some (t'.put last (.value v))) above.reverse t

end Table

mutual

/-- The value of a node. -/
def Node.toValue : Node → Value
  | .value v => v
  | .table _ _ items => .table (fieldValues items)
  | .tables rows => .array (rowValues rows)

def fieldValues : List (String × Node) → List (String × Value)
  | [] => []
  | (k, n) :: rest => (k, n.toValue) :: fieldValues rest

def rowValues : List (List (String × Node)) → List Value
  | [] => []
  | items :: rest => .table (fieldValues items) :: rowValues rest

end

/-- Items of an array up to its bracket; a comma may stand after the last one. -/
def items (value : Reader Value) : List Char → Reader (List Value)
  | [], _ => none
  | _ :: budget, cs =>
    match skipGap cs with
    | ']' :: rest => some ([], rest)
    | cs =>
      match value cs with
      | none => none
      | some (v, rest) =>
        match skipGap rest with
        | ',' :: rest' => (items value budget rest').map fun (vs, rest'') => (v :: vs, rest'')
        | ']' :: rest' => some ([v], rest')
        | _ => none

/-- A key and its value. -/
def pair (value : Reader Value) : Reader (List String × Value) := fun cs =>
  match key cs with
  | some (ks, '=' :: rest) => (value (skipBlanks rest)).map fun (v, rest') => ((ks, v), rest')
  | _ => none

/-- The pairs of a table in braces up to its end, on one line. -/
def pairs (value : Reader Value) : List Char → Reader (List (List String × Value))
  | [], _ => none
  | _ :: budget, cs =>
    match pair value cs with
    | none => none
    | some (p, rest) =>
      match skipBlanks rest with
      | ',' :: rest' => (pairs value budget rest').map fun (ps, rest'') => (p :: ps, rest'')
      | '\x7d' :: rest' => some ([p], rest')
      | _ => none

/-- The table of pairs in braces. -/
def inlineTable? (ps : List (List String × Value)) : Option Value :=
  (ps.foldlM (fun t (ks, v) => Table.assign ks v t) (Table.opened [])).map fun (t : Table) =>
    t.toNode.toValue

/-- A value that holds no others. -/
def simpleValue : Reader Value := fun cs =>
  match cs with
  | '"' :: _ => (string cs).map fun (s, rest) => (.text s, rest)
  | '\x27' :: _ => (string cs).map fun (s, rest) => (.text s, rest)
  | _ =>
    let (run, rest) := scalarText cs
    (scalar? run).map fun v => (v, rest)

/-- A value with at most so many arrays and tables around the innermost one. -/
def value : Nat → Reader Value
  | 0 => simpleValue
  | depth + 1 => fun cs =>
    match cs with
    | '[' :: rest => (items (value depth) cs rest).map fun (vs, rest') => (.array vs, rest')
    | '\x7b' :: rest =>
      match skipBlanks rest with
      | '\x7d' :: rest' => some (.table [], rest')
      | rest' => (pairs (value depth) cs rest').bind fun (ps, rest'') =>
          (inlineTable? ps).map fun v => (v, rest'')
    | _ => simpleValue cs

/-- What a line says. -/
inductive Line where
  | header (path : List String)
  /-- A header in double brackets. -/
  | row (path : List String)
  | assignment (path : List String) (v : Value)
deriving Repr

/-- A line that is not empty, without its end. -/
def line : Reader Line
  | '[' :: '[' :: cs =>
    match key cs with
    | some (ks, ']' :: ']' :: rest) => some (.row ks, rest)
    | _ => none
  | '[' :: cs =>
    match key cs with
    | some (ks, ']' :: rest) => some (.header ks, rest)
    | _ => none
  | cs => (pair (value (depthLimit - 1)) cs).map fun ((ks, v), rest) => (.assignment ks v, rest)

/-- The lines of a file. -/
def lines : List Char → List Char → Option (List Line)
  | [], _ => none
  | _ :: budget, cs =>
    match skipGap cs with
    | [] => some []
    | cs =>
      match line cs with
      | none => none
      | some (l, rest) =>
        match lineTail? rest with
        | none => none
        | some rest' => (lines budget rest').map (l :: ·)

/-- The state of reading: the tables that are finished and the one that is open. -/
structure State where
  root : Table
  path : List String
  isRow : Bool
  current : Table
deriving Repr

namespace State

def start : State := ⟨Table.opened [], [], false, Table.opened []⟩

/-- Puts the open table in its place. -/
def close (s : State) : Option Table :=
  match s.path.reverse with
  | [] => some s.current
  | last :: above =>
    Table.descend false (fun t =>
      match t.get? last with
      | none => some (t.put last (if s.isRow then .tables [s.current.items] else s.current.toNode))
      | some (.tables rows) => if s.isRow then some (t.put last (.tables (rows ++ [s.current.items]))) else none
      | some (.table implicit _ _) => if !s.isRow && implicit then some (t.put last s.current.toNode) else none
      | some (.value _) => none) above.reverse s.root

/-- Opens the table of a header. -/
def openTable (path : List String) (root : Table) : Option State :=
  match path.reverse with
  | [] => none
  | last :: above =>
    let check := fun (t : Table) =>
      match t.get? last with
      | none => some t
      | some (.table true false _) => some { t with items := t.items.filter (·.1 != last) }
      | _ => none
    (Table.descend false check above.reverse root).map fun root' =>
      ⟨root', path, false, Table.opened (itemsAt root path)⟩
where
  /-- The items of the table at a path, if there is one. -/
  itemsAt : Table → List String → List (String × Node)
    | t, [] => t.items
    | t, k :: ks =>
      match t.get? k with
      | some (.table implicit d its) => itemsAt ⟨implicit, d, its⟩ ks
      | some (.tables rows) => itemsAt (Table.opened (rows.getLast?.getD [])) ks
      | _ => []

/-- Opens a further table of a header in double brackets. -/
def openRow (path : List String) (root : Table) : Option State :=
  match path.reverse with
  | [] => none
  | last :: above =>
    let check := fun (t : Table) =>
      match t.get? last with
      | none => some (t.put last (.tables []))
      | some (.tables _) => some t
      | _ => none
    (Table.descend false check above.reverse root).map fun root' => ⟨root', path, true, Table.opened []⟩

/-- Takes in a line. -/
def next (s : State) : Line → Option State
  | .assignment path v => (Table.assign path v s.current).map fun t => { s with current := t }
  | .header path => s.close.bind (openTable path)
  | .row path => s.close.bind (openRow path)

end State

/-- The table of a file. A byte order mark at the start does not count. -/
def parse? (cs : List Char) : Option (List (String × Value)) :=
  let cs := if cs.head?.map Char.toNat = some 0xFEFF then cs.tail else cs
  (lines (' ' :: cs) cs).bind fun ls =>
    (ls.foldlM State.next State.start).bind fun s =>
      s.close.map fun t => fieldValues t.items

end SignatureDocs.Toml
