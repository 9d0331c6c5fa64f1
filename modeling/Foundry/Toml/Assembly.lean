import Foundry.Toml.Value

/-!
# Putting statements together

A file is a sequence of assignments and headers. They are put together into one
table under the rules of the format: a name is assigned once, a table has one
header, and dotted names only extend tables that dotted names made. Each table
under construction remembers how it came about.
-/

namespace Foundry

namespace Toml

/-- A dotted name: the tables passed through, and the last part. -/
structure Key where
  parents : List String
  name : String
deriving DecidableEq, Repr, Inhabited

/-- How a table came about: by its own header, by the header of a table below it, or by
a dotted name. -/
inductive Origin where
  | header
  | implied
  | dotted
deriving DecidableEq, Repr, Inhabited

/-- A table under construction. Values, inline tables among them, are closed. -/
inductive Node where
  | value (v : Value)
  | table (origin : Origin) (members : List (String × Node))
  /-- A list of tables, built header by header. -/
  | tables (elements : List (List (String × Node)))
deriving Inhabited

abbrev Members := List (String × Node)

namespace Members

def get? (ms : Members) (name : String) : Option Node :=
  (ms.find? fun m => m.1 == name).map (·.2)

/-- Replace the node of that name, or add it at the end. -/
def put (ms : Members) (name : String) (node : Node) : Members :=
  match ms with
  | [] => [(name, node)]
  | m :: rest => if m.1 == name then (name, node) :: rest else m :: put rest name node

/-- Apply `f` to the last element of a list of tables. -/
def inLast (f : Members → Option Members) : List Members → Option (List Members)
  | [] => none
  | [ms] => (f ms).map fun ms => [ms]
  | ms :: rest => (inLast f rest).map (ms :: ·)

/-- Assign `v` below the tables named by `parents`. `open_` says whether the table reached so
far may be given the name directly. -/
def assign (open_ : Bool) (ms : Members) : List String → String → Value → Option Members
  | [], name, v =>
    if open_ && (ms.get? name).isNone then some (ms.put name (.value v)) else none
  | p :: ps, name, v =>
    match ms.get? p with
    | none => (assign true [] ps name v).map fun inner => ms.put p (.table .dotted inner)
    | some (.table .dotted inner) =>
      (assign true inner ps name v).map fun inner => ms.put p (.table .dotted inner)
    | some (.table .implied inner) =>
      (assign false inner ps name v).map fun inner => ms.put p (.table .implied inner)
    | some (.tables elements) =>
      (inLast (fun inner => assign false inner ps name v) elements).map fun elements =>
        ms.put p (.tables elements)
    | some (.table .header _) | some (.value _) => none

def openTable (ms : Members) (name : String) : Option Members :=
  match ms.get? name with
  | none => some (ms.put name (.table .header []))
  | some (.table .implied inner) => some (ms.put name (.table .header inner))
  | some _ => none

/-- Start a further element of a list of tables. -/
def openElement (ms : Members) (name : String) : Option Members :=
  match ms.get? name with
  | none => some (ms.put name (.tables [[]]))
  | some (.tables elements) => some (ms.put name (.tables (elements ++ [[]])))
  | some _ => none

/-- Apply `f` to the table at a path, making the tables on the way. -/
def within (ms : Members) (f : Members → Option Members) : List String → Option Members
  | [] => f ms
  | p :: ps =>
    match ms.get? p with
    | none => (within [] f ps).map fun inner => ms.put p (.table .implied inner)
    | some (.table origin inner) =>
      (within inner f ps).map fun inner => ms.put p (.table origin inner)
    | some (.tables elements) =>
      (inLast (fun inner => within inner f ps) elements).map fun elements =>
        ms.put p (.tables elements)
    | some (.value _) => none

end Members

mutual

def Node.close : Node → Value
  | .value v => v
  | .table _ members => .table (closeMembers members)
  | .tables elements => .array (closeElements elements)

def closeMembers : List (String × Node) → List (String × Value)
  | [] => []
  | (name, node) :: rest => (name, node.close) :: closeMembers rest

def closeElements : List (List (String × Node)) → List Value
  | [] => []
  | members :: rest => .table (closeMembers members) :: closeElements rest

end

def inlineTable? (pairs : List (Key × Value)) : Option Value :=
  let add := fun (ms : Members) (pair : Key × Value) =>
    ms.assign true pair.1.parents pair.1.name pair.2
  (pairs.foldlM add []).map fun ms => .table (closeMembers ms)

inductive Statement where
  | assign (key : Key) (value : Value)
  | header (key : Key)
  | elementHeader (key : Key)
deriving Inhabited

/-- The file so far, and the table that assignments go to. -/
structure Draft where
  root : Members := []
  current : List String := []
deriving Inhabited

def Draft.add (d : Draft) : Statement → Option Draft
  | .assign key v => do
    let root ← d.root.within (fun ms => ms.assign true key.parents key.name v) d.current
    return { d with root }
  | .header key => do
    let root ← d.root.within (fun ms => ms.openTable key.name) key.parents
    return ⟨root, key.parents ++ [key.name]⟩
  | .elementHeader key => do
    let root ← d.root.within (fun ms => ms.openElement key.name) key.parents
    return ⟨root, key.parents ++ [key.name]⟩

/-- The table that a sequence of statements describes, unless they contradict each other. -/
def assemble? (statements : List Statement) : Option (List (String × Value)) :=
  (statements.foldlM Draft.add {}).map fun d => closeMembers d.root

end Toml

end Foundry
