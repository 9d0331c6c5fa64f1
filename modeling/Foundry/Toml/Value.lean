import Foundry.Number.Binary64

/-!
# Values of configuration files

A file is a table; its values are texts, numbers, truth values, moments, lists and
tables. A record can be read from a table by field name, or from a list by field
position.
-/

namespace Foundry

namespace Toml

inductive Value where
  | string (text : String)
  | integer (number : Int)
  | float (number : Binary64)
  | boolean (flag : Bool)
  /-- A date, a time of day, or both, in canonical form. -/
  | moment (text : String)
  | array (items : List Value)
  | table (members : List (String × Value))
deriving Repr, Inhabited

namespace Value

/-- The name under which a moment shows its text when it is read as a table. -/
def momentName : String := "$__toml_private_datetime"

/-- The members of a value that can be read as a table. -/
def members? : Value → Option (List (String × Value))
  | .table members => some members
  | .moment text => some [(momentName, .string text)]
  | _ => none

def text? : Value → Option String
  | .string text => some text
  | _ => none

def flag? : Value → Option Bool
  | .boolean flag => some flag
  | _ => none

/-- A count: an integer that is not negative and fits in 64 bits. -/
def count? : Value → Option Nat
  | .integer (.ofNat n) => if n < 0x10000000000000000 then some n else none
  | _ => none

/-- A measure is a float, or an integer taken as one. -/
def measure? : Value → Option Binary64
  | .float x => some x
  | .integer n => some (Binary64.ofInt n)
  | _ => none

def texts? : Value → Option (List String)
  | .array items => items.mapM text?
  | _ => none

end Value

/-- The two shapes from which the fields of a record are read. -/
inductive Record where
  | named (members : List (String × Value))
  | listed (items : List Value)

def Value.record? (v : Value) : Option Record :=
  match v with
  | .array items => some (.listed items)
  | v => v.members?.map .named

/-- The value given for a field: by name, or by position. Members with other names and items
beyond the last field are passed over. -/
def Record.get? (r : Record) (position : Nat) (name : String) : Option Value :=
  match r with
  | .named members => (members.find? fun m => m.1 == name).map (·.2)
  | .listed items => items[position]?

/-- A field that is not given keeps its default; one that is given must have its type. -/
def Record.read {α : Type} (r : Record) (position : Nat) (name : String)
    (decode : Value → Option α) (default : α) : Option α :=
  match r.get? position name with
  | none => some default
  | some v => decode v

end Toml

end Foundry
