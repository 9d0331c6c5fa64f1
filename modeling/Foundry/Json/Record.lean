import Foundry.Json.Reader

/-!
# Reading records

A record is an object with known members, or a list of their values in order.
Unknown members are skipped, a known one may stand only once, and a member that
is not optional must be there.
-/

namespace Foundry

namespace Json

/-- A member of a record: its name, how it is read, and what stands for it when absent. -/
structure Field (σ : Type) where
  name : String
  absent : Option σ := none
  read : Bytes → Except Fail (σ × Bytes)

/-- The member a key names, with its place in the record. -/
def findField {σ : Type} (fields : List (Field σ)) (key : String) : Option (Nat × Field σ) :=
  match fields.findIdx? (fun f => f.name == key) with
  | some i => (fields[i]?).map fun f => (i, f)
  | none => none

/-- Where an error about the record as a whole is reported: the reader first looks for the
closing bracket of the object. -/
def settleObject (rest : Bytes) : Bytes :=
  match skipSpace rest with
  | 125 :: after => after
  | rest => rest

/-- The values found so far, by place. -/
abbrev Found (σ : Type) := List (Option σ)

def readKeyed {σ : Type} (fields : List (Field σ)) (first : Bool) (found : Found σ) :
    Nat → Bytes → Except Fail (Found σ × Bytes)
  | 0, rest => failPeek endOfObject rest
  | fuel + 1, rest =>
    match nextKey first rest with
    | .error e => .error e
    | .ok none => .ok (found, dropClose rest)
    | .ok (some rest) => do
      let (key, rest) ← scanString rest
      match findField fields key with
      | none =>
        let rest ← scanColon rest
        let rest ← skipValue rest
        readKeyed fields false found fuel rest
      | some (i, field) =>
        if ((found[i]?).getD none).isSome then
          failHere ("duplicate field `" ++ field.name ++ "`") (settleObject rest)
        else
          let rest ← scanColon rest
          let (value, rest) ← field.read rest
          readKeyed fields false (found.set i (some value)) fuel rest

/-- The values of an object's members in the order of the fields. -/
def fillAbsent {σ : Type} (rest : Bytes) : List (Field σ) → Found σ → Except Fail (List σ)
  | [], _ => .ok []
  | f :: fs, found =>
    match (found.head?.getD none).or f.absent with
    | none => failHere ("missing field `" ++ f.name ++ "`") rest
    | some v => do
      let vs ← fillAbsent rest fs found.tail
      .ok (v :: vs)

/-- The closing bracket of a list whose values have all been read. -/
def scanListEnd (rest : Bytes) : Except Fail Bytes :=
  match skipSpace rest with
  | [] => failPeek endOfList []
  | b :: after =>
    if b = 93 then .ok after
    else if b = 44 then
      match skipSpace after with
      | 93 :: more => failPeek "trailing comma" (93 :: more)
      | more => failPeek "trailing characters" more
    else failPeek "trailing characters" (b :: after)

def readListed {σ : Type} (title : String) (size : Nat) (first : Bool) (index : Nat) :
    List (Field σ) → Bytes → Except Fail (List σ × Bytes)
  | [], rest => do
    let rest ← scanListEnd rest
    .ok ([], rest)
  | f :: fs, rest =>
    match nextElement first rest with
    | .error e => .error e
    | .ok none =>
      match f.absent with
      | some v => do
        let (vs, rest) ← readListed title size first (index + 1) fs rest
        .ok (v :: vs, rest)
      | none =>
        failHere s!"invalid length {index}, expected struct {title} with {size} elements"
          (dropClose rest)
    | .ok (some rest) => do
      let (v, rest) ← f.read rest
      let (vs, rest) ← readListed title size false (index + 1) fs rest
      .ok (v :: vs, rest)

def readRecord {σ : Type} (title : String) (fields : List (Field σ)) (rest : Bytes) :
    Except Fail (List σ × Bytes) :=
  match skipSpace rest with
  | [] => failPeek endOfValue []
  | 91 :: after => readListed title fields.length true 0 fields after
  | 123 :: after => do
    let (found, rest) ← readKeyed fields true (fields.map fun _ => none) (after.length + 1) after
    let values ← fillAbsent rest fields found
    .ok (values, rest)
  | rest => failType ("struct " ++ title) rest

end Json

end Foundry
