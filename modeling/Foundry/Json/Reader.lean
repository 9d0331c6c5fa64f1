import Foundry.Json.Scan

/-!
# Reading JSON values

A value of any kind, nested at most 127 levels deep, and a whole document, after
which nothing but space may follow.
-/

namespace Foundry

namespace Json

/-- Levels of nesting at which reading gives up. -/
def depthLimit : Nat := 128

/-- What follows an element: the next one, or the end of the list. -/
def nextElement (first : Bool) (rest : Bytes) : Except Fail (Option Bytes) :=
  match skipSpace rest with
  | [] => failPeek endOfList []
  | b :: after =>
    if b = 93 then .ok none
    else if first then .ok (some (b :: after))
    else if b = 44 then
      match skipSpace after with
      | [] => failPeek endOfValue []
      | c :: more =>
        if c = 93 then failPeek "trailing comma" (c :: more) else .ok (some (c :: more))
    else failPeek "expected `,` or `]`" (b :: after)

/-- The bytes after the opening quote of the next key, or none at the end of the object. -/
def nextKey (first : Bool) (rest : Bytes) : Except Fail (Option Bytes) :=
  match skipSpace rest with
  | [] => failPeek endOfObject []
  | b :: after =>
    if b = 125 then .ok none
    else if first then
      if b = 34 then .ok (some after) else failPeek "key must be a string" (b :: after)
    else if b = 44 then
      match skipSpace after with
      | [] => failPeek endOfValue []
      | c :: more =>
        if c = 34 then .ok (some more)
        else if c = 125 then failPeek "trailing comma" (c :: more)
        else failPeek "key must be a string" (c :: more)
    else failPeek "expected `,` or `\x7d`" (b :: after)

def scanColon (rest : Bytes) : Except Fail Bytes :=
  match skipSpace rest with
  | [] => failPeek endOfObject []
  | b :: after => if b = 58 then .ok after else failPeek "expected `:`" (b :: after)

/-- The bytes after the closing bracket that comes next. -/
def dropClose (rest : Bytes) : Bytes := (skipSpace rest).drop 1

mutual

def readValue (depth : Nat) : Nat → Bytes → Except Fail (Json × Bytes)
  | 0, rest => failPeek endOfValue rest
  | fuel + 1, rest =>
    match skipSpace rest with
    | [] => failPeek endOfValue []
    | b :: after =>
      if b = 91 then
        if depth ≤ 1 then failPeek "recursion limit exceeded" (b :: after)
        else do
          let (items, rest) ← readItems (depth - 1) true fuel after
          .ok (.array items, rest)
      else if b = 123 then
        if depth ≤ 1 then failPeek "recursion limit exceeded" (b :: after)
        else do
          let (members, rest) ← readMembers (depth - 1) true fuel after
          .ok (.object members, rest)
      else readScalar b after

def readItems (depth : Nat) (first : Bool) : Nat → Bytes → Except Fail (List Json × Bytes)
  | 0, rest => failPeek endOfList rest
  | fuel + 1, rest =>
    match nextElement first rest with
    | .error e => .error e
    | .ok none => .ok ([], dropClose rest)
    | .ok (some rest) => do
      let (item, rest) ← readValue depth fuel rest
      let (items, rest) ← readItems depth false fuel rest
      .ok (item :: items, rest)

def readMembers (depth : Nat) (first : Bool) :
    Nat → Bytes → Except Fail (List (String × Json) × Bytes)
  | 0, rest => failPeek endOfObject rest
  | fuel + 1, rest =>
    match nextKey first rest with
    | .error e => .error e
    | .ok none => .ok ([], dropClose rest)
    | .ok (some rest) => do
      let (key, rest) ← scanString rest
      let rest ← scanColon rest
      let (value, rest) ← readValue depth fuel rest
      let (members, rest) ← readMembers depth false fuel rest
      .ok ((key, value) :: members, rest)

end

/-- Read a document: one value and nothing after it. -/
def document {α : Type} (read : Bytes → Except Fail (α × Bytes)) (text : Bytes) : Except Fail α :=
  match read text with
  | .error e => .error e
  | .ok (value, rest) =>
    match skipSpace rest with
    | [] => .ok value
    | rest => failPeek "trailing characters" rest

def parse (text : Bytes) : Except Fail Json :=
  document (readValue depthLimit (2 * text.length + 2)) text

/-- The value of a member; of several with one name, the first. -/
def member? (name : String) : Json → Option Json
  | .object members => (members.find? fun m => m.1 == name).map (·.2)
  | _ => none

end Json

end Foundry
