import Foundry.Toml.Token

/-!
# Reading configuration files

Values with their nesting, the statements of a file, and the table that the
statements give. Lists and inline tables nest less deep than `depthLimit`.
-/

namespace Foundry

namespace Toml

/-- The items of a list up to its closing bracket; a comma may follow the last one. -/
def readItems (item : List Char → Option (Value × List Char)) :
    Nat → List Char → Option (List Value × List Char)
  | 0, _ => none
  | fuel + 1, cs => do
    match ← skipLines cs.length cs with
    | ']' :: rest => return ([], rest)
    | rest =>
      let (v, rest) ← item rest
      match ← skipLines rest.length rest with
      | ']' :: rest => return ([v], rest)
      | ',' :: rest =>
        let (vs, rest) ← readItems item fuel rest
        return (v :: vs, rest)
      | _ => none

/-- One assignment: a dotted name, an equals sign and a value. -/
def readPair (item : List Char → Option (Value × List Char)) (cs : List Char) :
    Option ((Key × Value) × List Char) := do
  let (key, rest) ← readKey cs
  let rest ← expect? '=' rest
  let (v, rest) ← item (skipSpace rest)
  return ((key, v), rest)

/-- The assignments of an inline table up to its closing brace, on one line. -/
def readPairs (item : List Char → Option (Value × List Char)) :
    Nat → List Char → Option (List (Key × Value) × List Char)
  | 0, _ => none
  | fuel + 1, cs => do
    let (pair, rest) ← readPair item cs
    match skipSpace rest with
    | '}' :: rest => return ([pair], rest)
    | ',' :: rest =>
      let (pairs, rest) ← readPairs item fuel rest
      return (pair :: pairs, rest)
    | _ => none

/-- A value inside which lists and inline tables nest at most `depth` deep. -/
def readValue (depth : Nat) (cs : List Char) : Option (Value × List Char) :=
  match cs with
  | '"' :: _ | '\x27' :: _ => (readText cs).map fun r => (.string (String.ofList r.1), r.2)
  | '[' :: rest =>
    match depth with
    | 0 => none
    | depth + 1 =>
      (readItems (readValue depth) (rest.length + 1) rest).map fun r => (.array r.1, r.2)
  | '{' :: rest =>
    match depth with
    | 0 => none
    | depth + 1 =>
      match skipSpace rest with
      | '}' :: rest => some (.table [], rest)
      | _ => do
        let (pairs, rest) ← readPairs (readValue depth) (rest.length + 1) rest
        return (← inlineTable? pairs, rest)
  | _ => readWord cs

/-- The header of a table, or of an element of a list of tables, after its first bracket. -/
def readHeader : List Char → Option (Statement × List Char)
  | '[' :: rest => do
    let (key, rest) ← readKey rest
    let rest ← expect? ']' (← expect? ']' rest)
    return (.elementHeader key, ← lineEnd? rest)
  | cs => do
    let (key, rest) ← readKey cs
    return (.header key, ← lineEnd? (← expect? ']' rest))

/-- A header or an assignment with the line it ends. -/
def readStatement : List Char → Option (Statement × List Char)
  | '[' :: rest => readHeader rest
  | cs => do
    let ((key, v), rest) ← readPair (readValue (depthLimit - 1)) cs
    return (.assign key v, ← lineEnd? rest)

/-- The statements of a file, past blank lines and comments. -/
def readStatements : Nat → List Char → Option (List Statement)
  | 0, _ => none
  | fuel + 1, cs =>
    match skipSpace cs with
    | [] => some []
    | '#' :: rest => do readStatements fuel (← lineEnd? ('#' :: rest))
    | '\n' :: rest => readStatements fuel rest
    | '\r' :: rest => do readStatements fuel (← expect? '\n' rest)
    | rest => do
      let (s, rest) ← readStatement rest
      return s :: (← readStatements fuel rest)

/-- A mark at the very start that names the encoding is passed over. -/
def dropMark : List Char → List Char
  | '\ufeff' :: rest => rest
  | cs => cs

def parse? (text : String) : Option (List (String × Value)) := do
  let cs := dropMark text.toList
  assemble? (← readStatements (cs.length + 1) cs)

end Toml

end Foundry
