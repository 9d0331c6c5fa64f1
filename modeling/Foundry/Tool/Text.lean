import Foundry.Tool.Basic
import Foundry.Tool.Printf
import Foundry.Tool.Regex

/-!
# Tools for texts

Each tool reads the files it is given, or its input, and prints lines. Options are the
common ones.
-/

namespace Foundry

namespace Tool

/-- The options at the front of the arguments, letter by letter, and the arguments after them.
Letters of `valued` take the rest of their argument or the next one as their value. -/
def options (valued : List Char) : Nat → List String → List (Char × String) × List String
  | 0, args => ([], args)
  | _ + 1, [] => ([], [])
  | fuel + 1, arg :: rest =>
    match arg.toList with
    | ['-', '-'] => ([], rest)
    | '-' :: letter :: more =>
      if valued.contains letter then
        match more, rest with
        | [], value :: rest =>
          let (os, rest) := options valued fuel rest
          ((letter, value) :: os, rest)
        | more, rest =>
          let (os, rest) := options valued fuel rest
          ((letter, String.ofList more) :: os, rest)
      else if more.isEmpty then
        let (os, rest) := options valued fuel rest
        ((letter, "") :: os, rest)
      else
        let (os, rest) := options valued fuel (String.ofList ('-' :: more) :: rest)
        ((letter, "") :: os, rest)
    | _ => ([], arg :: rest)

def optionsOf (valued : List Char) (args : List String) : List (Char × String) × List String :=
  options valued (args.foldl (fun n a => n + a.length + 1) 1) args

def hasOption (os : List (Char × String)) (c : Char) : Bool := os.any fun o => o.1 == c

def linesOf (text : String) : List String :=
  let lines := text.splitOn "\n"
  if lines.getLast? == some "" then lines.dropLast else lines

def unlines (lines : List String) : String := String.join (lines.map (· ++ "\n"))

/-- Do something with what each file holds. Files that cannot be read are complained about. -/
def eachFile (i : Invocation) (paths : List String) (f : String → String → Piece Unit) :
    Piece Nat :=
  match paths with
  | [] => pure 0
  | path :: rest => do
    let failed ← match ← i.readFile path with
      | .ok text => do
        f path text
        pure 0
      | .error e => do
        i.complain s!"{path}: {Invocation.reason e}"
        pure 1
    return max failed (← eachFile i rest f)

def orInput (paths : List String) : List String := if paths.isEmpty then ["-"] else paths

/-- Do something with the stream of each file. Files that cannot be opened are complained about. -/
def eachStream (i : Invocation) (what : String → String) (f : Nat → Piece Unit) :
    List String → Piece Nat
  | [] => pure 0
  | path :: rest => do
    let failed ← match ← i.openInput path with
      | .ok stream => do
        f stream
        pure 0
      | .error e => do
        i.complain s!"{what path}: {Invocation.reason e}"
        pure 1
    return max failed (← eachStream i what f rest)

def unopened (path : String) : String := s!"cannot open '{path}' for reading"

/-- Pass on what a stream has, piece by piece. -/
def passOn (i : Invocation) (stream : Nat) : Nat → Piece Unit
  | 0 => pure ()
  | fuel + 1 => do
    let bytes ← Piece.readReady stream
    if bytes.isEmpty then return ()
    else
      i.print (Text.ofBytes bytes)
      passOn i stream fuel

def cat : Tool := fun i => do
  let (os, paths) := optionsOf [] i.args
  if hasOption os 'n' then
    eachFile i (orInput paths) fun _ text =>
      i.print (unlines ((linesOf text).zipIdx.map fun l =>
        let n := toString (l.2 + 1)
        String.ofList (List.replicate (6 - n.length) ' ') ++ n ++ "\t" ++ l.1))
  else eachStream i id (fun stream => passOn i stream Piece.maxPieces) (orInput paths)

/-- Print the arguments. Escapes are carried out only where that is asked for. -/
def echo : Tool := fun i => do
  let (flags, words) := i.args.span fun a =>
    match a.toList with
    | '-' :: c :: rest => (c :: rest).all fun c => c == 'n' || c == 'e' || c == 'E'
    | _ => false
  let letters := flags.flatMap String.toList
  let text := " ".intercalate words
  let (text, stopped) :=
    if letters.contains 'e' then
      let (cs, stopped) := Printf.unescape true (text.length + 1) text.toList
      (String.ofList cs, stopped)
    else (text, false)
  i.print (if letters.contains 'n' || stopped then text else text ++ "\n")
  return 0

def printf : Tool := fun i => do
  match if i.args.head? = some "--" then i.args.tail else i.args with
  | [] => do
    i.complain "missing operand"
    return 1
  | format :: args => do
    let printed := Printf.print format args
    i.print printed.text
    for (arg, flaw) in printed.refused do
      i.complain (match flaw with
        | .notNumeric => s!"'{arg}': expected a numeric value"
        | .partly => s!"'{arg}': value not completely converted"
        | .outOfRange => s!"'{arg}': Numerical result out of range")
    match printed.broken with
    | some "" => i.complain "%: invalid conversion specification"
    | some conversion => i.complain s!"{conversion}: invalid conversion specification"
    | none => pure ()
    return min printed.code 1

def numbers (first step last : Int) : List Int :=
  if step = 0 then []
  else
    let count := if 0 < step then (last - first) / step + 1 else (first - last) / (-step) + 1
    (List.range count.toNat).map fun (k : Nat) => first + step * (k : Int)

def integer? (s : String) : Option Int :=
  match s.toList with
  | '-' :: cs =>
    if !cs.isEmpty && cs.all Char.isDigit then some (-(Printf.number cs : Int)) else none
  | '+' :: cs | cs => if !cs.isEmpty && cs.all Char.isDigit then some (Printf.number cs) else none

def seq : Tool := fun i => do
  let (os, args) := match i.args with
    | first :: rest =>
      if first.startsWith "-s" then optionsOf ['s'] (first :: rest) else ([], first :: rest)
    | [] => ([], [])
  let separator := (os.lookup 's').getD "\n"
  let hint := "Try 'seq --help' for more information."
  match args.mapM integer? with
  | none => do
    let bad := (args.find? fun a => (integer? a).isNone).getD ""
    i.complain s!"invalid floating point argument: '{bad}'\n{hint}"
    return 1
  | some [] => do
    i.complain s!"missing operand\n{hint}"
    return 1
  | some ns =>
    let range := match ns with
      | [last] => numbers 1 1 last
      | [first, last] => numbers first 1 last
      | [first, step, last] => numbers first step last
      | _ => []
    if range.isEmpty then return 0
    else do
      i.print (separator.intercalate (range.map fun n => toString n) ++ "\n")
      return 0

/-- How many lines `head` and `tail` show, and the files. -/
def countOf (args : List String) : Option (Char × String) × List String :=
  match args with
  | arg :: rest =>
    match arg.toList with
    | '-' :: c :: cs =>
      if c.isDigit then (some ('n', String.ofList (c :: cs)), rest)
      else
        let (os, rest) := optionsOf ['n', 'c'] args
        (os.head?, rest)
    | _ => (none, args)
  | [] => (none, [])

def head : Tool := fun i => do
  let (count, paths) := countOf i.args
  let n := (count.bind fun o => integer? o.2).getD 10
  let byBytes := count.any fun o => o.1 == 'c'
  let enough := fun (bytes : ByteArray) =>
    0 ≤ n && n.toNat ≤ if byBytes then bytes.size else bytes.toList.count 10
  eachStream i unopened (fun stream => do
    let text := Text.ofBytes (← Piece.readUntil enough Piece.maxPieces stream .empty)
    if byBytes then
      let cs := text.toList
      i.print (String.ofList (cs.take (if 0 ≤ n then n.toNat else cs.length - n.natAbs)))
    else
      let lines := linesOf text
      let shown := lines.take (if 0 ≤ n then n.toNat else lines.length - n.natAbs)
      let ended := shown.length < lines.length || text.endsWith "\n" || shown.isEmpty
      i.print (if ended then unlines shown else "\n".intercalate shown)) (orInput paths)

def tail : Tool := fun i => do
  let (count, paths) := countOf i.args
  let fromStart := count.any fun o => o.2.startsWith "+"
  let n := ((count.bind fun o => integer? o.2).getD 10).natAbs
  eachStream i unopened (fun stream => do
    let text := Text.ofBytes (← Piece.readAll Piece.maxPieces stream)
    if count.any fun o => o.1 == 'c' then
      let cs := text.toList
      i.print (String.ofList (if fromStart then cs.drop (n - 1) else cs.drop (cs.length - n)))
    else
      let lines := linesOf text
      let shown := if fromStart then lines.drop (n - 1) else lines.drop (lines.length - n)
      i.print (if text.endsWith "\n" then unlines shown else "\n".intercalate shown))
        (orInput paths)

def isBlankChar (c : Char) : Bool := " \t\n\x0b\x0c\r".toList.contains c

/-- Maximal runs of other characters than blanks. -/
def countWords (cs : List Char) : Nat :=
  (cs.foldl (fun (n, inWord) c =>
    if isBlankChar c then (n, false) else (if inWord then n else n + 1, true)) (0, false)).1

def wc : Tool := fun i => do
  let (os, paths) := optionsOf [] i.args
  let all := os.isEmpty
  let shows := fun c => all || hasOption os c
  let single := os.length == 1
  let width := if single then 0 else 7
  eachFile i (orInput paths) fun path text => do
    let counts := (if shows 'l' then [text.toList.count '\n'] else []) ++
      (if shows 'w' then [countWords text.toList] else []) ++
      (if all || hasOption os 'c' || hasOption os 'm' then [text.length] else [])
    let shown := counts.map fun n =>
      let digits := (toString n).toList
      String.ofList (List.replicate (width - digits.length) ' ' ++ digits)
    i.print (" ".intercalate shown ++ (if path = "-" then "" else " " ++ path) ++ "\n")

/-- The characters that a set of `tr` names. -/
def charSet : Nat → List Char → List Char
  | 0, _ => []
  | fuel + 1, cs =>
    match cs with
    | [] => []
    | '\\' :: rest =>
      match Printf.escape false rest with
      | (some [c], n) => c :: charSet fuel (rest.drop n)
      | _ => charSet fuel rest
    | '[' :: ':' :: rest =>
      let name := rest.takeWhile Char.isAlpha
      let members := ((List.range 256).map Char.ofNat).filter
        (Shell.Pattern.isOfKind (String.ofList name))
      members ++ charSet fuel (rest.drop (name.length + 2))
    | a :: '-' :: b :: rest =>
      ((List.range (b.toNat + 1 - a.toNat)).map fun k => Char.ofNat (a.toNat + k)) ++
        charSet fuel rest
    | c :: rest => c :: charSet fuel rest

/-- Leave one of each run of equal characters of a set. -/
def squeeze (isIn : Char → Bool) : List Char → List Char
  | a :: rest =>
    match squeeze isIn rest with
    | b :: more => if a == b && isIn a then b :: more else a :: b :: more
    | [] => [a]
  | [] => []

def tr : Tool := fun i => do
  let (os, sets) := optionsOf [] i.args
  let sets := sets.map fun s => charSet (s.length + 1) s.toList
  let text := (← i.readInput).toList
  let first := sets.headD []
  let isFirst := fun c => first.contains c != (hasOption os 'c' || hasOption os 'C')
  let out :=
    if hasOption os 'd' then text.filter fun c => !isFirst c
    else match sets with
      | [_, second] =>
        let last := second.getLastD ' '
        let table := first.zip (second ++ List.replicate (first.length - second.length) last)
        let mapped := text.map fun c =>
          if hasOption os 'c' then (if isFirst c then last else c) else (table.lookup c).getD c
        if hasOption os 's' then squeeze (fun c => second.contains c) mapped else mapped
      | _ => if hasOption os 's' then squeeze isFirst text else text
  i.print (String.ofList out)
  return 0

def leadingNumber (s : String) : Int :=
  match s.toList.dropWhile isBlankChar with
  | '-' :: cs => -(Printf.number (cs.takeWhile Char.isDigit) : Int)
  | cs => Printf.number (cs.takeWhile Char.isDigit)

def sort : Tool := fun i => do
  let (os, paths) := optionsOf [] i.args
  let rec gather : List String → Piece (List String)
    | [] => pure []
    | path :: rest => do
      match ← i.readFile path with
      | .ok text => return linesOf text ++ (← gather rest)
      | .error e => do
        i.complain s!"cannot read: {path}: {Invocation.reason e}"
        gather rest
  let lines ← gather (orInput paths)
  let missing ← Piece.see fun k =>
    paths.any fun p => p ≠ "-" && !k.files.exists? i.cwd (Text.fromBytes p)
  let before := fun (a b : String) =>
    if hasOption os 'n' then
      let (x, y) := (leadingNumber a, leadingNumber b)
      x < y || (x = y && a ≤ b)
    else decide (a ≤ b)
  let sorted := lines.mergeSort before
  let sorted := if hasOption os 'r' then sorted.reverse else sorted
  if missing then return 2
  else do
    i.print (unlines (if hasOption os 'u' then sorted.eraseDups else sorted))
    return 0

/-- Runs of equal lines with their lengths. -/
def groups : List String → List (String × Nat)
  | [] => []
  | a :: rest =>
    match groups rest with
    | (b, n) :: more => if a = b then (b, n + 1) :: more else (a, 1) :: (b, n) :: more
    | [] => [(a, 1)]

def uniq : Tool := fun i => do
  let (os, paths) := optionsOf [] i.args
  eachFile i (orInput (paths.take 1)) fun _ text =>
    let kept := (groups (linesOf text)).filter fun g =>
      if hasOption os 'd' then 1 < g.2 else if hasOption os 'u' then g.2 = 1 else true
    i.print (unlines (kept.map fun g =>
      if hasOption os 'c' then
        let n := (toString g.2).toList
        String.ofList (List.replicate (7 - n.length) ' ' ++ n) ++ " " ++ g.1
      else g.1))

/-- Whether a list such as `1,3-5` names a position. -/
def listNames (list : String) (n : Nat) : Bool :=
  (list.splitOn ",").any fun item =>
    match item.splitOn "-" with
    | [a] => a.toNat? == some n
    | [a, b] => (a.toNat?.getD 1) ≤ n && (match b.toNat? with | some b => n ≤ b | none => true)
    | _ => false

def cut : Tool := fun i => do
  let (os, paths) := optionsOf ['d', 'f', 'c', 'b'] i.args
  let delimiter := (os.lookup 'd').getD "\t"
  eachFile i (orInput paths) fun _ text =>
    i.print (unlines ((linesOf text).map fun line =>
      match os.lookup 'f' with
      | some list =>
        let fields := line.splitOn delimiter
        if fields.length ≤ 1 then line
        else delimiter.intercalate
          ((fields.zipIdx.filter fun f => listNames list (f.2 + 1)).map (·.1))
      | none =>
        let list := ((os.lookup 'c').or (os.lookup 'b')).getD ""
        String.ofList ((line.toList.zipIdx.filter fun c => listNames list (c.2 + 1)).map (·.1))))

/-- Lines that an expression finds something in; ends with one if there are none. -/
def grep : Tool := fun i => do
  let (os, rest) := optionsOf ['e', 'm'] i.args
  let (pattern, paths) := match os.lookup 'e', rest with
    | some p, rest => (p, rest)
    | none, p :: rest => (p, rest)
    | none, [] => ("", [])
  let e := if hasOption os 'F' then Regex.literal pattern else Regex.ofText (hasOption os 'E')
    pattern
  let e := if hasOption os 'x' then { e with atStart := true, atEnd := true } else e
  let accepts := fun (line : String) =>
    e.finds (hasOption os 'i') line.toList != hasOption os 'v'
  let many := 1 < paths.length
  let rec search : List String → Piece (Bool × Bool)
    | [] => pure (false, false)
    | path :: more => do
      match ← i.readFile path with
      | .error err => do
        if !hasOption os 's' then i.complain s!"{path}: {Invocation.reason err}"
        return ((← search more).1, true)
      | .ok text => do
        let found := (linesOf text).zipIdx.filter fun l => accepts l.1
        let label := if many && !hasOption os 'h' then path ++ ":" else ""
        if hasOption os 'q' then pure ()
        else if hasOption os 'c' then i.print s!"{label}{found.length}\n"
        else if hasOption os 'l' then
          if found.isEmpty then pure () else i.print (path ++ "\n")
        else i.print (unlines (found.map fun l =>
          label ++ (if hasOption os 'n' then s!"{l.2 + 1}:" else "") ++ l.1))
        let (any, failed) ← search more
        return (any || !found.isEmpty, failed)
  let (any, failed) ← search (orInput paths)
  return if failed then 2 else if any then 0 else 1

def tee : Tool := fun i => do
  let (os, paths) := optionsOf [] i.args
  let text ← i.readInput
  i.print text
  let rec copy : List String → Piece Nat
    | [] => pure 0
    | path :: rest => do
      let bytes := Text.toBytes text
      let r ← Piece.changeFiles fun fs =>
        if hasOption os 'a' then fs.append i.cwd (Text.fromBytes path) bytes
        else fs.write i.cwd (Text.fromBytes path) bytes
      let failed ← match r with
        | .ok _ => pure 0
        | .error e => do
          i.complain s!"{path}: {Invocation.reason e}"
          pure 1
      return max failed (← copy rest)
  copy paths

/-- Print a line again and again, until nobody reads it or for good. -/
def yes : Tool := fun i =>
  let line := (if i.args.isEmpty then "y" else " ".intercalate i.args) ++ "\n"
  let block := String.join (List.replicate 1024 line)
  let rec go : Nat → Piece Nat
    | 0 => pure 1
    | fuel + 1 => do
      i.print block
      Piece.sleep 1000000
      go fuel
  go Piece.maxPieces

/-! ## Small tools -/

def succeed : Tool := fun _ => pure 0

def refuse : Tool := fun _ => pure 1

def printenv : Tool := fun i => do
  if i.args.isEmpty then
    i.print (unlines (i.environment.map fun e => e.1 ++ "=" ++ e.2))
    return 0
  else
    let values := i.args.map fun name => i.environment.lookup name
    i.print (unlines (values.filterMap id))
    return if values.all Option.isSome then 0 else 1

def pwd : Tool := fun i => do
  i.print (i.dir ++ "\n")
  return 0

/-- A time in seconds, perhaps with a unit, in nanoseconds. -/
def interval? (s : String) : Option Nat :=
  let (cs, unit) := match s.toList.reverse with
    | 's' :: rest => (rest.reverse, 1)
    | 'm' :: rest => (rest.reverse, 60)
    | 'h' :: rest => (rest.reverse, 3600)
    | 'd' :: rest => (rest.reverse, 86400)
    | _ => (s.toList, 1)
  let whole := cs.takeWhile Char.isDigit
  let fraction := (cs.drop whole.length).drop 1
  let dotted := match cs.drop whole.length with
    | [] => true
    | '.' :: _ => true
    | _ => false
  if !dotted || !fraction.all Char.isDigit || (whole.isEmpty && fraction.isEmpty) then none
  else
    let nanos := Printf.number ((fraction ++ List.replicate 9 '0').take 9)
    some ((Printf.number whole * 1000000000 + nanos) * unit)

def sleep : Tool := fun i => do
  match i.args with
  | [] => do
    i.complain "missing operand\nTry 'sleep --help' for more information."
    return 1
  | args =>
    match args.find? fun a => (interval? a).isNone with
    | some bad =>
      if bad = "infinity" then
        Piece.sleep 1000000000000000000
        return 0
      else do
        let hint := "Try 'sleep --help' for more information."
        match bad.toList with
        | '-' :: c :: _ => i.complain s!"invalid option -- '{c}'\n{hint}"
        | _ => i.complain s!"invalid time interval '{bad}'\n{hint}"
        return 1
    | none => do
      Piece.sleep ((args.filterMap interval?).foldl (· + ·) 0)
      return 0

def baseName (s : String) : String :=
  if s.isEmpty then ""
  else
    let cs := s.toList.reverse.dropWhile (· == '/')
    if cs.isEmpty then "/" else String.ofList (cs.takeWhile (· ≠ '/')).reverse

def basename : Tool := fun i => do
  match i.args with
  | path :: rest => do
    let name := baseName path
    let name := match rest with
      | ending :: _ =>
        if ending ≠ name && name.endsWith ending then
          String.ofList (name.toList.take (name.length - ending.length))
        else name
      | [] => name
    i.print (name ++ "\n")
    return 0
  | [] => do
    i.complain "missing operand"
    return 1

def dirName (s : String) : String :=
  let cs := s.toList.reverse.dropWhile (· == '/')
  if cs.isEmpty then if s.isEmpty then "." else "/"
  else
    match (cs.dropWhile (· ≠ '/')) with
    | [] => "."
    | rest =>
      let dir := rest.dropWhile (· == '/')
      if dir.isEmpty then "/" else String.ofList dir.reverse

def dirname : Tool := fun i => do
  i.print (unlines (i.args.map dirName))
  return 0

end Tool

end Foundry
