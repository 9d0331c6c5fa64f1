import Foundry.Shell.Grammar

/-!
# Reading commands

A script is read one complete command at a time, so that what stands before a mistake
has run when the mistake is found. Which words are keywords depends on where they
stand; every function says where it looks for them. The functions call each other with
less and less fuel, and are given more than a text of its length can use.
-/

namespace Foundry

namespace Shell

structure Reader where
  rest : List Char
  /-- More than reading all of it can use. -/
  fuel : Nat := 16 * (rest.length + 16)
  line : Nat := 1
  /-- Lines of texts taken out of the input ahead of their place. -/
  ahead : Nat := 0
  /-- Whether the last token is to be read again. -/
  pushed : Bool := false
  last : Token := .endOfFile
deriving Inhabited

structure Trouble where
  line : Nat
  message : String
deriving DecidableEq, Repr, Inhabited

abbrev Parse := StateT Reader (Except Trouble)

namespace Reader

variable {α : Type}

def fail (message : String) : Parse α := fun r => .error ⟨r.line, message⟩

def unexpected : Parse α := do
  fail (s!"{(← get).last.shown} unexpected")

/-- Complain that another token should have come. -/
def expecting (what : String) : Parse α := do
  fail (s!"{(← get).last.shown} unexpected (expecting {what})")

def pushBack : Parse Unit := modify fun r => { r with pushed := true }

/-- Skip line ends that a backslash hides. -/
def skipJoins : List Char → Nat → List Char × Nat
  | '\\' :: '\n' :: rest, n => skipJoins rest (n + 1)
  | rest, n => (rest, n)

def peek : Parse (Option Char) := do
  let r ← get
  let (rest, n) := skipJoins r.rest 0
  set { r with rest, line := r.line + n }
  return rest.head?

def drop (n : Nat) : Parse Unit := modify fun r => { r with rest := r.rest.drop n }

/-- Take the longest run of characters of a kind, counting lines. -/
def takeRun (isIn : Char → Bool) : Parse (List Char) := do
  let r ← get
  let run := r.rest.takeWhile isIn
  set { r with rest := r.rest.dropWhile isIn, line := r.line + run.count '\n' }
  return run

/-! ## Words -/

/-- What surrounds the characters that are read. -/
inductive Mode where
  | word
  | quotes
  /-- The word after a parameter, in braces, outside of quotes or within. -/
  | braces (isQuoted : Bool)
  /-- A calculation, with the number of open parentheses. -/
  | number (depth : Nat)
  | lines
deriving DecidableEq, Repr, Inhabited

namespace Mode

/-- Whether characters stand for themselves. -/
def isQuoted : Mode → Bool
  | .word | .braces false => false
  | _ => true

/-- Characters that end a word. -/
def isMeta (c : Char) : Bool := " \t\n;&|()<>".toList.contains c

/-- Characters that mean nothing in particular. -/
def isPlain (mode : Mode) (c : Char) : Bool :=
  match mode with
  | .word => !isMeta c && !"\\'\"$`".toList.contains c
  | .quotes => !"\\\"$`".toList.contains c
  | .braces false => !"\\'\"$`\x7d".toList.contains c
  | .braces true => !"\\\"$`\x7d".toList.contains c
  | .number _ => !"\\\"$`()".toList.contains c
  | .lines => !"\\$`".toList.contains c

/-- Whether a backslash hides the meaning of a character. -/
def hides (mode : Mode) (c : Char) : Bool :=
  match mode with
  | .word | .braces false => true
  | .lines => "\\`$".toList.contains c
  | .braces true => "\\`$\"\x7d".toList.contains c
  | _ => "\\`$\"".toList.contains c

/-- What is missing when the text ends. -/
def atEnd : Mode → Option String
  | .word | .lines => none
  | .quotes | .braces true => some "Unterminated quoted string"
  | .braces false => some "Missing '\x7d'"
  | .number _ => some "Missing '))'"

end Mode

def textPart (isQuoted : Bool) (text : String) : Part :=
  if isQuoted then .quoted text else .bare text

/-- The text of a substitution up to its closing mark. Backslashes hide marks. -/
def backquoted (inQuotes : Bool) : Nat → List Char → Option (List Char × List Char)
  | 0, _ => none
  | fuel + 1, cs =>
    match cs with
    | [] => none
    | '`' :: rest => some ([], rest)
    | '\\' :: '\n' :: rest => backquoted inQuotes fuel rest
    | '\\' :: c :: rest =>
      let hidden := c == '\\' || c == '`' || c == '$' || (inQuotes && c == '"')
      (backquoted inQuotes fuel rest).map fun r =>
        (if hidden then c :: r.1 else '\\' :: c :: r.1, r.2)
    | c :: rest => (backquoted inQuotes fuel rest).map fun r => (c :: r.1, r.2)

/-- The lines up to a line that is the mark, and what follows it. -/
def linesUpTo (mark : List Char) (stripTabs : Bool) :
    Nat → List Char → List Char × List Char × Nat
  | 0, cs => ([], cs, 0)
  | fuel + 1, cs =>
    if cs.isEmpty then ([], [], 0)
    else
      let line := cs.takeWhile (· ≠ '\n')
      let rest := (cs.dropWhile (· ≠ '\n')).drop 1
      let shown := if stripTabs then line.dropWhile (· = '\t') else line
      if shown = mark then ([], rest, 1)
      else
        let ended := line.length < cs.length
        let (body, rest, n) := linesUpTo mark stripTabs fuel rest
        (shown ++ (if ended then '\n' :: body else body), rest, n + 1)

/-- Take the text of a here-document out of the input, from the next line on. -/
def takeHere (mark : List Char) (stripTabs : Bool) : Parse (List Char) := do
  let r ← get
  let line := r.rest.takeWhile (· ≠ '\n')
  match r.rest.dropWhile (· ≠ '\n') with
  | [] => return []
  | _ :: rest =>
    let (body, rest, n) := linesUpTo mark stripTabs (rest.length + 1) rest
    set { r with rest := line ++ '\n' :: rest, ahead := r.ahead + n }
    return body

def unquotedText (parts : List Part) : String :=
  String.join (parts.map fun p => match p with
    | .bare s | .quoted s => s
    | .parameter name .. => "$" ++ name
    | _ => "")

def hasQuotes (parts : List Part) : Bool :=
  parts.any fun p => match p with | .quoted _ => true | _ => false

def isSeparator (c : Char) : Bool := c == ' ' || c == '\t'

def skipBlanks : Nat → Parse Unit
  | 0 => return ()
  | fuel + 1 => do
    match ← peek with
    | some ' ' | some '\t' =>
      let _ ← takeRun isSeparator
      skipBlanks fuel
    | some '#' =>
      let _ ← takeRun (· ≠ '\n')
    | _ => return ()

/-- The stream that a redirection is about, if the input starts with one. -/
def redirectAhead? (cs : List Char) : Option (Option Nat × List Char) :=
  match cs with
  | '<' :: _ | '>' :: _ => some (none, cs)
  | d :: c :: rest =>
    if d.isDigit && (c == '<' || c == '>') then some (some (d.toNat - 48), c :: rest) else none
  | _ => none

def readRedirect (stream : Option Nat) : Parse Token := do
  let isOutput := (← peek) == some '>'
  drop 1
  let second ← peek
  let taking := fun (n : Nat) (operator : RedirectOperator) => do
    drop 1
    return Token.redirect (stream.getD n) operator
  if isOutput then
    match second with
    | some '>' => taking 1 (.file .appending)
    | some '|' => taking 1 (.file .forced)
    | some '&' => taking 1 (.file .duplicate)
    | _ => return .redirect (stream.getD 1) (.file .output)
  else
    match second with
    | some '<' =>
      drop 1
      if (← peek) == some '-' then taking 0 (.here true)
      else return .redirect (stream.getD 0) (.here false)
    | some '&' => taking 0 (.file .duplicate)
    | some '>' => taking 0 (.file .both)
    | _ => return .redirect (stream.getD 0) (.file .input)

/-- An assignment, if a word is one: the name, and what is assigned. -/
def assignment? (parts : List Part) : Option (String × List Part) :=
  match parts with
  | .bare s :: rest =>
    let name := String.ofList (s.toList.takeWhile (· ≠ '='))
    match s.toList.dropWhile (· ≠ '=') with
    | _ :: value =>
      if isName name then
        some (name, if value.isEmpty then rest else .bare (String.ofList value) :: rest)
      else none
    | [] => none
  | _ => none

/-- Builtins that cannot be defined anew. -/
def specialBuiltins : List String :=
  [".", ":", "break", "continue", "eval", "exec", "exit", "export", "local", "readonly",
   "return", "set", "shift", "times", "trap", "unset"]

mutual

/-- The parts of a text up to its end in a mode. -/
def readParts : Nat → Mode → Parse (List Part)
  | 0, _ => fail "Word too long"
  | fuel + 1, mode => do
    match ← peek with
    | none =>
      match mode.atEnd with
      | some message => fail message
      | none => return []
    | some c =>
      if mode.isPlain c then
        let run ← takeRun fun c => mode.isPlain c
        return textPart mode.isQuoted (String.ofList run) :: (← readParts fuel mode)
      else if mode = .word && Mode.isMeta c then return []
      else
        drop 1
        match c, mode with
        | '\\', _ => do
          match (← get).rest with
          | [] => return .quoted "\\" :: (← readParts fuel mode)
          | c :: _ =>
            drop 1
            if c == '\n' then modify fun r => { r with line := r.line + 1 }
            let text := if mode.hides c then String.ofList [c] else String.ofList ['\\', c]
            return .quoted text :: (← readParts fuel mode)
        | '\x27', _ => do
          let run ← takeRun (· ≠ '\x27')
          if (← get).rest.isEmpty then fail "Unterminated quoted string"
          drop 1
          return .quoted (String.ofList run) :: (← readParts fuel mode)
        | '"', .quotes => return []
        | '"', .number _ => readParts fuel mode
        | '"', .braces true => readParts fuel mode
        | '"', _ => do
          let inner ← readParts fuel .quotes
          return (if inner.isEmpty then [.quoted ""] else inner) ++ (← readParts fuel mode)
        | '\x7d', .braces _ => return []
        | '(', .number depth => do
          return .quoted "(" :: (← readParts fuel (.number (depth + 1)))
        | ')', .number 0 => do
          if (← peek) == some ')' then
            drop 1
            return []
          else return .quoted ")" :: (← readParts fuel mode)
        | ')', .number (depth + 1) => do
          return .quoted ")" :: (← readParts fuel (.number depth))
        | '`', _ => do
          let body ← readBackquoted fuel mode
          return body :: (← readParts fuel mode)
        | _, _ => do
          let part ← readDollar fuel mode.isQuoted
          return part :: (← readParts fuel mode)

def readDollar : Nat → Bool → Parse Part
  | 0, _ => fail "Word too long"
  | fuel + 1, isQuoted => do
    match ← peek with
    | some '(' => do
      drop 1
      if (← peek) == some '(' then
        drop 1
        return .number (joinParts (← readParts fuel (.number 0))) isQuoted
      else return .output (← readOutput fuel) isQuoted
    | some '\x7b' => do
      drop 1
      readBraced fuel isQuoted
    | some c =>
      if isNameStart c then
        return .parameter (String.ofList (← takeRun isNameChar)) .value isQuoted
      else if c.isDigit || isSpecial c then
        drop 1
        return .parameter (String.ofList [c]) .value isQuoted
      else return textPart isQuoted "$"
    | none => return textPart isQuoted "$"

def readBraced : Nat → Bool → Parse Part
  | 0, _ => fail "Word too long"
  | fuel + 1, isQuoted => do
    let bad := do
      let _ ← readParts fuel (.braces isQuoted)
      return Part.parameter "" .bad isQuoted
    let ofLength := fun (name : String) => do
      if (← peek) == some '\x7d' then
        drop 1
        return Part.parameter name .length isQuoted
      else bad
    match ← peek with
    | some '#' => do
      drop 1
      let first ← peek
      let closes := ((← get).rest.drop 1).head? == some '\x7d'
      match first with
      | some c =>
        if isNameStart c then ofLength (String.ofList (← takeRun isNameChar))
        else if c.isDigit then ofLength (String.ofList (← takeRun Char.isDigit))
        else if isSpecial c && closes then
          drop 1
          ofLength (String.ofList [c])
        else readUse fuel "#" isQuoted
      | none => readUse fuel "#" isQuoted
    | some c =>
      if isNameStart c then readUse fuel (String.ofList (← takeRun isNameChar)) isQuoted
      else if c.isDigit then readUse fuel (String.ofList (← takeRun Char.isDigit)) isQuoted
      else if isSpecial c then
        drop 1
        readUse fuel (String.ofList [c]) isQuoted
      else bad
    | none => bad

/-- What is taken of a parameter whose name has been read. -/
def readUse : Nat → String → Bool → Parse Part
  | 0, _, _ => fail "Word too long"
  | fuel + 1, name, isQuoted => do
    let word := fun (mode : Mode) (use : List Part → Use) => do
      let parts ← readParts fuel mode
      return Part.parameter name (use (joinParts parts)) isQuoted
    let fallback := fun (whenEmpty : Bool) => do
      let kind? := match ← peek with
        | some '-' => some Fallback.substitute
        | some '=' => some .assign
        | some '?' => some .fail
        | some '+' => some .alternative
        | _ => none
      match kind? with
      | some kind => do
        drop 1
        word (.braces isQuoted) (.fallback kind whenEmpty)
      | none => word (.braces isQuoted) fun _ => .bad
    match ← peek with
    | some '\x7d' => do
      drop 1
      return .parameter name .value isQuoted
    | some ':' => do
      drop 1
      fallback true
    | some '%' => do
      drop 1
      let longest := (← peek) == some '%'
      if longest then drop 1
      word (.braces false) (.strip true longest)
    | some '#' => do
      drop 1
      let longest := (← peek) == some '#'
      if longest then drop 1
      word (.braces false) (.strip false longest)
    | _ => fallback false

/-- The commands between parentheses after a dollar sign. -/
def readOutput : Nat → Parse Tree
  | 0 => fail "Word too long"
  | fuel + 1 => do
    let outer ← get
    set { outer with pushed := false }
    let body ← readList fuel false true
    match ← readToken fuel false false with
    | .closeParen => do
      modify fun r => { r with pushed := outer.pushed, last := outer.last }
      return body
    | _ => expecting Token.closeParen.shown

/-- The commands between backquotes, the first of which has been read. -/
def readBackquoted : Nat → Mode → Parse Part
  | 0, _ => fail "Word too long"
  | fuel + 1, mode => do
    let r ← get
    match backquoted (mode = .quotes) (r.rest.length + 1) r.rest with
    | none => fun r => .error ⟨r.line + r.rest.count '\n', "EOF in backquote substitution"⟩
    | some (text, rest) => do
      let lines := (r.rest.take (r.rest.length - rest.length)).count '\n'
      set { r with rest := text, pushed := false }
      let body ← readList fuel false true
      set { r with rest, line := r.line + lines }
      return .output body mode.isQuoted

/-- The next token, whatever the place. -/
def lexToken : Nat → Parse Token
  | 0 => fail "Word too long"
  | fuel + 1 => do
    skipBlanks fuel
    let pair := fun (c : Char) (two one : Token) => do
      drop 1
      if (← peek) == some c then
        drop 1
        return two
      else return one
    match ← peek with
    | none => return .endOfFile
    | some '\n' => do
      drop 1
      modify fun r => { r with line := r.line + 1 + r.ahead, ahead := 0 }
      return .newline
    | some '&' => pair '&' .andIf .ampersand
    | some '|' => pair '|' .orIf .pipe
    | some ';' => pair ';' .endCase .semicolon
    | some '(' => do
      drop 1
      return .openParen
    | some ')' => do
      drop 1
      return .closeParen
    | some _ =>
      match redirectAhead? (← get).rest with
      | some (stream, rest) => do
        modify fun r => { r with rest }
        readRedirect stream
      | none => return .word (joinParts (← readParts fuel .word))

/-- Tokens up to one that is no line end. -/
def lexPastLines : Nat → Parse Token
  | 0 => fail "Word too long"
  | fuel + 1 => do
    match ← lexToken fuel with
    | .newline => lexPastLines fuel
    | t => return t

/-- The next token: perhaps past line ends, and with keywords told from words. -/
def readToken : Nat → Bool → Bool → Parse Token
  | 0, _, _ => fail "Word too long"
  | fuel + 1, pastLines, keywords => do
    let r ← get
    let first ← if r.pushed then do
        set { r with pushed := false }
        pure r.last
      else lexToken fuel
    let t ← match first, pastLines with
      | .newline, true => lexPastLines fuel
      | t, _ => pure t
    let t := match t, keywords with
      | .word parts, true =>
        match (plainText? parts).bind Keyword.ofText? with
        | some k => .keyword k
        | none => t
      | t, _ => t
    modify fun r => { r with last := t }
    return t

/-- A list of commands: up to the end of the line, or up to a token that ends lists, with which
it may start if it may be empty. -/
def readList : Nat → Bool → Bool → Parse Tree
  | 0, _, _ => fail "Word too long"
  | fuel + 1, oneLine, mayBeEmpty => do
    match ← readToken fuel (!oneLine) true with
    | .newline => return .nothing
    | .endOfFile => do
      pushBack
      return .nothing
    | t => do
      pushBack
      if mayBeEmpty && !oneLine && t.endsList then return .nothing
      let first ← readAndOr fuel
      match ← readToken fuel false false with
      | .endOfFile => do
        pushBack
        return first
      | .newline => do
        pushBack
        return .sequence first (← readList fuel oneLine true)
      | .semicolon => return .sequence first (← readList fuel oneLine true)
      | .ampersand => return .sequence (.background first) (← readList fuel oneLine true)
      | _ => do
        if oneLine then unexpected
        pushBack
        return first

/-- Pipelines joined by conditions. -/
def readAndOr : Nat → Parse Tree
  | 0 => fail "Word too long"
  | fuel + 1 => do
    let first ← readPipeline fuel
    readConditions fuel first

/-- What conditions add to a pipeline. -/
def readConditions : Nat → Tree → Parse Tree
  | 0, _ => fail "Word too long"
  | fuel + 1, first => do
    match ← readToken fuel false false with
    | .andIf => do
      let _ ← readToken fuel true true
      pushBack
      readConditions fuel (.both first (← readPipeline fuel))
    | .orIf => do
      let _ ← readToken fuel true true
      pushBack
      readConditions fuel (.either first (← readPipeline fuel))
    | _ => do
      pushBack
      return first

def readPipeline : Nat → Parse Tree
  | 0 => fail "Word too long"
  | fuel + 1 => do
    let isNegated := (← readToken fuel false false).isKeyword .bang
    if isNegated then
      let _ ← readToken fuel false true
    pushBack
    let first ← readCommand fuel
    let more ← readPipes fuel
    let t := if more.isEmpty then first else .pipeline (first :: more)
    return if isNegated then .negated t else t

def readPipes : Nat → Parse (List Tree)
  | 0 => fail "Word too long"
  | fuel + 1 => do
    match ← readToken fuel false false with
    | .pipe => do
      let _ ← readToken fuel true true
      pushBack
      let t ← readCommand fuel
      return t :: (← readPipes fuel)
    | _ => do
      pushBack
      return []

/-- A keyword that has to come now. -/
def expectKeyword : Nat → Keyword → Parse Unit
  | 0, _ => fail "Word too long"
  | fuel + 1, k => do
    if !(← readToken fuel false false).isKeyword k then expecting (Token.keyword k).shown

/-- One command, whose first token has been read and pushed back. -/
def readCommand : Nat → Parse Tree
  | 0 => fail "Word too long"
  | fuel + 1 => do
    let line := (← get).line
    match ← readToken fuel false false with
    | .keyword .ifTest => do
      let t ← readBranch fuel
      expectKeyword fuel .fi
      readTail fuel line t
    | .keyword .whileTest => readLoop fuel line false
    | .keyword .untilTest => readLoop fuel line true
    | .keyword .forEach => readEach fuel line
    | .keyword .caseOf => readChoice fuel line
    | .openParen => do
      let t ← readList fuel false false
      match ← readToken fuel false false with
      | .closeParen => return .subshell line t (← readRedirects fuel)
      | _ => expecting Token.closeParen.shown
    | .keyword .openBrace => do
      let t ← readList fuel false false
      expectKeyword fuel .closeBrace
      readTail fuel line t
    | .word _ | .redirect .. => do
      pushBack
      let line := (← get).line
      readSimple fuel line [] [] []
    | _ => unexpected

/-- Redirections of a whole command. -/
def readTail : Nat → Nat → Tree → Parse Tree
  | 0, _, _ => fail "Word too long"
  | fuel + 1, line, t => do
    let redirects ← readRedirects fuel
    return if redirects.isEmpty then t else .redirected line t redirects

def readRedirects : Nat → Parse (List Redirect)
  | 0 => fail "Word too long"
  | fuel + 1 => do
    match ← readToken fuel false true with
    | .redirect stream operator => do
      let r ← readTarget fuel stream operator
      return r :: (← readRedirects fuel)
    | _ => do
      pushBack
      return []

def readTarget : Nat → Nat → RedirectOperator → Parse Redirect
  | 0, _, _ => fail "Word too long"
  | fuel + 1, stream, operator => do
    match ← readToken fuel false false with
    | .word parts =>
      match operator with
      | .file kind => return .file stream kind parts
      | .here stripTabs => do
        let text ← takeHere (unquotedText parts).toList stripTabs
        if hasQuotes parts then return .here stream [.quoted (String.ofList text)]
        else do
          let outer ← get
          set { outer with rest := text, pushed := false }
          let body ← readParts fuel .lines
          set outer
          return .here stream (joinParts body)
    | _ => unexpected

/-- A test, its consequence, and what else there is. -/
def readBranch : Nat → Parse Tree
  | 0 => fail "Word too long"
  | fuel + 1 => do
    let test ← readList fuel false false
    expectKeyword fuel .thenBody
    let body ← readList fuel false false
    match ← readToken fuel false false with
    | .keyword .elseIf => return .branch test body (← readBranch fuel)
    | .keyword .otherwise => return .branch test body (← readList fuel false false)
    | _ => do
      pushBack
      return .branch test body .nothing

def readLoop : Nat → Nat → Bool → Parse Tree
  | 0, _, _ => fail "Word too long"
  | fuel + 1, line, whileFalse => do
    let test ← readList fuel false false
    expectKeyword fuel .doBody
    let body ← readList fuel false false
    expectKeyword fuel .done
    readTail fuel line (.loop whileFalse test body)

/-- Words up to another token, which stays the last one. -/
def readWords : Nat → Parse (List (List Part))
  | 0 => fail "Word too long"
  | fuel + 1 => do
    match ← readToken fuel false false with
    | .word parts => return parts :: (← readWords fuel)
    | _ => return []

def readEach : Nat → Nat → Parse Tree
  | 0, _ => fail "Word too long"
  | fuel + 1, line => do
    let name ← match ← readToken fuel false false with
      | .word parts =>
        match (plainText? parts).filter isName with
        | some name => pure name
        | none => fail "Bad for loop variable"
      | _ => fail "Bad for loop variable"
    let words ← match ← readToken fuel true true with
      | .keyword .inWords => do
        let words ← readWords fuel
        match (← get).last with
        | .newline | .semicolon => pure words
        | _ => unexpected
      | .semicolon => pure [[Part.parameter "@" .value true]]
      | _ => do
        pushBack
        pure [[Part.parameter "@" .value true]]
    if !(← readToken fuel true true).isKeyword .doBody then
      expecting (Token.keyword .doBody).shown
    let body ← readList fuel false false
    expectKeyword fuel .done
    readTail fuel line (.each line name words body)

def readChoice : Nat → Nat → Parse Tree
  | 0, _ => fail "Word too long"
  | fuel + 1, line => do
    match ← readToken fuel false false with
    | .word parts => do
      if !(← readToken fuel true true).isKeyword .inWords then
        expecting (Token.keyword .inWords).shown
      let cases ← readCases fuel
      readTail fuel line (.choice line parts cases)
    | _ => expecting "word"

def readCases : Nat → Parse (List (List (List Part) × Tree))
  | 0 => fail "Word too long"
  | fuel + 1 => do
    let first ← readToken fuel true true
    if first.isKeyword .esac then return []
    let first ← match first with
      | .openParen => readToken fuel false false
      | t => pure t
    let patterns ← readPatterns fuel first
    match (← get).last with
    | .closeParen => pure ()
    | _ => expecting Token.closeParen.shown
    let body ← readList fuel false true
    match ← readToken fuel true true with
    | .keyword .esac => return [(patterns, body)]
    | .endCase => return (patterns, body) :: (← readCases fuel)
    | _ => expecting Token.endCase.shown

/-- Patterns between bars, the first token of which has been read. -/
def readPatterns : Nat → Token → Parse (List (List Part))
  | 0, _ => fail "Word too long"
  | fuel + 1, first => do
    let pattern := match first with
      | .word parts => parts
      | .keyword k => [.bare k.text]
      | _ => []
    match ← readToken fuel false false with
    | .pipe => do
      let next ← readToken fuel false false
      return pattern :: (← readPatterns fuel next)
    | _ => return [pattern]

/-- A simple command, after what has been read of it, or the definition of a function. -/
def readSimple : Nat → Nat → List (String × List Part) → List (List Part) → List Redirect →
    Parse Tree
  | 0, _, _, _, _ => fail "Word too long"
  | fuel + 1, line, assignments, words, redirects => do
    match ← readToken fuel false false with
    | .word parts =>
      match if words.isEmpty then assignment? parts else none with
      | some a => readSimple fuel line (assignments ++ [a]) words redirects
      | none => readSimple fuel line assignments (words ++ [parts]) redirects
    | .redirect stream operator => do
      let r ← readTarget fuel stream operator
      readSimple fuel line assignments words (redirects ++ [r])
    | .openParen =>
      match words, assignments, redirects with
      | [name], [], [] => do
        match ← readToken fuel false false with
        | .closeParen =>
          match (plainText? name).filter fun s => isName s && !specialBuiltins.contains s with
          | some name => do
            let _ ← readToken fuel true true
            pushBack
            return .define name (← readCommand fuel)
          | none => fail "Bad function name"
        | _ => expecting Token.closeParen.shown
      | _, _, _ => do
        pushBack
        return .simple line assignments words redirects
    | _ => do
      pushBack
      return .simple line assignments words redirects

end

/-! ## Scripts -/

inductive Next where
  | finished
  | command (t : Tree)

def next (r : Reader) : Except Trouble (Next × Reader) := do
  let (t, r) ← (readList r.fuel true false).run { r with pushed := false, last := .newline }
  match r.last, t with
  | .endOfFile, .nothing => return (.finished, r)
  | _, _ => return (.command t, r)

end Reader

end Shell

end Foundry
