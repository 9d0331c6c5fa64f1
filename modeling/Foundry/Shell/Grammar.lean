/-!
# Commands of the shell

The tree of a command, as it is read. Words are kept in parts, since what becomes of a
word depends on the moment at which it is expanded and on how its parts were quoted.
-/

namespace Foundry

namespace Shell

/-- What a word after a parameter is for. -/
inductive Fallback where
  | substitute
  | assign
  | fail
  | alternative
deriving DecidableEq, Repr, Inhabited

inductive RedirectKind where
  | input
  | output
  /-- Output to a file even if it must not be overwritten otherwise. -/
  | forced
  | appending
  | both
  /-- Make the stream the same as another one, or close it. -/
  | duplicate
deriving DecidableEq, Repr, Inhabited

mutual

inductive Part where
  | bare (text : String)
  | quoted (text : String)
  | parameter (name : String) (use : Use) (isQuoted : Bool)
  /-- What a command prints. -/
  | output (body : Tree) (isQuoted : Bool)
  | number (parts : List Part) (isQuoted : Bool)

/-- What is taken of a parameter. -/
inductive Use where
  | value
  | length
  | fallback (kind : Fallback) (whenEmpty : Bool) (word : List Part)
  | strip (fromEnd longest : Bool) (pattern : List Part)
  /-- Nothing that makes sense. -/
  | bad

inductive Redirect where
  | file (stream : Nat) (kind : RedirectKind) (target : List Part)
  | here (stream : Nat) (body : List Part)

/-- A command. Those that can fail by themselves know their line. -/
inductive Tree where
  | nothing
  | simple (line : Nat) (assignments : List (String × List Part)) (words : List (List Part))
      (redirects : List Redirect)
  | pipeline (parts : List Tree)
  | negated (t : Tree)
  | both (first second : Tree)
  | either (first second : Tree)
  | sequence (first second : Tree)
  | background (t : Tree)
  | redirected (line : Nat) (t : Tree) (redirects : List Redirect)
  | subshell (line : Nat) (t : Tree) (redirects : List Redirect)
  | branch (test body otherwise : Tree)
  | loop (whileFalse : Bool) (test body : Tree)
  | each (line : Nat) (name : String) (words : List (List Part)) (body : Tree)
  | choice (line : Nat) (word : List Part) (cases : List (List (List Part) × Tree))
  | define (name : String) (body : Tree)

end

instance : Inhabited Part := ⟨.bare ""⟩

instance : Inhabited Tree := ⟨.nothing⟩

def Tree.isNothing : Tree → Bool
  | .nothing => true
  | _ => false

/-! ## Tokens -/

inductive Keyword where
  | bang
  | caseOf
  | doBody
  | done
  | elseIf
  | otherwise
  | esac
  | fi
  | forEach
  | ifTest
  | inWords
  | thenBody
  | untilTest
  | whileTest
  | openBrace
  | closeBrace
deriving DecidableEq, Repr, Inhabited

def Keyword.text : Keyword → String
  | .bang => "!"
  | .caseOf => "case"
  | .doBody => "do"
  | .done => "done"
  | .elseIf => "elif"
  | .otherwise => "else"
  | .esac => "esac"
  | .fi => "fi"
  | .forEach => "for"
  | .ifTest => "if"
  | .inWords => "in"
  | .thenBody => "then"
  | .untilTest => "until"
  | .whileTest => "while"
  | .openBrace => "\x7b"
  | .closeBrace => "\x7d"

def Keyword.all : List Keyword :=
  [.bang, .caseOf, .doBody, .done, .elseIf, .otherwise, .esac, .fi, .forEach, .ifTest, .inWords,
   .thenBody, .untilTest, .whileTest, .openBrace, .closeBrace]

def Keyword.ofText? (s : String) : Option Keyword := Keyword.all.find? fun k => k.text = s

inductive RedirectOperator where
  | file (kind : RedirectKind)
  | here (stripTabs : Bool)
deriving DecidableEq, Repr, Inhabited

inductive Token where
  | endOfFile
  | newline
  | semicolon
  | ampersand
  | andIf
  | orIf
  | pipe
  | openParen
  | closeParen
  | endCase
  | redirect (stream : Nat) (operator : RedirectOperator)
  | word (parts : List Part)
  | keyword (k : Keyword)
deriving Inhabited

namespace Token

def shown : Token → String
  | .endOfFile => "end of file"
  | .newline => "newline"
  | .semicolon => "\";\""
  | .ampersand => "\"&\""
  | .andIf => "\"&&\""
  | .orIf => "\"||\""
  | .pipe => "\"|\""
  | .openParen => "\"(\""
  | .closeParen => "\")\""
  | .endCase => "\";;\""
  | .redirect .. => "redirection"
  | .word _ => "word"
  | .keyword k => "\"" ++ k.text ++ "\""

def endsList : Token → Bool
  | .endOfFile | .closeParen | .endCase => true
  | .keyword k =>
    [Keyword.doBody, .done, .elseIf, .otherwise, .esac, .fi, .thenBody, .closeBrace].contains k
  | _ => false

def isKeyword (t : Token) (k : Keyword) : Bool :=
  match t with
  | .keyword k' => k = k'
  | _ => false

end Token

/-! ## Names -/

def isNameStart (c : Char) : Bool := c.isAlpha || c == '_'

def isNameChar (c : Char) : Bool := c.isAlphanum || c == '_'

def isName (s : String) : Bool :=
  match s.toList with
  | [] => false
  | c :: rest => isNameStart c && rest.all isNameChar

/-- Parameters whose name is one special character. -/
def isSpecial (c : Char) : Bool := "@*#?-$!0".toList.contains c

/-- Join neighbouring texts of one kind. -/
def joinParts : List Part → List Part
  | .bare a :: rest =>
    match joinParts rest with
    | .bare b :: rest => .bare (a ++ b) :: rest
    | rest => .bare a :: rest
  | .quoted a :: rest =>
    match joinParts rest with
    | .quoted b :: rest => .quoted (a ++ b) :: rest
    | rest => .quoted a :: rest
  | p :: rest => p :: joinParts rest
  | [] => []

/-- The text of a word that has no quotes and nothing to expand. -/
def plainText? : List Part → Option String
  | [.bare s] => some s
  | _ => none

end Shell

end Foundry
