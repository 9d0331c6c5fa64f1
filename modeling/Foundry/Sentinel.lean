import Foundry.Text.Blank
import Foundry.Text.Search

/-!
# The payload of a run

A run prints a sentinel line before its payload. Only the last line that equals
the sentinel counts, so earlier output cannot forge a payload boundary that a
later one does not override.
-/

namespace Foundry

namespace Sentinel

/-- Whether a line, its trailing blanks removed, is the sentinel. -/
def isMark (sentinel line : List Char) : Bool := Text.trimEndChars line == sentinel

/-- The text after the last sentinel line, if there is one. -/
def afterLast (sentinel : List Char) : List (List Char) → Option (List Char)
  | [] => none
  | l :: ls =>
    match afterLast sentinel ls with
    | some rest => some rest
    | none => if isMark sentinel l then some ls.flatten else none

def payloadChars (stdout sentinel : List Char) : List Char :=
  Text.trimChars ((afterLast sentinel (Text.lines stdout)).getD stdout)

/-- What a run produced: the text after the last sentinel line, or all of its output when
there is no such line, trimmed. -/
def payload (stdout sentinel : String) : String :=
  String.ofList (payloadChars stdout.toList sentinel.toList)

end Sentinel

end Foundry
