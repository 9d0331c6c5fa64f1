/-!
# Colours on a terminal

How prompts are painted. A style writes its colour before its attribute and ends with
one reset.
-/

namespace Foundry

inductive Hue where
  | red
  | green
  | yellow
deriving DecidableEq, Repr, Inhabited

def Hue.code : Hue → Nat
  | .red => 31
  | .green => 32
  | .yellow => 33

structure Style where
  hue : Option Hue := none
  dim : Bool := false
deriving DecidableEq, Repr, Inhabited

namespace Style

def escape (code : Nat) : String := s!"\x1b[{code}m"

def dimCode : Nat := 2

def opening (s : Style) : String :=
  (match s.hue with | some hue => escape hue.code | none => "") ++
    if s.dim then escape dimCode else ""

/-- A text in a style. A style that says nothing writes nothing. -/
def paint (s : Style) (text : String) : String :=
  if s = {} then text else s.opening ++ text ++ escape 0

end Style

inductive PromptState where
  | active
  | cancel
  | submit
  | error (message : String)
deriving DecidableEq, Repr, Inhabited

namespace PromptState

def barStyle : PromptState → Style
  | .active => { hue := some .yellow }
  | .cancel => { dim := true }
  | .submit => { hue := some .yellow, dim := true }
  | .error _ => { hue := some .red }

def symbolStyle : PromptState → Style
  | .active => { hue := some .yellow }
  | .cancel => { dim := true }
  | .submit => { hue := some .green }
  | .error _ => { hue := some .red }

end PromptState

end Foundry
