/-!
# Sessions

Whether somebody sits at a terminal, and whether every question is answered in
advance.
-/

namespace Foundry

structure Session where
  interactive : Bool := false
  autoYes : Bool := false
deriving DecidableEq, Repr, Inhabited

namespace Session

def withAutoYes (s : Session) (yes : Bool) : Session := { s with autoYes := yes }

/-- Spinners and coloured steps are for people. -/
def isFancy (s : Session) : Bool := s.interactive

/-- The answer to a question. `reply` is what the person at the terminal would say; without a
terminal the default holds. -/
def confirm (s : Session) (reply default : Bool) : Bool :=
  s.autoYes || if s.interactive then reply else default

end Session

end Foundry
