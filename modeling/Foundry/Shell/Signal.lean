/-!
# Signals

The names and numbers of signals, and what is said of a process that one has ended.
-/

namespace Foundry

namespace Shell

namespace Signal

/-- Names without their common beginning, by number; zero stands for the exit of a shell. -/
def names : List (String × Nat) :=
  [("EXIT", 0), ("HUP", 1), ("INT", 2), ("QUIT", 3), ("ILL", 4), ("TRAP", 5), ("ABRT", 6),
    ("BUS", 7),
   ("FPE", 8), ("KILL", 9), ("USR1", 10), ("SEGV", 11), ("USR2", 12), ("PIPE", 13), ("ALRM", 14),
   ("TERM", 15), ("STKFLT", 16), ("CHLD", 17), ("CONT", 18), ("STOP", 19), ("TSTP", 20),
   ("TTIN", 21),
   ("TTOU", 22), ("URG", 23), ("XCPU", 24), ("XFSZ", 25), ("VTALRM", 26), ("PROF", 27),
   ("WINCH", 28),
   ("IO", 29), ("PWR", 30), ("SYS", 31)]

def hangup : Nat := 1

def terminate : Nat := 15

/-- The number that a name or a numeral stands for. -/
def number? (s : String) : Option Nat :=
  if !s.isEmpty && s.toList.all Char.isDigit then
    let n := s.toList.foldl (fun n c => 10 * n + (c.toNat - 48)) 0
    if n ≤ 64 then some n else none
  else
    let upper := s.toList.map Char.toUpper
    let bare := if "SIG".toList.isPrefixOf upper then upper.drop 3 else upper
    names.lookup (String.ofList bare)

def name (n : Nat) : String :=
  match names.find? fun e => e.2 = n with
  | some e => e.1
  | none => toString n

/-- What is said of a process that a signal has ended. Interrupts and broken pipes are passed
over. -/
def obituary? (n : Nat) : Option String :=
  [(1, "Hangup"), (3, "Quit"), (4, "Illegal instruction"), (5, "Trace/breakpoint trap"),
   (6, "Aborted"), (7, "Bus error"), (8, "Floating point exception"), (9, "Killed"),
   (10, "User defined signal 1"), (11, "Segmentation fault"), (12, "User defined signal 2"),
   (14, "Alarm clock"), (15, "Terminated"), (16, "Stack fault")].lookup n

end Signal

end Shell

end Foundry
