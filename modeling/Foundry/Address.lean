import Foundry.Text.Search

/-!
# Addresses to listen on

A host and a port. Only the machine's own addresses can be listened on.
-/

namespace Foundry

structure Address where
  host : String
  port : Nat
deriving DecidableEq, Repr, Inhabited

namespace Address

def maxPort : Nat := 65535

/-- The number that plain digits say. -/
def natOf? (s : String) : Option Nat :=
  if s.isEmpty || !s.toList.all Char.isDigit then none
  else some (s.toList.foldl (fun n c => 10 * n + (c.toNat - 48)) 0)

/-- What stands before and after the last colon. -/
def splitLast? (s : String) : Option (String × String) :=
  let after := (s.toList.reverse.takeWhile (· ≠ ':')).reverse
  if after.length = s.length then none
  else some (String.ofList (s.toList.take (s.length - after.length - 1)), String.ofList after)

/-- The port is what follows the last colon; a plus sign before it says nothing. -/
def parse? (s : String) : Option Address := do
  let (host, port) ← splitLast? s
  let digits := match port.toList with
    | '+' :: rest => String.ofList rest
    | _ => port
  let port ← natOf? digits
  if port ≤ maxPort then some ⟨host, port⟩ else none

/-- The four numbers of a dotted address. -/
def octets? (host : String) : Option (List Nat) := do
  let octets ← (host.splitOn ".").mapM natOf?
  if octets.length = 4 && octets.all (· ≤ 255) then some octets else none

/-- Whether a host means this machine: a loopback address, or every address that it has. -/
def isOwn (host : String) : Bool :=
  match octets? host with
  | some (first :: rest) => first = 127 || (first = 0 && rest.all (· = 0))
  | _ => host = "localhost" || host = "[::1]" || host = "[::]"

end Address

def canListen (address : String) : Bool :=
  match Address.parse? address with
  | some a => Address.isOwn a.host
  | none => false

end Foundry
