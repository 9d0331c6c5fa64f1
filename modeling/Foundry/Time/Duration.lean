import Foundry.Number.Binary64

/-!
# Durations

A span of time is a count of nanoseconds. Reading seconds rounds the exact value
of the number to the nearest nanosecond, ties to even, and fails for what no span
can hold.
-/

namespace Foundry

/-- A span of time in whole nanoseconds. -/
structure Duration where
  nanos : Nat
deriving DecidableEq, Repr, Inhabited

namespace Duration

def perSecond : Nat := 1000000000

def zero : Duration := ⟨0⟩

def ofNatSeconds (n : Nat) : Duration := ⟨n * perSecond⟩

def ofMillis (n : Nat) : Duration := ⟨n * 1000000⟩

def seconds (d : Duration) : Nat := d.nanos / perSecond

def fraction (d : Duration) : Nat := d.nanos % perSecond

/-- Spans hold less than `2^64` seconds. -/
def limit : Nat := 0x10000000000000000 * perSecond

/-- The span of that many seconds, if there is one: the number must be finite, not negative
and in range. -/
def ofSeconds? (x : Binary64) : Option Duration :=
  match x.parts with
  | .finite negative m q =>
    if negative && m ≠ 0 then none
    else
      let f := Binary64.fraction m q
      let nanos := Binary64.divRound (f.1 * perSecond) f.2
      if nanos < limit then some ⟨nanos⟩ else none
  | _ => none

/-- The seconds of a span as a number: the two parts are converted and added, each rounded. -/
def toSeconds (d : Duration) : Binary64 :=
  Binary64.add (Binary64.ofNat d.seconds)
    (Binary64.div (Binary64.ofNat d.fraction) (Binary64.ofNat perSecond))

end Duration

end Foundry
