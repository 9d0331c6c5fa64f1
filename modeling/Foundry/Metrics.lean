import Foundry.Config.Schema
import Foundry.Time.Duration

/-!
# Timing samples

The most recent durations of each operation, oldest first, and the figures they
reduce to. Nothing is kept beyond the capacity and nothing depends on it.
-/

namespace Foundry

structure Metrics where
  capacity : Nat
  /-- The retained samples of each operation, sorted by name. -/
  series : List (String × List Duration) := []
deriving DecidableEq, Repr, Inhabited

namespace Metrics

variable (name : String)

def defaultCapacity : Nat := 100

/-- An empty record that keeps at least one sample per operation. -/
def ofCapacity (capacity : Nat) : Metrics := { capacity := max capacity 1 }

variable (m : Metrics)

/-- The retained samples of an operation, oldest first. -/
def samples : List Duration :=
  ((m.series.find? fun s => s.1 == name).map (·.2)).getD []

/-- Add a sample to a series that is dropped from the front when it is full. -/
def push (capacity : Nat) (series : List Duration) (d : Duration) : List Duration :=
  (if series.length = capacity then series.drop 1 else series) ++ [d]

def record (d : Duration) : Metrics :=
  { m with series := insertSorted name (push m.capacity (m.samples name) d) m.series }

/-- The figures of one operation, in seconds. -/
structure Summary where
  count : Nat
  average : Binary64
  min : Binary64
  max : Binary64
  median : Binary64
deriving DecidableEq, Repr

def mean (total : Binary64) (count : Nat) : Binary64 := total.div (Binary64.ofNat count)

/-- The figures of a list of seconds in ascending order. -/
def Summary.ofSorted? (sorted : List Binary64) : Option Summary :=
  match sorted.head?, sorted.getLast? with
  | some least, some greatest =>
    let count := sorted.length
    let upper := (sorted[count / 2]?).getD least
    let lower := (sorted[count / 2 - 1]?).getD least
    some {
      count
      average := mean (sorted.foldl Binary64.add (Binary64.zero true)) count
      min := least
      max := greatest
      median := if count % 2 = 0 then mean (lower.add upper) 2 else upper }
  | _, _ => none

def ascending (seconds : List Binary64) : List Binary64 :=
  seconds.mergeSort fun x y => x.key ≤ y.key

def Summary.ofSamples? (samples : List Duration) : Option Summary :=
  Summary.ofSorted? (ascending (samples.map Duration.toSeconds))

def summary? : Option Summary := Summary.ofSamples? (m.samples name)

/-- Every operation seen so far with its figures, sorted by name. -/
def summaries : List (String × Summary) :=
  m.series.filterMap fun s => (Summary.ofSamples? s.2).map fun f => (s.1, f)

end Metrics

end Foundry
