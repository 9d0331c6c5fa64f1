import Foundry.Number.Binary64

/-!
# Decimal text of numbers

The shortest decimal that reads back as a number, rounding to a fixed count of
places, and reading a decimal. Digits are found in exact integer arithmetic:
the reals that round to a value form an interval, and for each digit count only
the two grid points around the value can lie in it.
-/

namespace Foundry

variable (mantissa : Nat) (exponent : Int)

namespace Decimal

/-- `digits · 10^exponent`, with no claim on trailing zeros. -/
structure Scaled where
  digits : Nat
  exponent : Int
deriving DecidableEq, Repr

/-- Compares `a · 10^e` with `b · 2^q`. -/
def compareScaled (a : Nat) (e : Int) (b : Nat) (q : Int) : Ordering :=
  compare (a * Nat.pow 10 e.toNat * Nat.pow 2 (-q).toNat)
    (b * Nat.pow 2 q.toNat * Nat.pow 10 (-e).toNat)

/-- The reals that round to a value, in quarters of its last place. -/
structure Interval where
  low : Nat
  value : Nat
  high : Nat
  exponent : Int
  closed : Bool

def Interval.ofParts : Interval where
  -- Below a power of two the numbers lie twice as close.
  low := if mantissa = Binary64.fractionSize ∧ -1074 < exponent then 4 * mantissa - 1
    else 4 * mantissa - 2
  value := 4 * mantissa
  high := 4 * mantissa + 2
  exponent := exponent - 2
  closed := mantissa % 2 = 0

variable (i : Interval)

def Interval.contains (digits : Nat) (e : Int) : Bool :=
  let below := compareScaled digits e i.low i.exponent
  let above := compareScaled digits e i.high i.exponent
  (below == .gt || (i.closed && below == .eq)) && (above == .lt || (i.closed && above == .eq))

/-- The value counted in units of `10^e`, rounded down. -/
def Interval.floor (e : Int) : Nat :=
  (i.value * Nat.pow 2 i.exponent.toNat * Nat.pow 10 (-e).toNat) /
    (Nat.pow 10 e.toNat * Nat.pow 2 (-i.exponent).toNat)

/-- Of two grid points around the value, the nearer one; a tie goes to the even digit. -/
def Interval.nearer (a : Nat) (e : Int) : Nat :=
  match compareScaled (2 * a + 1) e (2 * i.value) i.exponent with
  | .lt => a + 1
  | .gt => a
  | .eq => a + a % 2

/-- The point of the grid `10^e` that stands for the value, if one rounds to it. -/
def Interval.onGrid (e : Int) : Option Scaled :=
  let a := i.floor e
  match i.contains a e, i.contains (a + 1) e with
  | true, true => some ⟨i.nearer a e, e⟩
  | true, false => some ⟨a, e⟩
  | false, true => some ⟨a + 1, e⟩
  | false, false => none

/-- The least `k` from `start` on with `value < 10^k`. -/
def Interval.top (i : Interval) (start : Int) : Nat → Int
  | 0 => start
  | fuel + 1 =>
    if compareScaled 1 start i.value i.exponent == .gt then start else i.top (start + 1) fuel

/-- The value itself, which has more digits than are needed. -/
def Interval.exact : Scaled :=
  ⟨i.value * Nat.pow 2 i.exponent.toNat * Nat.pow 5 (-i.exponent).toNat, min i.exponent 0⟩

/-- Try ever finer grids below `10^top`. -/
def Interval.search (i : Interval) (top : Int) (count : Nat) : Nat → Scaled
  | 0 => i.exact
  | fuel + 1 =>
    match i.onGrid (top - count) with
    | some s => s
    | none => i.search top (count + 1) fuel

/-- The decimal with the fewest digits that reads back as `mantissa · 2^exponent`. -/
def shortest : Scaled :=
  let i := Interval.ofParts mantissa exponent
  let log := Int.ofNat (Nat.log2 mantissa) + exponent
  i.search (i.top (log * 30103 / 100000 - 1) 5) 1 17

/-- A natural number with its trailing decimal zeros counted off. -/
def stripZeros (n : Nat) (e : Int) : Nat → Scaled
  | 0 => ⟨n, e⟩
  | fuel + 1 => if n ≠ 0 ∧ n % 10 = 0 then stripZeros (n / 10) (e + 1) fuel else ⟨n, e⟩

/-- Shortest digits of a positive value. A whole number of at most 53 bits is its own
shortest decimal, so it needs no search. -/
def significant : Scaled :=
  let f := Binary64.fraction mantissa exponent
  if f.1 % f.2 = 0 ∧ f.1 / f.2 < 0x20000000000000 then stripZeros (f.1 / f.2) 0 16
  else
    let s := shortest mantissa exponent
    stripZeros s.digits s.exponent 17

def digitText (n : Nat) : List Char := Nat.toDigits 10 n

/-- Digits with the decimal point put `point` places after the first digit. -/
def positional (digits : List Char) (point : Int) : List Char :=
  if point ≤ 0 then '0' :: '.' :: (List.replicate (-point).toNat '0' ++ digits)
  else if digits.length ≤ point.toNat then
    digits ++ List.replicate (point.toNat - digits.length) '0'
  else digits.take point.toNat ++ '.' :: digits.drop point.toNat

/-- How a format writes the numbers that have no digits, and where it leaves
positional notation. -/
structure Layout where
  nan : String
  infinity : String
  /-- A whole number written positionally keeps one zero after the point. -/
  keepsPoint : Bool
  /-- Positions of the point, counted from the first digit, that are written out. -/
  positionalFrom : Option Int
  positionalTo : Option Int

/-- Messages write every number positionally and drop an empty fraction. -/
def plain : Layout := ⟨"NaN", "inf", false, none, none⟩

/-- Data files write every number positionally and keep one decimal. -/
def dotted : Layout := ⟨"nan", "inf", true, none, none⟩

/-- The JSON form: positional from `1e-5` up to below `1e16`. -/
def json : Layout := ⟨"null", "null", true, some (-4), some 16⟩

variable (l : Layout)

def Layout.inRange (point : Int) : Bool :=
  (match l.positionalFrom with | some low => low ≤ point | none => true) &&
  (match l.positionalTo with | some high => point ≤ high | none => true)

/-- Scientific notation; the exponent of a large number carries a plus sign. -/
def scientific (digits : List Char) (point : Int) : List Char :=
  let mantissa := match digits with
    | d :: e :: rest => d :: '.' :: e :: rest
    | ds => ds
  let exponent := point - 1
  mantissa ++ 'e' :: (if exponent < 0 then '-' else '+') :: digitText exponent.natAbs

def unsignedText (mantissa : Nat) (exponent : Int) : List Char :=
  if mantissa = 0 then if l.keepsPoint then ['0', '.', '0'] else ['0']
  else
    let s := significant mantissa exponent
    let digits := digitText s.digits
    let point := Int.ofNat digits.length + s.exponent
    if l.inRange point then
      let text := positional digits point
      if l.keepsPoint && !text.contains '.' then text ++ ['.', '0'] else text
    else scientific digits point

def text (x : Binary64) : String :=
  match x.parts with
  | .nan => l.nan
  | .infinity negative => if negative then "-" ++ l.infinity else l.infinity
  | .finite negative m q =>
    String.ofList ((if negative then ['-'] else []) ++ unsignedText l m q)

/-- Exactly `places` decimals of the exact value, ties to even. -/
def fixed (places : Nat) (x : Binary64) : String :=
  match x.parts with
  | .nan => plain.nan
  | .infinity negative => if negative then "-" ++ plain.infinity else plain.infinity
  | .finite negative m q =>
    let f := Binary64.fraction m q
    let n := Binary64.divRound (f.1 * Nat.pow 10 places) f.2
    let digits := digitText n
    let padded := List.replicate (places + 1 - digits.length) '0' ++ digits
    let whole := padded.take (padded.length - places)
    let sign := if negative then ['-'] else []
    if places = 0 then String.ofList (sign ++ whole)
    else String.ofList (sign ++ whole ++ '.' :: padded.drop (padded.length - places))

/-- The number nearest to `± digits · 10^exponent`. Exponents far outside the range are
decided by the digit count alone. -/
def read (negative : Bool) (digits : Nat) (exponent : Int) : Binary64 :=
  if digits = 0 then Binary64.zero negative
  else
    let size := Int.ofNat (digitText digits).length + exponent
    if 400 < size then Binary64.infinity negative
    else if size < -400 then Binary64.zero negative
    else Binary64.ofRatio negative (digits * Nat.pow 10 exponent.toNat)
      (Nat.pow 10 (-exponent).toNat)

end Decimal

end Foundry
