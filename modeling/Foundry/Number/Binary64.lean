/-!
# Double-precision numbers

A number is its 64 bits. Finite values are decoded to `± m · 2^q`, comparisons
are made on the ordered magnitude of the bits, and every arithmetic operation is
the exact rational result rounded once, to nearest with ties to even. Nothing
here uses machine floating point, so the operations can be reasoned about.
-/

namespace Foundry

/-- A double-precision number, given by its bits. -/
structure Binary64 where
  bits : UInt64
deriving DecidableEq, Repr, Inhabited

namespace Binary64

/-- What a number is: not a number, an infinity, or `± mantissa · 2^exponent`. -/
inductive Parts where
  | nan
  | infinity (negative : Bool)
  | finite (negative : Bool) (mantissa : Nat) (exponent : Int)
deriving DecidableEq, Repr

def signBit : Nat := 0x8000000000000000

def fractionSize : Nat := 0x10000000000000

variable (x : Binary64)

/-- The bits below the sign, which order the values of one sign. -/
def magnitude : Nat := x.bits.toNat % signBit

def isNegative : Bool := signBit ≤ x.bits.toNat

/-- The magnitude of the infinities; every greater magnitude is not a number. -/
def infinityMagnitude : Nat := 2047 * fractionSize

def isNaN : Bool := infinityMagnitude < x.magnitude

def isInfinite : Bool := x.magnitude == infinityMagnitude

def isFinite : Bool := x.magnitude < infinityMagnitude

def parts : Parts :=
  let field := x.magnitude / fractionSize
  let fraction := x.magnitude % fractionSize
  if field = 2047 then
    if fraction = 0 then .infinity x.isNegative else .nan
  else if field = 0 then .finite x.isNegative fraction (-1074)
  else .finite x.isNegative (fractionSize + fraction) (Int.ofNat field - 1075)

def ofMagnitude (negative : Bool) (magnitude : Nat) : Binary64 :=
  ⟨(if negative then signBit + magnitude else magnitude).toUInt64⟩

def zero (negative : Bool) : Binary64 := ofMagnitude negative 0

def infinity (negative : Bool) : Binary64 := ofMagnitude negative infinityMagnitude

def nan : Binary64 := ⟨0x7ff8000000000000⟩

def neg : Binary64 := ofMagnitude (!x.isNegative) x.magnitude

/-- The order key: the two zeros share the key `0`, and keys grow with values. -/
def key : Int :=
  if x.isNegative then -(Int.ofNat x.magnitude) else Int.ofNat x.magnitude

/-- Numeric order; false as soon as one side is not a number. -/
def lt (y : Binary64) : Bool := !x.isNaN && !y.isNaN && x.key < y.key

def le (y : Binary64) : Bool := !x.isNaN && !y.isNaN && x.key ≤ y.key

/-- The quotient rounded to the nearest natural number, ties to even. -/
def divRound (num den : Nat) : Nat :=
  let q := num / den
  let r := num % den
  if 2 * r < den then q
  else if den < 2 * r then q + 1
  else q + q % 2

/-- `num / den` in units of `2^exponent`, as a fraction of natural numbers. -/
def inUnits (num den : Nat) (exponent : Int) : Nat × Nat :=
  match exponent with
  | .ofNat e => (num, den * Nat.pow 2 e)
  | .negSucc e => (num * Nat.pow 2 (e + 1), den)

/-- The exponent of the last place of `num / den` when it is held with 53 bits. -/
def lastPlace (num den : Nat) : Int :=
  let guess : Int := Int.ofNat (Nat.log2 num) - Int.ofNat (Nat.log2 den) - 52
  let scaled := inUnits num den guess
  let exponent := if scaled.1 / scaled.2 < fractionSize then guess - 1 else guess
  max exponent (-1074)

/-- The nearest number to `± num / den`, ties to even; overflow is an infinity. -/
def ofRatio (negative : Bool) (num den : Nat) : Binary64 :=
  if num = 0 then zero negative
  else
    let exponent := lastPlace num den
    let scaled := inUnits num den exponent
    let mantissa := divRound scaled.1 scaled.2
    -- A mantissa that rounds up to 2^53 carries into the exponent field by itself.
    let magnitude := (exponent + 1074).toNat * fractionSize + mantissa
    if infinityMagnitude ≤ magnitude then infinity negative
    else ofMagnitude negative magnitude

def ofNat (n : Nat) : Binary64 := ofRatio false n 1

def ofInt (n : Int) : Binary64 := ofRatio (n < 0) n.natAbs 1

/-- A finite value as a signed fraction `± num / den`. -/
def fraction (mantissa : Nat) (exponent : Int) : Nat × Nat :=
  match exponent with
  | .ofNat e => (mantissa * Nat.pow 2 e, 1)
  | .negSucc e => (mantissa, Nat.pow 2 (e + 1))

def mul (y : Binary64) : Binary64 :=
  match x.parts, y.parts with
  | .finite s m q, .finite t n r =>
    let f := fraction (m * n) (q + r)
    ofRatio (s != t) f.1 f.2
  | .nan, _ | _, .nan => nan
  | .infinity s, .infinity t => infinity (s != t)
  | .infinity s, .finite t n _ => if n = 0 then nan else infinity (s != t)
  | .finite s m _, .infinity t => if m = 0 then nan else infinity (s != t)

def div (y : Binary64) : Binary64 :=
  match x.parts, y.parts with
  | .finite s m q, .finite t n r =>
    if n = 0 then if m = 0 then nan else infinity (s != t)
    else
      let f := fraction m (q - r)
      ofRatio (s != t) f.1 (f.2 * n)
  | .nan, _ | _, .nan => nan
  | .infinity _, .infinity _ => nan
  | .infinity s, .finite t _ _ => infinity (s != t)
  | .finite s _ _, .infinity t => zero (s != t)

def signed (negative : Bool) (n : Nat) : Int := if negative then -(Int.ofNat n) else Int.ofNat n

def add (y : Binary64) : Binary64 :=
  match x.parts, y.parts with
  | .finite s m q, .finite t n r =>
    let low := min q r
    let total := signed s (m * Nat.pow 2 (q - low).toNat) + signed t (n * Nat.pow 2 (r - low).toNat)
    if total = 0 then zero (s && t)
    else
      let f := fraction total.natAbs low
      ofRatio (total < 0) f.1 f.2
  | .nan, _ | _, .nan => nan
  | .infinity s, .infinity t => if s = t then infinity s else nan
  | .infinity s, .finite .. => infinity s
  | .finite .., .infinity t => infinity t

def hexDigits (n width : Nat) : String :=
  let digits := Nat.toDigits 16 n
  String.ofList (List.replicate (width - digits.length) '0' ++ digits)

/-- The 16 lower-case hexadecimal digits of the bits. -/
def toHex : String := hexDigits x.bits.toNat 16

end Binary64

end Foundry
