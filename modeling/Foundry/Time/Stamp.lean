import Foundry.Text.Blank
import Foundry.Time.Duration

/-!
# Points in time

A stamp is a point in universal time, with the nanoseconds of its second. A leap
second is the second before it with more than a whole second of nanoseconds, so
stamps sort as they are read. Stamps are written in the form of RFC 3339 and read
from a laxer one.
-/

namespace Foundry

structure Stamp where
  /-- Seconds since the start of 1970. -/
  seconds : Int
  nanos : Nat := 0
deriving DecidableEq, Repr, Inhabited

namespace Stamp

def lt (a b : Stamp) : Bool :=
  a.seconds < b.seconds || (a.seconds == b.seconds && a.nanos < b.nanos)

def perDay : Nat := 86400

/-- Nanoseconds from `b` to `a`. -/
def since (a b : Stamp) : Int :=
  (a.seconds - b.seconds) * Duration.perSecond + a.nanos - b.nanos

def after (a : Stamp) (nanos : Int) : Stamp :=
  let total := a.seconds * Duration.perSecond + a.nanos + nanos
  ⟨total.fdiv Duration.perSecond, (total.fmod Duration.perSecond).toNat⟩

/-! ## The calendar -/

def isLeapYear (year : Int) : Bool :=
  year % 4 == 0 && (year % 100 != 0 || year % 400 == 0)

def daysInMonth (year : Int) (month : Nat) : Nat :=
  if month = 2 then if isLeapYear year then 29 else 28
  else if month = 4 ∨ month = 6 ∨ month = 9 ∨ month = 11 then 30 else 31

/-- Days from the start of 1970 to a date. Years are counted from March, so that the leap day
is the last one of a year. -/
def dayNumber (year : Int) (month day : Nat) : Int :=
  let y := if month ≤ 2 then year - 1 else year
  let era := y.fdiv 400
  let yearOfEra := y - era * 400
  let dayOfYear : Int := (153 * ((month : Int) + (if 2 < month then -3 else 9)) + 2).fdiv 5 + day -
    1
  let dayOfEra := yearOfEra * 365 + yearOfEra.fdiv 4 - yearOfEra.fdiv 100 + dayOfYear
  era * 146097 + dayOfEra - 719468

def dateOf (number : Int) : Int × Nat × Nat :=
  let z := number + 719468
  let era := z.fdiv 146097
  let dayOfEra := z - era * 146097
  let yearOfEra :=
    (dayOfEra - dayOfEra.fdiv 1460 + dayOfEra.fdiv 36524 - dayOfEra.fdiv 146096).fdiv 365
  let dayOfYear := dayOfEra - (365 * yearOfEra + yearOfEra.fdiv 4 - yearOfEra.fdiv 100)
  let mp := (5 * dayOfYear + 2).fdiv 153
  let day := dayOfYear - (153 * mp + 2).fdiv 5 + 1
  let month := if mp < 10 then mp + 3 else mp - 9
  let year := yearOfEra + era * 400 + (if month ≤ 2 then 1 else 0)
  (year, month.toNat, day.toNat)

/-! ## Writing -/

def padded (width n : Nat) : List Char :=
  let digits := Nat.toDigits 10 n
  List.replicate (width - digits.length) '0' ++ digits

/-- Years that need a sign get one. -/
def yearText (year : Int) : List Char :=
  if 0 ≤ year ∧ year ≤ 9999 then padded 4 year.toNat
  else (if year < 0 then '-' else '+') :: padded 4 year.natAbs

/-- The fraction of a second in three, six or nine digits, as few as are exact. -/
def fractionText (nanos : Nat) : List Char :=
  if nanos = 0 then []
  else if nanos % 1000000 = 0 then '.' :: padded 3 (nanos / 1000000)
  else if nanos % 1000 = 0 then '.' :: padded 6 (nanos / 1000)
  else '.' :: padded 9 nanos

/-- Date and time, with a `T` between and no zone. -/
def localText (s : Stamp) : List Char :=
  let (year, month, day) := dateOf (s.seconds.fdiv perDay)
  let second := (s.seconds.fmod perDay).toNat
  let extra := s.nanos / Duration.perSecond
  yearText year ++ '-' :: padded 2 month ++ '-' :: padded 2 day ++
    'T' :: padded 2 (second / 3600) ++ ':' :: padded 2 (second / 60 % 60) ++
    ':' :: padded 2 (second % 60 + extra) ++ fractionText (s.nanos % Duration.perSecond)

/-- The form for data: universal time is marked by a `Z`. -/
def text (s : Stamp) : String := String.ofList (s.localText ++ ['Z'])

/-- The form that spells out the offset. -/
def offsetText (s : Stamp) : String := String.ofList (s.localText ++ "+00:00".toList)

/-! ## Reading -/

inductive ReadError where
  | tooShort
  | invalid
  | outOfRange
  | tooLong
deriving DecidableEq, Repr, Inhabited

def ReadError.message : ReadError → String
  | .tooShort => "premature end of input"
  | .invalid => "input contains invalid characters"
  | .outOfRange => "input is out of range"
  | .tooLong => "trailing input"

def digitsValue (digits : List Char) : Nat :=
  digits.foldl (fun n c => 10 * n + (c.toNat - 48)) 0

/-- One up to `max` digits. -/
def readDigits (max : Nat) (cs : List Char) : Except ReadError (List Char × List Char) :=
  match cs with
  | [] => .error .tooShort
  | _ =>
    let digits := (cs.take max).takeWhile Char.isDigit
    if digits.isEmpty then .error .invalid else .ok (digits, cs.drop digits.length)

/-- A number within bounds, after blanks. -/
def readNumber (low high : Nat) (cs : List Char) : Except ReadError (Nat × List Char) := do
  let (digits, rest) ← readDigits 2 (Text.trimStartChars cs)
  let n := digitsValue digits
  if low ≤ n ∧ n ≤ high then .ok (n, rest) else .error .outOfRange

/-- A signed year may have any number of digits, an unsigned one has at most four. -/
def readYear (cs : List Char) : Except ReadError (Int × List Char) := do
  let cs := Text.trimStartChars cs
  let (year, rest) ← match cs with
    | '-' :: rest => (readDigits rest.length rest).map fun r => (-(digitsValue r.1 : Int), r.2)
    | '+' :: rest => (readDigits rest.length rest).map fun r => ((digitsValue r.1 : Int), r.2)
    | cs => (readDigits 4 cs).map fun r => ((digitsValue r.1 : Int), r.2)
  if -0x80000000 ≤ year ∧ year < 0x80000000 then .ok (year, rest) else .error .outOfRange

/-- The text after an expected character, before which blanks may stand. -/
def expect (c : Char) (cs : List Char) : Except ReadError (List Char) :=
  match Text.trimStartChars cs with
  | [] => .error .tooShort
  | d :: rest => if d = c then .ok rest else .error .invalid

/-- A fraction of a second after a point; digits beyond the ninth say nothing. -/
def readFraction : List Char → Except ReadError (Nat × List Char)
  | '.' :: rest => do
    let (digits, rest) ← readDigits 9 rest
    .ok (digitsValue digits * Nat.pow 10 (9 - digits.length), rest.dropWhile Char.isDigit)
  | cs => .ok (0, cs)

/-- Two digits with no blanks before them. -/
def readPair (cs : List Char) : Except ReadError (Char × Char × List Char) :=
  match cs with
  | a :: b :: rest => if a.isDigit && b.isDigit then .ok (a, b, rest) else .error .invalid
  | [a] => if 2 ≤ a.utf8Size then .error .invalid else .error .tooShort
  | [] => .error .tooShort

def readOffset (cs : List Char) : Except ReadError (Int × List Char) := do
  match cs with
  | [] => .error .tooShort
  | sign :: rest =>
    if sign = 'Z' ∨ sign = 'z' then .ok (0, rest)
    else
      let negative := sign = '-' ∨ sign = '−'
      if sign ≠ '+' ∧ ¬ negative then .error .invalid
      else
        let (a, b, rest) ← readPair rest
        let (c, d, rest) ← readPair (rest.dropWhile fun c => c == ':' || Text.isBlank c)
        if '6' ≤ c then .error .outOfRange
        else
          let seconds : Int := digitsValue [a, b] * 3600 + digitsValue [c, d] * 60
          .ok (if negative then -seconds else seconds, rest)

/-- Universal time may also be named. -/
def readZone (cs : List Char) : Except ReadError (Int × List Char) :=
  let cs := Text.trimStartChars cs
  if (cs.take 3).map Char.toUpper = ['U', 'T', 'C'] then .ok (0, cs.drop 3) else readOffset cs

/-- What separates the date from the time. -/
def readSeparator : List Char → Except ReadError (List Char)
  | [] => .error .tooShort
  | c :: rest => if c = 'T' ∨ c = 't' ∨ Text.isBlank c then .ok rest else .error .invalid

/-- The years that stamps reach. -/
def minYear : Int := -262143

def maxYear : Int := 262142

def parse (text : String) : Except ReadError Stamp := do
  let (year, rest) ← readYear text.toList
  let (month, rest) ← readNumber 1 12 (← expect '-' rest)
  let (day, rest) ← readNumber 1 31 (← expect '-' rest)
  let (hour, rest) ← readNumber 0 23 (← readSeparator rest)
  let (minute, rest) ← readNumber 0 59 (← expect ':' rest)
  let (second, rest) ← readNumber 0 60 (← expect ':' rest)
  let (fraction, rest) ← readFraction rest
  let (offset, rest) ← readZone rest
  if !(Text.trimStartChars rest).isEmpty then .error .tooLong
  else if year < minYear ∨ maxYear < year ∨ daysInMonth year month < day then .error .outOfRange
  else if offset ≤ -(perDay : Int) ∨ (perDay : Int) ≤ offset then .error .outOfRange
  else
    let leap : Nat := if second = 60 then 1 else 0
    .ok ⟨dayNumber year month day * perDay + hour * 3600 + minute * 60 +
      ((second - leap : Nat) : Int) - offset, leap * Duration.perSecond + fraction⟩

/-- Before every stamp that can be read. -/
def earliest : Stamp := ⟨dayNumber minYear 1 1 * perDay, 0⟩

end Stamp

end Foundry
