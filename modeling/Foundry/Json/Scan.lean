import Foundry.Cause
import Foundry.Json.Value
import Foundry.Text.Quoted

/-!
# Reading JSON tokens

Readers take the bytes that are left and give a result with the bytes after it.
A failure keeps how many bytes were left, from which its line and column are
found once the whole text is known.
-/

namespace Foundry

variable (b : UInt8) (ended : String) (positive : Bool)

namespace Json

abbrev Bytes := List UInt8

/-- Whether a failure points at the last byte taken or at the byte that comes next. -/
inductive Place where
  | here
  | peek
deriving DecidableEq, Repr

structure Fail where
  reason : String
  remaining : Nat
  place : Place
deriving DecidableEq, Repr

def failHere {α : Type} (reason : String) (rest : Bytes) : Except Fail α :=
  .error ⟨reason, rest.length, .here⟩

def failPeek {α : Type} (reason : String) (rest : Bytes) : Except Fail α :=
  .error ⟨reason, rest.length, .peek⟩

def endOfValue : String := "EOF while parsing a value"

def endOfString : String := "EOF while parsing a string"

def endOfObject : String := "EOF while parsing an object"

def endOfList : String := "EOF while parsing a list"

/-- The byte offset a failure points at in a text of `total` bytes. -/
def Fail.offset (f : Fail) (total : Nat) : Nat :=
  match f.place with
  | .here => total - f.remaining
  | .peek => min total (total - f.remaining + 1)

/-- Line and column of an offset: both count what stands before it. -/
def position (text : Bytes) (offset : Nat) : Nat × Nat :=
  (text.take offset).foldl (fun p b => if b = 10 then (p.1 + 1, 0) else (p.1, p.2 + 1)) (1, 0)

def Fail.message (f : Fail) (text : Bytes) : String :=
  let p := position text (f.offset text.length)
  s!"{f.reason} at line {p.1} column {p.2}"

def isSpace : Bool := b = 32 || b = 10 || b = 9 || b = 13

variable (rest : Bytes)

def skipSpace : Bytes := rest.dropWhile isSpace

def isDigit : Bool := 48 ≤ b && b ≤ 57

def digitValue : Nat := b.toNat - 48

/-- The remaining letters of a literal name. -/
def scanIdent : List UInt8 → Bytes → Except Fail Bytes
  | [], rest => .ok rest
  | _ :: _, [] => failHere endOfValue []
  | e :: es, b :: rest =>
    if b = e then scanIdent es rest else failHere "expected ident" rest

def nullTail : List UInt8 := [117, 108, 108]

def trueTail : List UInt8 := [114, 117, 101]

def falseTail : List UInt8 := [97, 108, 115, 101]

/-! ### Strings -/

def hexDigit? : Option Nat :=
  if 48 ≤ b ∧ b ≤ 57 then some (b.toNat - 48)
  else if 97 ≤ b ∧ b ≤ 102 then some (b.toNat - 87)
  else if 65 ≤ b ∧ b ≤ 70 then some (b.toNat - 55)
  else none

/-- Four hexadecimal digits; all four are taken before they are judged. -/
def scanHex : Bytes → Except Fail (Nat × Bytes)
  | a :: b :: c :: d :: rest =>
    match hexDigit? a, hexDigit? b, hexDigit? c, hexDigit? d with
    | some w, some x, some y, some z => .ok (((w * 16 + x) * 16 + y) * 16 + z, rest)
    | _, _, _, _ => failHere "invalid escape" rest
  | _ => failHere endOfString []

def encodeScalar (n : Nat) : Bytes := String.utf8EncodeChar (Char.ofNat n)

/-- The unit after a leading surrogate, which must be a trailing one. -/
def scanTrailing (lead : Nat) : Bytes → Except Fail (Bytes × Bytes)
  | [] => failHere endOfString []
  | [92] => failHere endOfString []
  | 92 :: 117 :: rest => do
    let (unit, rest) ← scanHex rest
    if unit < 0xDC00 || 0xDFFF < unit then failHere "lone leading surrogate in hex escape" rest
    else .ok (encodeScalar (((lead - 0xD800) * 1024 + (unit - 0xDC00)) + 0x10000), rest)
  | 92 :: _ :: rest => failHere "unexpected end of hex escape" rest
  | _ :: rest => failHere "unexpected end of hex escape" rest

def scanUnicode : Except Fail (Bytes × Bytes) := do
  let (unit, rest) ← scanHex rest
  if 0xDC00 ≤ unit && unit ≤ 0xDFFF then failHere "lone leading surrogate in hex escape" rest
  else if unit < 0xD800 || 0xDBFF < unit then .ok (encodeScalar unit, rest)
  else scanTrailing unit rest

/-- The character an escape letter stands for, apart from `u`. -/
def simpleEscape? : Option UInt8 :=
  if b = 34 then some 34
  else if b = 92 then some 92
  else if b = 47 then some 47
  else if b = 98 then some 8
  else if b = 102 then some 12
  else if b = 110 then some 10
  else if b = 114 then some 13
  else if b = 116 then some 9
  else none

/-- What follows a backslash, as the bytes it stands for. -/
def scanEscape : Bytes → Except Fail (Bytes × Bytes)
  | [] => failHere endOfString []
  | b :: rest =>
    if b = 117 then scanUnicode rest
    else match simpleEscape? b with
      | some c => .ok ([c], rest)
      | none => failHere "invalid escape" rest

theorem scanHex_length {rest rest' : Bytes} {n : Nat} (h : scanHex rest = .ok (n, rest')) :
    rest'.length + 4 = rest.length := by
  unfold scanHex at h
  split at h
  · split at h
    · simp only [Except.ok.injEq, Prod.mk.injEq] at h
      simp [← h.2]
    · simp [failHere] at h
  · simp [failHere] at h

theorem scanTrailing_length {lead : Nat} {rest rest' out : Bytes}
    (h : scanTrailing lead rest = .ok (out, rest')) : rest'.length < rest.length := by
  unfold scanTrailing at h
  split at h
  · simp [failHere] at h
  · simp [failHere] at h
  · obtain ⟨⟨unit, tail⟩, hx, hy⟩ := bind_eq_ok h
    have := scanHex_length hx
    simp only at hy
    split at hy
    · simp [failHere] at hy
    simp only [Except.ok.injEq, Prod.mk.injEq] at hy
    simp [← hy.2]
    omega
  · simp [failHere] at h
  · simp [failHere] at h

theorem scanUnicode_length {rest rest' out : Bytes}
    (h : scanUnicode rest = .ok (out, rest')) : rest'.length < rest.length := by
  unfold scanUnicode at h
  obtain ⟨⟨unit, tail⟩, hx, hy⟩ := bind_eq_ok h
  have hl := scanHex_length hx
  simp only at hy
  split at hy
  · simp [failHere] at hy
  split at hy
  · simp only [Except.ok.injEq, Prod.mk.injEq] at hy
    simp [← hy.2]
    omega
  · have := scanTrailing_length hy
    omega

theorem scanEscape_length {rest rest' out : Bytes}
    (h : scanEscape rest = .ok (out, rest')) : rest'.length < rest.length := by
  unfold scanEscape at h
  split at h
  · simp [failHere] at h
  split at h
  · have := scanUnicode_length h
    simp
    omega
  · split at h
    · simp only [Except.ok.injEq, Prod.mk.injEq] at h
      simp [← h.2]
    · simp [failHere] at h

/-- The content of a string up to its closing quote, escapes replaced. -/
def scanContent (content : Bytes) : Bytes → Except Fail (Bytes × Bytes)
  | [] => failHere endOfString []
  | b :: rest =>
    if b = 34 then .ok (content.reverse, rest)
    else if b = 92 then
      match _taken : scanEscape rest with
      | .ok (bytes, rest') => scanContent (bytes.reverse ++ content) rest'
      | .error e => .error e
    else if b < 32 then
      failHere "control character (\\u0000-\\u001F) found while parsing a string" rest
    else scanContent (b :: content) rest
termination_by rest => rest.length
decreasing_by
  · have := scanEscape_length _taken
    simp
    omega
  · simp

/-- How many bytes of a byte string form whole characters from the start on. -/
def textPrefix (bytes : ByteArray) (start : Nat) : Nat → Nat
  | 0 => start
  | fuel + 1 =>
    match bytes.utf8DecodeChar? start with
    | some c => textPrefix bytes (start + c.utf8Size) fuel
    | none => start

/-- A string after its opening quote. Content that is no text fails at its first bad byte. -/
def scanString : Except Fail (String × Bytes) := do
  let (content, rest) ← scanContent [] rest
  let bytes := content.toByteArray
  match String.fromUTF8? bytes with
  | some s => .ok (s, rest)
  | none =>
    let good := textPrefix bytes 0 bytes.size
    .error ⟨"invalid unicode code point", rest.length + (bytes.size - good), .here⟩

/-! ### Numbers -/

/-- A number as it was written: an integer that fits 64 bits, or a double. -/
inductive Numeral where
  | integer (value : Int)
  | float (value : Binary64)
deriving DecidableEq, Repr

def Numeral.toBinary64 : Numeral → Binary64
  | .integer n => Binary64.ofInt n
  | .float x => x

def Numeral.toJson : Numeral → Json
  | .integer n => .integer n
  | .float x => .float x

def maxSignificand : Nat := 0x10000000000000000 - 1

/-- Add digits to a significand until one would overflow it; counts the digits used. -/
def significand (start : Nat) : List Nat → Nat × Nat
  | [] => (start, 0)
  | d :: ds =>
    if maxSignificand < start * 10 + d then (start, 0)
    else
      let r := significand (start * 10 + d) ds
      (r.1, r.2 + 1)

def power (n : Nat) : Binary64 := Binary64.ofNat (Nat.pow 10 n)

/-- Divide by a power of ten in steps of `10^308`. -/
def divideDown (x : Binary64) (n : Nat) : Nat → Binary64
  | 0 => Binary64.zero false
  | fuel + 1 =>
    if n ≤ 308 then x.div (power n)
    else if x.magnitude = 0 then x
    else divideDown (x.div (power 308)) (n - 308) fuel

/-- The double for `significand · 10^exponent`: converted first and then scaled, so the two
roundings may differ from rounding once. No value for an overflow. -/
def scaled? (significand : Nat) (exponent : Int) : Option Binary64 :=
  let x := Binary64.ofNat significand
  if exponent < 0 then some (divideDown x exponent.natAbs 3)
  else if exponent ≤ 308 then
    let y := x.mul (power exponent.toNat)
    if y.isInfinite then none else some y
  else if significand = 0 then some x
  else none

def applySign (x : Binary64) : Binary64 := if positive then x else x.neg

def finish (significand : Nat) (exponent : Int) (rest : Bytes) : Except Fail Numeral :=
  match scaled? significand exponent with
  | some x => .ok (.float (applySign positive x))
  | none => failHere "number out of range" rest

def maxExponent : Nat := 0x80000000 - 1

/-- The value of digits behind others; where it is too large, the digits after the one that makes
it so. -/
def exponentValue (value : Nat) : Bytes → Nat ⊕ Bytes
  | [] => .inl value
  | b :: rest =>
    if maxExponent < value * 10 + digitValue b then .inr rest
    else exponentValue (value * 10 + digitValue b) rest

/-- Whether an exponent goes up, as it does without a sign, and what follows its sign. -/
def exponentSign : Bytes → Bool × Bytes
  | 43 :: rest => (true, rest)
  | 45 :: rest => (false, rest)
  | rest => (true, rest)

def isExponentMark : Bool := b = 101 || b = 69

/-- The digits of a number, and whether its exponent goes up. -/
structure Parts where
  whole : Bytes
  fraction : Bytes := []
  exponent : Option (Bool × Bytes) := none

/-- The exponent of a number, if it has one; `ended` is what is said of a text that ends in it. -/
def Parts.withExponent (parts : Parts) : Bytes → Except Fail (Parts × Bytes)
  | [] => .ok (parts, [])
  | b :: rest =>
    if isExponentMark b then
      let (up, rest) := exponentSign rest
      match rest with
      | [] => failHere ended []
      | d :: rest =>
        if isDigit d then
          .ok ({ parts with exponent := some (up, d :: rest.takeWhile isDigit) },
            rest.dropWhile isDigit)
        else failHere "invalid number" rest
    else .ok (parts, b :: rest)

/-- The fraction of a number, if it has one, and its exponent. -/
def Parts.withFraction (parts : Parts) : Bytes → Except Fail (Parts × Bytes)
  | 46 :: rest =>
    let digits := rest.takeWhile isDigit
    if digits.isEmpty then failPeek (if rest.isEmpty then ended else "invalid number") rest
    else { parts with fraction := digits }.withExponent ended (rest.dropWhile isDigit)
  | rest => parts.withExponent ended rest

/-- The parts of a number after its sign. -/
def scanParts : Bytes → Except Fail (Parts × Bytes)
  | [] => failHere ended []
  | b :: rest =>
    if b = 48 then
      if (rest.head?.map isDigit).getD false then failPeek "invalid number" rest
      else Parts.withFraction ended { whole := [b] } rest
    else if isDigit b then
      Parts.withFraction ended { whole := b :: rest.takeWhile isDigit } (rest.dropWhile isDigit)
    else failHere "invalid number" rest

/-- A negative integer that does not fit, and negative zero, are doubles. -/
def wholeNumber (value : Nat) : Numeral :=
  if positive then .integer value
  else if value = 0 || 0x8000000000000000 < value then .float (Binary64.ofNat value).neg
  else .integer (-(Int.ofNat value))

/-- The number that parts make, before the rest of a text. Digits that do not fit the significand
go to the exponent. -/
def Parts.numeral (parts : Parts) (positive : Bool) (rest : Bytes) : Except Fail Numeral :=
  let (value, used) := significand 0 (parts.whole.map digitValue)
  let extra := parts.whole.length - used
  if parts.fraction.isEmpty && parts.exponent.isNone && extra = 0 then
    .ok (wholeNumber positive value)
  else
    let (value, used) := significand value (parts.fraction.map digitValue)
    let start : Int := extra - used
    match parts.exponent with
    | none => finish positive value start rest
    | some (up, digits) =>
      match exponentValue 0 digits with
      | .inl n => finish positive value (if up then start + n else start - n) rest
      | .inr left =>
        if value ≠ 0 && up then failHere "number out of range" (left ++ rest)
        else .ok (.float (applySign positive (Binary64.zero false)))

/-- A number after its sign. -/
def scanNumber (rest : Bytes) : Except Fail (Numeral × Bytes) := do
  let (parts, rest) ← scanParts endOfValue rest
  return (← parts.numeral positive rest, rest)

/-! ### Skipping values -/

def skipHex : Bytes → Except Fail Bytes := fun rest => (scanHex rest).map (·.2)

def skipEscape : Bytes → Except Fail Bytes
  | [] => failHere endOfString []
  | b :: rest =>
    if b = 117 then skipHex rest
    else if (simpleEscape? b).isSome then .ok rest
    else failHere "invalid escape" rest

theorem skipEscape_length {rest rest' : Bytes} (h : skipEscape rest = .ok rest') :
    rest'.length < rest.length := by
  unfold skipEscape at h
  split at h
  · simp [failHere] at h
  split at h
  · obtain ⟨⟨n, tail⟩, hx, rfl⟩ := map_eq_ok h
    have := scanHex_length hx
    simp
    omega
  · split at h
    · simp only [Except.ok.injEq] at h
      simp [← h]
    · simp [failHere] at h

/-- A string after its opening quote, checked for form only. -/
def skipString : Bytes → Except Fail Bytes
  | [] => failHere endOfString []
  | b :: rest =>
    if b = 34 then .ok rest
    else if b = 92 then
      match _taken : skipEscape rest with
      | .ok rest' => skipString rest'
      | .error e => .error e
    else if b < 32 then
      failHere "control character (\\u0000-\\u001F) found while parsing a string" (b :: rest)
    else skipString rest
termination_by rest => rest.length
decreasing_by
  · have := skipEscape_length _taken
    simp
    omega
  · simp

/-- A number after its sign, checked for form only. -/
def skipNumber : Except Fail Bytes := (scanParts "invalid number" rest).map (·.2)

/-- The open brackets around a position, innermost first. -/
inductive Bracket where
  | list
  | object
deriving DecidableEq, Repr

def Bracket.close : Bracket → UInt8
  | .list => 93
  | .object => 125

/-- A key and its colon inside a skipped object. -/
def skipKey : Except Fail Bytes :=
  match skipSpace rest with
  | [] => failPeek endOfObject []
  | b :: after =>
    if b = 34 then do
      let rest ← skipString after
      match skipSpace rest with
      | [] => failPeek endOfObject []
      | c :: rest' => if c = 58 then .ok rest' else failPeek "expected `:`" (c :: rest')
    else failPeek "key must be a string" (b :: after)

/-- Where skipping goes on: behind a value, or right after an opening bracket. -/
inductive Skip where
  | value
  | close (afterValue : Bool)
deriving DecidableEq, Repr

/-- A value without brackets, by its first byte. -/
def skipScalar (after : Bytes) : Except Fail Bytes :=
  if b = 110 then scanIdent nullTail after
  else if b = 116 then scanIdent trueTail after
  else if b = 102 then scanIdent falseTail after
  else if b = 45 then skipNumber after
  else if isDigit b then skipNumber (b :: after)
  else if b = 34 then skipString after
  else failPeek "expected value" (b :: after)

/-- Skip one value, keeping the brackets that are open. -/
def skipFrom : Nat → Skip → List Bracket → Bytes → Except Fail Bytes
  | 0, _, _, rest => .ok rest
  | fuel + 1, .value, open', rest =>
    match skipSpace rest with
    | [] => failPeek endOfValue []
    | b :: after =>
      if b = 91 then skipFrom fuel (.close false) (.list :: open') after
      else if b = 123 then skipFrom fuel (.close false) (.object :: open') after
      else do
        let rest ← skipScalar b after
        skipFrom fuel (.close true) open' rest
  | _ + 1, .close _, [], rest => .ok rest
  | fuel + 1, .close afterValue, bracket :: outer, rest =>
    let next (rest : Bytes) : Except Fail Bytes :=
      match bracket with
      | .list => skipFrom fuel .value (bracket :: outer) rest
      | .object => do
        let rest ← skipKey rest
        skipFrom fuel .value (bracket :: outer) rest
    match skipSpace rest with
    | [] => failPeek (match bracket with | .list => endOfList | .object => endOfObject) []
    | b :: after =>
      if afterValue && b = 44 then next after
      else if b = bracket.close then skipFrom fuel (.close true) outer after
      else if afterValue then
        failPeek (match bracket with
          | .list => "expected `,` or `]`"
          | .object => "expected `,` or `\x7d`") (b :: after)
      else next (b :: after)

def skipValue : Except Fail Bytes := skipFrom (2 * rest.length + 2) .value [] rest

/-! ### Values of another type than the expected one -/

/-- A value without brackets, by its first byte. -/
def readScalar (after : Bytes) : Except Fail (Json × Bytes) := do
  if b = 110 then return (.null, ← scanIdent nullTail after)
  else if b = 116 then return (.bool true, ← scanIdent trueTail after)
  else if b = 102 then return (.bool false, ← scanIdent falseTail after)
  else if b = 45 then
    let (n, rest) ← scanNumber false after
    return (n.toJson, rest)
  else if isDigit b then
    let (n, rest) ← scanNumber true (b :: after)
    return (n.toJson, rest)
  else if b = 34 then
    let (s, rest) ← scanString after
    return (.string s, rest)
  else failPeek "expected value" (b :: after)

/-- How a value is named where it is not expected. -/
def describe : Json → String
  | .null => "null"
  | .bool b => s!"boolean `{b}`"
  | .integer n => s!"integer `{n}`"
  | .float x => "floating point `" ++ Decimal.text Decimal.json x ++ "`"
  | .string s => "string " ++ Text.debugQuote s
  | .array _ => "sequence"
  | .object _ => "map"

/-- Fail on a value that is not of the expected type; scalars are read first. -/
def failType {α : Type} (expected : String) : Bytes → Except Fail α
  | [] => failPeek "expected value" []
  | b :: after => do
    let (found, rest) ← if b = 91 then .ok (.array [], b :: after)
      else if b = 123 then .ok (.object [], b :: after)
      else readScalar b after
    failHere ("invalid type: " ++ found.describe ++ ", expected " ++ expected) rest

/-! ### Scalars of a known type -/

def readText (expected : String) (rest : Bytes) : Except Fail (String × Bytes) :=
  match skipSpace rest with
  | [] => failPeek endOfValue []
  | 34 :: after => scanString after
  | rest => failType expected rest

def readNumber : Except Fail (Binary64 × Bytes) :=
  match skipSpace rest with
  | [] => failPeek endOfValue []
  | b :: after =>
    if b = 45 then do
      let (n, rest) ← scanNumber false after
      .ok (n.toBinary64, rest)
    else if isDigit b then do
      let (n, rest) ← scanNumber true (b :: after)
      .ok (n.toBinary64, rest)
    else failType "f64" (b :: after)

/-- A number, or null for none. -/
def readOptionalNumber : Except Fail (Option Binary64 × Bytes) :=
  match skipSpace rest with
  | 110 :: after => do
    let rest ← scanIdent nullTail after
    .ok (none, rest)
  | rest => do
    let (x, rest) ← readNumber rest
    .ok (some x, rest)

end Json

end Foundry
