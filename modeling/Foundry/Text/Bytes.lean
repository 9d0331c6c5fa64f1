/-!
# Texts of bytes

Shells and text tools work on bytes. A text of bytes has one character for each, with
the number of the byte.
-/

namespace Foundry

namespace Text

/-- One character for each byte. -/
def ofBytes (bytes : ByteArray) : String :=
  String.ofList (bytes.toList.map fun b => Char.ofNat b.toNat)

def toBytes (s : String) : ByteArray :=
  (s.toList.map fun c => c.toNat.toUInt8).toByteArray

/-- A text as the bytes of its encoding. -/
def asBytes (s : String) : String := ofBytes s.toUTF8

/-- The text that bytes encode. Bytes that encode none are taken one by one. -/
def fromBytes (s : String) : String := (String.fromUTF8? (toBytes s)).getD s

end Text

end Foundry
