import Foundry.Digest.Sha256
import Foundry.Json.Record
import Foundry.Text.Blank
import Foundry.Time.Stamp

/-!
# Cached outputs

An entry keeps the output of one source together with the source itself, its hash
and the time of its making, so that a reader can tell whether the entry is its own
and still fresh. On disk an entry is one JSON object.
-/

namespace Foundry

/-- The name under which the cache files a source: surrounding blanks do not count. -/
def contentHash (source : String) : String := Sha256.hex (Text.trim source).toUTF8

structure Entry where
  source : String
  output : String
  createdAt : Stamp
  hash : String
deriving DecidableEq, Repr, Inhabited

namespace Entry

/-- An entry for the trimmed source. -/
def ofOutput (hash : String → String) (now : Stamp) (source output : String) : Entry :=
  ⟨Text.trim source, output, now, hash (Text.trim source)⟩

/-- Whether more than `maxAge` nanoseconds have passed since the entry was made. -/
def isStale (e : Entry) (now : Stamp) (maxAge : Int) : Bool := maxAge < now.since e.createdAt

def isFor (e : Entry) (source hash : String) : Bool := e.hash == hash && e.source == source

def toJson (e : Entry) : Json :=
  .object [("sourceText", .string e.source), ("outputText", .string e.output),
    ("createdAt", .string e.createdAt.text), ("contentHash", .string e.hash)]

inductive Member where
  | text (text : String)
  | stamp (stamp : Stamp)

def readTextMember (rest : Json.Bytes) : Except Json.Fail (Member × Json.Bytes) :=
  (Json.readText "a string" rest).map fun r => (.text r.1, r.2)

/-- A time is a text that reads as a stamp. -/
def readStampMember (rest : Json.Bytes) : Except Json.Fail (Member × Json.Bytes) := do
  let (text, rest) ← Json.readText "an RFC 3339 formatted date and time string" rest
  match Stamp.parse text with
  | .ok stamp => .ok (.stamp stamp, rest)
  | .error e => Json.failHere e.message rest

def fields : List (Json.Field Member) :=
  [{ name := "sourceText", read := readTextMember },
   { name := "outputText", read := readTextMember },
   { name := "createdAt", read := readStampMember },
   { name := "contentHash", read := readTextMember }]

def read (rest : Json.Bytes) : Except Json.Fail (Entry × Json.Bytes) := do
  let (members, rest) ← Json.readRecord "CacheEntry" fields rest
  match members with
  | [.text source, .text output, .stamp createdAt, .text hash] =>
    .ok (⟨source, output, createdAt, hash⟩, rest)
  | _ => Json.failHere "missing field `sourceText`" rest

/-- The entry in a file, or why there is none. -/
def parse (bytes : List UInt8) : Except String Entry :=
  match Json.document read bytes with
  | .ok entry => .ok entry
  | .error e => .error (e.message bytes)

end Entry

end Foundry
