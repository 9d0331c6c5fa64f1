import Foundry.Json.Record
import Foundry.Request

/-!
# Request bodies and responses

The JSON forms that callers exchange with the service: the body of a generation
request, and the answer, which is either the generated text or an error.
-/

namespace Foundry

structure Body where
  source : String
  timeout : Option Binary64
deriving DecidableEq, Repr

namespace Body

inductive Member where
  | source (text : String)
  | timeout (seconds : Option Binary64)

def fields : List (Json.Field Member) :=
  [{ name := "sourceText",
     read := fun rest => (Json.readText "a string" rest).map fun r => (.source r.1, r.2) },
   { name := "timeoutSeconds", absent := some (.timeout none),
     read := fun rest => (Json.readOptionalNumber rest).map fun r => (.timeout r.1, r.2) }]

def read (rest : Json.Bytes) : Except Json.Fail (Body × Json.Bytes) := do
  let (members, rest) ← Json.readRecord "GenerateBody" fields rest
  match members with
  | [.source text, .timeout seconds] => .ok (⟨text, seconds⟩, rest)
  | _ => Json.failHere "missing field `sourceText`" rest

/-- The body in a payload of bytes, or why there is none. -/
def parse (payload : List UInt8) : Except String Body :=
  match Json.document read payload with
  | .ok body => .ok body
  | .error e => .error (e.message payload)

def toJson (b : Body) : Json :=
  .object [("sourceText", .string b.source),
    ("timeoutSeconds", match b.timeout with | some x => .float x | none => .null)]

end Body

namespace Limits

def validateBody (limits : Limits) (b : Body) : Except Fault Request :=
  limits.validate b.source b.timeout

/-- Accept a payload: a body that is read and then validated. -/
def validatePayload (limits : Limits) (payload : List UInt8) : Except Fault Request :=
  match Body.parse payload with
  | .error reason => .error (.invalidRequest reason)
  | .ok body => limits.validateBody body

end Limits

/-- The answer to a generation request. -/
inductive Response where
  | success (generatedCode : String) (success : Bool)
  | failure (error : String) (success : Bool)
deriving DecidableEq, Repr

namespace Response

def ofOutput (text : String) : Response := .success text true

def ofFault (fault : Fault) : Response := .failure fault.message false

def toJson : Response → Json
  | .success text flag => .object [("generatedCode", .string text), ("success", .bool flag)]
  | .failure error flag => .object [("error", .string error), ("success", .bool flag)]

/-- The one value of a member, if there is exactly one. -/
def uniqueMember? (name : String) (members : List (String × Json)) : Option Json :=
  match members.filter fun m => m.1 == name with
  | [m] => some m.2
  | _ => none

/-- A text and a success flag under the given name, whatever else there is. -/
def shape? (name : String) (members : List (String × Json)) : Option (String × Bool) :=
  match uniqueMember? name members, uniqueMember? "success" members with
  | some (.string text), some (.bool flag) => some (text, flag)
  | _, _ => none

/-- The first shape that a value fits. -/
def ofJson? : Json → Option Response
  | .object members =>
    match shape? "generatedCode" members with
    | some (text, flag) => some (.success text flag)
    | none => (shape? "error" members).map fun r => .failure r.1 r.2
  | _ => none

def parse (text : List UInt8) : Except String Response :=
  match Json.parse text with
  | .error e => .error (e.message text)
  | .ok value =>
    match ofJson? value with
    | some r => .ok r
    | none => .error "data did not match any variant of untagged enum GenerateResponse"

end Response

end Foundry
