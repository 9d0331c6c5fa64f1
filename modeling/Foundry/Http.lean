import Foundry.Body
import Foundry.Metrics
import Foundry.Service

/-!
# The HTTP interface

Four routes over the service. Faults of the input answer 400, faults of carrying it
out 500. What the router refuses has no JSON body.
-/

namespace Foundry

open Program

namespace Http

structure Request where
  method : String
  /-- The path, perhaps after a host and perhaps before a query. -/
  target : String
  body : ByteArray := .empty
deriving Inhabited

structure Reply where
  status : Nat
  contentType : Option String := none
  /-- The methods that would have been allowed. -/
  allow : Option String := none
  body : String := ""
deriving DecidableEq, Repr, Inhabited

def Reply.json (status : Nat) (body : Json) : Reply :=
  { status, contentType := some "application/json", body := body.compact }

def statusOf (fault : Fault) : Nat := if fault.isValidation then 400 else 500

def failure (fault : Fault) : Reply := .json (statusOf fault) (Response.ofFault fault).toJson

def generate (s : Service) (payload : ByteArray) : Program Reply := do
  match s.limits.validatePayload payload.toList with
  | .error fault => return failure fault
  | .ok request =>
    match ← (s.generateRequest request).run with
    | .ok generated => return .json 200 (Response.ofOutput generated.output).toJson
    | .error fault => return failure fault

def clearCache (s : Service) : Program Reply := do
  match ← s.clearCache.run with
  | .ok _ => return .json 200 (.object [("success", .bool true)])
  | .error fault =>
    return .json 500 (.object [("error", .string fault.message), ("success", .bool false)])

inductive Route where
  | health
  | generate
  | metrics
  | cache
deriving DecidableEq, Repr, Inhabited

/-- A target without the scheme and the host that it may start with. -/
def withoutHost (target : List Char) : List Char :=
  let scheme := target.takeWhile Char.isAlphanum
  match target.drop scheme.length with
  | ':' :: '/' :: '/' :: rest =>
    match rest.dropWhile fun c => c ≠ '/' && c ≠ '?' with
    | '/' :: path => '/' :: path
    | query => '/' :: query
  | _ => target

def pathOf (target : String) : String :=
  String.ofList ((withoutHost target.toList).takeWhile fun c => c ≠ '?' && c ≠ '#')

def route? (path : String) : Option Route :=
  if path = "/health" then some .health
  else if path = "/api/generate" then some .generate
  else if path = "/api/metrics" then some .metrics
  else if path = "/api/cache" then some .cache
  else none

/-- The methods of a route. What can be got can also be asked for its head. -/
def Route.methods : Route → List String
  | .health | .metrics => ["GET", "HEAD"]
  | .generate => ["POST"]
  | .cache => ["DELETE"]

def summaryJson (s : Metrics.Summary) : Json :=
  .object [("average", .float s.average), ("count", .integer s.count), ("max", .float s.max),
    ("median", .float s.median), ("min", .float s.min)]

def metricsJson (m : Metrics) : Json :=
  .object (m.summaries.map fun s => (s.1, summaryJson s.2))

def tooLarge : Reply :=
  { status := 413, contentType := some "text/plain; charset=utf-8",
    body := "Failed to buffer the request body: length limit exceeded" }

/-- Answer a request. A head has the answer's status and type, and no body. -/
def handle (s : Service) (maxBody : Nat) (metrics : Metrics) (r : Request) : Program Reply := do
  match route? (pathOf r.target) with
  | none => return { status := 404 }
  | some route =>
    if !route.methods.contains r.method then
      return { status := 405, allow := some (",".intercalate route.methods) }
    let reply ← match route with
      | .health => pure (Reply.json 200 (.object [("status", .string "healthy")]))
      | .metrics => pure (Reply.json 200 (metricsJson metrics))
      | .cache => clearCache s
      | .generate => if maxBody < r.body.size then pure tooLarge else generate s r.body
    return if r.method = "HEAD" then { reply with body := "" } else reply

end Http

end Foundry
