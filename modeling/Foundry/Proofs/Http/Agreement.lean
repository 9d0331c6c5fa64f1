import Foundry.Http
import Foundry.Proofs.Json.Objects

/-!
# The generate route

Asking for a generation over HTTP is asking the service for it: the route makes the
calls that the service makes for the source and the timeout in the payload, none for a
payload that cannot be read, and its reply can be read back as what came of them.
-/

namespace Foundry

open Json Response

/-- Faults of the input: the request, its source or its timeout is refused, or the program that it
asks for has printed no text. -/
inductive Fault.OfInput : Fault → Prop
  | emptySource : OfInput .emptySource
  | sourceTooLarge (size max : Nat) : OfInput (.sourceTooLarge size max)
  | invalidTimeout (seconds max : Binary64) : OfInput (.invalidTimeout seconds max)
  | invalidRequest (reason : String) : OfInput (.invalidRequest reason)
  | forbiddenPattern (pattern : String) : OfInput (.forbiddenPattern pattern)
  | noOutput : OfInput .noOutput

theorem Fault.isValidation_iff {fault : Fault} : fault.isValidation = true ↔ fault.OfInput := by
  constructor
  · intro h
    cases fault <;> first | constructor | cases h
  intro h
  cases h <;> rfl

namespace Response

/-- A response is read back from either layout. -/
theorem parse_chars (r : Response) {layout : Layout} (hlayout : layout.IsBlank) :
    parse (String.ofList (chars layout 0 r.toJson)).toUTF8.toList = .ok r := by
  have hread : Json.parse (String.ofList (chars layout 0 r.toJson)).toUTF8.toList =
      .ok r.toJson := by
    cases r <;> apply parse_object hlayout <;>
      simpa [chars] using ⟨isReadFrom_string _, isReadFrom_bool _⟩
  cases r <;> rw [parse, hread] <;> rfl

theorem parse_compact (r : Response) : parse r.toJson.compact.toUTF8.toList = .ok r :=
  r.parse_chars isBlank_compact

theorem parse_pretty (r : Response) : parse r.toJson.pretty.toUTF8.toList = .ok r :=
  r.parse_chars isBlank_indented

/-- What was answered is read back from both layouts, as a success or as a failure, and no text of a
response is read as another one. -/
theorem responses_read_back (output : String) (fault : Fault) :
    (parse (ofOutput output).toJson.compact.toUTF8.toList = .ok (.success output true) ∧
      parse (ofOutput output).toJson.pretty.toUTF8.toList = .ok (.success output true)) ∧
    (parse (ofFault fault).toJson.compact.toUTF8.toList = .ok (.failure fault.message false) ∧
      parse (ofFault fault).toJson.pretty.toUTF8.toList = .ok (.failure fault.message false)) ∧
    ∀ r r' : Response, (parse r.toJson.compact.toUTF8.toList = .ok r' ↔ r' = r) ∧
      (parse r.toJson.pretty.toUTF8.toList = .ok r' ↔ r' = r) := by
  refine ⟨⟨parse_compact _, parse_pretty _⟩, ⟨parse_compact _, parse_pretty _⟩, fun r r' => ?_⟩
  rw [parse_compact, parse_pretty, Except.ok.injEq]
  exact ⟨eq_comm, eq_comm⟩

end Response

open Program

namespace Service

variable {s : Service} {payload : ByteArray}

/-- Validate a payload and answer the request in it. -/
def generatePayload (s : Service) (payload : ByteArray) : Action Generated := do
  let request ← ExceptT.mk (pure (s.limits.validatePayload payload.toList))
  s.generateRequest request

theorem generatePayload_of_error {reason : String} (h : Body.parse payload.toList = .error reason) :
    s.generatePayload payload = throw (.invalidRequest reason) := by
  rw [generatePayload, Limits.validatePayload, h]
  rfl

theorem generatePayload_of_ok {body : Body} (h : Body.parse payload.toList = .ok body) :
    s.generatePayload payload = s.generate body.source body.timeout := by
  simp only [generatePayload, generate, Limits.validatePayload, h, Limits.validateBody]
  cases s.limits.validate body.source body.timeout <;> rfl

end Service

namespace Http

/-- The reply says what the generation came to: 200 and the output, or the fault's text under 400 or
500. -/
structure Reports (reply : Reply) (outcome : Except Fault Generated) : Prop where
  json : reply.contentType = some "application/json"
  success_iff (output : String) :
    reply.status = 200 ∧ Response.parse reply.body.toUTF8.toList = .ok (.success output true) ↔
      ∃ generated, outcome = .ok generated ∧ generated.output = output
  failure_iff (error : String) :
    Response.parse reply.body.toUTF8.toList = .ok (.failure error false) ↔
      ∃ fault, outcome = .error fault ∧ fault.message = error
  status (fault : Fault) : outcome = .error fault →
    (reply.status = 400 ↔ fault.OfInput) ∧ (reply.status = 500 ↔ ¬ fault.OfInput)

def replyTo : Except Fault Generated → Reply
  | .ok generated => .json 200 (Response.ofOutput generated.output).toJson
  | .error fault => failure fault

theorem reports_replyTo (outcome : Except Fault Generated) : Reports (replyTo outcome) outcome := by
  cases outcome with
  | ok generated =>
    have hparse := parse_compact (.ofOutput generated.output)
    refine ⟨rfl, fun output => ?_, fun error => ?_, fun fault h => by cases h⟩ <;>
      rw [replyTo, Reply.json, hparse, ofOutput]
    · simp
    · simp
  | error fault =>
    have hparse := parse_compact (.ofFault fault)
    refine ⟨rfl, fun output => ?_, fun error => ?_, fun fault' h => ?_⟩
    · rw [replyTo, failure, Reply.json, hparse, ofFault]
      simp
    · rw [replyTo, failure, Reply.json, hparse, ofFault]
      simp
    cases h
    rw [replyTo, failure, Reply.json, statusOf, ← Fault.isValidation_iff]
    cases fault.isValidation <;> simp

theorem generate_eq (s : Service) (payload : ByteArray) :
    generate s payload = replyTo <$> (s.generatePayload payload).run := by
  rw [generate, Service.generatePayload, map_eq_pure_bind]
  cases s.limits.validatePayload payload.toList with
  | error fault => rfl
  | ok request =>
    refine bind_congr fun outcome => ?_
    cases outcome <;> rfl

/-- A generation that is asked for over HTTP makes the calls of the service for the source and the
timeout in the payload, whatever is replied to them, and the reply says what it came to. -/
theorem generate_route_agrees (s : Service) (maxBody : Nat) (metrics : Metrics) (r : Request)
    (hmethod : r.method = "POST") (hpath : pathOf r.target = "/api/generate")
    (hsize : r.body.size ≤ maxBody) :
    (∃ answer : Except Fault Generated → Reply,
      handle s maxBody metrics r = answer <$> (s.generatePayload r.body).run ∧
        ∀ outcome, Reports (answer outcome) outcome) ∧
    (∀ reason, Body.parse r.body.toList = .error reason →
      s.generatePayload r.body = throw (.invalidRequest reason)) ∧
    ∀ body, Body.parse r.body.toList = .ok body →
      s.generatePayload r.body = s.generate body.source body.timeout := by
  refine ⟨⟨replyTo, ?_, reports_replyTo⟩, fun reason => Service.generatePayload_of_error,
    fun body => Service.generatePayload_of_ok⟩
  have hroute : route? (pathOf r.target) = some .generate := by
    rw [hpath]
    decide
  simp [handle, hroute, hmethod, Route.methods, Nat.not_lt.mpr hsize, generate_eq, map_eq_pure_bind]

/-- A payload of just the greatest size: the list `["x"]`, which is a body as well. -/
theorem generate_route_agrees_full :
    let s := Service.ofConfig (.ofEnvironment []) {}
    let r : Request := ⟨"POST", "http://localhost/api/generate?v=1", ⟨#[91, 34, 120, 34, 93]⟩⟩
    (∃ answer : Except Fault Generated → Reply,
      handle s 5 (.ofCapacity 1) r = answer <$> (s.generatePayload r.body).run ∧
        ∀ outcome, Reports (answer outcome) outcome) ∧
      s.generatePayload r.body = s.generate "x" none := by
  intro s r
  obtain ⟨hanswer, -, hbody⟩ := generate_route_agrees s 5 (.ofCapacity 1) r rfl (by decide) le_rfl
  exact ⟨hanswer, hbody ⟨"x", none⟩ (by decide +kernel)⟩

end Http

end Foundry
