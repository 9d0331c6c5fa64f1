import Foundry.Proofs.Service.Deadline
import Foundry.Proofs.Service.WithoutCache
import Foundry.Proofs.Twins

/-!
# Leeway

How long things take shows at few places of a request: in readings of the clock, in the
time that a command is given, and in durations that are recorded or reported. Two requests
that begin at different times and are otherwise answered alike do the same, as long as the
clock agrees on whether the deadline of each has passed.
-/

namespace Foundry

open Program Event

/-- The same call but for spans of time in it. -/
inductive Call.Retimed (log : AuditLog) : Call → Call → Prop
  | same (c : Call) : Retimed log c c
  | run (command : Command) (d d' : Duration) : Retimed log (.run command d) (.run command d')
  | record (operation : String) (d d' : Duration) :
      Retimed log (.record operation d) (.record operation d')
  | warn (message : String) (fields fields' : List (String × String)) :
      Retimed log (.warn message fields) (.warn message fields')
  | append (bytes bytes' : ByteArray) :
      Retimed log (.appendFile log.path bytes) (.appendFile log.path bytes')

theorem Call.Retimed.reply_eq {log : AuditLog} {c c' : Call} (h : Call.Retimed log c c') :
    c.Reply = c'.Reply := by
  cases h <;> rfl

/-- The same event at another time. What the clock shows is before its deadline or not in both. -/
inductive Event.Retimed (log : AuditLog) (deadline deadline' : Nat) : Event → Event → Prop
  | clock {t t' : Nat} (h : t < deadline ↔ t' < deadline') :
      Retimed log deadline deadline' ⟨.clock, t⟩ ⟨.clock, t'⟩
  | call {e e' : Event} (hne : e.call ≠ .clock) (h : SameReply (Call.Retimed log) e e') :
      Retimed log deadline deadline' e e'

variable {log : AuditLog} {deadline deadline' : Nat} {α : Type}

/-- A call other than the clock is answered in the same way. -/
theorem twins_retimed {c c' : Call} (h : Call.Retimed log c c') (hne : c ≠ .clock) :
    Twins (Retimed log deadline deadline') (· ≍ ·) (ask c) (ask c') := by
  apply twins_ask
  · obtain ⟨r, r', hr⟩ := asksAlike_of_like h h.reply_eq
    exact ⟨r, r', .call hne hr⟩
  rintro r r' (_ | ⟨-, -, hr⟩)
  · exact absurd rfl hne
  · exact hr

theorem steady_timeless {c : Call} (hc : c ≠ .clock) :
    Steady (Retimed log deadline deadline') c := by
  refine ⟨?_, ?_⟩
  · obtain ⟨r⟩ := nonempty_reply c
    exact ⟨r, r, .call hc ⟨.same c, .rfl⟩⟩
  rintro r r' (_ | ⟨-, -, hr⟩)
  · exact absurd rfl hc
  · exact eq_of_heq hr

/-- Who does not look at the clock does the same at another time. -/
theorem twins_timeless {p : Program α} (h : p.Only (· ≠ .clock)) :
    Twins (Retimed log deadline deadline') (· = ·) p p :=
  twins_self (h.mono fun _ => steady_timeless)

theorem twins_clock : Twins (Retimed log deadline deadline')
    (fun t t' => t < deadline ↔ t' < deadline') (ask .clock) (ask .clock) := by
  have hasks : AsksAlike (Retimed log deadline deadline') .clock .clock :=
    ⟨deadline, deadline', .clock (by simp)⟩
  refine twins_ask hasks ?_
  rintro t t' (h | ⟨hne, -, -⟩)
  · exact h
  · exact absurd rfl hne

theorem twins_record (operation : String) (d d' : Duration) :
    Twins (Retimed log deadline deadline') (· = ·) (ask (.record operation d))
    (ask (.record operation d')) :=
  (twins_retimed (.record operation d d') Call.noConfusion).mono fun _ _ _ => rfl

theorem paces_retimed : Paces (Retimed log deadline deadline')
    (fun t t' => t < deadline ↔ t' < deadline') deadline deadline' where
  clock := twins_clock
  left h := by rw [Nat.sub_eq_zero_iff_le, Nat.sub_eq_zero_iff_le, ← Nat.not_lt, ← Nat.not_lt, h]
  run {t t'} _ command :=
    (twins_retimed (.run command ⟨deadline - t⟩ ⟨deadline' - t'⟩) Call.noConfusion).mono
    fun _ _ hr => eq_of_heq hr
  record _ _ operation := twins_record operation _ _
  makes c hc := steady_timeless (by rintro rfl; exact hc)

namespace AuditLog

theorem twins_append (bytes bytes' : ByteArray) :
    Twins (Retimed log deadline deadline') (· = ·) (log.append bytes) (log.append bytes') := by
  have happend : Twins (Retimed log deadline deadline') (· = ·) (ask (.appendFile log.path bytes))
      (ask (.appendFile log.path bytes')) :=
    (twins_retimed (.append bytes bytes') Call.noConfusion).mono fun _ _ => eq_of_heq
  unfold append
  split
  · apply (twins_timeless (only_ask (c := .makeDirs _) Call.noConfusion)).bind
    rintro (e | _) _ rfl
    · exact .done rfl
    · exact happend
  · exact happend

/-- Events that differ in a duration only are recorded in the same way. -/
theorem twins_record {event event' : AuditEvent} (h : ∀ now, (event.line? now).isSome = true)
    (h' : ∀ now, (event'.line? now).isSome = true) :
    Twins (Retimed log deadline deadline') (· = ·) (log.record event) (log.record event') := by
  unfold record
  split
  · apply (twins_timeless (only_ask (c := .today) Call.noConfusion)).bind
    rintro now _ rfl
    obtain ⟨line, hline⟩ := Option.isSome_iff_exists.mp (h now)
    obtain ⟨line', hline'⟩ := Option.isSome_iff_exists.mp (h' now)
    simp only [hline, hline']
    apply (twins_append _ _).bind
    rintro (e | _) _ rfl
    · exact (twins_retimed (.warn _ _ _) Call.noConfusion).mono fun _ _ _ => trivial
    · exact .done trivial
  · exact .done rfl

end AuditLog

namespace Service

variable {s : Service} {request : Request}

theorem twins_elapsedSince (start start' : Nat) :
    Twins (Retimed log deadline deadline') (fun _ _ => True) (elapsedSince start)
    (elapsedSince start') :=
  twins_clock.bind fun _ _ _ => .done trivial

theorem twins_lookup (source : String) :
    Twins (Retimed log deadline deadline') (· = ·) (s.lookup source) (s.lookup source) := by
  unfold lookup
  split
  · apply paces_retimed.timed
    apply twins_timeless
    have hget : (s.cache.get source).Only (· ≠ .clock) := by
      refine (s.cache.only_get source).mono ?_
      rintro c hc rfl
      exact hc
    exact hget.bind fun hit => only_settle hit _ fun _ _ => Call.noConfusion
  · exact .done rfl

theorem twins_close (elapsed elapsed' : Duration) (result : Except Fault String) :
    Twins (Retimed s.audit deadline deadline') (· = ·) (s.close request elapsed result).run
    (s.close request elapsed' result).run := by
  cases result with
  | ok output =>
    have hreport : Twins (Retimed s.audit deadline deadline') (· = ·)
        ((liftM (s.audit.record
          (.generationCompleted (s.cache.hash request.source) elapsed.toSeconds)) :
          Action Unit) >>= fun _ => pure (⟨output, false⟩ : Generated)).run
        ((liftM (s.audit.record
          (.generationCompleted (s.cache.hash request.source) elapsed'.toSeconds)) :
          Action Unit) >>= fun _ => pure (⟨output, false⟩ : Generated)).run :=
      Action.twins_lift_bind (AuditLog.twins_record (fun _ => rfl) fun _ => rfl) fun _ _ _ =>
        .done rfl
    cases hc : s.cacheEnabled with
    | true =>
      have hput : (s.cache.put request.source output).Only (· ≠ .clock) := by
        refine (s.cache.handles_put request.source output).mono ?_
        rintro c hc rfl
        exact hc
      simp only [close, hc, if_true]
      apply Action.twins_lift_bind (twins_timeless hput)
      rintro stored _ rfl
      apply Action.twins_lift_bind
        (twins_timeless (only_settle stored _ fun _ _ => Call.noConfusion))
      rintro _ _ rfl
      exact hreport
    | false =>
      simp only [close, hc, Bool.false_eq_true, if_false]
      exact hreport
  | error fault =>
    apply Action.twins_lift_bind (twins_timeless (only_ask (c := .warn _ _) Call.noConfusion))
    rintro _ _ rfl
    exact Action.twins_lift_bind (AuditLog.twins_record (fun _ => rfl) fun _ => rfl) fun _ _ _ =>
      .done rfl

end Service

end Foundry
