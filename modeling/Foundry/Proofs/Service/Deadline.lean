import Foundry.Proofs.Service.Pipeline

/-!
# One deadline for a whole request

Waiting for the template, building and running share one span of time. It starts with the
first reading of the clock after the cache has been asked. Each stage reads the clock, takes
what is left as the time of its command, and does not start its command when nothing is
left. The clock is read once more before the command is called, so a command that keeps to its
time may end after the deadline by as much as the clock moved on between the two readings. A
timeout, wherever it comes from, is reported with the whole span.
-/

namespace Foundry

open Program List Action

/-- What the clock showed, in order. -/
def readings (es : List Event) : List Nat :=
  es.filterMap fun
    | ⟨.clock, t⟩ => some t
    | _ => none

@[simp] theorem readings_append (es es' : List Event) :
    readings (es ++ es') = readings es ++ readings es' :=
  filterMap_append

@[simp] theorem readings_clock_cons (t : Nat) (es : List Event) :
    readings (⟨.clock, t⟩ :: es) = t :: readings es := rfl

/-- A place in two lists one after the other is a place in one of them. -/
theorem append_eq_cut {α : Type} {xs ys before after : List α} {e : α}
    (h : xs ++ ys = before ++ e :: after) : (∃ mid, xs = before ++ e :: mid ∧ after = mid ++ ys) ∨
    ∃ mid, before = xs ++ mid ∧ ys = mid ++ e :: after := by
  rcases append_eq_append_iff.mp h with ⟨mid, hbefore, hys⟩ | ⟨mid, hxs, hafter⟩
  · exact .inr ⟨mid, hbefore, hys⟩
  cases mid with
  | nil => exact .inr ⟨[], by simpa using hxs.symm, by simpa using hafter.symm⟩
  | cons e' mid =>
    obtain ⟨rfl, hrest⟩ := cons.inj hafter
    exact .inl ⟨mid, hxs, hrest⟩

/-! ## Operations that know no time -/

namespace Workspaces

variable {bad : Fault → Prop}

theorem avoids_writeWithDirs (hfiles : ∀ context cause, ¬ bad (.files context cause))
    (path text : String) : (writeWithDirs path text).Avoids bad := by
  apply Action.Avoids.bind
  · unfold makeParent
    split
    · exact .orFail (hfiles _)
    · exact .pure ()
  · intro _
    exact .orFail (hfiles _)

/-- The making of a workspace fails for want of its directory or of its files. -/
theorem avoids_create (hroot : ∀ root cause, ¬ bad (.workspaceCreate root cause))
    (hfiles : ∀ context cause, ¬ bad (.files context cause)) (b : Workspaces) (source : String)
    (dependency : DependencyRef) : (b.create source dependency).Avoids bad := by
  apply Action.Avoids.bind (.orFail (hroot _))
  intro _
  apply Action.Avoids.lift_bind
  intro id
  apply Action.Avoids.bind (.orFail (hroot _))
  intro _
  apply Action.Avoids.lift_bind
  intro _
  apply Action.Avoids.lift_bind
  intro restricted es fault hes
  obtain ⟨written, after, r, -, hwritten, hafter⟩ := course_attempt_bind.mp hes
  cases r with
  | ok _ => exact Action.Avoids.pure _ after fault hafter
  | error fault' =>
    -- the fault that is passed on is one of writing the two files
    obtain ⟨dropped, rest, _, -, -, hrest⟩ := course_lift_bind.mp hafter
    obtain ⟨-, hfault⟩ := course_throw.mp hrest
    obtain rfl := Except.error.inj hfault
    have hwrite : (b.writeFiles (b.describe id) source dependency).Avoids bad :=
      (avoids_writeWithDirs hfiles _ _).bind fun _ => avoids_writeWithDirs hfiles _ _
    exact hwrite written fault hwritten

end Workspaces

namespace Service

variable {r : Except Fault CommandResult} {w : Workspace}
variable {s : Service} {request : Request} {es own : List Event} {deadline : Nat} {stage : String}
  {seconds : Binary64} {command : Command}

/-! ## Stages -/

/-- A stage starts its command only if the clock shows a time before the deadline. -/
theorem course_runStage_cases (h : Course (runStage command request deadline).run es r) :
    (∃ t, deadline ≤ t ∧ es = [⟨.clock, t⟩] ∧
    r = .error (.timeout command.stage request.timeout.toSeconds)) ∨
    ∃ t t₁ t₂ reply, t < deadline ∧ es = stageEvents command deadline t t₁ t₂ reply ∧
    r = stageOutcome request reply := by
  obtain ⟨t, rest, rfl, hrest⟩ := Action.course_ask_bind.mp h
  rcases Nat.lt_or_ge t deadline with hlt | hge
  · have hleft : ∀ t' rest', (⟨.clock, t⟩ :: rest : List Event) = ⟨.clock, t'⟩ :: rest' →
        t' < deadline := by
      intro t' rest' heq
      cases (cons.inj heq).1
      exact hlt
    obtain ⟨t', t₁, t₂, reply, heq, hr⟩ := course_runStage h hleft
    exact .inr ⟨t', t₁, t₂, reply, hleft t' _ heq, heq, hr⟩
  · have hnone : deadline - t = 0 := Nat.sub_eq_zero_of_le hge
    simp only [hnone, if_true] at hrest
    obtain ⟨rfl, rfl⟩ := course_throw_bind.mp hrest
    exact .inl ⟨t, hge, rfl, rfl⟩

theorem ne_cut_of_runsOf {before after : List Event} {c : Command} {d : Duration}
    {reply : Except Fault CommandResult} (h : runsOf es = []) :
    es ≠ before ++ ⟨.run c d, reply⟩ :: after := by
  rintro rfl
  have hmem : (⟨.run c d, reply⟩ : Event) ∈ runsOf (before ++ ⟨.run c d, reply⟩ :: after) :=
    mem_filter.mpr ⟨by simp, by simp [Call.kind]⟩
  rw [h] at hmem
  cases hmem

/-- Each command is called after two readings of the clock and before a third. The first is before
the deadline, and what it leaves is what the command gets. -/
def Punctual (deadline : Nat) (es : List Event) : Prop :=
  ∀ before c d reply after, es = before ++ ⟨.run c d, reply⟩ :: after →
    (c.stage = "build" ∨ c.stage = "run") ∧ ∃ pre now called returned post,
      before = pre ++ [⟨.clock, now⟩, ⟨.clock, called⟩] ∧ after = ⟨.clock, returned⟩ :: post ∧
      now < deadline ∧ d = ⟨deadline - now⟩

namespace Punctual

theorem append {es' : List Event} (h : Punctual deadline es) (h' : Punctual deadline es') :
    Punctual deadline (es ++ es') := by
  intro before c d reply after heq
  rcases append_eq_cut heq with ⟨mid, rfl, rfl⟩ | ⟨mid, rfl, rfl⟩
  · obtain ⟨hstage, pre, now, called, returned, post, rfl, rfl, hnow, hd⟩ :=
      h before c d reply mid rfl
    exact ⟨hstage, pre, now, called, returned, post ++ es', rfl, rfl, hnow, hd⟩
  · obtain ⟨hstage, pre, now, called, returned, post, rfl, rfl, hnow, hd⟩ :=
      h' mid c d reply after rfl
    exact ⟨hstage, es ++ pre, now, called, returned, post, (append_assoc ..).symm, rfl, hnow, hd⟩

theorem stageEvents {t t₁ t₂ : Nat} {reply : Except Fault CommandResult}
    (hstage : command.stage = "build" ∨ command.stage = "run") (ht : t < deadline) :
    Punctual deadline (stageEvents command deadline t t₁ t₂ reply) := by
  intro before c d reply' after heq
  -- the command is the third event
  replace heq : [⟨.clock, t⟩, ⟨.clock, t₁⟩] ++ (⟨.run command ⟨deadline - t⟩, reply⟩ ::
      [⟨.clock, t₂⟩, ⟨.record command.stage ⟨t₂ - t₁⟩, ()⟩]) =
      before ++ (⟨.run c d, reply'⟩ :: after : List Event) := heq
  rcases append_eq_cut heq with ⟨mid, hmid, -⟩ | ⟨mid, rfl, hmid⟩
  · exact absurd hmid (ne_cut_of_runsOf rfl)
  cases mid with
  | nil =>
    obtain ⟨hrun, rfl⟩ := cons.inj hmid
    cases hrun
    exact ⟨hstage, [], t, t₁, t₂, _, rfl, rfl, ht, rfl⟩
  | cons x mid =>
    obtain ⟨-, htail⟩ := cons.inj hmid
    exact absurd htail (ne_cut_of_runsOf rfl)

end Punctual

/-- What can have taken too long: the template, the time before a stage, or a command. -/
inductive TimedOut (deadline : Nat) (es : List Event) : String → Prop
  | template {j : Nat} (expired : (⟨.awaitJob j deadline, .expired⟩ : Event) ∈ es) :
      TimedOut deadline es "template"
  | unstarted {stage : String} {now : Nat} (isStage : stage = "build" ∨ stage = "run")
      (read : (⟨.clock, now⟩ : Event) ∈ es) (late : deadline ≤ now) : TimedOut deadline es stage
  | command {c : Command} {d : Duration} {stage : String} {seconds : Binary64}
      (isStage : c.stage = "build" ∨ c.stage = "run")
      (reply : (⟨.run c d, .error (.timeout stage seconds)⟩ : Event) ∈ es) :
      TimedOut deadline es stage

theorem TimedOut.mono {es' : List Event} (h : TimedOut deadline es stage)
    (hsub : ∀ e ∈ es, e ∈ es') : TimedOut deadline es' stage := by
  cases h with
  | template expired => exact .template (hsub _ expired)
  | unstarted isStage read late => exact .unstarted isStage (hsub _ read) late
  | command isStage reply => exact .command isStage (hsub _ reply)

/-- Faults that finished commands come to. -/
def IsVerdict : Fault → Prop
  | .build _ | .runtime .. | .noOutput => True
  | _ => False

/-- Any other fault comes out of one of the stages. -/
theorem exists_runStage {fault : Fault} (hfault : ¬ IsVerdict fault)
    (h : Course (s.buildThenRun w request deadline).run es (.error fault)) :
    ∃ command es', (command.stage = "build" ∨ command.stage = "run") ∧
    Course (runStage command request deadline).run es' (.error fault) ∧ ∀ e ∈ es', e ∈ es := by
  rw [buildThenRun] at h
  rcases Action.course_bind.mp h with ⟨built, rest, build, rfl, hbuild, hrest⟩ | ⟨e, he, hbuild⟩
  · split at hrest
    · rcases Action.course_bind.mp hrest with ⟨ran, read, run, rfl, hrun, hread⟩ | ⟨e, he, hrun⟩
      · obtain ⟨-, hr⟩ := course_done.mp hread
        unfold readRun at hr
        split at hr
        · cases hr
          exact absurd trivial hfault
        split at hr <;> cases hr
        exact absurd trivial hfault
      · cases he
        exact ⟨_, rest, .inr rfl, hrun, fun e => mem_append_right built⟩
    · obtain ⟨-, hr⟩ := course_throw.mp hrest
      cases hr
      exact absurd trivial hfault
  · cases he
    exact ⟨_, es, .inl rfl, hbuild, fun _ => id⟩

/-- Where the time of a request starts: after a look into the cache that brought nothing. -/
def StartsAt (s : Service) (request : Request) (own : List Event) (start : Nat) : Prop :=
  ∃ arrived looked rest, own = ⟨.clock, arrived⟩ :: (looked ++ ⟨.clock, start⟩ :: rest) ∧
    Course (s.lookup request.source) looked none

/-- Surroundings whose clock moves on with every call and whose runs take too long. -/
def slow : World
  | past, .clock => past.length
  | _, .run c _ => if c.stage = "run" then .error (.timeout "run" default)
      else .ok ⟨0, .empty, .empty⟩
  | _, c => freshReply c

end Service

end Foundry
