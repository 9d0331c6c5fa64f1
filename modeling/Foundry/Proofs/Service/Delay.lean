import Foundry.Proofs.Service.Phases
import Foundry.Proofs.Twins

/-!
# Requests at another time

A request measures how much of its time is left, but never reads the time for its own
sake. So two requests whose clocks agree on what is left do the same in their workspaces.
From the moment its time starts, a request does the same whenever that is: its course is
that of an earlier one, a fixed delay apart, call by call.
-/

namespace Foundry

open Program Action Event

/-! ## Two clocks -/

/-- Two ways of telling the time that a request cannot tell apart by what it does. -/
structure Paces (alike : Event → Event → Prop) (sees : Nat → Nat → Prop)
    (deadline deadline' : Nat) : Prop where
  clock : Twins alike sees (ask .clock) (ask .clock)
  left : ∀ {t t'}, sees t t' → (deadline - t = 0 ↔ deadline' - t' = 0)
  run : ∀ {t t'}, sees t t' → ∀ command,
    Twins alike (· = ·) (ask (.run command ⟨deadline - t⟩)) (ask (.run command ⟨deadline' - t'⟩))
  record : ∀ {t t' u u'}, sees t t' → sees u u' → ∀ operation,
    Twins alike (· = ·) (ask (.record operation ⟨u - t⟩)) (ask (.record operation ⟨u' - t'⟩))
  makes : ∀ c, Workspaces.Makes c → Steady alike c

namespace Paces

open Service

variable {alike : Event → Event → Prop} {sees : Nat → Nat → Prop} {deadline deadline' : Nat}
  {s : Service} {request : Request} (paces : Paces alike sees deadline deadline')
include paces

/-- Spans that are measured alike are recorded alike. -/
theorem elapsed {t t' : Nat} (ht : sees t t') :
    Twins alike (fun d d' => ∀ operation,
      Twins alike (· = ·) (ask (.record operation d)) (ask (.record operation d')))
      (elapsedSince t) (elapsedSince t') :=
  paces.clock.bind fun _ _ hu => .done (paces.record ht hu)

theorem timed {α β : Type} {mid : α → β → Prop} {p : Program α} {q : Program β} (operation : String)
    (h : Twins alike mid p q) : Twins alike mid (timed operation p) (timed operation q) := by
  apply paces.clock.bind
  intro t t' ht
  apply h.bind
  intro a b hab
  apply (paces.elapsed ht).bind
  intro d d' hd
  exact (hd operation).bind fun _ _ _ => .done hab

/-- A stage is started in both or in neither, and its command decides. -/
theorem runStage (command : Command) :
    Twins alike (· = ·) (runStage command request deadline).run
    (runStage command request deadline').run := by
  apply twins_lift_bind paces.clock
  intro t t' ht
  by_cases hnone : deadline - t = 0
  · simp only [hnone, (paces.left ht).mp hnone, if_true]
    exact .done rfl
  simp only [hnone, mt (paces.left ht).mpr hnone, if_false]
  apply twins_lift_bind (paces.timed command.stage (paces.run ht command))
  rintro (fault | result) _ rfl
  · cases fault <;> exact .done rfl
  · exact .done rfl

theorem buildThenRun (w : Workspace) :
    Twins alike (· = ·) (s.buildThenRun w request deadline).run
    (s.buildThenRun w request deadline').run := by
  rw [Service.buildThenRun, Service.buildThenRun]
  apply twins_bind (paces.runStage _)
  intro build
  split
  · exact twins_bind (paces.runStage _) fun _ => .done rfl
  · exact .done rfl

theorem work (dependency : DependencyRef) :
    Twins alike (· = ·) (s.work request deadline dependency).run
      (s.work request deadline' dependency).run := by
  apply twins_lift_bind paces.clock
  intro t t' ht
  apply twins_bind (twins_self ((s.workspaces.makes_create _ _).mono paces.makes))
  intro advised
  apply twins_lift_bind (twins_self ((Workspaces.makes_settle _ _).mono paces.makes))
  rintro w _ rfl
  apply twins_lift_bind (paces.elapsed ht)
  intro d d' hd
  apply twins_lift_bind (hd _)
  intro _ _ _
  apply twins_lift_bind (paces.buildThenRun w)
  rintro result _ rfl
  apply twins_lift_bind (twins_self ((Workspaces.makes_drop w).mono paces.makes))
  intro _ _ _
  exact .done rfl

end Paces

/-! ## A fixed delay -/

variable {delay : Nat} {α : Type}

/-- Calls that read the clock or name a time of it. -/
def Call.IsTimed : Call → Prop
  | .clock | .awaitJob .. => True
  | _ => False

/-- The same event at a later time. -/
def Event.later (delay : Nat) : Event → Event
  | ⟨.clock, t⟩ => ⟨.clock, t + delay⟩
  | ⟨.awaitJob job deadline, r⟩ => ⟨.awaitJob job (deadline + delay), r⟩
  | e => e

theorem Event.later_of_not_isTimed {e : Event} (h : ¬ e.call.IsTimed) : e.later delay = e := by
  rcases e with ⟨c, r⟩
  cases c with
  | clock | awaitJob => exact absurd trivial h
  | _ => rfl

theorem Event.kind_later (delay : Nat) (e : Event) : (e.later delay).call.kind = e.call.kind := by
  rcases e with ⟨c, r⟩
  cases c <;> rfl

def Event.IsLater (delay : Nat) (e e' : Event) : Prop := e.later delay = e'

/-- Later, the second program does what the first does now. -/
abbrev Program.Later (delay : Nat) (p q : Program α) : Prop :=
  Twins (Event.IsLater delay) (· = ·) p q

theorem course_later {p q : Program α} {es : List Event} {a : α} (h : Later delay p q)
    (hp : Course p es a) : Course q (es.map (later delay)) a := by
  have hreply (c c' : Call) (r : c.Reply) (hasks : AsksAlike (Event.IsLater delay) c c') :
      ∃ r' : c'.Reply, Event.IsLater delay ⟨c, r⟩ ⟨c', r'⟩ := by
    obtain ⟨r₀, r₀', hasks⟩ := hasks
    have hcall : (later delay ⟨c, r⟩).call = (later delay ⟨c, r₀⟩).call := by
      cases c <;> rfl
    rw [show later delay ⟨c, r₀⟩ = ⟨c', r₀'⟩ from hasks] at hcall
    subst hcall
    exact ⟨_, rfl⟩
  obtain ⟨es', _, hq, haligned, rfl⟩ := h.exists_course hp hreply
  have hes : List.Forall₂ (· = ·) (es.map (later delay)) es' :=
    List.forall₂_map_left_iff.mpr haligned
  rw [List.forall₂_eq_eq_eq] at hes
  rwa [hes]

/-- A call that does not look at the time is answered in the same way. -/
theorem steady_later {c : Call} (h : ¬ c.IsTimed) : Steady (Event.IsLater delay) c := by
  have hsame (r : c.Reply) : later delay ⟨c, r⟩ = ⟨c, r⟩ := later_of_not_isTimed h
  refine ⟨?_, fun r r' hr => ?_⟩
  · obtain ⟨r⟩ := nonempty_reply c
    exact ⟨r, r, hsame r⟩
  cases (hsame r).symm.trans hr
  rfl

theorem later_ask {c : Call} (h : ¬ c.IsTimed) : Later delay (ask c) (ask c) :=
  twins_self (only_ask (steady_later h))

theorem paces_later (deadline : Nat) :
    Paces (Event.IsLater delay) (fun t t' => t' = t + delay) deadline (deadline + delay) where
  clock := by
    refine @twins_ask _ .clock .clock _ ⟨(0 : Nat), 0 + delay, rfl⟩ ?_
    rintro t _ ⟨⟩
    rfl
  left := by
    rintro t _ rfl
    rw [Nat.add_sub_add_right]
  run := by
    rintro t _ rfl command
    rw [Nat.add_sub_add_right]
    exact later_ask id
  record := by
    rintro t _ u _ rfl rfl operation
    rw [Nat.add_sub_add_right]
    exact later_ask id
  makes c hc := by
    apply steady_later
    cases c with
    | clock | awaitJob => exact hc.elim
    | _ => exact id

namespace Service

theorem later_dependencyRef (s : Service) (request : Request) (deadline : Nat) :
    Later delay (s.dependencyRef request deadline).run
      (s.dependencyRef request (deadline + delay)).run := by
  unfold dependencyRef
  split
  · exact .done rfl
  apply twins_lift_bind (later_ask (c := .isFile _) id)
  rintro ready _ rfl
  cases ready with
  | true => exact .done rfl
  | false =>
    apply twins_lift_bind (later_ask (c := .startJob) id)
    rintro job _ rfl
    have hawait : Later delay (ask (.awaitJob job deadline))
        (ask (.awaitJob job (deadline + delay))) := by
      refine @twins_ask _ (.awaitJob job deadline) (.awaitJob job (deadline + delay)) _
        ⟨JobReply.cancelled, JobReply.cancelled, rfl⟩ ?_
      rintro r _ ⟨⟩
      rfl
    apply twins_lift_bind hawait
    rintro r _ rfl
    have hwarn (text : String) {r : Except Fault DependencyRef} : Later delay
        (ask (.warn text []) >>= fun _ => .done r) (ask (.warn text []) >>= fun _ => .done r) :=
      (later_ask id).bind fun _ _ _ => .done rfl
    cases r with
    | finished result =>
      cases result with
      | ok _ => exact .done rfl
      | error fault => exact hwarn _
    | expired => exact hwarn _
    | cancelled => exact .done rfl

/-- From the start of its time on, a request does the same whenever it is made. -/
theorem later_buildAndRun (s : Service) (request : Request) :
    Later delay (s.buildAndRun request).run (s.buildAndRun request).run := by
  rw [buildAndRun]
  apply twins_lift_bind (paces_later 0).clock
  rintro begun _ rfl
  rw [Nat.add_right_comm]
  exact twins_bind (later_dependencyRef s request _) (paces_later _).work

end Service

end Foundry
