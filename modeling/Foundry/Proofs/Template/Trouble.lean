import Foundry.Proofs.Courses
import Foundry.Template

/-!
# Trouble with the template

A build of the template takes about ten calls that can fail. Whichever of them does, the
build as a whole ends in a fault: nothing is passed over on the way to the marker.
-/

namespace Foundry

open Program List Call

variable {es : List Event} (path : String)

/-- Something that goes wrong while a template is built: a directory or a file cannot be made, the
lock cannot be opened, taken or written, or the command cannot be run to a good end. -/
def Event.IsTrouble : Event → Prop
  | ⟨.makeDirs _, .error _⟩ | ⟨.writeFile .., .error _⟩ | ⟨.openLock _, .error _⟩
  | ⟨.lock .., .failed _⟩ | ⟨.run .., .error _⟩ => True
  | ⟨.markLock _ bytes, .error _⟩ => bytes ≠ .empty
  | ⟨.run .., .ok result⟩ => result.succeeded = false
  | _ => False

/-- Calls that are no trouble, whatever they bring. -/
def Call.IsHarmless (c : Call) : Prop := ∀ r, ¬ Event.IsTrouble ⟨c, r⟩

theorem harmless_of_ask {c : Call} {r : c.Reply} (h : Course (ask c) es r)
    (hr : ¬ Event.IsTrouble ⟨c, r⟩) : ∀ e ∈ es, ¬ e.IsTrouble := by
  obtain rfl := course_ask.mp h
  exact forall_mem_singleton.mpr hr

theorem not_course_throw_ok {α : Type} {fault : Fault} {a : α} :
    ¬ Course (throw fault : Action α).run es (.ok a) := by
  intro h
  obtain ⟨-, hr⟩ := Action.course_throw.mp h
  cases hr

/-- What ends well has met no trouble. -/
def Action.IsSmooth {α : Type} (p : Action α) : Prop :=
  ∀ es a, Course p.run es (.ok a) → ∀ e ∈ es, ¬ e.IsTrouble

namespace Action.IsSmooth

variable {α β : Type} {p : Action α} {f : α → Action β}

theorem bind (h : p.IsSmooth) (hf : ∀ a, (f a).IsSmooth) : (p >>= f).IsSmooth := by
  intro es b hes
  rcases Action.course_bind.mp hes with ⟨before, after, a, rfl, hp, hafter⟩ | ⟨_, hr, -⟩
  · exact forall_mem_append.mpr ⟨h before a hp, hf a after b hafter⟩
  · cases hr

theorem lift_bind {p : Program α} (h : p.Only IsHarmless) (hf : ∀ a, (f a).IsSmooth) :
    ((liftM p : Action α) >>= f).IsSmooth := by
  intro es b hes
  obtain ⟨before, after, a, rfl, hp, hafter⟩ := Action.course_lift_bind.mp hes
  exact forall_mem_append.mpr ⟨fun e he => hp.only h e he e.reply, hf a after b hafter⟩

/-- A call that is trouble only if it fails, where a failure ends everything. -/
theorem orFail {fault : Cause → Fault} {p : Program (Except Cause α)}
    (h : ∀ es a, Course p es (.ok a) → ∀ e ∈ es, ¬ e.IsTrouble) : (orFail fault p).IsSmooth := by
  intro es a hes
  obtain ⟨r, hr, heq⟩ := Action.course_orFail.mp hes
  cases r with
  | error e => cases heq
  | ok b =>
    cases heq
    exact h es a hr

theorem pure (a : α) : (pure a : Action α).IsSmooth := by
  intro es b hes
  obtain ⟨rfl, -⟩ := Action.course_pure.mp hes
  simp

theorem throw (fault : Fault) : (throw fault : Action α).IsSmooth :=
  fun _ _ hes => absurd hes not_course_throw_ok

/-- After a call that was no trouble, what comes then decides. -/
theorem ask_bind {c : Call} {f : c.Reply → Action β}
    (h : ∀ r, Event.IsTrouble ⟨c, r⟩ → ∀ es b, ¬ Course (f r).run es (.ok b))
    (hf : ∀ r, (f r).IsSmooth) : ((liftM (ask c) : Action c.Reply) >>= f).IsSmooth := by
  intro es b hes
  obtain ⟨r, rest, rfl, hrest⟩ := Action.course_ask_bind.mp hes
  refine forall_mem_cons.mpr ⟨fun htrouble => ?_, hf r rest b hrest⟩
  exact h r htrouble rest b hrest

end Action.IsSmooth

theorem smooth_makeParent : (makeParent path).IsSmooth := by
  unfold makeParent
  split
  · exact .orFail fun _ _ hes => harmless_of_ask hes id
  · exact .pure ()

theorem smooth_writeFile (context path : String) (bytes : ByteArray) :
    (orFault context (ask (.writeFile path bytes))).IsSmooth :=
  .orFail fun _ _ hes => harmless_of_ask hes id

namespace Template

variable {t : Template}

theorem harmless_isReady : t.isReady.Only IsHarmless := only_ask (c := .isFile _) fun _ => id

theorem harmless_discard : t.discard.Only IsHarmless := by
  apply (only_ask (c := .removeTree _) fun _ => id).bind
  intro r
  cases r with
  | ok _ => exact only_done _
  | error e =>
    dsimp only
    split
    · exact only_ask (c := .warn _ _) fun _ => id
    · exact only_done _

theorem smooth_acquire : t.acquire.IsSmooth := by
  apply Action.IsSmooth.bind (smooth_makeParent _)
  intro _
  apply Action.IsSmooth.bind (.orFail fun _ _ hes => harmless_of_ask hes id)
  intro handle
  have hclose (cause : Cause) (context : String) :
      ((liftM (ask (.closeLock handle)) : Action Unit) >>= fun _ =>
        (throw (.files context cause) : Action (Option Nat))).IsSmooth :=
    .lift_bind (only_ask (c := .closeLock _) fun _ => id) fun _ => .throw _
  have hfails (cause : Cause) (context : String) (es : List Event) (b : Option Nat) :
      ¬ Course ((liftM (ask (.closeLock handle)) : Action Unit) >>= fun _ =>
        (throw (.files context cause) : Action (Option Nat))).run es (.ok b) := by
    intro hes
    obtain ⟨_, _, -, hrest⟩ := Action.course_ask_bind.mp hes
    exact not_course_throw_ok hrest
  apply Action.IsSmooth.ask_bind
  · rintro (_ | _ | cause) htrouble
    · exact htrouble.elim
    · exact htrouble.elim
    · exact hfails cause _
  rintro (_ | _ | cause)
  · apply Action.IsSmooth.lift_bind (only_ask (c := .ownPid) fun _ => id)
    intro pid
    apply Action.IsSmooth.ask_bind
    · rintro (cause | _) htrouble
      · exact hfails cause _
      · exact htrouble.elim
    rintro (cause | _)
    · exact hclose cause _
    · exact .pure _
  · exact .lift_bind (only_ask (c := .warn _ _) fun _ => id) fun _ => .pure _
  · exact hclose cause _

theorem smooth_build : t.build.IsSmooth := by
  apply Action.IsSmooth.lift_bind harmless_discard
  intro _
  apply Action.IsSmooth.bind
  · apply Action.IsSmooth.bind (smooth_makeParent _)
    intro _
    exact (smooth_writeFile _ _ _).bind fun _ => smooth_writeFile _ _ _
  intro _
  apply Action.IsSmooth.ask_bind (c := .run t.command t.buildTimeout)
  · rintro (fault | result) htrouble es b
    · cases fault <;> exact not_course_throw_ok
    have hfailed : result.succeeded = false := htrouble
    simp only [hfailed, Bool.not_false, if_true]
    exact not_course_throw_ok
  · rintro (fault | result)
    · cases fault <;> exact .throw _
    dsimp only
    split
    · exact .throw _
    · exact .lift_bind (only_ask (c := .today) fun _ => id) fun _ => smooth_writeFile _ _ _

theorem smooth_buildIfMissing : Action.IsSmooth (ExceptT.mk t.buildIfMissing) := by
  intro es a hes
  obtain ⟨looked, rest, ready, rfl, hlooked, hrest⟩ := course_bind.mp hes
  refine forall_mem_append.mpr ⟨fun e he => hlooked.only harmless_isReady e he e.reply, ?_⟩
  cases ready with
  | true =>
    obtain ⟨rfl, -⟩ := course_done.mp hrest
    simp
  | false =>
    obtain ⟨built, last, r, rfl, hbuilt, hlast⟩ := course_bind.mp hrest
    cases r with
    | ok _ =>
      obtain ⟨rfl, -⟩ := course_done.mp hlast
      rw [append_nil]
      exact smooth_build built () hbuilt
    | error fault =>
      obtain ⟨_, _, _, -, -, hend⟩ := course_bind.mp hlast
      obtain ⟨-, hr⟩ := course_done.mp hend
      cases hr

/-- To give a lock back is never trouble: a failure to clear it is reported and no more. -/
theorem harmless_pay (handle : Nat) : (Debt.lock path handle).pay.Only IsHarmless := by
  have hclear : IsHarmless (.markLock handle .empty) := by
    rintro (e | _)
    · exact fun h => h rfl
    · exact id
  have hclose : (ask (.closeLock handle)).Only IsHarmless :=
    only_ask (c := .closeLock _) fun _ => id
  apply (only_ask hclear).bind
  intro r
  cases r with
  | ok _ => exact hclose
  | error e => exact (only_ask (c := .warn _ _) fun _ => id).bind fun _ => hclose

theorem smooth_owing (handle : Nat) :
    Action.IsSmooth (ExceptT.mk (owing (.lock path handle) t.buildIfMissing)) := by
  intro es a hes
  obtain ⟨_, rest, rfl, hrest⟩ := course_ask_bind.mp hes
  obtain ⟨built, last, r, rfl, hbuilt, hlast⟩ := course_bind.mp hrest
  obtain ⟨_, last, rfl, hpaid⟩ := course_ask_bind.mp hlast
  obtain ⟨paid, ended, _, rfl, hpay, hend⟩ := course_bind.mp hpaid
  obtain ⟨rfl, rfl⟩ := course_done.mp hend
  have hpaying (e : Event) (he : e ∈ paid) : ¬ e.IsTrouble :=
    hpay.only (harmless_pay path handle) e he e.reply
  have hbuilding := smooth_buildIfMissing built a hbuilt
  intro e he
  simp only [append_nil, mem_cons, mem_append] at he
  rcases he with rfl | he | rfl | he
  · exact id
  · exact hbuilding e he
  · exact id
  · exact hpaying e he

theorem smooth_ensure : t.ensure.IsSmooth := by
  apply Action.IsSmooth.lift_bind harmless_isReady
  rintro (_ | _)
  · apply smooth_acquire.bind
    rintro (_ | handle)
    · exact smooth_buildIfMissing
    · exact smooth_owing _ _
  · exact .pure _

/-- Any trouble on the way makes the whole fail. -/
theorem error_of_trouble {r : Except Fault Bool} (h : Course t.ensure.run es r)
    (htrouble : ∃ e ∈ es, e.IsTrouble) : ∃ fault, r = .error fault := by
  obtain ⟨e, he, htrouble⟩ := htrouble
  cases r with
  | ok built => exact absurd htrouble (smooth_ensure es built h e he)
  | error fault => exact ⟨fault, rfl⟩

end Template

end Foundry
