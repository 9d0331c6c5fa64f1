import Foundry.Proofs.Courses
import Mathlib.Data.List.Forall2

/-!
# Twins

Two programs are twins if they ask for like things as long as they hear like things, and
end alike. What counts as alike is a relation of events. Twins that are answered alike go
through courses that are alike event by event, and whatever one of them goes through, the
other can go through something like it.
-/

namespace Foundry

namespace Program

variable {α β γ δ : Type} {alike : Event → Event → Prop}

/-- The calls can be answered alike. -/
def AsksAlike (alike : Event → Event → Prop) (c c' : Call) : Prop :=
  ∃ r r', alike ⟨c, r⟩ ⟨c', r'⟩

/-- As long as the replies are alike so are the calls, and then the values in the end. -/
inductive Twins (alike : Event → Event → Prop) (ends : α → β → Prop) : Program α → Program β → Prop
  | done {a : α} {b : β} (h : ends a b) : Twins alike ends (.done a) (.done b)
  | call {c c' : Call} {next : c.Reply → Program α} {next' : c'.Reply → Program β}
      (asks : AsksAlike alike c c')
      (rest : ∀ r r', alike ⟨c, r⟩ ⟨c', r'⟩ → Twins alike ends (next r) (next' r')) :
      Twins alike ends (.call c next) (.call c' next')

/-- As long as the calls are alike so are the replies. -/
def HeardAlike (alike : Event → Event → Prop) : List Event → List Event → Prop
  | e :: es, e' :: es' => AsksAlike alike e.call e'.call → alike e e' ∧ HeardAlike alike es es'
  | _, _ => True

variable {p : Program α} {q : Program β} {mid : α → β → Prop} {ends : γ → δ → Prop}

theorem Twins.bind {f : α → Program γ} {g : β → Program δ} (h : Twins alike mid p q)
    (hf : ∀ a b, mid a b → Twins alike ends (f a) (g b)) :
    Twins alike ends (p >>= f) (q >>= g) := by
  induction h with
  | done h => exact hf _ _ h
  | call asks _ ih => exact .call asks ih

theorem Twins.mono {mid' : α → β → Prop} (h : Twins alike mid p q)
    (himp : ∀ a b, mid a b → mid' a b) : Twins alike mid' p q := by
  induction h with
  | done h => exact .done (himp _ _ h)
  | call asks _ ih => exact .call asks ih

theorem twins_ask {c c' : Call} {mid : c.Reply → c'.Reply → Prop} (asks : AsksAlike alike c c')
    (h : ∀ r r', alike ⟨c, r⟩ ⟨c', r'⟩ → mid r r') : Twins alike mid (ask c) (ask c') :=
  .call asks fun r r' hr => .done (h r r' hr)

/-- A call that has to be answered in the same way. -/
def Steady (alike : Event → Event → Prop) (c : Call) : Prop :=
  AsksAlike alike c c ∧ ∀ r r', alike ⟨c, r⟩ ⟨c, r'⟩ → r = r'

/-- Who makes only calls that are answered in the same way does the same. -/
theorem twins_self (h : p.Only (Steady alike)) : Twins alike (· = ·) p p := by
  induction p with
  | done a => exact .done rfl
  | call c next ih =>
    obtain ⟨⟨asks, same⟩, hnext⟩ := obeys_call.mp h
    refine .call asks fun r r' hr => ?_
    obtain rfl := same r r' hr
    exact ih r (hnext r trivial)

/-! ## The same replies -/

theorem nonempty_reply (c : Call) : Nonempty c.Reply := by
  cases c <;> exact ⟨default⟩

/-- Like calls that get the same reply. -/
def SameReply (like : Call → Call → Prop) (e e' : Event) : Prop :=
  like e.call e'.call ∧ e.reply ≍ e'.reply

variable {like : Call → Call → Prop} {c c' : Call}

theorem asksAlike_of_like (h : like c c') (htype : c.Reply = c'.Reply) :
    AsksAlike (SameReply like) c c' := by
  obtain ⟨r⟩ := nonempty_reply c
  exact ⟨r, cast htype r, h, (cast_heq htype r).symm⟩

theorem exists_sameReply (h : AsksAlike (SameReply like) c c') (htype : c.Reply = c'.Reply)
    (r : c.Reply) : ∃ r', SameReply like ⟨c, r⟩ ⟨c', r'⟩ := by
  obtain ⟨_, _, hlike, -⟩ := h
  exact ⟨cast htype r, hlike, (cast_heq htype r).symm⟩

theorem steady_of_like (h : like c c) : Steady (SameReply like) c :=
  ⟨asksAlike_of_like h rfl, fun _ _ hr => eq_of_heq hr.2⟩

/-! ## Courses of twins -/

variable {es es' : List Event} {a : α} {b : β}

/-- Twins that are answered alike go through the same, and what comes after them is answered
alike. -/
theorem Twins.aligned {more more' : List Event} (h : Twins alike mid p q) (hp : Course p es a)
    (hq : Course q es' b) (heard : HeardAlike alike (es ++ more) (es' ++ more')) :
    List.Forall₂ alike es es' ∧ mid a b ∧ HeardAlike alike more more' := by
  induction h generalizing es es' with
  | done h =>
    obtain ⟨rfl, rfl⟩ := course_done.mp hp
    obtain ⟨rfl, rfl⟩ := course_done.mp hq
    exact ⟨.nil, h, heard⟩
  | call asks _ ih =>
    obtain ⟨r, rest, rfl, hrest⟩ := course_call.mp hp
    obtain ⟨r', rest', rfl, hrest'⟩ := course_call.mp hq
    obtain ⟨hfirst, hheard⟩ := heard asks
    obtain ⟨haligned, hends⟩ := ih r r' hfirst hrest hrest' hheard
    exact ⟨.cons hfirst haligned, hends⟩

/-- What one of two twins goes through, the other can go through alike. -/
theorem Twins.exists_course (h : Twins alike mid p q) (hp : Course p es a)
    (hopen : ∀ c c' r, AsksAlike alike c c' → ∃ r', alike ⟨c, r⟩ ⟨c', r'⟩) :
    ∃ es' b, Course q es' b ∧ List.Forall₂ alike es es' ∧ mid a b := by
  induction h generalizing es with
  | @done a' b h =>
    obtain ⟨rfl, rfl⟩ := course_done.mp hp
    exact ⟨[], b, .done b, .nil, h⟩
  | @call c c' next next' asks _ ih =>
    obtain ⟨r, rest, rfl, hrest⟩ := course_call.mp hp
    obtain ⟨r', hr'⟩ := hopen c c' r asks
    obtain ⟨es', b, hcourse, haligned, hends⟩ := ih r r' hr' hrest
    exact ⟨⟨c', r'⟩ :: es', b, .call r' hcourse, .cons hr' haligned, hends⟩

end Program

namespace Action

open Program

variable {α β γ δ : Type} {alike : Event → Event → Prop}

theorem twins_bind {p q : Action α} {f g : α → Action β} (h : Twins alike (· = ·) p.run q.run)
    (hf : ∀ a, Twins alike (· = ·) (f a).run (g a).run) :
    Twins alike (· = ·) (p >>= f).run (q >>= g).run := by
  rw [run_bind, run_bind]
  apply h.bind
  rintro (e | a) _ rfl
  · exact .done rfl
  · exact hf a

theorem twins_lift_bind {p : Program α} {q : Program β} {f : α → Action γ} {g : β → Action δ}
    {mid : α → β → Prop} {ends : Except Fault γ → Except Fault δ → Prop} (h : Twins alike mid p q)
    (hf : ∀ a b, mid a b → Twins alike ends (f a).run (g b).run) :
    Twins alike ends ((liftM p : Action α) >>= f).run ((liftM q : Action β) >>= g).run := by
  have hp : ((liftM p : Action α) >>= f).run = p >>= fun a => (f a).run := ExceptT.run_bind_lift p f
  have hq : ((liftM q : Action β) >>= g).run = q >>= fun b => (g b).run := ExceptT.run_bind_lift q g
  rw [hp, hq]
  exact h.bind hf

theorem twins_orFail {fault : Cause → Fault} {p q : Program (Except Cause α)}
    (h : Twins alike (· = ·) p q) :
    Twins alike (· = ·) (orFail fault p).run (orFail fault q).run := by
  apply h.bind
  rintro (e | a) _ rfl
  · exact .done rfl
  · exact .done rfl

end Action

end Foundry
