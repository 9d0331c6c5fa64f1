import Foundry.Proofs.Interleaving

/-!
# Courses

A course of a program is a list of calls with the replies they got, down to the value
that the program ends in. The replies are whatever the surroundings give, so what holds
of every course holds on every machine, beside every other task and after every failure.
The course of a sequence of programs is cut, in one way only, into courses of its parts.
-/

namespace Foundry

namespace Program

variable {α β : Type} {c : Call}

/-- The program can go through these events and end in that value. -/
inductive Course : Program α → List Event → α → Prop
  | done (a : α) : Course (.done a) [] a
  | call {c : Call} {next : c.Reply → Program α} {es : List Event} {a : α} (r : c.Reply)
      (rest : Course (next r) es a) : Course (.call c next) (⟨c, r⟩ :: es) a

variable {p : Program α} {f : α → Program β} {es : List Event} {a b : α}

theorem course_done : Course (done a) es b ↔ es = [] ∧ b = a := by
  constructor
  · intro h
    cases h
    exact ⟨rfl, rfl⟩
  · rintro ⟨rfl, rfl⟩
    exact .done b

theorem course_call {next : c.Reply → Program α} :
    Course (call c next) es a ↔ ∃ r rest, es = ⟨c, r⟩ :: rest ∧ Course (next r) rest a := by
  constructor
  · intro h
    cases h with
    | call r rest => exact ⟨r, _, rfl, rest⟩
  · rintro ⟨r, rest, rfl, h⟩
    exact .call r h

theorem course_ask {r : c.Reply} : Course (ask c) es r ↔ es = [⟨c, r⟩] := by
  constructor
  · intro h
    obtain ⟨r', rest, rfl, hrest⟩ := course_call.mp h
    obtain ⟨rfl, rfl⟩ := course_done.mp hrest
    rfl
  · rintro rfl
    exact .call r (.done r)

/-- A sequence is gone through part by part. -/
theorem course_bind {b : β} : Course (p >>= f) es b ↔
    ∃ before after a, es = before ++ after ∧ Course p before a ∧ Course (f a) after b := by
  constructor
  · intro h
    induction p generalizing es with
    | done a => exact ⟨[], es, a, rfl, .done a, h⟩
    | call c next ih =>
      obtain ⟨r, rest, rfl, hrest⟩ := course_call.mp h
      obtain ⟨before, after, a, rfl, hp, hf⟩ := ih r hrest
      exact ⟨⟨c, r⟩ :: before, after, a, rfl, .call r hp, hf⟩
  · rintro ⟨before, after, a, rfl, hp, hf⟩
    induction hp with
    | done a => exact hf
    | call r rest ih => exact .call r (ih hf)

theorem course_ask_bind {f : c.Reply → Program β} {b : β} :
    Course (ask c >>= f) es b ↔ ∃ r rest, es = ⟨c, r⟩ :: rest ∧ Course (f r) rest b :=
  course_call

/-- The replies decide everything: of two courses none goes on where the other has ended. -/
theorem Course.deterministic {es' more more' : List Event} (h : Course p es a) (h' : Course p es' b)
    (heq : es ++ more = es' ++ more') : es = es' ∧ a = b ∧ more = more' := by
  induction h generalizing es' with
  | done a =>
    obtain ⟨rfl, rfl⟩ := course_done.mp h'
    exact ⟨rfl, rfl, heq⟩
  | @call c next es a r rest ih =>
    obtain ⟨r', rest', rfl, hrest'⟩ := course_call.mp h'
    obtain ⟨he, htail⟩ := List.cons.inj heq
    cases he
    obtain ⟨rfl, rfl, rfl⟩ := ih hrest' htail
    exact ⟨rfl, rfl, rfl⟩

/-! ## Given surroundings -/

/-- Surroundings that answer a call from what was asked before. -/
abbrev World := List Event → (c : Call) → c.Reply

/-- The course of a program in a world with a past. -/
def follow (world : World) (past : List Event) : Program α → List Event × α
  | .done a => ([], a)
  | .call c next =>
    let r := world past c
    let later := (next r).follow world (past ++ [⟨c, r⟩])
    (⟨c, r⟩ :: later.1, later.2)

/-- The replies in a list of events are those of the world. -/
def Answers (world : World) : List Event → List Event → Prop
  | _, [] => True
  | past, e :: es => e.reply = world past e.call ∧ Answers world (past ++ [e]) es

variable {world : World} {past : List Event}

theorem answers_append {es' : List Event} : Answers world past (es ++ es') ↔
    Answers world past es ∧ Answers world (past ++ es) es' := by
  induction es generalizing past with
  | nil => simp [Answers]
  | cons e es ih => simp [Answers, ih, and_assoc]

theorem course_follow (world : World) (past : List Event) (p : Program α) :
    Course p (p.follow world past).1 (p.follow world past).2 := by
  induction p generalizing past with
  | done a => exact .done a
  | call c next ih => exact .call (world past c) (ih _ _)

theorem answers_follow (world : World) (past : List Event) (p : Program α) :
    Answers world past (p.follow world past).1 := by
  induction p generalizing past with
  | done a => trivial
  | call c next ih => exact ⟨rfl, ih _ _⟩

/-- The course in a world is the one whose replies are the world's. -/
theorem follow_eq (h : Course p es a) (hes : Answers world past es) :
    p.follow world past = (es, a) := by
  induction h generalizing past with
  | done a => rfl
  | @call c next es a r rest ih =>
    obtain ⟨hr, hrest⟩ := hes
    replace hr : r = world past c := hr
    subst hr
    simp only [follow, ih hrest]

theorem Answers.mem {e : Event} (h : Answers world past es) (he : e ∈ es) :
    ∃ past, e.reply = world past e.call := by
  induction es generalizing past with
  | nil => cases he
  | cons e' es ih =>
    rcases List.mem_cons.mp he with rfl | he
    · exact ⟨past, h.1⟩
    · exact ih h.2 he

/-! ## Kinds of calls -/

/-- Rules that only say which calls may be made. -/
def onlyRules (allowed : Call → Prop) : Discipline Unit where
  may _ c := allowed c
  hears _ _ _ := True
  after _ _ _ := ()

/-- Whatever the replies are, the program makes only such calls. -/
def Only (allowed : Call → Prop) (p : Program α) : Prop :=
  p.Obeys (onlyRules allowed) (fun _ _ => True) ()

variable {allowed allowed' : Call → Prop}

theorem only_done (a : α) : (done a).Only allowed := obeys_done.mpr trivial

theorem only_ask (h : allowed c) : (ask c).Only allowed := obeys_ask h fun _ _ => trivial

theorem Only.bind (h : p.Only allowed) (hf : ∀ a, (f a).Only allowed) : (p >>= f).Only allowed :=
  obeys_bind h fun _ a _ => hf a

theorem Only.mono (h : p.Only allowed) (himp : ∀ c, allowed c → allowed' c) : p.Only allowed' := by
  induction p with
  | done a => exact only_done a
  | call c next ih =>
    obtain ⟨hc, hnext⟩ := obeys_call.mp h
    exact obeys_call.mpr ⟨himp c hc, fun r _ => ih r (hnext r trivial)⟩

/-- A program whose calls leave a phase as it is stays in it. -/
theorem Only.obeys {φ : Type} {d : Discipline φ} {x : φ} (h : p.Only allowed)
    (hkeep : ∀ c, allowed c → d.may x c ∧ ∀ r, d.after x c r = x) :
    p.Obeys d (fun y _ => y = x) x := by
  induction p with
  | done a => exact obeys_done.mpr rfl
  | call c next ih =>
    obtain ⟨hc, hnext⟩ := obeys_call.mp h
    obtain ⟨hmay, hafter⟩ := hkeep c hc
    refine obeys_call.mpr ⟨hmay, fun r _ => ?_⟩
    rw [hafter]
    exact ih r (hnext r trivial)

/-- Along a course where only such replies come as the rules reckon with, only such calls are made
as they allow. -/
theorem Course.obeys {d : Discipline Unit} {ends : Unit → α → Prop} (h : Course p es a)
    (hp : p.Obeys d ends ()) (hheard : ∀ e ∈ es, d.hears () e.call e.reply) :
    ∀ e ∈ es, d.may () e.call := by
  induction h with
  | done a => simp
  | @call c next es a r rest ih =>
    obtain ⟨hc, hnext⟩ := obeys_call.mp hp
    obtain ⟨hr, hrest⟩ := List.forall_mem_cons.mp hheard
    exact List.forall_mem_cons.mpr ⟨hc, ih (hnext r hr) hrest⟩

/-- Where the rules reckon with every reply of a course, it ends as they say. -/
theorem Course.ends {φ : Type} {d : Discipline φ} {ends : φ → α → Prop} {x : φ} (h : Course p es a)
    (hp : p.Obeys d ends x) (hheard : ∀ e ∈ es, ∀ y, d.hears y e.call e.reply) :
    ends (Activity.phase d x es) a := by
  induction h generalizing x with
  | done a => exact obeys_done.mp hp
  | @call c next es a r rest ih =>
    obtain ⟨hr, hrest⟩ := List.forall_mem_cons.mp hheard
    exact ih ((obeys_call.mp hp).2 r (hr x)) hrest

theorem Course.only (h : Course p es a) (hp : p.Only allowed) : ∀ e ∈ es, allowed e.call :=
  h.obeys hp fun _ _ => trivial

end Program

namespace Action

variable {e : Fault} {fault : Cause → Fault}

open Program

variable {α β : Type} {p : Action α} {f : α → Action β} {es : List Event} {r : Except Fault β}

/-- A failure ends the whole sequence. -/
theorem course_bind : Course (p >>= f).run es r ↔
    (∃ before after a, es = before ++ after ∧ Course p.run before (.ok a) ∧
    Course (f a).run after r) ∨ ∃ e, r = .error e ∧ Course p.run es (.error e) := by
  rw [run_bind, Program.course_bind]
  constructor
  · rintro ⟨before, after, r', rfl, hp, hf⟩
    cases r' with
    | ok a => exact .inl ⟨before, after, a, rfl, hp, hf⟩
    | error e =>
      obtain ⟨rfl, rfl⟩ := course_done.mp hf
      exact .inr ⟨e, rfl, by simpa using hp⟩
  · rintro (⟨before, after, a, rfl, hp, hf⟩ | ⟨e, rfl, hp⟩)
    · exact ⟨before, after, .ok a, rfl, hp, hf⟩
    · exact ⟨es, [], .error e, by simp, hp, .done _⟩

theorem course_lift_bind {p : Program α} : Course ((liftM p : Action α) >>= f).run es r ↔
    ∃ before after a, es = before ++ after ∧ Course p before a ∧ Course (f a).run after r := by
  have hrun : ((liftM p : Action α) >>= f).run = p >>= fun a => (f a).run :=
    ExceptT.run_bind_lift p f
  rw [hrun]
  exact Program.course_bind

theorem course_ask_bind {c : Call} {f : c.Reply → Action β} :
    Course ((liftM (ask c) : Action c.Reply) >>= f).run es r ↔
    ∃ reply rest, es = ⟨c, reply⟩ :: rest ∧ Course (f reply).run rest r :=
  Program.course_call

theorem course_attempt_bind {f : Except Fault α → Action β} : Course (attempt p >>= f).run es r ↔
    ∃ before after a, es = before ++ after ∧ Course p.run before a ∧ Course (f a).run after r :=
  course_lift_bind

theorem course_pure {a : α} {r : Except Fault α} :
    Course (pure a : Action α).run es r ↔ es = [] ∧ r = .ok a :=
  course_done

theorem course_throw {r : Except Fault α} :
    Course (throw e : Action α).run es r ↔ es = [] ∧ r = .error e :=
  course_done

theorem course_throw_bind : Course ((throw e : Action α) >>= f).run es r ↔ es = [] ∧ r = .error e :=
  course_done

theorem course_orFail {p : Program (Except Cause α)} {r : Except Fault α} :
    Course (orFail fault p).run es r ↔ ∃ r', Course p es r' ∧ r = r'.mapError fault := by
  constructor
  · intro h
    obtain ⟨before, after, r', rfl, hp, hr⟩ := Program.course_bind.mp h
    cases r' with
    | ok a =>
      obtain ⟨rfl, rfl⟩ := course_done.mp hr
      exact ⟨.ok a, by simpa using hp, rfl⟩
    | error e =>
      obtain ⟨rfl, rfl⟩ := course_done.mp hr
      exact ⟨.error e, by simpa using hp, rfl⟩
  · rintro ⟨r', hp, rfl⟩
    refine Program.course_bind.mpr ⟨es, [], r', by simp, hp, ?_⟩
    cases r' <;> exact .done _

variable {allowed : Call → Prop}

theorem only_bind (h : p.run.Only allowed) (hf : ∀ a, (f a).run.Only allowed) :
    (p >>= f).run.Only allowed :=
  obeys_bind h (fun _ a _ => hf a) fun _ _ _ => trivial

theorem only_lift_bind {p : Program α} (h : p.Only allowed) (hf : ∀ a, (f a).run.Only allowed) :
    ((liftM p : Action α) >>= f).run.Only allowed :=
  obeys_lift_bind h fun _ a _ => hf a

theorem only_orFail {p : Program (Except Cause α)} (h : p.Only allowed) :
    (orFail fault p).run.Only allowed :=
  obeys_orFail h (fun _ _ _ => trivial) fun _ _ _ => trivial

/-! ## Kinds of faults -/

/-- However it goes, it ends in no fault of that kind. -/
def Avoids (bad : Fault → Prop) (p : Action α) : Prop :=
  ∀ es fault, Course p.run es (.error fault) → ¬ bad fault

namespace Avoids

variable {bad : Fault → Prop}

theorem bind (h : p.Avoids bad) (hf : ∀ a, (f a).Avoids bad) : (p >>= f).Avoids bad := by
  intro es fault hes
  rcases Action.course_bind.mp hes with ⟨_, after, a, -, -, hafter⟩ | ⟨fault', hfault, hp⟩
  · exact hf a after fault hafter
  cases hfault
  exact h es fault hp

theorem lift_bind {p : Program α} (hf : ∀ a, (f a).Avoids bad) :
    ((liftM p : Action α) >>= f).Avoids bad := by
  intro es fault hes
  obtain ⟨_, after, a, -, -, hafter⟩ := Action.course_lift_bind.mp hes
  exact hf a after fault hafter

theorem orFail {fault : Cause → Fault} {p : Program (Except Cause α)}
    (hfault : ∀ cause, ¬ bad (fault cause)) : (orFail fault p).Avoids bad := by
  intro es raised hes
  obtain ⟨r, -, hr⟩ := Action.course_orFail.mp hes
  cases r with
  | ok a => cases hr
  | error cause =>
    cases hr
    exact hfault cause

theorem pure (a : α) : (pure a : Action α).Avoids bad := by
  intro es fault hes
  obtain ⟨-, hr⟩ := Action.course_pure.mp hes
  cases hr

end Avoids

end Action

end Foundry
