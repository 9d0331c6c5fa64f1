import Foundry.Program
import Mathlib.Logic.Function.Basic

/-!
# Disciplines

A discipline says, phase by phase, which calls a task may make, which replies it has
to reckon with and which phase a reply leads to. A program obeys a discipline if it
makes no other calls as long as it gets no other replies. This is a property of the
program alone; what the surroundings make of it is said elsewhere. So is how many
calls a program makes at most.
-/

namespace Foundry

variable {fault : Cause → Fault}

/-- Rules for a task: what it may ask for, what it may hear, and where that leads. -/
structure Discipline (φ : Type) where
  may : φ → Call → Prop
  hears : φ → (c : Call) → c.Reply → Prop
  after : φ → (c : Call) → c.Reply → φ

/-- Two disciplines at once. -/
def Discipline.and {φ ψ : Type} (d : Discipline φ) (e : Discipline ψ) : Discipline (φ × ψ) where
  may x c := d.may x.1 c ∧ e.may x.2 c
  hears x c r := d.hears x.1 c r ∧ e.hears x.2 c r
  after x c r := (d.after x.1 c r, e.after x.2 c r)

namespace Program

variable {α β φ : Type} {d : Discipline φ} {x : φ}

/-- Every call is allowed in its phase, and the program ends only in the way that `ends` says. -/
def Obeys (d : Discipline φ) (ends : φ → α → Prop) (x : φ) : Program α → Prop
  | .done a => ends x a
  | .call c next => d.may x c ∧ ∀ r, d.hears x c r → Obeys d ends (d.after x c r) (next r)

variable {ends ends' : φ → α → Prop} {last : φ → β → Prop} {p : Program α}

theorem obeys_done {a : α} : (done a).Obeys d ends x ↔ ends x a := Iff.rfl

theorem obeys_call {c : Call} {next : c.Reply → Program α} :
    (call c next).Obeys d ends x ↔
      d.may x c ∧ ∀ r, d.hears x c r → (next r).Obeys d ends (d.after x c r) := Iff.rfl

-- Programs are large terms: nothing below may unfold one to see whether it obeys.
attribute [irreducible] Obeys

theorem obeys_mono (h : p.Obeys d ends x) (himp : ∀ y a, ends y a → ends' y a) :
    p.Obeys d ends' x := by
  induction p generalizing x with
  | done a =>
    rw [obeys_done] at h ⊢
    exact himp x a h
  | call c next ih =>
    rw [obeys_call] at h ⊢
    exact ⟨h.1, fun r hr => ih r (h.2 r hr)⟩

section

variable {ψ : Type} {e : Discipline ψ} {y : ψ} {both : φ × ψ → α → Prop}
  (h : p.Obeys (d.and e) both (x, y))
include h

/-- Who obeys two disciplines obeys the first, if the second hears what the first does. -/
theorem Obeys.fst (hhears : ∀ x y c r, d.hears x c r → e.hears y c r)
    (hends : ∀ x y a, both (x, y) a → ends x a) : p.Obeys d ends x := by
  induction p generalizing x y with
  | done a => exact obeys_done.mpr (hends x y a (obeys_done.mp h))
  | call c next ih =>
    obtain ⟨hmay, hnext⟩ := obeys_call.mp h
    exact obeys_call.mpr ⟨hmay.1, fun r hr => ih r (hnext r ⟨hr, hhears x y c r hr⟩)⟩

theorem Obeys.snd {ends : ψ → α → Prop} (hhears : ∀ x y c r, e.hears y c r → d.hears x c r)
    (hends : ∀ x y a, both (x, y) a → ends y a) : p.Obeys e ends y := by
  induction p generalizing x y with
  | done a => exact obeys_done.mpr (hends x y a (obeys_done.mp h))
  | call c next ih =>
    obtain ⟨hmay, hnext⟩ := obeys_call.mp h
    exact obeys_call.mpr ⟨hmay.2, fun r hr => ih r (hnext r ⟨hhears x y c r hr, hr⟩)⟩

end

theorem obeys_bind {f : α → Program β} (h : p.Obeys d ends x)
    (hf : ∀ y a, ends y a → (f a).Obeys d last y) : (p >>= f).Obeys d last x := by
  induction p generalizing x with
  | done a =>
    rw [obeys_done] at h
    exact hf x a h
  | call c next ih =>
    rw [obeys_call] at h
    exact obeys_call.mpr ⟨h.1, fun r hr => ih r (h.2 r hr)⟩

theorem obeys_ask {c : Call} {ends : φ → c.Reply → Prop} (hmay : d.may x c)
    (hends : ∀ r, d.hears x c r → ends (d.after x c r) r) : (ask c).Obeys d ends x :=
  obeys_call.mpr ⟨hmay, fun r hr => obeys_done.mpr (hends r hr)⟩

/-- After a call one is where its reply leads. -/
theorem obeys_ask_exact (c : Call) (hmay : d.may x c) :
    (ask c).Obeys d (fun y r => d.hears x c r ∧ y = d.after x c r) x :=
  obeys_ask hmay fun _ hr => ⟨hr, rfl⟩

end Program

namespace Action

variable {α β φ : Type} {d : Discipline φ} {x : φ} {f : α → Action β}
variable {mid : φ → Except Fault α → Prop} {ends : φ → Except Fault β → Prop}

theorem run_bind (p : Action α) (f : α → Action β) :
    (p >>= f).run = p.run >>= fun r => match r with
      | .ok a => (f a).run
      | .error e => .done (.error e) := by
  rw [ExceptT.run_bind]
  congr 1
  funext r
  cases r <;> rfl

/-- A step that can fail: a failure is the outcome of the whole. -/
theorem obeys_bind {p : Action α} (h : p.run.Obeys d mid x)
    (hok : ∀ y a, mid y (.ok a) → (f a).run.Obeys d ends y)
    (herr : ∀ y e, mid y (.error e) → ends y (.error e)) : (p >>= f).run.Obeys d ends x := by
  rw [run_bind]
  refine Program.obeys_bind h fun y r hr => ?_
  cases r with
  | ok a => exact hok y a hr
  | error e => exact Program.obeys_done.mpr (herr y e hr)

/-- A step that cannot fail. -/
theorem obeys_lift_bind {p : Program α} {mid : φ → α → Prop} (h : p.Obeys d mid x)
    (hf : ∀ y a, mid y a → (f a).run.Obeys d ends y) :
    ((liftM p : Action α) >>= f).run.Obeys d ends x := by
  have hrun : ((liftM p : Action α) >>= f).run = p >>= fun a => (f a).run :=
    ExceptT.run_bind_lift p f
  rw [hrun]
  exact Program.obeys_bind h hf

/-- A failure in its context is a failure of the operation. -/
theorem obeys_orFail {p : Program (Except Cause α)} {mid : φ → Except Cause α → Prop}
    {ends : φ → Except Fault α → Prop} (h : p.Obeys d mid x)
    (hok : ∀ y a, mid y (.ok a) → ends y (.ok a))
    (herr : ∀ y e, mid y (.error e) → ends y (.error (fault e))) :
    (orFail fault p).run.Obeys d ends x := by
  refine Program.obeys_bind h fun y r hr => ?_
  cases r with
  | ok a => exact Program.obeys_done.mpr (hok y a hr)
  | error e => exact Program.obeys_done.mpr (herr y e hr)

theorem obeys_orFail_bind {p : Program (Except Cause α)} {mid : φ → Except Cause α → Prop}
    (h : p.Obeys d mid x) (hok : ∀ y a, mid y (.ok a) → (f a).run.Obeys d ends y)
    (herr : ∀ y e, mid y (.error e) → ends y (.error (fault e))) :
    (orFail fault p >>= f).run.Obeys d ends x := by
  have hp : (orFail fault p).run.Obeys d (fun y r => (∀ a, r = .ok a → mid y (.ok a)) ∧
      ∀ e, r = .error e → ∃ c, e = fault c ∧ mid y (.error c)) x := by
    refine obeys_orFail h (fun y a ha => ⟨?_, ?_⟩) fun y c hc => ⟨?_, ?_⟩
    · rintro b ⟨⟩
      exact ha
    · rintro e ⟨⟩
    · rintro a ⟨⟩
    rintro e ⟨⟩
    exact ⟨c, rfl, hc⟩
  refine obeys_bind hp (fun y a ha => hok y a (ha.1 a rfl)) fun y e he => ?_
  obtain ⟨c, rfl, hc⟩ := he.2 e rfl
  exact herr y c hc

end Action

/-! ## Numbers of calls -/

namespace Program

variable {α β : Type} {n k : Nat} {c : Call} {next : c.Reply → Program α} {p : Program α}

/-- The program ends after at most so many calls, whatever the replies are. -/
def Within : Nat → Program α → Prop
  | _, .done _ => True
  | 0, .call _ _ => False
  | n + 1, .call _ next => ∀ r, Within n (next r)

theorem within_done (n : Nat) (a : α) : (done a).Within n := by
  cases n <;> trivial

theorem within_call : (call c next).Within (n + 1) ↔ ∀ r, (next r).Within n := Iff.rfl

theorem not_within_zero : ¬ (call c next).Within 0 := id

attribute [irreducible] Within

theorem Within.mono (h : p.Within n) (hk : n ≤ k) : p.Within k := by
  induction p generalizing n k with
  | done a => exact within_done k a
  | call c next ih =>
    cases n with
    | zero => exact absurd h not_within_zero
    | succ n =>
      obtain ⟨k, rfl⟩ : ∃ k', k = k' + 1 := ⟨k - 1, by omega⟩
      rw [within_call] at h ⊢
      intro r
      exact ih r (h r) (by omega)

theorem within_ask (c : Call) : (ask c).Within 1 := within_call.mpr fun r => within_done 0 r

theorem Within.bind {f : α → Program β} (h : p.Within n) (hf : ∀ a, (f a).Within k) :
    (p >>= f).Within (n + k) := by
  induction p generalizing n with
  | done a => exact (hf a).mono (by omega)
  | call c next ih =>
    cases n with
    | zero => exact absurd h not_within_zero
    | succ n =>
      rw [within_call] at h
      rw [bind_call, Nat.add_right_comm, within_call]
      intro r
      exact ih r (h r)

end Program

namespace Action

open Program

variable {α β : Type} {n k : Nat} {f : α → Action β}

theorem within_bind {p : Action α} (h : p.run.Within n) (hf : ∀ a, (f a).run.Within k) :
    (p >>= f).run.Within (n + k) := by
  rw [run_bind]
  refine h.bind fun r => ?_
  cases r with
  | ok a => exact hf a
  | error e => exact within_done k _

theorem within_lift_bind {p : Program α} (h : p.Within n) (hf : ∀ a, (f a).run.Within k) :
    ((liftM p : Action α) >>= f).run.Within (n + k) := by
  have hrun : ((liftM p : Action α) >>= f).run = p >>= fun a => (f a).run :=
    ExceptT.run_bind_lift p f
  rw [hrun]
  exact h.bind hf

theorem within_orFail {p : Program (Except Cause α)} (h : p.Within n) :
    (orFail fault p).run.Within n := by
  refine (h.bind (k := 0) fun r => ?_).mono (Nat.le_refl n)
  cases r with
  | ok a => exact within_done 0 _
  | error e => exact within_done 0 _

end Action

end Foundry
