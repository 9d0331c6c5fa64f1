import Foundry.Machine.Task
import Foundry.Proofs.Discipline
import Mathlib.Logic.Relation

/-!
# Tasks side by side

Any number of tasks share one machine and take turns in any order. A turn is one
call: the machine answers it at once, or the task waits for it and others go on
meanwhile. What a waited-for call brings, and what happens on the machine beside the
tasks, is left to rules, so one semantics serves every assumption about them.

## Implementation notes

Each task keeps the events of its past. Properties of a task's future are stated by
a discipline whose phase is read off that past.
-/

/-! ## Results -/

namespace Except

variable {ε α : Type} {r : Except ε α}

theorem exists_eq_ok_of_isOk (h : r.isOk = true) : ∃ a, r = .ok a := by
  cases r with
  | error e => cases h
  | ok a => exact ⟨a, rfl⟩

theorem eq_ok_of_toOption {a : α} (h : r.toOption = some a) : r = .ok a := by
  cases r with
  | error e => cases h
  | ok b => rw [Option.some.inj h]

end Except

namespace Foundry

/-- A call with the reply it got. -/
structure Event where
  call : Call
  reply : call.Reply

/-- Calls that are not answered at once. -/
def Call.waits : Call → Bool
  | .lock .. | .run .. | .awaitJob .. | .awaitInterrupt => true
  | _ => false

theorem Machine.answer?_eq_none_iff (m : Machine) (c : Call) :
    m.answer? c = none ↔ c.waits = true := by
  cases c with
  | openLock path => simp only [Machine.answer?, Call.waits]; split <;> simp
  | markLock handle bytes => simp only [Machine.answer?, Call.waits]; split <;> simp
  | _ => simp [Machine.answer?, Call.waits]

/-- A task under way. -/
structure Activity (α : Type) where
  past : List Event := []
  rest : Program α
  /-- Whether the next call has been made and its reply is outstanding. -/
  waiting : Bool := false

namespace Activity

variable {α φ : Type}

def result? (a : Activity α) : Option α :=
  match a.rest with
  | .done value => some value
  | .call _ _ => none

theorem rest_of_result? {a : Activity α} {value : α} (h : a.result? = some value) :
    a.rest = .done value := by
  unfold result? at h
  split at h
  · rename_i hrest
    cases h
    exact hrest
  · cases h

/-- What was returned, if it is no fault. -/
def value? (a : Activity (Except Fault α)) : Option α :=
  match a.rest with
  | .done (.ok value) => some value
  | _ => none

theorem result?_of_value? {a : Activity (Except Fault α)} {value : α} (h : a.value? = some value) :
    a.result? = some (.ok value) := by
  rcases a with ⟨past, rest, waiting⟩
  unfold value? at h
  dsimp only at h
  split at h
  · cases h
    rfl
  · cases h

/-- A command of the task is under way. -/
def IsRunning (a : Activity α) : Prop :=
  a.waiting = true ∧ ∃ command timeout next, a.rest = .call (.run command timeout) next

/-- The command that the task waits for. -/
def command? : Activity α → Option Command
  | ⟨_, .call (.run command _) _, true⟩ => some command
  | _ => none

theorem isRunning_of_command? {a : Activity α} (h : a.command?.isSome = true) : a.IsRunning := by
  unfold command? at h
  split at h
  · exact ⟨rfl, _, _, _, rfl⟩
  · cases h

/-- The phase that a past leads to. -/
def phase (d : Discipline φ) (x : φ) (past : List Event) : φ :=
  past.foldl (fun y e => d.after y e.call e.reply) x

@[simp] theorem phase_concat (d : Discipline φ) (x : φ) (past : List Event) (e : Event) :
    phase d x (past ++ [e]) = d.after (phase d x past) e.call e.reply := by
  simp [phase]

/-- The task keeps to a discipline from the phase that it has reached. -/
def Keeps (d : Discipline φ) (x : φ) (ends : φ → α → Prop) (a : Activity α) : Prop :=
  a.rest.Obeys d ends (phase d x a.past)

/-- How often the task has got on: by making a call, and by its reply. -/
def turns (a : Activity α) : Nat := 2 * a.past.length + a.waiting.toNat

theorem turns_lt_reply (past : List Event) (e : Event) (rest rest' : Program α) (w : Bool) :
    turns ⟨past, rest, w⟩ < turns ⟨past ++ [e], rest', false⟩ := by
  have hw := w.toNat_le
  simp only [turns, List.length_append, List.length_singleton]
  omega

/-- Calls made and calls to be made are no more than so many. -/
def IsWithin (n : Nat) (a : Activity α) : Prop := ∃ k, a.rest.Within k ∧ a.past.length + k ≤ n

end Activity

/-- A machine and the tasks on it. -/
structure Scene (ι : Type) (α : ι → Type) extends machine : Machine where
  tasks : (i : ι) → Activity (α i)

/-- What can happen: which prompt answers, which late replies, and what besides. -/
structure Rules (ι : Type) (α : ι → Type) where
  prompt : ι → Machine → (c : Call) → c.Reply → Machine → Prop
  late : ι → Machine → (c : Call) → c.Reply → Machine → Prop
  beside : Scene ι α → Machine → Prop

namespace Machine

/-- What making a call leaves behind before its reply is there: commands are counted. -/
def noting (m : Machine) : Call → Machine
  | .run command timeout => m.addCall command timeout
  | _ => m

/-- A machine with nothing on it. -/
def bare : Machine :=
  { kernel := {}
    runner := .processes
    job := .done (.ok true)
    launch := fun _ _ => .error .notFound }

@[simp] theorem noting_kernel (m : Machine) (c : Call) : (m.noting c).kernel = m.kernel := by
  cases c <;> rfl

theorem changing_cases {m m' : Machine} {f : Files → Place → Except Cause Files}
    {r : Except Cause Unit} (h : m.changing f = (m', r)) :
    (∃ files, f m.files m.cwd = .ok files ∧ m' = m.withFiles files ∧ r = .ok ()) ∨
      ∃ e, f m.files m.cwd = .error e ∧ m' = m ∧ r = .error e := by
  unfold changing at h
  split at h
  · rename_i files hfiles
    cases h
    exact .inl ⟨files, hfiles, rfl, rfl⟩
  · rename_i e herror
    cases h
    exact .inr ⟨e, herror, rfl, rfl⟩

end Machine

namespace Scene

variable {ι : Type} {α : ι → Type} [DecidableEq ι] {i : ι}

/-- Give one task another state. -/
def setTask (s : Scene ι α) (m : Machine) (i : ι) (a : Activity (α i)) : Scene ι α :=
  ⟨m, Function.update s.tasks i a⟩

@[simp] theorem setTask_machine (s : Scene ι α) (m : Machine) (i : ι) (a : Activity (α i)) :
    (s.setTask m i a).machine = m := rfl

@[simp] theorem setTask_self (s : Scene ι α) (m : Machine) (i : ι) (a : Activity (α i)) :
    (s.setTask m i a).tasks i = a := by
  simp [setTask]

@[simp] theorem setTask_other (s : Scene ι α) (m : Machine) {j : ι} (a : Activity (α i))
    (h : j ≠ i) : (s.setTask m i a).tasks j = s.tasks j := by
  simp [setTask, h]

/-- One turn of one task, or something that happens beside the tasks. -/
inductive Step (rules : Rules ι α) : Scene ι α → Scene ι α → Prop
  | call {s : Scene ι α} {i : ι} {past : List Event} {c : Call} {next : c.Reply → Program (α i)}
      {r : c.Reply} {m : Machine} (at_ : s.tasks i = ⟨past, .call c next, false⟩)
      (answer : s.machine.answer? c = some (m, r)) (allowed : rules.prompt i s.machine c r m) :
      Step rules s (s.setTask m i ⟨past ++ [⟨c, r⟩], next r, false⟩)
  | wait {s : Scene ι α} {i : ι} {past : List Event} {c : Call} {next : c.Reply → Program (α i)}
      (at_ : s.tasks i = ⟨past, .call c next, false⟩) (waits : c.waits = true) :
      Step rules s (s.setTask (s.machine.noting c) i ⟨past, .call c next, true⟩)
  | reply {s : Scene ι α} {i : ι} {past : List Event} {c : Call} {next : c.Reply → Program (α i)}
      {r : c.Reply} {m : Machine} (at_ : s.tasks i = ⟨past, .call c next, true⟩)
      (waits : c.waits = true) (allowed : rules.late i s.machine c r m) :
      Step rules s (s.setTask m i ⟨past ++ [⟨c, r⟩], next r, false⟩)
  | beside {s : Scene ι α} {m : Machine} (allowed : rules.beside s m) :
      Step rules s ⟨m, s.tasks⟩

/-- What can come after any number of turns. -/
def Runs (rules : Rules ι α) : Scene ι α → Scene ι α → Prop := Relation.ReflTransGen (Step rules)

variable {rules : Rules ι α} {s s' : Scene ι α} {holds : (j : ι) → Activity (α j) → Prop} {n : Nat}

theorem Runs.invariant {inv : Scene ι α → Prop}
    (h : Runs rules s s') (hs : inv s) (hstep : ∀ a b, Step rules a b → inv a → inv b) :
    inv s' := by
  induction h with
  | refl => exact hs
  | tail _ hlast ih => exact hstep _ _ hlast ih

theorem forall_setTask {m : Machine} {a : Activity (α i)} (hself : holds i a)
    (hother : ∀ j, j ≠ i → holds j (s.tasks j)) (j : ι) : holds j ((s.setTask m i a).tasks j) := by
  by_cases hj : j = i
  · subst hj
    rwa [setTask_self]
  rw [setTask_other _ _ _ hj]
  exact hother j hj

/-- What holds of every task after a turn: one task may have had its next call answered, at once or
after waiting, or have started to wait, and the others are as they were. -/
theorem Step.forall_tasks (h : Step rules s s')
    (hreply : ∀ {i past c} {next : c.Reply → Program (α i)} {r w},
    s.tasks i = ⟨past, .call c next, w⟩ →
    s.machine.answer? c = some (s'.machine, r) ∧ rules.prompt i s.machine c r s'.machine ∨
    c.waits = true ∧ rules.late i s.machine c r s'.machine →
    holds i ⟨past ++ [⟨c, r⟩], next r, false⟩)
    (hwait : ∀ {i past c} {next : c.Reply → Program (α i)},
    s.tasks i = ⟨past, .call c next, false⟩ →
    holds i ⟨past, .call c next, true⟩) (hsame : ∀ j, holds j (s.tasks j)) (j : ι) :
    holds j (s'.tasks j) := by
  cases h with
  | call at_ answer allowed =>
    exact forall_setTask (hreply at_ (.inl ⟨answer, allowed⟩)) (fun j _ => hsame j) j
  | wait at_ waits => exact forall_setTask (hwait at_) (fun j _ => hsame j) j
  | reply at_ waits allowed =>
    exact forall_setTask (hreply at_ (.inr ⟨waits, allowed⟩)) (fun j _ => hsame j) j
  | beside allowed => exact hsame j

/-- A turn keeps every task to its discipline, if it brings only replies that the discipline
reckons with. -/
theorem Step.keeps {φ : Type} {d : ι → Discipline φ} {x : ι → φ} {ends : (i : ι) → φ → α i → Prop}
    (h : Step rules s s')
    (hk : ∀ i, (s.tasks i).Keeps (d i) (x i) (ends i))
    (hprompt : ∀ i y c r m, s.machine.answer? c = some (m, r) → rules.prompt i s.machine c r m →
    (d i).may y c → (d i).hears y c r)
    (hlate : ∀ i y c r m, c.waits = true → rules.late i s.machine c r m → (d i).may y c →
    (d i).hears y c r) : ∀ j, (s'.tasks j).Keeps (d j) (x j) (ends j) := by
  refine h.forall_tasks (fun {i past c next r w} at_ hallowed => ?_) (fun {i past c next} at_ => ?_)
    hk
  · have ht := hk i
    rw [at_, Activity.Keeps, Program.obeys_call] at ht
    simp only [Activity.Keeps, Activity.phase_concat]
    apply ht.2 r
    rcases hallowed with ⟨answer, allowed⟩ | ⟨waits, allowed⟩
    · exact hprompt i _ c r _ answer allowed ht.1
    · exact hlate i _ c r _ waits allowed ht.1
  · have ht := hk i
    rwa [at_] at ht

/-- A turn adds at most one event to the past of a task: its next call, answered at once or after
waiting. -/
theorem Step.past_cases (h : Step rules s s') (j : ι) :
    (s'.tasks j).past = (s.tasks j).past ∨
    ∃ (c : Call) (r : c.Reply), (s'.tasks j).past = (s.tasks j).past ++ [⟨c, r⟩] ∧
    (s.machine.answer? c = some (s'.machine, r) ∧ rules.prompt j s.machine c r s'.machine ∨
    c.waits = true ∧ rules.late j s.machine c r s'.machine) := by
  refine @Step.forall_tasks _ _ _ _ _ _ (fun j a => a.past = (s.tasks j).past ∨
    ∃ (c : Call) (r : c.Reply), a.past = (s.tasks j).past ++ [(⟨c, r⟩ : Event)] ∧
      (s.machine.answer? c = some (s'.machine, r) ∧ rules.prompt j s.machine c r s'.machine ∨
        c.waits = true ∧ rules.late j s.machine c r s'.machine)) h ?_ ?_ (fun _ => .inl rfl) j
  · intro i past c next r w at_ hallowed
    exact .inr ⟨c, r, by rw [at_], hallowed⟩
  intro i past c next at_
  exact .inl (by rw [at_])

/-- A turn under some rules is one under others, if what has come of it is allowed by them. -/
theorem Step.imp {rules' : Rules ι α} (h : Step rules s s')
    (hprompt : ∀ i c r, (⟨c, r⟩ : Event) ∈ (s'.tasks i).past →
    rules.prompt i s.machine c r s'.machine → rules'.prompt i s.machine c r s'.machine)
    (hlate : ∀ i c r, (⟨c, r⟩ : Event) ∈ (s'.tasks i).past → rules.late i s.machine c r s'.machine →
    rules'.late i s.machine c r s'.machine)
    (hbeside : rules.beside s s'.machine → rules'.beside s s'.machine) : Step rules' s s' := by
  cases h with
  | call at_ answer allowed => exact .call at_ answer (hprompt _ _ _ (by simp) allowed)
  | wait at_ waits => exact .wait at_ waits
  | reply at_ waits allowed => exact .reply at_ waits (hlate _ _ _ (by simp) allowed)
  | beside allowed => exact .beside (hbeside allowed)

/-- A turn is one of the calls that a task makes at most. -/
theorem Step.isWithin (h : Step rules s s') (hn : ∀ i, (s.tasks i).IsWithin n) (j : ι) :
    (s'.tasks j).IsWithin n := by
  refine h.forall_tasks (fun {i past c next r w} at_ _ => ?_) (fun {i past c next} at_ => ?_) hn j
  · obtain ⟨k, hk, hle⟩ := hn i
    rw [at_] at hk hle
    cases k with
    | zero => exact absurd hk Program.not_within_zero
    | succ k =>
      refine ⟨k, Program.within_call.mp hk r, ?_⟩
      simp only [List.length_append, List.length_singleton] at hle ⊢
      omega
  · have ht := hn i
    rwa [at_] at ht

theorem Runs.isWithin (h : Runs rules s s') (hn : ∀ i, (s.tasks i).IsWithin n) (j : ι) :
    (s'.tasks j).IsWithin n := by
  induction h generalizing j with
  | refl => exact hn j
  | tail _ hlast ih => exact hlast.isWithin ih j

/-! ## Playing a given order of turns -/

/-- The next turn of one task, if it is allowed; `late` gives the replies that are waited for. -/
def turn (allows : Machine → Call → Bool)
    (late : ι → Machine → (c : Call) → Option (Machine × c.Reply)) (s : Scene ι α) (i : ι) :
    Option (Scene ι α) :=
  match s.tasks i with
  | ⟨_, .done _, _⟩ => none
  | ⟨past, .call c next, false⟩ =>
    if c.waits then some (s.setTask (s.machine.noting c) i ⟨past, .call c next, true⟩)
    else if allows s.machine c then
      match s.machine.answer? c with
      | some (m, r) => some (s.setTask m i ⟨past ++ [⟨c, r⟩], next r, false⟩)
      | none => none
    else none
  | ⟨past, .call c next, true⟩ =>
    if c.waits then
      match late i s.machine c with
      | some (m, r) => some (s.setTask m i ⟨past ++ [⟨c, r⟩], next r, false⟩)
      | none => none
    else none

/-- Turns of the given tasks, one after another. -/
def play (allows : Machine → Call → Bool)
    (late : ι → Machine → (c : Call) → Option (Machine × c.Reply)) (s : Scene ι α) :
    List ι → Option (Scene ι α)
  | [] => some s
  | i :: rest =>
    match s.turn allows late i with
    | some s => s.play allows late rest
    | none => none

variable {allows : Machine → Call → Bool} {late : ι → Machine → (c : Call) →
  Option (Machine × c.Reply)}

theorem step_of_turn (hprompt : ∀ i m c r m', allows m c = true → m.answer? c = some (m', r) →
    rules.prompt i m c r m')
    (hlate : ∀ i m c r m', late i m c = some (m', r) → rules.late i m c r m')
    (h : s.turn allows late i = some s') : Step rules s s' := by
  unfold turn at h
  split at h
  · cases h
  · rename_i past c next at_
    split at h
    · rename_i hw
      cases h
      exact .wait at_ hw
    · split at h
      · rename_i ha
        split at h
        · rename_i m r hr
          cases h
          exact .call at_ hr (hprompt i _ c r m ha hr)
        · cases h
      · cases h
  · rename_i past c next at_
    split at h
    · rename_i hw
      split at h
      · rename_i m r hr
        cases h
        exact .reply at_ hw (hlate i _ c r m hr)
      · cases h
    · cases h

/-- What is played is one of the things that can happen. -/
theorem runs_of_play (hprompt : ∀ i m c r m', allows m c = true → m.answer? c = some (m', r) →
    rules.prompt i m c r m')
    (hlate : ∀ i m c r m', late i m c = some (m', r) → rules.late i m c r m') {order : List ι}
    (h : s.play allows late order = some s') : Runs rules s s' := by
  induction order generalizing s with
  | nil =>
    cases h
    exact Relation.ReflTransGen.refl
  | cons i rest ih =>
    unfold play at h
    split at h
    · rename_i s₁ ht
      exact Relation.ReflTransGen.head (step_of_turn hprompt hlate ht) (ih h)
    · cases h

end Scene

end Foundry
