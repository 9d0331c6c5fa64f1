import Foundry.Proofs.Machine.Groups
import Foundry.Proofs.Workspace.Lifecycle

/-!
# What requests owe

A request owes the removal of its workspace from the moment it has made the directory until
it removes it itself. Between making a directory and owing it, and between settling the debt
and removing the directory, a request makes no call at which it could be abandoned. So
wherever it is abandoned it owes exactly the workspace that it has.
-/

namespace Foundry

open Program

namespace Workspaces

/-! ## Debts of a past -/

variable {c : Call} {past : List Event}

/-- Where a request is and what it owes are as its dues say. -/
structure Tied (x : Dues) (past : List Event) : Prop where
  root_eq : (stay past).root? = x.root?
  debts_eq : debtsOf past = x.debts

theorem whereabouts_root {x : Stay} {r : c.Reply} (hmake : ∀ path, c ≠ .makeDir path)
    (hremove : ∀ path, c ≠ .removeTree path) : (whereabouts x c r).root? = x.root? := by
  rcases x with _ | ⟨root, stage⟩
  · cases c with
    | makeDir path => exact absurd rfl (hmake path)
    | _ => rfl
  · cases c with
    | removeTree path => exact absurd rfl (hremove path)
    | writeFile path bytes => cases stage <;> cases r <;> rfl
    | _ => cases stage <;> rfl

theorem Dues.debts_after {x : Dues} (hmay : x.may c) (r : c.Reply) :
    (x.after c r).debts = debtsAfter x.debts ⟨c, r⟩ := by
  cases x with
  | clear =>
    cases c with
    | makeDir => cases r <;> rfl
    | owe | settle | removeTree => exact hmay.elim
    | _ => rfl
  | made root =>
    cases c with
    | owe debt =>
      cases debt with
      | workspace =>
        cases hmay
        rfl
      | lock => exact hmay.elim
    | _ => exact hmay.elim
  | owed root artifacts =>
    cases c with
    | owe | makeDir | removeTree => exact hmay.elim
    | _ => rfl
  | settled root =>
    cases c with
    | removeTree => rfl
    | _ => exact hmay.elim

theorem Dues.root?_after {x : Dues} {y : Stay} (hroot : y.root? = x.root?) (hmay : x.may c)
    (r : c.Reply) : (whereabouts y c r).root? = (x.after c r).root? := by
  cases x with
  | clear =>
    obtain rfl := Stay.root?_eq_none.mp hroot
    cases c with
    | makeDir => cases r <;> rfl
    | owe | settle | removeTree => exact hmay.elim
    | _ => rfl
  | made root =>
    cases c with
    | owe debt =>
      cases debt with
      | workspace =>
        exact (whereabouts_root (fun _ => Call.noConfusion) fun _ => Call.noConfusion).trans hroot
      | lock => exact hmay.elim
    | _ => exact hmay.elim
  | owed root artifacts =>
    cases c with
    | owe | makeDir | removeTree => exact hmay.elim
    | _ =>
      exact (whereabouts_root (fun _ => Call.noConfusion) fun _ => Call.noConfusion).trans hroot
  | settled root =>
    obtain ⟨stage, rfl⟩ := Stay.root?_eq_some.mp hroot
    cases c with
    | removeTree => cases stage <;> rfl
    | _ => exact hmay.elim

theorem Tied.concat {x : Dues} (h : Tied x past) (hmay : x.may c) (r : c.Reply) :
    Tied (x.after c r) (past ++ [⟨c, r⟩]) := by
  constructor
  · rw [stay_concat]
    exact x.root?_after h.root_eq hmay r
  · rw [debtsOf_concat, h.debts_eq, x.debts_after hmay]

/-! ## Turns -/

variable {ι : Type} {b : Workspaces} {s s' : Scene ι fun _ => Unit}

/-- Every request keeps to the rules of owing, and owes what they say. -/
structure Indebted (s : Scene ι fun _ => Unit) : Prop where
  keeps : ∀ i, (s.tasks i).Keeps dueing .clear fun x _ => x = .clear
  tied : ∀ i, Tied (Activity.phase dueing .clear (s.tasks i).past) (s.tasks i).past

theorem indebted_opening (service : Service) (errands : ι → Errand) (m : Machine) :
    Indebted (opening service errands m) :=
  ⟨fun i => ((errands i).behaves_program service).snd (fun _ _ _ _ h => h)
    fun _ _ _ h => congrArg Prod.snd h, fun _ => ⟨rfl, rfl⟩⟩

variable [DecidableEq ι]

theorem Indebted.step (hs : Indebted s) (h : Turn b s s') : Indebted s' := by
  have hall (j : ι) : (s'.tasks j).Keeps dueing .clear (fun x _ => x = .clear) ∧
      Tied (Activity.phase dueing .clear (s'.tasks j).past) (s'.tasks j).past := by
    have hkeeps := hs.keeps j
    have htied := hs.tied j
    rcases h.task_cases j with heq | ⟨past, rest, hbefore, hafter⟩ |
      ⟨past, c, next, waiting, r, hbefore, hafter, hhear⟩
    · rw [heq]
      exact ⟨hkeeps, htied⟩
    · rw [hbefore] at hkeeps htied
      rw [hafter]
      exact ⟨hkeeps, htied⟩
    · rw [hbefore] at hkeeps htied
      obtain ⟨hmay, hnext⟩ := obeys_call.mp hkeeps
      rw [hafter, Activity.Keeps, Activity.phase_concat]
      exact ⟨hnext r hhear, htied.concat hmay r⟩
  exact ⟨fun j => (hall j).1, fun j => (hall j).2⟩

theorem Runs.indebted (h : Runs b s s') (hs : Indebted s) : Indebted s' := by
  induction h with
  | refl => exact hs
  | tail _ hlast ih => exact ih.step hlast

/-- The calls at which a request can be abandoned. Its own removal of its workspace is none. -/
def IsPause (c : Call) : Prop := c.pauses = true ∧ ∀ path, c ≠ .removeTree path

/-- What a request owes is what it has. -/
def OwesStay (past : List Event) : Prop :=
  ((stay past).root? = none ∧ debtsOf past = []) ∨
    ∃ root artifacts, (stay past).root? = some root ∧ debtsOf past = [.workspace root artifacts]

omit [DecidableEq ι] in
/-- Where a request can be abandoned, it owes the workspace that it has and nothing else. -/
theorem Indebted.owes (hs : Indebted s) {i : ι} {next : c.Reply → Program Unit} {waiting : Bool}
    (at_ : s.tasks i = ⟨past, .call c next, waiting⟩) (hc : IsPause c) : OwesStay past := by
  have hkeeps := hs.keeps i
  have htied := hs.tied i
  rw [at_] at hkeeps htied
  obtain ⟨hmay, -⟩ := obeys_call.mp hkeeps
  rw [OwesStay, htied.root_eq, htied.debts_eq]
  cases hphase : Activity.phase dueing .clear past with
  | clear => exact .inl ⟨rfl, rfl⟩
  | owed root artifacts => exact .inr ⟨root, artifacts, rfl, rfl⟩
  | made root =>
    rw [hphase] at hmay
    cases c with
    | owe debt => cases hc.1
    | _ => exact hmay.elim
  | settled root =>
    rw [hphase] at hmay
    cases c with
    | removeTree path => exact absurd rfl (hc.2 path)
    | _ => exact hmay.elim

end Workspaces

end Foundry
