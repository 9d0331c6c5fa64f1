import Foundry.Proofs.Machine.Unread

/-!
# Processes that look away

A process that looks away from free files does the same whatever is in them. So the
processes of two machines that differ in such files alone take the same steps, and the
machines stay as alike as they were. Where no file is free every process looks away.
-/

namespace Foundry

open List

variable {free : Nat → Bool}

/-! ## Steps of processes -/

namespace Kernel

/-- Kernels that differ in free files alone, which nobody has open. -/
inductive SameBut (free : Nat → Bool) (κ : Kernel) : Kernel → Prop
  | intro {fs : Files} (unopened : κ.Unopened free) (files : κ.files.Grown free fs) :
      SameBut free κ (κ.withFiles fs)

theorem sameBut_none {κ κ' : Kernel} : κ.SameBut (fun _ => false) κ' ↔ κ' = κ := by
  constructor
  · rintro ⟨-, hfiles⟩
    rw [hfiles.eq_of_none]
    rfl
  · rintro rfl
    exact .intro (fun _ _ _ _ _ => rfl) (Files.inert_none _).grown

end Kernel

/-- Whatever is in free files, the process does the same. -/
inductive Process.Overlooks (free : Nat → Bool) : Process → Prop
  | exit (code : Nat) : Overlooks free (.exit code)
  | act {step : Nat → Kernel → Kernel × Process}
      (same : ∀ pid κ κ', κ.SameBut free κ' →
        (step pid κ).1.SameBut free (step pid κ').1 ∧ (step pid κ').2 = (step pid κ).2)
      (rest : ∀ pid κ, Overlooks free (step pid κ).2) : Overlooks free (.act step)
  | await {step : Nat → Kernel → Option (Kernel × Process)}
      (same : ∀ pid κ κ', κ.SameBut free κ' →
        Option.Rel (fun out out' => out.1.SameBut free out'.1 ∧ out'.2 = out.2)
          (step pid κ) (step pid κ'))
      (rest : ∀ pid κ out, step pid κ = some out → Overlooks free out.2) :
      Overlooks free (.await step)
  | sleep (nanos : Nat) {next : Process} (rest : Overlooks free next) :
      Overlooks free (.sleep nanos next)
  | fork (holds : List Nat) {child : Process} {next : Nat → Process}
      (both : Overlooks free child) (rest : ∀ pid, Overlooks free (next pid)) :
      Overlooks free (.fork holds child next)

/-- Where nothing is free there is nothing to look away from. -/
theorem Process.overlooks_none (p : Process) : p.Overlooks fun _ => false := by
  refine @Process.rec (fun p => p.Overlooks fun _ => false)
    (fun out => out.2.Overlooks fun _ => false)
    (fun out? => ∀ out, out? = some out → out.2.Overlooks fun _ => false)
    ?_ ?_ ?_ ?_ ?_ ?_ ?_ ?_ p
  · exact .exit
  · intro step ih
    refine .act (fun pid κ κ' h => ?_) ih
    obtain rfl := Kernel.sameBut_none.mp h
    exact ⟨Kernel.sameBut_none.mpr rfl, rfl⟩
  · intro step ih
    refine .await (fun pid κ κ' h => ?_) ih
    obtain rfl := Kernel.sameBut_none.mp h
    cases step pid κ' with
    | none => exact .none
    | some out => exact .some ⟨Kernel.sameBut_none.mpr rfl, rfl⟩
  · exact fun nanos _ rest => .sleep nanos rest
  · exact fun holds _ _ both rest => .fork holds both rest
  · exact fun _ _ rest => rest
  · exact fun _ h => nomatch h
  rintro out ih _ ⟨⟩
  exact ih

namespace Machine

variable {name : String} {m m' : Machine}

namespace SameBut

variable (h : m.SameBut free name m')
include h

theorem kernel : m.kernel.SameBut free m'.kernel := by
  cases h with
  | intro ignores files => exact .intro ignores.unopened files

theorem setKernel {κ κ' : Kernel} (hκ : κ.SameBut free κ') :
    ({ m with kernel := κ } : Machine).SameBut free name { m' with kernel := κ' } := by
  cases h with
  | intro ignores _ samples commands =>
    cases hκ with
    | intro unopened files =>
      exact .intro ⟨unopened, ignores.launch, ignores.jobs⟩ files samples commands

theorem running_eq : m'.running = m.running := by
  cases h with
  | intro => rfl

/-- A process that looks away takes the same step on both machines. -/
theorem stepProcess {r : Running} (hr : r.process.Overlooks free) :
    Option.Rel (Agree free name) (m.stepProcess r) (m'.stepProcess r) := by
  have htick := (h.tick processCost).kernel
  obtain ⟨pid, process, until_⟩ := r
  unfold Machine.stepProcess
  dsimp only at htick ⊢
  generalize m.kernel.tick processCost = κ at htick
  generalize m'.kernel.tick processCost = κ' at htick
  have hrunning : κ'.isRunning pid = κ.isRunning pid := by
    cases htick with
    | intro => rfl
  rw [hrunning]
  split
  · exact .some ⟨rfl, h⟩
  cases hr with
  | exit code =>
    cases htick with
    | intro unopened files =>
      exact .some ⟨rfl, h.setKernel (.intro unopened files)⟩
  | act same rest =>
    obtain ⟨hκ, hnext⟩ := same pid κ κ' htick
    dsimp only
    rw [hnext]
    exact .some ⟨rfl, h.setKernel hκ⟩
  | @await step same rest =>
    have hout := same pid κ κ' htick
    dsimp only
    generalize step pid κ = out? at hout
    generalize step pid κ' = out?' at hout
    cases hout with
    | none => exact .none
    | some hout =>
      dsimp only
      rw [hout.2]
      exact .some ⟨rfl, h.setKernel hout.1⟩
  | sleep nanos rest =>
    have hnow : κ'.now = κ.now := by
      cases htick with
      | intro => rfl
    rw [hnow]
    cases until_ with
    | none => exact .some ⟨rfl, h.setKernel htick⟩
    | some until_ =>
      dsimp only
      split
      · exact .some ⟨rfl, h.setKernel htick⟩
      · exact .none
  | fork holds both rest =>
    cases htick with
    | intro unopened files =>
      exact .some ⟨rfl, h.setKernel (.intro unopened files)⟩

/-- Processes that look away take the same steps on both machines. -/
theorem stepProcesses {running : List Running}
    (hrunning : ∀ r ∈ running, r.process.Overlooks free) :
    Agree free name (m.stepProcesses running) (m'.stepProcesses running) := by
  induction running generalizing m m' with
  | nil => exact ⟨rfl, h⟩
  | cons r rest ih =>
    obtain ⟨hr, hrest⟩ := forall_mem_cons.mp hrunning
    have hstep := h.stepProcess hr
    simp only [Machine.stepProcesses]
    generalize m.stepProcess r = next at hstep
    generalize m'.stepProcess r = next' at hstep
    cases hstep with
    | none =>
      obtain ⟨hsame, hagree⟩ := ih h hrest
      exact ⟨by simp only [hsame], hagree⟩
    | some hmine =>
      obtain ⟨hsame, hagree⟩ := ih hmine.2 hrest
      exact ⟨by simp only [hmine.1, hsame], hagree⟩

end SameBut

/-- Every process takes a step. -/
def turnProcesses (m : Machine) : Machine :=
  let (m', running, _) := ({ m with running := [] } : Machine).stepProcesses m.running
  { m' with running := running ++ m'.running }

theorem SameBut.turnProcesses (h : m.SameBut free name m')
    (hlook : ∀ r ∈ m.running, r.process.Overlooks free) :
    m.turnProcesses.SameBut free name m'.turnProcesses := by
  have hnone : ({ m with running := [] } : Machine).SameBut free name
      { m' with running := [] } := by
    cases h with
    | intro ignores files samples commands =>
      exact .intro ⟨ignores.unopened, ignores.launch, ignores.jobs⟩ files samples commands
  obtain ⟨hstepped, hstep⟩ := hnone.stepProcesses hlook
  unfold Machine.turnProcesses
  rw [h.running_eq]
  generalize ({ m with running := [] } : Machine).stepProcesses m.running = x at hstepped hstep ⊢
  generalize ({ m' with running := [] } : Machine).stepProcesses m.running = y at hstepped hstep ⊢
  obtain ⟨n, left, progress⟩ := x
  obtain ⟨n', left', progress'⟩ := y
  cases hstepped
  cases hstep with
  | intro ignores files samples commands =>
    exact .intro ⟨ignores.unopened, ignores.launch, ignores.jobs⟩ files samples commands

end Machine

end Foundry
