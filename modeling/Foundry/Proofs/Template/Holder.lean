import Foundry.Proofs.Cache.Lookup

/-!
# Who holds the lock

The text of the lock file is a number of 32 bits, and the system takes that number with a
sign. So a template counts as locked for a number that a process has, and for three kinds of
numbers that no process has: zero, the greatest one, and those that stand for a group.
-/

namespace Foundry

open Program

namespace Kernel

/-- Some process has this number; the first one always runs. -/
def HasProcess (k : Kernel) (pid : Nat) : Prop := pid = 1 ∨ (k.processes.lookup pid).isSome = true

def HasGroup (k : Kernel) (group : Nat) : Prop := ∃ p ∈ k.processes, p.2.group = group

/-- What a number of 32 bits addresses once it is taken with a sign. -/
inductive Addresses (k : Kernel) (n : Nat) : Prop
  | process (hpos : 0 < n) (hsmall : n < 0x80000000) (h : k.HasProcess n)
  | ownGroup (h : n = 0)
  | everyone (h : n = 0xFFFFFFFF)
  | group (group : Nat) (hone : 1 < group) (hsmall : group ≤ 0x80000000)
      (hn : n + group = 0x100000000) (h : k.HasGroup group)

theorem canSignal_iff {k : Kernel} {n : Nat} (hn : n < 0x100000000) :
    k.canSignal (Template.signedPid n) = true ↔ k.Addresses n := by
  have hgroups (pid : Int) : (k.processes.any fun p => (p.2.group : Int) = -pid) = true ↔
      ∃ group : Nat, (group : Int) = -pid ∧ k.HasGroup group := by
    simp only [List.any_eq_true, decide_eq_true_eq, HasGroup]
    exact ⟨fun ⟨p, hp, hgroup⟩ => ⟨_, hgroup, p, hp, rfl⟩,
      fun ⟨_, hgroup, p, hp, heq⟩ => ⟨p, hp, heq ▸ hgroup⟩⟩
  unfold canSignal Template.signedPid
  by_cases hsmall : n < 0x80000000
  · rw [if_pos hsmall]
    by_cases hpos : 0 < n
    · rw [if_pos (by omega), decide_eq_true_eq, Int.toNat_natCast, Nat.cast_eq_one]
      refine ⟨.process hpos hsmall, fun h => ?_⟩
      cases h with
      | process _ _ h => exact h
      | ownGroup h | everyone h => omega
      | group group _ _ hsum => omega
    · rw [if_neg (by omega), if_pos (by omega)]
      exact iff_of_true rfl (.ownGroup (by omega))
  · rw [if_neg hsmall, if_neg (by omega)]
    by_cases hlast : n = 0xFFFFFFFF
    · rw [if_pos (by omega)]
      exact iff_of_true rfl (.everyone hlast)
    rw [if_neg (by omega), hgroups]
    constructor
    · rintro ⟨group, hgroup, h⟩
      exact .group group (by omega) (by omega) (by omega) h
    intro h
    cases h with
    | process _ h | ownGroup h | everyone h => omega
    | group group _ _ hsum h => exact ⟨group, by omega, h⟩

end Kernel

namespace Template

/-- The decimal digits of a number, perhaps after a plus sign. -/
def IsNumeral (cs : List Char) (n : Nat) : Prop :=
  ∃ digits, digits ≠ [] ∧ (∀ c ∈ digits, c.isDigit = true) ∧ (cs = digits ∨ cs = '+' :: digits) ∧
    Nat.ofDigitChars 10 digits 0 = n

theorem holder?_eq_some_iff {text : String} {n : Nat} :
    holder? text = some n ↔ IsNumeral (Text.trim text).toList n ∧ n < 0x100000000 := by
  unfold holder?
  generalize (Text.trim text).toList = cs
  have hdigits (digits : List Char) : (if digits.isEmpty || !digits.all Char.isDigit then none
      else if Nat.ofDigitChars 10 digits 0 < 0x100000000 then some (Nat.ofDigitChars 10 digits 0)
        else none) = some n ↔
      (digits ≠ [] ∧ (∀ c ∈ digits, c.isDigit = true) ∧ Nat.ofDigitChars 10 digits 0 = n) ∧
        n < 0x100000000 := by
    simp only [Option.ite_none_left_eq_some, Option.ite_none_right_eq_some, Bool.or_eq_true,
      List.isEmpty_iff, Bool.not_eq_true', not_or, Bool.not_eq_false, List.all_eq_true,
      Option.some.injEq]
    constructor
    · rintro ⟨⟨hne, hall⟩, hlt, rfl⟩
      exact ⟨⟨hne, hall, rfl⟩, hlt⟩
    rintro ⟨⟨hne, hall, rfl⟩, hlt⟩
    exact ⟨⟨hne, hall⟩, hlt, rfl⟩
  refine (hdigits _).trans (and_congr_left fun _ => ?_)
  split
  · rename_i rest
    refine ⟨fun ⟨hne, hall, hn⟩ => ⟨rest, hne, hall, .inr rfl, hn⟩, ?_⟩
    rintro ⟨digits, hne, hall, rfl | heq, hn⟩
    · cases hall '+' List.mem_cons_self
    cases heq
    exact ⟨hne, hall, hn⟩
  · rename_i hplus
    refine ⟨fun ⟨hne, hall, hn⟩ => ⟨cs, hne, hall, .inl rfl, hn⟩, ?_⟩
    rintro ⟨digits, hne, hall, rfl | heq, hn⟩
    · exact ⟨hne, hall, hn⟩
    · exact absurd heq (hplus digits)

/-- The lock counts as held if its text is a number of 32 bits that addresses something. -/
def IsHeld (t : Template) (m : Machine) : Prop :=
  ∃ text n, m.textAt t.lockPath = .ok text ∧ IsNumeral (Text.trim text).toList n ∧ n < 0x100000000 ∧
    m.kernel.Addresses n

theorem runNow_isHeld (t : Template) (m : Machine) :
    ∃ held, m.runNow t.isHeld = (m, some held) ∧ (held = true ↔ t.IsHeld m) := by
  rw [isHeld, Machine.runNow_bind_of_eq (m.runNow_readTextFile _)]
  cases htext : m.textAt t.lockPath with
  | error e => exact ⟨false, rfl, by simp [IsHeld, htext]⟩
  | ok text =>
    cases hholder : holder? text with
    | none =>
      refine ⟨false, by simp only [hholder]; rfl, by simp, ?_⟩
      rintro ⟨text', n, heq, hnumeral, hn, -⟩
      cases htext.symm.trans heq
      cases hholder.symm.trans (holder?_eq_some_iff.mpr ⟨hnumeral, hn⟩)
    | some n =>
      obtain ⟨hnumeral, hn⟩ := holder?_eq_some_iff.mp hholder
      refine ⟨m.kernel.canSignal (signedPid n), by simp only [hholder]; rfl, ?_⟩
      rw [Kernel.canSignal_iff hn]
      refine ⟨fun h => ⟨text, n, htext, hnumeral, hn, h⟩, ?_⟩
      rintro ⟨text', n', heq, hnumeral', hn', h⟩
      cases htext.symm.trans heq
      cases hholder.symm.trans (holder?_eq_some_iff.mpr ⟨hnumeral', hn'⟩)
      exact h

/-- Without a marker a template is locked or missing, and it is locked if and only if the number in
its lock file is that of a process, or zero, or the greatest of 32 bits, or less than `2^32` by the
number of a group. -/
theorem locked_iff_addressed (t : Template) (m : Machine)
    (hmarker : m.files.isFile m.cwd t.marker = false) :
    ∃ state, m.runNow t.state = (m, some state) ∧ (state = .locked ∨ state = .missing) ∧
      (state = .locked ↔ t.IsHeld m) := by
  have hready : m.runNow t.isReady = (m, some false) := by
    rw [← hmarker]
    rfl
  obtain ⟨held, hrun, hheld⟩ := t.runNow_isHeld m
  rw [state, Machine.runNow_bind_of_eq hready]
  simp only [Bool.false_eq_true, if_false]
  rw [Machine.runNow_bind_of_eq hrun, ← hheld]
  cases held with
  | true => exact ⟨.locked, rfl, Or.inl rfl, by simp⟩
  | false => exact ⟨.missing, rfl, Or.inr rfl, by simp⟩

/-- A machine whose only file is the lock file of a template, with this text. -/
def lockedBy (text : String) : Machine :=
  Machine.bare.withFiles { nodes := [(["t.lock"], .file 0 text.toUTF8 420)], nextId := 1 }

def lockOnly : Template := { (default : Template) with root := "t", lockPath := "t.lock" }

theorem locked_iff_addressed_zero :
    ∃ state, (lockedBy "0\n").runNow lockOnly.state = (lockedBy "0\n", some state) ∧
    state = .locked := by
  obtain ⟨state, hrun, -, hlocked⟩ := locked_iff_addressed lockOnly (lockedBy "0\n")
    (by decide +kernel)
  refine ⟨state, hrun, hlocked.mpr ⟨"0\n", 0, ?_, ⟨['0'], by simp, ?_, ?_, rfl⟩, by decide,
    .ownGroup rfl⟩⟩
  · decide +kernel
  · exact List.forall_mem_singleton.mpr rfl
  · exact .inl (by decide +kernel)

/-- Neither zero nor the greatest number is that of a process. -/
theorem locked_without_process : (∀ n ∈ [0, 4294967295], ¬ Machine.bare.kernel.HasProcess n) ∧
    ∀ text ∈ ["0", "4294967295\n"], ((lockedBy text).runNow lockOnly.state).2 = some .locked := by
  refine ⟨?_, ?_⟩
  · simp [Kernel.HasProcess, Machine.bare]
  · decide +kernel

end Template

end Foundry
