import Foundry.Proofs.Template.Site

/-!
# Builders side by side

Any number of builders make sure of one template. Whoever has passed the lock has its
handle entered for the one lock file, so no two have passed it at once. This rests on
the lock table alone, whatever the replies to the other calls are.
-/

namespace Foundry

open Kernel Scene Activity List

namespace Template

open Stage

variable {t : Template} {cwd : Place} {ι : Type} {c : Call} {i : ι}

/-! ## Builders side by side -/

/-- What is assumed of replies, of what commands do, and of what others do meanwhile. -/
structure Customs where
  reply : Machine → (c : Call) → c.Reply → Prop
  command : Machine → Machine → Prop
  others : Machine → Machine → Prop

/-- Builders of one template, and what happens around them. -/
abbrev Builders (ι : Type) := Scene ι fun _ => Except Fault Bool

def around (t : Template) (cwd : Place) (a : Customs) : Rules ι fun _ => Except Fault Bool where
  prompt _ m c r _ := a.reply m c r
  late _ m c r m' :=
    a.reply m c r ∧ t.Turn cwd m c r m' ∧
      (∀ command timeout, c = .run command timeout → a.command m m')
  beside s m' := t.Leaves cwd s.machine m' ∧ a.others s.machine m'

/-- All builders have just come. -/
def gathering (t : Template) (m : Machine) : Builders ι := ⟨m, fun _ => { rest := t.ensure.run }⟩

/-- The stage of a builder. -/
def stageOf (t : Template) (s : Builders ι) (i : ι) : Stage :=
  Activity.phase t.staging .start (s.tasks i).past

variable {a : Customs} {s s' : Builders ι} {m m' : Machine} {h : Nat} {j : ι}
  {next : c.Reply → Program (Except Fault Bool)} {h' id : Nat}

/-! ## The lock -/

/-- Builders with an open lock file have the same file open under different handles, and those
that have passed the lock have their handle entered for that file. -/
structure LockTable (t : Template) (cwd : Place) (stage : ι → Stage) (m : Machine) : Prop where
  file : ∀ i h, (stage i).handle? = some h →
    ∃ id, m.kernel.fileOf h = some id ∧ t.IsLockFile cwd m id
  distinct : ∀ i j h, (stage i).handle? = some h → (stage j).handle? = some h → i = j
  entered : ∀ i h, (stage i).holding? = some h →
    ∃ id, m.kernel.fileOf h = some id ∧ m.locks.lookup id = some h

/-- What holds of builders at all times. -/
structure Ordered (t : Template) (cwd : Place) (s : Builders ι) : Prop where
  site : t.Site cwd s.machine
  keeps : ∀ i, (s.tasks i).Keeps t.staging .start Stage.ends
  waits : ∀ i, (s.tasks i).waiting = true → ∃ c next, (s.tasks i).rest = .call c next ∧
    c.waits = true
  table : t.LockTable cwd (t.stageOf s) s.machine

theorem Stage.handle?_of_holding? {x : Stage} (hx : x.holding? = some h) : x.handle? = some h := by
  cases x <;> simp [holding?, handle?] at hx ⊢
  all_goals exact hx

/-- Only one builder at a time has passed the lock. -/
theorem LockTable.holder_unique {stage : ι → Stage} (h : t.LockTable cwd stage m) {x y : Nat}
    (hi : (stage i).holding? = some x) (hj : (stage j).holding? = some y) : i = j := by
  obtain ⟨id, hid, hlock⟩ := h.entered i x hi
  obtain ⟨id', hid', hlock'⟩ := h.entered j y hj
  obtain ⟨k, hk, hfile⟩ := h.file i x (handle?_of_holding? hi)
  obtain ⟨k', hk', hfile'⟩ := h.file j y (handle?_of_holding? hj)
  have hsame : id = id' := by
    rw [hid] at hk
    rw [hid'] at hk'
    cases hk
    cases hk'
    exact hfile.unique hfile'
  subst hsame
  rw [hlock] at hlock'
  cases hlock'
  exact h.distinct i j x (handle?_of_holding? hi) (handle?_of_holding? hj)

theorem ordered_gathering (hm : t.Site cwd m) : t.Ordered cwd (t.gathering m : Builders ι) where
  site := hm
  keeps _ := ensure_obeys t
  waits _ hw := by cases hw
  table :=
    { file := fun _ _ hh => by cases hh
      distinct := fun _ _ _ hh => by cases hh
      entered := fun _ _ hh => by cases hh }

theorem Ordered.may (h : t.Ordered cwd s) (hrest : (s.tasks i).rest = .call c next) :
    (t.stageOf s i).May t c := by
  have hk := h.keeps i
  rw [Keeps, hrest, Program.obeys_call] at hk
  exact hk.1

/-! ## The lock table -/

theorem fileOf_cons (k k' : Kernel) (h h' : Nat) (id : Option Nat)
    (hk : k'.handles = (h, id) :: k.handles) :
    k'.fileOf h' = if h' = h then id else k.fileOf h' := by
  unfold fileOf
  rw [hk, lookup_cons]
  by_cases hh : h' = h
  · simp [hh]
  have hb : (h' == h) = false := by simpa using hh
  simp [hb, hh]

theorem fileOf_closeLock (k : Kernel) (hne : h' ≠ h) : (k.closeLock h).fileOf h' = k.fileOf h' := by
  have hlookup := Files.lookup_filter (fun k : Nat => decide (k ≠ h)) h' k.handles
  unfold fileOf closeLock
  simp only [hlookup]
  simp [hne]

/-- Letting go of one lock leaves the others. -/
theorem lookup_locks_closeLock (k : Kernel) (hne : h' ≠ h) (hl : k.locks.lookup id = some h') :
    (k.closeLock h).locks.lookup id = some h' := by
  simp only [closeLock]
  generalize k.locks = locks at hl
  induction locks with
  | nil => cases hl
  | cons e rest ih =>
    rcases e with ⟨id', x⟩
    by_cases hid : id = id'
    · subst hid
      simp only [lookup_cons, beq_self_eq_true] at hl
      cases hl
      simp [hne]
    · have hb : (id == id') = false := by simpa using hid
      simp only [lookup_cons, hb] at hl
      by_cases hx : x = h
      · simpa [filter_cons, hx] using ih hl
      · simpa [filter_cons, hx, lookup_cons, hb] using ih hl

theorem tryLock_some {k k' : Kernel} (hid : k.fileOf h = some id) (hk : k.tryLock h = some k') :
    k.locks.lookup id = none ∧ k'.locks = (id, h) :: k.locks ∧ k'.handles = k.handles := by
  unfold tryLock at hk
  rw [hid] at hk
  dsimp only at hk
  split at hk
  · cases hk
  rename_i hnone
  cases hk
  exact ⟨hnone, rfl, rfl⟩

section

variable {stage stage' : ι → Stage} {i : ι}

theorem LockTable.stays (h : t.LockTable cwd stage m)
    (hlock : ∀ id, t.IsLockFile cwd m id → t.IsLockFile cwd m' id)
    (handles : m'.handles = m.handles) (locks : m'.locks = m.locks)
    (hhandle : ∀ j, (stage' j).handle? = (stage j).handle?)
    (hholding : ∀ j x, (stage' j).holding? = some x → (stage j).holding? = some x) :
    t.LockTable cwd stage' m' := by
  have hfileOf : m'.kernel.fileOf = m.kernel.fileOf := by
    unfold fileOf
    rw [handles]
  refine ⟨fun j x hx => ?_, fun j k x hj hk => ?_, fun j x hx => ?_⟩
  · rw [hhandle] at hx
    obtain ⟨id, hid, hfile⟩ := h.file j x hx
    exact ⟨id, hfileOf ▸ hid, hlock id hfile⟩
  · rw [hhandle] at hj hk
    exact h.distinct j k x hj hk
  rw [hfileOf, locks]
  exact h.entered j x (hholding j x hx)

theorem LockTable.opens (h : t.LockTable cwd stage m) (hm : t.Site cwd m)
    (hlock : ∀ id, t.IsLockFile cwd m id → t.IsLockFile cwd m' id)
    (hother : ∀ j, j ≠ i → stage' j = stage j) {id : Nat}
    (handles : m'.handles = (m.fresh, some id) :: m.handles)
    (locks : m'.locks = m.locks) (file : t.IsLockFile cwd m' id)
    (now : stage' i = .opened m.fresh) : t.LockTable cwd stage' m' := by
  have hfileOf := fun x => fileOf_cons _ _ _ x _ handles
  -- handles that are open already are older than the new one
  have hold : ∀ j, j ≠ i → ∀ x, (stage' j).handle? = some x →
      (stage j).handle? = some x ∧ x ≠ m.fresh := by
    intro j hj x hx
    rw [hother j hj] at hx
    obtain ⟨id', hid', -⟩ := h.file j x hx
    refine ⟨hx, Nat.ne_of_lt (hm.handles_old x ?_)⟩
    unfold fileOf at hid'
    cases hl : m.handles.lookup x with
    | none => simp [hl] at hid'
    | some _ => rfl
  have hself : ∀ x, (stage' i).handle? = some x → x = m.fresh := by
    intro x hx
    rw [now] at hx
    cases hx
    rfl
  refine ⟨fun j x hx => ?_, fun j k x hj hk => ?_, fun j x hx => ?_⟩
  · by_cases hj : j = i
    · subst hj
      refine ⟨id, ?_, file⟩
      rw [hfileOf, if_pos (hself x hx)]
    · obtain ⟨hx, hne⟩ := hold j hj x hx
      obtain ⟨id', hid', hfile⟩ := h.file j x hx
      refine ⟨id', ?_, hlock id' hfile⟩
      rw [hfileOf, if_neg hne]
      exact hid'
  · by_cases hji : j = i
    · by_cases hki : k = i
      · rw [hji, hki]
      · exact absurd (hself x (hji ▸ hj)) (hold k hki x hk).2
    · by_cases hki : k = i
      · exact absurd (hself x (hki ▸ hk)) (hold j hji x hj).2
      · exact h.distinct j k x (hold j hji x hj).1 (hold k hki x hk).1
  · have hj : j ≠ i := by
      rintro rfl
      rw [now] at hx
      cases hx
    have hne := (hold j hj x (handle?_of_holding? hx)).2
    rw [hother j hj] at hx
    rw [hfileOf, if_neg hne, locks]
    exact h.entered j x hx

theorem LockTable.locks (h : t.LockTable cwd stage m)
    (hlock : ∀ id, t.IsLockFile cwd m id → t.IsLockFile cwd m' id)
    (hother : ∀ j, j ≠ i → stage' j = stage j) {x : Nat}
    (kernel : m.kernel.tryLock x = some m'.kernel) (was : stage i = .opened x)
    (now : stage' i = .held x) : t.LockTable cwd stage' m' := by
  have hopen : (stage i).handle? = some x := by rw [was]; rfl
  obtain ⟨id, hid, -⟩ := h.file i x hopen
  obtain ⟨hfree, hlocks, hhandles⟩ := tryLock_some hid kernel
  have hfileOf : m'.kernel.fileOf = m.kernel.fileOf := by
    unfold fileOf
    rw [hhandles]
  have hhandle : ∀ j, (stage' j).handle? = (stage j).handle? := by
    intro j
    by_cases hj : j = i
    · rw [hj, now, was]
      rfl
    · rw [hother j hj]
  refine ⟨fun j y hy => ?_, fun j k y hj hk => ?_, fun j y hy => ?_⟩
  · rw [hhandle] at hy
    obtain ⟨id', hid', hfile⟩ := h.file j y hy
    exact ⟨id', hfileOf ▸ hid', hlock id' hfile⟩
  · rw [hhandle] at hj hk
    exact h.distinct j k y hj hk
  rw [hfileOf, hlocks]
  by_cases hj : j = i
  · subst hj
    rw [now] at hy
    cases hy
    exact ⟨id, hid, by simp⟩
  · rw [hother j hj] at hy
    obtain ⟨id', hid', hentry⟩ := h.entered j y hy
    refine ⟨id', hid', ?_⟩
    have hne : (id' == id) = false := by
      rw [beq_eq_false_iff_ne]
      rintro rfl
      rw [hfree] at hentry
      cases hentry
    rw [lookup_cons, hne]
    exact hentry

theorem LockTable.closes (h : t.LockTable cwd stage m)
    (hlock : ∀ id, t.IsLockFile cwd m id → t.IsLockFile cwd m' id)
    (hother : ∀ j, j ≠ i → stage' j = stage j) {x : Nat} (kernel : m'.kernel = m.kernel.closeLock x)
    (was : (stage i).handle? = some x) (now : (stage' i).handle? = none) :
    t.LockTable cwd stage' m' := by
  -- those that still have the file open are others, under other handles
  have hold : ∀ j y, (stage' j).handle? = some y →
      stage' j = stage j ∧ (stage j).handle? = some y ∧ y ≠ x := by
    intro j y hy
    have hj : j ≠ i := by
      rintro rfl
      rw [now] at hy
      cases hy
    rw [hother j hj] at hy
    refine ⟨hother j hj, hy, ?_⟩
    rintro rfl
    exact hj (h.distinct j i y hy was)
  refine ⟨fun j y hy => ?_, fun j k y hj hk => ?_, fun j y hy => ?_⟩
  · obtain ⟨-, hy, hne⟩ := hold j y hy
    obtain ⟨id, hid, hfile⟩ := h.file j y hy
    refine ⟨id, ?_, hlock id hfile⟩
    rw [kernel, fileOf_closeLock _ hne]
    exact hid
  · exact h.distinct j k y (hold j y hj).2.1 (hold k y hk).2.1
  obtain ⟨hsame, -, hne⟩ := hold j y (handle?_of_holding? hy)
  rw [hsame] at hy
  obtain ⟨id, hid, hentry⟩ := h.entered j y hy
  refine ⟨id, ?_, ?_⟩
  · rw [kernel, fileOf_closeLock _ hne]
    exact hid
  rw [kernel]
  exact lookup_locks_closeLock _ hne hentry

end

/-! ## What happens -/

variable [DecidableEq ι] {past : List Event} {w : Bool} {r : c.Reply}

/-- What happens among builders: one gets a reply, one begins to wait, or something happens beside
them. -/
inductive Happens (t : Template) (cwd : Place) (a : Customs) (s : Builders ι) : Builders ι → Prop
  | turn {i : ι} {past : List Event} {c : Call} {next : c.Reply → Program (Except Fault Bool)}
      {r : c.Reply} {m : Machine} (at_ : s.tasks i = ⟨past, .call c next, c.waits⟩)
      (reply : a.reply s.machine c r) (turn : t.Turn cwd s.machine c r m)
      (command : ∀ command timeout, c = .run command timeout → a.command s.machine m) :
      Happens t cwd a s (s.setTask m i ⟨past ++ [⟨c, r⟩], next r, false⟩)
  | wait {i : ι} {past : List Event} {c : Call} {next : c.Reply → Program (Except Fault Bool)}
      (at_ : s.tasks i = ⟨past, .call c next, false⟩) (waits : c.waits = true) :
      Happens t cwd a s (s.setTask (s.machine.noting c) i ⟨past, .call c next, true⟩)
  | beside {m : Machine} (leaves : t.Leaves cwd s.machine m) (others : a.others s.machine m) :
      Happens t cwd a s ⟨m, s.tasks⟩

theorem happens_of_step (h : Scene.Step (t.around cwd a) s s') : t.Happens cwd a s s' := by
  cases h with
  | @call i past c next r m at_ answer allowed =>
    have hw : c.waits = false := by
      by_contra hw
      rw [(Machine.answer?_eq_none_iff _ _).mpr (by simpa using hw)] at answer
      cases answer
    refine .turn (hw ▸ at_) allowed (.prompt answer) fun command timeout hc => ?_
    subst hc
    cases hw
  | wait at_ waits => exact .wait at_ waits
  | @reply i past c next r m at_ waits allowed =>
    exact .turn (waits ▸ at_) allowed.1 allowed.2.1 allowed.2.2
  | beside allowed => exact .beside allowed.1 allowed.2

@[simp] theorem stageOf_setTask_self (s : Builders ι) (m : Machine) (i : ι)
    (task : Activity (Except Fault Bool)) :
    t.stageOf (s.setTask m i task) i = phase t.staging .start task.past := by
  simp [stageOf]

theorem stageOf_setTask_other (s : Builders ι) (m : Machine) (task : Activity (Except Fault Bool))
    (h : j ≠ i) : t.stageOf (s.setTask m i task) j = t.stageOf s j := by
  simp [stageOf, h]

/-- Waiting is no stage of its own. -/
theorem stageOf_wait (m : Machine) {rest : Program (Except Fault Bool)} {w' : Bool}
    (at_ : s.tasks i = ⟨past, rest, w⟩) :
    t.stageOf (s.setTask m i ⟨past, rest, w'⟩) = t.stageOf s := by
  funext j
  by_cases hj : j = i
  · subst hj
    rw [stageOf_setTask_self, stageOf, at_]
  · exact stageOf_setTask_other s m _ hj

/-- A change of stages in which one builder moves on. -/
structure Advances (t : Template) (cwd : Place) (s s' : Builders ι) (i : ι) (c : Call)
    (r : c.Reply) : Prop where
  may : (t.stageOf s i).May t c
  turn : t.Turn cwd s.machine c r s'.machine
  self : t.stageOf s' i = (t.stageOf s i).after c r
  other : ∀ j, j ≠ i → t.stageOf s' j = t.stageOf s j
  effect : t.Effect cwd s.machine s'.machine (t.stageOf s i) (t.stageOf s' i)

theorem Ordered.advances (h : t.Ordered cwd s) (ha : t.Apart cwd)
    (at_ : s.tasks i = ⟨past, .call c next, w⟩) (hr : hears c r)
    (turn : t.Turn cwd s.machine c r m) :
    t.Advances cwd s (s.setTask m i ⟨past ++ [⟨c, r⟩], next r, false⟩) i c r := by
  have hmay := h.may (congrArg rest at_)
  have hself : t.stageOf (s.setTask m i ⟨past ++ [⟨c, r⟩], next r, false⟩) i =
      (t.stageOf s i).after c r := by
    rw [stageOf_setTask_self, phase_concat, stageOf, at_]
    rfl
  refine ⟨hmay, turn, hself, fun j hj => stageOf_setTask_other _ _ _ hj, ?_⟩
  rw [hself]
  exact turn.effect ha h.site hmay hr

/-- A builder's turn keeps the lock table as it should be. -/
theorem LockTable.advances (h : t.LockTable cwd (t.stageOf s) s.machine) (hm : t.Site cwd s.machine)
    (hadv : t.Advances cwd s s' i c r) : t.LockTable cwd (t.stageOf s') s'.machine := by
  have hlock := hadv.effect.lock
  cases hadv.effect.moves with
  | stays handles locks handle holding =>
    refine h.stays hlock handles locks (fun j => ?_) fun j x hx => ?_
    · by_cases hj : j = i
      · rw [hj, handle]
      · rw [hadv.other j hj]
    · by_cases hj : j = i
      · subst hj
        exact holding x hx
      rw [← hadv.other j hj]
      exact hx
  | opens id handles locks file was now => exact h.opens hm hlock hadv.other handles locks file now
  | locks x kernel was now => exact h.locks hlock hadv.other kernel was now
  | closes x kernel was now => exact h.closes hlock hadv.other kernel was now

theorem Ordered.happens (h : t.Ordered cwd s) (ha : t.Apart cwd)
    (hreply : ∀ m c r, a.reply m c r → hears c r) (hs : t.Happens cwd a s s') :
    t.Ordered cwd s' := by
  cases hs with
  | @turn i past c next r m at_ reply turn command =>
    have hr := hreply _ c r reply
    have hadv := h.advances ha at_ hr turn
    refine ⟨hadv.effect.site, fun j => ?_, fun j hw => ?_, h.table.advances h.site hadv⟩
    · by_cases hj : j = i
      · subst hj
        have hk := h.keeps j
        rw [Keeps, at_, Program.obeys_call] at hk
        rw [Keeps, setTask_self, phase_concat]
        exact hk.2 r hr
      · rw [setTask_other _ _ _ hj]
        exact h.keeps j
    · by_cases hj : j = i
      · subst hj
        simp at hw
      rw [setTask_other _ _ _ hj] at hw ⊢
      exact h.waits j hw
  | @wait i past c next at_ waits =>
    have hk := Machine.noting_kernel s.machine c
    refine ⟨h.site.of_kernel_eq hk, fun j => ?_, fun j hw => ?_, ?_⟩
    · by_cases hj : j = i
      · subst hj
        have hj := h.keeps j
        rw [at_] at hj
        rw [setTask_self]
        exact hj
      · rw [setTask_other _ _ _ hj]
        exact h.keeps j
    · by_cases hj : j = i
      · subst hj
        rw [setTask_self]
        exact ⟨c, next, rfl, waits⟩
      · rw [setTask_other _ _ _ hj] at hw ⊢
        exact h.waits j hw
    · rw [stageOf_wait _ at_]
      exact h.table.stays (fun _ hid => hid.of_kernel_eq hk) (congrArg _ hk) (congrArg _ hk)
        (fun _ => rfl) fun _ _ hx => hx
  | @beside m leaves others =>
    exact ⟨h.site.leaves leaves, h.keeps, h.waits,
      h.table.stays (fun _ hid => hid.leaves leaves) leaves.handles_eq leaves.locks_eq
        (fun _ => rfl) fun _ _ hx => hx⟩

/-! ## A sample -/

/-- A template whose command needs nothing. -/
def sample : Template where
  root := "/t"
  lockPath := lockPathOf "/t"
  buildCommand := "b"
  buildArgs := []
  env := []
  manifestFile := "m"
  manifest := ""
  sourceFile := "s"
  source := ""
  buildTimeout := .ofNatSeconds 1
  lockWait := .ofNatSeconds 1

theorem site_bare (t : Template) : t.Site [] .bare := by
  have hnone : ∀ q, q ≠ [] → Machine.bare.files.get? q = none := fun q hq =>
    Files.get?_of_ne _ hq
  have hplain : ∀ p, Machine.bare.files.Plain p := by
    intro p q hq n hn
    by_cases hroot : q = []
    · subst hroot
      cases hn
      rfl
    · rw [hnone q hroot] at hn
      cases hn
  refine ⟨rfl, ?_, hplain _, hplain _, fun h hh => ?_⟩
  · intro q name n hn
    rw [hnone _ (by simp)] at hn
    cases hn
  · cases hh

/-- Commands succeed at once, and a lock is had as soon as it is free. Who is not patient gives up
on a lock that is not. -/
def promptly (patient : Bool) (m : Machine) : (c : Call) → Option (Machine × c.Reply)
  | .lock h _ =>
    match m.kernel.tryLock h with
    | some k => some ({ m with kernel := k }, .acquired)
    | none => if patient then none else some (m, .stillHeld)
  | .run .. => some (m, .ok ⟨0, .empty, .empty⟩)
  | _ => none

theorem turn_of_promptly {patient : Bool} (h : promptly patient m c = some (m', r)) :
    t.Turn cwd m c r m' := by
  cases c with
  | lock handle wait =>
    simp only [promptly] at h
    split at h
    · rename_i k hk
      cases h
      exact .lock (.acquired hk)
    · rename_i hk
      cases patient with
      | true => cases h
      | false =>
        cases h
        exact .lock (.stillHeld hk)
  | run command timeout =>
    cases h
    exact .run (Leaves.refl t cwd m)
  | _ => cases h

end Template

end Foundry
