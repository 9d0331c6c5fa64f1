import Foundry.Proofs.Template.Exclusion

/-!
# Exactly one build

If all commands succeed and the marker is not there at first, one builder builds and
all others find its work. As long as somebody has not returned, somebody can go on,
and nobody goes on for ever.
-/

namespace Foundry

open Activity Scene

namespace Template

variable {t : Template} {cwd : Place} {m m' : Machine} {c : Call} {before : Nat} {x : Stage}
  {r : c.Reply}

namespace Stage

variable {x : Stage} {c : Call} {r : c.Reply}

theorem May.isBegun (h : x.May t c) (hr : Succeeds c r) (hw : RunsWell c r)
    (hx : x.isBegun = true) : (x.after c r).isBegun = true := by
  cases h with
  | makeSourceDir | writeManifest | writeSource | writeMarker =>
    cases hr
    rfl
  | run =>
    obtain ⟨result, rfl, hs⟩ := hw
    simp [after, hs, Stage.isBegun]
  | settle hs | clear hs | warn hs | close hs =>
    cases x <;> simp [after, ending?, Stage.isBegun] at hs hx ⊢
  | discard | warnBuilding | today => rfl
  | _ => cases hx

theorem May.isBuilt (h : x.May t c) (hr : Succeeds c r) (hx : x.isBuilt = true) :
    (x.after c r).isBuilt = true := by
  cases h with
  | writeMarker =>
    cases hr
    rfl
  | settle hs | clear hs | warn hs | close hs =>
    cases x <;> simp [after, ending?, Stage.isBuilt] at hs hx ⊢
  | today => rfl
  | _ => cases hx

/-- A build has come to its end only by the reply to its command. -/
theorem May.isBuilt_cases (h : x.May t c) (hx : (x.after c r).isBuilt = true) :
    x.isBuilt = true ∨ x.isBuilding = true ∧ c.waits = true := by
  cases h with
  | look | makeLockDir | openLock | lock | mark | lookAgain | makeSourceDir | writeManifest
  | writeSource => cases r <;> cases hx
  | run => exact .inr ⟨rfl, rfl⟩
  | settle hs | clear hs | warn hs | close hs =>
    cases x <;> simp [after, ending?, Stage.isBuilt] at hs hx ⊢
  | today | writeMarker => exact .inl rfl
  | _ => cases hx

theorem holding_of_isBuilt (h : x.isBuilt = true) :
    (∃ k, x.holding? = some k) ∨ x.isDone = true := by
  cases x with
  | built k | marked k => exact .inl ⟨k, rfl⟩
  | returned outcome =>
    rcases outcome with _ | said
    · cases h
    cases said with
    | true => exact .inr rfl
    | false => cases h
  | _ => cases h

/-- While building, one waits for nothing but the command. -/
theorem May.eq_run (h : x.May t c) (hx : x.isBuilding = true) (hc : c.waits = true) :
    ∃ k timeout, x = .building k ∧ c = .run t.command timeout := by
  cases h with
  | run k timeout => exact ⟨k, timeout, rfl, rfl⟩
  | lock => cases hx
  | _ => cases hc

end Stage

open Stage

/-- Who sets out either goes on so, or begins to build, or has seen the marker. -/
theorem Turn.isEarly (hm : t.Site cwd m) (hmay : x.May t c) (turn : t.Turn cwd m c r m')
    (hr : Succeeds c r) (hx : x.isEarly = true) :
    (x.after c r).isEarly = true ∨ (x.after c r).isBegun = true ∨ t.IsMarked cwd m := by
  cases hmay with
  | look | lookAgain =>
    cases r with
    | true => exact .inr (.inr ((turn.look hm).2.mp rfl))
    | false => simp [after, isEarly, isBegun]
  | makeLockDir | mark | lock =>
    cases hr
    exact .inl rfl
  | openLock =>
    obtain ⟨handle, rfl⟩ := hr
    exact .inl rfl
  | settle hs | clear hs | warn hs | close hs =>
    cases x <;> simp [ending?, isEarly] at hs hx
  | ownPid | owe => exact .inl rfl
  | _ => cases hx

theorem Stage.isBuilding_of_isEarly (h : x.isEarly = true) : x.isBuilding = false := by
  cases x <;> simp [isEarly, isBuilding] at h ⊢

/-! ## Counting commands -/

variable {ι : Type} {s s' : Builders ι} {i k : ι}

/-- A builder whose command is under way, or has come to its end. -/
def HasCalled (t : Template) (s : Builders ι) (i : ι) : Prop :=
  (t.stageOf s i).isBuilt = true ∨ (t.stageOf s i).isBuilding = true ∧ (s.tasks i).waiting = true

/-- All commands so far have succeeded. -/
def AllWell (s : Builders ι) : Prop := ∀ i, ∀ e ∈ (s.tasks i).past, RunsWell e.call e.reply

/-- What holds if all commands succeed, the marker was not there at first, and `before` commands
were counted then. -/
structure Single (t : Template) (cwd : Place) (before : Nat) (s : Builders ι) : Prop where
  unbroken : ∀ i, (t.stageOf s i).isBroken = false
  begun : (∃ i, (t.stageOf s i).isBegun = true) ∨
    ¬ t.IsMarked cwd s.machine ∧ ∀ j, (t.stageOf s j).isEarly = true
  count : (s.calls.length = before ∧ ∀ i, ¬ t.HasCalled s i) ∨
    (s.calls.length = before + 1 ∧ ∃ i, t.HasCalled s i)

theorem single_gathering (hm : ¬ t.IsMarked cwd m) :
    t.Single cwd m.calls.length (t.gathering m : Builders ι) where
  unbroken _ := rfl
  begun := .inr ⟨hm, fun _ => rfl⟩
  count := by
    refine .inl ⟨rfl, fun i hi => ?_⟩
    rcases hi with hi | ⟨hi, -⟩
    · cases hi
    · cases hi

/-- Who has called is the only one that can be building. -/
theorem Exclusive.eq_of_hasCalled (h : t.Exclusive cwd s) (hi : t.HasCalled s i)
    (hk : (t.stageOf s k).isBuilding = true) : i = k := by
  have hholding : (∃ x, (t.stageOf s i).holding? = some x) ∨ (t.stageOf s i).isDone = true := by
    rcases hi with hi | ⟨hi, -⟩
    · exact holding_of_isBuilt hi
    · exact .inl (holding_of_isBuilding hi)
  rcases hholding with ⟨x, hx⟩ | hdone
  · exact h.ordered.isBuilding_unique hx hk
  rw [(h.done i hdone).2 k] at hk
  cases hk

variable [DecidableEq ι] {past : List Event} {next : c.Reply → Program (Except Fault Bool)}

theorem Single.unbroken_advances (h : t.Single cwd before s) (hr : Succeeds c r) (hw : RunsWell c r)
    (hadv : t.Advances cwd s s' i c r) (j : ι) : (t.stageOf s' j).isBroken = false := by
  by_cases hj : j = i
  · rw [hj, hadv.self]
    exact hadv.may.isBroken hr hw (h.unbroken i)
  rw [hadv.other j hj]
  exact h.unbroken j

theorem Single.begun_advances (h : t.Single cwd before s) (ha : t.Apart cwd)
    (hm : t.Site cwd s.machine) (hr : Succeeds c r) (hw : RunsWell c r)
    (hadv : t.Advances cwd s s' i c r) :
    (∃ i, (t.stageOf s' i).isBegun = true) ∨
    ¬ t.IsMarked cwd s'.machine ∧ ∀ j, (t.stageOf s' j).isEarly = true := by
  rcases h.begun with ⟨k, hk⟩ | ⟨hmarked, hearly⟩
  · refine .inl ⟨k, ?_⟩
    by_cases hki : k = i
    · rw [hki, hadv.self]
      exact hadv.may.isBegun hr hw (hki ▸ hk)
    rw [hadv.other k hki]
    exact hk
  · rcases hadv.turn.isEarly hm hadv.may hr (hearly i) with hstill | hbegun | hseen
    · obtain ⟨-, hwrites⟩ := hadv.may.quiet (isBuilding_of_isEarly (hearly i))
      refine .inr ⟨fun hnow => ?_, fun j => ?_⟩
      · exact hmarked
          (hadv.turn.isMarked_of_writes ha hm hadv.effect.site hadv.may hwrites hnow)
      by_cases hj : j = i
      · rw [hj, hadv.self]
        exact hstill
      rw [hadv.other j hj]
      exact hearly j
    · exact .inl ⟨i, hadv.self ▸ hbegun⟩
    · exact absurd hseen hmarked

/-- A turn does not change who has called. -/
theorem hasCalled_advances (at_ : s.tasks i = ⟨past, .call c next, c.waits⟩) (hr : Succeeds c r)
    (hw : RunsWell c r)
    (hadv : t.Advances cwd s (s.setTask m i ⟨past ++ [⟨c, r⟩], next r, false⟩) i c r) (j : ι) :
    t.HasCalled (s.setTask m i ⟨past ++ [⟨c, r⟩], next r, false⟩) j ↔ t.HasCalled s j := by
  by_cases hj : j = i
  · subst hj
    unfold HasCalled
    rw [hadv.self, setTask_self, at_]
    simp only [Bool.false_eq_true, and_false, or_false]
    constructor
    · exact hadv.may.isBuilt_cases
    rintro (hbuilt | ⟨hbuilding, hwaits⟩)
    · exact hadv.may.isBuilt hr hbuilt
    obtain ⟨k, timeout, hx, rfl⟩ := hadv.may.eq_run hbuilding hwaits
    obtain ⟨result, rfl, hs⟩ := hw
    simp [hx, after, hs, isBuilt]
  · unfold HasCalled
    rw [hadv.other j hj, setTask_other _ _ _ hj]

/-- Only a builder calls, and only if nobody has called before. -/
theorem Single.count_wait (h : t.Single cwd before s) (he : t.Exclusive cwd s)
    (at_ : s.tasks k = ⟨past, .call c next, false⟩) (hwaits : c.waits = true) {s' : Builders ι}
    (hs' : s' = s.setTask (s.machine.noting c) k ⟨past, .call c next, true⟩) :
    (s'.calls.length = before ∧ ∀ i, ¬ t.HasCalled s' i) ∨
    (s'.calls.length = before + 1 ∧ ∃ i, t.HasCalled s' i) := by
  have hmay := he.ordered.may (congrArg rest at_)
  have hstage : t.stageOf s' = t.stageOf s := by
    rw [hs']
    exact stageOf_wait _ at_
  by_cases hb : (t.stageOf s k).isBuilding = true
  · obtain ⟨x, timeout, hx, rfl⟩ := hmay.eq_run hb hwaits
    have hnew : t.HasCalled s' k := by
      refine .inr ⟨hstage ▸ hb, ?_⟩
      rw [hs', setTask_self]
    rcases h.count with ⟨hcount, -⟩ | ⟨-, i, hi⟩
    · refine .inr ⟨?_, k, hnew⟩
      simp [hs', Machine.noting, Machine.addCall, hcount]
    -- nobody else builds, and this builder has only just called
    obtain rfl := he.eq_of_hasCalled hi hb
    rcases hi with hi | ⟨-, hi⟩
    · rw [hx] at hi
      cases hi
    rw [at_] at hi
    cases hi
  · have hb : (t.stageOf s k).isBuilding = false := by simpa using hb
    obtain ⟨-, hwrites⟩ := hmay.quiet hb
    have hcalls : s'.calls = s.calls := by
      rw [hs']
      cases c with
      | run => cases hwrites
      | _ => rfl
    have hcalled : ∀ j, t.HasCalled s' j ↔ t.HasCalled s j := by
      intro j
      unfold HasCalled
      rw [hstage]
      by_cases hj : j = k
      · subst hj
        simp [hb]
      · rw [hs', setTask_other _ _ _ hj]
    simpa only [hcalls, hcalled] using h.count

theorem Single.happens (h : t.Single cwd before s) (he : t.Exclusive cwd s) (ha : t.Apart cwd)
    (hs : t.Happens cwd (t.smooth cwd) s s') (hwell : AllWell s') : t.Single cwd before s' := by
  cases hs with
  | @turn i past c next r m at_ reply turn command =>
    have hw : RunsWell c r := by
      refine hwell i ⟨c, r⟩ ?_
      simp
    have hadv := he.ordered.advances ha at_ (Succeeds.hears _ _ reply) turn
    refine ⟨h.unbroken_advances reply hw hadv, ?_, ?_⟩
    · exact h.begun_advances ha he.ordered.site reply hw hadv
    · simpa only [hadv.effect.calls, hasCalled_advances at_ reply hw hadv] using h.count
  | @wait i past c next at_ waits =>
    have hstage : t.stageOf (s.setTask (s.machine.noting c) i ⟨past, .call c next, true⟩) =
        t.stageOf s :=
      stageOf_wait _ at_
    refine ⟨hstage ▸ h.unbroken, ?_, h.count_wait he at_ waits rfl⟩
    simpa [hstage, IsMarked] using h.begun
  | beside leaves others =>
    refine ⟨h.unbroken, ?_, ?_⟩
    · rcases h.begun with hbegun | ⟨hmarked, hearly⟩
      · exact .inl hbegun
      · exact .inr ⟨fun hnow => hmarked (others.mp hnow), hearly⟩
    · have hcount := h.count
      rw [← leaves.calls_eq] at hcount
      exact hcount

theorem allWell_of_step {a : Customs} (hs : Scene.Step (t.around cwd a) s s') (h : AllWell s') :
    AllWell s := by
  intro i e he
  refine h i e ?_
  rcases hs.past_cases i with hpast | ⟨c, r, hpast, -⟩
  · rw [hpast]
    exact he
  rw [hpast]
  exact List.mem_append_left _ he

theorem Single.run (ha : t.Apart cwd) (he : t.Exclusive cwd s) (h : t.Single cwd before s)
    (hrun : Scene.Runs (t.around cwd (t.smooth cwd)) s s') (hwell : AllWell s') :
    t.Single cwd before s' := by
  induction hrun with
  | refl => exact h
  | tail hrun hstep ih =>
    have hsingle := ih (allWell_of_step hstep hwell)
    exact hsingle.happens (he.run ha hrun) ha (happens_of_step hstep) hwell

omit [DecidableEq ι] in
/-- When all have returned, one of them has built, and only one command has been counted. -/
theorem Single.at_end (h : t.Single cwd before s) (he : t.Exclusive cwd s) (hsome : Nonempty ι)
    (hall : ∀ i, (s.tasks i).result? ≠ none) :
    s.calls.length = before + 1 ∧ ∃! i, (s.tasks i).result? = some (.ok true) := by
  have hover : ∀ i, ∃ r outcome, (s.tasks i).result? = some r ∧ t.stageOf s i = .returned outcome ∧
      (returned outcome).ends r := by
    intro i
    obtain ⟨r, hr⟩ := Option.ne_none_iff_exists'.mp (hall i)
    have hends := he.ordered.ends hr
    obtain ⟨outcome, hstage⟩ := eq_returned_of_ends hends
    exact ⟨r, outcome, hr, hstage, hstage ▸ hends⟩
  -- who has begun has built
  obtain ⟨i, hi⟩ : ∃ i, (t.stageOf s i).isBegun = true := by
    rcases h.begun with hbegun | ⟨-, hearly⟩
    · exact hbegun
    obtain ⟨i⟩ := hsome
    obtain ⟨r, outcome, -, hstage, -⟩ := hover i
    have hi := hearly i
    rw [hstage] at hi
    cases hi
  have hdone_of : ∀ j, (t.stageOf s j).isBegun = true → t.stageOf s j = .returned (some true) ∧
      (s.tasks j).result? = some (.ok true) := by
    intro j hj
    obtain ⟨r, outcome, hr, hstage, hends⟩ := hover j
    rw [hstage] at hj
    rcases outcome with _ | said
    · cases hj
    cases said with
    | true => exact ⟨hstage, hends ▸ hr⟩
    | false => cases hj
  obtain ⟨hstage, hresult⟩ := hdone_of i hi
  refine ⟨?_, i, hresult, fun j hj => ?_⟩
  · rcases h.count with ⟨-, hnone⟩ | ⟨hcount, -⟩
    · refine absurd (.inl ?_) (hnone i)
      rw [hstage]
      rfl
    · exact hcount
  · exact he.once j i (he.afterBuild hj).done (he.afterBuild hresult).done

/-! ## Going on -/

/-- A builder that waits for a lock that another has. -/
def IsBlocked (s : Builders ι) (i : ι) : Prop :=
  ∃ h wait next, (s.tasks i).rest = .call (.lock h wait) next ∧ (s.tasks i).waiting = true ∧
    s.machine.kernel.tryLock h = none

/-- Every lock is that of a builder. -/
def Owned (t : Template) (s : Builders ι) : Prop :=
  ∀ e ∈ s.locks, ∃ i, (t.stageOf s i).holding? = some e.2

theorem Stage.May.holding {k : Nat} (h : x.May t c) (hr : Succeeds c r) (hx : x.holding? = some k) :
    (x.after c r).holding? = some k ∨ (x.after c r).handle? = none := by
  cases h with
  | mark | makeSourceDir | writeManifest | writeSource | writeMarker =>
    cases hr
    exact .inl hx
  | lookAgain =>
    cases r <;> exact .inl hx
  | run =>
    cases r with
    | error fault => exact .inl hx
    | ok result =>
      by_cases hs : result.succeeded = true <;> simp [after, hs] <;> exact .inl hx
  | settle hs | clear hs | warn hs | close hs =>
    cases x <;> simp [after, ending?, holding?, handle?] at hs hx ⊢
    all_goals exact hx
  | look | makeLockDir | openLock | lock | closeRefused => cases hx
  | _ => exact .inl hx

omit [DecidableEq ι] in
theorem Owned.advances (h : t.Owned s) (ho : t.Ordered cwd s) (hr : Succeeds c r)
    (hadv : t.Advances cwd s s' i c r) : t.Owned s' := by
  have hother : ∀ e ∈ s.locks, (t.stageOf s i).holding? ≠ some e.2 →
      ∃ j, (t.stageOf s' j).holding? = some e.2 := by
    intro e he hi
    obtain ⟨j, hj⟩ := h e he
    have hji : j ≠ i := by
      rintro rfl
      exact hi hj
    exact ⟨j, hadv.other j hji ▸ hj⟩
  intro e he
  cases hadv.effect.moves with
  | stays handles locks handle holding =>
    rw [locks] at he
    by_cases hi : (t.stageOf s i).holding? = some e.2
    · refine ⟨i, ?_⟩
      rw [hadv.self] at handle ⊢
      rcases hadv.may.holding hr hi with hkeeps | hnone
      · exact hkeeps
      rw [hnone, handle?_of_holding? hi] at handle
      cases handle
    · exact hother e he hi
  | opens id handles locks file was now =>
    rw [locks] at he
    refine hother e he fun hi => ?_
    rw [handle?_of_holding? hi] at was
    cases was
  | locks x kernel was now =>
    have hopen : (t.stageOf s i).handle? = some x := by rw [was]; rfl
    obtain ⟨id, hid, -⟩ := ho.table.file i x hopen
    obtain ⟨-, hlocks, -⟩ := tryLock_some hid kernel
    rw [hlocks, List.mem_cons] at he
    rcases he with rfl | he
    · exact ⟨i, by rw [now]; rfl⟩
    refine hother e he fun hi => ?_
    rw [was] at hi
    cases hi
  | closes x kernel was now =>
    rw [kernel] at he
    obtain ⟨he, hne⟩ := List.mem_filter.mp he
    refine hother e he fun hi => ?_
    rw [handle?_of_holding? hi] at was
    cases was
    simp at hne

theorem Owned.happens (h : t.Owned s) (ho : t.Ordered cwd s) (ha : t.Apart cwd)
    (hs : t.Happens cwd (t.smooth cwd) s s') : t.Owned s' := by
  cases hs with
  | turn at_ reply turn command =>
    exact h.advances ho reply (ho.advances ha at_ (Succeeds.hears _ _ reply) turn)
  | @wait i past c next at_ waits =>
    have hstage : t.stageOf (s.setTask (s.machine.noting c) i ⟨past, .call c next, true⟩) =
        t.stageOf s :=
      stageOf_wait _ at_
    simpa [Owned, hstage] using h
  | beside leaves others =>
    intro e he
    rw [leaves.locks_eq] at he
    exact h e he

omit [DecidableEq ι] in
/-- As long as somebody has not returned, somebody can go on: whoever has the lock that others wait
for does not wait for it. -/
theorem Owned.someone_moves (h : t.Owned s) (ho : t.Ordered cwd s) {j : ι}
    (hj : (s.tasks j).result? = none) : ∃ k, (s.tasks k).result? = none ∧ ¬ IsBlocked s k := by
  by_cases hb : IsBlocked s j
  · obtain ⟨x, wait, next, -, -, hlock⟩ := hb
    unfold Kernel.tryLock at hlock
    split at hlock
    · cases hlock
    rename_i id hid
    split at hlock
    · rename_i holder hholder
      obtain ⟨before, after, hlocks, -⟩ := List.lookup_eq_some_iff.mp hholder
      obtain ⟨k, hk⟩ := h (id, holder) (by simp [hlocks])
      refine ⟨k, ?_, ?_⟩
      · by_contra hreturned
        obtain ⟨r, hr⟩ := Option.ne_none_iff_exists'.mp hreturned
        obtain ⟨outcome, hover⟩ := eq_returned_of_ends (ho.ends hr)
        rw [hover] at hk
        cases hk
      · rintro ⟨y, wait, next, hrest, -⟩
        have hmay := ho.may hrest
        generalize t.stageOf s k = stage at hk hmay
        cases hmay
        cases hk
    · cases hlock
  · exact ⟨j, hj, hb⟩

theorem Owned.run (ha : t.Apart cwd) (he : t.Exclusive cwd s) (h : t.Owned s)
    (hrun : Scene.Runs (t.around cwd (t.smooth cwd)) s s') : t.Owned s' := by
  induction hrun with
  | refl => exact h
  | tail hrun hstep ih => exact ih.happens (he.run ha hrun).ordered ha (happens_of_step hstep)

/-- The same customs, with any replies. -/
def Customs.anyReply (a : Customs) : Customs := { a with reply := fun _ _ _ => True }

/-- Who is not blocked gets on. -/
theorem Ordered.gets_on (ho : t.Ordered cwd s) (hk : (s.tasks k).result? = none)
    (hfree : ¬ IsBlocked s k) : ∃ s', Scene.Step (t.around cwd (t.smooth cwd).anyReply) s s' ∧
    (s.tasks k).turns < (s'.tasks k).turns := by
  have hwaits := ho.waits k
  rcases hat : s.tasks k with ⟨past, rest, waiting⟩
  cases rest with
  | done a =>
    rw [hat] at hk
    cases hk
  | call c next =>
    have hmay := ho.may (congrArg rest hat)
    cases waiting with
    | false =>
      by_cases hc : c.waits = true
      · refine ⟨_, .wait hat hc, ?_⟩
        simp [turns]
      have hsome : s.machine.answer? c ≠ none := by
        rw [ne_eq, Machine.answer?_eq_none_iff]
        exact hc
      obtain ⟨⟨m, r⟩, hr⟩ := Option.ne_none_iff_exists'.mp hsome
      refine ⟨_, .call hat hr trivial, ?_⟩
      rw [setTask_self]
      exact turns_lt_reply past _ _ _ false
    | true =>
      rw [hat] at hwaits
      obtain ⟨c', next', hrest, hc⟩ := hwaits rfl
      cases hrest
      generalize t.stageOf s k = x at hmay
      cases hmay with
      | lock h wait =>
        cases hlock : s.machine.kernel.tryLock h with
        | none => exact absurd ⟨h, wait, next, by rw [hat], by rw [hat], hlock⟩ hfree
        | some kernel =>
          refine ⟨_, .reply hat hc ⟨trivial, .lock (.acquired hlock), ?_⟩, ?_⟩
          · intro command timeout hrun
            cases hrun
          rw [setTask_self]
          exact turns_lt_reply past _ _ _ true
      | run h timeout =>
        have hturn : t.Turn cwd s.machine (.run t.command timeout) (.error .noOutput) s.machine :=
          .run (Leaves.refl t cwd s.machine)
        refine ⟨_, .reply hat hc ⟨trivial, hturn, fun _ _ _ => trivial⟩, ?_⟩
        rw [setTask_self]
        exact turns_lt_reply past _ _ _ true
      | _ => cases hc

/-! ## The whole course -/

/-- Builders of a template whose file operations succeed and who wait long enough for the lock.
Never do two run a command at a time. Once one of them has built, no command is run any more and all
others find its work. If commands succeed and there was no finished build at first, one command is
run in all and one of them has built. Each makes a bounded number of calls, and as long as one of
them has not returned, one of them can get on. -/
theorem builders_build_once (t : Template) (cwd : Place) {name : String}
    (hlock : t.lockPath = lockPathOf t.root) (hname : Path.fileName? t.root = some name)
    (hdots : ".." ∉ Path.names t.root) (hm : t.Site cwd m) (hfree : m.locks = [])
    (hrun : Scene.Runs (t.around cwd (t.smooth cwd)) (t.gathering m) s) :
    (∀ i j, (s.tasks i).IsRunning → (s.tasks j).IsRunning → i = j) ∧
    (∀ i, (s.tasks i).result? = some (.ok true) →
      ∀ s', Scene.Runs (t.around cwd (t.smooth cwd)) s s' →
        s'.calls = s.calls ∧
        ∀ j, (s.tasks j).result? = none →
          ∀ r, (s'.tasks j).result? = some r → r = .ok false) ∧
    (¬ t.IsMarked cwd m → AllWell s → Nonempty ι → (∀ i, (s.tasks i).result? ≠ none) →
      s.calls.length = m.calls.length + 1 ∧
      ∃! i, (s.tasks i).result? = some (.ok true)) ∧
    (∀ i, (s.tasks i).past.length ≤ 23) ∧
    (∀ j, (s.tasks j).result? = none →
      ∃ k s', Scene.Step (t.around cwd (t.smooth cwd).anyReply) s s' ∧
        (s.tasks k).turns < (s'.tasks k).turns) := by
  have ha := apart_of_lockPathOf cwd hlock hname hdots
  have hstart : t.Exclusive cwd (t.gathering m : Builders ι) := exclusive_gathering hm
  have he := hstart.run ha hrun
  refine ⟨fun i j hi hj => ?_, fun i hi s' hrun' => ?_, fun hmarked hwell hsome hall => ?_,
    fun i => ?_, fun j hj => ?_⟩
  · obtain ⟨k, hk⟩ := Stage.holding_of_isBuilding (he.ordered.isBuilding_of_isRunning hi)
    exact he.ordered.isBuilding_unique hk (he.ordered.isBuilding_of_isRunning hj)
  · have hafter := (he.afterBuild hi).run ha hrun'
    refine ⟨hafter.calls, fun j hj r hr => ?_⟩
    have hij : i ≠ j := by
      rintro rfl
      rw [hi] at hj
      cases hj
    exact hafter.says_false hij hj hr
  · exact ((single_gathering hmarked).run ha hstart hrun hwell).at_end he hsome hall
  · obtain ⟨k, -, hle⟩ := hrun.isWithin (fun _ => ⟨23, ensure_within t, Nat.le_refl 23⟩) i
    omega
  have howned : t.Owned (t.gathering m : Builders ι) := by
    intro e hmem
    rw [gathering, hfree] at hmem
    cases hmem
  obtain ⟨k, hk, hblocked⟩ := (howned.run ha hstart hrun).someone_moves he.ordered hj
  obtain ⟨s', hstep, hturns⟩ := he.ordered.gets_on hk hblocked
  exact ⟨k, s', hstep, hturns⟩

/-- A check that a call succeeds. -/
def goesWell : (c : Call) → c.Reply → Bool
  | .makeDirs _, .error _ => false
  | .writeFile .., .error _ => false
  | .markLock .., .error _ => false
  | .openLock _, .error _ => false
  | .removeTree _, .error e => e == .notFound
  | .lock .., .stillHeld => false
  | .lock .., .failed _ => false
  | .run .., .error _ => false
  | .run .., .ok result => result.succeeded
  | _, _ => true

theorem succeeds_of_goesWell (h : goesWell c r = true) : Succeeds c r := by
  cases c with
  | makeDirs | writeFile | markLock =>
    cases r with
    | ok _ => rfl
    | error e => cases h
  | openLock =>
    cases r with
    | ok handle => exact ⟨handle, rfl⟩
    | error e => cases h
  | removeTree =>
    cases r with
    | ok _ => exact .inl rfl
    | error e => exact .inr (congrArg Except.error (eq_of_beq h))
  | lock =>
    cases r with
    | acquired => rfl
    | _ => cases h
  | _ => trivial

theorem runsWell_of_goesWell (h : goesWell c r = true) : RunsWell c r := by
  cases c with
  | run =>
    cases r with
    | ok result => exact ⟨result, rfl, h⟩
    | error fault => cases h
  | _ => trivial

theorem succeeds_of_promptly (h : promptly true m c = some (m', r)) : Succeeds c r := by
  cases c with
  | lock handle wait =>
    simp only [promptly] at h
    split at h
    · cases h
      rfl
    · cases h
  | run => trivial
  | _ => cases h

/-- Calls are answered only if that goes well. -/
def onlyWell (m : Machine) (c : Call) : Bool := (m.answer? c).all fun answer => goesWell c answer.2

/-- What two builders come to, and whether all went well. -/
def pairOutcome (s : Builders (Fin 2)) : Option Bool × Option Bool × Bool :=
  ((s.tasks 0).value?, (s.tasks 1).value?,
    (List.finRange 2).all fun i => (s.tasks i).past.all fun e => goesWell e.call e.reply)

/-- One of two builders gets the lock, and the other waits for it and finds the finished build. -/
theorem builders_build_once_pair :
    ∃ s : Builders (Fin 2),
      Scene.Runs (sample.around [] (sample.smooth [])) (sample.gathering .bare) s ∧
      (s.tasks 0).result? = some (.ok true) ∧ (s.tasks 1).result? = some (.ok false) ∧
      s.calls.length = 1 ∧ ∃! i, (s.tasks i).result? = some (.ok true) := by
  have hplay : ((sample.gathering .bare : Builders (Fin 2)).play onlyWell (fun _ => promptly true)
      (List.replicate 4 0 ++ List.replicate 4 1 ++ List.replicate 16 0 ++ List.replicate 8 1)).map
      pairOutcome = some (some true, some false, true) := by
    decide +kernel
  obtain ⟨s, hs, hlast⟩ := Option.map_eq_some_iff.mp hplay
  simp only [pairOutcome, Prod.mk.injEq, List.all_eq_true] at hlast
  obtain ⟨hfirst, hsecond, hwell⟩ := hlast
  have hfirst := Activity.result?_of_value? hfirst
  have hsecond := Activity.result?_of_value? hsecond
  have hruns : Scene.Runs (sample.around [] (sample.smooth [])) (sample.gathering .bare) s := by
    refine Scene.runs_of_play ?_ ?_ hs
    · intro i m c r m' hallows hr
      rw [onlyWell, hr] at hallows
      exact succeeds_of_goesWell hallows
    · intro i m c r m' hr
      exact ⟨succeeds_of_promptly hr, turn_of_promptly hr, fun _ _ _ => trivial⟩
  have hall : AllWell s := by
    intro i e he
    exact runsWell_of_goesWell (hwell i (List.mem_finRange i) e he)
  have hreturned : ∀ i, (s.tasks i).result? ≠ none := by
    intro i
    match i with
    | 0 => simp [hfirst]
    | 1 => simp [hsecond]
  have hunmarked : ¬ sample.IsMarked [] .bare := by
    unfold IsMarked
    decide +kernel
  have hname : Path.fileName? sample.root = some "t" := by decide +kernel
  have honce := (builders_build_once sample [] rfl hname (by decide +kernel)
    (site_bare sample) rfl hruns).2.2.1 hunmarked hall ⟨0⟩ hreturned
  exact ⟨s, hruns, hfirst, hsecond, honce⟩

/-! ## A command that removes the lock file -/

/-- All goes well, but a command that is under way may remove the lock file. -/
def unlocking (t : Template) (cwd : Place) : Rules ι fun _ => Except Fault Bool where
  prompt _ _ c r _ := Succeeds c r
  late _ m c r m' := Succeeds c r ∧ t.Turn cwd m c r m'
  beside s m' := (∃ i, (s.tasks i).IsRunning) ∧ ∃ files,
    s.files.removeFile cwd t.lockPath = .ok files ∧ m' = s.machine.withFiles files

/-- The second of two builders makes a lock file of its own, and both build at once. -/
theorem builders_build_together_unlocked : ∃ s : Builders (Fin 2),
    Scene.Runs (sample.unlocking []) (sample.gathering .bare) s ∧
    (s.tasks 0).IsRunning ∧ (s.tasks 1).IsRunning ∧ s.calls.length = 2 := by
  have hruns {s s' : Builders (Fin 2)} {order : List (Fin 2)}
      (h : s.play onlyWell (fun _ => promptly true) order = some s') :
      Scene.Runs (sample.unlocking []) s s' := by
    refine Scene.runs_of_play ?_ ?_ h
    · intro i m c r m' hallows hr
      rw [onlyWell, hr] at hallows
      exact succeeds_of_goesWell hallows
    · intro i m c r m' hr
      exact ⟨succeeds_of_promptly hr, turn_of_promptly hr⟩
  have hplay : ((sample.gathering .bare : Builders (Fin 2)).play onlyWell (fun _ => promptly true)
      (List.replicate 14 0)).bind (fun s =>
        (s.files.removeFile [] sample.lockPath).toOption.bind fun files =>
          ((⟨s.machine.withFiles files, s.tasks⟩ : Builders (Fin 2)).play onlyWell
            (fun _ => promptly true) (List.replicate 14 1)).map fun s' =>
              ((s.tasks 0).command?.isSome, (s'.tasks 0).command?.isSome,
                (s'.tasks 1).command?.isSome, s'.calls.length)) =
      some (true, true, true, 2) := by
    decide +kernel
  obtain ⟨s, hs, hrest⟩ := Option.bind_eq_some_iff.mp hplay
  obtain ⟨files, hfiles, hrest⟩ := Option.bind_eq_some_iff.mp hrest
  obtain ⟨s', hs', hlast⟩ := Option.map_eq_some_iff.mp hrest
  simp only [Prod.mk.injEq] at hlast
  obtain ⟨hbuilds, hfirst, hsecond, hcalls⟩ := hlast
  have hremoved : Scene.Step (sample.unlocking []) s ⟨s.machine.withFiles files, s.tasks⟩ :=
    .beside ⟨⟨0, isRunning_of_command? hbuilds⟩, files, Except.eq_ok_of_toOption hfiles, rfl⟩
  exact ⟨s', ((hruns hs).tail hremoved).trans (hruns hs'), isRunning_of_command? hfirst,
    isRunning_of_command? hsecond, hcalls⟩

end Template

end Foundry
