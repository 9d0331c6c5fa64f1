import Foundry.Proofs.Template.Builders

/-!
# A template is built once

Builders whose file operations succeed and who do not tire of waiting for the lock
never build side by side. Whoever finds the marker under the lock does not build, so
once one of them has built, nobody builds again.
-/

namespace Foundry

namespace Template

variable {t : Template} {cwd : Place} {m m' : Machine} {r : Except Fault Bool} {c : Call}
  {x : Stage}

/-! ## Stages that matter -/

namespace Stage

/-- The template has been built. -/
def isDone : Stage → Bool
  | .marked _ | .returned (some true) => true
  | _ => false

/-- The directory may be half built. -/
def isBuilding : Stage → Bool
  | .building _ | .built _ | .failed _ => true
  | _ => false

/-- Something has gone wrong. -/
def isBroken : Stage → Bool
  | .refused _ | .failed _ | .returned none => true
  | _ => false

/-- Nobody knows yet whether to build. -/
def isEarly : Stage → Bool
  | .start | .absent | .opened _ | .held _ => true
  | _ => false

/-- A builder that builds or has built. -/
def isBegun : Stage → Bool
  | .building _ | .built _ | .marked _ | .returned (some true) => true
  | _ => false

/-- The build command has come to its end, and well. -/
def isBuilt : Stage → Bool
  | .built _ | .marked _ | .returned (some true) => true
  | _ => false

variable {x : Stage} {c : Call}

theorem holding_of_isBuilding (h : x.isBuilding = true) : ∃ k, x.holding? = some k := by
  cases x <;> simp [isBuilding, holding?] at h ⊢

/-- Files are written and removed, and commands run, only while building. -/
theorem May.quiet (h : x.May t c) (hx : x.isBuilding = false) :
    c.removes = false ∧ c.writes = false := by
  cases h with
  | settle | clear | warn | close => exact ⟨rfl, rfl⟩
  | _ => simp_all [isBuilding, Call.removes, Call.writes]

end Stage

/-- Only writing the marker makes a builder done. -/
theorem Turn.isDone (ha : t.Apart cwd) (hm : t.Site cwd m) {r : c.Reply} (hmay : x.May t c)
    (turn : t.Turn cwd m c r m') (h : (x.after c r).isDone = true) :
    x.isDone = true ∨ x.isBuilding = true ∧ t.IsMarked cwd m' := by
  cases hmay with
  | writeMarker =>
    cases r with
    | ok _ => exact .inr ⟨rfl, turn.isMarked_written ha hm⟩
    | error e => cases h
  | look | makeLockDir | openLock | lock | mark | lookAgain | makeSourceDir | writeManifest
  | writeSource => cases r <;> cases h
  | run =>
    cases r with
    | error fault => cases h
    | ok result => by_cases hs : result.succeeded =
        true <;> simp [Stage.after, hs, Stage.isDone] at h
  | settle hs | clear hs | warn hs | close hs =>
    cases x <;> simp [Stage.after, Stage.ending?, Stage.isDone] at hs h ⊢
  | _ => cases h

/-- Only a builder that has the lock and does not see the marker begins to build. -/
theorem Turn.isBuilding (hm : t.Site cwd m) {r : c.Reply} (hmay : x.May t c)
    (turn : t.Turn cwd m c r m')
    (h : (x.after c r).isBuilding = true) : x.isBuilding = true ∨ ¬ t.IsMarked cwd m := by
  cases hmay with
  | lookAgain =>
    cases r with
    | true => cases h
    | false =>
      refine .inr fun hmarked => ?_
      cases (turn.look hm).2.mpr hmarked
  | look | makeLockDir | openLock | lock | mark => cases r <;> cases h
  | settle hs | clear hs | warn hs | close hs =>
    cases x <;> simp [Stage.after, Stage.ending?, Stage.isBuilding] at hs h ⊢
  | closeRefused | ownPid | owe => cases h
  | _ => exact .inl rfl

/-! ## Nobody builds after a build -/

/-- File operations succeed, and waiting for the lock ends with getting it. -/
def Succeeds : (c : Call) → c.Reply → Prop
  | .makeDirs _, r => r = .ok ()
  | .writeFile .., r => r = .ok ()
  | .markLock .., r => r = .ok ()
  | .openLock _, r => ∃ handle, r = .ok handle
  | .removeTree _, r => r = .ok () ∨ r = .error .notFound
  | .lock .., r => r = .acquired
  | _, _ => True

theorem Succeeds.hears (c : Call) (r : c.Reply) (h : Succeeds c r) : Stage.hears c r := by
  cases c with
  | lock handle wait =>
    rintro rfl
    cases h
  | _ => trivial

/-- Commands succeed. -/
def RunsWell : (c : Call) → c.Reply → Prop
  | .run .., r => ∃ result, r = .ok result ∧ result.succeeded = true
  | _, _ => True

theorem runsWell_of_writes (h : c.writes = false) (r : c.Reply) : RunsWell c r := by
  cases c with
  | run => cases h
  | _ => trivial

namespace Stage

variable {x : Stage} {c : Call} {r : c.Reply}

theorem May.not_refused (h : x.May t c) (hr : Succeeds c r) (k : Nat) :
    x.after c r ≠ .refused k := by
  cases h with
  | mark =>
    cases hr
    simp [after]
  | lock =>
    cases hr
    simp [after]
  | look | makeLockDir | openLock | lookAgain | makeSourceDir | writeManifest | writeSource
  | writeMarker => cases r <;> simp [after]
  | run =>
    cases r with
    | error fault => simp [after]
    | ok result => by_cases hs : result.succeeded = true <;> simp [after, hs]
  | settle hs | clear hs | warn hs | close hs => cases x <;> simp [after, ending?] at hs ⊢
  | _ => simp [after]

/-- As long as file operations and commands succeed nothing goes wrong. -/
theorem May.isBroken (h : x.May t c) (hr : Succeeds c r) (hw : RunsWell c r)
    (hx : x.isBroken = false) : (x.after c r).isBroken = false := by
  cases h with
  | mark | lock | makeLockDir | makeSourceDir | writeManifest | writeSource | writeMarker =>
    cases hr
    rfl
  | openLock =>
    obtain ⟨handle, rfl⟩ := hr
    rfl
  | look | lookAgain => cases r <;> rfl
  | run =>
    obtain ⟨result, rfl, hs⟩ := hw
    simp [after, hs, Stage.isBroken]
  | settle hs | clear hs | warn hs | close hs =>
    cases x <;> simp [after, ending?, Stage.isBroken] at hs hx ⊢
  | closeRefused | discardFailed => cases hx
  | _ => rfl

theorem May.isDone (h : x.May t c) (hx : x.isDone = true) : (x.after c r).isDone = true := by
  cases h with
  | settle hs | clear hs | warn hs | close hs =>
    cases x <;> simp [after, ending?, Stage.isDone] at hs hx ⊢
  | _ => cases hx

end Stage

/-- Nobody else makes or removes the marker. -/
def smooth (t : Template) (cwd : Place) : Customs where
  reply _ := Succeeds
  command _ _ := True
  others m m' := t.IsMarked cwd m' ↔ t.IsMarked cwd m

variable {ι : Type} {s s' : Builders ι} {i j : ι}

/-- What holds of builders whose file operations succeed: nobody is refused the lock, once one is
done the marker is there and nobody builds, and at most one is done. -/
structure Exclusive (t : Template) (cwd : Place) (s : Builders ι) : Prop where
  ordered : t.Ordered cwd s
  taken : ∀ i h, t.stageOf s i ≠ .refused h
  done : ∀ i, (t.stageOf s i).isDone = true →
    t.IsMarked cwd s.machine ∧ ∀ j, (t.stageOf s j).isBuilding = false
  once : ∀ i j, (t.stageOf s i).isDone = true → (t.stageOf s j).isDone = true → i = j

theorem exclusive_gathering (hm : t.Site cwd m) : t.Exclusive cwd (t.gathering m : Builders ι) where
  ordered := ordered_gathering hm
  taken _ _ h := by cases h
  done _ h := by cases h
  once _ _ h := by cases h

theorem Exclusive.of_stages (h : t.Exclusive cwd s) (ho : t.Ordered cwd s')
    (hstage : t.stageOf s' = t.stageOf s)
    (hmarked : t.IsMarked cwd s.machine → t.IsMarked cwd s'.machine) : t.Exclusive cwd s' := by
  refine ⟨ho, hstage ▸ h.taken, fun i hi => ?_, fun i j hi hj => ?_⟩
  · rw [hstage] at hi ⊢
    exact ⟨hmarked (h.done i hi).1, (h.done i hi).2⟩
  rw [hstage] at hi hj
  exact h.once i j hi hj

/-- A builder that has the lock is the only one that can be building. -/
theorem Ordered.isBuilding_unique (h : t.Ordered cwd s) {k : Nat}
    (hi : (t.stageOf s i).holding? = some k) (hj : (t.stageOf s j).isBuilding = true) : i = j := by
  obtain ⟨k', hk'⟩ := Stage.holding_of_isBuilding hj
  exact h.table.holder_unique hi hk'

variable [DecidableEq ι] {s₀ : Builders ι}

theorem Exclusive.advances (h : t.Exclusive cwd s) (ha : t.Apart cwd) (ho : t.Ordered cwd s')
    {r : c.Reply} (hr : Succeeds c r) (hadv : t.Advances cwd s s' i c r) : t.Exclusive cwd s' := by
  have hsite := h.ordered.site
  -- whoever is done was done before, or has just written the marker while building
  have hdone : ∀ j, (t.stageOf s' j).isDone = true → (t.stageOf s j).isDone = true ∨
      j = i ∧ (t.stageOf s i).isBuilding = true ∧ t.IsMarked cwd s'.machine := by
    intro j hj
    by_cases hji : j = i
    · subst hji
      rw [hadv.self] at hj
      rcases hadv.turn.isDone ha hsite hadv.may hj with hold | hnew
      · exact .inl hold
      · exact .inr ⟨rfl, hnew⟩
    · rw [hadv.other j hji] at hj
      exact .inl hj
  refine ⟨ho, fun j => ?_, fun j hj => ?_, fun j k hj hk => ?_⟩
  · by_cases hji : j = i
    · rw [hji, hadv.self]
      exact hadv.may.not_refused hr
    rw [hadv.other j hji]
    exact h.taken j
  · rcases hdone j hj with hold | ⟨rfl, hbuilding, hmarked⟩
    · obtain ⟨hmarked, hnone⟩ := h.done j hold
      obtain ⟨hremoves, -⟩ := hadv.may.quiet (hnone i)
      refine ⟨hadv.turn.isMarked_of_removes ha hsite ho.site hadv.may hremoves hmarked, fun k => ?_⟩
      by_cases hki : k = i
      · subst hki
        by_contra hk
        rw [Bool.not_eq_false, hadv.self] at hk
        rcases hadv.turn.isBuilding hsite hadv.may hk with hk | hk
        · rw [hnone k] at hk
          cases hk
        · exact hk hmarked
      · rw [hadv.other k hki]
        exact hnone k
    · refine ⟨hmarked, fun k => ?_⟩
      obtain ⟨x, hx⟩ := Stage.holding_of_isBuilding hbuilding
      by_cases hkj : k = j
      · cases hstage : t.stageOf s' k <;> simp_all [Stage.isDone, Stage.isBuilding]
      rw [hadv.other k hkj]
      by_contra hk
      exact hkj (h.ordered.isBuilding_unique hx (by simpa using hk)).symm
  · rcases hdone j hj with hj | ⟨rfl, hbuilding, -⟩
    · rcases hdone k hk with hk | ⟨rfl, hbuilding, -⟩
      · exact h.once j k hj hk
      rw [(h.done j hj).2 k] at hbuilding
      cases hbuilding
    · rcases hdone k hk with hk | ⟨rfl, -⟩
      · rw [(h.done k hk).2 j] at hbuilding
        cases hbuilding
      · rfl

theorem Exclusive.happens (h : t.Exclusive cwd s) (ha : t.Apart cwd)
    (hs : t.Happens cwd (t.smooth cwd) s s') : t.Exclusive cwd s' := by
  have ho := h.ordered.happens ha (fun _ => Succeeds.hears) hs
  cases hs with
  | turn at_ reply turn command =>
    exact h.advances ha ho reply (h.ordered.advances ha at_ (Succeeds.hears _ _ reply) turn)
  | wait at_ waits =>
    refine h.of_stages ho (stageOf_wait _ at_) fun hmarked => ?_
    simpa [IsMarked] using hmarked
  | beside leaves others => exact h.of_stages ho rfl others.mpr

theorem Exclusive.run (ha : t.Apart cwd) (h : t.Exclusive cwd s)
    (hrun : Scene.Runs (t.around cwd (t.smooth cwd)) s s') : t.Exclusive cwd s' :=
  hrun.invariant h fun _ _ hstep h => h.happens ha (happens_of_step hstep)

/-! ## What builders come to -/

omit [DecidableEq ι] in
theorem Ordered.isBuilding_of_isRunning (h : t.Ordered cwd s) (hi : (s.tasks i).IsRunning) :
    (t.stageOf s i).isBuilding = true := by
  obtain ⟨-, command, timeout, next, hrest⟩ := hi
  have hmay := h.may hrest
  generalize t.stageOf s i = x at hmay
  cases hmay
  rfl

omit [DecidableEq ι] in
theorem Ordered.ends (h : t.Ordered cwd s) (hr : (s.tasks i).result? = some r) :
    (t.stageOf s i).ends r := by
  have hk := h.keeps i
  unfold Activity.result? at hr
  split at hr
  · rename_i value hrest
    cases hr
    rw [Activity.Keeps, hrest, Program.obeys_done] at hk
    exact hk
  · cases hr

theorem Stage.eq_returned_of_ends (h : x.ends r) : ∃ outcome, x = .returned outcome := by
  cases x with
  | returned outcome => exact ⟨outcome, rfl⟩
  | _ => cases h

omit [DecidableEq ι] in
/-- A builder that has made its last call has returned. -/
theorem Ordered.result_of_returned (h : t.Ordered cwd s) {outcome : Option Bool}
    (hi : t.stageOf s i = .returned outcome) : (s.tasks i).result? ≠ none := by
  intro hnone
  unfold Activity.result? at hnone
  split at hnone
  · cases hnone
  rename_i c next hrest
  have hmay := h.may hrest
  rw [hi] at hmay
  cases hmay with
  | settle hs | clear hs | warn hs | close hs => cases hs

/-- After a build no command is run any more, and nothing goes wrong for those who are still to
return. -/
structure AfterBuild (t : Template) (cwd : Place) (s s' : Builders ι) (i : ι) : Prop where
  exclusive : t.Exclusive cwd s'
  done : (t.stageOf s' i).isDone = true
  calls : s'.calls = s.calls
  unbroken : ∀ j, (s.tasks j).result? = none → (t.stageOf s' j).isBroken = false

theorem AfterBuild.happens (ha : t.Apart cwd) (h : t.AfterBuild cwd s₀ s i)
    (hs : t.Happens cwd (t.smooth cwd) s s') : t.AfterBuild cwd s₀ s' i := by
  have he := h.exclusive.happens ha hs
  have hnone := (h.exclusive.done i h.done).2
  cases hs with
  | @turn k past c next r m at_ reply turn command =>
    have hadv := h.exclusive.ordered.advances ha at_ (Succeeds.hears _ _ reply) turn
    obtain ⟨-, hwrites⟩ := hadv.may.quiet (hnone k)
    refine ⟨he, ?_, hadv.effect.calls.trans h.calls, fun j hj => ?_⟩
    · by_cases hik : i = k
      · rw [hik, hadv.self]
        exact hadv.may.isDone (hik ▸ h.done)
      rw [hadv.other i hik]
      exact h.done
    · by_cases hjk : j = k
      · subst hjk
        rw [hadv.self]
        exact hadv.may.isBroken reply (runsWell_of_writes hwrites r) (h.unbroken j hj)
      · rw [hadv.other j hjk]
        exact h.unbroken j hj
  | @wait k past c next at_ waits =>
    have hmay := h.exclusive.ordered.may (congrArg Activity.rest at_)
    obtain ⟨-, hwrites⟩ := hmay.quiet (hnone k)
    have hstage : t.stageOf (s.setTask (s.machine.noting c) k ⟨past, .call c next, true⟩) =
        t.stageOf s :=
      stageOf_wait _ at_
    refine ⟨he, hstage ▸ h.done, ?_, hstage ▸ h.unbroken⟩
    rw [← h.calls]
    cases c with
    | run => cases hwrites
    | _ => rfl
  | beside leaves others => exact ⟨he, h.done, leaves.calls_eq.trans h.calls, h.unbroken⟩

omit [DecidableEq ι] in
/-- Once one has said that it has built, the build is over. -/
theorem Exclusive.afterBuild (h : t.Exclusive cwd s) (hi : (s.tasks i).result? = some (.ok true)) :
    t.AfterBuild cwd s s i := by
  have hdone : (t.stageOf s i).isDone = true := by
    have hends := h.ordered.ends hi
    obtain ⟨outcome, hover⟩ := Stage.eq_returned_of_ends hends
    rw [hover] at hends ⊢
    rcases outcome with _ | said
    · obtain ⟨fault, hfault⟩ := hends
      cases hfault
    cases hends
    rfl
  refine ⟨h, hdone, rfl, fun j hj => ?_⟩
  have hbuilding := (h.done i hdone).2 j
  have htaken := h.taken j
  have hover := fun outcome (hx : t.stageOf s j = .returned outcome) =>
    h.ordered.result_of_returned hx hj
  generalize t.stageOf s j = x at hbuilding htaken hover
  cases x with
  | refused k => exact absurd rfl (htaken k)
  | failed k => cases hbuilding
  | returned outcome => exact absurd rfl (hover outcome)
  | _ => rfl

theorem AfterBuild.run (ha : t.Apart cwd) (h : t.AfterBuild cwd s₀ s i)
    (hrun : Scene.Runs (t.around cwd (t.smooth cwd)) s s') : t.AfterBuild cwd s₀ s' i := by
  induction hrun with
  | refl => exact h
  | tail _ hstep ih => exact ih.happens ha (happens_of_step hstep)

omit [DecidableEq ι] in
/-- Whoever returns after a build says that there was nothing to build. -/
theorem AfterBuild.says_false (h : t.AfterBuild cwd s s' i) (hij : i ≠ j)
    (hj : (s.tasks j).result? = none) (hr : (s'.tasks j).result? = some r) : r = .ok false := by
  have hends := h.exclusive.ordered.ends hr
  obtain ⟨outcome, hover⟩ := Stage.eq_returned_of_ends hends
  have hunbroken := h.unbroken j hj
  rcases outcome with _ | said
  · rw [hover] at hunbroken
    cases hunbroken
  cases said with
  | true =>
    have hdone : (t.stageOf s' j).isDone = true := by
      rw [hover]
      rfl
    exact absurd (h.exclusive.once i j h.done hdone) hij
  | false =>
    rw [hover] at hends
    exact hends

end Template

end Foundry
