import Foundry.Proofs.Template.Builders

/-!
# Who marks has built

A builder writes the marker only after its own command has succeeded, whether it has
the lock or not. So whenever the marker is there, it was there at first or somebody
has finished a build and marked it.
-/

namespace Foundry

open Program Action Machine

namespace Template

variable {t : Template} {cwd : Place} {m m' : Machine} {past : List Event} {x : Stage} {ran : Bool}
  {c : Call} {r : c.Reply}

/-! ## The discipline of marking -/

/-- The build command has succeeded. -/
def buildsWell (t : Template) : (c : Call) → c.Reply → Bool
  | .run command _, .ok result => command == t.command && result.succeeded
  | _, _ => false

/-- The calls of all stages, where the marker is written only after a successful build. -/
def marking (t : Template) : Discipline Bool where
  may ran c := ∃ x : Stage, x.May t c ∧ ((∃ h, x = .built h) → ran = true)
  hears _ _ _ := True
  after ran c r := ran || t.buildsWell c r

namespace Stage

/-- The stages after the lock. -/
def isInside : Stage → Bool
  | .start | .absent | .opened _ => false
  | _ => true

variable {x : Stage} {c : Call} {r : c.Reply}

theorem May.isInside (h : x.May t c) (hx : x.isInside = true) :
    (x.after c r).isInside = true ∧ Stage.hears c r := by
  cases h with
  | look | makeLockDir | openLock | lock => cases hx
  | mark | lookAgain | makeSourceDir | writeManifest | writeSource | writeMarker =>
    cases r <;> exact ⟨rfl, trivial⟩
  | run =>
    cases r with
    | error fault => exact ⟨rfl, trivial⟩
    | ok result => by_cases hs : result.succeeded = true <;> simp [after, hs, Stage.isInside, hears]
  | settle hs | clear hs | warn hs | close hs =>
    cases x <;> simp [after, ending?, Stage.isInside, hears] at hs ⊢
  | _ => exact ⟨rfl, trivial⟩

/-- Only a successful command leads to a finished build. -/
theorem May.eq_built (h : x.May t c) {k : Nat} (hx : x.after c r = .built k) :
    x = .built k ∨ t.buildsWell c r = true := by
  cases h with
  | look | makeLockDir | openLock | lock | mark | lookAgain | makeSourceDir | writeManifest
  | writeSource | writeMarker => cases r <;> cases hx
  | run =>
    cases r with
    | error fault => cases hx
    | ok result => by_cases hs : result.succeeded = true <;> simp [after, hs, buildsWell] at hx ⊢
  | settle hs | clear hs | warn hs | close hs =>
    cases x <;> simp [after, ending?] at hs hx
  | today => exact .inl hx
  | _ => cases hx

end Stage

/-- What is done after the lock keeps to the discipline of marking, whatever the replies are. -/
theorem marking_of_staging {α : Type} {p : Program α} {ends : Stage → α → Prop}
    (h : p.Obeys t.staging ends x) (hx : x.isInside = true)
    (hran : (∃ k, x = .built k) → ran = true) : p.Obeys t.marking (fun _ _ => True) ran := by
  induction p generalizing x ran with
  | done a => exact obeys_done.mpr trivial
  | call c next ih =>
    obtain ⟨hmay, hnext⟩ := obeys_call.mp h
    refine obeys_call.mpr ⟨⟨x, hmay, hran⟩, fun r _ => ?_⟩
    obtain ⟨hinside, hhears⟩ := Stage.May.isInside (r := r) hmay hx
    refine ih r (hnext r hhears) hinside ?_
    rintro ⟨k, hk⟩
    rcases Stage.May.eq_built hmay hk with hx | hwell
    · simp [marking, hran ⟨k, hx⟩]
    · simp [marking, hwell]

/-- Calls of the other stages may be made at any time. -/
theorem ask_marking (c : Call) (hmay : x.May t c) (hx : ∀ h, x ≠ .built h := by simp) :
    (ask c).Obeys t.marking (fun _ _ => True) ran := by
  refine obeys_ask ⟨x, hmay, ?_⟩ fun _ _ => trivial
  rintro ⟨h, hbuilt⟩
  exact absurd hbuilt (hx h)

theorem acquire_marking : t.acquire.run.Obeys t.marking (fun _ _ => True) ran := by
  have hparent : (makeParent t.lockPath).run.Obeys t.marking (fun _ _ => True) ran := by
    unfold makeParent
    split
    · rename_i dir _
      exact obeys_orFail (ask_marking (.makeDirs dir) (.makeLockDir dir))
        (fun _ _ _ => trivial) fun _ _ _ => trivial
    · exact obeys_done.mpr trivial
  refine Action.obeys_bind hparent (fun y _ _ => ?_) fun _ _ _ => trivial
  refine obeys_orFail_bind (ask_marking (.openLock t.lockPath) .openLock)
    (fun y handle _ => ?_) fun _ _ _ => trivial
  refine obeys_lift_bind (ask_marking (.lock handle t.lockWait) (.lock ..))
    fun y r _ => ?_
  cases r with
  | acquired =>
    refine obeys_lift_bind (ask_marking .ownPid (.ownPid handle)) fun y pid _ => ?_
    refine obeys_lift_bind (ask_marking (.markLock handle _) (.mark ..))
      fun y r _ => ?_
    cases r with
    | ok _ => exact obeys_done.mpr trivial
    | error e =>
      exact obeys_lift_bind (ask_marking (.closeLock handle) (.closeRefused _))
        fun _ _ _ => obeys_done.mpr trivial
  | stillHeld =>
    exact obeys_lift_bind (ask_marking (.warn _ _) (.warnBuilding handle _ _))
      fun _ _ _ => obeys_done.mpr trivial
  | failed e =>
    exact obeys_lift_bind (ask_marking (.closeLock handle) (.closeRefused _))
      fun _ _ _ => obeys_done.mpr trivial

theorem ensure_marking (t : Template) : t.ensure.run.Obeys t.marking (fun _ _ => True) false := by
  refine obeys_lift_bind (ask_marking (.isFile t.marker) .look) fun y r _ => ?_
  cases r with
  | true => exact obeys_done.mpr trivial
  | false =>
    refine Action.obeys_bind acquire_marking (fun y holding _ => ?_) fun _ _ _ => trivial
    cases holding with
    | some handle => exact marking_of_staging owing_obeys rfl nofun
    | none =>
      -- without the lock the same is done, so any handle will do
      exact marking_of_staging (buildIfMissing_obeys (h := 0)) rfl nofun

/-! ## What the past tells -/

/-- The marker has been written. -/
def marksReady (t : Template) : (c : Call) → c.Reply → Bool
  | .writeFile path _, .ok _ => path == t.marker
  | _, _ => false

/-- The build command has succeeded, and then the marker has been written. -/
def HasFinished (t : Template) (past : List Event) : Prop :=
  ∃ timeout result bytes, result.succeeded = true ∧
    [⟨.run t.command timeout, .ok result⟩, ⟨.writeFile t.marker bytes, .ok ()⟩].Sublist past

theorem HasFinished.append {later : List Event} (h : t.HasFinished past) :
    t.HasFinished (past ++ later) := by
  obtain ⟨timeout, result, bytes, hresult, hsub⟩ := h
  exact ⟨timeout, result, bytes, hresult, hsub.trans (List.sublist_append_left past later)⟩

theorem mem_of_marking (h : Activity.phase t.marking false past = true) :
    ∃ timeout result, result.succeeded = true ∧ (⟨.run t.command timeout, .ok result⟩ : Event) ∈
    past := by
  induction past using List.reverseRecOn with
  | nil => cases h
  | append_singleton past e ih =>
    rw [Activity.phase_concat] at h
    rcases Bool.or_eq_true_iff.mp h with hbefore | hnow
    · obtain ⟨timeout, result, hresult, hmem⟩ := ih hbefore
      exact ⟨timeout, result, hresult, List.mem_append_left _ hmem⟩
    rcases e with ⟨c, r⟩
    cases c with
    | run command timeout =>
      cases r with
      | error fault => cases hnow
      | ok result =>
        simp only [buildsWell, Bool.and_eq_true, beq_iff_eq] at hnow
        obtain ⟨rfl, hresult⟩ := hnow
        exact ⟨timeout, result, hresult, by simp⟩
    | _ => cases hnow

theorem hasFinished_concat {timeout : Duration} {result : CommandResult}
    (hresult : result.succeeded = true)
    (hmem : (⟨.run t.command timeout, .ok result⟩ : Event) ∈ past)
    (hready : t.marksReady c r = true) : t.HasFinished (past ++ [⟨c, r⟩]) := by
  cases c with
  | writeFile path bytes =>
    cases r with
    | error e => cases hready
    | ok _ =>
      simp only [marksReady, beq_iff_eq] at hready
      subst hready
      refine ⟨timeout, result, bytes, hresult, ?_⟩
      exact (List.singleton_sublist.mpr hmem).append (List.Sublist.refl _)
  | _ => cases hready

/-! ## Where the marker comes from -/

/-- The manifest and the source do not get to where the marker is. -/
def KeepsClear (t : Template) (cwd : Place) (m : Machine) : Call → Prop
  | .writeFile path _ =>
    path = t.manifestPath ∨ path = t.sourcePath → path ≠ t.marker ∧
      ∀ u, m.files.locate m.cwd true path = .ok u → u.place ≠ t.markerPlace cwd
  | _ => True

/-- Replies are what they like, but nobody else makes the marker. -/
def careful (t : Template) (cwd : Place) : Customs where
  reply m c _ := t.KeepsClear cwd m c
  command m m' := t.IsMarked cwd m' → t.IsMarked cwd m
  others m m' := t.IsMarked cwd m' → t.IsMarked cwd m

theorem isFileAt_of_writeFile {path : String} {bytes : ByteArray} {r : Except Cause Unit}
    {p : Place} (h : m.answer? (.writeFile path bytes) = some (m', r))
    (hclear : ∀ u, m.files.locate m.cwd true path = .ok u → u.place ≠ p)
    (hp : m'.files.IsFileAt p) : m.files.IsFileAt p := by
  simp only [answer?, changing, Option.some.injEq] at h
  split at h
  · rename_i files hw
    cases h
    obtain ⟨u, hu, ⟨id, old, mode, hs, -⟩ | ⟨rfl, -⟩⟩ := Files.edit_ok hw
    · exact ((Files.isFileAt_of_sets hs).mp hp).resolve_left fun heq => hclear u hu heq.symm
    · exact hp
  · cases h
    exact hp

/-- The marker comes only from writing it, which a builder does when its build is finished. -/
theorem Turn.isMarked_cases (ha : t.Apart cwd) (hm : t.Site cwd m) (hm' : t.Site cwd m')
    (hmay : x.May t c) (turn : t.Turn cwd m c r m') (hclear : t.KeepsClear cwd m c)
    (hcommand : ∀ command timeout, c = .run command timeout → t.IsMarked cwd m' → t.IsMarked cwd m)
    (h : t.IsMarked cwd m') : t.IsMarked cwd m ∨ (∃ k, x = .built k) ∧ t.marksReady c r = true := by
  by_cases hwrites : c.writes = false
  · exact .inl (turn.isMarked_of_writes ha hm hm' hmay hwrites h)
  cases hmay with
  | writeManifest | writeSource =>
    obtain ⟨-, hclear⟩ := hclear (by simp)
    rw [hm'.isMarked_iff ha] at h
    refine .inl ((hm.isMarked_iff ha).mpr ⟨h.1, ?_⟩)
    exact isFileAt_of_writeFile (turn.answered rfl) hclear h.2
  | writeMarker k bytes =>
    cases r with
    | ok _ => exact .inr ⟨⟨k, rfl⟩, by simp [marksReady]⟩
    | error e =>
      have hsame := turn.answered rfl
      simp only [answer?, changing, Option.some.injEq] at hsame
      split at hsame
      · cases hsame
      cases hsame
      exact .inl h
  | run k timeout => exact .inl (hcommand _ _ rfl h)
  | _ => exact absurd rfl hwrites

/-- No turn of a builder spoils the site, even that of one who gives up on the lock. -/
theorem Turn.site (ha : t.Apart cwd) (hm : t.Site cwd m) (hmay : x.May t c)
    (turn : t.Turn cwd m c r m') : t.Site cwd m' := by
  have hcases : Stage.hears c r ∨ m' = m := by
    cases turn with
    | lock h =>
      cases h with
      | stillHeld => exact .inr rfl
      | acquired | failed => exact .inl nofun
    | run h => exact .inl trivial
    | prompt h =>
      cases c with
      | lock => cases h
      | _ => exact .inl trivial
  rcases hcases with hhears | rfl
  · exact (turn.effect ha hm hmay hhears).site
  · exact hm

variable {ι : Type} {s s' : Builders ι}

/-- What holds of builders whatever the replies are. -/
structure Earned (t : Template) (cwd : Place) (m : Machine) (s : Builders ι) : Prop where
  site : t.Site cwd s.machine
  keeps : ∀ i, (s.tasks i).Keeps t.marking false fun _ _ => True
  earned : t.IsMarked cwd s.machine → t.IsMarked cwd m ∨ ∃ i, t.HasFinished (s.tasks i).past

theorem earned_gathering (hm : t.Site cwd m) : t.Earned cwd m (t.gathering m : Builders ι) where
  site := hm
  keeps _ := ensure_marking t
  earned := .inl

variable [DecidableEq ι]

theorem Earned.step (ha : t.Apart cwd) (h : t.Earned cwd m s)
    (hstep : Scene.Step (t.around cwd (t.careful cwd)) s s') : t.Earned cwd m s' := by
  have hkeeps : ∀ i, (s'.tasks i).Keeps t.marking false fun _ _ => True :=
    hstep.keeps (d := fun _ => t.marking) (x := fun _ => false) h.keeps
      (fun _ _ _ _ _ _ _ _ => trivial) fun _ _ _ _ _ _ _ _ => trivial
  have hearned : t.IsMarked cwd s.machine →
      t.IsMarked cwd m ∨ ∃ i, t.HasFinished (s'.tasks i).past := by
    intro hmarked
    rcases h.earned hmarked with hstart | ⟨j, hj⟩
    · exact .inl hstart
    refine .inr ⟨j, ?_⟩
    rcases hstep.past_cases j with hpast | ⟨c, r, hpast, -⟩
    · exact hpast ▸ hj
    · exact hpast ▸ hj.append
  cases happens_of_step hstep with
  | @turn i past c next r m' at_ reply turn command =>
    have hk := h.keeps i
    rw [Activity.Keeps, at_, obeys_call] at hk
    obtain ⟨⟨x, hmay, hran⟩, -⟩ := hk
    have hsite := turn.site ha h.site hmay
    refine ⟨hsite, hkeeps, fun hmarked => ?_⟩
    rcases turn.isMarked_cases ha h.site hsite hmay reply command hmarked with
      hbefore | ⟨hbuilt, hready⟩
    · exact hearned hbefore
    -- the marker has just been written, and the discipline says after what
    refine .inr ⟨i, ?_⟩
    obtain ⟨timeout, result, hresult, hmem⟩ := mem_of_marking (hran hbuilt)
    rw [Scene.setTask_self]
    exact hasFinished_concat hresult hmem hready
  | @wait i past c next at_ waits =>
    refine ⟨h.site.of_kernel_eq (noting_kernel s.machine c), hkeeps, fun hmarked => ?_⟩
    refine hearned ?_
    simpa [IsMarked] using hmarked
  | beside leaves others =>
    exact ⟨h.site.leaves leaves, hkeeps, fun hmarked => hearned (others hmarked)⟩

theorem Earned.run (ha : t.Apart cwd) (h : t.Earned cwd m s)
    (hrun : Scene.Runs (t.around cwd (t.careful cwd)) s s') : t.Earned cwd m s' := by
  induction hrun with
  | refl => exact h
  | tail _ hstep ih => exact ih.step ha hstep

end Template

end Foundry
