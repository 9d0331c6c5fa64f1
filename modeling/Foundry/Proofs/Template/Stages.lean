import Foundry.Proofs.Discipline
import Foundry.Template

/-!
# The stages of a builder

Making sure of the template goes through stages: looking for the marker, getting the
lock, looking again, building, and letting go of the lock. In each stage only a few
calls are made, whatever the replies are. The one case left out is a builder that
stops waiting for the lock.
-/

namespace Foundry

open Program Action

/-- The calls that change which lock files are open or locked. -/
def Call.isLocking : Call → Bool
  | .openLock _ | .lock .. | .closeLock _ => true
  | _ => false

namespace Template

/-- How far a builder has got. Handles are those of the open lock file. -/
inductive Stage where
  | start
  /-- The marker was not there. -/
  | absent
  | opened (handle : Nat)
  /-- Taking or marking the lock has failed. -/
  | refused (handle : Nat)
  | held (handle : Nat)
  /-- The marker was not there under the lock either. -/
  | building (handle : Nat)
  /-- The build command has succeeded. -/
  | built (handle : Nat)
  | failed (handle : Nat)
  /-- The marker has been written. -/
  | marked (handle : Nat)
  /-- Another builder has finished meanwhile. -/
  | spared (handle : Nat)
  /-- What is said in the end, none if that is a fault. -/
  | returned (outcome : Option Bool)
deriving DecidableEq

namespace Stage

/-- The handle of the open lock file. -/
def handle? : Stage → Option Nat
  | .opened h | .refused h | .held h | .building h | .built h | .failed h | .marked h | .spared h =>
    some h
  | _ => none

/-- The handle that has the lock. -/
def holding? : Stage → Option Nat
  | .held h | .building h | .built h | .failed h | .marked h | .spared h => some h
  | _ => none

/-- The stages that end with letting go of the lock. -/
def ending? : Stage → Option Nat
  | .failed h | .marked h | .spared h => some h
  | _ => none

/-- The calls of a stage. -/
inductive May (t : Template) : Stage → Call → Prop
  | look : May t .start (.isFile t.marker)
  | makeLockDir (dir : String) : May t .absent (.makeDirs dir)
  | openLock : May t .absent (.openLock t.lockPath)
  | lock (h : Nat) (wait : Duration) : May t (.opened h) (.lock h wait)
  | closeRefused (h : Nat) : May t (.refused h) (.closeLock h)
  | ownPid (h : Nat) : May t (.held h) .ownPid
  | mark (h : Nat) (bytes : ByteArray) : May t (.held h) (.markLock h bytes)
  | owe (h : Nat) (debt : Debt) : May t (.held h) (.owe debt)
  | lookAgain (h : Nat) : May t (.held h) (.isFile t.marker)
  | discard (h : Nat) : May t (.building h) (.removeTree t.root)
  | warnBuilding (h : Nat) (message : String) (fields : List (String × String)) :
      May t (.building h) (.warn message fields)
  | makeSourceDir (h : Nat) (dir : String) : May t (.building h) (.makeDirs dir)
  | writeManifest (h : Nat) (bytes : ByteArray) :
      May t (.building h) (.writeFile t.manifestPath bytes)
  | writeSource (h : Nat) (bytes : ByteArray) : May t (.building h) (.writeFile t.sourcePath bytes)
  | run (h : Nat) (timeout : Duration) : May t (.building h) (.run t.command timeout)
  | today (h : Nat) : May t (.built h) .today
  | writeMarker (h : Nat) (bytes : ByteArray) : May t (.built h) (.writeFile t.marker bytes)
  | discardFailed (h : Nat) : May t (.failed h) (.removeTree t.root)
  | settle {s : Stage} {h : Nat} (hs : s.ending? = some h) : May t s .settle
  | clear {s : Stage} {h : Nat} (hs : s.ending? = some h) (bytes : ByteArray) :
      May t s (.markLock h bytes)
  | warn {s : Stage} {h : Nat} (hs : s.ending? = some h) (message : String)
      (fields : List (String × String)) : May t s (.warn message fields)
  | close {s : Stage} {h : Nat} (hs : s.ending? = some h) : May t s (.closeLock h)

/-- Where a reply leads. -/
def after : Stage → (c : Call) → c.Reply → Stage
  | .start, .isFile _, r => if r then .returned (some false) else .absent
  | .absent, .makeDirs _, .error _ => .returned none
  | .absent, .openLock _, .ok handle => .opened handle
  | .absent, .openLock _, .error _ => .returned none
  | .opened h, .lock .., .acquired => .held h
  | .opened h, .lock .., .failed _ => .refused h
  | .refused _, .closeLock _, _ => .returned none
  | .held h, .markLock .., .error _ => .refused h
  | .held h, .isFile _, r => if r then .spared h else .building h
  | .building h, .makeDirs _, .error _ => .failed h
  | .building h, .writeFile .., .error _ => .failed h
  | .building h, .run .., .ok result => if result.succeeded then .built h else .failed h
  | .building h, .run .., .error _ => .failed h
  | .built h, .writeFile .., .ok _ => .marked h
  | .built h, .writeFile .., .error _ => .failed h
  | .failed _, .closeLock _, _ => .returned none
  | .marked _, .closeLock _, _ => .returned (some true)
  | .spared _, .closeLock _, _ => .returned (some false)
  | s, _, _ => s

/-- What a builder reckons with: everything but that it waits for the lock in vain. -/
def hears : (c : Call) → c.Reply → Prop
  | .lock .., r => r ≠ .stillHeld
  | _, _ => True

/-- What is said at the end of a stage. Only the last one is an end. -/
def ends : Stage → Except Fault Bool → Prop
  | .returned (some said), r => r = .ok said
  | .returned none, r => ∃ fault, r = .error fault
  | _, _ => False

/-- Other calls than those of locking leave a builder with its lock file, and give it no lock. -/
theorem May.keeps_handle {t : Template} {s : Stage} {c : Call} (h : s.May t c)
    (hc : c.isLocking = false) (r : c.Reply) : (s.after c r).handle? = s.handle? ∧
    ∀ k, (s.after c r).holding? = some k → s.holding? = some k := by
  cases h with
  | openLock | lock | closeRefused | close => cases hc
  | look | makeLockDir | mark | lookAgain | makeSourceDir | writeManifest | writeSource |
      writeMarker =>
    cases r <;> simp [after, handle?, holding?]
  | run h timeout =>
    cases r with
    | error fault => simp [after, handle?, holding?]
    | ok result => by_cases hs : result.succeeded = true <;> simp [after, handle?, holding?, hs]
  | ownPid | owe | discard | warnBuilding | today | discardFailed => simp [after, handle?, holding?]
  | settle hs | clear hs | warn hs => cases s <;> simp [after, handle?, holding?, ending?] at hs ⊢

end Stage

open Stage

/-- The discipline of a builder. -/
def staging (t : Template) : Discipline Stage where
  may := Stage.May t
  hears _ := Stage.hears
  after := Stage.after

variable {t : Template} {h : Nat} {x : Stage} {r : Except Fault Bool}

/-- A step that can fail: it goes on in one stage or is over in another. -/
def GoesOn {α : Type} (next : Stage) (broken : Stage) (s : Stage) : Except Fault α → Prop
  | .ok _ => s = next
  | .error _ => s = broken

theorem makeParent_obeys {path : String} {broken : Stage} (hmay : ∀ dir, x.May t (.makeDirs dir))
    (hok : ∀ dir, x.after (.makeDirs dir) (.ok ()) = x)
    (herr : ∀ dir e, x.after (.makeDirs dir) (.error e) = broken) :
    (makeParent path).run.Obeys t.staging (GoesOn x broken) x := by
  unfold makeParent
  split
  · rename_i dir _
    refine obeys_orFail (obeys_ask_exact (.makeDirs dir) (hmay dir)) ?_ ?_
    · rintro y a ⟨-, rfl⟩
      exact hok dir
    rintro y e ⟨-, rfl⟩
    exact herr dir e
  · exact obeys_done.mpr rfl

/-! ## Getting the lock -/

/-- What getting the lock comes to. -/
inductive Acquired : Stage → Except Fault (Option Nat) → Prop
  | held (h : Nat) : Acquired (.held h) (.ok (some h))
  | returned (fault : Fault) : Acquired (.returned none) (.error fault)

theorem acquire_obeys : t.acquire.run.Obeys t.staging Acquired .absent := by
  refine Action.obeys_bind
    (makeParent_obeys .makeLockDir (fun _ => rfl) fun _ _ => rfl) ?_ ?_
  · rintro y _ (rfl : y = .absent)
    refine obeys_orFail_bind (obeys_ask_exact (.openLock t.lockPath) .openLock) ?_ ?_
    · rintro y handle ⟨-, rfl⟩
      refine obeys_lift_bind (x := opened handle)
        (obeys_ask_exact (.lock handle t.lockWait) (.lock ..)) ?_
      rintro y r ⟨hr, rfl⟩
      cases r with
      | acquired =>
        refine obeys_lift_bind (x := held handle) (obeys_ask_exact .ownPid (.ownPid _)) ?_
        rintro y pid ⟨-, rfl⟩
        refine obeys_lift_bind (x := held handle) (obeys_ask_exact (.markLock handle _) (.mark ..))
          ?_
        rintro y r ⟨-, rfl⟩
        cases r with
        | ok _ => exact obeys_done.mpr (Acquired.held handle)
        | error e =>
          refine obeys_lift_bind (x := refused handle)
            (obeys_ask_exact (.closeLock handle) (.closeRefused _)) ?_
          rintro y _ ⟨-, rfl⟩
          exact obeys_done.mpr (Acquired.returned _)
      | stillHeld => exact absurd rfl hr
      | failed e =>
        refine obeys_lift_bind (x := refused handle)
          (obeys_ask_exact (.closeLock handle) (.closeRefused _)) ?_
        rintro y _ ⟨-, rfl⟩
        exact obeys_done.mpr (Acquired.returned _)
    · rintro y e ⟨-, rfl⟩
      exact Acquired.returned _
  · rintro y e (rfl : y = .returned none)
    exact Acquired.returned e

/-! ## Building -/

theorem discard_obeys (hmay : x.May t (.removeTree t.root))
    (hwarn : ∀ message fields, x.May t (.warn message fields))
    (hstays : ∀ r, x.after (.removeTree t.root) r = x)
    (hwarned : ∀ message fields, x.after (.warn message fields) () = x) :
    t.discard.Obeys t.staging (fun y _ => y = x) x := by
  unfold discard
  refine obeys_bind (obeys_ask_exact (.removeTree t.root) hmay) ?_
  rintro y r ⟨-, rfl⟩
  have hx : t.staging.after x (.removeTree t.root) r = x := hstays r
  rw [hx]
  cases r with
  | ok _ => exact obeys_done.mpr rfl
  | error e =>
    dsimp only
    split
    · exact obeys_mono (obeys_ask_exact (.warn _ []) (hwarn _ _)) fun y _ hy =>
        hy.2.trans (hwarned _ _)
    · exact obeys_done.mpr rfl

theorem discard_building : t.discard.Obeys t.staging (fun y _ => y = .building h) (.building h) :=
  discard_obeys (.discard h) (.warnBuilding h) (fun _ => rfl) fun _ _ => rfl

theorem discard_failed : t.discard.Obeys t.staging (fun y _ => y = .failed h) (.failed h) :=
  discard_obeys (.discardFailed h) (.warn rfl) (fun _ => rfl) fun _ _ => rfl

theorem writeFiles_obeys :
    t.writeFiles.run.Obeys t.staging (GoesOn (.building h) (.failed h)) (.building h) := by
  refine Action.obeys_bind
    (makeParent_obeys (.makeSourceDir h) (fun _ => rfl) fun _ _ => rfl) ?_ fun _ _ hy => hy
  rintro y _ (rfl : y = .building h)
  refine obeys_orFail_bind
    (obeys_ask_exact (.writeFile t.manifestPath t.manifest.toUTF8) (.writeManifest ..)) ?_ ?_
  · rintro y _ ⟨-, rfl⟩
    refine obeys_orFail
      (obeys_ask_exact (.writeFile t.sourcePath t.source.toUTF8) (.writeSource ..)) ?_ ?_
    · rintro y _ ⟨-, rfl⟩
      rfl
    rintro y e ⟨-, rfl⟩
    rfl
  · rintro y e ⟨-, rfl⟩
    rfl

theorem build_obeys :
    t.build.run.Obeys t.staging (GoesOn (.marked h) (.failed h)) (.building h) := by
  refine obeys_lift_bind discard_building ?_
  rintro y _ rfl
  refine Action.obeys_bind writeFiles_obeys ?_ fun _ _ hy => hy
  rintro y _ (rfl : y = .building h)
  refine obeys_lift_bind (obeys_ask_exact (.run t.command t.buildTimeout) (.run ..)) ?_
  rintro y r ⟨-, rfl⟩
  cases r with
  | error fault =>
    cases fault with
    | _ => exact obeys_done.mpr rfl
  | ok result =>
    by_cases hsuccess : result.succeeded = true
    · have hy : t.staging.after (.building h) (.run t.command t.buildTimeout) (.ok result) =
          .built h := if_pos hsuccess
      rw [hy]
      simp only [hsuccess, Bool.not_true, Bool.false_eq_true, if_false]
      refine obeys_lift_bind (obeys_ask_exact .today (.today _)) ?_
      rintro y now ⟨-, rfl⟩
      refine obeys_orFail (x := built h)
        (obeys_ask_exact (.writeFile t.marker now.offsetText.toUTF8) (.writeMarker ..)) ?_ ?_
      · rintro y _ ⟨-, rfl⟩
        rfl
      rintro y e ⟨-, rfl⟩
      rfl
    · have hy : t.staging.after (.building h) (.run t.command t.buildTimeout) (.ok result) =
          .failed h := if_neg hsuccess
      rw [hy]
      have hfailed : result.succeeded = false := by simpa using hsuccess
      simp only [hfailed, Bool.not_false, if_true]
      exact obeys_done.mpr rfl

/-- What building under the lock comes to. -/
inductive Settled (h : Nat) : Stage → Except Fault Bool → Prop
  | marked : Settled h (.marked h) (.ok true)
  | spared : Settled h (.spared h) (.ok false)
  | failed (fault : Fault) : Settled h (.failed h) (.error fault)

theorem buildIfMissing_obeys : t.buildIfMissing.Obeys t.staging (Settled h) (.held h) := by
  refine obeys_bind (obeys_ask_exact (.isFile t.marker) (.lookAgain _)) ?_
  rintro y r ⟨-, rfl⟩
  cases r with
  | true => exact obeys_done.mpr Settled.spared
  | false =>
    refine obeys_bind (x := building h) build_obeys ?_
    intro y r hy
    cases r with
    | ok _ =>
      have hy : y = .marked h := hy
      subst hy
      exact obeys_done.mpr Settled.marked
    | error fault =>
      have hy : y = .failed h := hy
      subst hy
      refine obeys_bind discard_failed ?_
      rintro y _ rfl
      exact obeys_done.mpr (Settled.failed fault)

/-! ## The whole -/

/-- How a settled builder lets go of the lock: closing the lock file is its last call. -/
structure Stage.Releases (h : Nat) (r : Except Fault Bool) (x : Stage) : Prop where
  ending : x.ending? = some h
  settle : x.after .settle () = x
  clear : ∀ bytes reply, x.after (.markLock h bytes) reply = x
  warn : ∀ message fields, x.after (.warn message fields) () = x
  close : (x.after (.closeLock h) ()).ends r

theorem Settled.releases (hx : Settled h x r) : x.Releases h r := by
  cases hx with
  | marked | spared => exact ⟨rfl, rfl, fun _ _ => rfl, fun _ _ => rfl, rfl⟩
  | failed fault => exact ⟨rfl, rfl, fun _ _ => rfl, fun _ _ => rfl, fault, rfl⟩

theorem pay_obeys (hx : x.Releases h r) :
    (Debt.lock t.lockPath h).pay.Obeys t.staging (fun y _ => y.ends r) x := by
  have hclose : (ask (.closeLock h)).Obeys t.staging (fun y _ => y.ends r) x := by
    refine obeys_mono (obeys_ask_exact (.closeLock h) (.close hx.ending)) ?_
    rintro y _ ⟨-, rfl⟩
    exact hx.close
  refine obeys_bind (obeys_ask_exact (.markLock h .empty) (.clear hx.ending _)) ?_
  rintro y reply ⟨-, rfl⟩
  have hy : t.staging.after x (.markLock h .empty) reply = x := hx.clear _ reply
  rw [hy]
  cases reply with
  | ok _ => exact hclose
  | error e =>
    refine obeys_bind (obeys_ask_exact (.warn _ []) (.warn hx.ending _ _)) ?_
    rintro y _ ⟨-, rfl⟩
    have hy : ∀ message, t.staging.after x (.warn message []) () = x := fun _ => hx.warn _ _
    rw [hy]
    exact hclose

theorem owing_obeys :
    (owing (.lock t.lockPath h) t.buildIfMissing).Obeys t.staging ends (.held h) := by
  refine obeys_bind (obeys_ask_exact (.owe (.lock t.lockPath h)) (.owe ..)) ?_
  rintro y _ ⟨-, rfl⟩
  refine obeys_bind (x := held h) buildIfMissing_obeys ?_
  intro y r hr
  have hy := hr.releases
  refine obeys_bind (obeys_ask_exact .settle (.settle hy.ending)) ?_
  rintro z _ ⟨-, rfl⟩
  have hz : t.staging.after y .settle () = y := hy.settle
  rw [hz]
  exact obeys_bind (pay_obeys hy) fun _ _ hend => obeys_done.mpr hend

theorem ensure_obeys (t : Template) : t.ensure.run.Obeys t.staging ends .start := by
  refine obeys_lift_bind (obeys_ask_exact (.isFile t.marker) .look) ?_
  rintro y r ⟨-, rfl⟩
  cases r with
  | true => exact obeys_done.mpr rfl
  | false =>
    refine Action.obeys_bind (x := absent) acquire_obeys ?_ ?_
    · intro y r hr
      cases hr
      exact owing_obeys
    · intro y e he
      cases he
      exact ⟨e, rfl⟩

/-! ## Numbers of calls -/

theorem makeParent_within (path : String) : (makeParent path).run.Within 1 := by
  unfold makeParent
  split
  · exact within_orFail (within_ask (.makeDirs _))
  · exact within_done 1 _

theorem acquire_within (t : Template) : t.acquire.run.Within 6 := by
  refine within_bind (n := 1) (k := 5) (makeParent_within _) fun _ => ?_
  refine within_bind (n := 1) (k := 4) (within_orFail (within_ask (.openLock _))) fun h => ?_
  refine within_lift_bind (n := 1) (k := 3) (within_ask (.lock h _)) fun r => ?_
  cases r with
  | acquired =>
    refine within_lift_bind (n := 1) (k := 2) (within_ask .ownPid) fun _ => ?_
    refine within_lift_bind (n := 1) (k := 1) (within_ask (.markLock h _)) fun r => ?_
    cases r with
    | ok _ => exact within_done 1 _
    | error e =>
      exact within_lift_bind (k := 0) (within_ask (.closeLock h)) fun _ => within_done 0 _
  | stillHeld =>
    exact within_lift_bind (n := 1) (k := 2) ((within_ask (.warn _ _))) fun _ => within_done 2 _
  | failed e =>
    exact within_lift_bind (n := 1) (k := 2) (within_ask (.closeLock h)) fun _ => within_done 2 _

theorem discard_within (t : Template) : t.discard.Within 2 := by
  refine (within_ask (.removeTree t.root)).bind (k := 1) fun r => ?_
  cases r with
  | ok _ => exact within_done 1 _
  | error e =>
    dsimp only
    split
    · exact within_ask (.warn _ _)
    · exact within_done 1 _

theorem build_within (t : Template) : t.build.run.Within 8 := by
  have hfiles : t.writeFiles.run.Within 3 :=
    within_bind (n := 1) (k := 2) (makeParent_within _) fun _ =>
      within_bind (n := 1) (k := 1) (within_orFail (within_ask (.writeFile _ _)))
        fun _ => within_orFail (within_ask (.writeFile _ _))
  refine within_lift_bind (n := 2) (k := 6) (discard_within t) fun _ => ?_
  refine within_bind (n := 3) (k := 3) hfiles fun _ => ?_
  refine within_lift_bind (n := 1) (k := 2) (within_ask (.run t.command _)) fun r => ?_
  cases r with
  | error fault =>
    cases fault with
    | _ => exact within_done 2 _
  | ok result =>
    dsimp only
    split
    · exact within_done 2 _
    refine within_lift_bind (n := 1) (k := 1) (within_ask .today) fun _ => ?_
    exact within_orFail (within_ask (.writeFile _ _))

/-- Making sure of the template takes at most 23 calls. -/
theorem ensure_within (t : Template) : t.ensure.run.Within 23 := by
  have hbuild : t.buildIfMissing.Within 11 := by
    refine (within_ask (.isFile t.marker)).bind (k := 10) fun ready => ?_
    cases ready with
    | true => exact within_done 10 _
    | false =>
      refine (build_within t).bind (k := 2) fun r => ?_
      cases r with
      | ok _ => exact within_done 2 _
      | error fault => exact (discard_within t).bind (k := 0) fun _ => within_done 0 _
  have hpay : ∀ h, (Debt.lock t.lockPath h).pay.Within 3 := by
    intro h
    refine (within_ask (.markLock h .empty)).bind (k := 2) fun r => ?_
    cases r with
    | ok _ => exact (within_ask (.closeLock h)).mono (by decide)
    | error e => exact (within_ask (.warn _ _)).bind (k := 1) fun _ => within_ask (.closeLock h)
  refine within_lift_bind (n := 1) (k := 22) (within_ask (.isFile t.marker)) fun ready => ?_
  cases ready with
  | true => exact within_done 22 _
  | false =>
    refine within_bind (n := 6) (k := 16) (acquire_within t) fun handle => ?_
    cases handle with
    | none => exact hbuild.mono (by decide)
    | some h =>
      refine (within_ask (.owe _)).bind (k := 15) fun _ => ?_
      refine hbuild.bind (k := 4) fun r => ?_
      refine (within_ask .settle).bind (k := 3) fun _ => ?_
      exact (hpay h).bind (k := 0) fun _ => within_done 0 _

end Template

end Foundry
