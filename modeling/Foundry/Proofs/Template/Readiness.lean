import Foundry.Proofs.Template.Exclusion
import Foundry.Proofs.Template.Marking

/-!
# What a marker says

As long as nobody gives up on the lock, the marker stands on a finished build: nobody
has removed the directory without marking it again, and nobody has touched it since the
command of some builder has succeeded. A builder that gives up on the lock can have its
half-built directory marked by another.
-/

namespace Foundry

open List Scene

namespace Template

variable {t : Template} {cwd : Place} {m m' : Machine} {c : Call} {r : c.Reply} {a : Customs}

/-! ## Half a build -/

/-- The calls that can change what is in the directory, besides the marker. -/
def touches (t : Template) : Call → Bool
  | .removeTree _ | .run .. => true
  | .writeFile path _ => path != t.marker
  | _ => false

def discards (t : Template) : Call → Bool
  | .removeTree path => path == t.root
  | _ => false

/-- The directory has been removed, and the marker has not been written since. -/
def isHalfWay (t : Template) (past : List Event) : Bool :=
  past.foldl (fun half e => t.discards e.call || half && !t.marksReady e.call e.reply) false

@[simp] theorem isHalfWay_concat (t : Template) (past : List Event) (e : Event) :
    t.isHalfWay (past ++ [e]) =
      (t.discards e.call || t.isHalfWay past && !t.marksReady e.call e.reply) := by
  simp [isHalfWay]

/-- A builder between removing the directory and writing the marker. -/
def IsBetween (t : Template) (a : Activity (Except Fault Bool)) : Prop :=
  a.result? = none ∧ t.isHalfWay a.past = true

/-- The lock was still held when the waiting time was over. -/
def waitsInVain : (c : Call) → c.Reply → Bool
  | .lock .., .stillHeld => true
  | _, _ => false

/-- A builder that goes on without the lock. -/
def HasGivenUp (a : Activity (Except Fault Bool)) : Prop :=
  a.past.any (fun e => waitsInVain e.call e.reply) = true

namespace Stage

variable {x : Stage} {c : Call} {r : c.Reply}

theorem May.isBuilding_of_touches (h : x.May t c) (hc : t.touches c = true) :
    x.isBuilding = true := by
  by_contra hx
  obtain ⟨hremoves, hwrites⟩ := h.quiet (by simpa using hx)
  cases c with
  | removeTree => cases hremoves
  | run => cases hremoves
  | writeFile => cases hwrites
  | _ => cases hc

theorem May.not_touches {k : Nat} (h : (Stage.built k).May t c) : t.touches c = false := by
  cases h with
  | today => rfl
  | writeMarker => simp [touches]
  | settle hs | clear hs | warn hs | close hs => cases hs

theorem hears_of_waitsInVain (h : waitsInVain c r = false) : Stage.hears c r := by
  cases c with
  | lock handle wait =>
    rintro rfl
    cases h
  | _ => trivial

theorem not_touches_of_marksReady (h : t.marksReady c r = true) : t.touches c = false := by
  cases c with
  | writeFile path bytes =>
    cases r with
    | ok _ => simpa [touches, marksReady] using h
    | error e => cases h
  | _ => cases h

theorem after_of_marksReady {k : Nat} (h : t.marksReady c r = true) :
    (Stage.built k).after c r = .marked k := by
  cases c with
  | writeFile path bytes =>
    cases r with
    | ok _ => rfl
    | error e => cases h
  | _ => cases h

/-- A build comes to its end by the marker, or when it has failed. -/
theorem May.isBuilding_after (h : x.May t c) (hx : x.isBuilding = true) :
    (x.after c r).isBuilding = true ∨ t.marksReady c r = true ∨ ∃ outcome, x.after c r =
    .returned outcome := by
  cases h with
  | discard | warnBuilding | today | discardFailed => exact .inl rfl
  | makeSourceDir | writeManifest | writeSource => cases r <;> exact .inl rfl
  | run =>
    cases r with
    | error fault => exact .inl rfl
    | ok result => by_cases hs : result.succeeded = true <;> simp [after, hs, Stage.isBuilding]
  | writeMarker =>
    cases r with
    | ok _ => exact .inr (.inl (by simp [marksReady]))
    | error e => exact .inl rfl
  | settle hs | clear hs | warn hs | close hs =>
    cases x <;> simp [after, ending?, Stage.isBuilding] at hs hx ⊢
  | _ => cases hx

/-- A builder is half way only while it builds, or when it is all over. -/
theorem May.halfWay (h : x.May t c) {past : List Event}
    (hx : t.isHalfWay past = true → x.isBuilding = true ∨ ∃ outcome, x = .returned outcome)
    (hnow : t.isHalfWay (past ++ [⟨c, r⟩]) = true) :
    (x.after c r).isBuilding = true ∨ ∃ outcome, x.after c r = .returned outcome := by
  have hbuilding : x.isBuilding = true := by
    rw [isHalfWay_concat] at hnow
    rcases Bool.or_eq_true_iff.mp hnow with hdiscards | hbefore
    · refine h.isBuilding_of_touches ?_
      cases c with
      | removeTree => rfl
      | _ => cases hdiscards
    · rcases hx (Bool.and_eq_true_iff.mp hbefore).1 with hbuilding | ⟨outcome, rfl⟩
      · exact hbuilding
      cases h with
      | settle hs | clear hs | warn hs | close hs => cases hs
  rcases h.isBuilding_after (r := r) hbuilding with hafter | hready | hover
  · exact .inl hafter
  · have hdiscards : t.discards c = false := by
      cases c with
      | removeTree => cases hready
      | _ => rfl
    simp [hdiscards, hready] at hnow
  · exact .inr hover

end Stage

/-! ## Who has left the directory as it is -/

variable {ι : Type} {s s' : Builders ι}

/-- In between no builder has touched the directory. -/
def Untouched (t : Template) (s s' : Builders ι) : Prop :=
  ∀ i, ∃ later, (s'.tasks i).past = (s.tasks i).past ++ later ∧ ∀ e ∈ later, t.touches e.call =
    false

theorem Untouched.of_past (h : ∀ i, (s'.tasks i).past = (s.tasks i).past) : t.Untouched s s' := by
  intro i
  refine ⟨[], ?_, ?_⟩
  · rw [h i, append_nil]
  intro e he
  cases he

theorem Untouched.trans {s'' : Builders ι} (h : t.Untouched s s') (h' : t.Untouched s' s'') :
    t.Untouched s s'' := by
  intro i
  obtain ⟨later, hpast, hlater⟩ := h i
  obtain ⟨later', hpast', hlater'⟩ := h' i
  refine ⟨later ++ later', ?_, ?_⟩
  · rw [hpast', hpast, append_assoc]
  intro e he
  rcases mem_append.mp he with he | he
  · exact hlater e he
  · exact hlater' e he

variable [DecidableEq ι] {i : ι} {past : List Event}

theorem untouched_turn {rest rest' : Program (Except Fault Bool)} {w w' : Bool}
    (at_ : s.tasks i = ⟨past, rest, w⟩) (hc : t.touches c = false) :
    t.Untouched s (s.setTask m i ⟨past ++ [⟨c, r⟩], rest', w'⟩) := by
  intro j
  by_cases hj : j = i
  · subst hj
    refine ⟨[⟨c, r⟩], ?_, ?_⟩
    · rw [setTask_self, at_]
    intro e he
    rw [mem_singleton] at he
    rw [he]
    exact hc
  · rw [setTask_other _ _ _ hj]
    exact Untouched.of_past (fun _ => rfl) j

/-- The command of a builder has succeeded, and no builder has touched the directory since. -/
def LeftBy (t : Template) (rules : Rules ι fun _ => Except Fault Bool) (start s : Builders ι)
    (i : ι) : Prop :=
  ∃ before after timeout result, Scene.Runs rules start before ∧ Scene.Step rules before after ∧
    (after.tasks i).past = (before.tasks i).past ++ [⟨.run t.command timeout, .ok result⟩] ∧
    result.succeeded = true ∧ Scene.Runs rules after s ∧ t.Untouched after s

theorem LeftBy.tail {rules : Rules ι fun _ => Except Fault Bool} {start : Builders ι}
    (h : t.LeftBy rules start s i) (hstep : Step rules s s') (hu : t.Untouched s s') :
    t.LeftBy rules start s' i := by
  obtain ⟨before, after, timeout, result, hbefore, hcommand, hpast, hresult, hafter, huntouched⟩ :=
    h
  exact ⟨before, after, timeout, result, hbefore, hcommand, hpast, hresult, hafter.tail hstep,
    huntouched.trans hu⟩

/-! ## As long as nobody gives up -/

/-- The same customs, but nobody waits for the lock in vain. -/
def Customs.patient (a : Customs) : Customs :=
  { a with reply := fun m c r => a.reply m c r ∧ Stage.hears c r }

/-- What holds of builders none of whom has given up on the lock. -/
structure Finished (t : Template) (cwd : Place) (rules : Rules ι fun _ => Except Fault Bool)
    (start s : Builders ι) : Prop where
  ordered : t.Ordered cwd s
  halfWay : ∀ i, t.isHalfWay (s.tasks i).past = true →
    (t.stageOf s i).isBuilding = true ∨ ∃ outcome, t.stageOf s i = .returned outcome
  unmarked : ∀ i, (t.stageOf s i).isBuilding = true → ¬ t.IsMarked cwd s.machine
  built : ∀ i k, t.stageOf s i = .built k → t.LeftBy rules start s i
  marked : t.IsMarked cwd s.machine →
    t.IsMarked cwd start.machine ∧ t.Untouched start s ∨ ∃ i, t.LeftBy rules start s i

theorem finished_gathering (hm : t.Site cwd m) (rules : Rules ι fun _ => Except Fault Bool) :
    t.Finished cwd rules (t.gathering m) (t.gathering m) where
  ordered := ordered_gathering hm
  halfWay _ h := by cases h
  unmarked _ h := by cases h
  built _ _ h := by cases h
  marked h := .inl ⟨h, Untouched.of_past fun _ => rfl⟩

variable {rules : Rules ι fun _ => Except Fault Bool} {start : Builders ι}

namespace Finished

variable (h : t.Finished cwd rules start s)
include h

theorem marked_tail (hstep : Step rules s s')
    (hu : t.Untouched s s') (hmarked : t.IsMarked cwd s.machine) :
    t.IsMarked cwd start.machine ∧ t.Untouched start s' ∨ ∃ i, t.LeftBy rules start s' i := by
  rcases h.marked hmarked with ⟨hstart, huntouched⟩ | ⟨i, hi⟩
  · exact .inl ⟨hstart, huntouched.trans hu⟩
  · exact .inr ⟨i, hi.tail hstep hu⟩

/-- Nothing has happened to the builders, and nobody has made the marker. -/
theorem of_same (ho : t.Ordered cwd s')
    (hstep : Step rules s s') (hpast : ∀ i, (s'.tasks i).past = (s.tasks i).past)
    (hmarked : t.IsMarked cwd s'.machine → t.IsMarked cwd s.machine) :
    t.Finished cwd rules start s' := by
  have hstage : t.stageOf s' = t.stageOf s := by
    funext i
    rw [stageOf, stageOf, hpast i]
  have hu : t.Untouched s s' := Untouched.of_past hpast
  refine ⟨ho, fun i => ?_, fun i => ?_, fun i k hi => ?_, fun hm => ?_⟩
  · rw [hpast i, hstage]
    exact h.halfWay i
  · rw [hstage]
    exact fun hi hm => h.unmarked i hi (hmarked hm)
  · rw [hstage] at hi
    exact (h.built i k hi).tail hstep hu
  · exact h.marked_tail hstep hu (hmarked hm)

/-- Who touches the directory does not find it marked. -/
theorem not_touches (hmarked : t.IsMarked cwd s.machine)
    (hmay : (t.stageOf s i).May t c) : t.touches c = false := by
  by_contra hc
  exact h.unmarked i (hmay.isBuilding_of_touches (by simpa using hc)) hmarked

theorem unmarked_turn (hadv : t.Advances cwd s s' i c r)
    (hcases : t.IsMarked cwd s.machine ∨ (∃ k, t.stageOf s i = .built k) ∧ t.marksReady c r = true)
    (j : ι) : (t.stageOf s' j).isBuilding = false := by
  by_contra hj
  rw [Bool.not_eq_false] at hj
  rcases hcases with hmarked | ⟨⟨k, hbuilt⟩, hready⟩
  · by_cases hji : j = i
    · subst hji
      rw [hadv.self] at hj
      rcases hadv.turn.isBuilding h.ordered.site hadv.may hj with hbefore | hunmarked
      · exact h.unmarked j hbefore hmarked
      · exact hunmarked hmarked
    · rw [hadv.other j hji] at hj
      exact h.unmarked j hj hmarked
  · by_cases hji : j = i
    · rw [hji, hadv.self, hbuilt, Stage.after_of_marksReady hready] at hj
      cases hj
    -- who has just marked has the lock, so nobody else builds
    rw [hadv.other j hji] at hj
    have hholding : (t.stageOf s i).holding? = some k := by
      rw [hbuilt]
      rfl
    exact hji (h.ordered.isBuilding_unique hholding hj).symm

theorem built_turn (hstart : Runs rules start s)
    (hstep : Step rules s s') (hadv : t.Advances cwd s s' i c r)
    (hpast : (s'.tasks i).past = (s.tasks i).past ++ [⟨c, r⟩])
    (huntouched : t.touches c = false → t.Untouched s s') {j : ι} {k : Nat}
    (hj : t.stageOf s' j = .built k) : t.LeftBy rules start s' j := by
  by_cases hji : j = i
  · subst hji
    have hmay := hadv.may
    rw [hadv.self] at hj
    rcases hmay.eq_built hj with hbuilt | hwell
    · rw [hbuilt] at hmay
      exact (h.built j k hbuilt).tail hstep (huntouched hmay.not_touches)
    -- the command has just succeeded
    cases c with
    | run command timeout =>
      cases r with
      | error fault => cases hwell
      | ok result =>
        simp only [buildsWell, Bool.and_eq_true, beq_iff_eq] at hwell
        obtain ⟨rfl, hresult⟩ := hwell
        exact ⟨s, s', timeout, result, hstart, hstep, hpast, hresult, .refl,
          Untouched.of_past fun _ => rfl⟩
    | _ => cases hwell
  · rw [hadv.other j hji] at hj
    have hquiet : t.touches c = false := by
      by_contra hc
      have hbuilding := hadv.may.isBuilding_of_touches (by simpa using hc)
      have hholding : (t.stageOf s j).holding? = some k := by
        rw [hj]
        rfl
      exact hji (h.ordered.isBuilding_unique hholding hbuilding)
    exact (h.built j k hj).tail hstep (huntouched hquiet)

end Finished

theorem Finished.turn (ha : t.Apart cwd) (h : t.Finished cwd rules start s)
    (hstart : Runs rules start s) {next : c.Reply → Program (Except Fault Bool)}
    (at_ : s.tasks i = ⟨past, .call c next, c.waits⟩)
    (hs' : s' = s.setTask m i ⟨past ++ [⟨c, r⟩], next r, false⟩) (hstep : Step rules s s')
    (ho : t.Ordered cwd s') (hadv : t.Advances cwd s s' i c r)
    (hclear : t.KeepsClear cwd s.machine c)
    (hcommand : ∀ command timeout, c = .run command timeout →
    t.IsMarked cwd s'.machine → t.IsMarked cwd s.machine) : t.Finished cwd rules start s' := by
  have hcases : t.IsMarked cwd s'.machine → t.IsMarked cwd s.machine ∨
      (∃ k, t.stageOf s i = .built k) ∧ t.marksReady c r = true :=
    hadv.turn.isMarked_cases ha h.ordered.site ho.site hadv.may hclear hcommand
  have huntouched : t.touches c = false → t.Untouched s s' := by
    intro hc
    rw [hs']
    exact untouched_turn at_ hc
  have hpast : (s'.tasks i).past = (s.tasks i).past ++ [⟨c, r⟩] := by
    rw [hs', setTask_self, at_]
  refine ⟨ho, fun j hj => ?_, fun j hj hmarked => ?_, fun j k hj => ?_, fun hmarked => ?_⟩
  · by_cases hji : j = i
    · subst hji
      rw [hpast] at hj
      rw [hadv.self]
      exact hadv.may.halfWay (h.halfWay j) hj
    · rw [hadv.other j hji]
      rw [hs', setTask_other _ _ _ hji] at hj
      exact h.halfWay j hj
  · rw [h.unmarked_turn hadv (hcases hmarked) j] at hj
    cases hj
  · exact h.built_turn hstart hstep hadv hpast huntouched hj
  rcases hcases hmarked with hbefore | ⟨⟨k, hbuilt⟩, hready⟩
  · exact h.marked_tail hstep (huntouched (h.not_touches hbefore hadv.may)) hbefore
  have hu := huntouched (Stage.not_touches_of_marksReady hready)
  exact .inr ⟨i, (h.built i k hbuilt).tail hstep hu⟩

theorem Finished.step (ha : t.Apart cwd)
    (hstart : Runs (t.around cwd (t.careful cwd).patient) start s)
    (h : t.Finished cwd (t.around cwd (t.careful cwd).patient) start s)
    (hstep : Step (t.around cwd (t.careful cwd).patient) s s') :
    t.Finished cwd (t.around cwd (t.careful cwd).patient) start s' := by
  have hhappens := happens_of_step hstep
  have hhears : ∀ m c r, (t.careful cwd).patient.reply m c r → Stage.hears c r := fun _ _ _ hr =>
    hr.2
  have ho := h.ordered.happens ha hhears hhappens
  cases hhappens with
  | turn at_ reply turn command =>
    exact h.turn ha hstart at_ rfl hstep ho (h.ordered.advances ha at_ reply.2 turn) reply.1 command
  | @wait i past c next at_ waits =>
    refine h.of_same ho hstep (fun j => ?_) fun hmarked => ?_
    · by_cases hj : j = i
      · subst hj
        rw [setTask_self, at_]
      · rw [setTask_other _ _ _ hj]
    · simpa [IsMarked] using hmarked
  | beside leaves others => exact h.of_same ho hstep (fun _ => rfl) others

theorem Finished.run (ha : t.Apart cwd) (hm : t.Site cwd m)
    (hrun : Runs (t.around cwd (t.careful cwd).patient) (t.gathering m) s) :
    t.Finished cwd (t.around cwd (t.careful cwd).patient) (t.gathering m) s := by
  induction hrun with
  | refl => exact finished_gathering hm _
  | tail hrun hstep ih => exact ih.step ha hrun hstep

/-! ## The whole course -/

/-- As long as nobody has given up, everybody has been patient. -/
theorem runs_patient (hrun : Runs (t.around cwd a) start s)
    (hpatient : ∀ i, ¬ HasGivenUp (s.tasks i)) : Runs (t.around cwd a.patient) start s := by
  induction hrun with
  | refl => exact .refl
  | @tail s s' hrun hstep ih =>
    have hhears : ∀ i c r, (⟨c, r⟩ : Event) ∈ (s'.tasks i).past → Stage.hears c r := by
      intro i c r hmem
      refine Stage.hears_of_waitsInVain ?_
      by_contra hvain
      exact hpatient i (any_eq_true.mpr ⟨_, hmem, by simpa using hvain⟩)
    have hbefore : ∀ i, ¬ HasGivenUp (s.tasks i) := by
      intro i hi
      refine hpatient i ?_
      rcases hstep.past_cases i with hpast | ⟨c, r, hpast, -⟩
      · rw [HasGivenUp, hpast]
        exact hi
      rw [HasGivenUp, hpast, any_append, Bool.or_eq_true]
      exact .inl hi
    refine (ih hbefore).tail (hstep.imp (fun i c r hmem hr => ?_) (fun i c r hmem hr => ?_) id)
    · exact ⟨hr, hhears i c r hmem⟩
    · exact ⟨⟨hr.1, hhears i c r hmem⟩, hr.2⟩

theorem runs_of_patient (hrun : Runs (t.around cwd a.patient) s s') :
    Runs (t.around cwd a) s s' := by
  refine Relation.ReflTransGen.mono (fun s s' hstep => ?_) _ _ hrun
  exact hstep.imp (fun _ _ _ _ hr => hr.1) (fun _ _ _ _ hr => ⟨hr.1.1, hr.2⟩) id

theorem LeftBy.of_patient (h : t.LeftBy (t.around cwd a.patient) start s i) :
    t.LeftBy (t.around cwd a) start s i := by
  obtain ⟨before, after, timeout, result, hbefore, hcommand, hpast, hresult, hafter, huntouched⟩ :=
    h
  have hstep : Step (t.around cwd a) before after := hcommand.imp (fun _ _ _ _ hr => hr.1)
    (fun _ _ _ _ hr => ⟨hr.1.1, hr.2⟩) id
  exact ⟨before, after, timeout, result, runs_of_patient hbefore, hstep, hpast, hresult,
    runs_of_patient hafter, huntouched⟩

/-- Whenever the marker is there, it was there at first or somebody has built and marked. Unless
somebody has given up on the lock, nobody is then between removing the directory and marking it,
and the directory is as the successful command of some builder has left it, or as it was at
first. -/
theorem marker_says_finished (t : Template) (cwd : Place) {name : String}
    (hlock : t.lockPath = lockPathOf t.root) (hname : Path.fileName? t.root = some name)
    (hdots : ".." ∉ Path.names t.root) (hm : t.Site cwd m)
    (hrun : Scene.Runs (t.around cwd (t.careful cwd)) (t.gathering m) s)
    (hmarked : t.IsMarked cwd s.machine) :
    (t.IsMarked cwd m ∨ ∃ i, t.HasFinished (s.tasks i).past) ∧
    ((∃ i, HasGivenUp (s.tasks i)) ∨
      (∀ i, ¬ t.IsBetween (s.tasks i)) ∧
      (t.IsMarked cwd m ∧ t.Untouched (t.gathering m) s ∨
        ∃ i, t.LeftBy (t.around cwd (t.careful cwd)) (t.gathering m) s i)) := by
  have ha := apart_of_lockPathOf cwd hlock hname hdots
  refine ⟨((earned_gathering hm).run ha hrun).earned hmarked, ?_⟩
  by_cases hpatient : ∃ i, HasGivenUp (s.tasks i)
  · exact Or.inl hpatient
  have h := Finished.run ha hm (runs_patient hrun (not_exists.mp hpatient))
  refine Or.inr ⟨?_, ?_⟩
  · rintro i ⟨hresult, hhalf⟩
    rcases h.halfWay i hhalf with hbuilding | ⟨outcome, hover⟩
    · exact h.unmarked i hbuilding hmarked
    · exact h.ordered.result_of_returned hover hresult
  · rcases h.marked hmarked with hstart | ⟨i, hi⟩
    · exact Or.inl hstart
    · exact Or.inr ⟨i, hi.of_patient⟩

/-- A check that the manifest and the source stay clear of the marker. -/
def staysClear (t : Template) (cwd : Place) (m : Machine) : Call → Bool
  | .writeFile path _ =>
    (path != t.manifestPath && path != t.sourcePath) || path != t.marker &&
      match m.files.locate m.cwd true path with
      | .ok u => u.place != t.markerPlace cwd
      | .error _ => true
  | _ => true

theorem keepsClear_of_staysClear (h : t.staysClear cwd m c = true) : t.KeepsClear cwd m c := by
  cases c with
  | writeFile path bytes =>
    intro hpath
    have hnone : (path != t.manifestPath && path != t.sourcePath) = false := by
      rcases hpath with rfl | rfl
      · simp
      · simp
    rw [staysClear, hnone, Bool.false_or, Bool.and_eq_true, bne_iff_ne] at h
    refine ⟨h.1, fun u hu => ?_⟩
    have hplace := h.2
    rw [hu] at hplace
    simpa using hplace
  | _ => trivial

theorem runs_of_staysClear {patient : Bool} {order : List ι}
    (h : (t.gathering m).play (t.staysClear cwd) (fun _ => promptly patient) order = some s) :
    Runs (t.around cwd (t.careful cwd)) (t.gathering m) s := by
  refine runs_of_play ?_ ?_ h
  · intro i m c r m' hallows _
    exact keepsClear_of_staysClear hallows
  intro i m c r m' hr
  refine ⟨?_, turn_of_promptly hr, ?_⟩
  · cases c with
    | writeFile => cases hr
    | _ => trivial
  · rintro command timeout rfl
    cases hr
    exact id

/-- A builder that is alone leaves what its command has made. -/
theorem marker_says_finished_alone :
    ∃ s : Builders (Fin 1),
      Scene.Runs (sample.around [] (sample.careful [])) (sample.gathering .bare) s ∧
      sample.IsMarked [] s.machine ∧ (∀ i, ¬ sample.IsBetween (s.tasks i)) ∧
      ∃ i, sample.LeftBy (sample.around [] (sample.careful [])) (sample.gathering .bare) s i := by
  have hplay : ((sample.gathering .bare : Builders (Fin 1)).play (sample.staysClear [])
      (fun _ => promptly true) (List.replicate 17 0)).map
      (fun s => (s.files.isFile [] sample.marker,
        (s.tasks 0).past.any fun e => waitsInVain e.call e.reply)) = some (true, false) := by
    decide +kernel
  obtain ⟨s, hs, hlast⟩ := Option.map_eq_some_iff.mp hplay
  simp only [Prod.mk.injEq] at hlast
  obtain ⟨hmarked, hpatient⟩ := hlast
  have hruns : Scene.Runs (sample.around [] (sample.careful [])) (sample.gathering .bare) s :=
    runs_of_staysClear hs
  have hname : Path.fileName? sample.root = some "t" := by decide +kernel
  have hunmarked : ¬ sample.IsMarked [] .bare := by
    unfold IsMarked
    decide +kernel
  obtain ⟨-, ⟨i, hgiven⟩ | ⟨hbetween, ⟨hstart, -⟩ | hleft⟩⟩ :=
    marker_says_finished sample [] rfl hname (by decide +kernel) (site_bare sample) hruns hmarked
  · rw [Fin.fin_one_eq_zero i, HasGivenUp, hpatient] at hgiven
    cases hgiven
  · exact absurd hstart hunmarked
  · exact ⟨s, hruns, hmarked, hbetween, hleft⟩

/-- A builder that gives up on the lock has its half-built directory marked by the one that has the
lock. -/
theorem half_built_marked :
    ∃ s : Builders (Fin 2),
      Scene.Runs (sample.around [] (sample.careful [])) (sample.gathering .bare) s ∧
      sample.IsMarked [] s.machine ∧ sample.IsBetween (s.tasks 1) := by
  have hplay : ((sample.gathering .bare : Builders (Fin 2)).play (sample.staysClear [])
      (fun _ => promptly false) (List.replicate 14 0 ++ List.replicate 9 1 ++
        List.replicate 3 0)).map
      (fun s => (s.files.isFile [] sample.marker, (s.tasks 1).result?.isNone,
        sample.isHalfWay (s.tasks 1).past)) = some (true, true, true) := by
    decide +kernel
  obtain ⟨s, hs, hlast⟩ := Option.map_eq_some_iff.mp hplay
  simp only [Prod.mk.injEq, Option.isNone_iff_eq_none] at hlast
  exact ⟨s, runs_of_staysClear hs, hlast.1, hlast.2.1, hlast.2.2⟩

end Template

end Foundry
