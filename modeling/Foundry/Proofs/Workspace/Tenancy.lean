import Foundry.Proofs.Service.WithoutCache

/-!
# How requests hold workspaces

A request is outside until it has made a directory under a fresh name, and from then on
within it until it has removed it. Within, it writes the two files, runs its commands and
removes the directory, in that order, and does nothing else to files. It owes the removal
from the moment it has made the directory until it removes it itself. Each way that a request
can take ends outside, with nothing to pay.
-/

namespace Foundry

open Program

namespace Workspaces

/-- What a workspace has got so far. -/
inductive Stage where
  | bare
  | half (manifest : ByteArray)
  | ready (manifest source : ByteArray)
  /-- A command has been run in it, or a file could not be written. -/
  | altered

/-- Whether a request has a workspace, by the path of its root. -/
inductive Stay where
  | out
  | within (root : String) (stage : Stage)

variable (b : Workspaces) (source : String)

/-- The manifest of a workspace. -/
def manifestText (w : Workspace) (dependency : DependencyRef) : String :=
  (b.fileBindings w.package w.root source dependency).render b.toolchain.manifest

/-- The source file of a workspace. -/
def sourceText (w : Workspace) (dependency : DependencyRef) : String :=
  (b.fileBindings w.package w.root source dependency).render b.toolchain.source

/-- The contents of the two files of a workspace, as they were rendered together. -/
def IsRendered (root : String) (manifest text : ByteArray) : Prop :=
  ∃ id dependency, root = (b.describe id).root ∧
    manifest = (b.manifestText source (b.describe id) dependency).toUTF8 ∧
    text = (b.sourceText source (b.describe id) dependency).toUTF8

/-- Calls that change no files and matter to nobody's stay. -/
def IsInert : Call → Prop
  | .clock | .record .. | .warn .. | .owe _ | .settle => True
  | _ => False

/-- What a request may ask for. Outside it may do as it likes, but make no other directory than
one for a workspace. -/
def mayAsk : Stay → Call → Prop
  | .out, .makeDir path => ∃ id, '/' ∉ id.toList ∧ path = (b.describe id).root
  | .out, _ => True
  | .within root _, .restrict path | .within root _, .removeTree path => path = root
  | .within _ .altered, .makeDirs _ => False
  | .within root _, .makeDirs dir => ∃ file ∈ [b.toolchain.manifestFile, b.toolchain.sourceFile],
      Path.parent? (Path.join root file) = some dir
  | .within root .bare, .writeFile path bytes =>
    path = Path.join root b.toolchain.manifestFile ∧ ∃ text, b.IsRendered source root bytes text
  | .within root (.half manifest), .writeFile path bytes =>
    path = Path.join root b.toolchain.sourceFile ∧ b.IsRendered source root manifest bytes
  | .within _ .bare, .run .. | .within _ (.half _), .run .. => False
  | .within root _, .run command _ => command.cwd = root
  | .within _ _, c => IsInert c

/-- Where the reply to a call leads. -/
def whereabouts : Stay → (c : Call) → c.Reply → Stay
  | .out, .makeDir path, .ok _ => .within path .bare
  | .within root .bare, .writeFile _ bytes, .ok _ => .within root (.half bytes)
  | .within root (.half manifest), .writeFile _ bytes, .ok _ => .within root (.ready manifest bytes)
  | .within root _, .writeFile .., _ | .within root _, .run .., _ => .within root .altered
  | .within _ _, .removeTree _, _ => .out
  | x, _, _ => x

/-- Identifiers can be part of file names. -/
def mayHear : (c : Call) → c.Reply → Prop
  | .freshId, id => '/' ∉ id.toList
  | _, _ => True

/-- The rules for who holds a workspace. -/
def tenancy : Discipline Stay where
  may := b.mayAsk source
  hears _ := mayHear
  after := whereabouts

/-! ## Dues -/

/-- How a request stands with its workspace. -/
inductive Dues where
  | clear
  /-- A directory has been made and is not owed yet. -/
  | made (root : String)
  | owed (root : String) (artifacts : List String)
  /-- The debt is settled and the directory not yet removed. -/
  | settled (root : String)

namespace Dues

def root? : Dues → Option String
  | .clear => none
  | .made root | .owed root _ | .settled root => some root

def debts : Dues → List Debt
  | .owed root artifacts => [.workspace root artifacts]
  | _ => []

/-- What may be called for. -/
def may : Dues → Call → Prop
  | .clear, .owe _ | .clear, .settle | .clear, .removeTree _ => False
  | .made root, .owe (.workspace path _) => path = root
  | .made _, _ => False
  | .owed .., .owe _ | .owed .., .makeDir _ | .owed .., .removeTree _ => False
  | .settled root, .removeTree path => path = root
  | .settled _, _ => False
  | _, _ => True

/-- Where a reply leads. -/
def after : Dues → (c : Call) → c.Reply → Dues
  | .clear, .makeDir path, .ok _ => .made path
  | .made root, .owe (.workspace _ artifacts), _ => .owed root artifacts
  | .owed root _, .settle, _ => .settled root
  | .settled _, .removeTree _, _ => .clear
  | x, _, _ => x

end Dues

/-- The rules for owing. -/
def dueing : Discipline Dues := ⟨Dues.may, fun _ => mayHear, Dues.after⟩

variable {b : Workspaces} {source : String} {α β : Type} {w : Workspace} {stage : Stage}

/-- The program keeps to the rules of tenancy and of owing. -/
abbrev Behaves (b : Workspaces) (source : String) (p : Program α) (ends : Stay × Dues → α → Prop)
    (x : Stay × Dues) : Prop :=
  p.Obeys ((b.tenancy source).and dueing) ends x

/-- Within a workspace that is owed. -/
def inside (w : Workspace) (stage : Stage) : Stay × Dues :=
  (.within w.root stage, .owed w.root w.artifacts)

/-- Calls that leave a request outside. -/
def StaysOut : Call → Prop
  | .makeDir _ | .owe _ | .settle | .removeTree _ => False
  | _ => True

theorem may_staysOut (c : Call) (hc : StaysOut c) :
    ((b.tenancy source).and dueing).may (.out, .clear) c ∧
    ∀ r, ((b.tenancy source).and dueing).after (.out, .clear) c r = (.out, .clear) := by
  cases c with
  | makeDir | owe | settle | removeTree => exact hc.elim
  | _ => exact ⟨⟨trivial, trivial⟩, fun _ => rfl⟩

/-- Outside, a program that makes no directory of its own stays outside. -/
theorem behaves_out {p : Program α} (h : p.Only StaysOut) :
    b.Behaves source p (fun x _ => x = (.out, .clear)) (.out, .clear) :=
  h.obeys may_staysOut

theorem whereabouts_inert {x : Stay} {c : Call} {r : c.Reply} (hc : IsInert c) :
    whereabouts x c r = x := by
  cases c with
  | clock | record | warn | owe | settle =>
    rcases x with _ | ⟨root, stage⟩
    · rfl
    · cases stage <;> rfl
  | _ => exact hc.elim

/-- What is inert may be done within a workspace too. -/
theorem behaves_inside {p : Program α} (h : p.Only fun c => IsInert c ∧ StaysOut c) (w : Workspace)
    (stage : Stage) : b.Behaves source p (fun x _ => x = inside w stage) (inside w stage) := by
  refine h.obeys fun c hc => ?_
  cases c with
  | clock | record | warn =>
    exact ⟨⟨trivial, trivial⟩, fun _ => Prod.ext (whereabouts_inert trivial) rfl⟩
  | owe | settle => exact hc.2.elim
  | _ => exact hc.1.elim

theorem behaves_settle (a : Advised α) (operation : String) (w : Workspace) (stage : Stage) :
    b.Behaves source (a.settle operation) (fun x v => x = inside w stage ∧ v = a.value)
    (inside w stage) := by
  rcases a with ⟨value, warning⟩
  cases warning with
  | none => exact obeys_done.mpr ⟨rfl, rfl⟩
  | some warning =>
    apply obeys_bind (behaves_inside (only_ask (c := .warn _ _) ⟨trivial, trivial⟩) w stage)
    rintro _ _ rfl
    exact obeys_done.mpr ⟨rfl, rfl⟩

/-- A workspace that is dropped is left. -/
theorem behaves_drop (w : Workspace) (stage : Stage) :
    b.Behaves source w.drop (fun x _ => x = (.out, .clear)) (inside w stage) := by
  have hsettle : b.Behaves source (ask .settle) (fun x _ =>
      x = (.within w.root stage, .settled w.root)) (inside w stage) :=
    obeys_ask ⟨trivial, trivial⟩ fun _ _ => Prod.ext (whereabouts_inert trivial) rfl
  apply obeys_bind hsettle
  rintro _ _ rfl
  have hremove : b.Behaves source (ask (.removeTree w.root)) (fun x _ => x = (.out, .clear))
      (.within w.root stage, .settled w.root) := by
    apply obeys_ask
    · cases stage <;> exact ⟨rfl, rfl⟩
    intro r _
    cases stage <;> rfl
  apply obeys_bind hremove
  rintro _ r rfl
  apply behaves_out
  have hsweep : (sweepAll w.artifacts).Only StaysOut :=
    only_sweepAll (fun _ => trivial) (fun _ _ => trivial) w.artifacts
  cases r with
  | ok _ => exact hsweep
  | error e =>
    dsimp only
    split
    · exact (only_ask (c := .warn _ []) trivial).bind fun _ => hsweep
    · exact hsweep

/-! ## Creation -/

/-- To write a file brings a workspace forward, or leaves it as it is. -/
theorem behaves_writeWithDirs {path text : String} {next : Stage}
    (hdirs : ∀ dir, Path.parent? path = some dir →
    b.mayAsk source (.within w.root stage) (.makeDirs dir))
    (hsame : ∀ dir r, whereabouts (.within w.root stage) (.makeDirs dir) r = .within w.root stage)
    (hwrite : b.mayAsk source (.within w.root stage) (.writeFile path text.toUTF8))
    (hnext : ∀ r, whereabouts (.within w.root stage) (.writeFile path text.toUTF8) (.ok r) =
    .within w.root next)
    (hfail : ∀ e, whereabouts (.within w.root stage) (.writeFile path text.toUTF8) (.error e) =
    .within w.root .altered) : b.Behaves source (writeWithDirs path text).run
    (fun x r => ∃ stage, x = inside w stage ∧ (r.toOption.isSome → stage = next))
    (inside w stage) := by
  have hparent : b.Behaves source (makeParent path).run (fun x _ => x = inside w stage)
      (inside w stage) := by
    unfold makeParent
    split
    · next dir hdir =>
        have hask : b.Behaves source (ask (.makeDirs dir)) (fun x _ => x = inside w stage)
            (inside w stage) :=
          obeys_ask ⟨hdirs dir hdir, trivial⟩ fun r _ => Prod.ext (hsame dir r) rfl
        exact Action.obeys_orFail hask (fun _ _ h => h) fun _ _ h => h
    · exact obeys_done.mpr rfl
  apply Action.obeys_bind hparent
  · rintro _ _ rfl
    have hmay : ((b.tenancy source).and dueing).may (inside w stage)
        (.writeFile path text.toUTF8) :=
      ⟨hwrite, trivial⟩
    apply Action.obeys_orFail (obeys_ask_exact _ hmay)
    · rintro _ a ⟨-, rfl⟩
      exact ⟨next, Prod.ext (hnext a) rfl, fun _ => rfl⟩
    rintro _ e ⟨-, rfl⟩
    exact ⟨.altered, Prod.ext (hfail e) rfl, fun h => absurd h Bool.false_ne_true⟩
  · rintro _ e rfl
    exact ⟨stage, rfl, fun h => absurd h Bool.false_ne_true⟩

/-- Files that were rendered together furnish a workspace. -/
theorem behaves_furnish {manifest text : String}
    (hm : w.manifestFile = Path.join w.root b.toolchain.manifestFile)
    (hs : w.sourceFile = Path.join w.root b.toolchain.sourceFile)
    (hrendered : b.IsRendered source w.root manifest.toUTF8 text.toUTF8) :
    b.Behaves source (writeWithDirs w.manifestFile manifest >>= fun _ =>
    writeWithDirs w.sourceFile text : Action Unit).run (fun x r => ∃ stage, x = inside w stage ∧
    (r.toOption.isSome → ∃ manifest text, stage = .ready manifest text)) (inside w .bare) := by
  have hfirst : b.Behaves source (writeWithDirs w.manifestFile manifest).run
      (fun x r => ∃ stage, x = inside w stage ∧ (r.toOption.isSome → stage = .half manifest.toUTF8))
      (inside w .bare) :=
    behaves_writeWithDirs (fun _ hdir => ⟨_, by simp, hm ▸ hdir⟩) (fun _ _ => rfl)
      ⟨hm, _, hrendered⟩ (fun _ => rfl) fun _ => rfl
  have hsecond : b.Behaves source (writeWithDirs w.sourceFile text).run
      (fun x r => ∃ stage, x = inside w stage ∧
        (r.toOption.isSome → stage = .ready manifest.toUTF8 text.toUTF8))
      (inside w (.half manifest.toUTF8)) :=
    behaves_writeWithDirs (fun _ hdir => ⟨_, by simp, hs ▸ hdir⟩) (fun _ _ => rfl) ⟨hs, hrendered⟩
      (fun _ => rfl) fun _ => rfl
  apply Action.obeys_bind hfirst
  · rintro _ a ⟨stage, rfl, hstage⟩
    rw [hstage rfl]
    refine obeys_mono hsecond ?_
    rintro x r ⟨stage, hx, hready⟩
    exact ⟨stage, hx, fun hr => ⟨_, _, hready hr⟩⟩
  · rintro x e ⟨stage, hx, -⟩
    exact ⟨stage, hx, fun he => absurd he Bool.false_ne_true⟩

theorem isRendered_texts (id : String) (dependency : DependencyRef) :
    b.IsRendered source (b.describe id).root
    (b.manifestText source (b.describe id) dependency).toUTF8
    (b.sourceText source (b.describe id) dependency).toUTF8 :=
  ⟨id, dependency, rfl, rfl, rfl⟩

theorem behaves_writeFiles (id : String) (dependency : DependencyRef) :
    b.Behaves source (b.writeFiles (b.describe id) source dependency).run
    (fun x r => ∃ stage, x = inside (b.describe id) stage ∧
    (r.toOption.isSome → ∃ manifest text, stage = .ready manifest text))
    (inside (b.describe id) .bare) := by
  have hm : (b.describe id).manifestFile = Path.join (b.describe id).root
      b.toolchain.manifestFile := by
    dsimp only [describe]
  have hs : (b.describe id).sourceFile = Path.join (b.describe id).root b.toolchain.sourceFile := by
    dsimp only [describe]
  exact behaves_furnish hm hs (isRendered_texts id dependency)

/-- How creation ends: in a furnished workspace, or outside. -/
def Created (x : Stay × Dues) : Except Fault (Advised Workspace) → Prop
  | .ok advised => ∃ manifest text, x = inside advised.value (.ready manifest text)
  | .error _ => x = (.out, .clear)

theorem behaves_create (dependency : DependencyRef) :
    b.Behaves source (b.create source dependency).run Created (.out, .clear) := by
  have hroot : b.Behaves source (ask (.makeDirs b.root)) (fun x _ => x = (.out, .clear))
      (.out, .clear) :=
    behaves_out (only_ask trivial)
  apply Action.obeys_orFail_bind hroot _ fun _ _ h => h
  rintro _ _ rfl
  have hfresh : ((b.tenancy source).and dueing).may (.out, .clear) .freshId := ⟨trivial, trivial⟩
  apply Action.obeys_lift_bind (obeys_ask_exact _ hfresh)
  rintro _ id ⟨⟨hid, -⟩, rfl⟩
  have hmay : ((b.tenancy source).and dueing).may (.out, .clear) (.makeDir (b.describe id).root) :=
    ⟨⟨id, hid, rfl⟩, trivial⟩
  apply Action.obeys_orFail_bind (obeys_ask_exact _ hmay)
  · rintro _ _ ⟨-, rfl⟩
    have howe : b.Behaves source (ask (.owe (b.describe id).debt))
        (fun x _ => x = inside (b.describe id) .bare)
        (.within (b.describe id).root .bare, .made (b.describe id).root) :=
      obeys_ask ⟨trivial, rfl⟩ fun _ _ => rfl
    apply Action.obeys_lift_bind howe
    rintro _ _ rfl
    have hrestrict : b.Behaves source (ask (.restrict (b.describe id).root))
        (fun x _ => x = inside (b.describe id) .bare) (inside (b.describe id) .bare) :=
      obeys_ask ⟨rfl, trivial⟩ fun _ _ => rfl
    apply Action.obeys_lift_bind hrestrict
    rintro _ restricted rfl
    apply Action.obeys_lift_bind (behaves_writeFiles id dependency)
    rintro _ written ⟨stage, rfl, hready⟩
    cases written with
    | ok _ =>
      obtain ⟨manifest, text, rfl⟩ := hready rfl
      exact obeys_done.mpr ⟨manifest, text, rfl⟩
    | error fault =>
      apply Action.obeys_lift_bind (behaves_drop (b.describe id) stage)
      rintro _ _ rfl
      exact obeys_done.mpr rfl
  · rintro _ e ⟨-, rfl⟩
    rfl

end Workspaces

/-! ## Requests -/

namespace Service

open Workspaces

variable {s : Service} {request : Request} {source : String} {deadline : Nat} {x : Stay × Dues}
  {w : Workspace}

/-- A workspace whose files are there. -/
def IsFurnished (w : Workspace) (x : Stay × Dues) : Prop :=
  ∃ stage, x = inside w stage ∧ (stage = .altered ∨ ∃ manifest text, stage = .ready manifest text)

theorem behaves_runStage {command : Command} (hcwd : command.cwd = w.root) (hx : IsFurnished w x) :
    s.workspaces.Behaves source (runStage command request deadline).run (fun y _ => IsFurnished w y)
    x := by
  have hrun (timeout : Duration) : s.workspaces.Behaves source (ask (.run command timeout))
      (fun y _ => IsFurnished w y) x := by
    obtain ⟨stage, rfl, rfl | ⟨manifest, text, rfl⟩⟩ := hx
    · exact obeys_ask ⟨hcwd, trivial⟩ fun _ _ => ⟨.altered, rfl, .inl rfl⟩
    · exact obeys_ask ⟨hcwd, trivial⟩ fun _ _ => ⟨.altered, rfl, .inl rfl⟩
  have hinert {α : Type} {p : Program α} (hp : p.Only fun c => IsInert c ∧ StaysOut c)
      {y : Stay × Dues}
      (hy : IsFurnished w y) : s.workspaces.Behaves source p (fun z _ => z = y) y := by
    obtain ⟨stage, rfl, -⟩ := hy
    exact behaves_inside hp w stage
  have hclock : (ask .clock).Only fun c => IsInert c ∧ StaysOut c := only_ask ⟨trivial, trivial⟩
  apply Action.obeys_lift_bind (hinert hclock hx)
  rintro x t rfl
  by_cases hleft : deadline - t = 0
  · simp only [hleft, if_true]
    exact obeys_done.mpr hx
  simp only [hleft, if_false]
  have htimed (timeout : Duration) : s.workspaces.Behaves source
      (timed command.stage (ask (.run command timeout))) (fun y _ => IsFurnished w y) x := by
    apply obeys_bind (hinert hclock hx)
    rintro _ start rfl
    apply obeys_bind (hrun timeout)
    intro y reply hy
    have hrest : ((do
        ask (.record command.stage (← elapsedSince start))
        return reply) : Program _).Only fun c => IsInert c ∧ StaysOut c :=
      (hclock.bind fun _ => only_done _).bind fun _ =>
        (only_ask (c := .record _ _) ⟨trivial, trivial⟩).bind fun _ => only_done _
    refine obeys_mono (hinert hrest hy) ?_
    rintro _ _ rfl
    exact hy
  apply Action.obeys_lift_bind (htimed _)
  intro y reply hy
  cases reply with
  | ok result => exact obeys_done.mpr hy
  | error fault => cases fault <;> exact obeys_done.mpr hy

theorem behaves_buildThenRun (hx : IsFurnished w x) : s.workspaces.Behaves source
    (s.buildThenRun w request deadline).run (fun y _ => IsFurnished w y) x := by
  rw [buildThenRun]
  apply Action.obeys_bind (behaves_runStage rfl hx) _ fun _ _ h => h
  intro y build hy
  split
  · apply Action.obeys_bind (behaves_runStage rfl hy) _ fun _ _ h => h
    intro z run hz
    exact obeys_done.mpr hz
  · exact obeys_done.mpr hy

theorem behaves_buildAndRun (s : Service) (request : Request) : s.workspaces.Behaves request.source
    (s.buildAndRun request).run (fun x _ => x = (.out, .clear)) (.out, .clear) := by
  have hclock : s.workspaces.Behaves request.source (ask .clock) (fun x _ => x = (.out, .clear))
      (.out, .clear) := behaves_out (only_ask trivial)
  apply Action.obeys_lift_bind hclock
  rintro _ begun rfl
  have hdependency : (s.dependencyRef request (begun + request.timeout.nanos)).run.Only StaysOut :=
    only_dependencyRef (fun _ => trivial) trivial (fun _ _ => trivial) fun _ _ => trivial
  apply Action.obeys_bind (behaves_out hdependency) _ fun _ _ h => h
  rintro _ dependency rfl
  apply Action.obeys_lift_bind hclock
  rintro _ start rfl
  have hcreate : s.workspaces.Behaves request.source
      (s.workspaces.create request.source dependency).run
      Created (.out, .clear) := behaves_create dependency
  refine Action.obeys_bind hcreate ?_ (fun _ _ h => h)
  rintro x advised ⟨manifest, text, rfl⟩
  apply Action.obeys_lift_bind (behaves_settle advised "workspace hardening" _ _)
  rintro _ _ ⟨rfl, rfl⟩
  have helapsed : (elapsedSince start).Only fun c => IsInert c ∧ StaysOut c :=
    only_elapsedSince ⟨trivial, trivial⟩ start
  apply Action.obeys_lift_bind (behaves_inside helapsed _ _)
  rintro _ elapsed rfl
  apply Action.obeys_lift_bind (behaves_inside (only_ask (c := .record _ _) ⟨trivial, trivial⟩) _ _)
  rintro _ _ rfl
  apply Action.obeys_lift_bind (behaves_buildThenRun ⟨_, rfl, .inr ⟨manifest, text, rfl⟩⟩)
  rintro _ result ⟨stage, rfl, -⟩
  apply Action.obeys_lift_bind (behaves_drop advised.value stage)
  rintro _ _ rfl
  exact obeys_done.mpr rfl

theorem staysOut_of_looksUp {path : String} (c : Call) (h : LooksUp path c) : StaysOut c := by
  cases c with
  | makeDir | owe | settle | removeTree => exact h.elim id id
  | _ => trivial

/-- What follows the work makes no directories one by one. -/
theorem staysOut_close (elapsed : Duration) (result : Except Fault String) :
    (s.close request elapsed result).run.Only StaysOut := by
  refine only_close (fun output => (s.cache.handles_put _ output).mono fun c hc => ?_)
    (fun event => (s.audit.tells_record event).mono fun c hc => ?_) (fun _ _ => trivial) elapsed
      result
  all_goals
    cases c with
    | makeDir | owe | settle | removeTree => exact hc.elim
    | _ => trivial

theorem behaves_generateRequest (s : Service) (request : Request) :
    s.workspaces.Behaves request.source
    (s.generateRequest request).run (fun x _ => x = (.out, .clear)) (.out, .clear) :=
  obeys_generateRequest may_staysOut trivial (fun _ _ => trivial)
    ((looksUp_lookup s request.source).mono staysOut_of_looksUp) staysOut_close
      (behaves_buildAndRun s request)

/-- A request holds nothing when it ends, whatever its result is. -/
theorem behaves_generate (s : Service) (source : String) (timeout : Option Binary64) :
    s.workspaces.Behaves (Text.trim source) (s.generate source timeout).run
    (fun x _ => x = (.out, .clear)) (.out, .clear) := by
  unfold generate
  cases hv : s.limits.validate source timeout with
  | error fault => exact obeys_done.mpr rfl
  | ok request =>
    rw [← Conduct.source_of_validate hv]
    exact behaves_generateRequest s request

end Service

/-! ## Errands -/

/-- What somebody wants of a service. -/
inductive Errand where
  /-- Make a workspace and drop it again. -/
  | keep (source : String) (dependency : DependencyRef)
  /-- Have a request answered. -/
  | answer (source : String) (timeout : Option Binary64)

namespace Errand

/-- The source that is put into the workspace. -/
def source : Errand → String
  | .keep source _ => source
  | .answer source _ => Text.trim source

def program (s : Service) : Errand → Program Unit
  | .keep source dependency => do
    match ← (s.workspaces.create source dependency).run with
    | .ok advised => advised.value.drop
    | .error _ => return ()
  | .answer source timeout => do
    let _ ← (s.generate source timeout).run
    return ()

theorem behaves_program (s : Service) (e : Errand) :
    s.workspaces.Behaves e.source (e.program s) (fun x _ => x = (.out, .clear)) (.out, .clear) := by
  cases e with
  | keep source dependency =>
    apply obeys_bind (Workspaces.behaves_create dependency)
    rintro x (fault | advised) hx
    · exact obeys_done.mpr hx
    obtain ⟨manifest, text, rfl⟩ := hx
    exact Workspaces.behaves_drop advised.value _
  | answer source timeout =>
    apply obeys_bind (s.behaves_generate source timeout)
    rintro _ _ rfl
    exact obeys_done.mpr rfl

end Errand

/-! ## What a stay says -/

namespace Workspaces

/-- Where the events of a past have led. -/
def stay (past : List Event) : Stay := past.foldl (fun x e => whereabouts x e.call e.reply) .out

/-- The files that a stay tells of have been rendered together. -/
def Rendered (b : Workspaces) (source : String) : Stay → Prop
  | .within root (.half manifest) => ∃ text, b.IsRendered source root manifest text
  | .within root (.ready manifest text) => b.IsRendered source root manifest text
  | _ => True

theorem rendered_after {b : Workspaces} {source : String} {x : Stay} {c : Call} {r : c.Reply}
    (h : b.Rendered source x) (hmay : b.mayAsk source x c) :
    b.Rendered source (whereabouts x c r) := by
  rcases x with _ | ⟨root, stage⟩
  · cases c with
    | makeDir path => cases r <;> trivial
    | _ => trivial
  · cases c with
    | writeFile path bytes =>
      cases stage with
      | bare | half manifest =>
        cases r with
        | ok _ => exact hmay.2
        | error e => trivial
      | ready | altered => trivial
    | run | removeTree => cases stage <;> trivial
    | _ => cases stage <;> exact h

theorem stay_concat (past : List Event) (e : Event) :
    stay (past ++ [e]) = whereabouts (stay past) e.call e.reply := by
  simp [stay]

theorem stay_append_inert {past later : List Event} (h : ∀ e ∈ later, IsInert e.call) :
    stay (past ++ later) = stay past := by
  induction later generalizing past with
  | nil => rw [List.append_nil]
  | cons e later ih =>
    obtain ⟨he, hlater⟩ := List.forall_mem_cons.mp h
    rw [List.append_cons, ih hlater, stay_concat, whereabouts_inert he]

end Workspaces

end Foundry
