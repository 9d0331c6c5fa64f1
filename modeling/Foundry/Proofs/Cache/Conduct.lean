import Foundry.Proofs.Cache.EntryText
import Foundry.Proofs.Service.Phases
import Foundry.Proofs.Text.Blank

/-!
# How requests treat the cache

A request writes into the cache directory only whole entries under names of their
own, each with an output that is right for the entry's source, and puts them into
place by renaming. In return it needs to hear nothing but whole and right entries
when it reads one, and the output of its own source when it runs a command. Both
halves are one discipline, which requests and clearings obey whatever else they hear.
-/

namespace Foundry

open Program Text Service

/-- What clients ask of a service. -/
inductive Client where
  | generate (source : String) (timeout : Option Binary64)
  | clearCache

namespace Client

@[reducible] def Answer : Client → Type
  | .generate .. => Except Fault Generated
  | .clearCache => Except Fault Unit

def program (s : Service) : (c : Client) → Program c.Answer
  | .generate source timeout => (s.generate source timeout).run
  | .clearCache => s.clearCache.run

/-- The text between blanks that a client asks about. -/
def source : Client → String
  | .generate source _ => Text.trim source
  | .clearCache => ""

end Client

namespace Service

variable (s : Service) (stdoutOf : String → ByteArray)

/-- Whether an output is the one for a source, given what runs of sources print. -/
def IsRight (source output : String) : Prop :=
  ∃ text, String.fromUTF8? (stdoutOf source) = some text ∧
    output = Sentinel.payload text s.sentinel

/-- A whole entry whose output is right for its own source. -/
def IsEntryText (bytes : ByteArray) : Prop :=
  ∃ entry : Entry, bytes = entry.toJson.pretty.toUTF8 ∧ s.IsRight stdoutOf entry.source entry.output

/-- The paths of files that belong to some workspace. -/
def IsWorkspaceFile (path : String) : Prop :=
  ∃ id, path = (s.workspaces.describe id).manifestFile ∨
    path = (s.workspaces.describe id).sourceFile

/-- Texts that can be part of a file name. -/
def IsStem (text : String) : Prop := '/' ∉ text.toList

/-- What a task may do with files: write its workspace, draft a right entry, put a draft into
place. -/
def mayCall : Call → Prop
  | .writeFile path bytes => s.IsWorkspaceFile path ∨
      ∃ hash id, IsStem hash ∧ IsStem id ∧ path = s.cache.draftPath hash id ∧
        s.IsEntryText stdoutOf bytes
  | .rename source target => ∃ hash id, IsStem hash ∧ IsStem id ∧
      source = s.cache.draftPath hash id ∧ target = s.cache.entryPath hash
  | .openLock _ | .markLock .. => False
  | _ => True

/-- A stage of running that succeeds has printed what the source prints. -/
def PrintsFor (source : String) (command : Command)
    (r : Except Fault CommandResult) : Prop :=
  command.stage = "run" →
    ∀ result, r = .ok result → result.succeeded = true → result.stdout = stdoutOf source

/-- What a task for a source reckons with. -/
def mayHear (source : String) : (c : Call) → c.Reply → Prop
  | .readFile path, r => ∀ hash bytes, IsStem hash → path = s.cache.entryPath hash →
      r = .ok bytes → s.IsEntryText stdoutOf bytes
  | .freshId, id => IsStem id
  | .run command _, r => PrintsFor stdoutOf source command r
  | _, _ => True

/-- The discipline of a task for a source. It has a single phase. -/
def conduct (source : String) : Discipline Unit where
  may _ c := s.mayCall stdoutOf c
  hears _ c r := s.mayHear stdoutOf source c r
  after _ _ _ := ()

end Service

namespace Conduct

variable {fault : Cause → Fault} {request : Request}
variable {s : Service} {stdoutOf : String → ByteArray} {source : String} {α : Type} {p : Program α}

variable (s stdoutOf source)

/-- The program keeps to the discipline and ends as said. -/
abbrev Good (p : Program α) (ends : α → Prop) : Prop :=
  p.Obeys (s.conduct stdoutOf source) (fun _ => ends) ()

/-- The program keeps to the discipline, whatever it ends with. -/
abbrev Tame (p : Program α) : Prop := Good s stdoutOf source p fun _ => True

/-- An action that keeps to the discipline and succeeds only as said. -/
abbrev GoodAction (p : Action α) (ends : α → Prop) : Prop :=
  Good s stdoutOf source p.run fun r => ∀ a, r = .ok a → ends a

abbrev TameAction (p : Action α) : Prop := GoodAction s stdoutOf source p fun _ => True

variable {s stdoutOf source} {β : Type} {ends : α → Prop} {last : β → Prop} {a : α}
  {f : α → Action β}

theorem Good.bind {f : α → Program β} (h : Good s stdoutOf source p ends)
    (hf : ∀ a, ends a → Good s stdoutOf source (f a) last) :
    Good s stdoutOf source (p >>= f) last :=
  obeys_bind h fun _ => hf

theorem Good.done (h : ends a) : Good s stdoutOf source (.done a) ends := obeys_done.mpr h

theorem tame_done (a : α) : Tame s stdoutOf source (.done a) := Good.done trivial

theorem good_ask (c : Call) {ends : c.Reply → Prop} (h : s.mayCall stdoutOf c)
    (hends : ∀ r, s.mayHear stdoutOf source c r → ends r) : Good s stdoutOf source (ask c) ends :=
  obeys_ask h hends

/-- A call whose reply does not matter. -/
theorem tame_ask (c : Call) (h : s.mayCall stdoutOf c) : Tame s stdoutOf source (ask c) :=
  good_ask c h fun _ _ => trivial

/-- A program that makes only such calls needs to hear nothing. -/
theorem tame_of_only (h : p.Only (s.mayCall stdoutOf)) : Tame s stdoutOf source p :=
  obeys_mono (h.obeys fun _ hc => ⟨hc, fun _ => rfl⟩) fun _ _ _ => trivial

theorem GoodAction.bind {p : Action α} (h : GoodAction s stdoutOf source p ends)
    (hf : ∀ a, ends a → GoodAction s stdoutOf source (f a) last) :
    GoodAction s stdoutOf source (p >>= f) last :=
  Action.obeys_bind h (fun _ a ha => hf a (ha a rfl)) fun _ _ _ _ hb => by cases hb

theorem Good.bind_action (h : Good s stdoutOf source p ends)
    (hf : ∀ a, ends a → GoodAction s stdoutOf source (f a) last) :
    GoodAction s stdoutOf source ((liftM p : Action α) >>= f) last :=
  Action.obeys_lift_bind h fun _ => hf

theorem Good.attempt_bind {p : Action α} {ends : Except Fault α → Prop}
    {f : Except Fault α → Action β}
    (h : Good s stdoutOf source p.run ends)
    (hf : ∀ r, ends r → GoodAction s stdoutOf source (f r) last) :
    GoodAction s stdoutOf source (attempt p >>= f) last :=
  Action.obeys_lift_bind h fun _ => hf

theorem GoodAction.pure (h : ends a) : GoodAction s stdoutOf source (pure a) ends :=
  Good.done fun b hb => by cases hb; exact h

theorem GoodAction.throw (fault : Fault) :
    GoodAction s stdoutOf source (MonadExcept.throw fault : Action α) ends :=
  Good.done fun b hb => by cases hb

theorem GoodAction.throw_bind (fault : Fault) (f : α → Action β) :
    GoodAction s stdoutOf source ((MonadExcept.throw fault : Action α) >>= f) last :=
  Good.done fun b hb => by cases hb

theorem tameAction_of_only {p : Action α} (h : p.run.Only (s.mayCall stdoutOf)) :
    TameAction s stdoutOf source p :=
  obeys_mono (tame_of_only h) fun _ _ _ _ _ => trivial

theorem tameAction_pure (a : α) : TameAction s stdoutOf source (Pure.pure a) :=
  GoodAction.pure trivial

theorem GoodAction.orFail {p : Program (Except Cause α)}
    (h : Good s stdoutOf source p fun r => ∀ a, r = .ok a → ends a) :
    GoodAction s stdoutOf source (orFail fault p) ends :=
  Action.obeys_orFail h (fun _ a ha b hb => by cases hb; exact ha a rfl)
    fun _ _ _ _ hb => by cases hb

/-- A call whose failure is a fault. -/
theorem tameAction_orFault {p : Program (Except Cause α)}
    (h : Tame s stdoutOf source p) : TameAction s stdoutOf source (Foundry.orFail fault p) :=
  GoodAction.orFail (obeys_mono h fun _ _ _ _ _ => trivial)

theorem Good.lift (h : Good s stdoutOf source p ends) :
    GoodAction s stdoutOf source (liftM p : Action α) ends := by
  refine Good.bind h fun a ha => Good.done fun b hb => ?_
  cases hb
  exact ha

/-! ## The cache -/

theorem tame_discard (path : String) : Tame s stdoutOf source (Cache.discard path) :=
  tame_of_only (Cache.only_discard trivial)

/-- Reading an entry's file as text gives a whole and right entry. -/
theorem good_readTextFile_entry {hash : String} (h : IsStem hash) :
    Good s stdoutOf source (readTextFile (s.cache.entryPath hash)) fun r =>
    ∀ text, r = .ok text → s.IsEntryText stdoutOf text.toUTF8 := by
  have hread : Good s stdoutOf source (readFile (s.cache.entryPath hash)) fun r =>
      ∀ bytes, r = .ok bytes → s.IsEntryText stdoutOf bytes :=
    good_ask (.readFile (s.cache.entryPath hash)) trivial fun r hr bytes hb =>
      hr hash bytes h rfl hb
  refine hread.bind fun r hr => ?_
  cases r with
  | error e =>
    refine Good.done fun text htext => ?_
    cases htext
  | ok bytes =>
    obtain ⟨entry, rfl, hright⟩ := hr bytes rfl
    dsimp only
    rw [fromUTF8?_toUTF8]
    refine Good.done fun text htext => ?_
    cases htext
    exact ⟨entry, rfl, hright⟩

/-- What is looked up is right for the source asked for. -/
theorem good_get (hstem : ∀ text, IsStem (s.cache.hash text)) (asked : String) :
    Good s stdoutOf source (s.cache.get asked) fun hit =>
    ∀ output, hit.value = some output → s.IsRight stdoutOf (trim asked) output := by
  have hmiss : ∀ warning : Option String, Good s stdoutOf source
      (.done ⟨none, warning⟩ : Program (Advised (Option String))) fun hit =>
        ∀ output, hit.value = some output → s.IsRight stdoutOf (trim asked) output := by
    intro warning
    refine Good.done fun output houtput => ?_
    cases houtput
  refine (good_readTextFile_entry (hstem (trim asked))).bind fun r hr => ?_
  cases r with
  | error e =>
    dsimp only
    split <;> exact hmiss _
  | ok content =>
    obtain ⟨written, hwritten, hright⟩ := hr content rfl
    dsimp only
    split
    · exact (tame_discard _).bind fun _ _ => hmiss _
    rename_i entry hparse
    rw [hwritten] at hparse
    obtain ⟨stamp, -, rfl⟩ := Entry.parse_pretty hparse
    split
    · exact (tame_discard _).bind fun _ _ => hmiss _
    rename_i hfor
    refine (tame_ask .today trivial).bind fun now _ => ?_
    split
    · exact (tame_discard _).bind fun _ _ => hmiss _
    refine Good.done fun output houtput => ?_
    cases houtput
    have hsource : written.source = trim asked := by
      simp [Entry.isFor] at hfor
      exact hfor.2
    rw [← hsource]
    exact hright

/-- A right entry is written as a draft and put into place. -/
theorem tameAction_writeEntry {entry : Entry} (hstem : IsStem entry.hash)
    (hright : s.IsRight stdoutOf entry.source entry.output) :
    TameAction s stdoutOf source (s.cache.writeEntry entry) := by
  have hid : Good s stdoutOf source (ask .freshId) IsStem :=
    good_ask .freshId trivial fun _ hr => hr
  refine (tameAction_orFault (tame_ask (.makeDirs s.cache.dir) trivial)).bind fun _ _ => ?_
  refine hid.bind_action fun id hid => ?_
  have hwrite : s.mayCall stdoutOf
      (.writeFile (s.cache.draftPath entry.hash id) entry.toJson.pretty.toUTF8) :=
    .inr ⟨entry.hash, id, hstem, hid, rfl, entry, rfl, hright⟩
  refine (tameAction_orFault (tame_ask _ hwrite)).bind fun _ _ => ?_
  have hrename : s.mayCall stdoutOf
      (.rename (s.cache.draftPath entry.hash id) (s.cache.entryPath entry.hash)) :=
    ⟨entry.hash, id, hstem, hid, rfl, rfl⟩
  refine (tame_ask _ hrename).bind_action fun r _ => ?_
  cases r with
  | ok _ => exact GoodAction.pure trivial
  | error e =>
    exact (tame_ask (.removeFile (s.cache.draftPath entry.hash id)) trivial).bind_action
      fun _ _ => GoodAction.throw _

theorem tame_put (hstem : ∀ text, IsStem (s.cache.hash text)) {asked output : String}
    (hright : s.IsRight stdoutOf (trim asked) output) :
    Tame s stdoutOf source (s.cache.put asked output) := by
  refine (tame_ask .today trivial).bind fun now _ => ?_
  have hwrite : TameAction s stdoutOf source
      (s.cache.writeEntry (Entry.ofOutput s.cache.hash now asked output)) :=
    tameAction_writeEntry (hstem (trim asked)) hright
  refine Good.bind hwrite fun r _ => ?_
  cases r with
  | error fault => exact tame_done _
  | ok _ =>
    exact (tame_of_only (Cache.only_evict (fun _ => trivial) (fun _ => trivial) (fun _ => trivial)
      _)).bind fun _ _ => tame_done _

theorem tameAction_clear (c : Cache) : TameAction s stdoutOf source c.clear := by
  refine (tame_ask (.removeTree c.dir) trivial).bind_action fun r _ => ?_
  have hmake : TameAction s stdoutOf source
      (orFault s!"creating cache directory {c.dir}" (ask (.makeDirs c.dir))) :=
    tameAction_orFault (tame_ask (.makeDirs c.dir) trivial)
  cases r with
  | ok _ => exact (tameAction_pure ()).bind fun _ _ => hmake
  | error e =>
    dsimp only
    split
    · exact GoodAction.throw_bind _ _
    · exact (tameAction_pure ()).bind fun _ _ => hmake

/-! ## Workspaces and the audit trail -/

theorem good_settle {a : Advised α} (operation : String) (h : ends a.value) :
    Good s stdoutOf source (a.settle operation) ends := by
  unfold Advised.settle
  split
  · exact (tame_ask (.warn _ _) trivial).bind fun _ _ => Good.done h
  · exact Good.done h

theorem tame_audit (log : AuditLog) (event : AuditEvent) :
    Tame s stdoutOf source (log.record event) := by
  refine tame_of_only ((log.tells_record event).mono fun c hc => ?_)
  cases c with
  | writeFile | rename | openLock | markLock => exact hc.elim
  | _ => trivial

theorem tameAction_create (text : String) (dependency : DependencyRef) :
    TameAction s stdoutOf source (s.workspaces.create text dependency) := by
  refine tameAction_of_only ((s.workspaces.furnishes_create text dependency).mono fun c hc => ?_)
  cases c with
  | writeFile => exact .inl hc
  | rename | openLock | markLock => exact hc.elim
  | _ => trivial

/-! ## Requests -/

theorem tame_elapsedSince (start : Nat) : Tame s stdoutOf source (elapsedSince start) :=
  tame_of_only (only_elapsedSince trivial start)

theorem good_timed (operation : String) (h : Good s stdoutOf source p ends) :
    Good s stdoutOf source (timed operation p) ends := by
  refine (tame_ask .clock trivial).bind fun start _ => ?_
  refine h.bind fun a ha => ?_
  refine (tame_elapsedSince start).bind fun elapsed _ => ?_
  exact (tame_ask (.record operation elapsed) trivial).bind fun _ _ => Good.done ha

/-- What a stage ends with is what the runner said; a stage of running prints what the source
prints. -/
theorem goodAction_runStage (command : Command) (request : Request) (deadline : Nat) :
    GoodAction s stdoutOf source (runStage command request deadline) fun result =>
    command.stage = "run" → result.succeeded = true → result.stdout = stdoutOf source := by
  refine (tame_ask .clock trivial).bind_action fun now _ => ?_
  have hrun : ∀ timeout, Good s stdoutOf source
      (timed command.stage (execute command timeout).run) fun r => ∀ result, r = .ok result →
        command.stage = "run" → result.succeeded = true → result.stdout = stdoutOf source := by
    intro timeout
    refine good_timed command.stage ?_
    exact good_ask (.run command timeout) trivial fun r hr result hok hstage => hr hstage result hok
  dsimp only
  split
  · exact GoodAction.throw _
  refine Good.attempt_bind (hrun _) fun r hr => ?_
  split
  · exact GoodAction.throw _
  · exact GoodAction.throw _
  · exact GoodAction.pure (hr _ rfl)

/-- A build and run that succeed give the right output. -/
theorem goodAction_buildThenRun (w : Workspace) (request : Request) (deadline : Nat) :
    GoodAction s stdoutOf source (s.buildThenRun w request deadline)
    (s.IsRight stdoutOf source) := by
  refine (goodAction_runStage (s.workspaces.buildCommand w) request deadline).bind fun build _ => ?_
  split
  · refine (goodAction_runStage (s.workspaces.runCommand w) request deadline).bind fun run hrun =>
      ?_
    refine Good.done fun output houtput => ?_
    unfold readRun at houtput
    split at houtput
    · cases houtput
    rename_i hcode
    have hstdout : run.stdout = stdoutOf source :=
      hrun rfl (by simpa [CommandResult.succeeded] using hcode)
    split at houtput
    · cases houtput
    rename_i text htext
    cases houtput
    exact ⟨text, hstdout ▸ htext, rfl⟩
  · exact GoodAction.throw _

theorem goodAction_buildAndRun (request : Request) :
    GoodAction s stdoutOf source (s.buildAndRun request) (s.IsRight stdoutOf source) := by
  refine (tame_ask .clock trivial).bind_action fun begun _ => ?_
  refine (tameAction_of_only (only_dependencyRef (fun _ => trivial) trivial (fun _ _ => trivial)
    fun _ _ => trivial)).bind fun dependency _ => ?_
  refine (tame_ask .clock trivial).bind_action fun start _ => ?_
  refine (tameAction_create request.source dependency).bind fun advised _ => ?_
  refine Good.bind_action (good_settle "workspace hardening" trivial : Tame s stdoutOf source _)
    fun w _ => ?_
  refine (tame_elapsedSince start).bind_action fun elapsed _ => ?_
  refine (tame_ask (.record "workspace_create" elapsed) trivial).bind_action fun _ _ => ?_
  refine Good.attempt_bind (goodAction_buildThenRun w request _) fun result hresult => ?_
  refine (tame_of_only (only_drop w trivial trivial (fun _ => trivial) fun _ _ =>
    trivial)).bind_action fun _ _ => ?_
  exact Good.done hresult

theorem good_lookup (hstem : ∀ text, IsStem (s.cache.hash text)) (asked : String) :
    Good s stdoutOf source (s.lookup asked) fun hit =>
    ∀ output, hit = some output → s.IsRight stdoutOf (trim asked) output := by
  unfold lookup
  split
  · refine good_timed "cache_lookup" ?_
    refine (good_get hstem asked).bind fun hit hhit => ?_
    exact good_settle "cache lookup" hhit
  · refine Good.done fun output houtput => ?_
    cases houtput

/-- Whatever way a request is answered, the output is right. -/
theorem goodAction_generateRequest (hstem : ∀ text, IsStem (s.cache.hash text))
    (hsource : trim request.source = source) :
    GoodAction s stdoutOf source (s.generateRequest request) fun g =>
    s.IsRight stdoutOf source g.output := by
  refine (tame_ask .clock trivial).bind_action fun start _ => ?_
  refine Good.bind_action (good_lookup hstem request.source) fun hit hhit => ?_
  cases hit with
  | some output =>
    refine (tame_elapsedSince start).bind_action fun elapsed _ => ?_
    refine (tame_ask (.record "generate" elapsed) trivial).bind_action fun _ _ => ?_
    refine GoodAction.pure ?_
    rw [← hsource]
    exact hhit output rfl
  | none =>
    refine Good.attempt_bind (goodAction_buildAndRun request) fun outcome houtcome => ?_
    refine (tame_elapsedSince start).bind_action fun elapsed _ => ?_
    refine (tame_ask (.record "generate" elapsed) trivial).bind_action fun _ _ => ?_
    cases outcome with
    | ok output =>
      have hright := houtcome output rfl
      have hfinish : GoodAction s stdoutOf source (do
          s.audit.record (.generationCompleted (s.cache.hash request.source) elapsed.toSeconds)
          return (⟨output, false⟩ : Generated)) fun g => s.IsRight stdoutOf source g.output :=
        (tame_audit s.audit _).bind_action fun _ _ => GoodAction.pure hright
      dsimp only [close]
      split
      · have hput : Tame s stdoutOf source (s.cache.put request.source output) := by
          refine tame_put hstem ?_
          rw [hsource]
          exact hright
        refine hput.bind_action fun stored _ => ?_
        exact Good.bind_action (good_settle "cache store" trivial : Tame s stdoutOf source _)
          fun _ _ => hfinish
      · exact hfinish
    | error fault =>
      refine (tame_ask (.warn _ _) trivial).bind_action fun _ _ => ?_
      exact (tame_audit s.audit _).bind_action fun _ _ => GoodAction.throw fault

/-- An accepted source is kept without the blanks around it. -/
theorem source_of_validate {limits : Limits} {text : String} {timeout : Option Binary64}
    (h : limits.validate text timeout = .ok request) : request.source = trim text := by
  unfold Limits.validate at h
  dsimp only at h
  split at h
  · cases h
  split at h
  · cases h
  split at h
  · cases h
  split at h
  · cases h
  cases h
  rfl

end Conduct

namespace Client

open Conduct

variable (s : Service) (stdoutOf : String → ByteArray)

/-- A right answer: an output that is given is the one for the source. -/
def IsRight : (c : Client) → c.Answer → Prop
  | .generate source _, .ok g => s.IsRight stdoutOf (Text.trim source) g.output
  | _, _ => True

theorem goodAction_generate (hstem : ∀ text, IsStem (s.cache.hash text)) (source : String)
    (timeout : Option Binary64) :
    GoodAction s stdoutOf (trim source) (s.generate source timeout) fun g =>
    s.IsRight stdoutOf (trim source) g.output := by
  unfold Service.generate
  split
  · exact GoodAction.throw _
  rename_i request hrequest
  refine goodAction_generateRequest hstem ?_
  rw [source_of_validate hrequest, trim_trim]

theorem tameAction_clearCache : TameAction s stdoutOf "" s.clearCache :=
  (tameAction_clear s.cache).bind fun _ _ => (tame_audit s.audit _).lift

/-- Every client keeps to the discipline and is answered right. -/
theorem obeys_conduct (hstem : ∀ text, IsStem (s.cache.hash text)) (c : Client) :
    (c.program s).Obeys (s.conduct stdoutOf c.source) (fun _ => c.IsRight s stdoutOf) () := by
  cases c with
  | generate source timeout =>
    refine obeys_mono (goodAction_generate s stdoutOf hstem source timeout) fun _ r hr => ?_
    cases r with
    | ok g => exact hr g rfl
    | error fault => trivial
  | clearCache =>
    exact obeys_mono (tameAction_clearCache s stdoutOf) fun _ r _ => by cases r <;> trivial

end Client

end Foundry
