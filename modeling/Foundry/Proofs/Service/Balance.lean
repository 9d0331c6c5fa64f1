import Foundry.Proofs.Service.Audited
import Foundry.Proofs.Service.Deadline

/-!
# Samples and commands

The samples that a request takes are set against what it does. A list of events balances
if it holds, under every name, one sample for each command of that stage, and besides those
of a given list of names. For a whole request that list names the request, the look into
the cache and the workspace, each of them if there was one.
-/

namespace Foundry

open Program List Service Call

/-! ## Samples -/

theorem find?_insertSorted {α : Type} (name : String) (value : α) (series : List (String × α))
    (other : String) : ((insertSorted name value series).find? fun x => x.1 == other).map (·.2) =
    if other = name then some value else (series.find? fun x => x.1 == other).map (·.2) := by
  induction series with
  | nil => by_cases h : other = name <;> simp [insertSorted, h, Ne.symm]
  | cons x series ih =>
    obtain ⟨key, old⟩ := x
    by_cases hname : name = key
    · subst hname
      by_cases h : other = name
      · simp [insertSorted, h]
      · simp [insertSorted, h, Ne.symm h]
    · rw [insertSorted, if_neg hname]
      split
      · by_cases h : other = name
        · simp [h]
        · simp [h, Ne.symm h]
      · by_cases hkey : key = other
        · subst hkey
          simp [Ne.symm hname]
        simp only [List.find?_cons, beq_eq_false_iff_ne.mpr hkey]
        exact ih

namespace Metrics

variable {m : Metrics} {name : String}

theorem samples_record (m : Metrics) (name : String) (d : Duration) (other : String) :
    (m.record name d).samples other =
    if other = name then push m.capacity (m.samples name) d else m.samples other := by
  simp only [samples, record, find?_insertSorted]
  split <;> rfl

theorem length_push {capacity : Nat} {series : List Duration} (d : Duration) (hpos : 0 < capacity)
    (hle : series.length ≤ capacity) :
    (push capacity series d).length = min capacity (series.length + 1) := by
  unfold push
  split
  · simp only [length_append, length_drop, length_singleton]
    omega
  simp only [length_append, length_singleton]
  omega

@[simp] theorem capacity_after (m : Metrics) (e : Event) : (m.after e).capacity = m.capacity := by
  unfold after
  split <;> rfl

theorem length_samples_after (hpos : 0 < m.capacity)
    (hle : (m.samples name).length ≤ m.capacity) (e : Event) : ((m.after e).samples name).length =
    min m.capacity ((m.samples name).length + if records name e then 1 else 0) := by
  obtain ⟨c, r⟩ := e
  cases c with
  | record operation d =>
    by_cases h : operation = name
    · subst h
      simp [after, samples_record, length_push d hpos hle, records]
    · simp [after, samples_record, h, Ne.symm h, records, hle]
  | _ => simp [after, records, hle]

/-- As many samples are kept as were taken, up to the capacity. -/
theorem length_samples_foldl (hpos : 0 < m.capacity)
    (hle : (m.samples name).length ≤ m.capacity) (es : List Event) :
    ((es.foldl after m).samples name).length =
    min m.capacity ((m.samples name).length + es.countP (records name)) := by
  induction es generalizing m with
  | nil => simp [hle]
  | cons e es ih =>
    have hstep := length_samples_after hpos hle e
    rw [foldl_cons, ih (by simpa using hpos) (by rw [hstep, capacity_after]; omega), hstep,
      capacity_after, countP_cons]
    split <;> omega

end Metrics

/-! ## Balance -/

/-- The events take one sample for each command of a stage of a request, and besides those under
the names given. -/
structure Balances (es : List Event) (others : List String) : Prop where
  samples_eq : ∀ name, es.countP (Service.records name) =
    (commandsOf es).countP (·.stage = name) + others.count name
  stages : ∀ command ∈ commandsOf es, command.stage = "build" ∨ command.stage = "run"

/-- Calls that neither run nor measure anything. -/
def Call.IsQuiet (c : Call) : Prop := c.kind ≠ .command ∧ c.kind ≠ .measure

theorem Call.IsPlain.isQuiet {c : Call} (h : c.IsPlain) : c.IsQuiet := by
  simp [IsQuiet, h]

namespace Balances

variable {es es' : List Event} {others others' : List String}

theorem append (h : Balances es others) (h' : Balances es' others') :
    Balances (es ++ es') (others ++ others') := by
  constructor
  · intro name
    simp only [countP_append, commandsOf_append, count_append, h.samples_eq, h'.samples_eq]
    omega
  · intro command hcommand
    rw [commandsOf_append] at hcommand
    exact (mem_append.mp hcommand).elim (h.stages command) (h'.stages command)

theorem of_quiet (h : ∀ e ∈ es, e.call.IsQuiet) : Balances es [] := by
  have hcommands : commandsOf es = [] := by
    apply commandsOf_eq_nil
    exact runsOf_eq_nil fun e he => (h e he).1
  have hrecords (name : String) : es.countP (records name) = 0 := by
    apply countP_eq_zero.mpr
    rintro ⟨c, r⟩ he
    cases c with
    | record operation d => exact absurd rfl (h _ he).2
    | _ => simp [records]
  exact ⟨fun name => by simp [hcommands, hrecords], by simp [hcommands]⟩

theorem append_quiet (h : Balances es others) (hq : ∀ e ∈ es', e.call.IsQuiet) :
    Balances (es ++ es') others := by
  simpa using h.append (.of_quiet hq)

theorem quiet_append (hq : ∀ e ∈ es, e.call.IsQuiet) (h : Balances es' others) :
    Balances (es ++ es') others := by
  simpa using (of_quiet hq).append h

theorem clock_cons (t : Nat) (h : Balances es others) : Balances (⟨.clock, t⟩ :: es) others := by
  rw [← singleton_append]
  exact quiet_append (by simp [IsQuiet, kind]) h

theorem record (operation : String) (d : Duration) :
    Balances [⟨.record operation d, ()⟩] [operation] := by
  constructor
  · intro name
    by_cases h : operation = name <;> simp [commandsOf, records, h]
  · simp [commandsOf]

end Balances

/-! ## Requests -/

/-- Calls that make one directory. -/
def Call.IsMakeDir : Call → Prop
  | .makeDir _ => True
  | _ => False

/-- Calls that the books take no notice of. -/
def Call.IsAside : Call → Prop
  | .run .. | .record .. | .makeDir _ => False
  | _ => True

namespace Call.IsAside

variable {c : Call}

theorem isQuiet (h : c.IsAside) : c.IsQuiet := by
  cases c with
  | run | record => exact h.elim
  | _ => simp [IsQuiet, kind]

theorem not_isMakeDir (h : c.IsAside) : ¬ c.IsMakeDir := by
  cases c with
  | makeDir => exact h.elim
  | _ => exact id

theorem of_tells (h : AuditLog.Tells c) : c.IsAside := by
  cases c with
  | run | record | makeDir => exact h.elim
  | _ => trivial

theorem of_handles (h : Cache.Handles c) : c.IsAside := by
  cases c with
  | run | record | makeDir => exact h.elim
  | _ => trivial

theorem of_consults {path : String} (h : Cache.Consults path c) : c.IsAside := by
  cases c with
  | run | record | makeDir => exact h.elim
  | _ => trivial

end Call.IsAside

namespace Service

variable {r : Except Fault String} {source : String} {outcome : Except Fault Generated}
variable {s : Service} {request : Request} {es : List Event} {deadline : Nat}

theorem balances_runStage {command : Command} {r : Except Fault CommandResult}
    (h : Course (runStage command request deadline).run es r)
    (hstage : command.stage = "build" ∨ command.stage = "run") : Balances es [] := by
  rcases course_runStage_cases h with ⟨t, -, rfl, -⟩ | ⟨t, t₁, t₂, reply, -, rfl, -⟩
  · exact .of_quiet (by simp [IsQuiet, kind])
  constructor
  · intro name
    by_cases hname : command.stage = name <;> simp [stageEvents, commandsOf, records, hname]
  · simpa [stageEvents, commandsOf] using hstage

theorem balances_buildThenRun {w : Workspace}
    (h : Course (s.buildThenRun w request deadline).run es r) : Balances es [] := by
  rw [buildThenRun] at h
  rcases Action.course_bind.mp h with ⟨built, rest, build, rfl, hbuild, hrest⟩ | ⟨e, -, hbuild⟩
  · have hsecond : Balances rest [] := by
      split at hrest
      · rcases Action.course_bind.mp hrest with ⟨ran, read, run, rfl, hrun, hread⟩ | ⟨e, -, hrun⟩
        · obtain ⟨rfl, -⟩ := course_done.mp hread
          exact (balances_runStage hrun (.inr rfl)).append_quiet (by simp)
        · exact balances_runStage hrun (.inr rfl)
      · obtain ⟨rfl, -⟩ := Action.course_throw.mp hrest
        exact .of_quiet (by simp)
    exact (balances_runStage hbuild (.inl rfl)).append hsecond
  · exact balances_runStage hbuild (.inl rfl)

/-- Whether a request has made a workspace: there is at most one place where it tries to, and the
attempt there has succeeded or not. -/
inductive Creates (s : Service) (source : String) : List Event → Bool → Prop
  | untried {es : List Event} (none : ∀ e ∈ es, ¬ e.call.IsMakeDir) : Creates s source es false
  | tried {before made after : List Event} {dependency : DependencyRef}
      {r : Except Fault (Advised Workspace)}
      (course : Course (s.workspaces.create source dependency).run made r)
      (before_none : ∀ e ∈ before, ¬ e.call.IsMakeDir)
      (after_none : ∀ e ∈ after, ¬ e.call.IsMakeDir) :
      Creates s source (before ++ made ++ after) r.isOk

theorem Creates.surround {created : Bool} {es' es'' : List Event}
    (h : s.Creates source es created) (h' : ∀ e ∈ es', ¬ e.call.IsMakeDir)
    (h'' : ∀ e ∈ es'', ¬ e.call.IsMakeDir) : s.Creates source (es' ++ es ++ es'') created := by
  cases h with
  | untried none =>
    apply Creates.untried
    intro e he
    simp only [mem_append] at he
    rcases he with (he | he) | he
    · exact h' e he
    · exact none e he
    · exact h'' e he
  | @tried before made after dependency r course before_none after_none =>
    have hshape : es' ++ (before ++ made ++ after) ++ es'' = (es' ++ before) ++ made ++
        (after ++ es'') := by
      simp
    rw [hshape]
    refine .tried course (fun e he => ?_) fun e he => ?_
    · exact (mem_append.mp he).elim (h' e) (before_none e)
    · exact (mem_append.mp he).elim (after_none e) (h'' e)

/-- The name under which making a workspace is measured. -/
def creationSamples (created : Bool) : List String := if created then ["workspace_create"] else []

theorem aside_drop (w : Workspace) : w.drop.Only IsAside :=
  only_drop w trivial trivial (fun _ => trivial) fun _ _ => trivial

/-- From the start of its time to the removal of its workspace, a request takes the samples of its
commands and that of its workspace, if it has made one. -/
theorem balances_buildAndRun (h : Course (s.buildAndRun request).run es r) :
    ∃ created, Balances es (creationSamples created) ∧ s.Creates request.source es created := by
  have hasks {deadline : Nat} : (s.dependencyRef request deadline).run.Only IsAside :=
    only_dependencyRef (fun _ => trivial) trivial (fun _ _ => trivial) fun _ _ => trivial
  rw [buildAndRun] at h
  obtain ⟨begun, rest, rfl, hrest⟩ := Action.course_ask_bind.mp h
  rcases Action.course_bind.mp hrest with ⟨readied, worked, dependency, rfl, hready, hwork⟩ |
    ⟨e, -, hready⟩
  · have hreadied := hready.only hasks
    have hbefore (start : Nat) :
        ∀ e ∈ (⟨.clock, begun⟩ :: (readied ++ [⟨.clock, start⟩]) : List Event), e.call.IsAside := by
      intro e he
      simp only [mem_cons, mem_append, not_mem_nil, or_false] at he
      rcases he with rfl | he | rfl
      · trivial
      · exact hreadied e he
      · trivial
    have hquiet {start : Nat} {made : List Event} {r : Except Fault (Advised Workspace)}
        (hcreate : Course (s.workspaces.create request.source dependency).run made r) :
        ∀ e ∈ ⟨.clock, begun⟩ :: (readied ++ [⟨.clock, start⟩]) ++ made, e.call.IsQuiet := by
      have hmade := hcreate.only (s.workspaces.makes_create request.source dependency)
      refine forall_mem_append.mpr ⟨fun e he => (hbefore start e he).isQuiet, fun e he => ?_⟩
      exact (hmade e he).isPlain.isQuiet
    cases worked_of_course hwork with
    | @uncreated start made fault creates =>
      have hshape : (⟨.clock, begun⟩ :: (readied ++ ⟨.clock, start⟩ :: made) : List Event) =
          (⟨.clock, begun⟩ :: (readied ++ [⟨.clock, start⟩])) ++ made ++ [] := by
        simp
      rw [hshape]
      refine ⟨false, ?_, .tried creates (fun e he => (hbefore start e he).not_isMakeDir) (by simp)⟩
      rw [append_nil]
      exact .of_quiet (hquiet creates)
    | @created start t made staged dropped advised r creates stages drops =>
      have hsettled : ∀ e ∈ advised.report "workspace hardening", e.call.IsAside :=
        advised.only_report _ fun _ _ => trivial
      have hdropped := drops.only (aside_drop advised.value)
      have hstages {deadline : Nat} : (s.buildThenRun advised.value request deadline).run.Only
          (¬ ·.IsMakeDir) := only_buildThenRun id (fun _ _ => id) fun _ _ => id
      have hshape : (⟨.clock, begun⟩ :: (readied ++ ⟨.clock, start⟩ :: (made ++
          (advised.report "workspace hardening" ++ ⟨.clock, t⟩ ::
            ⟨.record "workspace_create" ⟨t - start⟩, ()⟩ :: (staged ++ dropped)))) : List Event) =
          (⟨.clock, begun⟩ :: (readied ++ [⟨.clock, start⟩])) ++ made ++
            (advised.report "workspace hardening" ++ ⟨.clock, t⟩ ::
              ([⟨.record "workspace_create" ⟨t - start⟩, ()⟩] ++ staged ++ dropped)) := by
        simp
      rw [hshape]
      refine ⟨true, ?_, .tried creates (fun e he => (hbefore start e he).not_isMakeDir) fun e he =>
        ?_⟩
      · refine Balances.quiet_append (hquiet creates) ?_
        apply Balances.quiet_append fun e he => (hsettled e he).isQuiet
        apply Balances.clock_cons
        refine Balances.append_quiet ?_ fun e he => (hdropped e he).isQuiet
        exact (Balances.record _ _).append (balances_buildThenRun stages)
      · simp only [mem_append, mem_cons, not_mem_nil, or_false] at he
        rcases he with he | rfl | (rfl | he) | he
        · exact (hsettled e he).not_isMakeDir
        · exact id
        · exact id
        · exact stages.only hstages e he
        · exact (hdropped e he).not_isMakeDir
  · have hreadied := hready.only hasks
    refine ⟨false, .clock_cons begun (.of_quiet fun e he => (hreadied e he).isQuiet), .untried ?_⟩
    exact forall_mem_cons.mpr ⟨id, fun e he => (hreadied e he).not_isMakeDir⟩

/-- The name under which a look into the cache is measured. -/
def lookupSamples (s : Service) : List String := if s.cacheEnabled then ["cache_lookup"] else []

theorem balances_lookup {found : Option String} (h : Course (s.lookup source) es found) :
    Balances es s.lookupSamples ∧ ∀ e ∈ es, ¬ e.call.IsMakeDir := by
  rcases course_lookup h with ⟨hdisabled, rfl, -⟩ |
    ⟨henabled, t, t', consulted, advised, hget, -, rfl⟩
  · have hnil : Balances [] [] := .of_quiet (by simp)
    exact ⟨by simpa [lookupSamples, hdisabled] using hnil, by simp⟩
  have hconsulted := hget.only (s.cache.only_get source)
  have haside : ∀ e ∈ ⟨.clock, t⟩ :: (consulted ++ advised.report "cache lookup" ++ [⟨.clock, t'⟩]),
      e.call.IsAside := by
    intro e he
    simp only [mem_append, mem_cons, not_mem_nil, or_false] at he
    rcases he with rfl | (he | he) | rfl
    · trivial
    · exact .of_consults (hconsulted e he)
    · exact advised.only_report _ (fun _ _ => trivial) e he
    · trivial
  have hshape : (⟨.clock, t⟩ :: (consulted ++ advised.report "cache lookup" ++
      [⟨.clock, t'⟩, ⟨.record "cache_lookup" ⟨t' - t⟩, ()⟩]) : List Event) =
      (⟨.clock, t⟩ :: (consulted ++ advised.report "cache lookup" ++ [⟨.clock, t'⟩])) ++
        [⟨.record "cache_lookup" ⟨t' - t⟩, ()⟩] := by
    simp
  rw [hshape]
  constructor
  · rw [lookupSamples, if_pos henabled]
    exact Balances.quiet_append (fun e he => (haside e he).isQuiet) (Balances.record _ _)
  intro e he
  rcases mem_append.mp he with he | he
  · exact (haside e he).not_isMakeDir
  obtain rfl := mem_singleton.mp he
  exact id

theorem Closes.aside {elapsed : Duration} {result : Except Fault String}
    (h : s.Closes request elapsed result es outcome) : ∀ e ∈ es, e.call.IsAside :=
  (course_close.mpr h).only (only_close (fun output => (s.cache.handles_put _ output).mono fun _ =>
    .of_handles)
    (fun event => (s.audit.tells_record event).mono fun _ => .of_tells) (fun _ _ => trivial) elapsed
      result)

/-- The samples of a whole request. -/
theorem balances_generateRequest (h : Course (s.generateRequest request).run es outcome) :
    ∃ created, Balances es (s.lookupSamples ++ creationSamples created ++ ["generate"]) ∧
    s.Creates request.source es created := by
  obtain ⟨start, looked, found, rest, rfl, hlooked, hcase⟩ := course_generateRequest h
  obtain ⟨hlookup, houtside⟩ := balances_lookup hlooked
  rcases hcase with ⟨output, t, -, -, rfl⟩ | ⟨-, work, result, t, closing, hwork, rfl, hclose⟩
  · refine ⟨false, ?_, .untried ?_⟩
    · have hlast := (Balances.record "generate" ⟨t - start⟩).clock_cons t
      simpa [creationSamples] using (hlookup.append hlast).clock_cons start
    intro e he
    simp only [mem_cons, mem_append, not_mem_nil, or_false] at he
    rcases he with rfl | he | rfl | rfl
    · exact id
    · exact houtside e he
    · exact id
    · exact id
  · obtain ⟨created, hbalances, hcreates⟩ := balances_buildAndRun hwork
    have hclosing := hclose.aside
    refine ⟨created, ?_, ?_⟩
    · have hlast := (Balances.record "generate" ⟨t - start⟩).append_quiet fun e he =>
        (hclosing e he).isQuiet
      have hall := (hlookup.append (hbalances.append (hlast.clock_cons t))).clock_cons start
      simpa using hall
    · have hbefore : ∀ e ∈ (⟨.clock, start⟩ :: looked : List Event), ¬ e.call.IsMakeDir := by
        intro e he
        rcases mem_cons.mp he with rfl | he
        · exact id
        · exact houtside e he
      have hafter : ∀ e ∈ (⟨.clock, t⟩ :: ⟨.record "generate" ⟨t - start⟩, ()⟩ :: closing :
          List Event), ¬ e.call.IsMakeDir := by
        intro e he
        simp only [mem_cons] at he
        rcases he with rfl | rfl | he
        · exact id
        · exact id
        · exact (hclosing e he).not_isMakeDir
      simpa using hcreates.surround hbefore hafter

end Service

end Foundry
