import Foundry.Proofs.Service.WithoutCache

/-!
# The books of a run

Three things grow while tasks take turns: the audit trail, the timing samples and the list
of commands that were started. A run of any tasks has a history, in which every event
stands under the task it belongs to. The books are what the history says, and each task's
part of the history is a course of its program. So what is to be known about the books of
many tasks is known from the courses of single ones.

## Implementation notes

The log is assumed to take what is appended to it and to be left alone otherwise. Nothing
is assumed about any other file, nor about when a task stops taking turns: a task that is
abandoned is one whose turns have ended early.
-/

namespace Foundry

open List AuditEvent

variable {c : Call} {past : List Event}

open Program

/-! ## Lists under several names -/

section Theirs

variable {ι β γ : Type} [DecidableEq ι]

/-- What stands under one name in a list kept in common. -/
def theirs (i : ι) (xs : List (ι × β)) : List β :=
  xs.filterMap fun x => if x.1 = i then some x.2 else none

@[simp] theorem theirs_nil (i : ι) : theirs i ([] : List (ι × β)) = [] := rfl

@[simp] theorem theirs_append (i : ι) (xs ys : List (ι × β)) :
    theirs i (xs ++ ys) = theirs i xs ++ theirs i ys :=
  filterMap_append

@[simp] theorem theirs_singleton_self (i : ι) (b : β) : theirs i [(i, b)] = [b] := by
  simp [theirs]

theorem theirs_singleton_other {i j : ι} (h : j ≠ i) (b : β) : theirs i [(j, b)] = [] := by
  simp [theirs, h]

theorem mem_theirs {i : ι} {b : β} {xs : List (ι × β)} : b ∈ theirs i xs ↔ (i, b) ∈ xs := by
  simp only [theirs, mem_filterMap, Option.ite_none_right_eq_some, Option.some.injEq]
  constructor
  · rintro ⟨⟨j, b'⟩, hmem, rfl, rfl⟩
    exact hmem
  intro hmem
  exact ⟨(i, b), hmem, rfl, rfl⟩

/-- Choosing from the whole list is choosing from each part. -/
theorem theirs_filterMap (i : ι) (f : β → Option γ) (xs : List (ι × β)) :
    theirs i (xs.filterMap fun x => (f x.2).map (x.1, ·)) = (theirs i xs).filterMap f := by
  induction xs with
  | nil => rfl
  | cons x xs ih =>
    obtain ⟨j, b⟩ := x
    simp only [theirs] at ih ⊢
    by_cases hj : j = i
    · cases hf : f b <;> simp [hj, hf, ih]
    · cases hf : f b <;> simp [hj, hf, ih]

omit [DecidableEq ι] in
theorem filterMap_map_snd (f : β → Option γ) (xs : List (ι × β)) :
    (xs.filterMap fun x => (f x.2).map (x.1, ·)).map Prod.snd = (xs.map Prod.snd).filterMap f := by
  induction xs with
  | nil => rfl
  | cons x xs ih => cases hf : f x.2 <;> simp [hf, ih]

end Theirs

/-! ## Pasts as courses -/

namespace Activity

variable {α : Type} {p : Program α}

/-- Whatever the task goes on to do, with its past it makes a course of the program. -/
def IsOf (p : Program α) (a : Activity α) : Prop :=
  ∀ es value, Course a.rest es value → Course p (a.past ++ es) value

theorem isOf_self (p : Program α) : (⟨[], p, false⟩ : Activity α).IsOf p := fun _ _ h => h

/-- A task that has ended has gone through a course. -/
theorem IsOf.course {a : Activity α} {value : α} (h : a.IsOf p) (hvalue : a.result? = some value) :
    Course p a.past value := by
  simpa using h [] value (rest_of_result? hvalue ▸ .done value)

/-- A task that has not ended has begun a course. -/
theorem IsOf.exists_course {a : Activity α} (h : a.IsOf p) :
    ∃ es value, Course p (a.past ++ es) value :=
  ⟨_, _, h _ _ (course_follow (fun _ => Service.freshReply) [] a.rest)⟩

/-- The reply to the next call leads on. -/
theorem IsOf.reply {next : c.Reply → Program α} {w : Bool}
    (h : (⟨past, .call c next, w⟩ : Activity α).IsOf p) (r : c.Reply) :
    (⟨past ++ [⟨c, r⟩], next r, false⟩ : Activity α).IsOf p := by
  intro es value hes
  have hcourse := h (⟨c, r⟩ :: es) value (.call r hes)
  simpa using hcourse

/-- A task that does not wait has no command under way. -/
theorem command?_idle (past : List Event) (rest : Program α) :
    (⟨past, rest, false⟩ : Activity α).command? = none := by
  unfold command?
  split
  · rename_i heq
    cases (Activity.mk.inj heq).2.2
  · rfl

end Activity

/-- The commands in a list of events. -/
def commandsOf (es : List Event) : List Command :=
  es.filterMap fun
    | ⟨.run command _, _⟩ => some command
    | _ => none

@[simp] theorem commandsOf_append (es es' : List Event) :
    commandsOf (es ++ es') = commandsOf es ++ commandsOf es' :=
  filterMap_append

theorem commandsOf_of_not_waits (h : c.waits = false) (r : c.Reply) : commandsOf [⟨c, r⟩] = [] := by
  cases c with
  | run => cases h
  | _ => rfl

/-- A task that gets the reply it has waited for has no command under way any more. -/
theorem Activity.commandsOf_waited {α : Type} {next : c.Reply → Program α} (r : c.Reply) :
    commandsOf [⟨c, r⟩] = (⟨past, .call c next, true⟩ : Activity α).command?.toList := by
  cases c <;> rfl

/-! ## What a machine keeps -/

/-- The samples after an event. -/
def Metrics.after (m : Metrics) (e : Event) : Metrics :=
  match e.call with
  | .record operation elapsed => m.record operation elapsed
  | _ => m

theorem Metrics.after_of_waits (m : Metrics) (h : c.waits = true) (r : c.Reply) :
    m.after ⟨c, r⟩ = m := by
  cases c with
  | record => cases h
  | _ => rfl

namespace Machine

variable {m m' : Machine} {c : Call} {r : c.Reply}

/-- An answer keeps a sample, if it is about one, and starts no command. -/
theorem kept_of_answer? (h : m.answer? c = some (m', r)) :
    m'.metrics = m.metrics.after ⟨c, r⟩ ∧ m'.calls = m.calls := by
  cases c with
  | lock | run | awaitJob | awaitInterrupt => cases h
  | openLock path =>
    simp only [answer?] at h
    split at h <;> cases h <;> exact ⟨rfl, rfl⟩
  | markLock handle bytes =>
    simp only [answer?] at h
    split at h <;> cases h <;> exact ⟨rfl, rfl⟩
  | writeFile | appendFile | makeDir | removeFile | rename | restrict =>
    simp only [answer?, changing] at h
    split at h <;> cases h <;> exact ⟨rfl, rfl⟩
  | _ =>
    cases h
    exact ⟨rfl, rfl⟩

theorem noting_metrics (m : Machine) (c : Call) : (m.noting c).metrics = m.metrics := by
  cases c <;> rfl

/-- The commands that were started. -/
def commands (m : Machine) : List Command := m.calls.map (·.command)

theorem commands_noting {α : Type} (m : Machine) (c : Call) (past : List Event)
    (next : c.Reply → Program α) :
    (m.noting c).commands = m.commands ++
    (⟨past, .call c next, true⟩ : Activity α).command?.toList := by
  cases c with
  | run command timeout => simp [noting, addCall, commands, Activity.command?]
  | _ => simp [noting, Activity.command?]

end Machine

/-! ## The log -/

namespace AuditLog

variable (log : AuditLog)

/-- What the log holds; nothing if there is none. -/
def text (m : Machine) : ByteArray :=
  (m.files.read m.cwd log.path).toOption.getD .empty

/-- The bytes that an event adds to the log. -/
def written? : Event → Option ByteArray
  | ⟨.appendFile path bytes, .ok _⟩ => if path = log.path then some bytes else none
  | _ => none

def written (log : AuditLog) (es : List Event) : List ByteArray := es.filterMap log.written?

@[simp] theorem written_append (es es' : List Event) :
    log.written (es ++ es') = log.written es ++ log.written es' :=
  filterMap_append

theorem written_eq_nil {log : AuditLog} {es : List Event} (h : ∀ e ∈ es, ¬ e.call.IsAppend) :
    log.written es = [] := by
  apply filterMap_eq_nil_iff.mpr
  rintro ⟨c, r⟩ he
  cases c with
  | appendFile path bytes => exact absurd trivial (h _ he)
  | _ => rfl

/-- The log can be written: its directory can be made, and lines can be added. -/
def Accepts : Event → Prop
  | ⟨.appendFile path _, r⟩ => path = log.path → r = .ok ()
  | ⟨.makeDirs dir, r⟩ => Path.parent? log.path = some dir → r = .ok ()
  | _ => True

/-- Nothing that is kept has changed. -/
structure Spares (log : AuditLog) (m m' : Machine) : Prop where
  text_eq : log.text m' = log.text m
  metrics_eq : m'.metrics = m.metrics
  calls_eq : m'.calls = m.calls

/-- A log that takes what is appended to it, and that is left alone otherwise: by other calls, by
commands, and by what happens beside the tasks. -/
def rules {ι : Type} {α : ι → Type} : Rules ι α where
  prompt _ m c r m' := log.Accepts ⟨c, r⟩ ∧
    log.text m' = (log.written? ⟨c, r⟩).elim (log.text m) (log.text m ++ ·)
  late _ m _ _ m' := log.Spares m m'
  beside s m' := log.Spares s.machine m'

end AuditLog

namespace Scene

variable {ι : Type} {α : ι → Type}

/-- Tasks that are about to begin. -/
def start (m : Machine) (p : (i : ι) → Program (α i)) : Scene ι α := ⟨m, fun i => { rest := p i }⟩

variable [DecidableEq ι]

/-- What the tasks have done in common, each event under its task, and which commands they have
started. -/
structure History (log : AuditLog) (m : Machine) (p : (i : ι) → Program (α i)) (s : Scene ι α) where
  events : List (ι × Event)
  started : List (ι × Command)
  past_eq : ∀ i, (s.tasks i).past = theirs i events
  isOf : ∀ i, (s.tasks i).IsOf (p i)
  accepts : ∀ x ∈ events, log.Accepts x.2
  text_eq : log.text s.machine = (log.written (events.map Prod.snd)).foldl (· ++ ·) (log.text m)
  metrics_eq : s.metrics = (events.map Prod.snd).foldl Metrics.after m.metrics
  commands_eq : s.machine.commands = m.commands ++ started.map Prod.snd
  started_eq : ∀ i, theirs i started = commandsOf (s.tasks i).past ++ (s.tasks i).command?.toList

namespace History

variable {log : AuditLog} {m m' : Machine} {p : (i : ι) → Program (α i)} {s : Scene ι α}

def ofStart (log : AuditLog) (m : Machine) (p : (i : ι) → Program (α i)) :
    History log m p (start m p) where
  events := []
  started := []
  past_eq _ := rfl
  isOf i := Activity.isOf_self (p i)
  accepts := by simp
  text_eq := rfl
  metrics_eq := rfl
  commands_eq := by simp [start]
  started_eq i := by
    rw [start, Activity.command?_idle]
    rfl

/-- A reply, whether it came at once or late, is the next event. -/
def reply (h : History log m p s) {i : ι} {past : List Event} {c : Call}
    {next : c.Reply → Program (α i)} {w : Bool} (at_ : s.tasks i = ⟨past, .call c next, w⟩)
    (r : c.Reply) (haccepts : log.Accepts ⟨c, r⟩)
    (htext : log.text m' = (log.written? ⟨c, r⟩).elim (log.text s.machine)
    (log.text s.machine ++ ·)) (hmetrics : m'.metrics = s.metrics.after ⟨c, r⟩)
    (hcalls : m'.calls = s.calls)
    (hcommand : commandsOf [⟨c, r⟩] = (⟨past, .call c next, w⟩ : Activity (α i)).command?.toList) :
    History log m p (s.setTask m' i ⟨past ++ [⟨c, r⟩], next r, false⟩) where
  events := h.events ++ [(i, ⟨c, r⟩)]
  started := h.started
  past_eq j := by
    by_cases hj : j = i
    · subst hj
      have hpast := h.past_eq j
      rw [at_] at hpast
      replace hpast : past = theirs j h.events := hpast
      simp [hpast]
    · rw [setTask_other _ _ _ hj, theirs_append, theirs_singleton_other (Ne.symm hj), append_nil]
      exact h.past_eq j
  isOf j := by
    by_cases hj : j = i
    · subst hj
      have hof := h.isOf j
      rw [at_] at hof
      rw [setTask_self]
      exact hof.reply r
    · rw [setTask_other _ _ _ hj]
      exact h.isOf j
  accepts := by
    intro x hx
    rcases mem_append.mp hx with hx | hx
    · exact h.accepts x hx
    obtain rfl := mem_singleton.mp hx
    exact haccepts
  text_eq := by
    rw [setTask_machine, htext, h.text_eq, map_append, AuditLog.written_append, foldl_append]
    cases hw : log.written? ⟨c, r⟩ <;> simp [AuditLog.written, hw]
  metrics_eq := by
    rw [setTask_machine, hmetrics, h.metrics_eq]
    simp
  commands_eq := by
    rw [setTask_machine, Machine.commands, hcalls]
    exact h.commands_eq
  started_eq j := by
    by_cases hj : j = i
    · subst hj
      have hstarted := h.started_eq j
      rw [at_, ← hcommand, ← commandsOf_append] at hstarted
      simp only [setTask_self, Activity.command?_idle, Option.toList_none, append_nil]
      exact hstarted
    · rw [setTask_other _ _ _ hj]
      exact h.started_eq j

/-- A task that starts to wait has perhaps started a command. -/
def wait (h : History log m p s) {i : ι} {c : Call} {next : c.Reply → Program (α i)}
    (at_ : s.tasks i = ⟨past, .call c next, false⟩) :
    History log m p (s.setTask (s.machine.noting c) i ⟨past, .call c next, true⟩) where
  events := h.events
  started := h.started ++
    (⟨past, .call c next, true⟩ : Activity (α i)).command?.toList.map fun command => (i, command)
  past_eq j := by
    by_cases hj : j = i
    · subst hj
      have hpast := h.past_eq j
      rw [at_] at hpast
      simpa using hpast
    · rw [setTask_other _ _ _ hj]
      exact h.past_eq j
  isOf j := by
    by_cases hj : j = i
    · subst hj
      have hof := h.isOf j
      rw [at_] at hof
      rw [setTask_self]
      exact hof
    · rw [setTask_other _ _ _ hj]
      exact h.isOf j
  accepts := h.accepts
  text_eq := by
    rw [setTask_machine, ← h.text_eq, AuditLog.text, AuditLog.text, Machine.noting_kernel]
  metrics_eq := by rw [setTask_machine, Machine.noting_metrics, h.metrics_eq]
  commands_eq := by
    rw [setTask_machine, Machine.commands_noting s.machine c past next, h.commands_eq]
    simp
  started_eq j := by
    by_cases hj : j = i
    · subst hj
      have hstarted := h.started_eq j
      rw [at_, Activity.command?_idle, Option.toList_none, append_nil] at hstarted
      rw [theirs_append, hstarted, setTask_self]
      cases (⟨past, .call c next, true⟩ : Activity (α j)).command? <;> simp
    · rw [setTask_other _ _ _ hj, theirs_append, h.started_eq j]
      cases (⟨past, .call c next, true⟩ : Activity (α i)).command? with
      | none => simp
      | some command => simp [theirs_singleton_other (Ne.symm hj)]

/-- What happens beside the tasks is not kept. -/
def beside (h : History log m p s) (hspares : log.Spares s.machine m') :
    History log m p ⟨m', s.tasks⟩ where
  events := h.events
  started := h.started
  past_eq := h.past_eq
  isOf := h.isOf
  accepts := h.accepts
  text_eq := hspares.text_eq.trans h.text_eq
  metrics_eq := hspares.metrics_eq.trans h.metrics_eq
  commands_eq := by
    rw [Machine.commands, hspares.calls_eq]
    exact h.commands_eq
  started_eq := h.started_eq

end History

variable {log : AuditLog} {m : Machine} {p : (i : ι) → Program (α i)} {s s' : Scene ι α}

theorem Step.history (h : Step log.rules s s') (hs : Nonempty (History log m p s)) :
    Nonempty (History log m p s') := by
  obtain ⟨hs⟩ := hs
  cases h with
  | @call i past c next r m' at_ answer allowed =>
    have hwaits : c.waits = false := by
      have hne := (Machine.answer?_eq_none_iff s.machine c).not.mp (by simp [answer])
      simpa using hne
    have hcommand : (⟨past, .call c next, false⟩ : Activity (α i)).command? = none := by
      cases c <;> rfl
    obtain ⟨hmetrics, hcalls⟩ := Machine.kept_of_answer? answer
    refine ⟨hs.reply at_ r allowed.1 allowed.2 hmetrics hcalls ?_⟩
    rw [hcommand, commandsOf_of_not_waits hwaits]
    rfl
  | @wait i past c next at_ waits => exact ⟨hs.wait at_⟩
  | @reply i past c next r m' at_ waits allowed =>
    have hplain : log.Accepts ⟨c, r⟩ ∧ log.written? ⟨c, r⟩ = none := by
      cases c with
      | lock | run | awaitJob | awaitInterrupt => exact ⟨trivial, rfl⟩
      | _ => cases waits
    refine ⟨hs.reply at_ r hplain.1 ?_ ?_ allowed.calls_eq (Activity.commandsOf_waited r)⟩
    · rw [hplain.2]
      exact allowed.text_eq
    rw [Metrics.after_of_waits _ waits]
    exact allowed.metrics_eq
  | beside allowed => exact ⟨hs.beside allowed⟩

/-- Every run has a history. -/
theorem Runs.history (h : Runs log.rules (start m p) s) : Nonempty (History log m p s) := by
  induction h with
  | refl => exact ⟨.ofStart log m p⟩
  | tail _ hlast ih => exact hlast.history ih

/-- The lines of the log, each under the task that wrote it. -/
def History.lines (h : History log m p s) : List (ι × ByteArray) :=
  h.events.filterMap fun x => (log.written? x.2).map (x.1, ·)

theorem History.theirs_lines (h : History log m p s) (i : ι) :
    theirs i h.lines = log.written (s.tasks i).past := by
  rw [lines, theirs_filterMap, h.past_eq]
  rfl

theorem History.text_eq_lines (h : History log m p s) :
    log.text s.machine = (h.lines.map Prod.snd).foldl (· ++ ·) (log.text m) := by
  rw [h.text_eq, lines, filterMap_map_snd]
  rfl

theorem History.accepts_past (h : History log m p s) (i : ι) :
    ∀ e ∈ (s.tasks i).past, log.Accepts e := by
  intro e he
  rw [h.past_eq, mem_theirs] at he
  exact h.accepts _ he

end Scene

/-! ## Lines -/

/-- The line of an event at a time. -/
def AuditEvent.bytes (at_ : Stamp) (e : AuditEvent) : ByteArray :=
  match e.line? at_ with
  | some line => (line.compact ++ "\n").toUTF8
  | none => .empty

/-- The event can be written down. -/
def AuditEvent.IsText (e : AuditEvent) : Prop := e.fields? ≠ none

theorem AuditEvent.isText_templateBuilt (root : String) : (templateBuilt root.toUTF8).IsText := by
  rw [IsText, fields?, pathField, fromUTF8?_toUTF8]
  simp

namespace AuditLog

variable {log : AuditLog} {event : AuditEvent} {es : List Event}

/-- An append is tried once, after its directory has been made. -/
theorem course_append {bytes : ByteArray} {r : Except Cause Unit}
    (h : Course (log.append bytes) es r) :
    (log.written es = [] ∧ ((∀ e ∈ es, log.Accepts e) → False)) ∨ log.written es = [bytes] ∧
    r = .ok () := by
  have hlast {es : List Event} (h : Course (ask (.appendFile log.path bytes)) es r) :
      (log.written es = [] ∧ ((∀ e ∈ es, log.Accepts e) → False)) ∨
        log.written es = [bytes] ∧ r = .ok () := by
    obtain rfl := course_ask.mp h
    cases r with
    | error e =>
      refine .inl ⟨rfl, fun haccepts => ?_⟩
      cases haccepts _ (mem_singleton_self _) rfl
    | ok _ => exact .inr ⟨by simp [written, written?], rfl⟩
  unfold append at h
  split at h
  · rename_i dir hdir
    obtain ⟨made, rest, rfl, hrest⟩ := course_ask_bind.mp h
    cases made with
    | error e =>
      obtain ⟨rfl, rfl⟩ := course_done.mp hrest
      refine .inl ⟨rfl, fun haccepts => ?_⟩
      cases haccepts _ (mem_singleton_self _) hdir
    | ok _ =>
      rcases hlast hrest with ⟨hwritten, hfails⟩ | ⟨hwritten, hr⟩
      · exact .inl ⟨hwritten, fun haccepts => hfails fun e he => haccepts e (mem_cons_of_mem _ he)⟩
      · exact .inr ⟨hwritten, hr⟩
  · exact hlast h

/-- Recording an event writes its line or nothing; it writes the line if the log is in use and can
be written. -/
theorem written_record (h : Course (log.record event) es ()) :
    (∃ now, log.written es = [event.bytes now]) ∨ log.written es = [] ∧
    (log.enabled = true → event.IsText → (∀ e ∈ es, log.Accepts e) → False) := by
  unfold record at h
  split at h
  · obtain ⟨now, rest, rfl, hrest⟩ := course_ask_bind.mp h
    cases hline : event.line? now with
    | none =>
      simp only [hline] at hrest
      obtain rfl := course_ask.mp hrest
      refine .inr ⟨rfl, fun _ htext _ => htext ?_⟩
      simpa [line?] using hline
    | some line =>
      simp only [hline] at hrest
      obtain ⟨appended, told, r, rfl, happend, htold⟩ := course_bind.mp hrest
      have htold' : log.written told = [] := by
        cases r with
        | ok _ =>
          obtain ⟨rfl, -⟩ := course_done.mp htold
          rfl
        | error e =>
          obtain rfl := course_ask.mp htold
          rfl
      have hsplit : log.written (⟨.today, now⟩ :: (appended ++ told)) = log.written appended := by
        change log.written (appended ++ told) = _
        rw [written_append, htold', append_nil]
      rw [hsplit]
      rcases course_append happend with ⟨hwritten, hfails⟩ | ⟨hwritten, -⟩
      · refine .inr ⟨hwritten, fun _ _ haccepts => hfails fun e he => haccepts e ?_⟩
        exact mem_cons_of_mem _ (mem_append_left _ he)
      refine .inl ⟨now, ?_⟩
      rw [hwritten, bytes, hline]
  · rename_i hdisabled
    obtain ⟨rfl, -⟩ := course_done.mp h
    exact .inr ⟨rfl, fun henabled => absurd henabled hdisabled⟩

/-- What is reported is written once, if it can be. -/
theorem Reports.written_eq {event : Option AuditEvent} (h : log.Reports es event)
    (henabled : log.enabled = true) (htext : ∀ e, event = some e → e.IsText)
    (haccepts : ∀ e ∈ es, log.Accepts e) :
    ∃ now, log.written es = event.toList.map (·.bytes now) := by
  cases event with
  | none => exact ⟨default, written_eq_nil h⟩
  | some event =>
    obtain ⟨before, told, rfl, hbefore, htold⟩ := h
    rcases written_record htold with ⟨now, hwritten⟩ | ⟨-, hfails⟩
    · exact ⟨now, by simp [written_eq_nil hbefore, hwritten]⟩
    · exact (hfails henabled (htext event rfl) fun e he => haccepts e (mem_append_right _ he)).elim

/-- Part of what is reported is written, or nothing yet. -/
theorem Reports.written_cases {event : Option AuditEvent} {more : List Event}
    (h : log.Reports (es ++ more) event) :
    log.written es = [] ∨ ∃ e now, event = some e ∧ log.written es = [e.bytes now] := by
  cases event with
  | none => exact .inl (written_eq_nil fun e he => h e (mem_append_left _ he))
  | some event =>
    obtain ⟨before, told, heq, hbefore, htold⟩ := h
    have hall : log.written es ++ log.written more = log.written told := by
      rw [← written_append, heq, written_append, written_eq_nil hbefore, nil_append]
    rcases written_record htold with ⟨now, hwritten⟩ | ⟨hwritten, -⟩
    · rw [hwritten, append_eq_singleton_iff] at hall
      rcases hall with ⟨hes, -⟩ | ⟨hes, -⟩
      · exact .inl hes
      · exact .inr ⟨event, now, rfl, hes⟩
    · rw [hwritten, append_eq_nil_iff] at hall
      exact .inl hall.1

end AuditLog

/-! ## Lines of requests and builds -/

namespace Service

variable {outcome : Except Fault Generated}
variable {s : Service} {request : Request} {es : List Event}

/-- What is recorded of a request, given how it has ended. -/
def eventOf? (s : Service) (request : Request) (elapsed : Duration) :
    Except Fault Generated → Option AuditEvent
  | .ok ⟨_, true⟩ => none
  | .ok ⟨_, false⟩ => some (.generationCompleted (s.cache.hash request.source) elapsed.toSeconds)
  | .error fault =>
    some (.generationFailed (s.cache.hash request.source) fault.message elapsed.toSeconds)

theorem isText_entry? {elapsed : Duration} (e : AuditEvent)
    (h : s.eventOf? request elapsed outcome = some e) : e.IsText := by
  unfold eventOf? at h
  split at h
  · cases h
  all_goals
    cases h
    simp [IsText, fields?]

/-- A request reports its end, unless the cache has answered it; then it has run nothing. -/
theorem reports_generateRequest (h : Course (s.generateRequest request).run es outcome) :
    ∃ elapsed, s.audit.Reports es (s.eventOf? request elapsed outcome) ∧
    (s.eventOf? request elapsed outcome = none → runsOf es = []) := by
  obtain ⟨start, looked, found, rest, rfl, hlooked, ⟨output, t, rfl, rfl, rfl⟩ |
    ⟨rfl, work, result, t, closing, hwork, rfl, hclose⟩⟩ := course_generateRequest h
  · obtain ⟨-, hruns, hreports, -⟩ := hits_of_cached h
    exact ⟨⟨0⟩, hreports, fun _ => hruns⟩
  have hentry : s.eventOf? request ⟨t - start⟩ outcome =
      some (s.auditEvent request ⟨t - start⟩ result) := by
    rw [hclose.outcome_eq]
    cases result <;> rfl
  refine ⟨⟨t - start⟩, ?_, fun hnone => by simp [hentry] at hnone⟩
  rw [hentry]
  have hbefore : ∀ e ∈ (⟨.clock, start⟩ :: looked ++ work ++
      [⟨.clock, t⟩, ⟨.record "generate" ⟨t - start⟩, ()⟩] : List Event), ¬ e.call.IsAppend := by
    intro e he
    simp only [mem_append, mem_cons, not_mem_nil, or_false] at he
    rcases he with ((rfl | he) | he) | rfl | rfl
    · exact id
    · exact (hlooked.only (s.looksUp_lookup _) e he).not_isAppend
    · exact (hwork.only (s.works_buildAndRun request) e he).not_isAppend
    · exact id
    · exact id
  simpa using hclose.reports.append hbefore

end Service

end Foundry
