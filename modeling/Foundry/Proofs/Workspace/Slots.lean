import Foundry.Proofs.Service.Pipeline
import Foundry.Proofs.Twins

/-!
# Slots

A text whose placeholders have been filled but for those of one variable is a list of
segments with slots between them. The segments come from the text and from the other
values, and nothing that is put into a slot or a segment is looked at again.

The files of a workspace are such texts, with slots for the script. So workspaces that are
made for two scripts under the same replies are made by the same calls, but for what is in
the slots of the files; and what comes out of it, and with that every command that is run
in the workspace, is the same.
-/

namespace Foundry

open Action Outline

variable (name : String) (value : List Char → Option (List Char))

/-! ## Segments -/

/-- A piece of a text in which one variable is open. -/
inductive Segment where
  | text (cs : List Char)
  | slot
deriving DecidableEq, Repr

namespace Segment

def fill (value : List Char) : Segment → List Char
  | .text cs => cs
  | .slot => value

/-- The text with a value in every slot, as it stands. -/
def complete (segments : List Segment) (value : String) : String :=
  String.ofList (segments.flatMap (fill value.toList))

theorem complete_eq_of_no_slot {segments : List Segment} (h : slot ∉ segments)
    (value other : String) : complete segments value = complete segments other := by
  have hfill : segments.map (fill value.toList) = segments.map (fill other.toList) := by
    apply List.map_congr_left
    intro segment hmem
    cases segment with
    | text cs => rfl
    | slot => exact absurd hmem h
  rw [complete, complete, List.flatMap_def, List.flatMap_def, hfill]

end Segment

namespace Outline

/-- A placeholder of the variable, with blanks around its name or without. -/
def IsFor (body : List Char) : Prop := Text.trimChars body = name.toList

instance (name : String) (body : List Char) : Decidable (IsFor name body) :=
  inferInstanceAs (Decidable (_ = _))

/-- What comes after a literal: a slot for a placeholder of the variable, and what any other
placeholder stands for. -/
def segment (body : List Char) : Segment :=
  if IsFor name body then .slot else .text ((value body).getD (raw body))

/-- A text with the placeholders of one variable open. -/
def segments (o : Outline) : List Segment :=
  o.holes.flatMap (fun h => [.text h.1, segment name value h.2]) ++ [.text o.tail]

/-- With its placeholders put back an outline is the text that was cut. -/
theorem fill_none (cs : List Char) : (ofChars cs).fill (fun _ => none) = cs := by
  fun_induction ofChars cs with
  | case1 cs => simp [fill]
  | case2 cs => simp [fill]
  | case3 cs literal rest opened body rest' closed o ih =>
    rw [Text.breakPair_eq_append opened, Text.breakPair_eq_append closed]
    have hrest : o.holes.flatMap (fun h => h.1 ++ raw h.2) ++ o.tail = rest' := ih
    simp [fill, raw, ← hrest]

theorem fill_eq_segments {name value : String} {values values' : List Char → Option (List Char)}
    (h : ∀ body, values' body = if IsFor name body then some value.toList else values body)
    (o : Outline) :
    String.ofList (o.fill values') = Segment.complete (o.segments name values) value := by
  have hhole (body : List Char) :
      (values' body).getD (raw body) = (segment name values body).fill value.toList := by
    rw [h, segment]
    split <;> rfl
  rw [fill, segments, Segment.complete, List.flatMap_append, List.flatMap_assoc]
  simp [hhole, Segment.fill]

theorem slot_notMem_segments {name : String} {values : List Char → Option (List Char)} {o : Outline}
    (h : ∀ hole ∈ o.holes, ¬ IsFor name hole.2) : Segment.slot ∉ o.segments name values := by
  intro hmem
  simp only [segments, List.mem_append, List.mem_flatMap, List.mem_cons, List.not_mem_nil, or_false,
    reduceCtorEq, false_or] at hmem
  obtain ⟨hole, hhole, hslot⟩ := hmem
  rw [segment, if_neg (h hole hhole)] at hslot
  cases hslot

end Outline

namespace Bindings

theorem valueOf_set (b : Bindings) (name value : String) (body : List Char) :
    (b.set name value).valueOf body =
    if IsFor name body then some value.toList else b.valueOf body := by
  have hname : (name == String.ofList (Text.trimChars body)) = decide (IsFor name body) := by
    rw [beq_eq_decide, decide_eq_decide, ← String.toList_inj, String.toList_ofList]
    exact eq_comm
  by_cases hfor : IsFor name body
  · simp [valueOf, get?, set, hname, hfor]
  · simp [valueOf, get?, set, hname, hfor]

/-- The value that is assigned last goes into the slots of its name. -/
theorem render_set (b : Bindings) (name value text : String) : (b.set name value).render text =
    Segment.complete ((ofChars text.toList).segments name b.valueOf) value :=
  fill_eq_segments (b.valueOf_set name value) _

end Bindings

/-! ## Workspaces for two scripts -/

open Program

namespace Workspaces

variable {b : Workspaces} {dependency : DependencyRef} {id script other : String}

/-- What the files of a workspace may refer to besides the script. -/
def settings (b : Workspaces) (w : Workspace) (dependency : DependencyRef) : Bindings :=
  ((b.bindings w.package w.root).set "dependency" (b.dependencyText dependency)).set
    "sentinel" b.toolchain.sentinel

/-- A file of a workspace with slots for the script. -/
def segments (b : Workspaces) (w : Workspace) (dependency : DependencyRef) (template : String) :
    List Segment :=
  (Outline.ofChars template.toList).segments "source" (b.settings w dependency).valueOf

theorem render_fileBindings (b : Workspaces) (w : Workspace) (source : String)
    (dependency : DependencyRef) (template : String) :
    (b.fileBindings w.package w.root source dependency).render template =
      Segment.complete (b.segments w dependency template) source :=
  Bindings.render_set _ _ _ _

/-- Both files of the workspace have been written, each from its segments with the script in every
slot. -/
def IsFurnished (b : Workspaces) (dependency : DependencyRef) (script : String) (w : Workspace)
    (es : List Event) : Prop :=
  ∀ file ∈ [(w.manifestFile, b.toolchain.manifest), (w.sourceFile, b.toolchain.source)],
    (⟨.writeFile file.1 (Segment.complete (b.segments w dependency file.2) script).toUTF8, .ok ()⟩ :
    Event) ∈ es

/-- The template has no placeholder for the script. -/
def LacksScript (template : String) : Prop :=
  ∀ hole ∈ (Outline.ofChars template.toList).holes, ¬ Outline.IsFor "source" hole.2

instance (template : String) : Decidable (LacksScript template) :=
  inferInstanceAs (Decidable (∀ hole ∈ _, _))

/-- The call for one script and the one for another: the same, or two texts from the same segments
are written to the same file of the workspace. -/
inductive Counterpart (b : Workspaces) (dependency : DependencyRef) (id script other : String) :
    Call → Call → Prop
  | same {c : Call} (h : ∀ path bytes, c ≠ .writeFile path bytes) :
      Counterpart b dependency id script other c c
  | manifest : Counterpart b dependency id script other
      (.writeFile (b.describe id).manifestFile
        (Segment.complete (b.segments (b.describe id) dependency b.toolchain.manifest)
        script).toUTF8)
      (.writeFile (b.describe id).manifestFile
        (Segment.complete (b.segments (b.describe id) dependency b.toolchain.manifest)
        other).toUTF8)
  | source : Counterpart b dependency id script other
      (.writeFile (b.describe id).sourceFile
        (Segment.complete (b.segments (b.describe id) dependency b.toolchain.source) script).toUTF8)
      (.writeFile (b.describe id).sourceFile
        (Segment.complete (b.segments (b.describe id) dependency b.toolchain.source) other).toUTF8)

theorem Counterpart.reply_eq {c c' : Call} (h : b.Counterpart dependency id script other c c') :
    c.Reply = c'.Reply := by
  cases h <;> rfl

/-- Nothing is written but the two files. -/
def IsNoWrite (c : Call) : Prop := ∀ path bytes, c ≠ .writeFile path bytes

/-- Who writes no files does the same for every script. -/
theorem twins_of_noWrite {α : Type} {p : Program α} (h : p.Only IsNoWrite) :
    Twins (SameReply (b.Counterpart dependency id script other)) (· = ·) p p :=
  twins_self (h.mono fun _ hc => steady_of_like (.same hc))

theorem twins_writeWithDirs {path text text' : String}
    (h : b.Counterpart dependency id script other (.writeFile path text.toUTF8)
    (.writeFile path text'.toUTF8)) :
    Twins (SameReply (b.Counterpart dependency id script other)) (· = ·)
    (writeWithDirs path text).run (writeWithDirs path text').run := by
  apply twins_bind
  · exact twins_of_noWrite (only_makeParent (fun _ _ _ => Call.noConfusion) path)
  intro _
  exact twins_orFail (twins_ask (asksAlike_of_like h rfl) fun _ _ hr => eq_of_heq hr.2)

theorem twins_writeFiles : Twins (SameReply (b.Counterpart dependency id script other)) (· = ·)
    (b.writeFiles (b.describe id) script dependency).run
    (b.writeFiles (b.describe id) other dependency).run := by
  simp only [writeFiles, render_fileBindings]
  apply twins_bind
  · exact twins_writeWithDirs .manifest
  intro _
  exact twins_writeWithDirs .source

theorem twins_furnish : Twins (SameReply (b.Counterpart dependency id script other)) (· = ·)
    (b.furnish script dependency (b.describe id)).run
    (b.furnish other dependency (b.describe id)).run := by
  apply twins_bind
  · exact twins_of_noWrite (only_orFail (only_ask (c := .makeDir _) fun _ _ => Call.noConfusion))
  intro _
  apply twins_lift_bind (twins_of_noWrite (only_ask (c := .owe _) fun _ _ => Call.noConfusion))
  rintro _ _ rfl
  apply twins_lift_bind (twins_of_noWrite (only_ask (c := .restrict _) fun _ _ => Call.noConfusion))
  rintro restricted _ rfl
  apply twins_lift_bind twins_writeFiles
  rintro (fault | _) _ rfl
  · have hdrop : (b.describe id).drop.Only IsNoWrite :=
      only_drop _ (fun _ _ => Call.noConfusion) (fun _ _ => Call.noConfusion)
        (fun _ _ _ => Call.noConfusion) fun _ _ _ _ => Call.noConfusion
    apply twins_lift_bind (twins_of_noWrite hdrop)
    rintro _ _ rfl
    exact .done rfl
  · exact .done rfl

theorem written_of_writeWithDirs {path text : String} {es : List Event}
    (h : Course (writeWithDirs path text).run es (.ok ())) :
    (⟨.writeFile path text.toUTF8, .ok ()⟩ : Event) ∈ es := by
  rw [writeWithDirs, Action.course_bind] at h
  obtain ⟨_, _, _, rfl, -, h⟩ | ⟨_, herror, -⟩ := h
  · obtain ⟨reply, h, hreply⟩ := course_orFail.mp h
    obtain rfl := course_ask.mp h
    cases reply with
    | ok _ => exact List.mem_append_right _ (List.mem_singleton_self _)
    | error _ => cases hreply
  · cases herror

/-- What comes out of a creation is the workspace that was to be made, with both of its files. -/
theorem furnished_of_course {es : List Event} {w : Workspace} {advised : Advised Workspace}
    (h : Course (b.furnish script dependency w).run es (.ok advised)) :
    advised.value = w ∧ b.IsFurnished dependency script w es := by
  rw [furnish, Action.course_bind] at h
  obtain ⟨_, _, _, rfl, -, h⟩ | ⟨_, herror, -⟩ := h
  · obtain ⟨_, _, rfl, howed⟩ := Action.course_ask_bind.mp h
    obtain ⟨_, _, rfl, hrestricted⟩ := Action.course_ask_bind.mp howed
    obtain ⟨_, _, written, rfl, hwritten, hlast⟩ := course_attempt_bind.mp hrestricted
    cases written with
    | ok _ =>
      obtain ⟨rfl, heq⟩ := course_pure.mp hlast
      cases heq
      simp only [writeFiles, render_fileBindings] at hwritten
      rw [Action.course_bind] at hwritten
      obtain ⟨first, second, _, rfl, hfirst, hsecond⟩ | ⟨_, herror, -⟩ := hwritten
      · have hmanifest := written_of_writeWithDirs hfirst
        have hsource := written_of_writeWithDirs hsecond
        simp [IsFurnished, hmanifest, hsource]
      · cases herror
    | error fault =>
      obtain ⟨_, _, _, -, -, hlast⟩ := course_lift_bind.mp hlast
      obtain ⟨-, heq⟩ := course_throw.mp hlast
      cases heq
  · cases herror

/-- The making of a workspace for one script is that for any other, the slots of its files apart:
with the same replies the same calls are made, each file is written from the same segments, and
the outcome is the same. On success it is the workspace of the id, from which its commands and
patterns are made, and both of its files have been written. A manifest without placeholders for the
script is the same for both. The segments come from a cut of the template that loses nothing. -/
theorem script_fills_only_its_slots (b : Workspaces) (dependency : DependencyRef)
    (script other : String)
    {es : List Event} {r : Except Fault (Advised Workspace)}
    (h : Course (b.create script dependency).run es r) :
    ∃ id es', Course (b.create other dependency).run es' r ∧
      List.Forall₂ (SameReply (b.Counterpart dependency id script other)) es es' ∧
      (∀ advised, r = .ok advised → advised.value = b.describe id ∧
        b.IsFurnished dependency script (b.describe id) es ∧
        b.IsFurnished dependency other (b.describe id) es') ∧
      (LacksScript b.toolchain.manifest →
        Segment.complete (b.segments (b.describe id) dependency b.toolchain.manifest) script =
          Segment.complete (b.segments (b.describe id) dependency b.toolchain.manifest) other) ∧
      ∀ template : String, (Outline.ofChars template.toList).fill (fun _ => none) =
      template.toList := by
  have hmanifest (id : String) (hlacks : LacksScript b.toolchain.manifest) :
      Segment.complete (b.segments (b.describe id) dependency b.toolchain.manifest) script =
        Segment.complete (b.segments (b.describe id) dependency b.toolchain.manifest) other :=
    Segment.complete_eq_of_no_slot (Outline.slot_notMem_segments hlacks) _ _
  have hsame {id : String} {events : List Event} (hcalls : ∀ e ∈ events, IsNoWrite e.call) :
      List.Forall₂ (SameReply (b.Counterpart dependency id script other)) events events :=
    List.forall₂_same.mpr fun e he => ⟨.same (hcalls e he), .rfl⟩
  have hroot : (orFail (.workspaceCreate b.root) (ask (.makeDirs b.root))).run.Only IsNoWrite :=
    Action.only_orFail (only_ask (c := .makeDirs _) fun _ _ => Call.noConfusion)
  rw [create, Action.course_bind] at h
  obtain ⟨made, rest, _, rfl, hmade, hrest⟩ | ⟨fault, rfl, hfailed⟩ := h
  · obtain ⟨id, furnished, rfl, hfurnish⟩ := Action.course_ask_bind.mp hrest
    obtain ⟨furnished', _, hother, haligned, rfl⟩ := twins_furnish.exists_course hfurnish
      fun _ _ reply hasks => exists_sameReply hasks (hasks.choose_spec.choose_spec.1.reply_eq) reply
    refine ⟨id, made ++ ⟨.freshId, id⟩ :: furnished', ?_, ?_, ?_, hmanifest id, ?_⟩
    · rw [create, Action.course_bind]
      exact Or.inl ⟨made, _, (), rfl, hmade,
        Action.course_ask_bind.mpr ⟨id, furnished', rfl, hother⟩⟩
    · have hid : SameReply (b.Counterpart dependency id script other) ⟨.freshId, id⟩
          ⟨.freshId, id⟩ :=
        ⟨.same fun _ _ => Call.noConfusion, .rfl⟩
      exact List.rel_append (hsame (hmade.only hroot)) (.cons hid haligned)
    · rintro advised rfl
      obtain ⟨hvalue, hwritten⟩ := furnished_of_course hfurnish
      obtain ⟨-, hwritten'⟩ := furnished_of_course hother
      refine ⟨hvalue, fun file hfile => ?_, fun file hfile => ?_⟩
      · exact List.mem_append_right _ (.tail _ (hwritten file hfile))
      · exact List.mem_append_right _ (.tail _ (hwritten' file hfile))
    · exact fun template => Outline.fill_none _
  · refine ⟨"", es, ?_, hsame (hfailed.only hroot), ?_, hmanifest "", ?_⟩
    · rw [create, Action.course_bind]
      exact Or.inr ⟨fault, rfl, hfailed⟩
    · rintro advised ⟨⟩
    · exact fun template => Outline.fill_none _

/-- A toolchain whose dependency is written with placeholders. -/
def braced : Workspaces where
  root := "rooms"
  templateRoot := "kit"
  toolchain :=
    { manifest := "uses \x7b\x7bdependency\x7d\x7d"
      source := "\x7b\x7b source \x7d\x7d # \x7b\x7bdependency_name\x7d\x7d"
      dependency :=
        { name := "\x7b\x7bsource\x7d\x7d", remote := "", localRef :=
          "\x7b\x7btemplate\x7d\x7d \x7b\x7bsource\x7d\x7d" } }

/-- A script that is a placeholder itself, and one that is not. -/
theorem script_fills_only_its_slots_braced :
    (∃ es es' advised id, Course (braced.create "\x7b\x7bpackage\x7d\x7d" .prebuilt).run es
    (.ok advised) ∧
      Course (braced.create "x" .prebuilt).run es' (.ok advised) ∧
      List.Forall₂ (SameReply (braced.Counterpart .prebuilt id "\x7b\x7bpackage\x7d\x7d" "x")) es
      es' ∧ advised.value = braced.describe id ∧
      braced.IsFurnished .prebuilt "\x7b\x7bpackage\x7d\x7d" (braced.describe id) es ∧
      braced.IsFurnished .prebuilt "x" (braced.describe id) es') ∧
    LacksScript braced.toolchain.manifest ∧
    ∀ script ∈ ["\x7b\x7bpackage\x7d\x7d", "x"],
      Segment.complete (braced.segments (braced.describe "1") .prebuilt braced.toolchain.source)
      script =
        script ++ " # \x7b\x7bsource\x7d\x7d" := by
  have h := course_follow (fun _ => Service.freshReply) []
    (braced.create "\x7b\x7bpackage\x7d\x7d" .prebuilt).run
  have hok : ((braced.create "\x7b\x7bpackage\x7d\x7d" .prebuilt).run.follow
      (fun _ => Service.freshReply) []).2.isOk = true := by
    decide +kernel
  obtain ⟨advised, hadvised⟩ := Except.exists_eq_ok_of_isOk hok
  rw [hadvised] at h
  obtain ⟨id, es', hother, haligned, hvalue, -⟩ :=
    script_fills_only_its_slots braced .prebuilt _ "x" h
  refine ⟨⟨_, es', advised, id, h, hother, haligned, hvalue advised rfl⟩, ?_, ?_⟩
  · decide +kernel
  · decide +kernel

end Workspaces

end Foundry
