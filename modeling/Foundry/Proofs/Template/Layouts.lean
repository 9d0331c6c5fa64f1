import Foundry.Proofs.Files.Writing
import Foundry.Proofs.Template.CleanSlate

/-!
# Layouts of a template

A workspace makes the directories above each of its two files before it writes them; a template
makes only those above its source. So of the layouts that a workspace can write, a template can
write exactly those whose manifest stands in a directory on the way to the source.
-/

namespace Foundry

open List Path

namespace Files

variable {fs fs' fs₁ fs₂ : Files} {cwd d : Place} {dir name file manifest source : String}
  {id : Nat} {paths : List Place} {bytes : ByteArray}

/-- A path into a directory leads to a free place, and the directory that it belongs into is
there. -/
structure Berth (fs : Files) (cwd : Place) (dir : String) (d : Place) (name file : String) :
    Prop where
  located : ∃ t, fs.locate cwd true (Path.join (Path.join dir name) file) = .ok t ∧
    t.asDir = false ∧ t.place = d ++ [name] ++ steps (Path.names file)
  free : fs.get? (d ++ [name] ++ steps (Path.names file)) = none
  isDir : ∃ mode, fs.get? (d ++ [name] ++ (steps (Path.names file)).dropLast) = some (.dir mode)

/-- Where a file can be written among directories only, there is a berth for it. -/
theorem Laid.berth (h : fs.Laid cwd dir d name id paths fun _ => none) (hx : Fits dir name)
    (hfile : Inward file)
    (hw : fs.write cwd (join (join dir name) file) bytes = .ok fs') :
    fs.Berth cwd dir d name file := by
  obtain ⟨t, hl, hcase⟩ := edit_ok hw
  have hplace := (h.ground.room hx h.isDir).locate_place h.ground.closed h.holds.plain
    (names_inside hx.isName hfile.isRelative) (startOf_inside hx.isName hfile.isRelative) hfile.down
      hl
  have hisDir (n : Node) (hn : fs.get? t.place = some n) : n.isDir = true :=
    (h.holds.only _ n hfile.some_step (hplace ▸ hn)).2 rfl
  obtain ⟨hnone, hasDir⟩ : fs.get? t.place = none ∧ t.asDir = false := by
    rcases hcase with ⟨i, old, mode, -, hold | ⟨hnone, hasDir, -⟩⟩ | ⟨-, device, hdevice⟩
    · cases hisDir _ hold
    · exact ⟨hnone, hasDir⟩
    · cases hisDir _ hdevice
  obtain ⟨q, x, mode, hq, hdir⟩ :=
    h.ground.closed.hasParent_locate hl ((locate_node hl).trans hnone)
  rw [hplace] at hq
  refine ⟨⟨t, hl, hasDir, hplace⟩, hplace ▸ hnone, mode, ?_⟩
  rw [← dropLast_append_of_ne_nil hfile.some_step, hq, dropLast_concat, hdir]

/-- A file is written to its berth, also in a tree that has come to differ elsewhere. -/
theorem Berth.exists_write (h : fs.Berth cwd dir d name file)
    (hs : fs.Shifts fs' (d ++ [name] ++ steps (names file)) none) (bytes : ByteArray) :
    ∃ fs'' id mode, fs'.write cwd (join (join dir name) file) bytes = .ok fs'' ∧
    fs'.Sets fs'' (d ++ [name] ++ steps (names file)) (.file id bytes mode) := by
  obtain ⟨t, hl, hasDir, hplace⟩ := h.located
  have hfree := h.free
  rw [← hplace] at hs hfree ⊢
  exact exists_sets (locate_change hs (by simp) (fun n hn => by simp [hfree] at hn) (by simp) hl)
    hasDir (.inl rfl) fun _ => bytes

theorem prefix_dropLast {p q : Place} (h : p <+: q) (hne : p ≠ q) : p <+: q.dropLast := by
  rcases eq_nil_or_concat q with rfl | ⟨init, x, rfl⟩
  · exact absurd (prefix_nil.mp h) hne
  rw [concat_eq_append] at h hne ⊢
  rw [dropLast_concat]
  exact (prefix_concat_iff.mp h).resolve_left hne

/-- Directories above one file are on its way, and the file is not. -/
theorem Laid.on_way (h : fs.Laid cwd dir d name id [steps (names file)] fun _ => none)
    (hfile : fs.Berth cwd dir d name file) {rel : Place} {n : Node}
    (hn : fs.get? (d ++ [name] ++ rel) = some n) :
    n.isDir = true ∧ rel <+: (steps (names file)).dropLast := by
  by_cases hnil : rel = []
  · obtain ⟨mode, hdir⟩ := h.isDir
    rw [hnil, append_nil, hdir] at hn
    cases hn
    exact ⟨rfl, by simp [hnil]⟩
  · obtain ⟨⟨path, hpath, hpre⟩, hdir⟩ := h.holds.only rel n hnil hn
    obtain rfl := mem_singleton.mp hpath
    refine ⟨hdir rfl, prefix_dropLast hpre ?_⟩
    rintro rfl
    cases hfile.free.symm.trans hn

/-- Where the directories above one file are, another file that belongs into one of them can be
written before it. -/
theorem Laid.exists_writes (h₁ : fs₁.Laid cwd dir d name id [steps (names source)] fun _ => none)
    (hsource : fs₁.Berth cwd dir d name source)
    (h₂ : fs₂.Laid cwd dir d name id [steps (names manifest)] fun _ => none)
    (hmanifest : fs₂.Berth cwd dir d name manifest)
    (houtside : ∀ q, ¬ d ++ [name] <+: q → fs₁.get? q = fs₂.get? q)
    (hapart : ¬ steps (names manifest) <+: steps (names source))
    (hon : (steps (names manifest)).dropLast <+: (steps (names source)).dropLast)
    (bytes text : ByteArray) :
    ∃ fs₃ fs₄, fs₁.write cwd (join (join dir name) manifest) bytes = .ok fs₃ ∧
    fs₃.write cwd (join (join dir name) source) text = .ok fs₄ := by
  have hfree : fs₁.get? (d ++ [name] ++ steps (names manifest)) = none := by
    by_contra hn
    obtain ⟨n, hn⟩ := Option.ne_none_iff_exists'.mp hn
    exact hapart <| (h₁.on_way hsource hn).2.trans <| dropLast_prefix _
  have hshifts : fs₂.Shifts fs₁ (d ++ [name] ++ steps (names manifest)) none := by
    refine ⟨hfree, fun q mode _ hdir => ?_, fun q target _ hlink => ?_⟩
    · by_cases hin : d ++ [name] <+: q
      · obtain ⟨rel, rfl⟩ := hin
        have hrel := (h₂.on_way hmanifest hdir).2.trans hon
        obtain ⟨mode, habove⟩ := hsource.isDir
        by_cases heq : rel = (steps (names source)).dropLast
        · exact ⟨mode, heq ▸ habove⟩
        exact h₁.ground.closed.dir_of_isBelow habove ⟨(prefix_append_right_inj _).mpr hrel,
          by simpa using heq⟩
      · exact ⟨mode, by rw [houtside q hin, hdir]⟩
    · by_cases hin : d ++ [name] <+: q
      · obtain ⟨rel, rfl⟩ := hin
        cases (h₂.on_way hmanifest hlink).1
      · rw [houtside q hin, hlink]
  obtain ⟨fs₃, i, mode, hw₃, hsets⟩ := hmanifest.exists_write hshifts bytes
  have hkept (q : Place) (hq : fs₁.get? q ≠ none) : fs₃.get? q = fs₁.get? q := by
    rw [hsets, if_neg]
    rintro rfl
    exact hq hfree
  have hshifts' : fs₁.Shifts fs₃ (d ++ [name] ++ steps (names source)) none := by
    refine ⟨?_, fun q mode _ hdir => ⟨mode, by rw [hkept q (by simp [hdir]), hdir]⟩,
      fun q target _ hlink => by rw [hkept q (by simp [hlink]), hlink]⟩
    rw [hsets, if_neg, hsource.free]
    exact fun heq => hapart (append_cancel_left heq ▸ prefix_refl _)
  obtain ⟨fs₄, -, -, hw₄, -⟩ := hsource.exists_write hshifts' text
  exact ⟨fs₃, fs₄, hw₃, hw₄⟩

end Files

namespace Template

open Circumstances (run_ask run_action_ok run_action_error run_lift run_orFault)
open Files (steps)

variable {t : Template} {w : Circumstances} {m m' m₁ m₂ cleared : Machine} {dir name : String}
  {d : Place} {id : Nat} {text text' : String}

/-- A build writes its two files and gets to run its command. -/
def RunsCommand (t : Template) (w : Circumstances) (m : Machine) : Prop :=
  ∃ files, w.run m t.prepare.run = (m.withFiles files, some (.ok ())) ∧
    (w.run m t.build.run).1.calls = ((m.withFiles files).addCall t.command t.buildTimeout).calls

section Layout

variable (hstands : t.Stands dir name) (hspares : w.Spares dir d name id)
include hstands hspares

/-- Where a workspace could write the source, the directories above it are made for it. -/
theorem run_writeWithDirs (hground : m.Ground dir d name id) (hgone : m.files.Gone (d ++ [name]))
    (h : w.run m (Workspaces.writeWithDirs t.sourcePath text).run = (m', some (.ok ()))) :
    ∃ files, w.run m (makeParent t.sourcePath).run = (m.withFiles files, some (.ok ())) ∧
    files.Laid m.cwd dir d name id [steps (names t.sourceFile)] (fun _ => none) ∧
    files.Berth m.cwd dir d name t.sourceFile ∧
    ∀ q, ¬ d ++ [name] <+: q → files.get? q = m.files.get? q := by
  unfold Workspaces.writeWithDirs at h
  rcases run_makeParent hstands hspares hground hgone with ⟨files, hmade, hc, hb⟩ |
    ⟨files, context, e, hmade, -⟩
  · rw [run_action_ok hmade] at h
    rcases answer_writeFile (m := m.withFiles files) hspares
      (Files.Begun.ground hgone hstands.fits hground hc hb) t.sourcePath text.toUTF8 with
      ⟨files', hw, -⟩ | ⟨e, left, -, herr⟩
    · rw [sourcePath, hstands.root] at hw
      have hlaid := Files.Begun.laid_of_write hground hgone hstands.fits hc hb
        (mem_singleton_self _) hstands.source hw
      exact ⟨files, hmade, hlaid, hlaid.berth hstands.fits hstands.source hw, fun q => hb.outside⟩
    · rw [run_orFault _ (run_ask herr)] at h
      cases h
  · rw [run_action_error hmade] at h
    cases h

end Layout

section Calm

variable (hcalm : ∀ m c, w.breaks m c = none)
include hcalm

theorem run_write (context path : String) (bytes : ByteArray) :
    w.run m (orFault context (Program.ask (.writeFile path bytes))).run =
    ((m.changing fun fs cwd => fs.write cwd path bytes).1,
    some ((m.changing fun fs cwd => fs.write cwd path bytes).2.mapError (.files context))) := by
  refine run_orFault context (run_ask ?_)
  simp [Circumstances.answer, hcalm, Machine.answer?]

theorem run_write_ok (context path : String) {bytes : ByteArray} {files : Files}
    (hw : m.files.write m.cwd path bytes = .ok files) :
    w.run m (orFault context (Program.ask (.writeFile path bytes))).run =
    (m.withFiles files, some (.ok ())) := by
  rw [run_write hcalm, Machine.changing, hw]
  rfl

/-- Once the files are written, the command is run. -/
theorem calls_build (hcleared : w.run m t.discard = (cleared, some ()))
    (hwritten : w.run cleared t.writeFiles.run = (m', some (.ok ()))) :
    (w.run m t.build.run).1.calls = (m'.addCall t.command t.buildTimeout).calls := by
  have hran : w.run m' (attempt (execute t.command t.buildTimeout)).run =
      (t.ran w m', some (.ok (w.command m').1)) := run_lift (run_ask rfl)
  rw [build, run_action_ok (run_lift hcleared), run_action_ok hwritten, run_action_ok hran]
  cases (w.command m').1 with
  | error fault => cases fault <;> rfl
  | ok result =>
    by_cases hsucceeded : result.succeeded = true
    · simp only [hsucceeded, Bool.not_true, Bool.false_eq_true, if_false]
      rw [run_action_ok (run_lift (run_ask rfl))]
      rw [run_write hcalm, Machine.changing]
      split <;> rfl
    · simp only [hsucceeded, Bool.not_false, if_true]
      rfl

end Calm

/-- Where a workspace could write each of the two files, with the directories above it, a build
writes them and runs its command exactly if the manifest stands in a directory on the way to the
source. -/
theorem runsCommand_iff_manifest_on_way (hstands : t.Stands dir name)
    (hspares : w.Spares dir d name id)
    (hcalm : ∀ m c, w.breaks m c = none) (hground : m.Ground dir d name id)
    (hcleared : w.run m t.discard = (cleared, some ()))
    (hmanifest : w.run cleared (Workspaces.writeWithDirs t.manifestPath text).run =
    (m₁, some (.ok ())))
    (hsource : w.run cleared (Workspaces.writeWithDirs t.sourcePath text').run =
    (m₂, some (.ok ())))
    (hapart : ¬ steps (Path.names t.manifestFile) <+: steps (Path.names t.sourceFile)) :
    t.RunsCommand w m ↔
      (steps (Path.names t.manifestFile)).dropLast <+:
      (steps (Path.names t.sourceFile)).dropLast := by
  obtain ⟨files, hdiscard, hground₀, hgone⟩ := run_discard (w := w) hstands hground
  obtain ⟨rfl, -⟩ := Prod.mk.inj (hcleared.symm.trans hdiscard)
  obtain ⟨fs₁, hmade, hlaid₁, hberth₁, hout₁⟩ :=
    run_writeWithDirs (m := m.withFiles files) hstands hspares hground₀ hgone hsource
  -- The manifest alone is the source of a template that has no other file.
  have hstands' : ({ t with sourceFile := t.manifestFile } : Template).Stands dir name :=
    ⟨hstands.root, hstands.lockPath, hstands.fits, hstands.fitsLock, hstands.manifest,
      hstands.manifest⟩
  obtain ⟨fs₂, -, hlaid₂, (hberth₂ : fs₂.Berth _ dir d name t.manifestFile), hout₂⟩ :=
    run_writeWithDirs (m := m.withFiles files) hstands' hspares hground₀ hgone hmanifest
  have hprepare : w.run m t.prepare.run = w.run (m.withFiles files) t.writeFiles.run := by
    rw [prepare, run_action_ok (run_lift hdiscard)]
  constructor
  · rintro ⟨left, hrun, -⟩
    rw [hprepare, writeFiles, run_action_ok hmade] at hrun
    rcases answer_writeFile (m := (m.withFiles files).withFiles fs₁) hspares hlaid₁.ground
      t.manifestPath t.manifest.toUTF8 with ⟨written, hw, -⟩ | ⟨e, left, -, herr⟩
    · rw [manifestPath, hstands.root] at hw
      obtain ⟨mode, hdir⟩ := (hlaid₁.berth hstands.fits hstands.manifest hw).isDir
      exact (hlaid₁.on_way hberth₁ hdir).2
    · rw [run_action_error (run_orFault _ (run_ask herr))] at hrun
      cases hrun
  · intro hon
    obtain ⟨fs₃, fs₄, hw₃, hw₄⟩ := hlaid₁.exists_writes hberth₁ hlaid₂ hberth₂
      (fun q hq => (hout₁ q hq).trans (hout₂ q hq).symm) hapart hon t.manifest.toUTF8
        t.source.toUTF8
    rw [← hstands.root] at hw₃ hw₄
    have hwritten : w.run (m.withFiles files) t.writeFiles.run =
        (m.withFiles fs₄, some (.ok ())) := by
      have hfirst := run_write_ok (m := (m.withFiles files).withFiles fs₁) hcalm
        s!"writing {t.manifestPath}" t.manifestPath hw₃
      rw [writeFiles, run_action_ok hmade, run_action_ok hfirst]
      exact run_write_ok (m := m.withFiles fs₃) hcalm _ t.sourcePath hw₄
    exact ⟨fs₄, hprepare.trans hwritten, calls_build hcalm hdiscard hwritten⟩

/-- A template whose source is below the directory of its manifest. -/
def nested : Template := { inPlace with manifestFile := "a/m", sourceFile := "a/b/s" }

/-- The machine once a stray link in place of the directory is removed. -/
def tidied : Machine := (calm.run (Machine.bare.withFiles strayFiles) nested.discard).1

theorem runsCommand_iff_manifest_on_way_nested :
    (∃ m', calm.run tidied (Workspaces.writeWithDirs nested.manifestPath "").run =
    (m', some (.ok ()))) ∧
      (∃ m', calm.run tidied (Workspaces.writeWithDirs nested.sourcePath "").run =
      (m', some (.ok ()))) ∧ nested.RunsCommand calm (Machine.bare.withFiles strayFiles) := by
  have hstands : nested.Stands "" "t" :=
    ⟨stands_inPlace.root, stands_inPlace.lockPath, stands_inPlace.fits, stands_inPlace.fitsLock,
      ⟨by decide, by decide, by decide⟩, ⟨by decide, by decide, by decide⟩⟩
  have hspares : calm.Spares "" [] "t" 0 :=
    ⟨fun _ _ _ _ hbreaks => (by cases hbreaks), fun _ hground => hground⟩
  have hcleared : calm.run (Machine.bare.withFiles strayFiles) nested.discard = (tidied, some ()) :=
    Prod.ext rfl (by decide +kernel)
  have hmanifest : calm.run tidied (Workspaces.writeWithDirs nested.manifestPath "").run =
      (_, some (.ok ())) :=
    Prod.ext rfl (by decide +kernel)
  have hsource : calm.run tidied (Workspaces.writeWithDirs nested.sourcePath "").run =
      (_, some (.ok ())) :=
    Prod.ext rfl (by decide +kernel)
  exact ⟨⟨_, hmanifest⟩, ⟨_, hsource⟩,
    (runsCommand_iff_manifest_on_way hstands hspares (fun _ _ => rfl) ground_stray
    hcleared hmanifest hsource (by decide)).mpr (by decide)⟩

/-- A workspace with directories of their own for its two files. -/
def split : Workspaces :=
  { root := "", templateRoot := "", toolchain := { (default : Toolchain) with
  manifestFile := "conf/m", sourceFile := "src/s" } }

/-- A workspace takes a manifest off the way to the source, and the build of a template fails with
it. -/
theorem manifest_off_way_refused :
    (∃ m', calm.run .bare (split.writeFiles (split.describe "") "" .remote).run =
    (m', some (.ok ()))) ∧
    ∃ m', calm.run .bare ({ inPlace with manifestFile := "conf/m", sourceFile := "src/s" } :
    Template).build.run =
      (m', some (.error (.files "writing t/conf/m" .notFound))) ∧ m'.calls.length = 0 := by
  refine ⟨⟨_, Prod.ext rfl ?_⟩, _, Prod.ext rfl ?_, ?_⟩
  all_goals decide +kernel

end Template

end Foundry
