import Foundry.Proofs.Cache.Naming
import Foundry.Proofs.Files.Patterns
import Foundry.Proofs.Placeholder.Rendering
import Foundry.Workspace

/-!
# What is built for a workspace

The default patterns of a workspace match what carries the name of its package in three
directories of the template, whatever the path of the template is, and so nothing of
another workspace.
-/

namespace Foundry

open Glob Outline Bindings Text

theorem Glob.escape_append (x y : String) : escape (x ++ y) = escape x ++ escape y := by
  simp [← String.toList_inj, toList_escape]

namespace Workspaces

variable {b : Workspaces} {id id' dir tail suffix path pattern : String}

/-- The package of an identifier holds nothing that has to be escaped. -/
theorem escape_package (hid : IsHex 32 id) :
    escape (b.describe id).package = (b.describe id).package := by
  have hsame : id.toList.flatMap quoted = id.toList.flatMap fun c => [c] := by
    refine List.flatMap_congr fun c hc => if_neg ?_
    rintro (rfl | rfl | rfl | rfl) <;> exact hid.notMem (by decide) hc
  have hescape : escape id = id := by
    rw [← String.toList_inj, toList_escape, hsame, List.flatMap_singleton']
  rw [describe, escape_append, hescape]
  rfl

theorem slash_notMem_package (hid : IsHex 32 id) : '/' ∉ (b.describe id).package.toList := by
  have hslash : '/' ∉ id.toList := hid.notMem (by decide)
  simpa [describe] using hslash

/-- The values that the patterns of a workspace may refer to. -/
def artifactBindings (b : Workspaces) (id : String) : Bindings :=
  .ofList [("package", (b.describe id).package), ("workspace", escape (b.describe id).root),
    ("template", escape b.templateRoot)]

section Patterns

variable (hroot : Path.isAbsolute b.templateRoot = true) (hid : IsHex 32 id)
include hroot

theorem isAbsolute_append_root (dir : String) : Path.isAbsolute (b.templateRoot ++ dir) = true := by
  rwa [Path.isAbsolute_append]
  rintro hempty
  simp [hempty, Path.isAbsolute] at hroot

include hid

/-- A pattern for names that start with the package, in a directory of the template. -/
theorem parse_artifact {text : String} (hdir : escape dir = dir ∧ '{' ∉ dir.toList)
    (htail : escape tail = tail ∧ '{' ∉ tail.toList ∧ '/' ∉ tail.toList)
    (htext : text = "\x7b\x7btemplate\x7d\x7d" ++ dir ++ "/\x7b\x7bpackage\x7d\x7d" ++ tail ++
    "*") : Pattern.parse ((b.artifactBindings id).render text) =
    .ok (starred (b.templateRoot ++ dir) ((b.describe id).package ++ tail)) := by
  have hchars : text.toList = [] ++ raw "template".toList ++
      ((dir.toList ++ ['/']) ++ raw "package".toList ++ (tail.toList ++ ['*'])) := by
    simp [htext, raw]
  have hnone : HasNoHole (tail.toList ++ ['*']) := .inl fun hopen =>
    absurd (hopen.subset (List.mem_cons_self (a := '{'))) (by simp [htail])
  rw [← parse_starred (isAbsolute_append_root hroot dir)
    (by simp [slash_notMem_package hid, htail])]
  congr 1
  rw [render, hchars, fill_hole (by simp) (unpaired_of_notMem (by decide)),
    fill_hole (unpaired_of_notMem (by simp [hdir])) (unpaired_of_notMem (by decide)),
    fill_of_hasNoHole hnone, valueOf_toList (by simp [isBlank, blankRanges]),
    valueOf_toList (by simp [isBlank, blankRanges]), escape_append, hdir.1, escape_append,
    escape_package hid, htail.1]
  simp [← String.toList_inj, get?, artifactBindings, latest_ofList]

end Patterns

theorem package_apart (hid : IsHex 32 id) (hid' : IsHex 32 id') (hne : id ≠ id') {name : List Char}
    (h : (b.describe id).package.toList <+: name) : ¬ (b.describe id').package.toList <+: name := by
  intro h'
  have hlength : (b.describe id').package.toList.length =
      (b.describe id).package.toList.length := by
    simp [describe, hid.length_eq, hid'.length_eq]
  have hsame := (List.prefix_of_prefix_length_le h' h hlength.le).eq_of_length hlength
  exact hne (String.toList_inj.mp (by simpa [describe] using hsame.symm))

theorem sweep_artifact
    (hparse : Pattern.parse pattern = .ok (starred dir ((b.describe id).package ++ tail)))
    (cwd : Place) (P : Files → Prop)
    (hkeep : ∀ fs path name, P fs → Path.fileName? path = some name →
    (b.describe id).package.toList <+: name.toList → P (fs.removeMatch cwd path).1) (fs : Files)
    (hfs : P fs) : P (fs.sweep cwd pattern).1 := by
  refine Files.sweep_keeps hparse (endsIn_starred _ (by simp [describe]))
    (fun fs path name hfs hname hmatch => ?_) hfs
  obtain ⟨rest, hrest, -⟩ := matchName_standing.mp hmatch
  exact hkeep fs path name hfs hname (by simp [hrest])

/-- Whatever the path of the template, the default patterns of a workspace match what is built for
it, and nothing outside of three directories and nothing of another workspace. A sweep of them
removes only what has a name that starts with the package. -/
theorem artifacts_stay_apart (b : Workspaces) (hdefault : b.toolchain.artifacts = defaultArtifacts)
    (hroot : Path.isAbsolute b.templateRoot = true) (id id' : String) (hid : IsHex 32 id)
    (hid' : IsHex 32 id') (hne : id ≠ id') : ∃ top deps prints : Pattern,
    (b.describe id).artifacts.map Pattern.parse = [.ok top, .ok deps, .ok prints] ∧
    (∀ suffix : String, '/' ∉ suffix.toList →
      top.Matches (b.templateRoot ++ "/target/release/" ++ (b.describe id).package ++ suffix) ∧
      deps.Matches (b.templateRoot ++ "/target/release/deps/" ++ (b.describe id).package ++ "-" ++
      suffix) ∧
      prints.Matches (b.templateRoot ++ "/target/release/.fingerprint/" ++
      (b.describe id).package ++ "-" ++ suffix)) ∧
    (∀ p ∈ [top, deps, prints], ∀ path, p.Matches path →
      ∃ dir ∈ ["/target/release", "/target/release/deps", "/target/release/.fingerprint"], ∃ name,
        path.toList.splitOn '/' = (b.templateRoot ++ dir).toList.splitOn '/' ++ [name] ∧
        ¬ (b.describe id').package.toList <+: name) ∧
    ∀ pattern ∈ (b.describe id).artifacts, ∀ (cwd : Place) (P : Files → Prop),
    (∀ fs path name, P fs →
      Path.fileName? path = some name → (b.describe id).package.toList <+: name.toList →
        P (fs.removeMatch cwd path).1) → ∀ fs, P fs → P (fs.sweep cwd pattern).1 := by
  obtain ⟨t, u, v, hlist, ht, hu, hv⟩ : ∃ t u v, defaultArtifacts = [t, u, v] ∧
      t = "\x7b\x7btemplate\x7d\x7d" ++ "/target/release" ++ "/\x7b\x7bpackage\x7d\x7d" ++ "" ++
        "*" ∧
      u = "\x7b\x7btemplate\x7d\x7d" ++ "/target/release/deps" ++ "/\x7b\x7bpackage\x7d\x7d" ++
        "-" ++ "*" ∧
      v = "\x7b\x7btemplate\x7d\x7d" ++ "/target/release/.fingerprint" ++
        "/\x7b\x7bpackage\x7d\x7d" ++ "-" ++ "*" :=
    ⟨_, _, _, rfl, by decide +kernel, by decide +kernel, by decide +kernel⟩
  have hartifacts : (b.describe id).artifacts = b.toolchain.artifacts.map
      (b.artifactBindings id).render := by
    simp only [describe, artifactPatterns, artifactBindings]
  have htop := parse_artifact hroot hid (by decide +kernel) (by decide +kernel) ht
  have hdeps := parse_artifact hroot hid (by decide +kernel) (by decide +kernel) hu
  have hprints := parse_artifact hroot hid (by decide +kernel) (by decide +kernel) hv
  have habs := isAbsolute_append_root hroot
  simp only [hartifacts, hdefault, hlist, List.map_cons, List.map_nil, htop, hdeps, hprints,
    List.forall_mem_cons]
  refine ⟨_, _, _, rfl, ?_, ?_, ?_⟩
  · intro suffix hsuffix
    have hslash (tail : String) (htail : '/' ∉ tail.toList) :
        '/' ∉ ((b.describe id).package ++ tail).toList ++ suffix.toList := by
      simp [slash_notMem_package hid, htail, hsuffix]
    simpa [String.append_assoc] using And.intro
      (starred_matches (habs "/target/release") (hslash "" (by decide)))
      (And.intro (starred_matches (habs "/target/release/deps") (hslash "-" (by decide)))
        (starred_matches (habs "/target/release/.fingerprint") (hslash "-" (by decide))))
  · have hname {dir tail path : String}
        (h : (starred (b.templateRoot ++ dir) ((b.describe id).package ++ tail)).Matches path) :
        ∃ name, path.toList.splitOn '/' = (b.templateRoot ++ dir).toList.splitOn '/' ++ [name] ∧
          ¬ (b.describe id').package.toList <+: name := by
      obtain ⟨suffix, hpath⟩ := (matches_starred (habs dir)).mp h
      exact ⟨_, hpath, package_apart hid hid' hne (by simp)⟩
    exact ⟨fun path h => ⟨_, by simp, hname h⟩, fun path h => ⟨_, by simp, hname h⟩,
      fun path h => ⟨_, by simp, hname h⟩, by simp⟩
  · exact ⟨sweep_artifact htop, sweep_artifact hdeps, sweep_artifact hprints, by simp⟩

/-- A template whose path is full of wildcards and names a placeholder. -/
theorem artifacts_stay_apart_thorny :
    let b : Workspaces := ⟨"/w", "/*/[?]\x7b\x7bpackage\x7d\x7d", {}⟩
    ∃ top deps prints : Pattern, (b.describe (String.ofList (List.replicate 32 '0'))).artifacts.map
      Pattern.parse = [.ok top, .ok deps, .ok prints] := by
  obtain ⟨top, deps, prints, hparse, -⟩ := artifacts_stay_apart ⟨"/w",
    "/*/[?]\x7b\x7bpackage\x7d\x7d", {}⟩ rfl
    (by decide) (String.ofList (List.replicate 32 '0')) (String.ofList (List.replicate 32 '1'))
      ⟨by simp, by simp⟩
    ⟨by simp, by simp⟩ (by decide)
  exact ⟨top, deps, prints, hparse⟩

end Workspaces

end Foundry
