import Foundry.Proofs.Cache.Stock
import Foundry.Proofs.Files.Writing

/-!
# Looking up whatever stands in an entry's place

Where an entry is looked up there may be nothing, a directory or a file of any bytes. Served
is the output of an entry that is the source's own and fresh. A text that is no such entry is
removed, everything else is left alone, and what should not be there is warned of.
-/

namespace Foundry

open Program Machine Text Entry

theorem isSome_joinWarnings (a b : Option String) :
    (joinWarnings a b).isSome = (a.isSome || b.isSome) := by
  cases a <;> cases b <;> rfl

namespace Machine

variable {m : Machine}

/-- The text that a path leads to. -/
def textAt (m : Machine) (path : String) : Except Cause String :=
  match m.files.read m.cwd path with
  | .error e => .error e
  | .ok bytes =>
    match String.fromUTF8? bytes with
    | some text => .ok text
    | none => .error .notText

theorem runNow_readTextFile (m : Machine) (path : String) :
    m.runNow (readTextFile path) = (m, some (m.textAt path)) := by
  simp only [readTextFile, readFile, ask, bind_call, bind_done, runNow, answer?, seeing, textAt]
  cases m.files.read m.cwd path with
  | error e => rfl
  | ok bytes =>
    dsimp only
    cases String.fromUTF8? bytes <;> rfl

/-- What stands where a path leads, whether or not a link at its end is followed. -/
def Finds (m : Machine) (path : String) (item : Option (Place × Node)) : Prop :=
  ∀ follow, m.files.find m.cwd follow path = item.elim (.error .notFound) .ok

variable {path : String} {p : Place} {id mode : Nat} {bytes : ByteArray}

theorem Finds.textAt_none (h : m.Finds path none) : m.textAt path = .error .notFound := by
  have hread : m.files.read m.cwd path = .error .notFound := by
    simp only [Files.read, h true, Option.elim, Bind.bind, Except.bind]
  rw [textAt, hread]

theorem Finds.textAt_dir (h : m.Finds path (some (p, .dir mode))) :
    m.textAt path = .error .isDirectory := by
  have hread : m.files.read m.cwd path = .error .isDirectory := by
    simp only [Files.read, h true, Option.elim, Bind.bind, Except.bind]
  rw [textAt, hread]

section File

variable (h : m.Finds path (some (p, .file id bytes mode)))
include h

theorem Finds.textAt_file :
    m.textAt path = (String.fromUTF8? bytes).elim (.error .notText) .ok := by
  have hread : m.files.read m.cwd path = .ok bytes := by
    simp only [Files.read, h true, Option.elim, Bind.bind, Except.bind]
  rw [textAt, hread]
  dsimp only
  cases String.fromUTF8? bytes <;> rfl

theorem Finds.removeFile : m.files.removeFile m.cwd path = .ok (m.files.erase p) := by
  simp [Files.removeFile, h false, Option.elim, Bind.bind, Except.bind, Node.isDir]

theorem Finds.erase : (m.withFiles (m.files.erase p)).Finds path none := fun follow =>
  Files.find_erase (h follow)

end File

theorem Finds.congr {m' : Machine} {item : Option (Place × Node)} (h : m.Finds path item)
    (hfiles : m'.files = m.files) (hcwd : m'.cwd = m.cwd) : m'.Finds path item := by
  intro follow
  rw [hfiles, hcwd]
  exact h follow

end Machine

theorem toUTF8_of_fromUTF8? {bytes : ByteArray} {text : String}
    (h : String.fromUTF8? bytes = some text) : text.toUTF8 = bytes := by
  unfold String.fromUTF8? at h
  split at h
  · cases h
    rfl
  · cases h

namespace Cache

variable {c : Cache} {m m' : Machine} {path source text : String} {p : Place} {id mode : Nat}
  {bytes : ByteArray} {e : Cause}

/-! ## Discarding -/

theorem runNow_discard_ok {files : Files} (h : m.files.removeFile m.cwd path = .ok files) :
    m.runNow (discard path) = (m.withFiles files, some none) := by
  simp only [discard, ask, bind_call, bind_done, runNow, answer?, changing, h]
  rfl

theorem runNow_discard_error (hne : e ≠ .notFound)
    (h : m.files.removeFile m.cwd path = .error e) :
    ∃ warning, m.runNow (discard path) = (m, some (some warning)) := by
  have hmissing : isMissing e = false := by simpa [isMissing] using hne
  refine ⟨s!"removing {path}: {e.message}", ?_⟩
  simp only [discard, ask, bind_call, bind_done, runNow, answer?, changing, h, hmissing,
    Bool.false_eq_true, if_false]
  rfl

/-! ## What a file may hold -/

def IsText (bytes : ByteArray) : Prop := (String.fromUTF8? bytes).isSome = true

/-- An entry for a source: filed under its hash, and made from it. -/
def Owns (c : Cache) (source : String) (e : Entry) : Prop :=
  e.hash = c.hash (Text.trim source) ∧ e.source = Text.trim source

def IsFresh (c : Cache) (m : Machine) (e : Entry) : Prop := m.today.since e.createdAt ≤ c.maxAge

/-- A text, but not that of an entry for the source. -/
def IsForeign (c : Cache) (source : String) (bytes : ByteArray) : Prop :=
  IsText bytes ∧ ∀ e, Entry.parse bytes.toList = .ok e → ¬ c.Owns source e

/-- The text of an entry for the source that is too old. -/
def IsLapsed (c : Cache) (m : Machine) (source : String) (bytes : ByteArray) : Prop :=
  IsText bytes ∧ ∃ e, Entry.parse bytes.toList = .ok e ∧ c.Owns source e ∧ ¬ c.IsFresh m e

/-- The text of an entry for the source that can be served. -/
def Offers (c : Cache) (m : Machine) (source : String) (bytes : ByteArray) (output : String) :
    Prop :=
  IsText bytes ∧ ∃ e, Entry.parse bytes.toList = .ok e ∧ c.Owns source e ∧ c.IsFresh m e ∧
    e.output = output

theorem isFor_iff {e : Entry} :
    e.isFor (trim source) (c.hash (trim source)) = true ↔ c.Owns source e := by
  simp [isFor, Owns]

theorem isStale_iff {e : Entry} : e.isStale m.today c.maxAge = true ↔ ¬ c.IsFresh m e := by
  simp [isStale, IsFresh]

/-! ## One look -/

theorem runNow_get_unreadable (h : m.textAt (c.entryPath (c.hash (trim source))) = .error e) :
    ∃ warning, m.runNow (c.get source) = (m, some ⟨none, warning⟩) ∧
    (warning.isSome = true ↔ e ≠ .notFound) := by
  rw [get, runNow_bind_of_eq (m.runNow_readTextFile _), h]
  by_cases he : e = .notFound
  · exact ⟨none, by simp [isMissing, he, runNow], by simp [he]⟩
  · exact ⟨some _, by simp [isMissing, he, runNow]; rfl, by simp [he]⟩

section Text

variable (h : m.textAt (c.entryPath (c.hash (Text.trim source))) = .ok text)
include h

theorem runNow_get_foreign {files : Files} (hforeign : ∀ e, parse text.toUTF8.toList = .ok e →
    ¬ c.Owns source e)
    (hremove : m.files.removeFile m.cwd (c.entryPath (c.hash (trim source))) = .ok files) :
    ∃ warning, m.runNow (c.get source) = (m.withFiles files, some ⟨none, some warning⟩) := by
  rw [get, runNow_bind_of_eq (m.runNow_readTextFile _), h]
  dsimp only
  cases hparse : parse text.toUTF8.toList with
  | error reason =>
    rw [runNow_bind_of_eq (runNow_discard_ok hremove)]
    exact ⟨_, rfl⟩
  | ok e =>
    have hfor : e.isFor (trim source) (c.hash (trim source)) = false :=
      Bool.eq_false_iff.mpr fun hfor => hforeign e hparse (isFor_iff.mp hfor)
    simp only [hfor, Bool.not_false, if_true]
    rw [runNow_bind_of_eq (runNow_discard_ok hremove)]
    exact ⟨_, rfl⟩

theorem runNow_get_own {e : Entry} (hparse : parse text.toUTF8.toList = .ok e)
    (hown : c.Owns source e) :
    m.runNow (c.get source) = m.runNow (if e.isStale m.today c.maxAge then
    discard (c.entryPath (c.hash (trim source))) >>= fun warning => .done ⟨none, warning⟩
    else .done ⟨some e.output, none⟩) := by
  have hfor := isFor_iff.mpr hown
  rw [get, runNow_bind_of_eq (m.runNow_readTextFile _), h]
  simp only [hparse, hfor, Bool.not_true, Bool.false_eq_true, if_false]
  rfl

end Text

/-- What a look for a source gives and leaves behind, by what stands where its entry would be. -/
structure Looks (c : Cache) (m : Machine) (source : String) (item : Option (Place × Node))
    (m' : Machine) (hit : Advised (Option String)) : Prop where
  /-- An output is that of an entry of the source's own that is fresh. -/
  served : ∀ output, hit.value = some output ↔
    ∃ p id bytes mode, item = some (p, .file id bytes mode) ∧ c.Offers m source bytes output
  /-- A text that is something else is removed, and nothing beside it. -/
  removed : ∀ p id bytes mode, item = some (p, .file id bytes mode) →
    c.IsForeign source bytes ∨ c.IsLapsed m source bytes → m' = m.withFiles (m.files.erase p)
  /-- Otherwise nothing changes. -/
  kept : (∀ p id bytes mode, item = some (p, .file id bytes mode) →
    ¬ (c.IsForeign source bytes ∨ c.IsLapsed m source bytes)) → m' = m
  /-- What cannot be read and what is no entry of the source's own is warned of. -/
  warned : hit.warning.isSome = true ↔ ∃ p n, item = some (p, n) ∧
    (n.isDir = true ∨ ∃ id bytes mode, n = .file id bytes mode ∧
      (¬ IsText bytes ∨ c.IsForeign source bytes))
  /-- After a miss, the next look misses and changes nothing, whenever it comes. -/
  again : hit.value = none → ∀ later : Machine, later.files = m'.files →
    later.cwd = m'.cwd → ∃ warning, later.runNow (c.get source) = (later, some ⟨none, warning⟩)

/-- Where there is no text, a look changes nothing, now and later. -/
theorem looks_unreadable {item : Option (Place × Node)} (he : e ≠ .notFound ↔ item ≠ none)
    (hitem : ∀ p n, item = some (p, n) → n.isDir = true ∨ ∃ id bytes mode, n = .file id bytes mode ∧
    ¬ IsText bytes) (h : ∀ later : Machine, later.files = m.files → later.cwd = m.cwd →
    later.textAt (c.entryPath (c.hash (trim source))) = .error e) :
    ∃ m' hit, m.runNow (c.get source) = (m', some hit) ∧ c.Looks m source item m' hit := by
  have hnot {p : Place} {id mode : Nat} {bytes : ByteArray}
      (hsome : item = some (p, .file id bytes mode)) : ¬ IsText bytes := by
    rcases hitem p _ hsome with hdir | ⟨id', bytes', mode', heq, hnot⟩
    · cases hdir
    cases heq
    exact hnot
  obtain ⟨warning, hrun, hwarning⟩ := runNow_get_unreadable (h m rfl rfl)
  refine ⟨m, _, hrun, ?_, ?_, fun _ => rfl, ?_, ?_⟩
  · refine fun output => ⟨by simp, ?_⟩
    rintro ⟨p, id, bytes, mode, hsome, htext, -⟩
    exact absurd htext (hnot hsome)
  · rintro p id bytes mode hsome (⟨htext, -⟩ | ⟨htext, -⟩)
    · exact absurd htext (hnot hsome)
    · exact absurd htext (hnot hsome)
  · rw [hwarning, he]
    constructor
    · intro hne
      obtain ⟨⟨p, n⟩, hsome⟩ := Option.ne_none_iff_exists'.mp hne
      refine ⟨p, n, hsome, (hitem p n hsome).imp_right ?_⟩
      rintro ⟨id, bytes, mode, heq, hnot⟩
      exact ⟨id, bytes, mode, heq, .inl hnot⟩
    · rintro ⟨p, n, hsome, -⟩
      simp [hsome]
  · intro _ later hfiles hcwd
    obtain ⟨warning, hlater, -⟩ := runNow_get_unreadable (h later hfiles hcwd)
    exact ⟨warning, hlater⟩

/-- A text is foreign, lapsed or offered. -/
theorem text_cases (c : Cache) (m : Machine) (source : String) (htext : IsText bytes) :
    (c.IsForeign source bytes ∨ c.IsLapsed m source bytes) ∨
    ∃ output, c.Offers m source bytes output := by
  by_cases hforeign : ∀ e, parse bytes.toList = .ok e → ¬ c.Owns source e
  · exact .inl (.inl ⟨htext, hforeign⟩)
  push Not at hforeign
  obtain ⟨e, hparse, hown⟩ := hforeign
  by_cases hfresh : c.IsFresh m e
  · exact .inr ⟨e.output, htext, e, hparse, hown, hfresh, rfl⟩
  · exact .inl (.inr ⟨htext, e, hparse, hown, hfresh⟩)

theorem not_offers (h : c.IsForeign source bytes ∨ c.IsLapsed m source bytes) (output : String) :
    ¬ c.Offers m source bytes output := by
  rintro ⟨-, e, hparse, hown, hfresh, -⟩
  rcases h with ⟨-, hforeign⟩ | ⟨-, e', hparse', -, hstale⟩
  · exact hforeign e hparse hown
  rw [hparse] at hparse'
  cases hparse'
  exact hstale hfresh

section File

variable (hitem : m.Finds (c.entryPath (c.hash (Text.trim source))) (some (p, .file id bytes mode)))
  (hbytes : String.fromUTF8? bytes = some text)
include hitem hbytes

theorem textAt_of_finds : m.textAt (c.entryPath (c.hash (trim source))) = .ok text := by
  rw [hitem.textAt_file, hbytes]
  rfl

/-- A text that is not offered is removed, so the next look finds nothing. -/
theorem looks_removed {warning : Option String}
    (h : c.IsForeign source bytes ∨ c.IsLapsed m source bytes)
    (hwarning : warning.isSome = true ↔ c.IsForeign source bytes) :
    c.Looks m source (some (p, .file id bytes mode)) (m.withFiles (m.files.erase p))
    ⟨none, warning⟩ := by
  have htext : IsText bytes := by rw [IsText, hbytes]; rfl
  refine ⟨?_, ?_, ?_, ?_, ?_⟩
  · refine fun output => ⟨by simp, ?_⟩
    rintro ⟨p', id', bytes', mode', heq, hoffers⟩
    cases heq
    exact absurd hoffers (not_offers h output)
  · rintro p' id' bytes' mode' heq -
    cases heq
    rfl
  · exact fun hkept => absurd h (hkept p id bytes mode rfl)
  · rw [hwarning]
    constructor
    · exact fun hforeign => ⟨p, _, rfl, .inr ⟨id, bytes, mode, rfl, .inr hforeign⟩⟩
    rintro ⟨p', n, heq, hdir | ⟨id', bytes', mode', rfl, hnot | hforeign⟩⟩
    · cases heq
      cases hdir
    · cases heq
      exact absurd htext hnot
    cases heq
    exact hforeign
  · intro _ later hfiles hcwd
    obtain ⟨warning, hlater, -⟩ := runNow_get_unreadable (hitem.erase.congr hfiles hcwd).textAt_none
    exact ⟨warning, hlater⟩

/-- Whatever a text is, a look at it ends. -/
theorem exists_looks_text : ∃ m' hit, m.runNow (c.get source) = (m', some hit) ∧
    c.Looks m source (some (p, .file id bytes mode)) m' hit := by
  have htext : IsText bytes := by rw [IsText, hbytes]; rfl
  have hlist : text.toUTF8.toList = bytes.toList := by rw [toUTF8_of_fromUTF8? hbytes]
  have hread := textAt_of_finds hitem hbytes
  rcases text_cases c m source htext with (hforeign | hlapsed) | ⟨output, hoffers⟩
  · obtain ⟨warning, hrun⟩ := runNow_get_foreign hread (hlist ▸ hforeign.2) hitem.removeFile
    exact ⟨_, _, hrun, looks_removed hitem hbytes (.inl hforeign) (by simp [hforeign])⟩
  · have hgone : c.IsForeign source bytes ∨ c.IsLapsed m source bytes := .inr hlapsed
    obtain ⟨-, e, hparse, hown, hstale⟩ := hlapsed
    have hrun := runNow_get_own hread (hlist ▸ hparse) hown
    rw [if_pos (isStale_iff.mpr hstale),
      runNow_bind_of_eq (runNow_discard_ok hitem.removeFile)] at hrun
    refine ⟨_, _, hrun, looks_removed hitem hbytes hgone ?_⟩
    simp only [Option.isSome_none, Bool.false_eq_true, false_iff]
    exact fun hforeign => hforeign.2 e hparse hown
  · have hnot : ¬ (c.IsForeign source bytes ∨ c.IsLapsed m source bytes) := fun h =>
      not_offers h output hoffers
    have hserved := hoffers
    obtain ⟨-, e, hparse, hown, hfresh, rfl⟩ := hoffers
    have hrun := runNow_get_own hread (hlist ▸ hparse) hown
    rw [if_neg fun hstale => isStale_iff.mp hstale hfresh] at hrun
    refine ⟨m, _, hrun, ?_, ?_, fun _ => rfl, ?_, by simp⟩
    · intro output
      constructor
      · rintro ⟨⟩
        exact ⟨p, id, bytes, mode, rfl, hserved⟩
      rintro ⟨p', id', bytes', mode', heq, -, e', hparse', -, -, rfl⟩
      cases heq
      rw [hparse] at hparse'
      cases hparse'
      rfl
    · rintro p' id' bytes' mode' heq h
      cases heq
      exact absurd h hnot
    · refine ⟨by simp, ?_⟩
      rintro ⟨p', n, heq, hdir | ⟨id', bytes', mode', rfl, hnot' | hforeign⟩⟩
      · cases heq
        cases hdir
      · cases heq
        exact absurd htext hnot'
      cases heq
      exact absurd (.inl hforeign) hnot

end File

/-- Whatever plain thing stands where the entry of a source would be, a look for the source ends,
and what it gives and leaves behind is told by that thing alone. -/
theorem get_serves_own_fresh (c : Cache) (m : Machine) (source : String)
    (item : Option (Place × Node)) (hitem : m.Finds (c.entryPath (c.hash (Text.trim source))) item)
    (hplain : ∀ p n, item = some (p, n) → n.isPlain = true) :
    ∃ m' hit, m.runNow (c.get source) = (m', some hit) ∧ c.Looks m source item m' hit := by
  cases item with
  | none =>
    refine looks_unreadable (e := .notFound) (by simp) (by simp) ?_
    exact fun later hfiles hcwd => (hitem.congr hfiles hcwd).textAt_none
  | some found =>
    obtain ⟨p, n⟩ := found
    cases n with
    | dir mode =>
      refine looks_unreadable (e := .isDirectory) ⟨by simp, fun _ => by decide⟩ ?_ ?_
      · rintro p' n ⟨⟩
        exact Or.inl rfl
      · exact fun later hfiles hcwd => (hitem.congr hfiles hcwd).textAt_dir
    | file id bytes mode =>
      cases hbytes : String.fromUTF8? bytes with
      | none =>
        refine looks_unreadable (e := .notText) ⟨by simp, fun _ => by decide⟩ ?_ ?_
        · rintro p' n ⟨⟩
          exact Or.inr ⟨id, bytes, mode, rfl, by simp [IsText, hbytes]⟩
        intro later hfiles hcwd
        rw [(hitem.congr hfiles hcwd).textAt_file, hbytes]
        rfl
      | some text => exact exists_looks_text hitem hbytes
    | link | device | program => cases hplain p _ rfl

/-- A machine with an empty file where the entry of every source would be. -/
def blankMachine : Machine :=
  Machine.bare.withFiles
    { nodes := [(["out"], .dir 493), (["out", "h.json"], .file 0 .empty 420)], nextId := 1 }

def blankCache : Cache := { dir := "out", maxEntries := 1, maxAge := 0, hash := fun _ => "h" }

theorem finds_blank :
    blankMachine.Finds (blankCache.entryPath "h")
    (some (["out", "h.json"], .file 0 .empty 420)) := by
  have hdir : blankMachine.files.get? ["out"] = some (.dir 493) := rfl
  have hfile : blankMachine.files.get? (["out"] ++ ["h.json"]) = some (.file 0 .empty 420) := rfl
  have hleads : blankMachine.files.Leads [] "out" [["out"]] Files.maxLinks ["out"] :=
    ⟨⟨493, rfl⟩, .down ⟨by decide, by decide, by decide⟩ hdir (.here _ _)⟩
  have hfits : Files.Fits "out" "h.json" :=
    ⟨⟨by decide, by decide, by decide, by decide⟩, by decide, by decide, by decide, by decide⟩
  intro follow
  have hlocate := hleads.locate_name hfits follow (by rw [hfile]; simp)
  exact congrArg (· >>= _) hlocate

theorem isForeign_blank : blankCache.IsForeign "s" .empty := by
  have htext : (String.fromUTF8? ByteArray.empty).isSome = true := by decide +kernel
  refine ⟨htext, fun e hparse => ?_⟩
  have hno : (parse ByteArray.empty.toList).isOk = false := by decide +kernel
  rw [hparse] at hno
  cases hno

theorem get_serves_own_fresh_blank :
    blankMachine.Finds (blankCache.entryPath "h") (some (["out", "h.json"], .file 0 .empty 420)) ∧
    ∃ hit, blankMachine.runNow (blankCache.get "s") =
        (blankMachine.withFiles (blankMachine.files.erase ["out", "h.json"]), some hit) ∧
      hit.warning.isSome = true := by
  obtain ⟨m', hit, hrun, hlooks⟩ := get_serves_own_fresh blankCache blankMachine "s" _ finds_blank
    (by rintro p n ⟨⟩; rfl)
  obtain rfl := hlooks.removed _ _ _ _ rfl (Or.inl isForeign_blank)
  exact ⟨finds_blank, hit, hrun, hlooks.warned.mpr
    ⟨_, _, rfl, Or.inr ⟨_, _, _, rfl, Or.inr isForeign_blank⟩⟩⟩

/-! ## Configured ages -/

variable {a b : Nat}

/-- Within the range that is taken as configured, and beyond it, the ages keep their order. -/
theorem ageNanos_le (hab : a ≤ b) (hrange : b ≤ longestAge ∨ longestAge < a) :
    ageNanos a ≤ ageNanos b := by
  unfold ageNanos
  rcases hrange with hb | ha
  · rw [if_pos (hab.trans hb), if_pos hb]
    exact_mod_cast Nat.mul_le_mul_right _ hab
  · rw [if_neg (by omega), if_neg (by omega)]

/-- What is fresh for an age is fresh for a longer one, unless only the longer one is out of range:
then 36500 days stand for it, and what is older is stale. -/
theorem stale_for_longer_age_iff (dir dir' : String) (n n' : Nat) (hab : a ≤ b) (e : Entry)
    (now : Stamp) (hfresh : e.isStale now (ofSettings dir n a).maxAge = false) :
    e.isStale now (ofSettings dir' n' b).maxAge = true ↔
      a ≤ longestAge ∧ longestAge < b ∧ (36500 * 86400 * Duration.perSecond : Int) <
      now.since e.createdAt := by
  have hage (dir : String) (n seconds : Nat) : (ofSettings dir n seconds).maxAge =
      ageNanos seconds := rfl
  simp only [Entry.isStale, decide_eq_false_iff_not, decide_eq_true_eq, Int.not_lt,
    hage] at hfresh ⊢
  by_cases hrange : b ≤ longestAge ∨ longestAge < a
  · have hle := ageNanos_le hab hrange
    exact ⟨fun hstale => absurd (hfresh.trans hle) (Int.not_le.mpr hstale),
      fun hbetween => by omega⟩
  have hbeyond : ageNanos b = 36500 * 86400 * Duration.perSecond := by
    rw [ageNanos, if_neg (by omega)]
    rfl
  rw [hbeyond]
  exact ⟨fun hstale => ⟨by omega, by omega, hstale⟩, fun hbetween => hbetween.2.2⟩

/-- An entry of the year 1700, looked at in 2026, at the greatest age in range and at one second
more. -/
def tercentenary : Entry × Stamp := (⟨"s", "o", ⟨-8520336000, 0⟩, "h"⟩, ⟨1788000000, 0⟩)

theorem stale_for_longer_age_iff_1700 :
    tercentenary.1.isStale tercentenary.2 (ofSettings "out" 1 longestAge).maxAge = false ∧
      tercentenary.1.isStale tercentenary.2 (ofSettings "out" 1 (longestAge + 1)).maxAge = true :=
  ⟨by decide, (stale_for_longer_age_iff "out" "out" 1 1 (Nat.le_succ _) _ _ (by decide)).mpr
    (by decide)⟩

theorem longer_age_expires : ¬ ∀ (a b : Nat) (e : Entry) (now : Stamp), a ≤ b →
    e.isStale now (ofSettings "out" 1 a).maxAge = false →
    e.isStale now (ofSettings "out" 1 b).maxAge = false := by
  intro h
  have hfresh := h longestAge (longestAge + 1) tercentenary.1 tercentenary.2 (Nat.le_succ _)
    (by decide)
  exact absurd hfresh (by decide)

end Cache

end Foundry
