import Foundry.Machine.Schedule
import Foundry.Proofs.Cache.Naming
import Foundry.Proofs.Courses
import Foundry.Proofs.Time.Stamps

/-!
# The stock of a cache

What is in a cache directory is a list of entries, the oldest first. Where no file
operation fails, each operation of the cache ends with a result, and what it does to the
directory is what a simple operation does to the list.
-/

namespace Foundry

open Program List Machine Function Entry Path Kernel Stamp Files

namespace Machine

variable {α β : Type} {m m' : Machine}

/-- What comes after a program that ends at once. -/
theorem runNow_bind_of_eq {p : Program α} {a : α} (h : m.runNow p = (m', some a))
    (f : α → Program β) : m.runNow (p >>= f) = m'.runNow (f a) := by
  induction p generalizing m with
  | done b =>
    cases h
    rfl
  | call c next ih =>
    rw [bind_call, runNow]
    rw [runNow] at h
    cases hanswer : m.answer? c with
    | none =>
      rw [hanswer] at h
      cases h
    | some answered =>
      rw [hanswer] at h
      exact ih answered.2 h

end Machine

namespace Cache

variable {call : Call}
variable {α β : Type} {c : Cache} {now : Nat} {contents contents' contents'' : String →
  Option ByteArray} {x y : String} {bytes : ByteArray} {a : α} {b : β}

/-- The cache directory of a machine holds these files and nothing else. -/
def Holds (c : Cache) (m : Machine) (contents : String → Option ByteArray) : Prop :=
  ∃ dir d name, c.dir = Path.join dir name ∧ m.files.Shelf m.cwd dir d name contents

/-- On every machine whose cache directory holds the files before, a program ends at once with
the result, and the directory holds the files after it. -/
def Serves (c : Cache) (now : Nat) (before : String → Option ByteArray) (p : Program α) (result : α)
    (after : String → Option ByteArray) : Prop :=
  ∀ m : Machine, c.Holds m before → m.now = now →
    ∃ m', m.runNow p = (m', some result) ∧ c.Holds m' after ∧ m'.now = now

theorem serves_done (a : α) : c.Serves now contents (.done a) a contents :=
  fun m hm hnow => ⟨m, rfl, hm, hnow⟩

theorem Serves.bind {p : Program α} {f : α → Program β} (h : c.Serves now contents p a contents')
    (hf : c.Serves now contents' (f a) b contents'') :
    c.Serves now contents (p >>= f) b contents'' := by
  intro m hm hnow
  obtain ⟨m₁, hrun, hm₁, hnow₁⟩ := h m hm hnow
  rw [m.runNow_bind_of_eq hrun f]
  exact hf m₁ hm₁ hnow₁

theorem serves_ask {r : call.Reply} (h : ∀ m : Machine, c.Holds m contents → m.now = now →
    ∃ m', m.answer? call = some (m', r) ∧ c.Holds m' contents' ∧ m'.now = now) :
    c.Serves now contents (ask call) r contents' := by
  intro m hm hnow
  obtain ⟨m', hanswer, hrest⟩ := h m hm hnow
  exact ⟨m', by simp only [ask, runNow, hanswer], hrest⟩

/-! ## Files of the cache -/

theorem serves_today : c.Serves now contents (ask .today) (epoch.after now) contents := by
  apply serves_ask
  intro m hm hnow
  exact ⟨m, by rw [answer?, today, hnow], hm, hnow⟩

theorem serves_freshId {f : String → Program β}
    (h : ∀ id, IsHex 32 id → c.Serves now contents (f id) b contents') :
    c.Serves now contents (ask .freshId >>= f) b contents' := by
  intro m hm hnow
  have hrun : m.runNow (ask .freshId) = ({ m with kernel := m.kernel.freshId.2 },
    some m.kernel.freshId.1) := rfl
  rw [m.runNow_bind_of_eq hrun f]
  exact h _ (isHex_freshId m.kernel) _ hm hnow

theorem serves_readFile (hx : Fits c.dir x) {r : Except Cause ByteArray}
    (hr : r = match contents x with
      | some bytes => .ok bytes
      | none => .error .notFound) :
    c.Serves now contents (readFile (join c.dir x)) r contents := by
  apply serves_ask
  rintro m ⟨dir, d, name, hdir, hshelf⟩ hnow
  rw [hdir] at hx ⊢
  refine ⟨m, ?_, ⟨dir, d, name, hdir, hshelf⟩, hnow⟩
  have hread := hshelf.read hx
  cases hc : contents x with
  | none =>
    simp only [hc] at hread hr
    simp only [answer?, seeing, hread, hr]
  | some bytes =>
    simp only [hc] at hread hr
    simp only [answer?, seeing, hread, hr]

/-- A change of files that succeeds. -/
theorem serves_changing (op : Files → Place → Except Cause Files) {r : call.Reply}
    (hcall : ∀ (m : Machine) files, op m.files m.cwd = .ok files →
    m.answer? call = some (m.withFiles files, r))
    (h : ∀ fs cwd dir d name, c.dir = join dir name → Shelf fs cwd dir d name contents →
    ∃ fs', op fs cwd = .ok fs' ∧ fs'.Shelf cwd dir d name contents') :
    c.Serves now contents (ask call) r contents' := by
  apply serves_ask
  rintro m ⟨dir, d, name, hdir, hshelf⟩ hnow
  obtain ⟨fs', hop, hshelf'⟩ := h _ _ dir d name hdir hshelf
  exact ⟨m.withFiles fs', hcall m fs' hop, ⟨dir, d, name, hdir, hshelf'⟩, hnow⟩

theorem serves_writeFile (hx : Fits c.dir x) (bytes : ByteArray) :
    c.Serves now contents (ask (.writeFile (join c.dir x) bytes)) (.ok ())
    (update contents x (some bytes)) := by
  apply serves_changing fun fs cwd => fs.write cwd (join c.dir x) bytes
  · intro m files hop
    simp only [answer?, changing, hop]
  intro fs cwd dir d name hdir hshelf
  rw [hdir] at hx ⊢
  exact hshelf.write hx bytes

theorem serves_removeFile (hx : Fits c.dir x) (hc : contents x = some bytes) :
    c.Serves now contents (ask (.removeFile (join c.dir x))) (.ok ()) (update contents x none) := by
  apply serves_changing fun fs cwd => fs.removeFile cwd (join c.dir x)
  · intro m files hop
    simp only [answer?, changing, hop]
  intro fs cwd dir d name hdir hshelf
  rw [hdir] at hx ⊢
  exact hshelf.remove hx hc

theorem serves_rename (hx : Fits c.dir x) (hy : Fits c.dir y) (hne : x ≠ y)
    (hc : contents x = some bytes) :
    c.Serves now contents (ask (.rename (join c.dir x) (join c.dir y))) (.ok ())
    (update (update contents x none) y (some bytes)) := by
  apply serves_changing fun fs cwd => fs.rename cwd (join c.dir x) (join c.dir y)
  · intro m files hop
    simp only [answer?, changing, hop]
  intro fs cwd dir d name hdir hshelf
  rw [hdir] at hx hy ⊢
  exact hshelf.rename hx hy hne hc

theorem serves_makeDirs : c.Serves now contents (ask (.makeDirs c.dir)) (.ok ()) contents := by
  apply serves_ask
  rintro m ⟨dir, d, name, hdir, hshelf⟩ hnow
  refine ⟨m, ?_, ⟨dir, d, name, hdir, hshelf⟩, hnow⟩
  rw [hdir, answer?, changingPartly, hshelf.makeDirs]
  rfl

/-- The names in the directory come in some order, each of them once. -/
theorem serves_listDir {f : Except Cause (List String) → Program β}
    (h : ∀ names : List String, names.Nodup → (∀ x, x ∈ names ↔ (contents x).isSome = true) →
    c.Serves now contents (f (.ok names)) b contents') :
    c.Serves now contents (ask (.listDir c.dir) >>= f) b contents' := by
  intro m hm hnow
  obtain ⟨dir, d, name, hdir, hshelf⟩ := id hm
  obtain ⟨names, hlist, hnodup, hmem⟩ := hshelf.list
  have hrun : m.runNow (ask (.listDir c.dir)) = (m, some (.ok names)) := by
    rw [hdir]
    simp only [ask, runNow, answer?, seeing, hlist]
  rw [m.runNow_bind_of_eq hrun f]
  exact h names hnodup hmem m hm hnow

theorem serves_discard (hx : Fits c.dir x) (hc : contents x = some bytes) :
    c.Serves now contents (discard (join c.dir x)) none (update contents x none) :=
  (serves_removeFile hx hc).bind (serves_done _)

/-! Steps that could end in a fault, and do not. -/

theorem Serves.orFault {p : Program (Except Cause α)} (context : String)
    (h : c.Serves now contents p (.ok a) contents') :
    c.Serves now contents (orFault context p).run (.ok a) contents' :=
  h.bind (serves_done _)

theorem Serves.action_bind {p : Action α} {f : α → Action β} {b : Except Fault β}
    (h : c.Serves now contents p.run (.ok a) contents')
    (hf : c.Serves now contents' (f a).run b contents'') :
    c.Serves now contents (p >>= f).run b contents'' := by
  rw [Action.run_bind]
  exact h.bind hf

/-- A directory that is removed and made again is empty. -/
theorem serves_clear : c.Serves now contents c.clear.run (.ok ()) fun _ => none := by
  rintro m ⟨dir, d, name, hdir, hshelf⟩ hnow
  obtain ⟨fs', fs'', hremoved, hmade, hshelf'⟩ := hshelf.clear
  refine ⟨m.withFiles fs'', ?_, ⟨dir, d, name, hdir, hshelf'⟩, hnow⟩
  have hgone : m.runNow (ask (.removeTree c.dir)) = (m.withFiles fs', some (.ok ())) := by
    simp only [ask, runNow, answer?, changingPartly, hdir, hremoved]
  have hagain : (m.withFiles fs').runNow (ask (.makeDirs c.dir)) =
      (m.withFiles fs'', some (.ok ())) := by
    have hfiles : (m.withFiles fs').files = fs' := rfl
    have hcwd : (m.withFiles fs').cwd = m.cwd := rfl
    simp only [ask, runNow, answer?, changingPartly, hdir, hfiles, hcwd, hmade]
    rfl
  have hrun : c.clear.run = ask (.removeTree c.dir) >>= fun r => _ := ExceptT.run_bind_lift _ _
  rw [hrun, runNow_bind_of_eq hgone]
  exact runNow_bind_of_eq hagain _

end Cache

/-! ## Entries and their files -/

namespace Entry

def bytes (e : Entry) : ByteArray := e.toJson.pretty.toUTF8

/-- An entry with a time that can be written is read back. -/
theorem parse_bytes {e : Entry} (h : e.createdAt.IsRegular) : parse e.bytes.toList = .ok e := by
  obtain ⟨rest, hread⟩ := e.read_pretty
  rw [bytes, parse, Json.document, hread, parse_text h]
  rfl

end Entry

namespace Cache

variable {x : String} {contents : String → Option ByteArray}

/-- An entry of the years 0 to 9999 survives the disk: it is read from the text that storing it
writes to a draft and moves to its path. -/
theorem stored_entry_reads_back (c : Cache) (e : Entry)
    (hnanos : e.createdAt.nanos < Duration.perSecond)
    (hfirst : 0 ≤ e.createdAt.year) (hlast : e.createdAt.year ≤ 9999) :
    Entry.parse e.toJson.pretty.toUTF8.toList = .ok e ∧
      ∀ es, Course (c.writeEntry e).run es (.ok ()) → ∃ draft,
        ⟨.writeFile draft e.toJson.pretty.toUTF8, .ok ()⟩ ∈ es ∧
          ⟨.rename draft (c.entryPath e.hash), .ok ()⟩ ∈ es := by
  have hregular : e.createdAt.IsRegular :=
    ⟨hnanos, hfirst.trans' (by decide), hlast.trans (by decide)⟩
  refine ⟨Entry.parse_bytes hregular, fun es h => ?_⟩
  obtain ⟨made, rest₁, _, rfl, -, hrest₁⟩ | ⟨_, ⟨⟩, -⟩ := Action.course_bind.mp h
  obtain ⟨id, rest₂, rfl, hrest₂⟩ := Action.course_ask_bind.mp hrest₁
  obtain ⟨written, rest₃, _, rfl, hwritten, hrest₃⟩ | ⟨_, ⟨⟩, -⟩ := Action.course_bind.mp hrest₂
  obtain ⟨_ | _, hwrite, ⟨⟩⟩ := Action.course_orFail.mp hwritten
  obtain rfl := course_ask.mp hwrite
  obtain ⟨moved, rest₄, rfl, hrest₄⟩ := Action.course_ask_bind.mp hrest₃
  cases moved with
  | ok _ => exact ⟨c.draftPath e.hash id, by simp, by simp⟩
  | error _ =>
    obtain ⟨_, rest₅, rfl, hrest₅⟩ := Action.course_ask_bind.mp hrest₄
    cases (Action.course_throw.mp hrest₅).2

/-- The last nanosecond of the year 9999, and texts with all that has to be escaped. -/
theorem stored_entry_reads_back_last :
    let e : Entry := ⟨"\"\\/\x00\x1f\n\r\t\x7f", "😀 ", ⟨253402300799, 999999999⟩, ""⟩
    Entry.parse e.toJson.pretty.toUTF8.toList = .ok e :=
  (stored_entry_reads_back ⟨"", 0, 0, fun _ => ""⟩ _ (by decide) (by decide) (by decide)).1

variable {c : Cache} {now : Nat} {live : List Entry} {e : Entry} {hash source output : String}
  {a b : String × Stamp}

/-- The files of a list of entries. -/
def shelved (live : List Entry) (x : String) : Option ByteArray :=
  (live.find? fun e => fileName e.hash = x).map Entry.bytes

theorem isSome_shelved : (shelved live x).isSome = true ↔ ∃ e ∈ live, fileName e.hash = x := by
  simp [shelved]

/-- Entries of a directory: of different hashes, the older ones first. -/
structure WellKept (live : List Entry) : Prop where
  apart : live.Pairwise fun a b => a.hash ≠ b.hash
  dated : live.Pairwise fun a b => a.createdAt.lt b.createdAt = true
  regular : ∀ e ∈ live, e.createdAt.IsRegular
  isHex : ∀ e ∈ live, IsHex 64 e.hash

theorem WellKept.sublist {live' : List Entry} (h : WellKept live) (hsub : live'.Sublist live) :
    WellKept live' :=
  ⟨h.apart.sublist hsub, h.dated.sublist hsub, fun e he => h.regular e (hsub.subset he),
    fun e he => h.isHex e (hsub.subset he)⟩

/-- The entry that is filed under a hash. -/
def filed? (live : List Entry) (hash : String) : Option Entry := live.find? fun e => e.hash = hash

theorem shelved_fileName (live : List Entry) (hash : String) :
    shelved live (fileName hash) = (filed? live hash).map bytes := by
  simp only [shelved, filed?, fileName_inj]

/-- In a list of different hashes, an entry is the one filed under its hash. -/
theorem filed?_of_mem (h : live.Pairwise fun a b => a.hash ≠ b.hash) (he : e ∈ live) :
    filed? live e.hash = some e := by
  induction live with
  | nil => cases he
  | cons a rest ih =>
    obtain ⟨hne, hrest⟩ := pairwise_cons.mp h
    unfold filed? at ih ⊢
    rw [find?_cons]
    rcases mem_cons.mp he with rfl | hmem
    · simp
    rw [decide_eq_false (hne e hmem)]
    exact ih hrest hmem

theorem filed?_spec (h : filed? live hash = some e) : e ∈ live ∧ e.hash = hash :=
  ⟨mem_of_find?_eq_some h, by simpa using find?_some h⟩

/-- All but what is filed under a hash. -/
def without (live : List Entry) (hash : String) : List Entry := live.filter fun e => e.hash ≠ hash

theorem shelved_without (live : List Entry) (hash : String) :
    shelved (without live hash) = update (shelved live) (fileName hash) none := by
  funext x
  by_cases hx : x = fileName hash
  · subst hx
    rw [update_self, shelved_fileName, filed?, without, find?_filter]
    simp
  · rw [update_of_ne hx, shelved, shelved, without, find?_filter]
    congr 2
    funext e
    by_cases hname : fileName e.hash = x
    · have hne : e.hash ≠ hash := by
        rintro rfl
        exact hx hname.symm
      simp [hname, hne]
    · simp [hname]

/-- A new entry takes the place of the one with its hash. -/
def stored (live : List Entry) (e : Entry) : List Entry := without live e.hash ++ [e]

theorem shelved_stored (live : List Entry) (e : Entry) :
    shelved (stored live e) = update (shelved live) (fileName e.hash) (some e.bytes) := by
  have happend (x : String) : shelved (stored live e) x =
      (shelved (without live e.hash) x).or (shelved [e] x) := by
    simp [shelved, stored, Option.map_or]
  funext x
  rw [happend, shelved_without]
  by_cases hx : x = fileName e.hash
  · subst hx
    simp [shelved]
  have hother : shelved [e] x = none := by
    simp [shelved, Ne.symm hx]
  rw [update_of_ne hx, update_of_ne hx, hother, Option.or_none]

/-! ## The order of eviction -/

theorem precedes_iff : precedes a b = true ↔ a.2.lt b.2 = true ∨ a.2 = b.2 ∧ a.1 ≤ b.1 := by
  simp [precedes]

theorem precedes_trans (a b d : String × Stamp) (hab : precedes a b = true)
    (hbd : precedes b d = true) : precedes a d = true := by
  rw [precedes_iff] at *
  rcases hab with hab | ⟨hab, hle⟩
  · rcases hbd with hbd | ⟨hbd, -⟩
    · exact .inl (lt_trans hab hbd)
    · exact .inl (hbd ▸ hab)
  · rcases hbd with hbd | ⟨hbd, hle'⟩
    · exact .inl (hab ▸ hbd)
    · exact .inr ⟨hab.trans hbd, String.le_trans hle hle'⟩

theorem precedes_total (a b : String × Stamp) : (precedes a b || precedes b a) = true := by
  rw [Bool.or_eq_true, precedes_iff, precedes_iff]
  rcases lt_or_eq_or_lt a.2 b.2 with hlt | heq | hlt
  · exact .inl (.inl hlt)
  · rcases String.le_total a.1 b.1 with hle | hle
    · exact .inl (.inr ⟨heq, hle⟩)
    · exact .inr (.inr ⟨heq.symm, hle⟩)
  · exact .inr (.inl hlt)

theorem precedes_antisymm (hab : precedes a b = true) (hba : precedes b a = true) : a = b := by
  rw [precedes_iff] at hab hba
  rcases hab with hab | ⟨hab, hle⟩
  · rcases hba with hba | ⟨hba, -⟩
    · rw [lt_asymm hab] at hba
      cases hba
    rw [hba, lt_irrefl] at hab
    cases hab
  · rcases hba with hba | ⟨-, hle'⟩
    · rw [hab, lt_irrefl] at hba
      cases hba
    · exact Prod.ext (String.le_antisymm hle hle') hab

/-- The name and the time under which an entry is listed. -/
def listing (e : Entry) : String × Stamp := (fileName e.hash, e.createdAt)

/-- In whatever order the entries are listed, they sort by their age. -/
theorem mergeSort_listing (hlive : WellKept live) {entries : List (String × Stamp)}
    (hperm : entries.Perm (live.map listing)) : entries.mergeSort precedes = live.map listing := by
  refine Perm.eq_of_pairwise (fun a b _ _ => precedes_antisymm)
    (pairwise_mergeSort precedes_trans precedes_total entries) ?_ ((mergeSort_perm _ _).trans hperm)
  rw [pairwise_map]
  exact hlive.dated.imp fun hlt => precedes_iff.mpr (.inl hlt)

/-- The time that a reader takes from the file of this name. -/
def dateOn (live : List Entry) (x : String) : Stamp :=
  ((live.find? fun e => fileName e.hash = x).map Entry.createdAt).getD Stamp.earliest

theorem find?_fileName (hlive : WellKept live) (he : e ∈ live) :
    (live.find? fun a => fileName a.hash = fileName e.hash) = some e := by
  simp only [fileName_inj]
  exact filed?_of_mem hlive.apart he

/-- The names of the files, in whatever order, are listed with the times of their entries. -/
theorem perm_listing (hlive : WellKept live) {names : List String} (hnodup : names.Nodup)
    (hmem : ∀ x, x ∈ names ↔ (shelved live x).isSome = true) :
    (names.map fun x => (x, dateOn live x)).Perm (live.map listing) := by
  have hfiles : names.Perm (live.map fun e => fileName e.hash) := by
    rw [perm_ext_iff_of_nodup hnodup]
    · intro x
      rw [hmem, isSome_shelved, mem_map]
    rw [Nodup, pairwise_map]
    exact hlive.apart.imp fun hne heq => hne (fileName_inj.mp heq)
  have hdates : (live.map fun e => fileName e.hash).map (fun x => (x, dateOn live x)) =
      live.map listing := by
    rw [map_map]
    apply map_congr_left
    intro e he
    simp [comp, listing, dateOn, find?_fileName hlive he]
  rw [← hdates]
  exact hfiles.map _

/-! ## Operations -/

theorem serves_readTextFile_some {text : String} (hx : Fits c.dir x)
    (hc : contents x = some text.toUTF8) :
    c.Serves now contents (readTextFile (join c.dir x)) (.ok text) contents := by
  have hread : c.Serves now contents (readFile (join c.dir x)) (.ok text.toUTF8) contents :=
    serves_readFile hx (by rw [hc])
  refine hread.bind ?_
  dsimp only
  rw [fromUTF8?_toUTF8]
  exact serves_done _

theorem serves_readTextFile_none (hx : Fits c.dir x) (hc : contents x = none) :
    c.Serves now contents (readTextFile (join c.dir x)) (.error .notFound) contents := by
  have hread : c.Serves now contents (readFile (join c.dir x)) (.error .notFound) contents :=
    serves_readFile hx (by rw [hc])
  exact hread.bind (serves_done _)

/-- What a look finds in the stock, and what it leaves of it. -/
def found (c : Cache) (now : Nat) (live : List Entry) (source : String) :
    Option String × List Entry :=
  match filed? live (c.hash source) with
  | none => (none, live)
  | some e =>
    if e.source = source ∧ e.isStale (Kernel.epoch.after now) c.maxAge = false then
      (some e.output, live)
    else (none, without live (c.hash source))

section Operations

variable (hdir : IsRoomy c.dir) (hlive : WellKept live)
include hdir hlive

/-- The file of an entry is read as that entry. -/
theorem serves_read_filed (hfiled : filed? live hash = some e) :
    c.Serves now (shelved live) (readTextFile (c.entryPath hash)) (.ok e.toJson.pretty)
    (shelved live) := by
  obtain ⟨hmem, rfl⟩ := filed?_spec hfiled
  apply serves_readTextFile_some (fits_fileName hdir (hlive.isHex e hmem))
  rw [shelved_fileName, hfiled]
  rfl

theorem serves_discard_filed (hfiled : filed? live hash = some e) :
    c.Serves now (shelved live) (discard (c.entryPath hash)) none
    (shelved (without live hash)) := by
  obtain ⟨hmem, rfl⟩ := filed?_spec hfiled
  rw [shelved_without]
  apply serves_discard (fits_fileName hdir (hlive.isHex e hmem))
  rw [shelved_fileName, hfiled]
  rfl

theorem serves_get (hhash : ∀ text, IsHex 64 (c.hash text)) (source : String) :
    ∃ warning, c.Serves now (shelved live) (c.get source)
    ⟨(c.found now live (Text.trim source)).1, warning⟩
    (shelved (c.found now live (Text.trim source)).2) := by
  unfold get found
  generalize Text.trim source = text
  cases hfiled : filed? live (c.hash text) with
  | none =>
    have hmissing : shelved live (fileName (c.hash text)) = none := by
      rw [shelved_fileName, hfiled]
      rfl
    exact ⟨none,
      (serves_readTextFile_none (fits_fileName hdir (hhash text)) hmissing).bind (serves_done _)⟩
  | some e =>
    obtain ⟨hmem, hhashed⟩ := filed?_spec hfiled
    have hread : c.Serves now (shelved live) (readTextFile (c.entryPath (c.hash text)))
      (.ok e.toJson.pretty) (shelved live) := serves_read_filed hdir hlive hfiled
    have hparse : parse e.toJson.pretty.toUTF8.toList = .ok e := parse_bytes (hlive.regular e hmem)
    have hremove : c.Serves now (shelved live) (discard (c.entryPath (c.hash text))) none
      (shelved (without live (c.hash text))) := serves_discard_filed hdir hlive hfiled
    by_cases hsource : e.source = text
    · have hfor : e.isFor text (c.hash text) = true := by simp [isFor, hsource, hhashed]
      cases hstale : e.isStale (epoch.after now) c.maxAge with
      | false =>
        refine ⟨none, hread.bind ?_⟩
        simp only [hparse, hfor, hsource, Bool.not_true, Bool.false_eq_true, if_false, true_and]
        apply serves_today.bind
        simp only [hstale, Bool.false_eq_true, if_false]
        exact serves_done _
      | true =>
        refine ⟨none, hread.bind ?_⟩
        simp only [hparse, hfor, hsource, Bool.not_true, Bool.false_eq_true, if_false, true_and]
        apply serves_today.bind
        simp only [hstale, if_true]
        exact hremove.bind (serves_done _)
    · have hfor : e.isFor text (c.hash text) = false := by simp [isFor, hsource]
      refine ⟨joinWarnings (some s!"discarding cache entry {c.hash text} with mismatched source")
        none, hread.bind ?_⟩
      simp only [hparse, hfor, hsource, Bool.not_false, if_true, false_and, if_false]
      exact hremove.bind (serves_done _)

omit hlive in
/-- A draft takes the place of the entry before it. -/
theorem serves_writeEntry (he : IsHex 64 e.hash) :
    c.Serves now (shelved live) (c.writeEntry e).run (.ok ()) (shelved (stored live e)) := by
  refine Serves.action_bind (serves_makeDirs.orFault _) ?_
  have hlift (f : String → Action Unit) :
      ((liftM (ask .freshId) : Action String) >>= f).run = ask .freshId >>= fun id => (f id).run :=
    ExceptT.run_bind_lift _ _
  rw [hlift]
  apply serves_freshId
  intro id hid
  have hdraft : Fits c.dir (draftName e.hash id) := fits_draftName hdir he hid
  have hfile : Fits c.dir (fileName e.hash) := fits_fileName hdir he
  have hfree : shelved live (draftName e.hash id) = none := by
    rw [← Option.not_isSome_iff_eq_none, isSome_shelved]
    rintro ⟨other, -, heq⟩
    exact draftName_ne_fileName e.hash id other.hash heq.symm
  have hnew : shelved (stored live e) = update (update
      (update (shelved live) (draftName e.hash id) (some e.bytes)) (draftName e.hash id) none)
      (fileName e.hash) (some e.bytes) := by
    rw [shelved_stored, update_idem, ← hfree, update_eq_self]
  refine Serves.action_bind ((serves_writeFile hdraft e.bytes).orFault _) ?_
  have hrename : c.Serves now (update (shelved live) (draftName e.hash id) (some e.bytes))
      (ask (.rename (c.draftPath e.hash id) (c.entryPath e.hash))) (.ok ())
        (shelved (stored live e)) := by
    rw [hnew]
    exact serves_rename hdraft hfile (draftName_ne_fileName _ _ _) (update_self ..)
  exact hrename.bind (serves_done _)

theorem serves_datedNames {names : List String}
    (hnames : ∀ x ∈ names, ∃ e ∈ live, fileName e.hash = x) :
    c.Serves now (shelved live) (c.datedNames names) (names.map fun x => (x, dateOn live x))
    (shelved live) := by
  induction names with
  | nil => exact serves_done _
  | cons x rest ih =>
    obtain ⟨e, hmem, rfl⟩ := hnames x mem_cons_self
    have hfiled := filed?_of_mem hlive.apart hmem
    have hparse : parse e.toJson.pretty.toUTF8.toList = .ok e := parse_bytes (hlive.regular e hmem)
    have hdate : dateOn live (fileName e.hash) = e.createdAt := by
      rw [dateOn, find?_fileName hlive hmem]
      rfl
    have hcreation : c.Serves now (shelved live) (creation (join c.dir (fileName e.hash)))
        (dateOn live (fileName e.hash)) (shelved live) := by
      refine (serves_read_filed hdir hlive hfiled).bind ?_
      simp only [hparse, hdate]
      exact serves_done _
    have hrest := ih fun y hy => hnames y (mem_cons_of_mem _ hy)
    exact hcreation.bind (hrest.bind (serves_done _))

omit hlive in
/-- The files of the first entries are removed one after another. -/
theorem serves_discardAll {gone rest : List Entry} (hlive : WellKept (gone ++ rest)) :
    c.Serves now (shelved (gone ++ rest)) (c.discardAll (gone.map fun e => fileName e.hash))
    ⟨gone.length, none⟩ (shelved rest) := by
  induction gone with
  | nil => exact serves_done _
  | cons e more ih =>
    obtain ⟨hne, -⟩ := pairwise_cons.mp hlive.apart
    have hfiled : filed? (e :: more ++ rest) e.hash = some e :=
      filed?_of_mem hlive.apart mem_cons_self
    have hleft : without (e :: more ++ rest) e.hash = more ++ rest := by
      rw [cons_append, without, filter_cons_of_neg (by simp), filter_eq_self]
      intro a ha
      simpa using (hne a ha).symm
    have hremove : c.Serves now (shelved (e :: more ++ rest)) (discard (c.entryPath e.hash)) none
        (shelved (more ++ rest)) := by
      rw [← hleft]
      exact serves_discard_filed hdir hlive hfiled
    have hmore := ih (hlive.sublist (sublist_cons_self _ _))
    have hcount : (e :: more).length = 1 + more.length := by rw [length_cons, Nat.add_comm]
    rw [hcount]
    exact hremove.bind (hmore.bind (serves_done _))

/-- The stock cut down to the budget: the oldest entries go. -/
def kept (c : Cache) (live : List Entry) : List Entry := live.drop (live.length - c.maxEntries)

theorem serves_evict :
    c.Serves now (shelved live) c.evict ⟨(live.take (live.length - c.maxEntries)).length, none⟩
    (shelved (c.kept live)) := by
  unfold evict Cache.list
  rw [bind_assoc]
  apply serves_listDir
  intro names hnodup hmem
  have hfiles : ∀ x ∈ names, ∃ e ∈ live, fileName e.hash = x := fun x hx =>
    isSome_shelved.mp ((hmem x).mp hx)
  have hentries : names.filter isEntryName = names := by
    rw [filter_eq_self]
    intro x hx
    obtain ⟨e, he, rfl⟩ := hfiles x hx
    exact isEntryName_fileName (hlive.isHex e he)
  have hperm := perm_listing hlive hnodup hmem
  have hexcess : (((names.map fun x => (x, dateOn live x)).mergeSort precedes).take
      ((names.map fun x => (x, dateOn live x)).length - c.maxEntries)).map (·.1) =
      (live.take (live.length - c.maxEntries)).map fun e => fileName e.hash := by
    rw [mergeSort_listing hlive hperm, hperm.length_eq, length_map, ← map_take, map_map]
    rfl
  dsimp only
  rw [hentries]
  refine Serves.bind (Serves.bind (serves_datedNames hdir hlive hfiles) (serves_done _)) ?_
  dsimp only
  rw [hexcess]
  have hsplit := take_append_drop (live.length - c.maxEntries) live
  have hremove : c.Serves now
      (shelved (live.take (live.length - c.maxEntries) ++ live.drop (live.length - c.maxEntries)))
      (c.discardAll ((live.take (live.length - c.maxEntries)).map fun e => fileName e.hash))
      ⟨(live.take (live.length - c.maxEntries)).length, none⟩ (shelved (c.kept live)) :=
    serves_discardAll hdir (hsplit.symm ▸ hlive)
  rwa [hsplit] at hremove

end Operations

theorem apart_stored (h : live.Pairwise fun a b => a.hash ≠ b.hash) (e : Entry) :
    (stored live e).Pairwise fun a b => a.hash ≠ b.hash := by
  refine pairwise_append.mpr ⟨h.sublist filter_sublist, pairwise_singleton _ _, ?_⟩
  intro a ha b hb
  rw [mem_singleton.mp hb]
  simpa using (mem_filter.mp ha).2

theorem mem_stored {a : Entry} : a ∈ stored live e ↔ a ∈ live ∧ a.hash ≠ e.hash ∨ a = e := by
  simp [stored, without]

theorem WellKept.stored (h : WellKept live) (holder : ∀ a ∈ live, a.createdAt.lt e.createdAt = true)
    (hregular : e.createdAt.IsRegular) (hhex : IsHex 64 e.hash) : WellKept (stored live e) := by
  refine ⟨apart_stored h.apart e, ?_, ?_, ?_⟩
  · refine pairwise_append.mpr ⟨h.dated.sublist filter_sublist, pairwise_singleton _ _, ?_⟩
    intro a ha b hb
    rw [mem_singleton.mp hb]
    exact holder a (mem_filter.mp ha).1
  · intro a ha
    rcases mem_stored.mp ha with ⟨ha, -⟩ | rfl
    · exact h.regular a ha
    · exact hregular
  · intro a ha
    rcases mem_stored.mp ha with ⟨ha, -⟩ | rfl
    · exact h.isHex a ha
    · exact hhex

/-- A new entry is stored, and then the oldest ones beyond the budget go. -/
theorem serves_put (hdir : IsRoomy c.dir)
    (hlive : WellKept (stored live (.ofOutput c.hash (epoch.after now) source output))) :
    c.Serves now (shelved live) (c.put source output) ⟨(), none⟩
    (shelved (c.kept (stored live (.ofOutput c.hash (epoch.after now) source output)))) := by
  refine serves_today.bind ?_
  have hnew : ofOutput c.hash (epoch.after now) source output ∈
      stored live (.ofOutput c.hash (epoch.after now) source output) :=
    mem_append_right _ mem_cons_self
  refine (serves_writeEntry hdir (hlive.isHex _ hnew)).bind ?_
  exact (serves_evict hdir hlive).bind (serves_done _)

end Cache

end Foundry
