import Foundry.Proofs.Cache.Lookup
import Foundry.Proofs.Files.Removal

/-!
# Keeping to the budget

Eviction ranks whatever has an entry's name by the time of its entry, where what holds no
entry counts as the oldest, and removes from the front of the ranking what is beyond the
budget. What cannot be removed stays, is not counted and is warned of.
-/

namespace Foundry

open Program List Machine Files

/-- The entry that a path leads to. -/
def Machine.entryAt? (m : Machine) (path : String) : Option Entry :=
  (m.textAt path).toOption.bind fun text => (Entry.parse text.toUTF8.toList).toOption

namespace Cache

variable {c : Cache} {m : Machine} {x y : String} {names : List String} {gone order : List String}

/-- When the entry at an item of the cache directory was made. -/
def dateAt (c : Cache) (m : Machine) (x : String) : Stamp :=
  ((m.entryAt? (Path.join c.dir x)).map Entry.createdAt).getD Stamp.earliest

/-- The items of the cache directory that have an entry's name. -/
def entryNames (c : Cache) (m : Machine) : List String :=
  ((m.files.list m.cwd c.dir).toOption.getD []).filter isEntryName

def isRemovable (c : Cache) (m : Machine) (x : String) : Bool :=
  (m.files.removeFile m.cwd (Path.join c.dir x)).isOk

/-! ## Looking through the directory -/

theorem runNow_creation (c : Cache) (m : Machine) (x : String) :
    m.runNow (creation (Path.join c.dir x)) = (m, some (c.dateAt m x)) := by
  rw [creation, runNow_bind_of_eq (m.runNow_readTextFile _), dateAt, entryAt?]
  cases m.textAt (Path.join c.dir x) with
  | error e => rfl
  | ok text =>
    simp only [Except.toOption, Option.bind_some]
    cases Entry.parse text.toUTF8.toList <;> rfl

theorem runNow_datedNames (c : Cache) (m : Machine) (names : List String) :
    m.runNow (c.datedNames names) = (m, some (names.map fun x => (x, c.dateAt m x))) := by
  induction names with
  | nil => rfl
  | cons x rest ih =>
    rw [datedNames, runNow_bind_of_eq (runNow_creation c m x), runNow_bind_of_eq ih]
    rfl

/-- A directory that can be listed is listed with the times of its entries. -/
theorem runNow_list (h : m.files.list m.cwd c.dir = .ok names) :
    m.runNow c.list = (m, some (.ok ((c.entryNames m).map fun x => (x, c.dateAt m x)))) := by
  have hentries : c.entryNames m = names.filter isEntryName := by
    rw [entryNames, h]
    rfl
  have hask : m.runNow (ask (.listDir c.dir)) = (m, some (.ok names)) := by
    simp only [ask, runNow, answer?, seeing, h]
  rw [Cache.list, runNow_bind_of_eq hask, hentries]
  rw [runNow_bind_of_eq (runNow_datedNames c m _)]
  rfl

theorem runNow_list_error {e : Cause} (h : m.files.list m.cwd c.dir = .error e) :
    m.runNow c.list = (m, some (if isMissing e then .ok [] else .error e)) := by
  have hask : m.runNow (ask (.listDir c.dir)) = (m, some (.error e)) := by
    simp only [ask, runNow, answer?, seeing, h]
  rw [Cache.list, runNow_bind_of_eq hask]
  rfl

/-! ## The ranking -/

/-- One item is evicted before another: it is older, or as old and of a lesser name. -/
def Older (c : Cache) (m : Machine) (x y : String) : Prop :=
  (c.dateAt m x).lt (c.dateAt m y) = true ∨ c.dateAt m x = c.dateAt m y ∧ x < y

/-- The entries of the directory in the order in which they are evicted. -/
structure Ranking (c : Cache) (m : Machine) (order : List String) : Prop where
  perm : order.Perm (c.entryNames m)
  sorted : order.Pairwise (c.Older m)

/-- The ranking that the evicting makes. -/
def ranked (c : Cache) (m : Machine) : List String :=
  (((c.entryNames m).map fun x => (x, c.dateAt m x)).mergeSort precedes).map Prod.fst

theorem ranking_ranked (hnodup : (c.entryNames m).Nodup) : c.Ranking m (c.ranked m) := by
  have hperm : (((c.entryNames m).map fun x => (x, c.dateAt m x)).mergeSort precedes).Perm
      ((c.entryNames m).map fun x => (x, c.dateAt m x)) := mergeSort_perm _ _
  have hnames : (c.ranked m).Perm (c.entryNames m) := by
    have hfst : ((c.entryNames m).map fun x => (x, c.dateAt m x)).map Prod.fst =
        c.entryNames m := by
      simp [Function.comp_def]
    exact hfst ▸ hperm.map Prod.fst
  refine ⟨hnames, ?_⟩
  have hsorted := pairwise_mergeSort precedes_trans precedes_total
    ((c.entryNames m).map fun x => (x, c.dateAt m x))
  have hapart : (c.ranked m).Nodup := hnames.nodup_iff.mpr hnodup
  rw [ranked, List.Nodup, pairwise_map] at hapart
  rw [ranked, pairwise_map]
  refine (hsorted.and hapart).imp_of_mem ?_
  rintro a b ha hb ⟨hle, hne⟩
  obtain ⟨x, -, rfl⟩ := mem_map.mp (hperm.mem_iff.mp ha)
  obtain ⟨y, -, rfl⟩ := mem_map.mp (hperm.mem_iff.mp hb)
  rcases precedes_iff.mp hle with hlt | ⟨heq, hle⟩
  · exact .inl hlt
  exact .inr ⟨heq,
    Classical.byContradiction fun hlt => hne (String.le_antisymm hle (String.not_lt.mp hlt))⟩

/-! ## Removing what is beyond the budget -/

variable {way : List Place} {links : Nat} {d : Place}

theorem isRemovable_iff (hleads : m.files.Leads m.cwd c.dir way links d)
    (hx : m.files.Loose d way x) : c.isRemovable m x = true ↔
    Files.Nameable (Path.join c.dir x) ∧ ∀ mode, m.files.get? (d ++ [x]) ≠ some (.dir mode) := by
  rcases hleads.removeFile_name hx with ⟨hpath, hdir, hremove⟩ | ⟨hnot, e, -, hremove⟩
  · rw [isRemovable, hremove]
    exact ⟨fun _ => ⟨hpath, hdir⟩, fun _ => rfl⟩
  rw [isRemovable, hremove]
  exact ⟨fun hno => Bool.noConfusion hno, fun hboth => absurd hboth hnot⟩

/-- Whether an item can be removed does not depend on the others. -/
theorem isRemovable_without (hleads : m.files.Leads m.cwd c.dir way links d)
    (hgone : ∀ x ∈ gone, m.files.Loose d way x ∧ ∀ mode, m.files.get? (d ++ [x]) ≠ some (.dir mode))
    (hy : m.files.Loose d way y) (hfresh : y ∉ gone) :
    c.isRemovable (m.withFiles (m.files.without d gone)) y = c.isRemovable m y := by
  have hafter : c.isRemovable (m.withFiles (m.files.without d gone)) y = true ↔ _ :=
    isRemovable_iff (m := m.withFiles (m.files.without d gone)) (hleads.without hgone)
      (hy.without hfresh)
  rw [Bool.eq_iff_iff, hafter, isRemovable_iff hleads hy]
  simp only [withFiles, get?_without_name hfresh]

/-- Items are removed one after another; those that cannot be are left and warned of. -/
theorem runNow_discardAll (hleads : m.files.Leads m.cwd c.dir way links d) (hnodup : names.Nodup)
    (hloose : ∀ x ∈ names, m.files.Loose d way x) : ∃ warning, m.runNow (c.discardAll names) =
    (m.withFiles (m.files.without d (names.filter (c.isRemovable m))),
    some ⟨(names.filter (c.isRemovable m)).length, warning⟩) ∧
    (warning.isSome = true ↔ ∃ x ∈ names, c.isRemovable m x = false) := by
  induction names generalizing m with
  | nil =>
    have hnone : m.files.without d [] = m.files := Files.eraseAll_nil _
    exact ⟨none, by simp [discardAll, runNow, hnone, withFiles], by simp⟩
  | cons x rest ih =>
    obtain ⟨hx, hrest⟩ := forall_mem_cons.mp hloose
    obtain ⟨hfresh, hnodup⟩ := nodup_cons.mp hnodup
    rcases hleads.removeFile_name hx with ⟨hpath, hdir, hremove⟩ | ⟨-, e, hne, hremove⟩
    · have hyes : c.isRemovable m x = true := by rw [isRemovable, hremove]; rfl
      have hgone : m.files.erase (d ++ [x]) = m.files.without d [x] := by
        rw [Files.without, map_singleton, Files.eraseAll_cons, Files.eraseAll_nil]
      rw [hgone] at hremove
      have hloose : ∀ y ∈ [x], m.files.Loose d way y ∧
          ∀ mode, m.files.get? (d ++ [y]) ≠ some (.dir mode) := by simpa using ⟨hx, hdir⟩
      have hother (y : String) (hy : y ∈ rest) : y ∉ [x] := by
        rw [mem_singleton]
        exact fun heq => hfresh (heq ▸ hy)
      have hsame (y : String) (hy : y ∈ rest) :
          c.isRemovable (m.withFiles (m.files.without d [x])) y = c.isRemovable m y :=
        isRemovable_without hleads hloose (hrest y hy) (hother y hy)
      have hleft : rest.filter (c.isRemovable (m.withFiles (m.files.without d [x]))) =
          rest.filter (c.isRemovable m) := filter_congr hsame
      obtain ⟨warning, hrun, hwarning⟩ := ih (m := m.withFiles (m.files.without d [x]))
        (hleads.without hloose) hnodup fun y hy => (hrest y hy).without (hother y hy)
      rw [hleft] at hrun
      refine ⟨joinWarnings none warning, ?_, ?_⟩
      · rw [discardAll, runNow_bind_of_eq (runNow_discard_ok hremove), runNow_bind_of_eq hrun,
          filter_cons, hyes, if_pos rfl, length_cons, Nat.add_comm]
        simp only [withFiles, Files.without, map_cons, Files.eraseAll_cons, map_nil,
          Files.eraseAll_nil]
        rfl
      · rw [isSome_joinWarnings, Option.isSome_none, Bool.false_or, hwarning, exists_mem_cons_iff,
          hyes]
        simp only [Bool.true_eq_false, false_or]
        exact exists_congr fun y => and_congr_right fun hy => by rw [hsame y hy]
    · have hno : c.isRemovable m x = false := by rw [isRemovable, hremove]; rfl
      obtain ⟨message, hdiscard⟩ := runNow_discard_error hne hremove
      obtain ⟨warning, hrun, hwarning⟩ := ih hleads hnodup hrest
      refine ⟨joinWarnings (some message) warning, ?_, ?_⟩
      · rw [discardAll, runNow_bind_of_eq hdiscard, runNow_bind_of_eq hrun, filter_cons, hno]
        simp [runNow]
      · simp [isSome_joinWarnings, hno]

/-! ## Evicting -/

/-- No place of the tree stands twice, things have names that can be looked up, and no entry is a
link by which the cache directory itself is reached. -/
structure Direct (c : Cache) (m : Machine) : Prop where
  distinct : m.files.Distinct
  named : ∀ p x, m.files.get? (p ++ [x]) ≠ none → Path.IsName x ∧ x.utf8ByteSize ≤ Files.maxName
  aside : ∀ way links d x target, m.files.Leads m.cwd c.dir way links d → isEntryName x = true →
    m.files.get? (d ++ [x]) = some (.link target) → d ++ [x] ∉ way

variable {mode : Nat}

theorem entryNames_of_find (hd : m.files.find m.cwd true c.dir = .ok (d, .dir mode)) :
    c.entryNames m = (m.files.namesAt d).filter isEntryName := by
  rw [entryNames, list_of_find hd]
  rfl

/-- Entries stand in the directory each by a name of its own. -/
theorem Direct.entries (h : c.Direct m) (hleads : m.files.Leads m.cwd c.dir way links d)
    (hd : m.files.find m.cwd true c.dir = .ok (d, .dir mode)) :
    (c.entryNames m).Nodup ∧ ∀ x ∈ c.entryNames m, m.files.Loose d way x := by
  obtain ⟨hnodup, hmem⟩ := h.distinct.names d
  rw [entryNames_of_find hd]
  refine ⟨hnodup.filter _, fun x hx => ?_⟩
  obtain ⟨hname, hentry⟩ := mem_filter.mp hx
  have hstands : m.files.get? (d ++ [x]) ≠ none := Option.isSome_iff_ne_none.mp ((hmem x).mp hname)
  obtain ⟨hisName, hshort⟩ := h.named d x hstands
  exact ⟨hisName, hshort, hstands, fun target => h.aside way links d x target hleads hentry⟩

/-- What is removed is gone from the list of entries. -/
theorem entryNames_without (hleads : m.files.Leads m.cwd c.dir way links d)
    (hd : m.files.find m.cwd true c.dir = .ok (d, .dir mode))
    (hgone : ∀ x ∈ gone, m.files.Loose d way x ∧ ∀ mode, m.files.get? (d ++ [x]) ≠
    some (.dir mode)) :
    (m.withFiles (m.files.without d gone)).files.find m.cwd true c.dir = .ok (d, .dir mode) ∧
    c.entryNames (m.withFiles (m.files.without d gone)) = (c.entryNames m).filter (· ∉ gone) := by
  obtain ⟨t, hl, -, hmode⟩ := find_ok hd
  have hmode' : (m.files.without d gone).get? d = some (.dir mode) := by
    rw [Files.without, get?_eraseAll _ (by simp), hmode]
  have hd' : (m.withFiles (m.files.without d gone)).files.find m.cwd true c.dir =
      .ok (d, .dir mode) := (hleads.without hgone).find_dir (nameable_of_locate hl).1 hmode'
  refine ⟨hd', ?_⟩
  have hentries : c.entryNames (m.withFiles (m.files.without d gone)) =
      ((m.files.without d gone).namesAt d).filter isEntryName := entryNames_of_find hd'
  rw [hentries, entryNames_of_find hd, Files.without, namesAt_eraseAll, filter_filter,
    filter_filter]
  apply filter_congr
  intro x _
  simp [Bool.and_comm]

/-- Evicting where the directory can be listed. -/
theorem runNow_evict (h : c.Direct m) (hleads : m.files.Leads m.cwd c.dir way links d)
    (hd : m.files.find m.cwd true c.dir = .ok (d, .dir mode)) : ∃ warning, m.runNow c.evict =
    (m.withFiles (m.files.without d
    (((c.ranked m).take ((c.ranked m).length - c.maxEntries)).filter (c.isRemovable m))),
    some ⟨(((c.ranked m).take ((c.ranked m).length - c.maxEntries)).filter
    (c.isRemovable m)).length, warning⟩) ∧ (warning.isSome = true ↔
    ∃ x ∈ (c.ranked m).take ((c.ranked m).length - c.maxEntries), c.isRemovable m x = false) := by
  obtain ⟨hnodup, hloose⟩ := h.entries hleads hd
  have hperm := (ranking_ranked hnodup).perm
  have hsub : ((c.ranked m).take ((c.ranked m).length - c.maxEntries)).Sublist (c.ranked m) :=
    take_sublist _ _
  have hlength : ((c.entryNames m).map fun x => (x, c.dateAt m x)).length =
      (c.ranked m).length := by
    rw [length_map, hperm.length_eq]
  have hexcess : ((((c.entryNames m).map fun x => (x, c.dateAt m x)).mergeSort precedes).take
      (((c.entryNames m).map fun x => (x, c.dateAt m x)).length - c.maxEntries)).map (·.1) =
      (c.ranked m).take ((c.ranked m).length - c.maxEntries) := by
    rw [hlength, map_take]
    rfl
  rw [evict, runNow_bind_of_eq (runNow_list (list_of_find hd))]
  dsimp only
  rw [hexcess]
  exact runNow_discardAll hleads ((hperm.nodup_iff.mpr hnodup).sublist hsub)
    fun x hx => hloose x (hperm.mem_iff.mp (hsub.subset hx))

theorem runNow_evict_error {e : Cause} (h : m.files.list m.cwd c.dir = .error e) :
    m.runNow c.evict =
    (m, some ⟨0, if e = .notFound then none else some s!"listing cache entries: {e.message}"⟩) := by
  rw [evict, runNow_bind_of_eq (runNow_list_error h)]
  by_cases he : e = .notFound
  · simp only [isMissing, he, beq_self_eq_true, if_true, mergeSort_nil, take_nil]
    rfl
  simp only [isMissing, he, beq_eq_false_iff_ne.mpr he, Bool.false_eq_true, if_false]
  rfl

/-- Nothing is evicted from a directory within the budget. -/
theorem runNow_evict_within (hd : m.files.find m.cwd true c.dir = .ok (d, .dir mode))
    (hle : (c.entryNames m).length ≤ c.maxEntries) : m.runNow c.evict = (m, some ⟨0, none⟩) := by
  have hnone : ((c.entryNames m).map fun x => (x, c.dateAt m x)).length - c.maxEntries = 0 := by
    rw [length_map]
    omega
  rw [evict, runNow_bind_of_eq (runNow_list (list_of_find hd))]
  dsimp only
  rw [hnone]
  rfl

/-- Of a list whose first items go as far as they can, the rest stays and what cannot go. -/
theorem filter_removed (hnodup : order.Nodup) (k : Nat) (goes : String → Bool) :
    (order.filter (· ∉ (order.take k).filter goes)) = (order.take k).filter (!goes ·) ++
    order.drop k := by
  have hparts : (order.take k ++ order.drop k).Nodup := by rwa [take_append_drop]
  obtain ⟨-, -, hapart⟩ := nodup_append.mp hparts
  have hfirst : (order.take k).filter (· ∉ (order.take k).filter goes) =
      (order.take k).filter (!goes ·) := by
    apply filter_congr
    intro x hx
    simp [hx]
  have hlast : (order.drop k).filter (· ∉ (order.take k).filter goes) = order.drop k := by
    rw [filter_eq_self]
    intro x hx
    have hnot : x ∉ order.take k := fun htake => hapart x htake x hx rfl
    simp [hnot]
  calc order.filter (· ∉ (order.take k).filter goes)
      = (order.take k ++ order.drop k).filter
        (· ∉ (order.take k).filter goes) := by rw [take_append_drop]
    _ = (order.take k).filter (!goes ·) ++ order.drop k := by rw [filter_append, hfirst, hlast]

/-- How much is left when all but a budget goes as far as it can. -/
theorem counts_of_perm {left : List String} {goes : String → Bool} {budget : Nat}
    (h : left.Perm ((order.take (order.length - budget)).filter (!goes ·) ++
    order.drop (order.length - budget))) :
    left.countP goes ≤ budget ∧ left.length ≤ budget + order.countP (!goes ·) ∧
    ((∀ x ∈ order, goes x = true) →
    left.Perm (order.drop (order.length - budget)) ∧ left.length = min order.length budget) := by
  have hkept : (order.drop (order.length - budget)).length = min order.length budget := by
    rw [length_drop]
    omega
  refine ⟨?_, ?_, ?_⟩
  · have hnone : ((order.take (order.length - budget)).filter (!goes ·)).countP goes = 0 := by
      rw [countP_eq_zero]
      intro x hx
      simpa using (mem_filter.mp hx).2
    have hrest : (order.drop (order.length - budget)).countP goes ≤ _ := countP_le_length
    rw [h.countP_eq, countP_append, hnone]
    omega
  · have hstuck : (order.take (order.length - budget)).countP (!goes ·) ≤ order.countP (!goes ·) :=
      (take_sublist _ _).countP_le
    rw [h.length_eq, length_append, ← countP_eq_length_filter]
    omega
  · intro hall
    have hstuck : (order.take (order.length - budget)).filter (!goes ·) = [] := by
      rw [filter_eq_nil_iff]
      intro x hx
      simp [hall x (mem_of_mem_take hx)]
    rw [hstuck, nil_append] at h
    exact ⟨h, h.length_eq.trans hkept⟩

/-- What is left of the entries once the first ones of the ranking, as many as are beyond the
budget, have been removed as far as they can be. -/
theorem entryNames_evicted (h : c.Direct m) (hleads : m.files.Leads m.cwd c.dir way links d)
    (hd : m.files.find m.cwd true c.dir = .ok (d, .dir mode)) {k : Nat}
    (horder : c.Ranking m order) (hgone : gone = (order.take k).filter (c.isRemovable m)) :
    (m.withFiles (m.files.without d gone)).files.find m.cwd true c.dir = .ok (d, .dir mode) ∧
    (c.entryNames (m.withFiles (m.files.without d gone))).Perm (order.filter (· ∉ gone)) ∧
    (c.entryNames (m.withFiles (m.files.without d gone))).Perm
    ((order.take k).filter (!c.isRemovable m ·) ++ order.drop k) ∧
    ∀ x ∈ c.entryNames (m.withFiles (m.files.without d gone)),
    c.isRemovable (m.withFiles (m.files.without d gone)) x = c.isRemovable m x := by
  obtain ⟨hnodup, hloose⟩ := h.entries hleads hd
  have hremovable : ∀ x ∈ gone, m.files.Loose d way x ∧
      ∀ mode, m.files.get? (d ++ [x]) ≠ some (.dir mode) := by
    intro x hx
    rw [hgone] at hx
    obtain ⟨hmem, hyes⟩ := mem_filter.mp hx
    have hx := hloose x (horder.perm.mem_iff.mp (mem_of_mem_take hmem))
    exact ⟨hx, ((isRemovable_iff hleads hx).mp hyes).2⟩
  obtain ⟨hd', hentries⟩ := entryNames_without hleads hd hremovable
  have hperm : (c.entryNames (m.withFiles (m.files.without d gone))).Perm
      (order.filter (· ∉ gone)) := by
    rw [hentries]
    exact horder.perm.symm.filter _
  refine ⟨hd', hperm, ?_, ?_⟩
  · rw [← filter_removed (horder.perm.nodup_iff.mpr hnodup), ← hgone]
    exact hperm
  intro x hx
  rw [hentries] at hx
  obtain ⟨hmem, hfresh⟩ := mem_filter.mp hx
  exact isRemovable_without hleads hremovable (hloose x hmem) (by simpa using hfresh)

/-- Evicting ends with a count and perhaps a warning. Where the directory cannot be listed, nothing
happens, and there is a warning unless the directory is not there. Otherwise those of the first
entries of the ranking, as many as are beyond the budget, that can be removed are gone and counted,
all else stands where it stood, and there is a warning if one of them could not be removed.

So no more removable entries are left than the budget allows, and no more entries than those and the
ones that cannot be removed. If every entry can be removed, the last ones of the ranking are left,
and evicting again does nothing. -/
theorem evict_removes_oldest (c : Cache) (m : Machine) (h : c.Direct m) :
    ∃ m' count warning, m.runNow c.evict = (m', some ⟨count, warning⟩) ∧
      (∀ e, m.files.list m.cwd c.dir = .error e →
        m' = m ∧ count = 0 ∧ (warning.isSome = true ↔ e ≠ .notFound)) ∧
      ∀ d mode, m.files.find m.cwd true c.dir = .ok (d, .dir mode) →
        ∃ order, c.Ranking m order ∧
          let excess := order.take (order.length - c.maxEntries)
          let removed := excess.filter (c.isRemovable m)
          m' = m.withFiles (m.files.eraseAll (removed.map fun x => d ++ [x])) ∧
          count = removed.length ∧
            (warning.isSome = true ↔ ∃ x ∈ excess, c.isRemovable m x = false) ∧
          (c.entryNames m').Perm (order.filter (· ∉ removed)) ∧
          (c.entryNames m').countP (c.isRemovable m') ≤ c.maxEntries ∧
          (c.entryNames m').length ≤ c.maxEntries + order.countP (!c.isRemovable m ·) ∧
          ((∀ x ∈ order, c.isRemovable m x = true) →
            (c.entryNames m').Perm (order.drop (order.length - c.maxEntries)) ∧
            (c.entryNames m').length = min order.length c.maxEntries ∧
            m'.runNow c.evict = (m', some ⟨0, none⟩)) := by
  cases hlist : m.files.list m.cwd c.dir with
  | error e =>
    refine ⟨m, 0, _, runNow_evict_error hlist, ?_, ?_⟩
    · rintro e' ⟨⟩
      by_cases hmissing : e = .notFound <;> simp [hmissing]
    intro d mode hd
    rw [Files.list_of_find hd] at hlist
    cases hlist
  | ok names =>
    obtain ⟨d, mode, hd⟩ := Files.find_of_list hlist
    obtain ⟨way, links, hleads⟩ := Files.leads_of_find hd
    obtain ⟨warning, hrun, hwarning⟩ := runNow_evict h hleads hd
    refine ⟨_, _, warning, hrun, ⟨fun e he => by simp at he, ?_⟩⟩
    intro d' mode' hd'
    rw [hd] at hd'
    cases hd'
    have horder := ranking_ranked (h.entries hleads hd).1
    obtain ⟨hfound, hperm, hleft, hsame⟩ := entryNames_evicted h hleads hd horder rfl
    obtain ⟨hremovable, hlength, hkept⟩ := counts_of_perm hleft
    refine ⟨c.ranked m, horder, rfl, rfl, hwarning, hperm, ?_, ?_, ?_⟩
    · rw [List.countP_congr fun x hx => by rw [hsame x hx]]
      exact hremovable
    · exact hlength
    intro hall
    obtain ⟨hlast, hmin⟩ := hkept hall
    exact ⟨hlast, hmin, runNow_evict_within hfound (hmin ▸ Nat.min_le_right _ _)⟩

/-- A directory with a file that is no entry and three items of entries' names, one of which is a
directory. -/
def crowdedFiles : Files :=
  { nodes := [(["out"], .dir 493), (["out", "b.json"], .file 0 .empty 420),
    (["out", "a.json"], .dir 493),
      (["out", "d.tmp"], .file 1 .empty 420), (["out", "c.json"], .file 2 .empty 420)]
    nextId := 3 }

/-- A cache with room for one entry. -/
def crowdedCache : Cache := { dir := "out", maxEntries := 1, maxAge := 0 }

theorem direct_crowded : crowdedCache.Direct (bare.withFiles crowdedFiles) := by
  have hkeys : crowdedFiles.nodes.map Prod.fst =
      [["out"], ["out", "b.json"], ["out", "a.json"], ["out", "d.tmp"], ["out", "c.json"]] := rfl
  refine ⟨?_, ?_, ?_⟩
  · change (crowdedFiles.nodes.map Prod.fst).Nodup
    decide
  · intro p x hstands
    have hstands : crowdedFiles.get? (p ++ [x]) ≠ none := hstands
    rw [get?_of_ne _ (by simp), ← Option.isSome_iff_ne_none, isSome_lookup, hkeys] at hstands
    have hlast := mem_map_of_mem (f := fun q => q.getLastD "") hstands
    have hname : x ∈ ["out", "b.json", "a.json", "d.tmp", "c.json"] := by simpa using hlast
    have hnames : ∀ x ∈ ["out", "b.json", "a.json", "d.tmp", "c.json"],
        x ≠ "" ∧ x ≠ "." ∧ x ≠ ".." ∧ '/' ∉ x.toList ∧ x.utf8ByteSize ≤ maxName := by decide
    obtain ⟨hempty, hdot, hdots, hslash, hshort⟩ := hnames x hname
    exact ⟨⟨hempty, hdot, hdots, hslash⟩, hshort⟩
  · intro way links d x target _ _ hlink
    have hlink : crowdedFiles.get? (d ++ [x]) = some (.link target) := hlink
    rw [get?_of_ne _ (by simp), lookup_eq_some_iff] at hlink
    obtain ⟨before, after, hnodes, -⟩ := hlink
    have hmem : (d ++ [x], Node.link target) ∈ crowdedFiles.nodes := hnodes ▸ by simp
    simp [crowdedFiles] at hmem

theorem evict_removes_oldest_crowded : crowdedCache.Direct (Machine.bare.withFiles crowdedFiles) ∧
    ∃ m' count warning, (Machine.bare.withFiles crowdedFiles).runNow crowdedCache.evict =
        (m', some ⟨count, warning⟩) ∧
      (crowdedCache.entryNames m').countP (crowdedCache.isRemovable m') ≤ 1 ∧
      (crowdedCache.entryNames m').length ≤ 2 := by
  obtain ⟨m', count, warning, hrun, -, hlisted⟩ := evict_removes_oldest _ _ direct_crowded
  obtain ⟨order, horder, -, -, -, -, hremovable, hlength, -⟩ := hlisted ["out"] 493 rfl
  refine ⟨direct_crowded, m', count, warning, hrun, hremovable, hlength.trans ?_⟩
  rw [horder.perm.countP_eq]
  decide +kernel

/-! ## A directory reached by one of its entries -/

/-- A directory that holds a link to itself, under an entry's name. -/
def loopFiles : Files :=
  { nodes :=
    [(["out"], .dir 493), (["out", "l.json"], .link "."), (["out", "z.json"], .file 0 .empty 420)]
    nextId := 1 }

/-- A cache that reaches the directory by that link. -/
def loopCache : Cache := { dir := "out/l.json", maxEntries := 0, maxAge := 0 }

theorem leads_loop : loopFiles.Leads [] loopCache.dir [["out"], ["out", "l.json"]] 39 ["out"] := by
  have hdir : loopFiles.get? ["out"] = some (.dir 493) := rfl
  have hlink : loopFiles.get? ["out", "l.json"] = some (.link ".") := rfl
  refine ⟨⟨493, rfl⟩, .down ⟨by decide, by decide, by decide⟩ hdir ?_⟩
  exact .link ⟨by decide, by decide, by decide⟩ hlink rfl (.dot rfl (.here _ _))

theorem removeFile_loop : loopFiles.removeFile [] (Path.join loopCache.dir "l.json") =
    .ok (loopFiles.erase ["out", "l.json"]) := by
  have hfits : Files.Fits loopCache.dir "l.json" :=
    ⟨⟨by decide, by decide, by decide, by decide⟩, by decide, by decide, by decide, by decide⟩
  have hlink : loopFiles.get? (["out"] ++ ["l.json"]) = some (.link ".") := rfl
  have hl := leads_loop.locate_name hfits false (by simp)
  rw [hlink] at hl
  simp only [removeFile, find, hl, Node.isDir, Bind.bind, Except.bind, Bool.false_eq_true, if_false]
  rfl

/-- The link leads to the directory, so it holds no entry. -/
theorem dateAt_loop : ∀ x ∈ ["l.json", "z.json"],
    loopCache.dateAt (bare.withFiles loopFiles) x = Stamp.earliest := by
  decide +kernel

/-- Once an entry by which the directory is reached is removed, the next one is not found, so it is
counted as removed and stays. -/
theorem evict_counts_what_stays :
    loopCache.entryNames (Machine.bare.withFiles loopFiles) = ["l.json", "z.json"] ∧
    (∀ x ∈ ["l.json", "z.json"], loopCache.isRemovable (Machine.bare.withFiles loopFiles) x =
    true) ∧ ∃ m', (Machine.bare.withFiles loopFiles).runNow loopCache.evict = (m', some ⟨2, none⟩) ∧
      m'.files.namesAt ["out"] = ["z.json"] := by
  have hlist : (Machine.bare.withFiles loopFiles).files.list [] loopCache.dir =
      .ok ["l.json", "z.json"] := rfl
  have hentries : loopCache.entryNames (Machine.bare.withFiles loopFiles) = ["l.json", "z.json"] :=
    rfl
  refine ⟨hentries, by decide +kernel, Machine.bare.withFiles (loopFiles.erase ["out", "l.json"]),
    ?_, rfl⟩
  have hdated :
      (["l.json", "z.json"].map fun x => (x, loopCache.dateAt (Machine.bare.withFiles loopFiles) x))
        =
      ["l.json", "z.json"].map fun x => (x, Stamp.earliest) :=
    List.map_congr_left fun x hx => by rw [dateAt_loop x hx]
  have hsorted : (["l.json", "z.json"].map fun x => (x, Stamp.earliest)).mergeSort precedes =
      ["l.json", "z.json"].map fun x => (x, Stamp.earliest) :=
    List.mergeSort_of_pairwise (by decide +kernel)
  have hfirst : (Machine.bare.withFiles loopFiles).runNow
      (discard (Path.join loopCache.dir "l.json")) =
      (Machine.bare.withFiles (loopFiles.erase ["out", "l.json"]), some none) :=
    runNow_discard_ok (m := Machine.bare.withFiles loopFiles) removeFile_loop
  have hsecond : (Machine.bare.withFiles (loopFiles.erase ["out", "l.json"])).runNow
      (loopCache.discardAll ["z.json"]) =
      (Machine.bare.withFiles (loopFiles.erase ["out", "l.json"]), some ⟨1, none⟩) := rfl
  rw [evict, Machine.runNow_bind_of_eq (runNow_list hlist), hentries, hdated]
  dsimp only
  rw [hsorted]
  exact (Machine.runNow_bind_of_eq hfirst _).trans (Machine.runNow_bind_of_eq hsecond _)

end Cache

end Foundry
