import Foundry.Proofs.Cache.Stock
import Mathlib.Data.Finset.Card

/-!
# Histories of a cache

What a look finds is decided by what was done to the cache before it. It is the output
that was stored last for the same source, if that was not cleared and is fresh. And it is
found if no more other sources were stored after it than the budget leaves room for.
-/

namespace Foundry

open Program List Kernel Text Entry

/-- The machine at another time. -/
def Machine.setClock (m : Machine) (now : Nat) : Machine :=
  { m with kernel := { m.kernel with now } }

namespace Cache

/-- What is done with a cache. -/
inductive Op where
  | put (source output : String)
  | get (source : String)
  | evict
  | clear

namespace Op

def program (c : Cache) : Op → Program Unit
  | .put source output => do let _ ← c.put source output
  | .get source => do let _ ← c.get source
  | .evict => do let _ ← c.evict
  | .clear => do let _ ← c.clear.run

/-- Operations after which what was stored for a source before is out of date. -/
def Supersedes (source : String) : Op → Prop
  | .put other _ => Text.trim other = source
  | .clear => True
  | .get _ | .evict => False

/-- The trimmed source that something is stored for. -/
def stores? : Op → Option String
  | .put source _ => some (Text.trim source)
  | .get _ | .evict | .clear => none

/-- The trimmed source that an operation is about. -/
def source? : Op → Option String
  | .put source _ | .get source => some (Text.trim source)
  | .evict | .clear => none

/-- What an operation leaves of a stock. -/
def leaves (c : Cache) (now : Nat) (live : List Entry) : Op → List Entry
  | .put source output =>
    c.kept (stored live (.ofOutput c.hash (Kernel.epoch.after now) source output))
  | .get source => (c.found now live (Text.trim source)).2
  | .evict => c.kept live
  | .clear => []

end Op

/-- Operations, each with the time of the clock at which it is done. -/
abbrev History := List (Nat × Op)

/-- The machine after a history. -/
def perform (c : Cache) (m : Machine) (past : History) : Machine :=
  past.foldl (fun m d => ((m.setClock d.1).runNow (d.2.program c)).1) m

/-- The stock after a history that began with none. -/
def stock (c : Cache) (past : History) : List Entry :=
  past.foldl (fun live d => d.2.leaves c d.1 live) []

variable {c : Cache} {m : Machine} {past : History} {now : Nat} {op : Op} {live : List Entry}
  {e : Entry}

theorem perform_append (past : History) (d : Nat × Op) :
    c.perform m (past ++ [d]) = (((c.perform m past).setClock d.1).runNow (d.2.program c)).1 := by
  simp [perform]

theorem stock_append (past : History) (d : Nat × Op) :
    c.stock (past ++ [d]) = d.2.leaves c d.1 (c.stock past) := by
  simp [stock]

/-! ## Where entries come from -/

/-- The last time that an output was stored for a source, and what was done since: nothing that
puts it out of date. -/
def IsLast (past : History) (source : String) (now : Nat) (output : String) (later : History) :
    Prop :=
  (∃ earlier text, past = earlier ++ (now, Op.put text output) :: later ∧ Text.trim text = source) ∧
    ∀ d ∈ later, ¬ d.2.Supersedes source

/-- An entry with what was stored last for its source. -/
structure Traced (c : Cache) (past : History) (e : Entry) : Prop where
  isLast : ∃ now later, IsLast past e.source now e.output later ∧
    e.createdAt = Kernel.epoch.after now
  hash_eq : e.hash = c.hash e.source

theorem IsLast.append {source output : String} {at_ : Nat} {later : History}
    (h : IsLast past source at_ output later) (hop : ¬ op.Supersedes source) :
    IsLast (past ++ [(now, op)]) source at_ output (later ++ [(now, op)]) := by
  obtain ⟨⟨earlier, text, rfl, htext⟩, hlater⟩ := h
  refine ⟨⟨earlier, text, by simp, htext⟩, ?_⟩
  intro d hd
  rcases mem_append.mp hd with hd | hd
  · exact hlater d hd
  rw [mem_singleton.mp hd]
  exact hop

theorem Traced.append (h : c.Traced past e) (hop : ¬ op.Supersedes e.source) :
    c.Traced (past ++ [(now, op)]) e := by
  obtain ⟨⟨at_, later, hlast, hdate⟩, hhash⟩ := h
  exact ⟨⟨at_, _, hlast.append hop, hdate⟩, hhash⟩

theorem kept_sublist (c : Cache) (live : List Entry) : (c.kept live).Sublist live :=
  drop_sublist _ _

theorem found_sublist (c : Cache) (now : Nat) (live : List Entry) (source : String) :
    (c.found now live source).2.Sublist live := by
  unfold found
  split
  · exact Sublist.refl _
  split
  · exact Sublist.refl _
  · exact filter_sublist

/-- One more operation: what it leaves was there before and is not out of date, or is new. -/
theorem traced_leaves (h : ∀ e ∈ live, c.Traced past e) (he : e ∈ op.leaves c now live) :
    c.Traced (past ++ [(now, op)]) e := by
  cases op with
  | put source output =>
    rcases mem_stored.mp ((kept_sublist c _).subset he) with ⟨hmem, hne⟩ | rfl
    · refine (h e hmem).append fun hsame => hne ?_
      rw [(h e hmem).hash_eq, ← show trim source = e.source from hsame]
      rfl
    · exact ⟨⟨now, [], ⟨⟨past, source, rfl, rfl⟩, by simp⟩, rfl⟩, rfl⟩
  | get source => exact (h e ((found_sublist c _ _ _).subset he)).append id
  | evict => exact (h e ((kept_sublist c _).subset he)).append id
  | clear => cases he

/-! ## How long entries stay -/

/-- An entry is in the stock, and those that are newer are for sources of a set. -/
def Stays (sources : Finset String) (e : Entry) (live : List Entry) : Prop :=
  ∃ older newer, live = older ++ e :: newer ∧ ∀ a ∈ newer, a.source ∈ sources

section Stays

variable {sources : Finset String}

theorem Stays.mem (h : Stays sources e live) : e ∈ live := by
  obtain ⟨older, newer, rfl, -⟩ := h
  exact mem_append_right _ mem_cons_self

/-- Different hashes are those of different sources. -/
theorem length_le_card {newer : List Entry} (hapart : newer.Pairwise fun a b => a.hash ≠ b.hash)
    (hhash : ∀ a ∈ newer, a.hash = c.hash a.source) (hsources : ∀ a ∈ newer, a.source ∈ sources) :
    newer.length ≤ sources.card := by
  have hnodup : (newer.map source).Nodup := by
    rw [Nodup, pairwise_map]
    refine hapart.imp_of_mem fun ha hb hne heq => hne ?_
    rw [hhash _ ha, hhash _ hb, heq]
  have hsub : (newer.map source).toFinset ⊆ sources := by
    intro x hx
    obtain ⟨a, ha, rfl⟩ := mem_map.mp (mem_toFinset.mp hx)
    exact hsources a ha
  calc newer.length = (newer.map source).length := (length_map _).symm
    _ = (newer.map source).toFinset.card := (toFinset_card_of_nodup hnodup).symm
    _ ≤ sources.card := Finset.card_le_card hsub

/-- With room for all the sources, the budget does not reach the entry. -/
theorem Stays.kept (h : Stays sources e live) (hapart : live.Pairwise fun a b => a.hash ≠ b.hash)
    (hhash : ∀ a ∈ live, a.hash = c.hash a.source) (hroom : sources.card < c.maxEntries) :
    Stays sources e (c.kept live) := by
  obtain ⟨older, newer, rfl, hsources⟩ := h
  have hnewer : newer.length ≤ sources.card := by
    have hsub : newer.Sublist (older ++ e :: newer) :=
      (sublist_cons_self _ _).trans (sublist_append_right _ _)
    exact length_le_card (hapart.sublist hsub) (fun a ha => hhash a (hsub.subset ha)) hsources
  refine ⟨older.drop ((older ++ e :: newer).length - c.maxEntries), newer, ?_, hsources⟩
  rw [Cache.kept, drop_append_of_le_length]
  rw [length_append, length_cons]
  omega

theorem Stays.without (h : Stays sources e live) {hash : String} (hne : e.hash ≠ hash) :
    Stays sources e (without live hash) := by
  obtain ⟨older, newer, rfl, hsources⟩ := h
  refine ⟨Cache.without older hash, Cache.without newer hash, ?_, ?_⟩
  · rw [Cache.without, filter_append, filter_cons_of_pos (by simpa using hne)]
    rfl
  · exact fun a ha => hsources a (mem_filter.mp ha).1

theorem Stays.stored (h : Stays sources e live) {a : Entry} (hne : e.hash ≠ a.hash)
    (ha : a.source ∈ sources) : Stays sources e (stored live a) := by
  obtain ⟨older, newer, heq, hsources⟩ := h.without hne
  refine ⟨older, newer ++ [a], ?_, ?_⟩
  · rw [Cache.stored, heq, append_assoc, cons_append]
  intro b hb
  rcases mem_append.mp hb with hb | hb
  · exact hsources b hb
  rw [mem_singleton.mp hb]
  exact ha

theorem isStale_eq_false {at_ : Nat} (hdate : e.createdAt = epoch.after at_) :
    e.isStale (epoch.after now) c.maxAge = false ↔ (now : Int) - at_ ≤ c.maxAge := by
  rw [isStale, hdate, Stamp.since_after, decide_eq_false_iff_not, Int.not_lt]

/-- A look for an entry that is in the stock and fresh finds it and leaves it there. -/
theorem found_of_mem (hapart : live.Pairwise fun a b => a.hash ≠ b.hash) (he : e ∈ live)
    (hhash : e.hash = c.hash e.source) (hfresh : e.isStale (epoch.after now) c.maxAge = false) :
    c.found now live e.source = (some e.output, live) := by
  have hfiled : filed? live (c.hash e.source) = some e := hhash ▸ filed?_of_mem hapart he
  simp [found, hfiled, hfresh]

/-- A step that neither supersedes an entry nor is about another source with its hash keeps it,
as long as it is fresh and the budget has room. -/
theorem Stays.leaves (h : Stays sources e live) (hapart : live.Pairwise fun a b => a.hash ≠ b.hash)
    (hhash : ∀ a ∈ live, a.hash = c.hash a.source) (hroom : sources.card < c.maxEntries)
    (hop : ¬ op.Supersedes e.source) (hstores : ∀ source, op.stores? = some source →
    source ∈ sources)
    (hsame : ∀ source, op.source? = some source → c.hash source = c.hash e.source →
    source = e.source) (hfresh : e.isStale (epoch.after now) c.maxAge = false) :
    Stays sources e (op.leaves c now live) := by
  have hown : e.hash = c.hash e.source := hhash e h.mem
  cases op with
  | put source output =>
    have hne : e.hash ≠ c.hash (trim source) := by
      intro heq
      exact hop (hsame _ rfl (heq.symm.trans hown))
    refine (h.stored (a := .ofOutput c.hash (epoch.after now) source output) hne
      (hstores _ rfl)).kept (apart_stored hapart _) ?_ hroom
    intro a ha
    rcases mem_stored.mp ha with ⟨ha, -⟩ | rfl
    · exact hhash a ha
    · rfl
  | get source =>
    by_cases hsource : trim source = e.source
    · rw [Op.leaves, hsource, found_of_mem hapart h.mem hown hfresh]
      exact h
    have hne : e.hash ≠ c.hash (trim source) := by
      intro heq
      exact hsource (hsame _ rfl (heq.symm.trans hown))
    rw [Op.leaves, found]
    split
    · exact h
    split
    · exact h
    · exact h.without hne
  | evict => exact h.kept hapart hhash hroom
  | clear => exact absurd trivial hop

end Stays

/-! ## Histories with a running clock -/

/-- The clock runs on from operation to operation and stays within the times that can be written. -/
structure IsTimed (times : List Nat) : Prop where
  increasing : times.Pairwise (· < ·)
  regular : ∀ now ∈ times, (Kernel.epoch.after now).IsRegular

theorem IsTimed.sublist {times times' : List Nat} (h : IsTimed times)
    (hsub : times'.Sublist times) : IsTimed times' :=
  ⟨h.increasing.sublist hsub, fun now hnow => h.regular now (hsub.subset hnow)⟩

theorem Traced.older (h : c.Traced past e) (ht : IsTimed (past.map Prod.fst ++ [now])) :
    e.createdAt.lt (epoch.after now) = true := by
  obtain ⟨at_, later, ⟨⟨earlier, text, rfl, -⟩, -⟩, hdate⟩ := h.isLast
  have hlt : at_ < now := (pairwise_append.mp ht.increasing).2.2 at_ (by simp) now mem_cons_self
  rw [hdate]
  exact Stamp.lt_after (by exact_mod_cast hlt)

section Stock

variable (hdir : IsRoomy c.dir) (hhash : ∀ text, IsHex 64 (c.hash text)) {later : History}
  {at_ : Nat} {output source : String}
include hhash

theorem wellKept_stored (h : WellKept live) (htraced : ∀ e ∈ live, c.Traced past e)
    (ht : IsTimed (past.map Prod.fst ++ [now])) (source output : String) :
    WellKept (stored live (.ofOutput c.hash (epoch.after now) source output)) :=
  h.stored (fun a ha => (htraced a ha).older ht) (ht.regular now (by simp)) (hhash _)

theorem wellKept_leaves (h : WellKept live) (htraced : ∀ e ∈ live, c.Traced past e)
    (ht : IsTimed (past.map Prod.fst ++ [now])) (op : Op) : WellKept (op.leaves c now live) := by
  cases op with
  | put source output =>
    exact (wellKept_stored hhash h htraced ht source output).sublist (kept_sublist c _)
  | get source => exact h.sublist (found_sublist c _ _ _)
  | evict => exact h.sublist (kept_sublist c _)
  | clear => exact h.sublist (nil_sublist _)

/-- After every history the stock is in order, and each entry of it is the last for its source. -/
theorem wellKept_stock (ht : IsTimed (past.map Prod.fst)) :
    WellKept (c.stock past) ∧ ∀ e ∈ c.stock past, c.Traced past e := by
  induction past using reverseRecOn with
  | nil => exact ⟨⟨.nil, .nil, by simp [stock], by simp [stock]⟩, by simp [stock]⟩
  | append_singleton past d ih =>
    rw [map_append, map_singleton] at ht
    obtain ⟨hwell, htraced⟩ := ih (ht.sublist (sublist_append_left _ _))
    rw [stock_append]
    exact ⟨wellKept_leaves hhash hwell htraced ht d.2, fun e he => traced_leaves htraced he⟩

include hdir

/-- Every operation ends, and does to the directory what it does to the stock. -/
theorem serves_program (hwell : WellKept live) (htraced : ∀ e ∈ live, c.Traced past e)
    (ht : IsTimed (past.map Prod.fst ++ [now])) (op : Op) :
    c.Serves now (shelved live) (op.program c) () (shelved (op.leaves c now live)) := by
  cases op with
  | put source output =>
    exact (serves_put hdir (wellKept_stored hhash hwell htraced ht source output)).bind
      (serves_done _)
  | get source =>
    obtain ⟨warning, hget⟩ := serves_get hdir hwell hhash source
    exact hget.bind (serves_done _)
  | evict => exact (serves_evict hdir hwell).bind (serves_done _)
  | clear => exact serves_clear.bind (serves_done _)

/-- After every history the directory holds the stock. -/
theorem holds_perform (hempty : c.Holds m fun _ => none) (ht : IsTimed (past.map Prod.fst)) :
    c.Holds (c.perform m past) (shelved (c.stock past)) := by
  induction past using reverseRecOn with
  | nil => exact hempty
  | append_singleton past d ih =>
    rw [map_append, map_singleton] at ht
    have hbefore := ht.sublist (sublist_append_left _ _)
    obtain ⟨hwell, htraced⟩ := wellKept_stock hhash hbefore
    have hholds : c.Holds ((c.perform m past).setClock d.1) (shelved (c.stock past)) := ih hbefore
    obtain ⟨m', hrun, hafter, -⟩ := serves_program hdir hhash hwell htraced ht d.2 _ hholds rfl
    rw [perform_append, stock_append, hrun]
    exact hafter

omit hdir in
/-- What is stored stays over a stretch of operations. -/
theorem stays_stock {earlier : History} {text : String} {sources : Finset String}
    (ht : IsTimed ((earlier ++ (at_, Op.put text output) :: later).map Prod.fst))
    (hroom : sources.card < c.maxEntries) (hlater : ∀ d ∈ later, ¬ d.2.Supersedes (trim text))
    (hstores : ∀ d ∈ later, ∀ source, d.2.stores? = some source → source ∈ sources)
    (hsame : ∀ d ∈ later, ∀ source, d.2.source? = some source →
    c.hash source = c.hash (trim text) → source = trim text)
    (hfresh : ∀ d ∈ later, (d.1 : Int) - at_ ≤ c.maxAge) :
    Stays sources (.ofOutput c.hash (epoch.after at_) text output)
    (c.stock (earlier ++ (at_, Op.put text output) :: later)) := by
  induction later using reverseRecOn with
  | nil =>
    rw [map_append, map_singleton] at ht
    obtain ⟨hwell, htraced⟩ := wellKept_stock hhash (ht.sublist (sublist_append_left _ _))
    rw [stock_append]
    have hnew : Stays sources (.ofOutput c.hash (epoch.after at_) text output)
        (stored (c.stock earlier) (.ofOutput c.hash (epoch.after at_) text output)) :=
      ⟨_, [], rfl, by simp⟩
    refine hnew.kept (apart_stored hwell.apart _) ?_ hroom
    intro a ha
    rcases mem_stored.mp ha with ⟨ha, -⟩ | rfl
    · exact (htraced a ha).hash_eq
    · rfl
  | append_singleton later d ih =>
    have hsplit : earlier ++ (at_, Op.put text output) :: (later ++ [d]) =
        (earlier ++ (at_, Op.put text output) :: later) ++ [d] := by simp
    rw [hsplit] at ht ⊢
    rw [map_append] at ht
    have hbefore := ht.sublist (sublist_append_left _ _)
    obtain ⟨hwell, htraced⟩ := wellKept_stock hhash hbefore
    have hd : d ∈ later ++ [d] := by simp
    have hstays := ih hbefore (fun a ha => hlater a (mem_append_left _ ha))
      (fun a ha => hstores a (mem_append_left _ ha)) (fun a ha => hsame a (mem_append_left _ ha))
      (fun a ha => hfresh a (mem_append_left _ ha))
    rw [stock_append]
    exact hstays.leaves hwell.apart (fun a ha => (htraced a ha).hash_eq) hroom (hlater d hd)
      (hstores d hd) (hsame d hd) ((isStale_eq_false rfl).mpr (hfresh d hd))

omit hdir in
/-- What is found is what was stored last, and is fresh. -/
theorem isLast_of_found (ht : IsTimed (past.map Prod.fst))
    (hfound : (c.found now (c.stock past) source).1 = some output) :
    ∃ at_ later, IsLast past source at_ output later ∧ (now : Int) - at_ ≤ c.maxAge := by
  obtain ⟨-, htraced⟩ := wellKept_stock hhash ht
  unfold found at hfound
  split at hfound
  · cases hfound
  rename_i e hfiled
  split at hfound
  · rename_i hserved
    cases hfound
    obtain ⟨at_, later, hlast, hdate⟩ := (htraced e (filed?_spec hfiled).1).isLast
    exact ⟨at_, later, hserved.1 ▸ hlast, (isStale_eq_false hdate).mp hserved.2⟩
  · cases hfound

omit hdir in
/-- What was stored last is found while it is fresh, if the hashes of the sources differ and the
budget has room for what was stored later. -/
theorem found_of_isLast (ht : IsTimed (past.map Prod.fst ++ [now]))
    (hlast : IsLast past source at_ output later)
    (hinj : Set.InjOn c.hash {text | text = source ∨ ∃ d ∈ past, d.2.source? = some text})
    (hroom : (later.filterMap fun d => d.2.stores?).toFinset.card < c.maxEntries)
    (hage : (now : Int) - at_ ≤ c.maxAge) :
    (c.found now (c.stock past) source).1 = some output := by
  obtain ⟨⟨earlier, text, rfl, rfl⟩, hlater⟩ := hlast
  have hbefore := ht.sublist (sublist_append_left _ _)
  have hstays : Stays (later.filterMap fun d => d.2.stores?).toFinset
      (.ofOutput c.hash (epoch.after at_) text output)
      (c.stock (earlier ++ (at_, Op.put text output) :: later)) := by
    apply stays_stock hhash hbefore hroom hlater
    · intro d hd other hother
      exact mem_toFinset.mpr (mem_filterMap.mpr ⟨d, hd, hother⟩)
    · intro d hd other hother heq
      exact hinj (.inr ⟨d, by simp [hd], hother⟩) (.inl rfl) heq
    -- Looks before this one came earlier, so they found the entry fresh as well.
    intro d hd
    have hmem : d.1 ∈ (earlier ++ (at_, Op.put text output) :: later).map Prod.fst :=
      mem_map_of_mem (by simp [hd])
    have hlt : d.1 < now := (pairwise_append.mp ht.increasing).2.2 d.1 hmem now mem_cons_self
    omega
  generalize hstored : ofOutput c.hash (epoch.after at_) text output = e at hstays
  have hsource : e.source = trim text := by rw [← hstored]; rfl
  have hfound : c.found now (c.stock (earlier ++ (at_, Op.put text output) :: later)) e.source =
      (some e.output, c.stock (earlier ++ (at_, Op.put text output) :: later)) := by
    apply found_of_mem (wellKept_stock hhash hbefore).1.apart hstays.mem
    · rw [← hstored]
      rfl
    have hdate : e.createdAt = epoch.after at_ := by rw [← hstored]; rfl
    exact (isStale_eq_false hdate).mpr hage
  rw [← hsource, hfound, ← hstored]
  rfl

end Stock

/-- A look always ends. If it ends with an output, that was stored last for the source, was not
cleared since and is fresh. And it does end with what was stored last, while that is fresh, if the
hashes of the sources differ and fewer other sources were stored later than there is room for. -/
theorem get_answers_history (hdir : IsRoomy c.dir) (hhash : ∀ text, IsHex 64 (c.hash text))
    (hempty : c.Holds m fun _ => none) (ht : IsTimed (past.map Prod.fst ++ [now]))
    (source : String) :
    ∃ hit, (((c.perform m past).setClock now).runNow (c.get source)).2 = some hit ∧
      (∀ output, hit.value = some output → ∃ at_ later,
        IsLast past (Text.trim source) at_ output later ∧ (now : Int) - at_ ≤ c.maxAge) ∧
      ∀ at_ output later, IsLast past (Text.trim source) at_ output later →
        Set.InjOn c.hash {text | text = Text.trim source ∨ ∃ d ∈ past, d.2.source? = some text} →
        (later.filterMap fun d => d.2.stores?).toFinset.card < c.maxEntries →
        (now : Int) - at_ ≤ c.maxAge → hit.value = some output := by
  have hbefore := ht.sublist (List.sublist_append_left _ _)
  obtain ⟨hwell, -⟩ := wellKept_stock hhash hbefore
  have hholds : c.Holds ((c.perform m past).setClock now) (shelved (c.stock past)) :=
    holds_perform hdir hhash hempty hbefore
  have hnow : ((c.perform m past).setClock now).now = now := rfl
  obtain ⟨warning, hget⟩ := serves_get hdir hwell hhash source
  obtain ⟨m', hrun, -, -⟩ := hget _ hholds hnow
  refine ⟨_, by rw [hrun], ?_, ?_⟩
  · exact fun output hfound => isLast_of_found hhash hbefore hfound
  exact fun at_ output later hlast hinj hroom hage =>
    found_of_isLast hhash ht hlast hinj hroom hage

/-- A cache for two outputs that are fresh for ten nanoseconds. -/
def narrow : Cache := { dir := "/c", maxEntries := 2, maxAge := 10 }

/-- A machine with an empty directory for it. -/
def housing : Machine :=
  Machine.bare.withFiles (Machine.bare.files.put ["c"] (.dir Files.dirMode))

def twice : History :=
  [(1, .put "a" "one"), (2, .put " a\n" "two"), (3, .put "b" "three"), (4, .get "a")]

/-- The second output for a source takes the place of the first one and outlives another source. -/
theorem get_answers_history_twice : ∃ hit,
    (((narrow.perform housing twice).setClock 12).runNow (narrow.get "a ")).2 = some hit ∧
      hit.value = some "two" := by
  have hempty : narrow.Holds housing fun _ => none := by
    have hclosed : Machine.bare.files.Closed := by
      intro p name n hn
      rw [Files.get?_of_ne _ (by simp)] at hn
      cases hn
    have hmade : Machine.bare.files.makeDir [] (Path.join "/" "c") = .ok housing.files := by
      rfl
    have hname : Path.IsName "c" := ⟨by decide, by decide, by decide, by decide⟩
    obtain ⟨d, hshelf⟩ := Files.shelf_of_makeDir hclosed List.nodup_nil hname hmade
    exact ⟨"/", d, "c", by decide, hshelf⟩
  have ht : IsTimed (twice.map Prod.fst ++ [12]) := by
    have hyears : ∀ now ∈ [1, 2, 3, 4, 12], (Kernel.epoch.after (now : Nat)).nanos <
        Duration.perSecond ∧ Stamp.minYear ≤ (Kernel.epoch.after (now : Nat)).year ∧
        (Kernel.epoch.after (now : Nat)).year ≤ Stamp.maxYear := by decide +kernel
    refine ⟨by decide +kernel, fun now hnow => ?_⟩
    obtain ⟨hnanos, hmin, hmax⟩ := hyears now hnow
    exact ⟨hnanos, hmin, hmax⟩
  have hlast : IsLast twice (Text.trim "a ") 2 "two" [(3, .put "b" "three"), (4, .get "a")] := by
    have hother : Text.trim "b" ≠ Text.trim "a " := by decide +kernel
    refine ⟨⟨[(1, .put "a" "one")], " a\n", rfl, by decide +kernel⟩, ?_⟩
    simp [Op.Supersedes, hother]
  have hinj : Set.InjOn narrow.hash {text | text = Text.trim "a " ∨ ∃ d ∈ twice, d.2.source? =
      some text} := by
    have hdiffer : contentHash "a" ≠ contentHash "b" := by decide +kernel
    have hnames : Text.trim "a " = "a" ∧ Text.trim "a" = "a" ∧ Text.trim " a\n" = "a" ∧
        Text.trim "b" = "b" := by
      decide +kernel
    have hab (text : String) (h : text = Text.trim "a " ∨ ∃ d ∈ twice, d.2.source? = some text) :
        text = "a" ∨ text = "b" := by
      simp only [twice, Op.source?, hnames, List.mem_cons, List.not_mem_nil, or_false,
        exists_eq_or_imp, exists_eq_left, Option.some.injEq] at h
      grind
    rintro x hx y hy (heq : contentHash x = contentHash y)
    rcases hab x hx with rfl | rfl <;> rcases hab y hy with rfl | rfl
    · rfl
    · exact absurd heq hdiffer
    · exact absurd heq.symm hdiffer
    · rfl
  obtain ⟨hit, hrun, -, hfound⟩ :=
    get_answers_history (c := narrow) ⟨by decide, by decide⟩ isHex_contentHash hempty ht "a "
  exact ⟨hit, hrun, hfound 2 "two" _ hlast hinj (by decide +kernel) (by decide)⟩

end Cache

end Foundry
