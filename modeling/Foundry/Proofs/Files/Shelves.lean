import Foundry.Proofs.Files.Rooms
import Mathlib.Data.List.Nodup

/-!
# Shelves

A shelf is a room that holds plain files and nothing else. As long as the texts of paths are
not refused, every operation on its files succeeds and does to the shelf what its name says.
-/

namespace Foundry

open List Function

namespace Files

variable {p : Place}
variable {fs fs' : Files} {cwd d : Place} {dir name x y : String} {bytes : ByteArray}
  {contents : String → Option ByteArray}

/-! ## Places stand once -/

/-- No place stands twice among the nodes. -/
def Distinct (fs : Files) : Prop := (fs.nodes.map Prod.fst).Nodup

theorem keys_putIn (p : Place) (n : Node) (nodes : List (Place × Node)) :
    (putIn p n nodes).map Prod.fst =
    if p ∈ nodes.map Prod.fst then nodes.map Prod.fst else nodes.map Prod.fst ++ [p] := by
  induction nodes with
  | nil => simp [putIn]
  | cons e rest ih =>
    by_cases he : e.1 = p
    · simp [putIn, he]
    rw [putIn, if_neg he, map_cons, map_cons, ih]
    by_cases hp : p ∈ rest.map Prod.fst
    · simp [hp]
    · simp [hp, Ne.symm he]

theorem Distinct.put (h : fs.Distinct) (p : Place) (n : Node) : (fs.put p n).Distinct := by
  unfold Distinct Files.put
  rw [keys_putIn]
  split
  · exact h
  rename_i hp
  rw [nodup_append]
  refine ⟨h, nodup_singleton p, ?_⟩
  intro q hq q' hq' heq
  rw [mem_singleton.mp hq'] at heq
  exact hp (heq ▸ hq)

theorem Distinct.filter (h : fs.Distinct) (keep : Place × Node → Bool) :
    Distinct { fs with nodes := fs.nodes.filter keep } :=
  h.sublist (filter_sublist.map Prod.fst)

/-- Places that are moved to where nothing stood stay apart. -/
theorem Distinct.move (h : fs.Distinct) (source target : Place) :
    (fs.move source target).Distinct := by
  unfold Distinct
  rw [nodes_move, map_map]
  have hkept : ((fs.nodes.filter fun e => !decide (target <+: e.1)).map Prod.fst).Nodup :=
    h.sublist (filter_sublist.map Prod.fst)
  have hclear : ∀ p ∈ (fs.nodes.filter fun e => !decide (target <+: e.1)).map Prod.fst,
      ¬ target <+: p := by
    intro p hp
    obtain ⟨e, he, rfl⟩ := mem_map.mp hp
    simpa using (mem_filter.mp he).2
  have hmap : (fs.nodes.filter fun e => !decide (target <+: e.1)).map
      (Prod.fst ∘ fun e => (relocate source target e.1, e.2)) =
      ((fs.nodes.filter fun e => !decide (target <+: e.1)).map Prod.fst).map
        (relocate source target) := by
    rw [map_map]
    rfl
  rw [hmap]
  refine List.Nodup.map_on ?_ hkept
  intro p hp q hq heq
  have hp' := (relocate_eq_iff source (hclear p hp) (relocate source target q)).mp heq
  have hq' := (relocate_eq_iff source (hclear q hq) (relocate source target q)).mp rfl
  split at hp'
  · rename_i hin
    rw [if_pos hin] at hq'
    exact hp'.trans hq'.symm
  · rename_i hin
    rw [if_neg hin] at hq'
    exact hp'.1.trans hq'.1.symm

theorem Distinct.removeTree (h : fs.Distinct) (path : String) :
    (fs.removeTree cwd path).1.Distinct := by
  unfold Files.removeTree
  split
  · exact h
  · exact h.filter _
  · have hemptied (p : Place) : (fs.eraseBelow p).Distinct := h.filter _
    dsimp only
    split
    · exact hemptied _
    · exact hemptied _
    · exact (hemptied _).filter _
  · exact h

/-- The name by which a place stands right below another. -/
def nameIn (p q : Place) : Option String :=
  if p.isPrefixOf q ∧ p ≠ q then
    match q.drop p.length with
    | [x] => some x
    | _ => none
  else none

theorem nameIn_eq_some {q : Place} : nameIn p q = some x ↔ q = p ++ [x] := by
  unfold nameIn
  constructor
  · intro h
    split at h
    · rename_i hbelow
      obtain ⟨rest, rfl⟩ := isPrefixOf_iff_prefix.mp hbelow.1
      rw [drop_left] at h
      split at h
      · cases h
        rfl
      · cases h
    · cases h
  · rintro rfl
    simp

theorem namesAt_eq (fs : Files) (p : Place) :
    fs.namesAt p = (fs.nodes.map Prod.fst).filterMap (nameIn p) := by
  rw [namesAt, below, filterMap_filterMap, filterMap_map]
  apply filterMap_congr
  rintro ⟨q, n⟩ -
  simp only [comp, nameIn]
  split <;> rfl

theorem isSome_lookup {l : List (Place × Node)} :
    (l.lookup p).isSome = true ↔ p ∈ l.map Prod.fst := by
  induction l with
  | nil => simp
  | cons e rest ih =>
    obtain ⟨q, n⟩ := e
    rw [lookup_cons_if]
    by_cases hq : q = p
    · simp [hq]
    · simp [hq, ih, Ne.symm hq]

/-- The names in a directory are those of what stands right below it, each of them once. -/
theorem Distinct.names (h : fs.Distinct) (p : Place) :
    (fs.namesAt p).Nodup ∧ ∀ x, x ∈ fs.namesAt p ↔ (fs.get? (p ++ [x])).isSome = true := by
  rw [namesAt_eq]
  constructor
  · refine List.Nodup.filterMap ?_ h
    intro q q' x hq hq'
    rw [nameIn_eq_some.mp hq, nameIn_eq_some.mp hq']
  · intro x
    rw [get?_of_ne fs (by simp), isSome_lookup, mem_filterMap]
    constructor
    · rintro ⟨q, hq, hname⟩
      rw [← nameIn_eq_some.mp hname]
      exact hq
    · exact fun hmem => ⟨p ++ [x], hmem, nameIn_eq_some.mpr rfl⟩

/-! ## Files on a shelf -/

theorem isBelow_of_within {q : Place} (h : p ++ [x] <+: q) : IsBelow p q := by
  refine ⟨(prefix_append _ _).trans h, ?_⟩
  rintro rfl
  have hlength := h.length_le
  rw [length_append, length_singleton] at hlength
  omega

theorem Room.fits (h : fs.Room cwd dir d name) : Fits dir name := ⟨h.isName, h.short, h.nameable⟩

theorem Room.ancestors (h : fs.Room cwd dir d name) :
    ∃ rest, Files.ancestors ((Path.join dir name).length + 1) (Path.join dir name) =
    Path.join dir name :: rest := by
  rw [Files.ancestors, h.nameable.nonempty]
  exact ⟨_, rfl⟩

/-- A room with files of these names and contents in it, and nothing else. -/
structure Shelf (fs : Files) (cwd : Place) (dir : String) (d : Place) (name : String)
    (contents : String → Option ByteArray) : Prop where
  closed : fs.Closed
  distinct : fs.Distinct
  room : fs.Room cwd dir d name
  file : ∀ x bytes, contents x = some bytes →
    ∃ id mode, fs.get? (d ++ [name] ++ [x]) = some (.file id bytes mode)
  only : ∀ q n, IsBelow (d ++ [name]) q → fs.get? q = some n →
    ∃ x bytes, contents x = some bytes ∧ q = d ++ [name] ++ [x]

namespace Shelf

variable {contents' : String → Option ByteArray}
variable (h : fs.Shelf cwd dir d name contents)
include h

theorem leads : ∃ way links, fs.Leads cwd (Path.join dir name) way links (d ++ [name]) := by
  obtain ⟨way, links, hleads, -⟩ := h.room.leads
  obtain ⟨mode, hdir⟩ := h.room.isDir
  exact ⟨_, _, hleads.join h.room.isName h.room.short hdir⟩

theorem get?_none (hx : contents x = none) : fs.get? (d ++ [name] ++ [x]) = none := by
  by_contra hsome
  obtain ⟨n, hn⟩ := Option.ne_none_iff_exists'.mp hsome
  obtain ⟨y, bytes, hy, heq⟩ := h.only _ n ⟨prefix_append _ _, by simp⟩ hn
  obtain rfl : x = y := by simpa using heq
  rw [hx] at hy
  cases hy

/-- A path on the shelf leads to its file, or to where it would be. -/
theorem locate (hx : Fits (Path.join dir name) x) (follow : Bool) :
    fs.locate cwd follow (Path.join (Path.join dir name) x) =
    .ok ⟨d ++ [name] ++ [x], fs.get? (d ++ [name] ++ [x]), false⟩ := by
  obtain ⟨way, links, hleads⟩ := h.leads
  apply hleads.locate_name hx
  intro _ target hlink
  cases hc : contents x with
  | none =>
    rw [h.get?_none hc] at hlink
    cases hlink
  | some bytes =>
    obtain ⟨id, mode, hfile⟩ := h.file x bytes hc
    rw [hfile] at hlink
    cases hlink

theorem find_some (hx : Fits (Path.join dir name) x) (hc : contents x = some bytes)
    (follow : Bool) : ∃ id mode, fs.get? (d ++ [name] ++ [x]) = some (.file id bytes mode) ∧
    fs.find cwd follow (Path.join (Path.join dir name) x) =
    .ok (d ++ [name] ++ [x], .file id bytes mode) := by
  obtain ⟨id, mode, hfile⟩ := h.file x bytes hc
  refine ⟨id, mode, hfile, ?_⟩
  simp only [find, h.locate hx follow, hfile, bind, Except.bind]

theorem find_none (hx : Fits (Path.join dir name) x) (hc : contents x = none) (follow : Bool) :
    fs.find cwd follow (Path.join (Path.join dir name) x) = .error .notFound := by
  simp only [find, h.locate hx follow, h.get?_none hc, bind, Except.bind]

theorem read (hx : Fits (Path.join dir name) x) :
    fs.read cwd (Path.join (Path.join dir name) x) =
      match contents x with
      | some bytes => .ok bytes
      | none => .error .notFound := by
  cases hc : contents x with
  | none => simp only [Files.read, h.find_none hx hc, bind, Except.bind]
  | some bytes =>
    obtain ⟨id, mode, -, hfind⟩ := h.find_some hx hc true
    simp only [Files.read, hfind, bind, Except.bind]

/-! ### Changes -/

/-- A shelf whose directory stays, whatever becomes of what is on it. -/
theorem of_alters (hdistinct : fs'.Distinct)
    (hother : ∀ q, ¬ d ++ [name] <+: q → fs'.get? q = fs.get? q)
    (hdir : ∃ mode, fs'.get? (d ++ [name]) = some (.dir mode))
    (hfile : ∀ x bytes, contents' x = some bytes →
    ∃ id mode, fs'.get? (d ++ [name] ++ [x]) = some (.file id bytes mode))
    (honly : ∀ q n, IsBelow (d ++ [name]) q → fs'.get? q = some n →
    ∃ x bytes, contents' x = some bytes ∧ q = d ++ [name] ++ [x]) :
    fs'.Shelf cwd dir d name contents' := by
  refine ⟨?_, hdistinct, h.room.of_alters hother hdir, hfile, honly⟩
  intro q y n hn
  by_cases hbelow : IsBelow (d ++ [name]) (q ++ [y])
  · obtain ⟨x, bytes, -, heq⟩ := honly _ n hbelow hn
    obtain ⟨rfl, -⟩ := append_inj' heq rfl
    exact hdir
  · -- Above the shelf and beside it, each place has the directory it had.
    have hstands : ∃ n', fs.get? (q ++ [y]) = some n' := by
      by_cases heq : d ++ [name] = q ++ [y]
      · rw [← heq]
        obtain ⟨mode, hmode⟩ := h.room.isDir
        exact ⟨_, hmode⟩
      · exact ⟨n, by rw [← hother _ fun hpre => hbelow ⟨hpre, heq⟩, hn]⟩
    obtain ⟨n', hn'⟩ := hstands
    rw [hother q]
    · exact h.closed q y n' hn'
    intro hpre
    refine hbelow ⟨hpre.trans (prefix_append _ _), fun heq => ?_⟩
    have hlength := hpre.length_le
    rw [heq, length_append, length_singleton] at hlength
    omega

/-- A shelf after a change to what is on it. -/
theorem of_change (hdistinct : fs'.Distinct)
    (hother : ∀ q, ¬ IsBelow (d ++ [name]) q → fs'.get? q = fs.get? q)
    (hfile : ∀ x bytes, contents' x = some bytes →
    ∃ id mode, fs'.get? (d ++ [name] ++ [x]) = some (.file id bytes mode))
    (honly : ∀ q n, IsBelow (d ++ [name]) q → fs'.get? q = some n →
    ∃ x bytes, contents' x = some bytes ∧ q = d ++ [name] ++ [x]) :
    fs'.Shelf cwd dir d name contents' := by
  refine h.of_alters hdistinct (fun q hq => hother q fun hbelow => hq hbelow.1) ?_ hfile honly
  rw [hother _ fun hbelow => hbelow.2 rfl]
  exact h.room.isDir

/-- One file is put on the shelf, changed or taken away. -/
theorem of_update {value : Option ByteArray} {new : Option Node} (hdistinct : fs'.Distinct)
    (hs : ∀ q, fs'.get? q = if q = d ++ [name] ++ [x] then new else fs.get? q)
    (hnew : ∀ bytes, value = some bytes → ∃ id mode, new = some (.file id bytes mode))
    (hgone : value = none → new = none) : fs'.Shelf cwd dir d name (update contents x value) := by
  have hsame (y : String) (hyx : y ≠ x) : fs'.get? (d ++ [name] ++ [y]) =
      fs.get? (d ++ [name] ++ [y]) := by
    rw [hs, if_neg (by simpa using hyx)]
  refine h.of_change hdistinct ?_ ?_ ?_
  · intro q hq
    rw [hs, if_neg]
    rintro rfl
    exact hq ⟨prefix_append _ _, by simp⟩
  · intro y bytes hy
    by_cases hyx : y = x
    · subst hyx
      rw [update_self] at hy
      rw [hs, if_pos rfl]
      exact hnew bytes hy
    · rw [update_of_ne hyx] at hy
      rw [hsame y hyx]
      exact h.file y bytes hy
  · intro q n hq hn
    by_cases hqx : q = d ++ [name] ++ [x]
    · rw [hs, if_pos hqx] at hn
      cases hv : value with
      | none =>
        rw [hgone hv] at hn
        cases hn
      | some bytes => exact ⟨x, bytes, by rw [update_self], hqx⟩
    · rw [hs, if_neg hqx] at hn
      obtain ⟨y, bytes, hy, rfl⟩ := h.only q n hq hn
      have hyx : y ≠ x := by
        rintro rfl
        exact hqx rfl
      exact ⟨y, bytes, by rw [update_of_ne hyx, hy], rfl⟩

theorem of_sets (hdistinct : fs'.Distinct) {id mode : Nat}
    (hs : fs.Sets fs' (d ++ [name] ++ [x]) (.file id bytes mode)) :
    fs'.Shelf cwd dir d name (update contents x (some bytes)) := by
  refine h.of_update hdistinct hs ?_ ?_
  · intro bytes' hsome
    cases hsome
    exact ⟨id, mode, rfl⟩
  · intro hnone
    cases hnone

theorem write (hx : Fits (Path.join dir name) x) (bytes : ByteArray) :
    ∃ fs', fs.write cwd (Path.join (Path.join dir name) x) bytes = .ok fs' ∧
    fs'.Shelf cwd dir d name (update contents x (some bytes)) := by
  have hne : d ++ [name] ++ [x] ≠ [] := by simp
  have hl := h.locate hx true
  cases hc : contents x with
  | none =>
    have habsent := h.get?_none hc
    rw [habsent] at hl
    let opened : Files :=
      { fs.put (d ++ [name] ++ [x]) (.file fs.nextId .empty defaultMode) with nextId :=
        fs.nextId + 1 }
    have hw : fs.write cwd (Path.join (Path.join dir name) x) bytes =
        .ok (opened.put (d ++ [name] ++ [x]) (.file fs.nextId bytes defaultMode)) := by
      simp [Files.write, edit, openForWriting, hl, bind, Except.bind, opened]
    have hopened : fs.Sets opened (d ++ [name] ++ [x]) (.file fs.nextId .empty defaultMode) :=
      sets_put fs _ hne
    have hdistinct : opened.Distinct := h.distinct.put _ _
    exact ⟨_, hw, h.of_sets (hdistinct.put _ _) (hopened.trans (sets_put opened _ hne))⟩
  | some old =>
    obtain ⟨id, mode, hfile⟩ := h.file x old hc
    rw [hfile] at hl
    have hw : fs.write cwd (Path.join (Path.join dir name) x) bytes =
        .ok (fs.put (d ++ [name] ++ [x]) (.file id bytes mode)) := by
      simp only [Files.write, edit, openForWriting, hl, bind, Except.bind]
    exact ⟨_, hw, h.of_sets (h.distinct.put _ _) (sets_put fs _ hne)⟩

theorem remove (hx : Fits (Path.join dir name) x) (hc : contents x = some bytes) :
    ∃ fs', fs.removeFile cwd (Path.join (Path.join dir name) x) = .ok fs' ∧
    fs'.Shelf cwd dir d name (update contents x none) := by
  obtain ⟨id, mode, hfile, hfind⟩ := h.find_some hx hc false
  have hr : fs.removeFile cwd (Path.join (Path.join dir name) x) =
      .ok (fs.erase (d ++ [name] ++ [x])) := by
    simp [removeFile, hfind, Node.isDir, bind, Except.bind]
  refine ⟨_, hr, h.of_update (h.distinct.filter _) (get?_erase_of_ne fs (by simp)) ?_ fun _ => rfl⟩
  intro bytes' hnone
  cases hnone

/-- A file that is renamed takes the place of another one. -/
theorem rename (hx : Fits (Path.join dir name) x) (hy : Fits (Path.join dir name) y) (hne : x ≠ y)
    (hc : contents x = some bytes) :
    ∃ fs', fs.rename cwd (Path.join (Path.join dir name) x) (Path.join (Path.join dir name) y) =
    .ok fs' ∧ fs'.Shelf cwd dir d name (update (update contents x none) y (some bytes)) := by
  obtain ⟨id, mode, hfile, hfind⟩ := h.find_some hx hc false
  have hapart {x y : String} (hne : x ≠ y) : ¬ d ++ [name] ++ [x] <+: d ++ [name] ++ [y] := by
    intro hpre
    have heq := hpre.eq_of_length (by simp)
    simp [hne] at heq
  have hplace : d ++ [name] ++ [y] ≠ d ++ [name] ++ [x] := fun heq =>
    hapart hne (heq ▸ prefix_refl _)
  have hr : fs.rename cwd (Path.join (Path.join dir name) x) (Path.join (Path.join dir name) y) =
      .ok (fs.move (d ++ [name] ++ [x]) (d ++ [name] ++ [y])) := by
    simp only [Files.rename, hfind, h.locate hy false, Node.isDir, bind, Except.bind, hplace,
      Bool.false_eq_true, if_false]
    cases hcy : contents y with
    | none => simp only [h.get?_none hcy]
    | some old =>
      obtain ⟨id', mode', hfile'⟩ := h.file y old hcy
      simp only [hfile']
  have hget (q : Place) : (fs.move (d ++ [name] ++ [x]) (d ++ [name] ++ [y])).get? q =
      if d ++ [name] ++ [y] <+: q then
        fs.get? (d ++ [name] ++ [x] ++ q.drop (d ++ [name] ++ [y]).length)
      else if d ++ [name] ++ [x] <+: q then none else fs.get? q :=
    get?_move (hapart hne) (hapart (Ne.symm hne)) q
  -- Below a file nothing stands.
  have hleaf {z : String} {q : Place} (hz : d ++ [name] ++ [z] <+: q)
      (hq : q ≠ d ++ [name] ++ [z]) : fs.get? q = none := by
    by_contra hsome
    obtain ⟨n, hn⟩ := Option.ne_none_iff_exists'.mp hsome
    obtain ⟨z', bytes', -, rfl⟩ := h.only q n (isBelow_of_within hz) hn
    exact hq (hz.eq_of_length (by simp)).symm
  refine ⟨_, hr, h.of_change (h.distinct.move _ _) ?_ ?_ ?_⟩
  · intro q hq
    have hoff (z : String) : ¬ d ++ [name] ++ [z] <+: q := fun hpre => hq (isBelow_of_within hpre)
    rw [hget, if_neg (hoff y), if_neg (hoff x)]
  · intro z bytes' hz
    rw [hget]
    by_cases hzy : z = y
    · subst hzy
      rw [update_self, Option.some.injEq] at hz
      subst hz
      refine ⟨id, mode, ?_⟩
      rw [if_pos (prefix_refl _), drop_length, append_nil, hfile]
    · rw [update_of_ne hzy] at hz
      have hzx : z ≠ x := by
        rintro rfl
        rw [update_self] at hz
        cases hz
      rw [update_of_ne hzx] at hz
      rw [if_neg (hapart (Ne.symm hzy)), if_neg (hapart (Ne.symm hzx))]
      exact h.file z bytes' hz
  · intro q n hq hn
    rw [hget] at hn
    split at hn
    · rename_i hpre
      by_cases heq : q = d ++ [name] ++ [y]
      · exact ⟨y, bytes, update_self .., heq⟩
      exfalso
      obtain ⟨rest, rfl⟩ := hpre
      rw [drop_left] at hn
      have hrest : rest ≠ [] := by
        rintro rfl
        exact heq (append_nil _)
      rw [hleaf (prefix_append _ rest) (by simpa using hrest)] at hn
      cases hn
    · split at hn
      · cases hn
      rename_i hny hnx
      obtain ⟨z, bytes', hz, rfl⟩ := h.only q n hq hn
      have hzy : z ≠ y := by
        rintro rfl
        exact hny (prefix_refl _)
      have hzx : z ≠ x := by
        rintro rfl
        exact hnx (prefix_refl _)
      exact ⟨z, bytes', by rw [update_of_ne hzy, update_of_ne hzx, hz], rfl⟩

theorem list : ∃ names, fs.list cwd (Path.join dir name) = .ok names ∧ names.Nodup ∧
    ∀ x, x ∈ names ↔ (contents x).isSome = true := by
  obtain ⟨mode, hfind⟩ := h.room.find true
  obtain ⟨hnodup, hmem⟩ := h.distinct.names (d ++ [name])
  refine ⟨fs.namesAt (d ++ [name]), ?_, hnodup, fun x => ?_⟩
  · simp [Files.list, hfind, Node.isDir, bind, Except.bind]
  rw [hmem]
  cases hc : contents x with
  | none => rw [h.get?_none hc]; rfl
  | some bytes =>
    obtain ⟨id, mode, hfile⟩ := h.file x bytes hc
    rw [hfile]
    rfl

/-- A shelf that is there need not be made. -/
theorem makeDirs : fs.makeDirs cwd (Path.join dir name) = (fs, .ok ()) := by
  obtain ⟨rest, hrest⟩ := h.room.ancestors
  obtain ⟨way, links, hleads, -⟩ := h.room.leads
  obtain ⟨mode, hmode⟩ := h.room.isDir
  have hlocate (follow : Bool) := hleads.locate_name h.room.fits follow (by simp [hmode])
  have hthere : fs.makeDir cwd (Path.join dir name) = .error .alreadyExists := by
    simp only [makeDir, hlocate, hmode, bind, Except.bind]
  have hdir : fs.isDir cwd (Path.join dir name) = true := by
    simp only [Files.isDir, find, hlocate, hmode, bind, Except.bind, Node.isDir]
  have hcause : Cause.alreadyExists ≠ .notFound := by decide
  simp [Files.makeDirs, hrest, makeInnermost, hthere, hdir, if_neg hcause, makeEach]

/-- A shelf is taken down and put up again empty. -/
theorem clear : ∃ fs' fs'', fs.removeTree cwd (Path.join dir name) = (fs', .ok ()) ∧
    fs'.makeDirs cwd (Path.join dir name) = (fs'', .ok ()) ∧ fs''.Shelf cwd dir d name fun _ =>
    none := by
  obtain ⟨fs', hremoved, hget⟩ := h.room.removeTree
  obtain ⟨way, links, hleads, hoff⟩ := h.room.leads
  have hleads' : fs'.Leads cwd dir way links d :=
    hleads.of_change fun q hq => by rw [hget, if_neg (hoff q hq)]
  have hgone : fs'.get? (d ++ [name]) = none := by rw [hget, if_pos (prefix_refl _)]
  have hmade : fs'.makeDir cwd (Path.join dir name) =
      .ok (fs'.put (d ++ [name]) (.dir dirMode)) := by
    simp only [makeDir, hleads'.locate_name h.room.fits false (by simp [hgone]), hgone, bind,
      Except.bind]
  obtain ⟨rest, hrest⟩ := h.room.ancestors
  have hdirs : fs'.makeDirs cwd (Path.join dir name) = (fs'.put (d ++ [name]) (.dir dirMode),
      .ok ()) := by
    simp only [Files.makeDirs, hrest, makeInnermost, hmade, makeEach]
  have hsets : fs'.Sets (fs'.put (d ++ [name]) (.dir dirMode)) (d ++ [name]) (.dir dirMode) :=
    sets_put fs' _ (by simp)
  have hdistinct : fs'.Distinct := by
    have hkept : (fs.removeTree cwd (Path.join dir name)).1.Distinct := h.distinct.removeTree _
    rwa [hremoved] at hkept
  refine ⟨fs', _, hremoved, hdirs, h.of_alters (hdistinct.put _ _) ?_ ?_ ?_ ?_⟩
  · intro q hq
    have hne : q ≠ d ++ [name] := by
      rintro rfl
      exact hq (prefix_refl _)
    rw [hsets, if_neg hne, hget, if_neg hq]
  · exact ⟨dirMode, by rw [hsets, if_pos rfl]⟩
  · intro x bytes hnone
    cases hnone
  intro q n hq hn
  rw [hsets, if_neg (Ne.symm hq.2), hget, if_pos hq.1] at hn
  cases hn

end Shelf

theorem Distinct.makeDir (h : fs.Distinct) {path : String} (hm : fs.makeDir cwd path = .ok fs') :
    fs'.Distinct := by
  obtain ⟨t, -, -, -, rfl⟩ := makeDir_ok hm
  exact h.put _ _

/-- A directory that was just made is an empty shelf. -/
theorem shelf_of_makeDir (hc : fs.Closed) (hd : fs.Distinct) (hname : Path.IsName name)
    (hm : fs.makeDir cwd (Path.join dir name) = .ok fs') :
    ∃ d, fs'.Shelf cwd dir d name fun _ => none := by
  obtain ⟨d, habsent, hsets, hroom, -⟩ := room_of_makeDir hc hname hm
  refine ⟨d, hc.makeDir hm, hd.makeDir hm, hroom, ?_, ?_⟩
  · intro x bytes hnone
    cases hnone
  intro q n hq hn
  rw [hsets, if_neg (Ne.symm hq.2), hc.get?_within habsent hq.1] at hn
  cases hn

end Files

end Foundry
