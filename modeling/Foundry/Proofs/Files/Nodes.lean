import Foundry.Glob
import Mathlib.Data.List.Basic

/-!
# What file operations do to the nodes of a tree

Every operation is described by the nodes that stand at places before and after
it, so that later proofs never open the list of nodes. Three kinds of change cover
all operations but renaming: one place gets a file, nodes are only taken away, or
only directories are added.
-/

namespace Foundry

open List Glob

namespace Files

variable {asDir : Bool} {at_ source : Place} {names : List String}
variable {fs fs' : Files} {cwd : Place} {path : String} {p q : Place} {n : Node} {follow : Bool}
  {t : Target} {fs'' : Files} {target : Place}

@[simp] theorem get?_nil (fs : Files) : fs.get? [] = some (.dir 0o755) := rfl

theorem get?_of_ne (fs : Files) (hq : q ≠ []) : fs.get? q = fs.nodes.lookup q := by
  simp [get?, hq]

/-! ## Primitive changes -/

theorem lookup_cons_if (p q : Place) (n : Node) (nodes : List (Place × Node)) :
    ((p, n) :: nodes).lookup q = if p = q then some n else nodes.lookup q := by
  by_cases h : p = q
  · simp [h]
  have hb : (q == p) = false := by simpa using fun hqp : q = p => h hqp.symm
  simp [lookup_cons, hb, h]

theorem lookup_putIn (p q : Place) (n : Node) (nodes : List (Place × Node)) :
    (putIn p n nodes).lookup q = if p = q then some n else nodes.lookup q := by
  induction nodes with
  | nil => simp [putIn, lookup_cons_if]
  | cons e rest ih =>
    rcases e with ⟨place, node⟩
    by_cases hp : place = p
    · subst hp
      by_cases h : place = q <;> simp [putIn, lookup_cons_if, h]
    by_cases h : place = q
    · subst h
      simp [putIn, hp, Ne.symm hp]
    · simp [putIn, hp, lookup_cons_if, h, ih]

theorem get?_put (fs : Files) (p : Place) (n : Node) (q : Place) :
    (fs.put p n).get? q = if q = p ∧ q ≠ [] then some n else fs.get? q := by
  by_cases hq : q = []
  · simp [hq]
  rw [get?_of_ne _ hq, get?_of_ne _ hq]
  simpa [put, hq, eq_comm] using lookup_putIn p q n fs.nodes

/-- Looking up in a list from which whole places have been taken. -/
theorem lookup_filter {α β : Type} [BEq α] [LawfulBEq α] (keep : α → Bool) (q : α)
    (nodes : List (α × β)) :
    (nodes.filter fun e => keep e.1).lookup q = if keep q then nodes.lookup q else none := by
  induction nodes with
  | nil => simp
  | cons e rest ih =>
    rcases e with ⟨place, node⟩
    by_cases h : q = place
    · subst h
      by_cases hk : keep q = true
      · simp [hk]
      have hf : keep q = false := by simpa using hk
      simp only [filter_cons, hf, Bool.false_eq_true, if_false] at ih ⊢
      exact ih
    · have hb : (q == place) = false := by simpa using h
      by_cases hk : keep place = true
      · simp [hk, lookup_cons, hb, ih]
      have hf : keep place = false := by simpa using hk
      simp [hf, ih, lookup_cons, hb]

theorem get?_erase (fs : Files) (p q : Place) :
    (fs.erase p).get? q = if q = p ∧ q ≠ [] then none else fs.get? q := by
  by_cases hq : q = []
  · simp [hq]
  rw [get?_of_ne _ hq, get?_of_ne _ hq]
  have h := lookup_filter (fun place => decide (place ≠ p)) q fs.nodes
  by_cases hp : q = p
  · simpa [erase, hp, hp ▸ hq] using h
  · simpa [erase, hp] using h

theorem get?_erase_of_ne (fs : Files) (hp : p ≠ []) (q : Place) :
    (fs.erase p).get? q = if q = p then none else fs.get? q := by
  rw [get?_erase]
  by_cases hq : q = p
  · rw [if_pos ⟨hq, hq ▸ hp⟩, if_pos hq]
  · rw [if_neg fun hboth => hq hboth.1, if_neg hq]

/-- What stands strictly below a place. -/
def IsBelow (p q : Place) : Prop := p <+: q ∧ p ≠ q

instance (p q : Place) : Decidable (IsBelow p q) :=
  inferInstanceAs (Decidable (_ ∧ _))

theorem nodes_eraseBelow (fs : Files) (p : Place) :
    (fs.eraseBelow p).nodes = fs.nodes.filter fun e => !decide (IsBelow p e.1) := by
  refine filter_congr fun e _ => congrArg (!·) (decide_eq_decide.mpr ?_)
  simp [IsBelow]

theorem get?_eraseBelow (fs : Files) (p q : Place) :
    (fs.eraseBelow p).get? q = if IsBelow p q then none else fs.get? q := by
  by_cases hq : q = []
  · have hb : ¬ IsBelow p q := by
      rintro ⟨h, hne⟩
      rw [hq] at h hne
      exact hne (prefix_nil.mp h)
    simp [hq, hq ▸ hb]
  · rw [get?_of_ne _ hq, get?_of_ne _ hq, nodes_eraseBelow,
      lookup_filter (fun place => !decide (IsBelow p place))]
    by_cases hp : IsBelow p q <;> simp [hp]

/-! ## Trees that lose nodes -/

/-- Every node of the second tree stands in the first as well. -/
def Covers (fs fs' : Files) : Prop := ∀ q n, fs'.get? q = some n → fs.get? q = some n

theorem Covers.refl (fs : Files) : fs.Covers fs := fun _ _ h => h

theorem Covers.trans (h : fs.Covers fs') (h' : fs'.Covers fs'') : fs.Covers fs'' :=
  fun q n hn => h q n (h' q n hn)

theorem covers_erase (fs : Files) (p : Place) : fs.Covers (fs.erase p) := by
  intro q n h
  rw [get?_erase] at h
  split at h
  · cases h
  · exact h

theorem covers_eraseBelow (fs : Files) (p : Place) : fs.Covers (fs.eraseBelow p) := by
  intro q n h
  rw [get?_eraseBelow] at h
  split at h
  · cases h
  · exact h

theorem covers_removeFile (h : fs.removeFile cwd path = .ok fs') : fs.Covers fs' := by
  unfold removeFile at h
  obtain ⟨r, -, h⟩ := bind_eq_ok h
  dsimp only at h
  split at h
  · cases h
  cases h
  exact covers_erase fs r.1

theorem covers_removeTree (fs : Files) (cwd : Place) (path : String) :
    fs.Covers (fs.removeTree cwd path).1 := by
  unfold removeTree
  split
  · exact Covers.refl fs
  · exact covers_erase fs _
  · rename_i place mode _
    have hb := covers_eraseBelow fs place
    simp only
    split
    · exact hb
    · exact hb
    · exact hb.trans (covers_erase _ place)
  · exact Covers.refl fs

theorem covers_removeMatch (fs : Files) (cwd : Place) (path : String) :
    fs.Covers (fs.removeMatch cwd path).1 := by
  unfold removeMatch
  split
  · exact covers_removeTree fs cwd path
  cases h : fs.removeFile cwd path with
  | ok fs' => exact covers_removeFile h
  | error e => exact Covers.refl fs

/-- What a sweep keeps: what visiting a lead keeps, where what it leads to is as what led to it. -/
theorem sweepFrom_induction {P : Files → Prop} {Q : Lead → Prop} {pattern : Pattern}
    (hvisit : ∀ fs c, P fs → Q (.candidate c) →
    (∀ l ∈ (visit fs cwd pattern c).2, Q l) ∧ ∀ path, (visit fs cwd pattern c).1 = some path →
    P (fs.removeMatch cwd path).1)
    (fuel : Nat) (hfs : P fs) {leads : List Lead} (hleads : ∀ l ∈ leads, Q l) :
    P (sweepFrom pattern cwd fuel fs leads).1 := by
  induction fuel generalizing fs leads with
  | zero => exact hfs
  | succ fuel ih =>
    cases leads with
    | nil => exact hfs
    | cons l todo =>
      have htodo := fun x hx => hleads x (mem_cons_of_mem _ hx)
      cases l with
      | unreadable dir cause => exact ih hfs htodo
      | candidate c =>
        obtain ⟨hmore, hfound⟩ := hvisit fs c hfs (hleads _ mem_cons_self)
        have hnext : ∀ l ∈ (visit fs cwd pattern c).2 ++ todo, Q l :=
          forall_mem_append.mpr ⟨hmore, htodo⟩
        simp only [sweepFrom]
        split
        · simp_all
        rename_i path more hvisited
        rw [hvisited] at hfound hnext
        have h := ih (hfound path rfl) hnext
        split
        · exact h
        · split <;> exact h

theorem covers_sweepFrom (pattern : Pattern) (cwd : Place) (fuel : Nat) (fs : Files)
    (leads : List Lead) : fs.Covers (sweepFrom pattern cwd fuel fs leads).1 := by
  have hvisit (fs' : Files) (c : Candidate) (h : fs.Covers fs') (_ : True) :
      (∀ l ∈ (visit fs' cwd pattern c).2, True) ∧
        ∀ path, (visit fs' cwd pattern c).1 = some path → fs.Covers (fs'.removeMatch cwd path).1 :=
    ⟨fun _ _ => trivial, fun path _ => h.trans (covers_removeMatch fs' cwd path)⟩
  exact sweepFrom_induction hvisit fuel (Covers.refl fs) fun _ _ => trivial

theorem covers_sweep (fs : Files) (cwd : Place) (pattern : String) :
    fs.Covers (fs.sweep cwd pattern).1 := by
  unfold sweep
  split
  · exact Covers.refl fs
  · exact covers_sweepFrom _ cwd _ fs _

/-! ## Trees that gain directories -/

/-- Nothing is changed but that directories stand where nothing stood. -/
structure GainsDirs (fs fs' : Files) : Prop where
  kept : ∀ q n, fs.get? q = some n → fs'.get? q = some n
  gained : ∀ q n, fs'.get? q = some n → n.isDir = true ∨ fs.get? q = some n

theorem GainsDirs.refl (fs : Files) : fs.GainsDirs fs := ⟨fun _ _ h => h, fun _ _ h => .inr h⟩

theorem GainsDirs.trans (h : fs.GainsDirs fs') (h' : fs'.GainsDirs fs'') : fs.GainsDirs fs'' := by
  constructor
  · intro q n hn
    exact h'.kept q n (h.kept q n hn)
  intro q n hn
  rcases h'.gained q n hn with hd | hn
  · exact .inl hd
  · exact h.gained q n hn

theorem gainsDirs_put (hnone : fs.get? p = none) (mode : Nat) :
    fs.GainsDirs (fs.put p (.dir mode)) := by
  constructor
  · intro q n hn
    have hq : q ≠ p := by
      rintro rfl
      rw [hnone] at hn
      cases hn
    rw [get?_put, if_neg fun h => hq h.1]
    exact hn
  · intro q n hn
    rw [get?_put] at hn
    split at hn
    · cases hn
      exact .inl rfl
    · exact .inr hn

/-! ## Looking up -/

/-- Where the walk along a path starts. -/
def startOf (cwd : Place) (path : String) : Place := if Path.isAbsolute path then [] else cwd

/-- Names by which a walk goes down. -/
structure IsStep (name : String) : Prop where
  ne_dot : name ≠ "."
  ne_dots : name ≠ ".."
  short : name.utf8ByteSize ≤ maxName

/-- A walk may end at what it has found. -/
def endsAt (follow asDir : Bool) : Option Node → Bool
  | none | some (.dir _) => true
  | some (.link _) => !follow && !asDir
  | some _ => !asDir

/-- What a walk that comes to an end comes by. -/
inductive Walks (fs : Files) (follow : Bool) : Nat → Bool → Place → List String → Target → Prop
  | here (links : Nat) (asDir : Bool) (p : Place) :
      Walks fs follow links asDir p [] ⟨p, fs.get? p, asDir⟩
  | dot {links : Nat} {asDir : Bool} {p : Place} {name : String} {l : List String} {t : Target}
      (hname : name = ".") (rest : Walks fs follow links asDir p l t) :
      Walks fs follow links asDir p (name :: l) t
  | up {links : Nat} {asDir : Bool} {p : Place} {name : String} {l : List String} {t : Target}
      (hname : name = "..") (rest : Walks fs follow links asDir p.dropLast l t) :
      Walks fs follow links asDir p (name :: l) t
  | last {links : Nat} {asDir : Bool} {p : Place} {name : String} (hname : IsStep name)
      (hends : endsAt follow asDir (fs.get? (p ++ [name])) = true) :
      Walks fs follow links asDir p [name] ⟨p ++ [name], fs.get? (p ++ [name]), asDir⟩
  | down {links : Nat} {asDir : Bool} {p : Place} {name : String} {l : List String} {t : Target}
      {mode : Nat}
      (hname : IsStep name) (hmore : l ≠ []) (hdir : fs.get? (p ++ [name]) = some (.dir mode))
      (rest : Walks fs follow links asDir (p ++ [name]) l t) :
      Walks fs follow links asDir p (name :: l) t
  | link {links : Nat} {asDir : Bool} {p : Place} {name target : String} {l : List String}
      {t : Target} (hname : IsStep name) (hlink : fs.get? (p ++ [name]) = some (.link target))
      (htarget : target.isEmpty = false) (hfollow : (l.isEmpty && !follow && !asDir) = false)
      (rest : Walks fs follow links (asDir || (l.isEmpty && target.endsWith "/")) (startOf p target)
        (Path.names target ++ l) t) : Walks fs follow (links + 1) asDir p (name :: l) t

/-- What a walk does with its next name, whatever it does about links. -/
theorem walk_eq_walkNames (fs : Files) (follow : Bool) (links : Nat) :
    ∃ jump, fs.walk follow links = fs.walkNames follow jump := by
  cases links <;> exact ⟨_, rfl⟩

section Walk

variable {links : Nat} {name : String} {l : List String}

theorem walk_nil : fs.walk follow links asDir p [] = .ok ⟨p, fs.get? p, asDir⟩ := by
  obtain ⟨jump, hwalk⟩ := walk_eq_walkNames fs follow links
  rw [hwalk, walkNames]

theorem walk_dot : fs.walk follow links asDir p ("." :: l) = fs.walk follow links asDir p l := by
  obtain ⟨jump, hwalk⟩ := walk_eq_walkNames fs follow links
  rw [hwalk, walkNames, if_pos rfl]

theorem walk_up :
    fs.walk follow links asDir p (".." :: l) = fs.walk follow links asDir p.dropLast l := by
  obtain ⟨jump, hwalk⟩ := walk_eq_walkNames fs follow links
  rw [hwalk, walkNames, if_neg (by decide), if_pos rfl]

theorem walk_last (hname : IsStep name)
    (hends : endsAt follow asDir (fs.get? (p ++ [name])) = true) :
    fs.walk follow links asDir p [name] = .ok ⟨p ++ [name], fs.get? (p ++ [name]), asDir⟩ := by
  obtain ⟨jump, hwalk⟩ := walk_eq_walkNames fs follow links
  rw [hwalk, walkNames, if_neg hname.ne_dot, if_neg hname.ne_dots,
    if_neg (Nat.not_lt.mpr hname.short)]
  cases hn : fs.get? (p ++ [name]) with
  | none => simp [hn]
  | some n =>
    rw [hn] at hends
    cases n with
    | dir => simp [hn]
    | link =>
      simp only [endsAt, Bool.and_eq_true, Bool.not_eq_true'] at hends
      simp [hn, hends]
    | file | device | program => simpa [hn, endsAt] using hends

theorem walk_down {mode : Nat} (hname : IsStep name)
    (hdir : fs.get? (p ++ [name]) = some (.dir mode))
    (hl : l ≠ []) :
    fs.walk follow links asDir p (name :: l) = fs.walk follow links asDir (p ++ [name]) l := by
  obtain ⟨jump, hwalk⟩ := walk_eq_walkNames fs follow links
  have hmore : l.isEmpty = false := by simpa using hl
  rw [hwalk, walkNames, if_neg hname.ne_dot, if_neg hname.ne_dots,
    if_neg (Nat.not_lt.mpr hname.short)]
  simp [hdir, hmore]

theorem walk_link {target : String} (hname : IsStep name)
    (hlink : fs.get? (p ++ [name]) = some (.link target))
    (htarget : target.isEmpty = false) (hfollow : (l.isEmpty && !follow && !asDir) = false) :
    fs.walk follow (links + 1) asDir p (name :: l) =
      fs.walk follow links (asDir || (l.isEmpty && target.endsWith "/")) (startOf p target)
        (Path.names target ++ l) := by
  rw [walk, walkNames, if_neg hname.ne_dot, if_neg hname.ne_dots,
    if_neg (Nat.not_lt.mpr hname.short)]
  simp [hlink, hfollow, htarget, startOf]

theorem walk_of_walks (h : fs.Walks follow links asDir p l t) :
    fs.walk follow links asDir p l = .ok t := by
  induction h with
  | here => exact walk_nil
  | dot hname _ ih => rw [hname, walk_dot, ih]
  | up hname _ ih => rw [hname, walk_up, ih]
  | last hname hends => exact walk_last hname hends
  | down hname hmore hdir _ ih => rw [walk_down hname hdir hmore, ih]
  | link hname hlink htarget hfollow _ ih => rw [walk_link hname hlink htarget hfollow, ih]

end Walk

theorem walks_of_walkNames {links : Nat}
    {jump : String → Bool → Place → List String → Except Cause Target}
    (hjump : ∀ target asDir p l, jump target asDir p l = .ok t → ∃ links', links = links' + 1 ∧
    target.isEmpty = false ∧ fs.Walks follow links' (asDir || (l.isEmpty && target.endsWith "/"))
    (startOf p target) (Path.names target ++ l) t)
    (h : fs.walkNames follow jump asDir p names = .ok t) :
    fs.Walks follow links asDir p names t := by
  induction names generalizing p with
  | nil =>
    cases h
    exact .here links asDir p
  | cons name l ih =>
    unfold walkNames at h
    split at h
    · exact .dot ‹_› (ih h)
    split at h
    · exact .up ‹_› (ih h)
    split at h
    · cases h
    rename_i hdot hdots hsize
    have hname : IsStep name := ⟨hdot, hdots, Nat.not_lt.mp hsize⟩
    have hlast {found : Option Node} (hfound : fs.get? (p ++ [name]) = found)
        (hends : endsAt follow asDir found = true) (hl : l.isEmpty = true)
        (ht : (.ok ⟨p ++ [name], found, asDir⟩ : Except Cause Target) = .ok t) :
        fs.Walks follow links asDir p (name :: l) t := by
      subst hfound
      cases ht
      rw [List.isEmpty_iff.mp hl]
      exact .last hname hends
    dsimp only at h
    split at h
    · split at h
      · exact hlast ‹_› rfl ‹_› h
      · cases h
    · split at h
      · exact hlast ‹_› rfl ‹_› h
      rename_i hdir hl
      exact .down hname (by simpa using hl) hdir (ih h)
    · rename_i target hlink
      split at h
      · rename_i hend
        simp only [Bool.and_eq_true] at hend
        exact hlast hlink (by simp [endsAt, hend]) hend.1.1 h
      · rename_i hgoes
        obtain ⟨links', rfl, htarget, hrest⟩ := hjump _ _ _ _ h
        exact .link hname hlink htarget (by simpa using hgoes) hrest
    · rename_i n hdir hlink hn
      split at h
      · rename_i hend
        simp only [Bool.and_eq_true] at hend
        refine hlast hn ?_ hend.1 h
        cases n with
        | dir mode => exact absurd rfl (hdir mode)
        | link target => exact absurd rfl (hlink target)
        | file | device | program => exact hend.2
      · cases h

theorem walks_of_walk {links : Nat} (h : fs.walk follow links asDir p names = .ok t) :
    fs.Walks follow links asDir p names t := by
  induction links generalizing asDir p names with
  | zero =>
    refine walks_of_walkNames (fun _ _ _ _ hj => ?_) h
    cases hj
  | succ links ih =>
    refine walks_of_walkNames (fun target asDir p l hj => ?_) h
    split at hj
    · cases hj
    · exact ⟨links, rfl, by simpa using ‹¬ target.isEmpty = true›, ih hj⟩

/-- A walk reports what stands at the place it leads to. -/
theorem Walks.node {links : Nat} (h : fs.Walks follow links asDir p names t) :
    t.node = fs.get? t.place := by
  induction h with
  | here | last => rfl
  | dot _ _ ih | up _ _ ih | down _ _ _ _ ih | link _ _ _ _ _ ih => exact ih

theorem isDir_startOf {target : String} (hp : ∃ mode, fs.get? p = some (.dir mode)) :
    ∃ mode, fs.get? (startOf p target) = some (.dir mode) := by
  unfold startOf
  split
  · exact ⟨_, get?_nil fs⟩
  · exact hp

/-- Paths that are not refused for their text. -/
structure Nameable (path : String) : Prop where
  sound : path.toList.contains '\x00' = false
  nonempty : path.isEmpty = false
  short : path.utf8ByteSize ≤ maxPath

theorem locate_eq (h : Nameable path)
    (hstart : ∃ mode, fs.get? (startOf cwd path) = some (.dir mode)) : fs.locate cwd follow path =
    fs.walk follow maxLinks (path.endsWith "/") (startOf cwd path) (Path.names path) := by
  obtain ⟨mode, hstart⟩ := hstart
  have hshort : ¬ maxPath < path.utf8ByteSize := Nat.not_lt.mpr h.short
  unfold locate
  rw [startOf] at hstart
  simp only [h.sound, h.nonempty, hshort, hstart, Bool.false_eq_true, if_false]
  rfl

theorem nameable_of_locate (h : fs.locate cwd follow path = .ok t) :
    Nameable path ∧ ∃ mode, fs.get? (startOf cwd path) = some (.dir mode) := by
  unfold locate at h
  split at h
  · cases h
  rename_i hsound
  split at h
  · cases h
  rename_i hempty
  split at h
  · cases h
  dsimp only at h
  split at h
  · rename_i mode hdir
    exact ⟨⟨by simpa using hsound, by simpa using hempty, by omega⟩, mode, hdir⟩
  · cases h

/-- What a path leads to is found by walking along its names. -/
theorem walk_of_locate (h : fs.locate cwd follow path = .ok t) :
    fs.walk follow maxLinks (path.endsWith "/") (startOf cwd path) (Path.names path) = .ok t := by
  obtain ⟨hpath, hstart⟩ := nameable_of_locate h
  rwa [locate_eq hpath hstart] at h

theorem walks_of_locate (h : fs.locate cwd follow path = .ok t) :
    fs.Walks follow maxLinks (path.endsWith "/") (startOf cwd path) (Path.names path) t :=
  walks_of_walk (walk_of_locate h)

theorem locate_node (h : fs.locate cwd follow path = .ok t) : t.node = fs.get? t.place :=
  (walks_of_locate h).node

theorem find_ok (h : fs.find cwd follow path = .ok (p, n)) :
    ∃ t, fs.locate cwd follow path = .ok t ∧ t.place = p ∧ fs.get? p = some n := by
  unfold find at h
  obtain ⟨t, hl, h⟩ := bind_eq_ok h
  split at h
  · rename_i m hm
    cases h
    exact ⟨t, hl, rfl, (locate_node hl).symm.trans hm⟩
  · cases h

theorem ne_nil_of_get? {found : Option Node} (h : fs.get? p = found)
    (hfound : ∀ mode, found ≠ some (.dir mode)) : p ≠ [] := by
  rintro rfl
  exact hfound _ h.symm

/-! ## Making directories -/

/-- A directory is made where a path leads and nothing stands. -/
theorem makeDir_ok (h : fs.makeDir cwd path = .ok fs') :
    ∃ t, fs.locate cwd false path = .ok t ∧ fs.get? t.place = none ∧ t.place ≠ [] ∧
    fs' = fs.put t.place (.dir dirMode) := by
  unfold makeDir at h
  obtain ⟨t, hl, h⟩ := bind_eq_ok h
  split at h
  · cases h
  rename_i hnone
  cases h
  have habsent := (locate_node hl).symm.trans hnone
  exact ⟨t, hl, habsent, ne_nil_of_get? habsent (by simp), rfl⟩

theorem gainsDirs_makeDir (h : fs.makeDir cwd path = .ok fs') : fs.GainsDirs fs' := by
  obtain ⟨t, -, habsent, -, rfl⟩ := makeDir_ok h
  exact gainsDirs_put habsent dirMode

section MakeDirs

variable {paths : List String}
variable {motive : Files → Prop} {isAbove : String → Prop}
  (hstep : ∀ (fs fs' : Files) (dir : String), isAbove dir → fs.makeDir cwd dir = .ok fs' →
    motive fs → motive fs')

include hstep

theorem makeInnermost_above {missing missing' : List String} (hfs : motive fs)
    (hmissing : ∀ dir ∈ missing, isAbove dir) (hpaths : ∀ dir ∈ paths, isAbove dir)
    (h : fs.makeInnermost cwd missing paths = .ok (fs', missing')) :
    motive fs' ∧ ∀ dir ∈ missing', isAbove dir := by
  induction paths generalizing missing with
  | nil =>
    cases h
    exact ⟨hfs, hmissing⟩
  | cons p rest ih =>
    obtain ⟨hp, hrest⟩ := forall_mem_cons.mp hpaths
    unfold makeInnermost at h
    split at h
    · rename_i fs₁ hm
      cases h
      exact ⟨hstep _ _ _ hp hm hfs, hmissing⟩
    · split at h
      · exact ih (forall_mem_cons.mpr ⟨hp, hmissing⟩) hrest h
      split at h
      · cases h
        exact ⟨hfs, hmissing⟩
      · cases h

theorem makeEach_above (hfs : motive fs) (hpaths : ∀ dir ∈ paths, isAbove dir) :
    motive (fs.makeEach cwd paths).1 := by
  induction paths generalizing fs with
  | nil => exact hfs
  | cons p rest ih =>
    obtain ⟨hp, hrest⟩ := forall_mem_cons.mp hpaths
    unfold makeEach
    split
    · rename_i fs₁ hm
      exact ih (hstep _ _ _ hp hm hfs) hrest
    split
    · exact ih hfs hrest
    · exact hfs

/-- What is kept when one of the directories above a path is made is kept when they all are. -/
theorem makeDirs_above (hfs : motive fs) (hpaths : ∀ dir ∈ ancestors (path.length + 1) path,
    isAbove dir) : motive (fs.makeDirs cwd path).1 := by
  unfold makeDirs
  split
  · exact hfs
  rename_i fs₁ missing hm
  obtain ⟨hfs₁, hmissing⟩ := makeInnermost_above hstep hfs (by simp) hpaths hm
  exact makeEach_above hstep hfs₁ hmissing

end MakeDirs

/-- What is kept when any directory is made is kept when many are. -/
theorem makeDirs_preserves {motive : Files → Prop}
    (hstep : ∀ (fs fs' : Files) (path : String), fs.makeDir cwd path = .ok fs' → motive fs →
    motive fs') (hfs : motive fs) (path : String) : motive (fs.makeDirs cwd path).1 :=
  makeDirs_above (fun fs fs' path _ => hstep fs fs' path) hfs fun _ _ => trivial

theorem gainsDirs_makeDirs (fs : Files) (cwd : Place) (path : String) :
    fs.GainsDirs (fs.makeDirs cwd path).1 :=
  makeDirs_preserves (fun _ _ _ hm h => h.trans (gainsDirs_makeDir hm)) (GainsDirs.refl fs) path

/-! ## Writing files -/

/-- One place has a new node and all others are as they were. -/
def Sets (fs fs' : Files) (p : Place) (n : Node) : Prop :=
  ∀ q, fs'.get? q = if q = p then some n else fs.get? q

theorem sets_put (fs : Files) (n : Node) (hp : p ≠ []) : fs.Sets (fs.put p n) p n := by
  intro q
  rw [get?_put]
  by_cases hq : q = p
  · simp [hq, hp]
  · simp [hq]

theorem Sets.trans {n' : Node} (h : fs.Sets fs' p n) (h' : fs'.Sets fs'' p n') :
    fs.Sets fs'' p n' := by
  intro q
  rw [h' q]
  split
  · rfl
  rename_i hq
  rw [h q, if_neg hq]

/-- A file opened for writing was there and is no directory, or is new and empty. -/
theorem openForWriting_ok (h : fs.openForWriting cwd path = .ok (fs', p, n)) :
    ∃ t, fs.locate cwd true path = .ok t ∧ t.place = p ∧ p ≠ [] ∧
    ((fs' = fs ∧ fs.get? p = some n ∧ n.isDir = false) ∨
    (fs.get? p = none ∧ t.asDir = false ∧ n = .file fs.nextId .empty defaultMode ∧
    fs.Sets fs' p n)) := by
  unfold openForWriting at h
  obtain ⟨t, hl, h⟩ := bind_eq_ok h
  have hn := locate_node hl
  split at h
  · cases h
  · rename_i m hdir hm
    cases h
    have hd : n.isDir = false := by
      cases n with
      | dir mode => exact absurd rfl (hdir mode)
      | _ => rfl
    rw [hm] at hn
    exact ⟨t, hl, rfl, ne_nil_of_get? hn.symm (by simpa using hdir), .inl ⟨rfl, hn.symm, hd⟩⟩
  · rename_i hm
    split at h
    · cases h
    rename_i hopen
    cases h
    rw [hm] at hn
    have hroot : t.place ≠ [] := ne_nil_of_get? hn.symm (by simp)
    exact ⟨t, hl, rfl, hroot, .inr ⟨hn.symm, by simpa using hopen, rfl, sets_put fs _ hroot⟩⟩

/-- A written file gets its new contents and keeps its number; a device is left alone. -/
theorem edit_ok {f : ByteArray → ByteArray} (h : fs.edit cwd path f = .ok fs') :
    ∃ t, fs.locate cwd true path = .ok t ∧
    ((∃ id bytes mode, fs.Sets fs' t.place (.file id (f bytes) mode) ∧
    (fs.get? t.place = some (.file id bytes mode) ∨
    fs.get? t.place = none ∧ t.asDir = false ∧ id = fs.nextId ∧ bytes = .empty)) ∨
    (fs' = fs ∧ ∃ d, fs.get? t.place = some (.device d))) := by
  unfold edit at h
  obtain ⟨⟨fs₁, p, n⟩, ho, hput⟩ := bind_eq_ok h
  obtain ⟨t, ht, rfl, hroot, hcase⟩ := openForWriting_ok ho
  dsimp only at hput
  refine ⟨t, ht, ?_⟩
  rcases hcase with ⟨rfl, hn, -⟩ | ⟨hnone, hopen, rfl, hset⟩
  · split at hput
    · rename_i id bytes mode
      cases hput
      exact .inl ⟨id, bytes, mode, sets_put fs₁ _ hroot, .inl hn⟩
    · cases hput
    · cases hput
      exact .inr ⟨rfl, _, hn⟩
    · cases hput
  · cases hput
    exact .inl ⟨fs.nextId, .empty, defaultMode, hset.trans (sets_put fs₁ _ hroot),
      .inr ⟨hnone, hopen, rfl, rfl⟩⟩

/-! ## Changing nodes in place -/

/-- Nodes that differ in their mode at most. -/
inductive SameButMode : Node → Node → Prop
  | dir (mode mode' : Nat) : SameButMode (.dir mode) (.dir mode')
  | file (id : Nat) (bytes : ByteArray) (mode mode' : Nat) :
      SameButMode (.file id bytes mode) (.file id bytes mode')

/-- A new mode changes nothing else. -/
theorem setMode_ok {mode : Nat} (h : fs.setMode cwd path mode = .ok fs') (q : Place) :
    fs'.get? q = fs.get? q ∨ ∃ n n', fs.get? q = some n ∧ fs'.get? q = some n' ∧
    SameButMode n n' := by
  unfold setMode at h
  obtain ⟨⟨p, n⟩, hf, h⟩ := bind_eq_ok h
  obtain ⟨t, -, rfl, hn⟩ := find_ok hf
  have hput {n' : Node} (hsame : SameButMode n n') : (fs.put t.place n').get? q = fs.get? q ∨
      ∃ m m', fs.get? q = some m ∧ (fs.put t.place n').get? q = some m' ∧ SameButMode m m' := by
    rw [get?_put]
    split
    · rename_i hq
      rw [hq.1]
      exact .inr ⟨_, _, hn, rfl, hsame⟩
    · exact .inl rfl
  dsimp only at h
  split at h
  · cases h
    exact hput (.dir _ _)
  · cases h
    exact hput (.file _ _ _ _)
  cases h
  exact .inl rfl

/-- A node after the file with a number has been edited. -/
def editNode (id : Nat) (f : ByteArray → ByteArray) : Node → Node
  | .file k bytes mode => if k = id then .file k (f bytes) mode else .file k bytes mode
  | n => n

theorem nodes_editId (fs : Files) (id : Nat) (f : ByteArray → ByteArray) :
    (fs.editId id f).nodes = fs.nodes.map fun e => (e.1, editNode id f e.2) := by
  refine map_congr_left fun e _ => ?_
  rcases e with ⟨p, n⟩
  cases n with
  | file k bytes mode => by_cases hk : k = id <;> simp [editNode, hk]
  | _ => rfl

theorem lookup_map (g : Node → Node) (nodes : List (Place × Node)) (q : Place) :
    (nodes.map fun e => (e.1, g e.2)).lookup q = (nodes.lookup q).map g := by
  induction nodes with
  | nil => rfl
  | cons e nodes ih =>
    rw [map_cons, lookup_cons, lookup_cons, ih]
    cases q == e.1 <;> rfl

theorem get?_editId (fs : Files) (id : Nat) (f : ByteArray → ByteArray) (q : Place) :
    (fs.editId id f).get? q = (fs.get? q).map (editNode id f) := by
  by_cases hq : q = []
  · simp [hq, editNode]
  · rw [get?_of_ne _ hq, get?_of_ne _ hq, nodes_editId, lookup_map]

/-! ## Moving -/

/-- Where a move takes a place. -/
def relocate (source target : Place) (p : Place) : Place :=
  if source <+: p then target ++ p.drop source.length else p

theorem relocate_eq_iff (source : Place) (hp : ¬ target <+: p) (q : Place) :
    relocate source target p = q ↔
    if target <+: q then p = source ++ q.drop target.length else p = q ∧ ¬ source <+: q := by
  unfold relocate
  by_cases hs : source <+: p
  · obtain ⟨r, rfl⟩ := hs
    by_cases hq : target <+: q
    · obtain ⟨u, rfl⟩ := hq
      simp
    have hne : target ++ r ≠ q := by
      rintro rfl
      exact hq (prefix_append target r)
    have hpq : ¬ (source ++ r = q ∧ ¬ source <+: q) := by
      rintro ⟨rfl, h⟩
      exact h (prefix_append source r)
    simp [hq, hne, hpq]
  · by_cases hq : target <+: q
    · have hne : p ≠ q := by
        rintro rfl
        exact hp hq
      have hps : p ≠ source ++ q.drop target.length := by
        rintro rfl
        exact hs (prefix_append source _)
      simp [hs, hq, hne, hps]
    · have : p = q ↔ p = q ∧ ¬ source <+: q := by
        constructor
        · rintro rfl
          exact ⟨rfl, hs⟩
        · exact fun h => h.1
      simp [hs, hq, ← this]

theorem lookup_map_relocate {nodes : List (Place × Node)}
    (hclear : ∀ e ∈ nodes, ¬ target <+: e.1) (q : Place) :
    (nodes.map fun e => (relocate source target e.1, e.2)).lookup q =
    if target <+: q then nodes.lookup (source ++ q.drop target.length)
    else if source <+: q then none else nodes.lookup q := by
  induction nodes with
  | nil => simp
  | cons e rest ih =>
    rcases e with ⟨p, n⟩
    have hiff := relocate_eq_iff source (hclear (p, n) (by simp)) q
    have hrest := ih fun e he => hclear e (by simp [he])
    simp only [map_cons, lookup_cons_if, hrest]
    by_cases hq : target <+: q
    · simp only [hq, if_true] at hiff ⊢
      simp only [hiff]
    simp only [hq, if_false] at hiff ⊢
    simp only [hiff]
    by_cases hs : source <+: q <;> simp [hs]

theorem nodes_move (fs : Files) (source target : Place) : (fs.move source target).nodes =
    (fs.nodes.filter fun e => !decide (target <+: e.1)).map fun e =>
    (relocate source target e.1, e.2) := by
  have hcleared : ((fs.eraseBelow target).erase target).nodes =
      fs.nodes.filter fun e => !decide (target <+: e.1) := by
    unfold erase
    rw [nodes_eraseBelow, filter_filter]
    refine filter_congr fun e _ => ?_
    by_cases he : e.1 = target
    · simp [he]
    have ht : target ≠ e.1 := Ne.symm he
    simp [IsBelow, he, ht]
  simp only [move, hcleared]
  refine map_congr_left fun e _ => ?_
  by_cases hs : source <+: e.1 <;> simp [relocate, hs]

/-- Moving a node to a place that is neither above nor below it. -/
theorem get?_move (hst : ¬ source <+: target) (hts : ¬ target <+: source) (q : Place) :
    (fs.move source target).get? q = if target <+: q then fs.get? (source ++ q.drop target.length)
    else if source <+: q then none else fs.get? q := by
  have hs : source ≠ [] := by
    rintro rfl
    exact hst nil_prefix
  have ht : target ≠ [] := by
    rintro rfl
    exact hts nil_prefix
  by_cases hq : q = []
  · subst hq
    simp [hs, ht]
  -- what is moved was not in the way of the move
  have hfree : ¬ target <+: source ++ q.drop target.length := by
    intro h
    rcases prefix_or_prefix_of_prefix h (prefix_append source _) with h | h
    · exact hts h
    · exact hst h
  have hne : source ++ q.drop target.length ≠ [] := by simp [hs]
  rw [get?_of_ne _ hq, get?_of_ne _ hq, get?_of_ne _ hne, nodes_move,
    lookup_map_relocate (by simp), lookup_filter (fun p => !decide (target <+: p)),
    lookup_filter (fun p => !decide (target <+: p))]
  by_cases htq : target <+: q <;> simp [htq, hfree]

/-- A successful renaming moves a node, unless both paths lead to it. -/
theorem rename_ok {source target : String} (h : fs.rename cwd source target = .ok fs') :
    ∃ p n t, fs.find cwd false source = .ok (p, n) ∧ fs.locate cwd false target = .ok t ∧
    (fs' = fs ∨ t.place ≠ p ∧ fs' = fs.move p t.place) := by
  unfold rename at h
  obtain ⟨⟨p, n⟩, hf, h⟩ := bind_eq_ok h
  obtain ⟨t, hl, h⟩ := bind_eq_ok h
  refine ⟨p, n, t, hf, hl, ?_⟩
  grind

end Files

end Foundry
