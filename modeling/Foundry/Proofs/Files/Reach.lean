import Foundry.Proofs.Files.Trees

/-!
# Directories and the ways to them

A directory is reached along names that are there: directories, links and what the links
spell. The way to it decides where everything in it is found, and stays as long as the
nodes on it do. So tasks that only work in directories of their own find the directory
above them where it was, through whatever links it was given.

## Implementation notes

A way counts the links it follows, because a walk follows no more than a fixed number
of them. It lists the places it comes by, so that a change elsewhere is seen to leave it
alone.
-/

namespace Foundry

open List

namespace Files

variable {fs fs' : Files} {way : List Place} {links links' : Nat} {p d : Place} {l : List String}
  {rest : List String} {name : String}

/-- Names lead from one place to another by way of directories and links that are there. Counted
are the links that may still be followed, before and after. -/
inductive Reaches (fs : Files) : Nat → Place → List String → List Place → Nat → Place → Prop
  | here (links : Nat) (p : Place) : Reaches fs links p [] [] links p
  | dot {links links' : Nat} {p d : Place} {name : String} {l : List String} {way : List Place}
      (hname : name = ".") (rest : Reaches fs links p l way links' d) :
      Reaches fs links p (name :: l) way links' d
  | up {links links' : Nat} {p d : Place} {name : String} {l : List String} {way : List Place}
      (hname : name = "..") (rest : Reaches fs links p.dropLast l way links' d) :
      Reaches fs links p (name :: l) way links' d
  | down {links links' : Nat} {p d : Place} {name : String} {l : List String} {way : List Place}
      {mode : Nat} (hname : IsStep name) (hdir : fs.get? (p ++ [name]) = some (.dir mode))
      (rest : Reaches fs links (p ++ [name]) l way links' d) :
      Reaches fs links p (name :: l) ((p ++ [name]) :: way) links' d
  | link {links links' : Nat} {p d : Place} {name target : String} {l : List String}
      {way : List Place} (hname : IsStep name) (hlink : fs.get? (p ++ [name]) = some (.link target))
      (htarget : target.isEmpty = false)
      (rest : Reaches fs links (startOf p target) (Path.names target ++ l) way links' d) :
      Reaches fs (links + 1) p (name :: l) ((p ++ [name]) :: way) links' d

namespace Reaches

/-- A way stays as long as the directories and links on it do. -/
theorem of_change (h : fs.Reaches links p l way links' d)
    (hdirs : ∀ q ∈ way, ∀ mode, fs.get? q = some (.dir mode) → ∃ mode, fs'.get? q =
    some (.dir mode))
    (hlinks : ∀ q ∈ way, ∀ target, fs.get? q = some (.link target) →
    fs'.get? q = some (.link target)) : fs'.Reaches links p l way links' d := by
  induction h with
  | here links p => exact .here links p
  | dot hname _ ih => exact .dot hname (ih hdirs hlinks)
  | up hname _ ih => exact .up hname (ih hdirs hlinks)
  | down hname hdir _ ih =>
    obtain ⟨mode, hdir⟩ := hdirs _ mem_cons_self _ hdir
    refine .down hname hdir (ih ?_ ?_)
    · exact fun q hq => hdirs q (mem_cons_of_mem _ hq)
    · exact fun q hq => hlinks q (mem_cons_of_mem _ hq)
  | link hname hlink htarget _ ih =>
    refine .link hname (hlinks _ mem_cons_self _ hlink) htarget (ih ?_ ?_)
    · exact fun q hq => hdirs q (mem_cons_of_mem _ hq)
    · exact fun q hq => hlinks q (mem_cons_of_mem _ hq)

/-- What stands on a way are directories and links. -/
theorem dir_or_link (h : fs.Reaches links p l way links' d) :
    ∀ q ∈ way, (∃ mode, fs.get? q = some (.dir mode)) ∨ ∃ target, fs.get? q =
    some (.link target) := by
  induction h with
  | here links p => simp
  | dot _ _ ih => exact ih
  | up _ _ ih => exact ih
  | down _ hdir _ ih => exact forall_mem_cons.mpr ⟨.inl ⟨_, hdir⟩, ih⟩
  | link _ hlink _ _ ih => exact forall_mem_cons.mpr ⟨.inr ⟨_, hlink⟩, ih⟩

/-- There is one way only, and it leads to one place. -/
theorem unique {way' : List Place} {links₁ links₂ : Nat} {d₁ d₂ : Place}
    (h : fs.Reaches links p l way links₁ d₁) (h' : fs.Reaches links p l way' links₂ d₂) :
    way = way' ∧ links₁ = links₂ ∧ d₁ = d₂ := by
  induction h generalizing way' with
  | here links p =>
    cases h'
    exact ⟨rfl, rfl, rfl⟩
  | dot hname _ ih =>
    cases h' with
    | dot _ rest => exact ih rest
    | up hname' => simp [hname] at hname'
    | down hstep | link hstep => exact absurd hname hstep.ne_dot
  | up hname _ ih =>
    cases h' with
    | dot hname' => simp [hname] at hname'
    | up _ rest => exact ih rest
    | down hstep | link hstep => exact absurd hname hstep.ne_dots
  | down hstep hdir _ ih =>
    cases h' with
    | dot hname => exact absurd hname hstep.ne_dot
    | up hname => exact absurd hname hstep.ne_dots
    | down _ _ rest =>
      obtain ⟨rfl, hlinks, hd⟩ := ih rest
      exact ⟨rfl, hlinks, hd⟩
    | link _ hlink =>
      rw [hdir] at hlink
      cases hlink
  | link hstep hlink htarget _ ih =>
    cases h' with
    | dot hname => exact absurd hname hstep.ne_dot
    | up hname => exact absurd hname hstep.ne_dots
    | down _ hdir =>
      rw [hlink] at hdir
      cases hdir
    | link _ hlink' _ rest =>
      rw [hlink] at hlink'
      cases hlink'
      obtain ⟨rfl, hlinks, hd⟩ := ih rest
      exact ⟨rfl, hlinks, hd⟩

end Reaches

/-! ## Walks along a way -/

variable {follow asDir : Bool} {t : Target}

/-- A walk along a way and on from its end is one from there. -/
theorem Reaches.walk_append (h : fs.Reaches links p l way links' d) (hrest : rest ≠ []) :
    fs.walk follow links asDir p (l ++ rest) = fs.walk follow links' asDir d rest := by
  induction h with
  | here links p => rfl
  | dot hname _ ih => rw [cons_append, hname, walk_dot, ih]
  | up hname _ ih => rw [cons_append, hname, walk_up, ih]
  | down hname hdir _ ih =>
    rw [cons_append, walk_down hname hdir (by simp [hrest]), ih]
  | @link links links' p d name target l way hname hlink htarget _ ih =>
    have hmore : (l ++ rest).isEmpty = false := by simp [hrest]
    have hasDir : (asDir || ((l ++ rest).isEmpty && target.endsWith "/")) = asDir := by
      rw [hmore, Bool.false_and, Bool.or_false]
    rw [cons_append, walk_link hname hlink htarget (by rw [hmore]; rfl), hasDir,
      ← append_assoc, ih]

/-- Who has come past the end of some names has come a way along them. -/
theorem Walks.exists_reaches {x : String} (h : fs.Walks follow links asDir p (l ++ [x]) t) :
    ∃ way links' d, fs.Reaches links p l way links' d ∧ fs.Walks follow links' asDir d [x] t := by
  generalize hnames : l ++ [x] = names at h
  induction h generalizing l with
  | here => simp at hnames
  | dot hname hrest ih =>
    rcases l with _ | ⟨first, l⟩
    · cases hnames
      exact ⟨_, _, _, .here _ _, .dot hname hrest⟩
    cases hnames
    obtain ⟨way, links', d, hway, hlast⟩ := ih rfl
    exact ⟨way, links', d, .dot hname hway, hlast⟩
  | up hname hrest ih =>
    rcases l with _ | ⟨first, l⟩
    · cases hnames
      exact ⟨_, _, _, .here _ _, .up hname hrest⟩
    cases hnames
    obtain ⟨way, links', d, hway, hlast⟩ := ih rfl
    exact ⟨way, links', d, .up hname hway, hlast⟩
  | last hname hends =>
    obtain ⟨rfl, rfl⟩ : l = [] ∧ x = _ := by simpa [append_eq_singleton_iff] using hnames
    exact ⟨_, _, _, .here _ _, .last hname hends⟩
  | down hname hmore hdir hrest ih =>
    rcases l with _ | ⟨first, l⟩
    · cases hnames
      exact absurd rfl hmore
    cases hnames
    obtain ⟨way, links', d, hway, hlast⟩ := ih rfl
    exact ⟨_, links', d, .down hname hdir hway, hlast⟩
  | @link _ _ _ _ target _ _ hname hlink htarget hfollow hrest ih =>
    rcases l with _ | ⟨first, l⟩
    · cases hnames
      exact ⟨_, _, _, .here _ _, .link hname hlink htarget hfollow hrest⟩
    cases hnames
    obtain ⟨way, links', d, hway, hlast⟩ := ih (append_assoc ..)
    have hmore : (l.append [x]).isEmpty = false := by simp
    rw [hmore, Bool.false_and, Bool.or_false] at hlast
    exact ⟨_, links', d, .link hname hlink htarget hway, hlast⟩

/-- A way from a directory leads to a directory. -/
theorem Reaches.isDir (h : fs.Reaches links p l way links' d) (hc : fs.Closed)
    (hp : ∃ mode, fs.get? p = some (.dir mode)) : ∃ mode, fs.get? d = some (.dir mode) := by
  induction h with
  | here links p => exact hp
  | dot _ _ ih => exact ih hp
  | up _ _ ih => exact ih (hc.dropLast hp.choose_spec)
  | down _ hdir _ ih => exact ih ⟨_, hdir⟩
  | link _ _ _ _ ih => exact ih (isDir_startOf hp)

/-- Something stands wherever a way comes by. -/
theorem Reaches.node_ne_none (h : fs.Reaches links p l way links' d) (hc : fs.Closed)
    (hp : ∃ mode, fs.get? p = some (.dir mode)) {part : List String} (hpart : part <+: l)
    (hw : fs.walk follow links asDir p part = .ok t) : t.node ≠ none := by
  have hhere {p : Place} {asDir : Bool} {links : Nat} (hp : ∃ mode, fs.get? p = some (.dir mode))
      (hw : fs.walk follow links asDir p [] = .ok t) : t.node ≠ none := by
    obtain ⟨mode, hp⟩ := hp
    rw [walk_nil] at hw
    cases hw
    simp [hp]
  induction h generalizing part asDir with
  | here links p =>
    obtain rfl := prefix_nil.mp hpart
    exact hhere hp hw
  | dot hname _ ih =>
    rcases prefix_cons_iff.mp hpart with rfl | ⟨part, rfl, hmore⟩
    · exact hhere hp hw
    rw [hname, walk_dot] at hw
    exact ih hp hmore hw
  | up hname _ ih =>
    rcases prefix_cons_iff.mp hpart with rfl | ⟨part, rfl, hmore⟩
    · exact hhere hp hw
    rw [hname, walk_up] at hw
    exact ih (hc.dropLast hp.choose_spec) hmore hw
  | @down links links' p d name l way mode hname hdir _ ih =>
    rcases prefix_cons_iff.mp hpart with rfl | ⟨part, rfl, hmore⟩
    · exact hhere hp hw
    by_cases hpart : part = []
    · subst hpart
      rw [walk_last hname (by rw [hdir]; rfl)] at hw
      cases hw
      simp [hdir]
    · rw [walk_down hname hdir hpart] at hw
      exact ih ⟨mode, hdir⟩ hmore hw
  | @link links links' p d name target l way hname hlink htarget _ ih =>
    rcases prefix_cons_iff.mp hpart with rfl | ⟨part, rfl, hmore⟩
    · exact hhere hp hw
    cases hfollow : part.isEmpty && !follow && !asDir with
    | true =>
      simp only [Bool.and_eq_true] at hfollow
      obtain rfl := List.isEmpty_iff.mp hfollow.1.1
      rw [walk_last hname (by simp [hlink, endsAt, hfollow])] at hw
      cases hw
      simp [hlink]
    | false =>
      rw [walk_link hname hlink htarget hfollow] at hw
      exact ih (isDir_startOf hp) (prefix_append_right_inj _ |>.mpr hmore) hw

theorem Reaches.append {links'' : Nat} {d' : Place} {l' : List String} {way' : List Place}
    (h : fs.Reaches links p l way links' d) (h' : fs.Reaches links' d l' way' links'' d') :
    fs.Reaches links p (l ++ l') (way ++ way') links'' d' := by
  induction h with
  | here links p => exact h'
  | dot hname _ ih => exact .dot hname (ih h')
  | up hname _ ih => exact .up hname (ih h')
  | down hname hdir _ ih => exact .down hname hdir (ih h')
  | link hname hlink htarget _ ih =>
    have hmore := ih h'
    rw [append_assoc] at hmore
    exact .link hname hlink htarget hmore

end Files

end Foundry
