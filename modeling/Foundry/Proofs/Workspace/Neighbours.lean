import Foundry.Proofs.Workspace.Turns

/-!
# Requests as neighbours

Whatever turns requests take, each of them has a room of its own, and nobody else's turn
changes anything in it.
-/

namespace Foundry

open Program Files Scene Path

namespace Workspaces

variable {past : List Event} {a : Activity Unit} {m' : Machine}
variable {ι : Type} {b : Workspaces} {s s' : Scene ι fun _ => Unit} {loose : Place → Prop}
  {m : Machine} {d q : Place} {name : String} {fs : Files} {i j : ι} {c : Call}

/-- The root of the workspace that a request has. -/
def rootOf (s : Scene ι fun _ => Unit) (i : ι) : Option String := (stay (s.tasks i).past).root?

/-- What holds of requests at any time. -/
structure Sound (b : Workspaces) (errands : ι → Errand) (s : Scene ι fun _ => Unit) : Prop where
  closed : s.files.Closed
  keeps : ∀ i, (s.tasks i).Keeps (b.tenancy (errands i).source) .out fun x _ => x = .out
  heard : ∀ i, ∀ e ∈ (s.tasks i).past, mayHear e.call e.reply
  rendered : ∀ i, b.Rendered (errands i).source (stay (s.tasks i).past)
  housed : ∀ i, b.Housed s.files s.cwd (s.tasks i).waiting
    (stay (s.tasks i).past)
  apart : ∀ i j root, rootOf s i = some root → rootOf s j = some root → i = j

/-- What a turn comes to: all rooms stay with those who have them, or one request touches its own.
Only beside the turns of requests do commands change what is in the workspaces they use. -/
inductive Move (b : Workspaces) (s s' : Scene ι fun _ => Unit) : Prop
  | spares (roots : ∀ i, rootOf s' i = rootOf s i)
      (spares : b.Spares s.machine s'.machine fun q => s'.tasks = s.tasks ∧ InUse s q)
  | touches (i : ι) (d : Place) (name : String) (acts : (s'.tasks i).past ≠ (s.tasks i).past)
      (others : ∀ j, j ≠ i → s'.tasks j = s.tasks j)
      (cwd : s'.cwd = s.cwd) (closed : s'.files.Closed)
      (touches : b.Touches s.files s'.files s.cwd
        (stay (s.tasks i).past) (stay (s'.tasks i).past) d name)

theorem join_inj {dir name' : String} (h : Path.IsName name) (h' : Path.IsName name')
    (heq : join dir name = join dir name') : name = name' := by
  have hnames := congrArg names heq
  rw [names_join_name h, names_join_name h'] at hnames
  simpa using hnames

variable {errands : ι → Errand} {next : c.Reply → Program Unit}

/-- The room of a request that has a workspace. -/
theorem Sound.exists_room (hs : Sound b errands s) {root : String} (h : rootOf s i = some root) :
    ∃ d name, root = join b.root name ∧
    s.files.Room s.cwd b.root d name := by
  have hhoused := hs.housed i
  obtain ⟨stage, hstay⟩ := Stay.root?_eq_some.mp h
  rw [hstay] at hhoused
  obtain ⟨d, name, hroot, hroom, -⟩ := hhoused
  exact ⟨d, name, hroot, hroom⟩

/-- Nobody has a workspace that is not there. -/
theorem Sound.rootOf_ne (hs : Sound b errands s) {way : List Place} {links : Nat}
    (hleads : s.files.Leads s.cwd b.root way links d)
    (hname : Path.IsName name) (habsent : s.files.get? (d ++ [name]) = none) :
    rootOf s i ≠ some (join b.root name) := by
  intro hroot
  obtain ⟨d', name', heq, hroom⟩ := hs.exists_room hroot
  obtain rfl := join_inj hname hroom.isName heq
  obtain ⟨way', links', hleads', -⟩ := hroom.leads
  obtain ⟨-, -, rfl⟩ := hleads.unique hleads'
  obtain ⟨mode, hdir⟩ := hroom.isDir
  rw [habsent] at hdir
  cases hdir

theorem Sound.may (hs : Sound b errands s) {waiting : Bool}
    (at_ : s.tasks i = ⟨past, .call c next, waiting⟩) :
    b.mayAsk (errands i).source (stay past) c := by
  have hkeeps := hs.keeps i
  rw [at_] at hkeeps
  exact (obeys_call.mp hkeeps).1

/-- Whoever is done has no workspace. -/
theorem Sound.out_of_done (hs : Sound b errands s) (h : (s.tasks i).rest = .done ()) :
    stay (s.tasks i).past = .out := by
  have hkeeps := hs.keeps i
  rw [Activity.Keeps, h, obeys_done] at hkeeps
  exact hkeeps

/-- What is in use is in the rooms of those who use it. -/
theorem Sound.room_of_inUse (hs : Sound b errands s) (h : InUse s q) :
    ∃ i d name, rootOf s i = some (join b.root name) ∧
    s.files.Room s.cwd b.root d name ∧ IsBelow (d ++ [name]) q ∧
    ((s.tasks i).waiting = true ∨ ∃ root, stay (s.tasks i).past = .within root .altered) := by
  obtain ⟨i, root, stage, room, node, hstay, huse, hfind, hbelow⟩ := h
  have hroot : rootOf s i = some root := by rw [rootOf, hstay]; rfl
  obtain ⟨d, name, rfl, hroom⟩ := hs.exists_room hroot
  obtain ⟨mode, hfind'⟩ := hroom.find false
  rw [hfind] at hfind'
  cases hfind'
  refine ⟨i, d, name, hroot, hroom, hbelow, huse.imp id ?_⟩
  rintro rfl
  exact ⟨_, hstay⟩

/-- A command is at work in the workspace of a request, or something has changed it already. -/
def IsUsed (s : Scene ι fun _ => Unit) (i : ι) : Prop :=
  (s.tasks i).waiting = true ∨ ∃ root, stay (s.tasks i).past = .within root .altered

/-- A change that leaves alone the way to the root, and of a workspace that is not used
everything. -/
structure Neighbourly (b : Workspaces) (s s' : Scene ι fun _ => Unit) (loose : Place → Prop) :
    Prop where
  spares : b.Spares s.machine s'.machine loose
  off_way : ∀ way links d, s.files.Leads s.cwd b.root way links d →
    ∀ q ∈ startOf s.cwd b.root :: way, ¬ loose q
  off_rooms : ∀ j d name, s'.tasks j = s.tasks j → rootOf s j = some (Path.join b.root name) →
    s.files.Room s.cwd b.root d name →
    ∀ q, d ++ [name] <+: q → loose q → IsBelow (d ++ [name]) q ∧ IsUsed s j ∧ s'.tasks = s.tasks

/-- Changes in a room that nobody else has disturb nobody. -/
theorem neighbourly_of_alters
    (hskirts : s.files.Skirts s.cwd b.root d name)
    (hcwd : s'.cwd = s.cwd) (hclosed : s'.files.Closed)
    (halters : ∀ q, ¬ d ++ [name] <+: q →
      s'.files.get? q = s.files.get? q)
    (hfree : ∀ j, s'.tasks j = s.tasks j → rootOf s j ≠ some (join b.root name)) :
    Neighbourly b s s' fun q => d ++ [name] <+: q := by
  obtain ⟨way, links, hleads, hoff⟩ := hskirts
  refine ⟨⟨hcwd, fun _ => hclosed, fun _ _ _ _ q _ hq => halters q hq⟩, ?_, ?_⟩
  · intro way' links' d' hleads' q hq
    obtain ⟨rfl, -, -⟩ := hleads.unique hleads'
    exact hoff q hq
  · intro j d' name' hj hroot hroom q hq hq'
    obtain ⟨way', links', hleads', -⟩ := hroom.leads
    obtain ⟨-, -, rfl⟩ := hleads.unique hleads'
    by_cases hname : name = name'
    · exact absurd (hname ▸ hroot) (hfree j hj)
    · exact absurd hq (not_prefix_of_ne hname hq')

theorem Move.neighbourly (hs : Sound b errands s) (h : Move b s s') :
    ∃ loose, Neighbourly b s s' loose := by
  cases h with
  | spares roots spares =>
    refine ⟨_, spares, ?_, ?_⟩
    · rintro way links d hleads q hq ⟨-, huse⟩
      obtain ⟨i, d', name, -, hroom, hbelow, -⟩ := hs.room_of_inUse huse
      exact hroom.off_way hleads hq hbelow.1
    · rintro j d name - hroot hroom q hq ⟨hbeside, huse⟩
      obtain ⟨i, d', name', hroot', hroom', hbelow, huse⟩ := hs.room_of_inUse huse
      obtain rfl := hroom.place_unique hroom'
      by_cases hname : name = name'
      · subst hname
        obtain rfl := hs.apart i j _ hroot' hroot
        exact ⟨hbelow, huse, hbeside⟩
      · exact absurd hbelow.1 (not_prefix_of_ne hname hq)
  | touches i d name acts others cwd closed touches =>
    refine ⟨_, neighbourly_of_alters touches.leads cwd closed touches.alters fun j hj hroot => ?_⟩
    rcases touches.before with hroot' | ⟨-, habsent⟩
    · obtain rfl := hs.apart i j _ hroot' hroot
      exact acts (congrArg Activity.past hj)
    obtain ⟨way, links, hleads, -⟩ := touches.leads
    exact hs.rootOf_ne hleads touches.isName habsent hroot

/-- A workspace stays as it is, unless a command that uses it is at work. -/
theorem Neighbourly.get?_eq (h : Neighbourly b s s' loose) (hj : s'.tasks j = s.tasks j)
    (hroot : rootOf s j = some (join b.root name))
    (hroom : s.files.Room s.cwd b.root d name)
    (hquiet : s'.tasks ≠ s.tasks ∨ ¬ IsUsed s j) (hq : d ++ [name] <+: q) :
    s'.files.get? q = s.files.get? q := by
  obtain ⟨way, links, hleads, -⟩ := hroom.leads
  refine h.spares.2.kept way links d hleads q (.inr ((List.prefix_append _ _).trans hq)) ?_
  intro hloose
  obtain ⟨-, hused, hbeside⟩ := h.off_rooms j d name hj hroot hroom q hq hloose
  exact hquiet.elim (· hbeside) (· hused)

theorem Neighbourly.leads (h : Neighbourly b s s' loose) {way : List Place} {links : Nat}
    (hleads : s.files.Leads s.cwd b.root way links d) :
    s'.files.Leads s'.cwd b.root way links d := by
  rw [h.spares.1]
  exact h.spares.2.leads hleads (h.off_way way links d hleads)

theorem Neighbourly.room (h : Neighbourly b s s' loose) (hj : s'.tasks j = s.tasks j)
    (hroot : rootOf s j = some (join b.root name))
    (hroom : s.files.Room s.cwd b.root d name) :
    s'.files.Room s'.cwd b.root d name := by
  rw [h.spares.1]
  refine hroom.of_spares h.spares.2 (fun way links => h.off_way way links d) fun hloose => ?_
  exact (h.off_rooms j d name hj hroot hroom _ (List.prefix_refl _) hloose).1.2 rfl

theorem Neighbourly.housed (h : Neighbourly b s s' loose) (hj : s'.tasks j = s.tasks j)
    (hh : b.Housed s.files s.cwd (s.tasks j).waiting (stay (s.tasks j).past)) :
    b.Housed s'.files s'.cwd (s'.tasks j).waiting (stay (s'.tasks j).past) := by
  rw [hj]
  cases hstay : stay (s.tasks j).past with
  | out => trivial
  | within root stage =>
    rw [hstay] at hh
    obtain ⟨d, name, rfl, hroom, hholds⟩ := hh
    have hroot : rootOf s j = some (join b.root name) := by rw [rootOf, hstay]; rfl
    refine ⟨d, name, rfl, h.room hj hroot hroom, fun hwaiting hstage => ?_⟩
    have hunused : ¬ IsUsed s j := by
      rintro (hw | ⟨root, hw⟩)
      · rw [hw] at hwaiting
        cases hwaiting
      rw [hstay] at hw
      cases hw
      exact hstage rfl
    exact (hholds hwaiting hstage).of_same fun q hq => h.get?_eq hj hroot hroom (.inr hunused) hq.1

/-! ## Turns -/

variable [DecidableEq ι] {r : c.Reply}

/-- Within a workspace only commands are waited for. -/
theorem whereabouts_waits {source : String} {x : Stay} (hmay : b.mayAsk source x c)
    (hwaits : c.waits = true) : x = .out ∧ whereabouts x c r = .out ∨
    ∃ root stage, x = .within root stage ∧ whereabouts x c r = .within root .altered := by
  rcases x with _ | ⟨root, stage⟩
  · cases c with
    | makeDir path => cases hwaits
    | _ => exact .inl ⟨rfl, rfl⟩
  · refine .inr ⟨root, stage, rfl, ?_⟩
    cases c with
    | run command timeout => cases stage <;> rfl
    | lock | awaitJob | awaitInterrupt => cases stage <;> exact hmay.elim
    | _ => cases hwaits

/-- Names have no slash in them. -/
theorem Comes.hears {x : Stay} (h : Comes b x m c r m') : mayHear c r := by
  cases h with
  | answered own answer =>
    cases c with
    | freshId =>
      cases answer
      exact Service.isStem_freshId _
    | _ => trivial
  | failed own fails =>
    cases fails with
    | freshId hid => exact hid
    | _ => trivial
  | aside other spares =>
    cases c with
    | freshId => cases x <;> cases other
    | _ => trivial

/-- A turn brings at most one request one call further. -/
theorem Turn.task_cases (h : Turn b s s') (j : ι) : s'.tasks j = s.tasks j ∨
    (∃ past rest, s.tasks j = ⟨past, rest, false⟩ ∧ s'.tasks j = ⟨past, rest, true⟩) ∨
    ∃ (past : List Event) (c : Call) (next : c.Reply → Program Unit) (waiting : Bool) (r : c.Reply),
    s.tasks j = ⟨past, .call c next, waiting⟩ ∧ s'.tasks j = ⟨past ++ [⟨c, r⟩], next r, false⟩ ∧
    mayHear c r := by
  have hother {m : Machine} {i : ι} {a : Activity Unit} (hij : j ≠ i) :
      (s.setTask m i a).tasks j = s.tasks j := setTask_other s m a hij
  cases h with
  | @made i past c next r m at_ comes =>
    by_cases hij : j = i
    · subst hij
      exact .inr (.inr ⟨past, c, next, false, r, at_, setTask_self .., comes.hears⟩)
    · exact .inl (hother hij)
  | @begun i past c next at_ waits =>
    by_cases hij : j = i
    · subst hij
      exact .inr (.inl ⟨past, _, at_, setTask_self ..⟩)
    · exact .inl (hother hij)
  | @ended i past c next r at_ waits =>
    by_cases hij : j = i
    · subst hij
      refine .inr (.inr ⟨past, c, next, true, r, at_, setTask_self .., ?_⟩)
      cases c with
      | freshId => cases waits
      | _ => trivial
    · exact .inl (hother hij)
  | beside spares => exact .inl rfl

/-- A turn keeps every request to its rules. -/
theorem Turn.keeps (hs : Sound b errands s) (h : Turn b s s') (j : ι) :
    (s'.tasks j).Keeps (b.tenancy (errands j).source) .out (fun x _ => x = .out) ∧
    (∀ e ∈ (s'.tasks j).past, mayHear e.call e.reply) ∧
    b.Rendered (errands j).source (stay (s'.tasks j).past) := by
  have hkeeps := hs.keeps j
  have hheard := hs.heard j
  have hrendered := hs.rendered j
  rcases h.task_cases j with heq | ⟨past, rest, hbefore, hafter⟩ |
    ⟨past, c, next, waiting, r, hbefore, hafter, hhear⟩
  · rw [heq]
    exact ⟨hkeeps, hheard, hrendered⟩
  · rw [hbefore] at hkeeps hheard hrendered
    rw [hafter]
    exact ⟨hkeeps, hheard, hrendered⟩
  · rw [hbefore] at hkeeps hheard hrendered
    obtain ⟨hmay, hnext⟩ := obeys_call.mp hkeeps
    rw [hafter]
    refine ⟨?_, List.forall_mem_append.mpr ⟨hheard, List.forall_mem_singleton.mpr hhear⟩, ?_⟩
    · rw [Activity.Keeps, Activity.phase_concat]
      exact hnext r hhear
    rw [stay_concat]
    exact rendered_after hrendered hmay

theorem roots_setTask (ha : (stay a.past).root? = (stay (s.tasks i).past).root?) (j : ι) :
    rootOf (s.setTask m i a) j = rootOf s j := by
  unfold rootOf
  by_cases hij : j = i
  · subst hij
    rw [setTask_self, ha]
  · rw [setTask_other s m a hij]

theorem Spares.mono {loose' : Place → Prop} (h : b.Spares m m' loose)
    (himp : ∀ q, loose q → loose' q) : b.Spares m m' loose' :=
  ⟨h.1, h.2.closed, fun way links d hleads q hq hloose =>
    h.2.kept way links d hleads q hq fun hl => hloose (himp q hl)⟩

theorem spares_of_kernel (h : m'.kernel = m.kernel) : b.Spares m m' loose := by
  refine ⟨by rw [h], ?_⟩
  rw [h]
  exact ⟨id, fun _ _ _ _ _ _ _ => rfl⟩

/-- What a turn makes of the rooms, and of the request whose turn it is. -/
def Turn.Outcome (b : Workspaces) (s s' : Scene ι fun _ => Unit) : Prop :=
  Move b s s' ∧ ∀ j, s'.tasks j ≠ s.tasks j →
    b.Housed s'.files s'.cwd (s'.tasks j).waiting (stay (s'.tasks j).past)

theorem outcome_setTask (hmove : Move b s (s.setTask m i a))
    (hhoused : b.Housed m.files m.cwd a.waiting (stay a.past)) :
    Turn.Outcome b s (s.setTask m i a) := by
  refine ⟨hmove, fun j hj => ?_⟩
  obtain rfl : j = i := by
    by_contra hne
    exact hj (setTask_other s m a hne)
  rw [setTask_self]
  exact hhoused

section

variable (hs : Sound b errands s)
include hs

/-- A call that concerns workspaces. -/
theorem outcome_of_effect (hinside : b.FilesInside)
    (at_ : s.tasks i = ⟨past, .call c next, false⟩) (own : b.isOwn (stay past) c = true)
    (hcwd : m.cwd = s.cwd)
    (he : Effect s.files s.cwd c r m.files) :
    Turn.Outcome b s (s.setTask m i ⟨past ++ [⟨c, r⟩], next r, false⟩) := by
  have hhoused := hs.housed i
  rw [at_] at hhoused
  obtain ⟨hclosed, hafter, hrooms⟩ := housed_after hs.closed hinside (hs.may at_) own hhoused he
  apply outcome_setTask
  · rcases hrooms with ⟨hroot, hspares⟩ | ⟨d, name, htouches⟩
    · refine .spares (roots_setTask ?_) (Spares.mono ⟨hcwd, hspares⟩ fun _ h => h.elim)
      rw [at_, stay_concat]
      exact hroot
    · refine .touches i d name ?_ (fun j hj => setTask_other s m _ hj) hcwd hclosed ?_
      · rw [setTask_self, at_]
        simp
      rw [setTask_self, at_, stay_concat]
      exact htouches
  · rw [stay_concat, hcwd]
    exact hafter

theorem Turn.outcome (hinside : b.FilesInside) (h : Turn b s s') : Turn.Outcome b s s' := by
  cases h with
  | @made i past c next r m at_ comes =>
    cases comes with
    | answered own answer =>
      obtain ⟨hcwd, he⟩ := effect_of_answer (hs.may at_) own answer
      exact outcome_of_effect hs hinside at_ own hcwd he
    | failed own fails => exact outcome_of_effect hs hinside at_ own rfl fails.effect
    | aside other spares =>
      have hout : stay past = .out ∧ whereabouts (stay past) c r = .out := by
        cases hstay : stay past with
        | within root stage =>
          rw [hstay] at other
          cases other
        | out =>
          rw [hstay] at other
          cases c with
          | makeDir path => cases other
          | _ => exact ⟨rfl, rfl⟩
      apply outcome_setTask
      · refine .spares (roots_setTask ?_) (spares.mono fun _ h => h.elim)
        rw [at_, stay_concat, hout.2, hout.1]
      rw [stay_concat, hout.2]
      trivial
  | @begun i past c next at_ waits =>
    have hhoused := hs.housed i
    rw [at_] at hhoused
    apply outcome_setTask
    · refine .spares (roots_setTask ?_) (spares_of_kernel (Machine.noting_kernel s.machine c))
      rw [at_]
    rw [Machine.noting_kernel]
    cases hstay : stay past with
    | out => trivial
    | within root stage =>
      rw [hstay] at hhoused
      obtain ⟨d, name, hroot, hroom, -⟩ := hhoused
      exact ⟨d, name, hroot, hroom, fun h => by cases h⟩
  | @ended i past c next r at_ waits =>
    have hhoused := hs.housed i
    rw [at_] at hhoused
    have hafter := whereabouts_waits (hs.may at_) waits (r := r)
    apply outcome_setTask
    · refine .spares (roots_setTask ?_) (spares_of_kernel rfl)
      rw [at_, stay_concat]
      rcases hafter with ⟨hbefore, hafter⟩ | ⟨root, stage, hbefore, hafter⟩
      · rw [hafter, hbefore]
      · rw [hafter, hbefore, Stay.root?, Stay.root?]
    · rw [stay_concat]
      rcases hafter with ⟨-, hafter⟩ | ⟨root, stage, hbefore, hafter⟩
      · rw [hafter]
        trivial
      rw [hafter]
      rw [hbefore] at hhoused
      exact hhoused.restage rfl
  | beside spares =>
    exact ⟨.spares (fun _ => rfl) (spares.mono fun _ huse => ⟨rfl, huse⟩),
      fun j hj => absurd rfl hj⟩

/-! ## Runs -/

omit [DecidableEq ι] in
theorem Move.closed (h : Move b s s') : s'.files.Closed := by
  cases h with
  | spares roots spares => exact spares.2.closed hs.closed
  | touches i d name acts others cwd closed touches => exact closed

/-- Nobody enters a room that somebody else has. -/
theorem Move.apart (h : Move b s s') (i j : ι) (root : String)
    (hi : rootOf s' i = some root) (hj : rootOf s' j = some root) : i = j := by
  cases h with
  | spares roots spares =>
    rw [roots] at hi hj
    exact hs.apart i j root hi hj
  | touches k d name acts others cwd closed touches =>
    have hsame (j : ι) (hjk : j ≠ k) : rootOf s' j = rootOf s j := by
      rw [rootOf, rootOf, others j hjk]
    -- Whoever touches a room had it before, or it was not there for anybody to have.
    have hnew (j : ι) (hjk : j ≠ k) (hj : rootOf s' j = some root) (hk : rootOf s' k = some root) :
        False := by
      rw [hsame j hjk] at hj
      obtain rfl : root = join b.root name := by
        rcases touches.after with hafter | ⟨hafter, -⟩
        · exact Option.some.inj (hk.symm.trans hafter)
        · exact absurd (hk.symm.trans hafter) (Option.some_ne_none _)
      rcases touches.before with hbefore | ⟨-, habsent⟩
      · exact hjk (hs.apart j k _ hj hbefore)
      obtain ⟨way, links, hleads, -⟩ := touches.leads
      exact hs.rootOf_ne hleads touches.isName habsent hj
    by_cases hik : i = k
    · by_cases hjk : j = k
      · exact hik.trans hjk.symm
      · exact (hnew j hjk hj (hik ▸ hi)).elim
    · by_cases hjk : j = k
      · exact (hnew i hik hi (hjk ▸ hj)).elim
      rw [hsame i hik] at hi
      rw [hsame j hjk] at hj
      exact hs.apart i j root hi hj

theorem Sound.step (hinside : b.FilesInside) (h : Turn b s s') : Sound b errands s' := by
  obtain ⟨hmove, hactor⟩ := h.outcome hs hinside
  obtain ⟨loose, hneighbourly⟩ := hmove.neighbourly hs
  refine ⟨hmove.closed hs, fun i => (h.keeps hs i).1, fun i => (h.keeps hs i).2.1,
    fun i => (h.keeps hs i).2.2, fun i => ?_, hmove.apart hs⟩
  by_cases hi : s'.tasks i = s.tasks i
  · exact hneighbourly.housed hi (hs.housed i)
  · exact hactor i hi

theorem Runs.sound (hinside : b.FilesInside) (h : Runs b s s') : Sound b errands s' := by
  induction h with
  | refl => exact hs
  | tail _ hlast ih => exact ih.step hinside hlast

end

/-- What stands below the root is in somebody's room, or is what stood there before. -/
structure Since (b : Workspaces) (old : Place → Option Node) (d : Place)
    (s : Scene ι fun _ => Unit) : Prop where
  leads : ∃ way links, s.files.Leads s.cwd b.root way links d
  nested : ∀ name q, old (d ++ [name]) = none → d ++ [name] <+: q → old q = none
  fresh : ∀ i name, Path.IsName name → rootOf s i = some (Path.join b.root name) →
    old (d ++ [name]) = none
  old : ∀ q, IsBelow d q →
    (∃ i name, Path.IsName name ∧ rootOf s i = some (Path.join b.root name) ∧ d ++ [name] <+: q) ∨
      s.files.get? q = old q

variable {old : Place → Option Node}

omit [DecidableEq ι] in
/-- Where nothing is now, nothing was before. -/
theorem Since.eq_none (hs : Sound b errands s) (h : Since b old d s)
    (habsent : s.files.get? (d ++ [name]) = none) : old (d ++ [name]) = none := by
  rcases h.old (d ++ [name]) ⟨List.prefix_append _ _, by simp⟩ with
    ⟨i, name', hname', hroot, hbelow⟩ | hsame
  · obtain rfl : name' = name := by
      have hlist := List.IsPrefix.eq_of_length hbelow (by simp)
      simpa using hlist
    obtain ⟨way, links, hleads⟩ := h.leads
    exact absurd hroot (hs.rootOf_ne hleads hname' habsent)
  · rw [← hsame, habsent]

theorem Since.of_move (hs : Sound b errands s) (h : Since b old d s) (hmove : Move b s s') :
    Since b old d s' := by
  obtain ⟨way, links, hleads⟩ := h.leads
  obtain ⟨loose, hneighbourly⟩ := hmove.neighbourly hs
  have hleads' := hneighbourly.leads hleads
  cases hmove with
  | spares roots spares =>
    refine ⟨⟨way, links, hleads'⟩, h.nested, ?_, ?_⟩
    · intro i name hname hroot
      rw [roots] at hroot
      exact h.fresh i name hname hroot
    · intro q hq
      simp only [roots]
      rcases h.old q hq with hheld | hsame
      · exact .inl hheld
      by_cases huse : InUse s q
      · obtain ⟨i, d', name, hroot, hroom, hbelow, -⟩ := hs.room_of_inUse huse
        obtain ⟨way', links', hleads₁, -⟩ := hroom.leads
        obtain ⟨-, -, rfl⟩ := hleads.unique hleads₁
        exact .inl ⟨i, name, hroom.isName, hroot, hbelow.1⟩
      · right
        rw [spares.2.kept way links d hleads q (.inr hq.1) fun h => huse h.2, hsame]
  | touches k d' name' acts others cwd closed touches =>
    obtain ⟨way', links', hleads₁, -⟩ := touches.leads
    obtain ⟨-, -, rfl⟩ := hleads.unique hleads₁
    have hsame (j : ι) (hjk : j ≠ k) : rootOf s' j = rootOf s j := by
      rw [rootOf, rootOf, others j hjk]
    -- The room that is touched was not there at first.
    have hnew : old (d ++ [name']) = none := by
      rcases touches.before with hbefore | ⟨-, habsent⟩
      · exact h.fresh k name' touches.isName hbefore
      · exact h.eq_none hs habsent
    refine ⟨⟨way, links, hleads'⟩, h.nested, ?_, ?_⟩
    · intro i name hname hroot
      by_cases hik : i = k
      · subst hik
        rcases touches.after with hafter | ⟨hafter, -⟩
        · obtain rfl := join_inj hname touches.isName (Option.some.inj (hroot.symm.trans hafter))
          exact hnew
        · exact absurd (hroot.symm.trans hafter) (Option.some_ne_none _)
      · rw [hsame i hik] at hroot
        exact h.fresh i name hname hroot
    · intro q hq
      by_cases hin : d ++ [name'] <+: q
      · rcases touches.after with hafter | ⟨-, hgone⟩
        · exact .inl ⟨k, name', touches.isName, hafter, hin⟩
        right
        rw [closed.get?_within hgone hin, h.nested name' q hnew hin]
      · rw [touches.alters q hin]
        rcases h.old q hq with ⟨i, name, hname, hroot, hbelow⟩ | hold
        · by_cases hik : i = k
          · subst hik
            rcases touches.before with hbefore | ⟨hbefore, -⟩
            · obtain rfl :=
                join_inj hname touches.isName (Option.some.inj (hroot.symm.trans hbefore))
              exact absurd hbelow hin
            · exact absurd (hroot.symm.trans hbefore) (Option.some_ne_none _)
          · exact .inl ⟨i, name, hname, (hsame i hik).trans hroot, hbelow⟩
        · exact .inr hold

end Workspaces

end Foundry
