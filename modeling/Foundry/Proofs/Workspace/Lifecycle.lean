import Foundry.Proofs.Workspace.Neighbours

/-!
# The life of workspaces

Whatever turns requests take, no two of them share a workspace, each finds in its own what
was written into it until a command changes that, and nothing of a workspace is left once it
is dropped. So the root of the workspaces comes back to what it held before.
-/

namespace Foundry

open Program Files List

namespace Workspaces

variable {ι : Type} {b : Workspaces} {s s' : Scene ι fun _ => Unit} {errands : ι → Errand}

/-! ## Directories that were made -/

/-- There is no directory of that name at the root. -/
def IsGone (b : Workspaces) (s : Scene ι fun _ => Unit) (path : String) : Prop :=
  ∃ way links d name, path = Path.join b.root name ∧ Path.IsName name ∧
    s.files.Leads s.cwd b.root way links d ∧
    s.files.get? (d ++ [name]) = none

/-- A directory that somebody has, or that is gone. -/
def IsSettled (b : Workspaces) (s : Scene ι fun _ => Unit) (path : String) : Prop :=
  (∃ i, rootOf s i = some path) ∨ b.IsGone s path

/-- A directory is given up only by removing it, and comes back only as somebody's. -/
theorem Move.isSettled (hs : Sound b errands s) (h : Move b s s') {path : String}
    (hpath : b.IsSettled s path) : b.IsSettled s' path := by
  obtain ⟨loose, hneighbourly⟩ := h.neighbourly hs
  cases h with
  | spares roots spares =>
    rcases hpath with ⟨i, hi⟩ | ⟨way, links, d, name, rfl, hname, hleads, habsent⟩
    · exact .inl ⟨i, (roots i).trans hi⟩
    have hunused : ¬ InUse s (d ++ [name]) := by
      intro huse
      obtain ⟨i, d', name', -, hroom, hbelow, -⟩ := hs.room_of_inUse huse
      obtain ⟨way', links', hleads', -⟩ := hroom.leads
      obtain ⟨-, -, rfl⟩ := hleads.unique hleads'
      exact hbelow.2 (hbelow.1.eq_of_length (by simp))
    refine .inr ⟨way, links, d, name, rfl, hname, hneighbourly.leads hleads, ?_⟩
    rw [spares.2.kept way links d hleads _ (.inr (prefix_append d [name])) fun h => hunused h.2,
      habsent]
  | touches k d' name' acts others cwd closed touches =>
    obtain ⟨way', links', hleads', -⟩ := touches.leads
    have hown : b.IsSettled s' (Path.join b.root name') := by
      rcases touches.after with hafter | ⟨-, hgone⟩
      · exact .inl ⟨k, hafter⟩
      · exact .inr ⟨way', links', d', name', rfl, touches.isName, hneighbourly.leads hleads', hgone⟩
    rcases hpath with ⟨i, hi⟩ | ⟨way, links, d, name, rfl, hname, hleads, habsent⟩
    · by_cases hik : i = k
      · subst hik
        rcases touches.before with hbefore | ⟨hbefore, -⟩
        · obtain rfl := Option.some.inj (hi.symm.trans hbefore)
          exact hown
        · exact absurd (hi.symm.trans hbefore) (Option.some_ne_none _)
      · refine .inl ⟨i, ?_⟩
        rw [rootOf, others i hik]
        exact hi
    · obtain ⟨-, -, rfl⟩ := hleads.unique hleads'
      by_cases hsame : name = name'
      · subst hsame
        exact hown
      refine .inr ⟨way, links, d, name, rfl, hname, hneighbourly.leads hleads, ?_⟩
      rw [touches.alters _ (not_prefix_of_ne hsame (prefix_refl _)), habsent]

/-- Every directory that a request has made one by one is somebody's, or gone. -/
def AllSettled (b : Workspaces) (s : Scene ι fun _ => Unit) : Prop :=
  ∀ i path, (⟨.makeDir path, .ok ()⟩ : Event) ∈ (s.tasks i).past → b.IsSettled s path

variable [DecidableEq ι]

theorem AllSettled.step (hs : Sound b errands s) (hinside : b.FilesInside) (h : Turn b s s')
    (hall : b.AllSettled s) : b.AllSettled s' := by
  obtain ⟨hmove, -⟩ := h.outcome hs hinside
  intro i path hmem
  rcases h.task_cases i with heq | ⟨past, rest, hbefore, hafter⟩ |
    ⟨past, c, next, waiting, r, hbefore, hafter, -⟩
  · rw [heq] at hmem
    exact hmove.isSettled hs (hall i path hmem)
  · rw [hafter] at hmem
    exact hmove.isSettled hs (hall i path (by rw [hbefore]; exact hmem))
  rw [hafter] at hmem
  rcases mem_append.mp hmem with hold | hnew
  · exact hmove.isSettled hs (hall i path (by rw [hbefore]; exact hold))
  -- whoever has just made a directory has it
  obtain heq := mem_singleton.mp hnew
  cases heq
  refine .inl ⟨i, ?_⟩
  rw [rootOf, hafter, stay_concat]
  have hmay := hs.may hbefore
  cases hstay : stay past with
  | out => rfl
  | within root stage =>
    rw [hstay] at hmay
    cases stage <;> exact hmay.elim

/-! ## Whole runs -/

theorem Runs.allSettled (hs : Sound b errands s) (hinside : b.FilesInside) (h : Runs b s s')
    (hall : b.AllSettled s) : b.AllSettled s' := by
  induction h with
  | refl => exact hall
  | tail hbefore hlast ih => exact ih.step (Runs.sound hs hinside hbefore) hinside hlast

theorem Runs.since {old : Place → Option Node} {d : Place} (hs : Sound b errands s)
    (hinside : b.FilesInside) (h : Runs b s s') (hsince : Since b old d s) : Since b old d s' := by
  induction h with
  | refl => exact hsince
  | tail hbefore hlast ih =>
    have hsound : Sound b errands _ := Runs.sound hs hinside hbefore
    exact ih.of_move hsound (hlast.outcome hsound hinside).1

omit [DecidableEq ι] in
/-- When nobody has a workspace, all that stands at the root is from before. -/
theorem since_self (hc : s.files.Closed) (hnone : ∀ i, rootOf s i = none) {way : List Place}
    {links : Nat} {d : Place} (hleads : s.files.Leads s.cwd b.root way links d) :
    Since b s.files.get? d s := by
  refine ⟨⟨way, links, hleads⟩, fun _ _ => hc.get?_within, ?_, fun q _ => .inr rfl⟩
  intro i name _ hroot
  rw [hnone] at hroot
  cases hroot

/-- The beginning: nobody has asked for anything. -/
def opening (service : Service) (errands : ι → Errand) (m : Machine) : Scene ι fun _ => Unit :=
  ⟨m, fun i => { rest := (errands i).program service }⟩

omit [DecidableEq ι] in
theorem sound_opening {service : Service} {m : Machine} (hclosed : m.files.Closed) :
    Sound service.workspaces errands (opening service errands m) :=
  ⟨hclosed, fun i => ((errands i).behaves_program service).fst (fun _ _ _ _ h => h)
    fun _ _ _ h => congrArg Prod.fst h, fun _ _ he => (by cases he), fun _ => trivial,
    fun _ => trivial, fun i _ root hi _ => by cases hi⟩

/-- What holds of the workspaces of requests at any time. -/
structure Orderly (b : Workspaces) (errands : ι → Errand) (s : Scene ι fun _ => Unit) : Prop where
  apart : ∀ i j root, rootOf s i = some root → rootOf s j = some root → i = j
  /-- Until a command runs in it, a workspace holds what has been written so far, as it was rendered
  for its request, and nothing else. -/
  holds : ∀ i root stage, stay (s.tasks i).past = .within root stage → (s.tasks i).waiting = false →
    stage ≠ .altered → b.Rendered (errands i).source (.within root stage) ∧
      ∃ d name, root = Path.join b.root name ∧
        s.files.Room s.cwd b.root d name ∧
        s.files.Holds (d ++ [name]) [b.manifestAt, b.sourceAt] (b.contents stage)
  /-- A workspace whose creation has returned has both its files, until a command runs in it. -/
  created : ∀ i before made later advised dependency, (s.tasks i).past = before ++ made ++ later →
    stay before = .out → Course (b.create (errands i).source dependency).run made (.ok advised) →
    (∀ e ∈ later, IsInert e.call) →
    ∃ manifest text, stay (s.tasks i).past = .within advised.value.root (.ready manifest text)
  /-- Whatever others do, a failing creation included, changes nothing in a workspace. Only its own
  commands do, beside the turns of requests. -/
  undisturbed : ∀ s', Turn b s s' → ∀ j d name, s'.tasks j = s.tasks j →
    rootOf s j = some (Path.join b.root name) →
    s.files.Room s.cwd b.root d name →
    s'.tasks ≠ s.tasks ∨ ¬ IsUsed s j →
    ∀ q, d ++ [name] <+: q → s'.files.get? q = s.files.get? q
  /-- Of what a request has made nothing is left once it has no workspace, unless somebody else has
  made a directory under the same name. -/
  removed : ∀ i path, (⟨.makeDir path, .ok ()⟩ : Event) ∈ (s.tasks i).past →
    stay (s.tasks i).past = .out → (∃ j, j ≠ i ∧ rootOf s j = some path) ∨ b.IsGone s path
  ended : ∀ i, (s.tasks i).rest = .done () → stay (s.tasks i).past = .out
  /-- From one time at which nobody has a workspace to another the root holds the same. -/
  restored : ∀ s', Runs b s s' → (∀ i, rootOf s i = none) → (∀ i, rootOf s' i = none) →
    ∀ way links d, s.files.Leads s.cwd b.root way links d →
      (∃ way links, s'.files.Leads s'.cwd b.root way links d) ∧
      ∀ q, IsBelow d q → s'.files.get? q = s.files.get? q

/-- Requests that make and drop workspaces in any order, with any names and any failures on the
way, keep order among themselves. -/
theorem workspaces_keep_order {service : Service} {m : Machine}
    (hinside : service.workspaces.FilesInside) (hclosed : m.files.Closed)
    (hruns : Runs service.workspaces (opening service errands m) s) :
    Orderly service.workspaces errands s := by
  have hsound := Runs.sound (sound_opening hclosed) hinside hruns
  have hsettled := Runs.allSettled (sound_opening hclosed) hinside hruns
    fun i path hmem => by cases hmem
  refine ⟨hsound.apart, ?_, ?_, ?_, ?_, ?_, ?_⟩
  · intro i root stage hstay hwaiting hstage
    have hrendered := hsound.rendered i
    have hhoused := hsound.housed i
    rw [hstay] at hrendered hhoused
    obtain ⟨d, name, hroot, hroom, hholds⟩ := hhoused
    exact ⟨hrendered, d, name, hroot, hroom, hholds hwaiting hstage⟩
  · intro i before made later advised dependency hpast hout hcreate hinert
    have hheard (e : Event) (he : e ∈ made) : mayHear e.call e.reply :=
      hsound.heard i e (by rw [hpast]; simp [he])
    have hmakes : (service.workspaces.create (errands i).source dependency).run.Obeys
        (service.workspaces.tenancy (errands i).source) (fun x r => ∃ dues, Created (x, dues) r)
          .out :=
      (behaves_create dependency).fst (fun _ _ _ _ h => h) fun _ dues _ h => ⟨dues, h⟩
    obtain ⟨dues, manifest, text, hready⟩ := hcreate.ends hmakes fun e he _ => hheard e he
    refine ⟨manifest, text, ?_⟩
    rw [hpast, stay_append_inert hinert, stay, foldl_append, ← stay, hout]
    exact congrArg Prod.fst hready
  · intro s' hturn j d name hj hroot hroom hunused q hq
    obtain ⟨loose, hneighbourly⟩ := (hturn.outcome hsound hinside).1.neighbourly hsound
    exact hneighbourly.get?_eq hj hroot hroom hunused hq
  · intro i path hmade hout
    rcases hsettled i path hmade with ⟨j, hj⟩ | hgone
    · refine Or.inl ⟨j, ?_, hj⟩
      rintro rfl
      rw [rootOf, hout] at hj
      cases hj
    · exact Or.inr hgone
  · exact fun i => hsound.out_of_done
  intro s' hlater hnone hnone' way links d hleads
  have hsince := Runs.since hsound hinside hlater (since_self hsound.closed hnone hleads)
  refine ⟨hsince.leads, fun q hq => ?_⟩
  rcases hsince.old q hq with ⟨i, name, -, hroot, -⟩ | hsame
  · rw [hnone'] at hroot
    cases hroot
  · exact hsame

/-! ## Two requests -/

@[reducible] def twoErrands : Fin 2 → Errand
  | 0 => .keep "a" .remote
  | 1 => .keep "b" .remote

/-- The next turn of a request that looks at the clock, or whose call concerns workspaces and is
answered at once. -/
def turn? (b : Workspaces) (s : Scene ι fun _ => Unit) (i : ι) : Option (Scene ι fun _ => Unit) :=
  match s.tasks i with
  | ⟨past, .call .clock next, false⟩ =>
    let now := s.now
    some (s.setTask s.machine i ⟨past ++ [⟨.clock, now⟩], next now, false⟩)
  | ⟨past, .call c next, false⟩ =>
    if b.isOwn (stay past) c then
      (s.machine.answer? c).map fun a => s.setTask a.1 i ⟨past ++ [⟨c, a.2⟩], next a.2, false⟩
    else none
  | _ => none

theorem turn_of_turn? {i : ι} (h : b.turn? s i = some s') : Turn b s s' := by
  unfold turn? at h
  split at h
  · rename_i past next at_
    cases h
    cases hown : b.isOwn (stay past) .clock with
    | true => exact .made at_ (.answered hown rfl)
    | false => exact .made at_ (.aside hown (spares_of_kernel rfl))
  · rename_i _ at_
    split at h
    · rename_i hown
      obtain ⟨⟨m, r⟩, hr, rfl⟩ := Option.map_eq_some_iff.mp h
      exact .made at_ (.answered hown hr)
    · cases h
  · cases h

theorem runs_of_turns? {order : List ι} (h : order.foldlM b.turn? s = some s') : Runs b s s' := by
  induction order generalizing s with
  | nil =>
    cases h
    exact Relation.ReflTransGen.refl
  | cons i rest ih =>
    obtain ⟨s₁, hfirst, hrest⟩ := Option.bind_eq_some_iff.mp h
    exact Relation.ReflTransGen.head (turn_of_turn? hfirst) (ih hrest)

theorem filesInside_plain {tools : Toolchain}
    (h : Path.isAbsolute tools.manifestFile = false ∧ ".." ∉ Path.names tools.manifestFile)
    (h' : Path.isAbsolute tools.sourceFile = false ∧ ".." ∉ Path.names tools.sourceFile) :
    (Service.plain tools).workspaces.FilesInside := by
  intro file hfile
  simp only [mem_cons, not_mem_nil, or_false] at hfile
  rcases hfile with rfl | rfl
  · exact h
  · exact h'

theorem closed_bare : Machine.bare.files.Closed := by
  intro p name n hn
  have hnone : Machine.bare.files.get? (p ++ [name]) = none := Files.get?_of_ne _ (by simp)
  rw [hnone] at hn
  cases hn

/-- Whether the two files of a workspace are there. -/
def Stay.isReady : Stay → Bool
  | .within _ (.ready ..) => true
  | _ => false

theorem workspaces_keep_order_two : ∃ s : Scene (Fin 2) fun _ => Unit,
    Runs Service.tidy.workspaces (opening Service.tidy twoErrands .bare) s ∧
    (stay (s.tasks 0).past).isReady = true ∧ (stay (s.tasks 1).past).isReady = true ∧
    Orderly Service.tidy.workspaces twoErrands s := by
  have hplay : ((List.replicate 9 [0, 1]).flatten.foldlM Service.tidy.workspaces.turn?
      (opening Service.tidy twoErrands .bare)).map
        (fun s => ((stay (s.tasks 0).past).isReady, (stay (s.tasks 1).past).isReady)) =
      some (true, true) := by
    decide +kernel
  obtain ⟨s, hs, hready⟩ := Option.map_eq_some_iff.mp hplay
  obtain ⟨hfirst, hsecond⟩ := Prod.mk.inj hready
  have hinside : Service.tidy.workspaces.FilesInside :=
    filesInside_plain (by decide +kernel) (by decide +kernel)
  exact ⟨s, runs_of_turns? hs, hfirst, hsecond,
    workspaces_keep_order hinside closed_bare (runs_of_turns? hs)⟩

/-- A service that with every workspace removes the root of all of them. -/
def sweeping : Service := Service.plain { Service.plainTools "m" "" with artifacts := ["/w"] }

/-- Everything is answered by the machine, and nothing happens besides. -/
def undisturbed : Rules (Fin 2) fun _ => Unit :=
  ⟨fun _ _ _ _ _ => True, fun _ _ _ _ _ => False, fun _ _ => False⟩

/-- The pattern that only the root of the workspaces matches. -/
def rootPattern : Glob.Pattern := ⟨true, [[.char 'w']], false⟩

theorem sweep_root (fs : Files) (cwd : Place) :
    fs.sweep cwd "/w" = sweepFrom rootPattern cwd maxLeads fs (Glob.start fs cwd rootPattern) := by
  have hparse : Glob.Pattern.parse "/w" = .ok rootPattern := by decide +kernel
  rw [sweep, hparse]

/-- Whether the next thing a request does is to sweep the root. -/
def sweepsRoot : Activity Unit → Bool
  | ⟨_, .call (.sweep pattern) _, false⟩ => pattern == "/w"
  | _ => false

theorem exists_of_sweepsRoot {a : Activity Unit} (h : sweepsRoot a = true) :
    ∃ past next, a = ⟨past, .call (.sweep "/w") next, false⟩ := by
  unfold sweepsRoot at h
  split at h
  · rename_i past pattern next
    obtain rfl := eq_of_beq h
    exact ⟨past, next, rfl⟩
  · cases h

/-- A pattern for the root itself matches nothing below it, and yet the workspace of one request is
gone when another is dropped. -/
theorem live_workspace_swept : ∃ s : Scene (Fin 2) fun _ => Unit,
    Scene.Runs undisturbed (opening sweeping twoErrands .bare) s ∧
    sweeping.workspaces.toolchain.artifacts = [sweeping.workspaces.root] ∧
    sweeping.workspaces.FilesInside ∧ (stay (s.tasks 1).past).isReady = true ∧
    (rootOf s 1).map (s.files.exists? s.cwd) = some false := by
  have hplay : ((opening sweeping twoErrands .bare).play (fun _ _ => true) (fun _ _ _ => none)
      (List.replicate 9 0 ++ List.replicate 9 1 ++ List.replicate 2 0)).map
        (fun s => (sweepsRoot (s.tasks 0), (stay (s.tasks 1).past).isReady,
          (rootOf s 1).map ((sweepFrom rootPattern s.cwd maxLeads s.files
            (Glob.start s.files s.cwd rootPattern)).1.exists?
              s.cwd))) = some (true, true, some false) := by
    decide +kernel
  obtain ⟨s, hs, hlast⟩ := Option.map_eq_some_iff.mp hplay
  obtain ⟨hnext, hlast⟩ := Prod.mk.inj hlast
  obtain ⟨hready, hgone⟩ := Prod.mk.inj hlast
  obtain ⟨past, next, at_⟩ := exists_of_sweepsRoot hnext
  have hruns : Scene.Runs undisturbed (opening sweeping twoErrands .bare) s :=
    Scene.runs_of_play (fun _ _ _ _ _ _ _ => trivial) (fun _ _ _ _ _ h => by cases h) hs
  have hinside : sweeping.workspaces.FilesInside :=
    filesInside_plain (by decide +kernel) (by decide +kernel)
  refine ⟨_, hruns.tail (.call at_ rfl trivial), rfl, hinside, ?_, ?_⟩
  · rw [Scene.setTask_other _ _ _ (by decide)]
    exact hready
  rw [rootOf, Scene.setTask_other _ _ _ (by decide)]
  rw [← sweep_root] at hgone
  exact hgone

end Workspaces

end Foundry
