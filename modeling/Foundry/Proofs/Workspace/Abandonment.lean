import Foundry.Proofs.Workspace.Debts

/-!
# Abandoned requests

A request can be abandoned wherever it waits for a call. Its command is killed, and the
workspace that it owes is removed. What it had asked for may still be done, before the removal
or after it. What is done before is removed with the workspace, and what comes after mostly finds
no way into it any more: then nothing of the request is left at the root, whatever others do
meanwhile.

Two calls are exceptions. A directory that is being made for a workspace is owed by nobody
yet, and directories that are made above a file make the workspace itself anew. Nobody removes
these directories, and nothing else can be left.
-/

namespace Foundry

open List Machine Foundry.Path

/-! ## Paths through what is gone -/

/-- A relative path has a name, unless it is empty. -/
theorem Path.eq_empty_of_names {file : String} (hrel : isAbsolute file = false)
    (hnames : names file = []) : file = "" := by
  have hparts (part : List Char) (hpart : part ∈ file.toList.splitOn '/') : part = [] := by
    by_contra hne
    have hmem : String.ofList part ∈ names file := by
      refine mem_filter.mpr ⟨mem_map.mpr ⟨part, hpart, rfl⟩, ?_⟩
      simpa using hne
    rw [hnames] at hmem
    cases hmem
  have hjoined : ['/'].intercalate (file.toList.splitOn '/') = file.toList := intercalate_splitOn ..
  have hempty : file.toList = [] := by
    cases hsplit : file.toList.splitOn '/' with
    | nil => simpa [hsplit] using hjoined.symm
    | cons first rest =>
      rw [hsplit] at hparts hjoined
      obtain rfl := hparts first mem_cons_self
      cases rest with
      | nil => simpa using hjoined.symm
      | cons second more =>
        rw [isAbsolute, ← hjoined] at hrel
        simp [List.intercalate, List.intersperse] at hrel
  simpa using hempty

namespace Files

variable {fs : Files} {cwd d : Place} {dir name : String} {way : List Place} {links : Nat}

/-- A path by a name that is not there ends at that name. -/
theorem Leads.locate_missing (h : fs.Leads cwd dir way links d) (hname : IsName name)
    (habsent : fs.get? (d ++ [name]) = none) {path : String} {part : List String}
    (hnames : names path = names dir ++ (name :: part))
    (hstart : startOf cwd path = startOf cwd dir) {follow : Bool} {t : Target}
    (hl : fs.locate cwd follow path = .ok t) :
    part = [] ∧ t = ⟨d ++ [name], none, path.endsWith "/"⟩ := by
  have hwalk : fs.walk follow maxLinks (path.endsWith "/") (startOf cwd path) (names path) =
      .ok t :=
    walk_of_locate hl
  rw [hnames, hstart, h.reaches.walk_append (cons_ne_nil _ _)] at hwalk
  cases walks_of_walk hwalk with
  | dot hdot => exact absurd hdot hname.ne_dot
  | up hdots => exact absurd hdots hname.ne_dots
  | last => exact ⟨rfl, by rw [habsent]⟩
  | down _ _ hdir => cases habsent.symm.trans hdir
  | link _ hlink => cases habsent.symm.trans hlink

/-- Nothing can be written into what is gone. -/
theorem Leads.write_missing (h : fs.Leads cwd dir way links d) (hname : IsName name)
    (habsent : fs.get? (d ++ [name]) = none) {file : String} (hfile : isAbsolute file = false)
    (bytes : ByteArray) :
    ∃ e, fs.write cwd (Path.join (Path.join dir name) file) bytes = .error e := by
  cases hw : fs.write cwd (Path.join (Path.join dir name) file) bytes with
  | error e => exact ⟨e, rfl⟩
  | ok fs' =>
    exfalso
    cases hl : fs.locate cwd true (Path.join (Path.join dir name) file) with
    | error e => simp [write, edit, openForWriting, hl, bind, Except.bind] at hw
    | ok t =>
      obtain ⟨hpart, rfl⟩ := h.locate_missing hname habsent (names_inside hname hfile)
        (startOf_inside hname hfile) hl
      obtain rfl := eq_empty_of_names hfile hpart
      -- the empty path adds a slash, and only a directory may end in one
      have hslash : (Path.join (Path.join dir name) "").endsWith "/" = true := by
        have hroot : (Path.join dir name).endsWith "/" = false := endsWith_join hname
        have hlast := endsWith_slash.mp hroot
        have hsome : Path.join dir name ≠ "" := join_ne_empty hname
        have hne : (Path.join dir name).isEmpty = false := by simpa using hsome
        have hrel : isAbsolute "" = false := rfl
        have hjoin : Path.join (Path.join dir name) "" = Path.join dir name ++ "/" := by
          rw [Path.join, hrel, hne, Bool.or_false, if_neg Bool.false_ne_true, if_neg hlast]
          simp
        rw [hjoin, ← Bool.not_eq_false, endsWith_slash]
        simp
      simp [write, edit, openForWriting, hl, hslash, bind, Except.bind] at hw

theorem Leads.setMode_missing (h : fs.Leads cwd dir way links d) (hname : IsName name)
    (habsent : fs.get? (d ++ [name]) = none) (mode : Nat) :
    ∃ e, fs.setMode cwd (Path.join dir name) mode = .error e := by
  cases hl : fs.locate cwd true (Path.join dir name) with
  | error e => exact ⟨e, by simp [setMode, find, hl, bind, Except.bind]⟩
  | ok t =>
    have hnames : names (Path.join dir name) = names dir ++ (name :: []) := names_join_name hname
    obtain ⟨-, rfl⟩ := h.locate_missing hname habsent hnames (startOf_join hname) hl
    exact ⟨.notFound, by simp [setMode, find, hl, bind, Except.bind]⟩

end Files

open Program Files

namespace Workspaces

variable {source root : String} {past : List Event} {m : Machine} {p : Program Unit}
  {groups : List Nat} {t : Task Unit}
variable {ι : Type} {b : Workspaces} {s s' s₁ s₂ : Scene ι fun _ => Unit} {errands : ι → Errand}

/-! ## Abandonment -/

theorem behaves_removeWorkspace (artifacts : List String) (stage : Stage) :
    (removeWorkspace root artifacts).Obeys (b.tenancy source) (fun x _ => x = .out)
    (.within root stage) := by
  have hdrop : b.Behaves source (⟨root, "", "", "", artifacts⟩ : Workspace).drop
      (fun x _ => x = (.out, .clear)) _ := behaves_drop _ stage
  have hsame : whereabouts (.within root stage) .settle () = .within root stage :=
    whereabouts_inert trivial
  rw [← hsame]
  exact ((obeys_call.mp hdrop).2 () ⟨trivial, trivial⟩).fst (fun _ _ _ _ h => h)
    fun _ _ _ h => congrArg Prod.fst h

/-- Whoever pays what is owed for a workspace leaves it. -/
theorem behaves_payAll (h : OwesStay past) :
    (payAll (debtsOf past)).Obeys (b.tenancy source) (fun x _ => x = .out) (stay past) := by
  rcases h with ⟨hroot, hdebts⟩ | ⟨root, artifacts, hroot, hdebts⟩
  · rw [hdebts, Stay.root?_eq_none.mp hroot]
    exact obeys_done.mpr rfl
  obtain ⟨stage, hstay⟩ := Stay.root?_eq_some.mp hroot
  rw [hdebts, hstay]
  apply obeys_bind (behaves_removeWorkspace artifacts stage)
  rintro _ _ rfl
  exact obeys_done.mpr rfl

variable [DecidableEq ι] {i : ι}

/-- How far a request gets that is abandoned at a call: the call is not made, or it is over before
anything is paid. -/
inductive Halts (b : Workspaces) (s : Scene ι fun _ => Unit) (i : ι) :
    Scene ι (fun _ => Unit) → Prop
  | before {past : List Event} {c : Call} {next : c.Reply → Program Unit}
      (at_ : s.tasks i = ⟨past, .call c next, false⟩) (pause : IsPause c) : Halts b s i s
  | after {past : List Event} {c : Call} {next : c.Reply → Program Unit} {waiting : Bool}
      {r : c.Reply}
      {s' : Scene ι fun _ => Unit} (at_ : s.tasks i = ⟨past, .call c next, waiting⟩)
      (pause : IsPause c) (made : ∀ path, c ≠ .makeDir path) (turn : Turn b s s')
      (reply : s'.tasks i = ⟨past ++ [⟨c, r⟩], next r, false⟩) : Halts b s i s'

/-- From now on a request only pays its debts. -/
def forsake (s : Scene ι fun _ => Unit) (i : ι) : Scene ι fun _ => Unit :=
  s.setTask s.machine i ⟨(s.tasks i).past, Machine.payAll (debtsOf (s.tasks i).past), false⟩

theorem past_forsake (s : Scene ι fun _ => Unit) (i j : ι) :
    ((forsake s i).tasks j).past = (s.tasks j).past := by
  unfold forsake
  by_cases hij : j = i
  · subst hij
    rw [Scene.setTask_self]
  · rw [Scene.setTask_other _ _ _ hij]

theorem rootOf_forsake (s : Scene ι fun _ => Unit) (i j : ι) :
    rootOf (forsake s i) j = rootOf s j := by
  rw [rootOf, rootOf, past_forsake]

theorem Halts.runs (h : Halts b s i s₁) : Runs b s s₁ := by
  cases h with
  | before => exact Relation.ReflTransGen.refl
  | after _ _ _ turn _ => exact Relation.ReflTransGen.single turn

/-- Where a request halts it waits for nothing, and owes what it has. -/
theorem Halts.owes (hs : Indebted s) (h : Halts b s i s₁) :
    (s₁.tasks i).waiting = false ∧ OwesStay (s₁.tasks i).past := by
  cases h with
  | before at_ pause =>
    rw [at_]
    exact ⟨rfl, hs.owes at_ pause⟩
  | @after past c next waiting r _ at_ pause made turn reply =>
    have hroot : (stay (past ++ [⟨c, r⟩])).root? = (stay past).root? := by
      rw [stay_concat]
      exact whereabouts_root made pause.2
    have hdebts : debtsOf (past ++ [⟨c, r⟩]) = debtsOf past := by
      rw [debtsOf_concat]
      cases c with
      | owe | settle => cases pause.1
      | _ => rfl
    rw [reply]
    refine ⟨rfl, ?_⟩
    rw [OwesStay, hdebts, hroot]
    exact hs.owes at_ pause

theorem Sound.forsake (hs : Sound b errands s) (hwaiting : (s.tasks i).waiting = false)
    (howes : OwesStay (s.tasks i).past) : Sound b errands (forsake s i) := by
  have hother (j : ι) (hij : j ≠ i) : (Workspaces.forsake s i).tasks j = s.tasks j :=
    Scene.setTask_other _ _ _ hij
  constructor
  · exact hs.closed
  · intro j
    by_cases hij : j = i
    · subst hij
      rw [Workspaces.forsake, Scene.setTask_self]
      exact behaves_payAll howes
    · rw [hother j hij]
      exact hs.keeps j
  · intro j
    rw [past_forsake]
    exact hs.heard j
  · intro j
    rw [past_forsake]
    exact hs.rendered j
  · intro j
    by_cases hij : j = i
    · subst hij
      have hhoused := hs.housed j
      rw [hwaiting] at hhoused
      rw [Workspaces.forsake, Scene.setTask_self]
      exact hhoused
    · rw [hother j hij]
      exact hs.housed j
  · intro j k root hj hk
    rw [rootOf_forsake] at hj hk
    exact hs.apart j k root hj hk

omit [DecidableEq ι] in
theorem IsSettled.of_same {path : String} (h : b.IsSettled s path)
    (hmachine : s'.machine = s.machine)
    (hroots : ∀ i, rootOf s' i = rootOf s i) : b.IsSettled s' path := by
  rcases h with ⟨i, hi⟩ | ⟨way, links, d, name, hpath, hname, hleads, habsent⟩
  · exact .inl ⟨i, (hroots i).trans hi⟩
  · exact .inr ⟨way, links, d, name, hpath, hname, hmachine ▸ hleads, hmachine ▸ habsent⟩

theorem AllSettled.forsake (hall : b.AllSettled s) (i : ι) : b.AllSettled (forsake s i) := by
  intro j path hmem
  rw [past_forsake] at hmem
  have hsettled : b.IsSettled s path := hall j path hmem
  exact hsettled.of_same rfl (rootOf_forsake s i)

theorem Since.forsake {old : Place → Option Node} {d : Place} (h : Since b old d s) (i : ι) :
    Since b old d (forsake s i) := by
  obtain ⟨hleads, hnested, hfresh, hold⟩ := h
  refine ⟨hleads, hnested, ?_, ?_⟩
  · intro j name hname hroot
    rw [rootOf_forsake] at hroot
    exact hfresh j name hname hroot
  · intro q hq
    simp only [rootOf_forsake]
    exact hold q hq

/-- What has happened has happened. -/
theorem Turn.past_isPrefix (h : Turn b s s') (i : ι) : (s.tasks i).past <+: (s'.tasks i).past := by
  rcases h.task_cases i with heq | ⟨past, rest, hbefore, hafter⟩ |
    ⟨past, c, next, waiting, r, hbefore, hafter, -⟩
  · exact heq ▸ prefix_refl _
  · have heq : (s'.tasks i).past = (s.tasks i).past := by rw [hbefore, hafter]
    exact heq ▸ prefix_refl _
  rw [hbefore, hafter]
  exact prefix_append _ _

theorem Runs.past_isPrefix (h : Runs b s s') (i : ι) : (s.tasks i).past <+: (s'.tasks i).past := by
  induction h with
  | refl => exact prefix_refl _
  | tail _ hlast ih => exact ih.trans (hlast.past_isPrefix i)

/-! ## What is left -/

/-- What is left of a request that was abandoned in one scene, in a later one. -/
structure Vanishes (b : Workspaces) (m : Machine) (s s' : Scene ι fun _ => Unit) (i : ι) :
    Prop where
  /-- Once all is paid, no directory that it made for itself is there, unless somebody else has made
  one under the same name. -/
  removed : (s'.tasks i).rest = .done () → ∀ path, (⟨.makeDir path, .ok ()⟩ : Event) ∈
    (s.tasks i).past → (∃ j, j ≠ i ∧ rootOf s' j = some path) ∨ b.IsGone s' path
  /-- What then stands below the root is in the workspace of somebody else, or is what stood there
  when the service began. -/
  restored : (s'.tasks i).rest = .done () → ∀ way links d, m.files.Leads m.cwd b.root way links d →
    ∀ q, IsBelow d q →
      (∃ j name, j ≠ i ∧ rootOf s' j = some (Path.join b.root name) ∧ d ++ [name] <+: q) ∨
        s'.files.get? q = m.files.get? q

/-- Whoever is in a workspace has made its directory. -/
theorem made_of_root (h : (stay past).root? = some root) :
    (⟨.makeDir root, .ok ()⟩ : Event) ∈ past := by
  induction past using List.reverseRecOn with
  | nil => cases h
  | append_singleton past e ih =>
    obtain ⟨c, r⟩ := e
    rw [stay_concat] at h
    have hbefore (hsame : (whereabouts (stay past) c r).root? = (stay past).root?) :
        (⟨.makeDir root, .ok ()⟩ : Event) ∈ past ++ [⟨c, r⟩] :=
      mem_append_left _ (ih (hsame ▸ h))
    cases c with
    | makeDir path =>
      cases hstay : stay past with
      | within root' stage => exact hbefore (by rw [hstay]; cases stage <;> rfl)
      | out =>
        cases r with
        | error e => exact hbefore (by rw [hstay]; rfl)
        | ok made =>
          rw [hstay] at h
          cases h
          exact mem_append_right _ (mem_singleton_self _)
    | removeTree path =>
      cases hstay : stay past with
      | out => exact hbefore (by rw [hstay]; rfl)
      | within root' stage =>
        rw [hstay] at h
        cases stage <;> cases h
    | _ => exact hbefore (whereabouts_root (fun _ => Call.noConfusion) fun _ => Call.noConfusion)

/-! ## Operations that come late -/

section Late

variable {fs' : Files} {x : Stay} {c : Call} {r : c.Reply} (hinside : b.FilesInside)
  (hmay : b.mayAsk source x c) (hpause : IsPause c) (hgone : ∀ root, x.root? = some root →
    b.IsGone s root)
include hinside hmay hpause hgone

omit [DecidableEq ι] in
/-- An operation of a request whose workspace is gone makes directories, or nothing. -/
theorem Effect.late (hown : b.isOwn x c = true) (he : Effect s.files s.cwd c r fs') :
    s.files.GainsDirs fs' := by
  have hwrite {path : String} {bytes part : ByteArray}
      (hmay : b.mayAsk source x (.writeFile path bytes))
      (hw : s.files.write s.cwd path part = .ok fs') (hin : x.root? ≠ none) : False := by
    rcases x with _ | ⟨root, stage⟩
    · exact hin rfl
    obtain ⟨file, hfile, rfl⟩ : ∃ file ∈ [b.toolchain.manifestFile, b.toolchain.sourceFile],
        path = Path.join root file := by
      cases stage with
      | bare | half => exact ⟨_, by simp, hmay.1⟩
      | ready | altered => exact hmay.elim
    obtain ⟨way, links, d, name, rfl, hname, hleads, habsent⟩ := hgone root rfl
    obtain ⟨e, he⟩ := hleads.write_missing hname habsent (hinside file hfile).1 part
    cases he.symm.trans hw
  cases he with
  | inert | freshId | noDir => exact .refl _
  | makeDir hm => exact gainsDirs_makeDir hm
  | makeDirs r hm =>
    rcases hm with rfl | ⟨dir, -, -, rfl⟩
    · exact .refl _
    · exact gainsDirs_makeDirs _ _ dir
  | @restrict path _ r hm =>
    rcases x with _ | ⟨root, stage⟩
    · cases hown
    obtain rfl : path = root := by cases stage <;> exact hmay
    rcases hm with rfl | ⟨mode, hm⟩
    · exact .refl _
    obtain ⟨way, links, d, name, rfl, hname, hleads, habsent⟩ := hgone path rfl
    obtain ⟨e, he⟩ := hleads.setMode_missing hname habsent mode
    cases he.symm.trans hm
  | written hw =>
    refine (hwrite hmay hw ?_).elim
    rintro hout
    rw [Stay.root?_eq_none.mp hout] at hown
    cases hown
  | notWritten e hw =>
    rcases hw with rfl | ⟨part, hw⟩
    · exact .refl _
    refine (hwrite hmay hw ?_).elim
    rintro hout
    rw [Stay.root?_eq_none.mp hout] at hown
    cases hown
  | removeTree r => exact absurd rfl (hpause.2 _)

omit [DecidableEq ι] in
/-- The operation at which a request was abandoned comes to its end, and nobody hears of it. -/
theorem Comes.late {m' : Machine} (h : Comes b x s.machine c r m') :
    b.Spares s.machine m' (fun _ => False) ∨ s.files.GainsDirs m'.files := by
  cases h with
  | answered own answer =>
    obtain ⟨-, he⟩ := effect_of_answer hmay own answer
    exact .inr (he.late hinside hmay hpause hgone own)
  | failed own fails => exact .inr (fails.effect.late hinside hmay hpause hgone own)
  | aside other spares => exact .inl spares

end Late

section

variable {service : Service} (hinside : service.workspaces.FilesInside) (hclosed : m.files.Closed)
  (hruns : Runs service.workspaces (opening service errands m) s)
include hinside hclosed hruns

/-- While a request that has halted pays, all is in order. -/
theorem Halts.order (hhalts : Halts service.workspaces s i s₁)
    (hpays : Runs service.workspaces (forsake s₁ i) s₂) :
    Sound service.workspaces errands s₂ ∧ service.workspaces.AllSettled s₂ ∧
    ∀ way links d, m.files.Leads m.cwd service.workspaces.root way links d →
      Since service.workspaces m.files.get? d s₂ := by
  have hopening : Sound service.workspaces errands (opening service errands m) :=
    sound_opening hclosed
  have hupto : Runs service.workspaces (opening service errands m) s₁ := hruns.trans hhalts.runs
  obtain ⟨hwaiting, howes⟩ := hhalts.owes (hruns.indebted (indebted_opening service errands m))
  have hsound : Sound service.workspaces errands (forsake s₁ i) :=
    (Runs.sound hopening hinside hupto).forsake hwaiting howes
  refine ⟨Runs.sound hsound hinside hpays, ?_, fun way links d hleads => ?_⟩
  · have hsettled := Runs.allSettled hopening hinside hupto fun _ _ hmem => by cases hmem
    exact Runs.allSettled hsound hinside hpays (hsettled.forsake i)
  have hbegin : Since service.workspaces (opening service errands m).files.get? d
      (opening service errands m) := since_self hclosed (fun _ => rfl) hleads
  exact Runs.since hsound hinside hpays ((Runs.since hopening hinside hupto hbegin).forsake i)

theorem vanishes_of_halts (hhalts : Halts service.workspaces s i s₁)
    (hpays : Runs service.workspaces (forsake s₁ i) s₂) :
    Vanishes service.workspaces m s₁ s₂ i := by
  obtain ⟨hsound, hsettled, hsince⟩ := hhalts.order hinside hclosed hruns hpays
  have hpast := Runs.past_isPrefix hpays i
  rw [past_forsake] at hpast
  have hpaid (hdone : (s₂.tasks i).rest = .done ()) : rootOf s₂ i = none := by
    rw [rootOf, hsound.out_of_done hdone, Stay.root?]
  constructor
  · intro hdone path hmade
    rcases hsettled i path (hpast.subset hmade) with ⟨j, hj⟩ | hgone
    · refine .inl ⟨j, ?_, hj⟩
      rintro rfl
      rw [hpaid hdone] at hj
      cases hj
    · exact .inr hgone
  · intro hdone way links d hleads q hq
    rcases (hsince way links d hleads).old q hq with ⟨j, name, -, hroot, hbelow⟩ | hsame
    · refine .inl ⟨j, name, ?_, hroot, hbelow⟩
      rintro rfl
      rw [hpaid hdone] at hroot
      cases hroot
    · exact .inr hsame

/-- Whatever comes after the workspace of a request is gone makes directories, or leaves the root
alone. -/
theorem late_of_comes {c : Call} {next : c.Reply → Program Unit} {r : c.Reply} {m' : Machine}
    (at_ : s.tasks i = ⟨past, .call c next, false⟩) (pause : IsPause c)
    (hpays : Runs service.workspaces (forsake s i) s₁)
    (hnobody : ∀ root, (stay past).root? = some root → ∀ j, rootOf s₁ j ≠ some root)
    (hcomes : Comes service.workspaces (stay past) s₁.machine c r m') :
    service.workspaces.Spares s₁.machine m' (fun _ => False) ∨ s₁.files.GainsDirs m'.files := by
  have hhalts : Halts service.workspaces s i s := .before at_ pause
  obtain ⟨-, hsettled, -⟩ := hhalts.order hinside hclosed hruns hpays
  have hmay := (Runs.sound (sound_opening hclosed) hinside hruns).may at_
  refine hcomes.late hinside hmay pause fun root hroot => ?_
  have hpast := Runs.past_isPrefix hpays i
  rw [past_forsake, at_] at hpast
  rcases hsettled i root (hpast.subset (made_of_root hroot)) with ⟨j, hj⟩ | hgone
  · exact absurd hj (hnobody root hroot j)
  · exact hgone

end

/-- Where a task of the machine is abandoned, its command is killed and what its past leaves to pay
is paid. No process of any of its commands is running afterwards. -/
def EndsWith (p : Program Unit) (groups : List Nat) (m : Machine) (t : Task Unit) : Prop :=
  (∃ past rest, (⟨past, rest, false⟩ : Activity Unit).IsOf p ∧ t.phase.Awaits rest ∧
    m.abandon t = ((m.stopping t).runNow (Machine.payAll (debtsOf past))).1) ∧
  ∀ group ∈ groups, (m.abandon t).kernel.HasEnded group

theorem endsWith_of_follows (h : Machine.Follows p groups m t) : EndsWith p groups m t := by
  obtain ⟨past, rest, hof, hawaits, hdebts⟩ := h.stands.course
  refine ⟨⟨past, rest, hof, hawaits, ?_⟩, h.hasEnded_abandon⟩
  rw [abandon_eq, hdebts]

/-- Nothing is left of a request that is abandoned, neither a directory at the root nor a process,
where the operation under way is not started or over before anything is paid. Where it comes later,
when nobody has the workspace any more, it makes directories or leaves the root alone. -/
theorem abandoned_requests_leave_late_directories {service : Service} {m : Machine} {i : ι}
    (hinside : service.workspaces.FilesInside) (hclosed : m.files.Closed)
    (hruns : Runs service.workspaces (opening service errands m) s) :
    (∀ s₁ s₂, Halts service.workspaces s i s₁ → Runs service.workspaces (forsake s₁ i) s₂ →
      Vanishes service.workspaces m s₁ s₂ i) ∧
    (∀ past c (next : c.Reply → Program Unit) s₁ r m', s.tasks i = ⟨past, .call c next, false⟩ →
      IsPause c → Runs service.workspaces (forsake s i) s₁ →
      (∀ root, (stay past).root? = some root → ∀ j, rootOf s₁ j ≠ some root) →
      Comes service.workspaces (stay past) s₁.machine c r m' →
      service.workspaces.Spares s₁.machine m' (fun _ => False) ∨ s₁.files.GainsDirs m'.files) ∧
    ∀ groups m' t, Machine.Follows ((errands i).program service) groups m' t →
      EndsWith ((errands i).program service) groups m' t := by
  refine ⟨fun s₁ s₂ => vanishes_of_halts hinside hclosed hruns, ?_,
    fun _ _ _ => endsWith_of_follows⟩
  intro past c next s₁ r m' at_ pause hpays hnobody hcomes
  exact late_of_comes hinside hclosed hruns at_ pause hpays hnobody hcomes

/-! ## A request beside another -/

def uncached : Service := { Service.tidy with cacheEnabled := false }

@[reducible] def errandsBeside : Fin 2 → Errand
  | 0 => .answer "x" none
  | 1 => .keep "b" .remote

/-- Whether the next call of a request writes a file. -/
def isWriting : Activity Unit → Bool
  | ⟨_, .call (.writeFile ..) _, false⟩ => true
  | _ => false

theorem halts_of_isWriting (h : isWriting (s.tasks i) = true) : Halts b s i s := by
  unfold isWriting at h
  split at h
  · rename_i past path bytes next at_
    exact .before at_ ⟨rfl, fun _ => Call.noConfusion⟩
  · cases h

/-- The machine once the operation at which a request stands has come to its end. -/
def comes? (b : Workspaces) (s : Scene ι fun _ => Unit) (i : ι) (m : Machine) : Option Machine :=
  match s.tasks i with
  | ⟨_, .call (.removeTree _) _, _⟩ => none
  | ⟨past, .call c _, false⟩ =>
    if c.pauses && b.isOwn (stay past) c then (m.answer? c).map (·.1) else none
  | _ => none

omit [DecidableEq ι] in
theorem comes_of_comes? {m' : Machine} (h : b.comes? s i m = some m') :
    ∃ past c next r, s.tasks i = ⟨past, .call c next, false⟩ ∧ IsPause c ∧
      Comes b (stay past) m c r m' := by
  unfold comes? at h
  split at h
  · cases h
  · rename_i past c next hother at_
    split at h
    · rename_i hown
      rw [Bool.and_eq_true] at hown
      obtain ⟨⟨m', r⟩, hr, rfl⟩ := Option.map_eq_some_iff.mp h
      refine ⟨past, c, next, r, at_, ⟨hown.1, ?_⟩, .answered hown.2 hr⟩
      rintro path rfl
      exact hother _ _ rfl .rfl
    · cases h
  · cases h

/-- So many steps of a task. -/
def stepsOf (m : Machine) (t : Task Unit) : Nat → Option (Machine × Task Unit)
  | 0 => some (m, t)
  | n + 1 => (m.stepTask t).bind fun next => stepsOf next.1 next.2 n

theorem follows_of_stepsOf {m' : Machine} {t' : Task Unit} {n : Nat}
    (h : Machine.Follows p groups m t) (hsteps : stepsOf m t n = some (m', t')) :
    ∃ groups', Machine.Follows p groups' m' t' ∧
    (n ≠ 0 → ∀ group, t'.phase.group? = some group → group ∈ groups') := by
  induction n generalizing groups m t with
  | zero =>
    cases hsteps
    exact ⟨groups, h, fun hn => absurd rfl hn⟩
  | succ n ih =>
    obtain ⟨⟨m₁, t₁⟩, hfirst, hrest⟩ := Option.bind_eq_some_iff.mp hsteps
    obtain ⟨groups', hfollows, hgroups⟩ := ih (h.step hfirst) hrest
    by_cases hn : n = 0
    · subst hn
      cases hrest
      refine ⟨_, h.step hfirst, fun _ group hgroup => ?_⟩
      rw [hgroup]
      exact mem_cons_self
    · exact ⟨groups', hfollows, fun _ => hgroups hn⟩

/-- A machine on which every command can be started. -/
def launching : Machine :=
  { Machine.bare with launch := fun _ _ => .ok fun _ => .sleep 1000 (.exit 0) }

/-- The root of the workspaces is there. -/
def rooted : Machine :=
  Machine.bare.withFiles (Machine.bare.files.put ["w"] (.dir dirMode))

theorem closed_rooted : rooted.files.Closed := by
  have hmake : Machine.bare.files.makeDir [] "/w" = .ok rooted.files := rfl
  exact closed_bare.makeDir hmake

/-- A request is abandoned at a file that it writes, and its workspace goes while another one stays.
Before that it would be abandoned at the directory for its workspace, which would stay, and later
on at its build. -/
theorem abandoned_requests_leave_late_directories_two :
    (∃ s s' : Scene (Fin 2) fun _ => Unit,
      Runs uncached.workspaces (opening uncached errandsBeside .bare) s ∧
      Halts uncached.workspaces s 0 s ∧ Runs uncached.workspaces (forsake s 0) s' ∧
      (rootOf s 0).isSome = true ∧ (s'.tasks 0).result? = some () ∧
      (rootOf s' 1).isSome = true ∧ Vanishes uncached.workspaces .bare s s' 0) ∧
    (∃ (s : Scene (Fin 2) fun _ => Unit) (past : List Event) (c : Call) (r : c.Reply)
    (m' : Machine),
      Runs uncached.workspaces (opening uncached errandsBeside rooted) s ∧ (s.tasks 0).past = past ∧
      Comes uncached.workspaces (stay past) s.machine c r m' ∧
      (m'.files.namesAt ["w"]).length = 1 ∧
      (uncached.workspaces.Spares (forsake s 0).machine m' (fun _ => False) ∨
        (forsake s 0).files.GainsDirs m'.files)) ∧
    ∃ groups m t group, Machine.Follows ((errandsBeside 0).program uncached) groups m t ∧
      group ∈ groups ∧ m.kernel.isRunning group = true ∧
      EndsWith ((errandsBeside 0).program uncached) groups m t := by
  have hinside : uncached.workspaces.FilesInside :=
    filesInside_plain (by decide +kernel) (by decide +kernel)
  refine ⟨?_, ?_, ?_⟩
  · have hplay : (((List.replicate 9 (0 : Fin 2) ++ List.replicate 5 1).foldlM
        uncached.workspaces.turn? (opening uncached errandsBeside .bare)).bind fun s =>
          ([(0 : Fin 2)].foldlM uncached.workspaces.turn? (forsake s 0)).map
            fun (s' : Scene (Fin 2) fun _ => Unit) =>
            (isWriting (s.tasks 0), (rootOf s 0).isSome, (s'.tasks 0).result?,
              (rootOf s' 1).isSome)) = some (true, true, some (), true) := by
      decide +kernel
    obtain ⟨s, hs, hrest⟩ := Option.bind_eq_some_iff.mp hplay
    obtain ⟨s', hs', hlast⟩ := Option.map_eq_some_iff.mp hrest
    simp only [Prod.mk.injEq] at hlast
    obtain ⟨hwriting, hroot, hdone, hother⟩ := hlast
    have hhalts : Halts uncached.workspaces s 0 s := halts_of_isWriting hwriting
    exact ⟨s, s', runs_of_turns? hs, hhalts, runs_of_turns? hs', hroot, hdone, hother,
      (abandoned_requests_leave_late_directories hinside closed_bare (runs_of_turns? hs)).1
        s s' hhalts (runs_of_turns? hs')⟩
  · have hplay : ((List.replicate 5 (0 : Fin 2)).foldlM uncached.workspaces.turn?
        (opening uncached errandsBeside rooted)).bind (fun s =>
          (uncached.workspaces.comes? s 0 s.machine).map fun m' =>
            ((rootOf s 0).isNone, (m'.files.namesAt ["w"]).length)) = some (true, 1) := by
      decide +kernel
    obtain ⟨s, hs, hrest⟩ := Option.bind_eq_some_iff.mp hplay
    obtain ⟨m', hcomes, hlast⟩ := Option.map_eq_some_iff.mp hrest
    simp only [Prod.mk.injEq, Option.isNone_iff_eq_none] at hlast
    obtain ⟨hroot, hnames⟩ := hlast
    obtain ⟨past, c, next, r, at_, pause, hcomes⟩ := comes_of_comes? hcomes
    have hnobody : ∀ root, (stay past).root? = some root → ∀ j, rootOf (forsake s 0) j ≠
        some root := by
      intro root h
      rw [rootOf, at_, h] at hroot
      cases hroot
    refine ⟨s, past, c, r, m', runs_of_turns? hs, by rw [at_], hcomes, hnames, ?_⟩
    exact (abandoned_requests_leave_late_directories hinside closed_rooted (runs_of_turns? hs)).2.1
      past c next _ r m' at_ pause .refl hnobody hcomes
  · have hsteps : ((stepsOf launching (.ofProgram ((errandsBeside 0).program uncached)) 17).bind
        fun x => x.2.phase.group?.map fun group => x.1.kernel.isRunning group) = some true := by
      decide +kernel
    obtain ⟨⟨m, t⟩, hfollows, hgroup⟩ := Option.bind_eq_some_iff.mp hsteps
    obtain ⟨group, hgroup, hrunning⟩ := Option.map_eq_some_iff.mp hgroup
    obtain ⟨groups, hfollows, hmem⟩ := follows_of_stepsOf (.start launching none) hfollows
    have hstart : Runs uncached.workspaces (opening uncached errandsBeside rooted)
      (opening uncached errandsBeside rooted) := .refl
    exact ⟨groups, m, t, group, hfollows, hmem (by decide) group hgroup, hrunning,
      (abandoned_requests_leave_late_directories hinside closed_rooted hstart).2.2
        groups m t hfollows⟩

/-- A service whose manifests are beside its workspaces. -/
def manifestsBeside : Service :=
  { Service.plain (Service.plainTools "../extra/m" "") with cacheEnabled := false }

/-- What is at the root once a request has been abandoned at its build. -/
def namesLeft (service : Service) (limit : Nat) : Option (List String) :=
  let slow : Machine :=
    { Machine.bare with
      runner := .scripted [("build",
        [fun _ _ => { rest := ⟨20000000000⟩, outcome := .ok ⟨0, .empty, .empty⟩ }])] }
  match slow.runTask none (some limit) 40
    (.ofProgram ((Errand.answer "x" none).program service)) with
  | (m, .abandoned t) => some ((m.abandon t).files.namesAt ["w"])
  | _ => none

/-- How many names are at the root before the operation comes at which a request was abandoned after
so many turns, and after it, where so many debts are paid first. -/
def countsLate (i : Fin 2) (turns paid : Nat) : Option (Option Unit × Nat × Nat) := do
  let s ← (List.replicate turns i).foldlM uncached.workspaces.turn?
    (opening uncached errandsBeside rooted)
  let s' ← (List.replicate paid i).foldlM uncached.workspaces.turn? (forsake s i)
  let m ← uncached.workspaces.comes? s i s'.machine
  return ((s'.tasks i).result?, (s'.files.namesAt ["w"]).length,
    (m.files.namesAt ["w"]).length)

/-- The directory for a workspace that is still being made when its request is abandoned stays, and
so does the workspace that the directories above a file make anew. A directory for a file outside of
the workspace outlives the request that made it. -/
theorem directories_left_behind :
    countsLate 0 5 0 = some (some (), 0, 1) ∧ countsLate 0 8 1 = some (some (), 0, 1) ∧
    namesLeft uncached 300000000 = some [] ∧
    namesLeft manifestsBeside 300000000 = some ["extra"] := by
  decide +kernel

end Workspaces

end Foundry
