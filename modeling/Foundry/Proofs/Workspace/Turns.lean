import Foundry.Proofs.Cache.Soundness
import Foundry.Proofs.Files.Rooms
import Foundry.Proofs.Workspace.Tenancy

/-!
# Requests side by side

Any number of requests make and drop workspaces below one root, in turns. Names may come
from anywhere and repeat, and any call by which a workspace is made may fail half way. A
turn is then of one of two kinds: it leaves alone what stands at the root and on the way
to it, or one request changes its own room there and nothing else.
-/

namespace Foundry

open Program Files List Path Machine

namespace Workspaces

variable {c : Call}

/-! ## Turns -/

def Stay.root? : Stay → Option String
  | .out => none
  | .within root _ => some root

theorem Stay.root?_eq_none {x : Stay} : x.root? = none ↔ x = .out := by
  cases x <;> simp [root?]

theorem Stay.root?_eq_some {x : Stay} {root : String} :
    x.root? = some root ↔ ∃ stage, x = .within root stage := by
  cases x <;> simp [root?]

/-- The calls that concern workspaces. -/
def isOwn (b : Workspaces) : Stay → Call → Bool
  | .out, .makeDirs path => path == b.root
  | .out, .makeDir _ | .out, .freshId => true
  | .out, _ => false
  | .within _ _, _ => true

/-- What may come of a call on the way to a workspace instead of the machine's answer. -/
inductive Fails (fs : Files) (cwd : Place) : (c : Call) → c.Reply → Files → Prop
  /-- Names need not be fresh. -/
  | freshId {id : String} (hid : '/' ∉ id.toList) : Fails fs cwd .freshId id fs
  | makeDir (path : String) (e : Cause) : Fails fs cwd (.makeDir path) (.error e) fs
  | restrict (path : String) (e : Cause) : Fails fs cwd (.restrict path) (.error e) fs
  | makeDirs (path : String) (e : Cause) : Fails fs cwd (.makeDirs path) (.error e) fs
  /-- Some of the directories are there. -/
  | makeSome {path dir : String} (e : Cause) (hdir : dir ∈ ancestors (path.length + 1) path) :
      Fails fs cwd (.makeDirs path) (.error e) (fs.makeDirs cwd dir).1
  | writeFile (path : String) (bytes : ByteArray) (e : Cause) :
      Fails fs cwd (.writeFile path bytes) (.error e) fs
  /-- A part of the file is there. -/
  | writePart {path : String} {bytes part : ByteArray} {fs' : Files} (e : Cause)
      (hpart : fs.write cwd path part = .ok fs') :
      Fails fs cwd (.writeFile path bytes) (.error e) fs'

/-- What stands at the root of the workspaces and on the way to it is as it was. -/
def Spares (b : Workspaces) (m m' : Machine) (loose : Place → Prop) : Prop :=
  m'.cwd = m.cwd ∧ m.files.Spares m'.files m.cwd b.root loose

variable {ι : Type}

/-- What is in a workspace that a command works in or has worked in. -/
def InUse (s : Scene ι fun _ => Unit) (q : Place) : Prop :=
  ∃ i root stage room node, stay (s.tasks i).past = .within root stage ∧
    ((s.tasks i).waiting = true ∨ stage = .altered) ∧
    s.files.find s.cwd false root = .ok (room, node) ∧ IsBelow room q

/-- What can come of a call of a request: the machine's answer, a failure, or for a request that has
no workspace any other call: sweeps, the cache, the audit trail. -/
inductive Comes (b : Workspaces) (x : Stay) (m : Machine) : (c : Call) → c.Reply → Machine → Prop
  | answered {c : Call} {r : c.Reply} {m' : Machine} (own : b.isOwn x c = true)
      (answer : m.answer? c = some (m', r)) : Comes b x m c r m'
  | failed {c : Call} {r : c.Reply} {files : Files} (own : b.isOwn x c = true)
      (fails : Fails m.files m.cwd c r files) : Comes b x m c r (m.withFiles files)
  | aside {c : Call} {r : c.Reply} {m' : Machine} (other : b.isOwn x c = false)
      (spares : b.Spares m m' fun _ => False) : Comes b x m c r m'

variable [DecidableEq ι]

/-- What can happen next among requests. -/
inductive Turn (b : Workspaces) (s : Scene ι fun _ => Unit) : Scene ι (fun _ => Unit) → Prop
  | made {i : ι} {past : List Event} {c : Call} {next : c.Reply → Program Unit} {r : c.Reply}
      {m : Machine} (at_ : s.tasks i = ⟨past, .call c next, false⟩)
      (comes : Comes b (stay past) s.machine c r m) :
      Turn b s (s.setTask m i ⟨past ++ [⟨c, r⟩], next r, false⟩)
  | begun {i : ι} {past : List Event} {c : Call} {next : c.Reply → Program Unit}
      (at_ : s.tasks i = ⟨past, .call c next, false⟩) (waits : c.waits = true) :
      Turn b s (s.setTask (s.machine.noting c) i ⟨past, .call c next, true⟩)
  | ended {i : ι} {past : List Event} {c : Call} {next : c.Reply → Program Unit} {r : c.Reply}
      (at_ : s.tasks i = ⟨past, .call c next, true⟩) (waits : c.waits = true) :
      Turn b s (s.setTask s.machine i ⟨past ++ [⟨c, r⟩], next r, false⟩)
  /-- Commands change what is in the workspaces they run in. -/
  | beside {m : Machine} (spares : b.Spares s.machine m (InUse s)) : Turn b s ⟨m, s.tasks⟩

def Runs (b : Workspaces) : Scene ι (fun _ => Unit) → Scene ι (fun _ => Unit) → Prop :=
  Relation.ReflTransGen (Turn b)

/-! ## What calls do to files -/

/-- What a call that concerns workspaces can do. -/
inductive Effect (fs : Files) (cwd : Place) : (c : Call) → c.Reply → Files → Prop
  | inert {c : Call} (r : c.Reply) (hc : IsInert c) : Effect fs cwd c r fs
  | freshId {id : String} (hid : '/' ∉ id.toList) : Effect fs cwd .freshId id fs
  | noDir (path : String) (e : Cause) : Effect fs cwd (.makeDir path) (.error e) fs
  | makeDir {path : String} {fs' : Files} (hm : fs.makeDir cwd path = .ok fs') :
      Effect fs cwd (.makeDir path) (.ok ()) fs'
  | restrict {path : String} {fs' : Files} (r : Except Cause Unit)
      (hm : fs' = fs ∨ ∃ mode, fs.setMode cwd path mode = .ok fs') :
      Effect fs cwd (.restrict path) r fs'
  | makeDirs {path : String} {fs' : Files} (r : Except Cause Unit)
      (hm : fs' = fs ∨ ∃ dir, Path.names dir <+: Path.names path ∧
      startOf cwd dir = startOf cwd path ∧
        fs' = (fs.makeDirs cwd dir).1) : Effect fs cwd (.makeDirs path) r fs'
  | written {path : String} {bytes : ByteArray} {fs' : Files}
      (hw : fs.write cwd path bytes = .ok fs') : Effect fs cwd (.writeFile path bytes) (.ok ()) fs'
  | notWritten {path : String} {bytes : ByteArray} {fs' : Files} (e : Cause)
      (hw : fs' = fs ∨ ∃ part, fs.write cwd path part = .ok fs') :
      Effect fs cwd (.writeFile path bytes) (.error e) fs'
  | removeTree {path : String} (r : Except Cause Unit) :
      Effect fs cwd (.removeTree path) r (fs.removeTree cwd path).1

theorem Fails.effect {fs fs' : Files} {cwd : Place} {r : c.Reply} (h : Fails fs cwd c r fs') :
    Effect fs cwd c r fs' := by
  cases h with
  | freshId hid => exact .freshId hid
  | makeDir path e => exact .noDir path e
  | restrict path e => exact .restrict _ (.inl rfl)
  | makeDirs path e => exact .makeDirs _ (.inl rfl)
  | makeSome e hdir =>
    obtain ⟨hnames, hstart⟩ := names_of_mem_ancestors hdir
    exact .makeDirs _ (.inr ⟨_, hnames, hstart, rfl⟩)
  | writeFile path bytes e => exact .notWritten e (.inl rfl)
  | writePart e hpart => exact .notWritten e (.inr ⟨_, hpart⟩)

/-- The machine's answers are among these. -/
theorem effect_of_answer {b : Workspaces} {source : String} {x : Stay} {m m' : Machine}
    {r : c.Reply} (hmay : b.mayAsk source x c) (hown : b.isOwn x c = true)
    (h : m.answer? c = some (m', r)) : m'.cwd = m.cwd ∧
    Effect m.files m.cwd c r m'.files := by
  have hinert (hc : IsInert c) : m'.cwd = m.cwd ∧
      Effect m.files m.cwd c r m'.files := by
    cases c with
    | clock | record | warn | owe | settle =>
      cases h
      exact ⟨rfl, .inert _ trivial⟩
    | _ => exact hc.elim
  cases c with
  | makeDirs path =>
    cases h
    exact ⟨rfl, .makeDirs _ (.inr ⟨path, prefix_refl _, rfl, rfl⟩)⟩
  | makeDir path =>
    rcases changing_cases (Option.some.inj h) with ⟨files, hm, rfl, rfl⟩ | ⟨e, -, rfl, rfl⟩
    · exact ⟨rfl, .makeDir hm⟩
    · exact ⟨rfl, .noDir path e⟩
  | restrict path =>
    rcases changing_cases (Option.some.inj h) with ⟨files, hm, rfl, rfl⟩ | ⟨e, -, rfl, rfl⟩
    · exact ⟨rfl, .restrict _ (.inr ⟨_, hm⟩)⟩
    · exact ⟨rfl, .restrict _ (.inl rfl)⟩
  | writeFile path bytes =>
    rcases changing_cases (Option.some.inj h) with ⟨files, hw, rfl, rfl⟩ | ⟨e, -, rfl, rfl⟩
    · exact ⟨rfl, .written hw⟩
    · exact ⟨rfl, .notWritten _ (.inl rfl)⟩
  | removeTree path =>
    cases h
    exact ⟨rfl, .removeTree _⟩
  | freshId =>
    cases h
    exact ⟨rfl, .freshId (Service.isStem_freshId _)⟩
  | run command timeout => cases h
  | _ =>
    rcases x with _ | ⟨root, stage⟩
    · cases hown
    · cases stage <;> exact hinert hmay

/-! ## What a turn does to rooms -/

theorem root_describe (b : Workspaces) (id : String) :
    (b.describe id).root = join b.root ("kiln-" ++ hyphenated id) := by
  rw [describe]

theorem isName_kiln {id : String} (h : '/' ∉ id.toList) :
    Path.IsName ("kiln-" ++ hyphenated id) := by
  have hlist : ("kiln-" ++ hyphenated id).toList = 'k' :: 'i' :: 'l' :: 'n' :: '-' ::
      (hyphenated id).toList := by
    simp
  have hne (s : String) (hs : s.toList.length < 5) : "kiln-" ++ hyphenated id ≠ s := by
    rintro rfl
    rw [hlist] at hs
    simp only [length_cons] at hs
    omega
  refine ⟨hne "" (by decide), hne "." (by decide), hne ".." (by decide), ?_⟩
  have hid : '/' ∉ (hyphenated id).toList := by
    intro hmem
    simp only [hyphenated, String.toList_ofList, mem_append, mem_cons] at hmem
    have hpart (n : Nat) (hn : '/' ∈ id.toList.drop n) : False := h (mem_of_mem_drop hn)
    rcases hmem with (((hmem | hmem | hmem) | hmem | hmem) | hmem | hmem) | hmem | hmem
    · exact h (mem_of_mem_take hmem)
    · cases hmem
    · exact hpart 8 (mem_of_mem_take hmem)
    · cases hmem
    · exact hpart 12 (mem_of_mem_take hmem)
    · cases hmem
    · exact hpart 16 (mem_of_mem_take hmem)
    · cases hmem
    · exact hpart 20 hmem
  simp [hid]

section Rooms

variable {name dir file : String} {next : Stage}
variable (b : Workspaces)

def manifestAt : Place := steps (Path.names b.toolchain.manifestFile)

def sourceAt : Place := steps (Path.names b.toolchain.sourceFile)

/-- The files of a workspace, as far as they are known. -/
def contents : Stage → Place → Option ByteArray
  | .bare | .altered => fun _ => none
  | .half manifest => Function.update (fun _ => none) b.manifestAt (some manifest)
  | .ready manifest text =>
    Function.update (Function.update (fun _ => none) b.manifestAt (some manifest)) b.sourceAt
    (some text)

/-- Whoever has a workspace has a room, and in it what has been written and nothing else. -/
def Housed (fs : Files) (cwd : Place) (waiting : Bool) : Stay → Prop
  | .out => True
  | .within root stage => ∃ d name, root = Path.join b.root name ∧ fs.Room cwd b.root d name ∧
      (waiting = false → stage ≠ .altered →
        fs.Holds (d ++ [name]) [b.manifestAt, b.sourceAt] (b.contents stage))

/-- One room at the root is changed, by somebody who had it before or has it afterwards. -/
structure Touches (fs fs' : Files) (cwd : Place) (x x' : Stay) (d : Place) (name : String) :
    Prop where
  isName : Path.IsName name
  leads : fs.Skirts cwd b.root d name
  alters : ∀ q, ¬ d ++ [name] <+: q → fs'.get? q = fs.get? q
  before : x.root? = some (Path.join b.root name) ∨ x.root? = none ∧ fs.get? (d ++ [name]) = none
  after : x'.root? = some (Path.join b.root name) ∨ x'.root? = none ∧ fs'.get? (d ++ [name]) = none

/-- A call leaves all rooms alone, or touches one. -/
def Keeps (fs fs' : Files) (cwd : Place) (x x' : Stay) : Prop :=
  x'.root? = x.root? ∧ fs.Spares fs' cwd b.root (fun _ => False) ∨
    ∃ d name, b.Touches fs fs' cwd x x' d name

/-- The files of a workspace have paths that do not lead out of it. -/
def FilesInside : Prop :=
  ∀ file ∈ [b.toolchain.manifestFile, b.toolchain.sourceFile],
    Path.isAbsolute file = false ∧ ".." ∉ Path.names file

variable {b} {fs fs' : Files} {cwd : Place} {x x' : Stay} {root : String} {stage : Stage}

theorem Keeps.of_same (hroot : x'.root? = x.root?) : b.Keeps fs fs cwd x x' :=
  .inl ⟨hroot, id, fun _ _ _ _ _ _ _ => rfl⟩

/-- The room of a workspace is touched. -/
theorem keeps_of_alters {d : Place} (hroom : fs.Room cwd b.root d name)
    (halters : ∀ q, ¬ d ++ [name] <+: q → fs'.get? q = fs.get? q)
    (hx : x.root? = some (join b.root name))
    (hafter : x'.root? = some (join b.root name) ∨ x'.root? = none ∧ fs'.get? (d ++ [name]) =
    none) : b.Keeps fs fs' cwd x x' :=
  .inr ⟨d, name, hroom.isName, hroom.leads, halters, .inl hx, hafter⟩

/-- A new directory is a bare room. -/
theorem enters (hc : fs.Closed) (hname : Path.IsName name)
    (hm : fs.makeDir cwd (join b.root name) = .ok fs') :
    b.Housed fs' cwd false (.within (join b.root name) .bare) ∧
    b.Keeps fs fs' cwd .out (.within (join b.root name) .bare) := by
  obtain ⟨d, habsent, hsets, hroom, hleads⟩ := room_of_makeDir hc hname hm
  have hbelow (rel : Place) (hrel : rel ≠ []) :
      fs'.get? (d ++ [name] ++ rel) = none := by
    rw [hsets, if_neg (by simpa using hrel)]
    exact hc.get?_within habsent (prefix_append _ _)
  refine ⟨⟨d, name, rfl, hroom, fun _ _ => ⟨fun _ _ h => (by cases h), ?_⟩⟩,
    .inr ⟨d, name, hname, hleads, ?_, ?_, ?_⟩⟩
  · intro rel n hrel hn
    rw [hbelow rel hrel] at hn
    cases hn
  · intro q hq
    rw [hsets, if_neg]
    rintro rfl
    exact hq (prefix_refl _)
  · exact .inr ⟨rfl, habsent⟩
  · exact .inl rfl

/-- Nothing is made where the root of the workspaces is. -/
theorem spares_makeDirs (hc : fs.Closed) (hnames : names dir <+: names b.root)
    (hstart : startOf cwd dir = startOf cwd b.root) :
    fs.Spares (fs.makeDirs cwd dir).1 cwd b.root (fun _ => False) := by
  refine ⟨fun h => h.makeDirs cwd dir, ?_⟩
  intro way links d hleads q _ _
  rw [hleads.makeDirs_eq hc hnames hstart]

theorem restricts (hc : fs.Closed) {mode : Nat} (hm : fs.setMode cwd root mode = .ok fs')
    (hh : b.Housed fs cwd false (.within root stage)) :
    fs'.Closed ∧ b.Housed fs' cwd false (.within root stage) ∧
    b.Keeps fs fs' cwd (.within root stage) (.within root stage) := by
  obtain ⟨d, name, rfl, hroom, hholds⟩ := hh
  obtain ⟨old, hdir⟩ := hroom.isDir
  have hsets := hroom.setMode hm
  have halters (q : Place) (hq : q ≠ d ++ [name]) : fs'.get? q = fs.get? q := by
    rw [hsets, if_neg hq]
  have hout (q : Place) (hq : ¬ d ++ [name] <+: q) : fs'.get? q = fs.get? q :=
    halters q fun heq => hq (heq ▸ prefix_refl _)
  refine ⟨?_, ⟨d, name, rfl, hroom.of_alters hout ⟨mode, by rw [hsets, if_pos rfl]⟩, ?_⟩,
    keeps_of_alters hroom hout rfl (.inl rfl)⟩
  · exact hc.sets hsets (hc.hasParent (by simp) hdir) fun _ _ _ => rfl
  intro hw hstage
  exact (hholds hw hstage).of_same fun q hq => halters q fun heq => hq.2 heq.symm

/-- Directories for the files are made in the room. -/
theorem furnishes (hc : fs.Closed) (hinside : b.FilesInside) {path : String}
    (hfile : file ∈ [b.toolchain.manifestFile, b.toolchain.sourceFile])
    (hparent : parent? (join root file) = some path)
    (hnames : names dir <+: names path) (hstart : startOf cwd dir = startOf cwd path)
    (hstage : stage ≠ .altered) (hh : b.Housed fs cwd false (.within root stage)) :
    b.Housed (fs.makeDirs cwd dir).1 cwd false (.within root stage) ∧
    b.Keeps fs (fs.makeDirs cwd dir).1 cwd (.within root stage) (.within root stage) := by
  obtain ⟨d, name, rfl, hroom, hholds⟩ := hh
  obtain ⟨hrel, hdots⟩ := hinside file hfile
  have hholds := hholds rfl hstage
  obtain ⟨hnames', hstart'⟩ := above_inside hroom.isName hrel hparent
  have hgrows := hroom.growsIn_makeDirs hc hholds.plain hdots (hnames.trans hnames')
    (hstart.trans hstart')
  have hplace : steps (names file) ∈ [b.manifestAt, b.sourceAt] :=
    mem_map_of_mem (f := fun f => steps (names f)) hfile
  refine ⟨⟨d, name, rfl, hroom.of_growsIn hgrows, fun _ _ => hholds.of_growsIn hplace hgrows⟩, ?_⟩
  exact keeps_of_alters hroom (fun q hq => hgrows.outside fun hbelow => hq hbelow.1) rfl (.inl rfl)

/-- A file is written in the room. -/
theorem writes (hc : fs.Closed) (hinside : b.FilesInside) {bytes : ByteArray}
    (hfile : file ∈ [b.toolchain.manifestFile, b.toolchain.sourceFile])
    (hw : fs.write cwd (join root file) bytes = .ok fs') (hstage : stage ≠ .altered)
    (hnext : next ≠ .altered →
    b.contents next = Function.update (b.contents stage) (steps (names file)) (some bytes))
    (hh : b.Housed fs cwd false (.within root stage)) :
    fs'.Closed ∧ b.Housed fs' cwd false (.within root next) ∧
    b.Keeps fs fs' cwd (.within root stage) (.within root next) := by
  obtain ⟨d, name, rfl, hroom, hholds⟩ := hh
  obtain ⟨hrel, hdots⟩ := hinside file hfile
  have hholds := hholds rfl hstage
  obtain ⟨hne, id, mode, hsets⟩ := hroom.write hc hholds.plain hrel hdots hw
  have hplace : steps (names file) ∈ [b.manifestAt, b.sourceAt] :=
    mem_map_of_mem (f := fun f => steps (names f)) hfile
  have hout (q : Place) (hq : ¬ d ++ [name] <+: q) : fs'.get? q = fs.get? q := by
    rw [hsets, if_neg]
    rintro rfl
    exact hq (prefix_append _ _)
  have hdir : fs'.get? (d ++ [name]) = fs.get? (d ++ [name]) := by
    rw [hsets, if_neg (by simpa using Ne.symm hne)]
  refine ⟨hc.edit hw, ⟨d, name, rfl, hroom.of_alters hout (hdir ▸ hroom.isDir), ?_⟩,
    keeps_of_alters hroom hout rfl (.inl rfl)⟩
  intro _ hstage'
  rw [hnext hstage']
  exact hholds.of_sets hplace hne hsets

/-- A room that is removed is left. -/
theorem leaves (hc : fs.Closed) (hh : b.Housed fs cwd false (.within root stage)) :
    (fs.removeTree cwd root).1.Closed ∧
    b.Keeps fs (fs.removeTree cwd root).1 cwd (.within root stage) .out := by
  obtain ⟨d, name, rfl, hroom, -⟩ := hh
  obtain ⟨fs', hremove, hget⟩ := hroom.removeTree
  refine ⟨hc.removeTree cwd _, ?_⟩
  rw [hremove]
  refine keeps_of_alters hroom (fun q hq => ?_) rfl (.inr ⟨rfl, ?_⟩)
  · rw [hget, if_neg hq]
  · rw [hget, if_pos (prefix_refl _)]

theorem Housed.restage {waiting : Bool} (hh : b.Housed fs cwd waiting (.within root stage))
    (hnext : next = .altered) : b.Housed fs cwd false (.within root next) := by
  obtain ⟨d, name, hroot, hroom, -⟩ := hh
  exact ⟨d, name, hroot, hroom, fun _ hne => absurd hnext hne⟩

/-- A call that concerns workspaces keeps its request housed, and all others alone. -/
theorem housed_after (hc : fs.Closed) (hinside : b.FilesInside) {source : String} {c : Call}
    {r : c.Reply}
    (hmay : b.mayAsk source x c) (hown : b.isOwn x c = true) (hh : b.Housed fs cwd false x)
    (he : Effect fs cwd c r fs') : fs'.Closed ∧ b.Housed fs' cwd false (whereabouts x c r) ∧
    b.Keeps fs fs' cwd x (whereabouts x c r) := by
  rcases x with _ | ⟨root, stage⟩
  · cases he with
    | inert r hinert =>
      cases c with
      | clock | record | warn | owe | settle => cases hown
      | _ => exact hinert.elim
    | freshId | noDir => exact ⟨hc, trivial, .of_same rfl⟩
    | makeDir hm =>
      obtain ⟨id, hid, rfl⟩ := hmay
      rw [root_describe] at hm ⊢
      obtain ⟨hhoused, hkeeps⟩ := enters hc (isName_kiln hid) hm
      exact ⟨hc.makeDir hm, hhoused, hkeeps⟩
    | makeDirs r hm =>
      obtain rfl : _ = b.root := eq_of_beq hown
      rcases hm with rfl | ⟨dir, hnames, hstart, rfl⟩
      · exact ⟨hc, trivial, .of_same rfl⟩
      · exact ⟨hc.makeDirs cwd dir, trivial, .inl ⟨rfl, spares_makeDirs hc hnames hstart⟩⟩
    | restrict | written | notWritten | removeTree => cases hown
  · cases he with
    | inert r hinert =>
      rw [whereabouts_inert hinert]
      exact ⟨hc, hh, .of_same rfl⟩
    | freshId | noDir | makeDir => cases stage <;> exact hmay.elim
    | @makeDirs path _ r hm =>
      have hstage : stage ≠ .altered := by
        rintro rfl
        exact hmay
      have hfile : ∃ file ∈ [b.toolchain.manifestFile, b.toolchain.sourceFile],
          parent? (join root file) = some path := by
        cases stage with
        | altered => exact hmay.elim
        | _ => exact hmay
      have hafter : whereabouts (.within root stage) (.makeDirs path) r = .within root stage := by
        cases stage <;> rfl
      obtain ⟨file, hmem, hparent⟩ := hfile
      rw [hafter]
      rcases hm with rfl | ⟨dir, hnames, hstart, rfl⟩
      · exact ⟨hc, hh, .of_same rfl⟩
      · exact ⟨hc.makeDirs cwd dir, furnishes hc hinside hmem hparent hnames hstart hstage hh⟩
    | @restrict path _ r hm =>
      obtain rfl : path = root := by cases stage <;> exact hmay
      have hafter : whereabouts (.within path stage) (.restrict path) r = .within path stage := by
        cases stage <;> rfl
      rw [hafter]
      rcases hm with rfl | ⟨mode, hm⟩
      · exact ⟨hc, hh, .of_same rfl⟩
      · exact restricts hc hm hh
    | written hw =>
      cases stage with
      | bare | half =>
        obtain ⟨rfl, -⟩ := hmay
        exact writes hc hinside (by simp) hw Stage.noConfusion (fun _ => rfl) hh
      | ready | altered => exact hmay.elim
    | notWritten e hw =>
      have haltered : b.Housed fs cwd false (.within root .altered) := hh.restage rfl
      cases stage with
      | bare | half =>
        obtain ⟨rfl, -⟩ := hmay
        rcases hw with rfl | ⟨part, hw⟩
        · exact ⟨hc, haltered, .of_same rfl⟩
        · exact writes hc hinside (by simp) hw Stage.noConfusion (fun h => absurd rfl h) hh
      | ready | altered => exact hmay.elim
    | @removeTree path r =>
      obtain rfl : path = root := by cases stage <;> exact hmay
      have hafter : whereabouts (.within path stage) (.removeTree path) r = .out := by
        cases stage <;> rfl
      obtain ⟨hclosed, hkeeps⟩ := leaves hc hh
      rw [hafter]
      exact ⟨hclosed, trivial, hkeeps⟩

end Rooms

end Workspaces

end Foundry
