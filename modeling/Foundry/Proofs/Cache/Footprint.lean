import Foundry.Cache.Store
import Foundry.Proofs.Courses

/-!
# What the cache touches

Looking up and storing ask for nothing but files, the time and fresh names. A look
concerns the one entry it is about. Storing also goes through the other entries to make
room for a new one.
-/

namespace Foundry

open Program Action

namespace Cache

/-! ## Looking up -/

/-- The calls that only consult one entry: it is read, and removed if it is of no use. -/
def Consults (path : String) : Call → Prop
  | .readFile p | .removeFile p => p = path
  | .today => True
  | _ => False

variable {allowed : Call → Prop} {path : String}

theorem only_readTextFile (h : allowed (.readFile path)) : (readTextFile path).Only allowed := by
  apply (only_ask h).bind
  intro r
  cases r with
  | error e => exact only_done _
  | ok bytes =>
    dsimp only
    split <;> exact only_done _

theorem only_discard (h : allowed (.removeFile path)) : (discard path).Only allowed := by
  apply (only_ask h).bind
  intro r
  cases r <;> exact only_done _

theorem only_get (c : Cache) (source : String) :
    (c.get source).Only (Consults (c.entryPath (c.hash (Text.trim source)))) := by
  generalize hpath : c.entryPath (c.hash (Text.trim source)) = path
  have hread : Consults path (.readFile path) := rfl
  have hremove : (discard path).Only (Consults path) := only_discard rfl
  unfold get
  simp only [hpath]
  apply (only_readTextFile hread).bind
  intro r
  cases r with
  | error e =>
    dsimp only
    split <;> exact only_done _
  | ok content =>
    dsimp only
    split
    · exact hremove.bind fun _ => only_done _
    split
    · exact hremove.bind fun _ => only_done _
    apply (only_ask (c := .today) trivial).bind
    intro now
    split
    · exact hremove.bind fun _ => only_done _
    · exact only_done _

/-! ## Storing -/

/-- The calls that store an entry and make room for it. -/
def Handles : Call → Prop
  | .readFile _ | .writeFile .. | .removeFile _ | .rename .. | .makeDirs _ | .listDir _ => True
  | .today | .freshId => True
  | _ => False

variable {allowed : Call → Prop}

theorem only_datedNames (hread : ∀ path, allowed (.readFile path)) (c : Cache)
    (names : List String) : (c.datedNames names).Only allowed := by
  have hcreation (path : String) : (creation path).Only allowed := by
    apply (only_readTextFile (hread path)).bind
    intro r
    cases r with
    | error e => exact only_done _
    | ok content =>
      dsimp only
      split <;> exact only_done _
  induction names with
  | nil => exact only_done _
  | cons name rest ih =>
    apply (hcreation _).bind
    intro stamp
    exact ih.bind fun _ => only_done _

theorem only_discardAll (hremove : ∀ path, allowed (.removeFile path)) (c : Cache)
    (names : List String) : (c.discardAll names).Only allowed := by
  induction names with
  | nil => exact only_done _
  | cons name rest ih =>
    apply (only_discard (hremove _)).bind
    intro warning
    exact ih.bind fun _ => only_done _

/-- Making room reads entries and removes some. -/
theorem only_evict (hlist : ∀ dir, allowed (.listDir dir))
    (hread : ∀ path, allowed (.readFile path))
    (hremove : ∀ path, allowed (.removeFile path)) (c : Cache) : c.evict.Only allowed := by
  have hentries : c.list.Only allowed := by
    apply (only_ask (hlist c.dir)).bind
    intro r
    cases r with
    | error e => exact only_done _
    | ok names => exact (only_datedNames hread c _).bind fun _ => only_done _
  apply hentries.bind
  intro r
  cases r with
  | error e => exact only_done _
  | ok entries => exact only_discardAll hremove c _

theorem handles_writeEntry (c : Cache) (entry : Entry) : (c.writeEntry entry).run.Only Handles := by
  apply only_bind (only_orFail (only_ask (c := .makeDirs c.dir) trivial))
  intro _
  apply only_lift_bind (only_ask (c := .freshId) trivial)
  intro id
  apply only_bind (only_orFail (only_ask (c := .writeFile _ _) trivial))
  intro _
  apply only_lift_bind (only_ask (c := .rename _ _) trivial)
  intro r
  cases r with
  | ok _ => exact only_done _
  | error e => exact only_lift_bind (only_ask (c := .removeFile _) trivial) fun _ => only_done _

theorem handles_put (c : Cache) (source output : String) : (c.put source output).Only Handles := by
  apply (only_ask (c := .today) trivial).bind
  intro now
  apply (c.handles_writeEntry _).bind
  intro r
  cases r with
  | error fault => exact only_done _
  | ok _ =>
    exact (only_evict (fun _ => trivial) (fun _ => trivial) (fun _ => trivial) c).bind fun _ =>
      only_done _

end Cache

end Foundry
