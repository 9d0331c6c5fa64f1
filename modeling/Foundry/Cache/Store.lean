import Foundry.Cache.Entry
import Foundry.Config.Schema
import Foundry.Files.Path
import Foundry.Program

/-!
# The output cache

One file per hash of a trimmed source. Looking up and storing never fail: what goes
wrong is reported as a warning, because a miss is always a safe answer. A new entry
is written under a name that nobody looks up and then renamed into place, so no
reader sees half an entry.
-/

namespace Foundry

open Program

structure Cache where
  dir : String
  maxEntries : Nat
  /-- In nanoseconds. -/
  maxAge : Int
  /-- How sources are filed. -/
  hash : String → String := contentHash

namespace Cache

/-- The longest age, in seconds, that is taken as configured. -/
def longestAge : Nat := 9223372036854775

/-- What stands for a longer one: 36500 days. -/
def ageBeyond : Nat := 36500 * 86400

def ageNanos (seconds : Nat) : Int :=
  (if seconds ≤ longestAge then seconds else ageBeyond) * Duration.perSecond

def ofSettings (dir : String) (maxEntries maxAgeSecs : Nat) : Cache :=
  { dir, maxEntries, maxAge := ageNanos maxAgeSecs }

def extension : String := "json"

variable (c : Cache)

def entryPath (hash : String) : String := Path.join c.dir (hash ++ "." ++ extension)

/-- Remove an entry file. One that is gone already will do. -/
def discard (path : String) : Program (Option String) := do
  match ← ask (.removeFile path) with
  | .ok _ => return none
  | .error e => return if isMissing e then none else some s!"removing {path}: {e.message}"

/-- The output stored for a source, if its entry is there, its own and fresh. Entries that can
never be served again are removed. -/
def get (source : String) : Program (Advised (Option String)) := do
  let source := Text.trim source
  let hash := c.hash source
  let path := c.entryPath hash
  match ← readTextFile path with
  | .error e =>
    if isMissing e then return ⟨none, none⟩
    else return ⟨none, some s!"reading cache entry {path}: {e.message}"⟩
  | .ok content =>
    match Entry.parse content.toUTF8.toList with
    | .error reason =>
      let removal ← discard path
      return ⟨none, joinWarnings (some s!"discarding unreadable cache entry {hash}: {reason}")
        removal⟩
    | .ok entry =>
      if !entry.isFor source hash then
        let removal ← discard path
        return ⟨none,
          joinWarnings (some s!"discarding cache entry {hash} with mismatched source") removal⟩
      else if entry.isStale (← ask .today) c.maxAge then
        return ⟨none, ← discard path⟩
      else return ⟨some entry.output, none⟩

/-- The name of a file that is being written: it has no entry's extension. -/
def draftPath (hash id : String) : String :=
  Path.join c.dir ("." ++ hash ++ "." ++ id ++ ".tmp")

def writeEntry (entry : Entry) : Action Unit := do
  orFault s!"creating {c.dir}" (ask (.makeDirs c.dir))
  let path := c.entryPath entry.hash
  let draft := c.draftPath entry.hash (← ask .freshId)
  orFault s!"writing {draft}" (ask (.writeFile draft entry.toJson.pretty.toUTF8))
  match ← ask (.rename draft path) with
  | .ok _ => return ()
  | .error e =>
    let _ ← ask (.removeFile draft)
    throw (.files s!"renaming into {path}" e)

/-- When the entry in a file was made; what cannot be read counts as the oldest. -/
def creation (path : String) : Program Stamp := do
  match ← readTextFile path with
  | .error _ => return Stamp.earliest
  | .ok content =>
    match Entry.parse content.toUTF8.toList with
    | .ok entry => return entry.createdAt
    | .error _ => return Stamp.earliest

def isEntryName (name : String) : Bool := Path.extension? name == some extension

def datedNames (c : Cache) : List String → Program (List (String × Stamp))
  | [] => return []
  | name :: rest => do
    let stamp ← creation (Path.join c.dir name)
    return (name, stamp) :: (← c.datedNames rest)

/-- The entry files with their times. A directory that is not there holds none. -/
def list : Program (Except Cause (List (String × Stamp))) := do
  match ← ask (.listDir c.dir) with
  | .ok names => return .ok (← c.datedNames (names.filter isEntryName))
  | .error e => return if isMissing e then .ok [] else .error e

/-- Older entries come first, and of equally old ones the lesser name. -/
def precedes (a b : String × Stamp) : Bool :=
  a.2.lt b.2 || (a.2 == b.2 && a.1 ≤ b.1)

/-- Remove entry files one by one, counting those removed. -/
def discardAll (c : Cache) : List String → Program (Advised Nat)
  | [] => return ⟨0, none⟩
  | name :: rest => do
    let warning ← discard (Path.join c.dir name)
    let later ← c.discardAll rest
    return ⟨(if warning.isNone then 1 else 0) + later.value, joinWarnings warning later.warning⟩

/-- Remove the oldest entries beyond the budget. -/
def evict : Program (Advised Nat) := do
  match ← c.list with
  | .error e => return ⟨0, some s!"listing cache entries: {e.message}"⟩
  | .ok entries =>
    let excess := (entries.mergeSort precedes).take (entries.length - c.maxEntries)
    c.discardAll (excess.map (·.1))

/-- Store the output of a source, then keep to the budget. -/
def put (source output : String) : Program (Advised Unit) := do
  let entry := Entry.ofOutput c.hash (← ask .today) source output
  match ← (c.writeEntry entry).run with
  | .error fault => return ⟨(), some s!"writing cache entry: {fault.message}"⟩
  | .ok _ => return ⟨(), (← c.evict).warning⟩

/-- Remove every entry and leave an empty directory. -/
def clear : Action Unit := do
  match ← ask (.removeTree c.dir) with
  | .ok _ => pure ()
  | .error e =>
    if !isMissing e then throw (.files s!"removing cache directory {c.dir}" e)
  orFault s!"creating cache directory {c.dir}" (ask (.makeDirs c.dir))

structure Stats where
  entries : Nat
  bytes : Nat
deriving DecidableEq, Repr, Inhabited

/-- The sizes of files, those that have one, added up. -/
def totalSize (c : Cache) : List String → Program Nat
  | [] => return 0
  | name :: rest => do
    match ← ask (.fileSize (Path.join c.dir name)) with
    | .ok n => return n + (← c.totalSize rest)
    | .error _ => c.totalSize rest

def stats : Action Stats := do
  let entries ← orFault s!"listing {c.dir}" c.list
  return ⟨entries.length, ← c.totalSize (entries.map (·.1))⟩

end Cache

end Foundry
