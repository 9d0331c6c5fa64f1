import Foundry.Files.Executable
import Foundry.Machine.Runner
import Foundry.Proofs.Files.Nodes
import Mathlib.Data.List.Forall2

/-!
# Files whose contents do not matter

Where a path leads, what can be made and what can be removed does not depend on what is in
a file. So two trees that are the same but for the contents of some files stay so, whatever
is done to both, and all that is done to them succeeds or fails in both. Which files these
are is said by their numbers.
-/

namespace Foundry

open List

variable {free : Nat → Bool}

/-! ## Files that hold more -/

/-- All bytes are still there, in their order, among others. -/
def IsPart (old new : ByteArray) : Prop := old.data.toList.Sublist new.data.toList

theorem IsPart.refl (bytes : ByteArray) : IsPart bytes bytes := Sublist.refl _

theorem IsPart.append {old new more more' : ByteArray} (h : IsPart old new)
    (hmore : IsPart more more') : IsPart (old ++ more) (new ++ more') := by
  simpa [IsPart, ByteArray.data_append] using Sublist.append h hmore

namespace Node

/-- The same node, but a free file may hold more. -/
inductive Grown (free : Nat → Bool) : Node → Node → Prop
  | same (n : Node) : Grown free n n
  | more {id mode : Nat} {old new : ByteArray} (hfree : free id = true) (hpart : IsPart old new) :
      Grown free (.file id old mode) (.file id new mode)

/-- A free file is not for execution. -/
def IsInert (free : Nat → Bool) : Node → Prop
  | .file id bytes mode => free id = true → Files.mayExecute (.file id bytes mode) = false
  | _ => True

/-- Nodes at the same place of two trees. -/
def Twin (free : Nat → Bool) (n n' : Node) : Prop := n.Grown free n' ∧ n.IsInert free

end Node

/-- The same comes of both, or both fail for the same reason. -/
inductive Alike {α : Type} (R : α → α → Prop) : Except Cause α → Except Cause α → Prop
  | error (e : Cause) : Alike R (.error e) (.error e)
  | ok {a a' : α} (h : R a a') : Alike R (.ok a) (.ok a')

theorem Alike.bind {α β : Type} {R : α → α → Prop} {S : β → β → Prop} {x x' : Except Cause α}
    {f f' : α → Except Cause β} (h : Alike R x x') (hf : ∀ a a', R a a' → Alike S (f a) (f' a')) :
    Alike S (x >>= f) (x' >>= f') := by
  cases h with
  | error e => exact .error e
  | ok h => exact hf _ _ h

namespace Files

variable {fs fs' : Files} {cwd : Place} {path : String} {n n' : Node} {follow : Bool} {id : Nat}
  {x x' : Except Cause Files}

/-- Free files are not for execution. -/
def Inert (free : Nat → Bool) (fs : Files) : Prop := ∀ p n, fs.get? p = some n → n.IsInert free

theorem inert_none (fs : Files) : fs.Inert fun _ => false := by
  intro p n _
  cases n with
  | file => exact fun hfree => nomatch hfree
  | _ => trivial

/-- The second tree is the first, but its free files may hold more. -/
structure Grown (free : Nat → Bool) (fs fs' : Files) : Prop where
  nodes : Forall₂ (fun e e' => e'.1 = e.1 ∧ e.2.Grown free e'.2) fs.nodes fs'.nodes
  nextId : fs'.nextId = fs.nextId
  inert : fs.Inert free

theorem Inert.grown (h : fs.Inert free) : fs.Grown free fs :=
  ⟨forall₂_same.mpr fun _ _ => ⟨rfl, .same _⟩, rfl, h⟩

/-- Where nothing is free nothing differs. -/
theorem Grown.eq_of_none (h : fs.Grown (fun _ => false) fs') : fs' = fs := by
  have hnode {n n' : Node} (hn : n.Grown (fun _ => false) n') : n = n' := by
    cases hn with
    | same => rfl
    | more hfree => cases hfree
  have hnodes : Forall₂ Eq fs.nodes fs'.nodes := h.nodes.imp fun e e' he =>
    Prod.ext he.1.symm (hnode he.2)
  rw [forall₂_eq_eq_eq] at hnodes
  have hnext := h.nextId
  cases fs
  cases fs'
  cases hnodes
  cases hnext
  rfl

/-- Where a path leads in both trees. -/
inductive Target.Twin (free : Nat → Bool) : Target → Target → Prop
  | intro (p : Place) (asDir : Bool) {n n' : Option Node} (h : Option.Rel (Node.Twin free) n n') :
      Target.Twin free ⟨p, n, asDir⟩ ⟨p, n', asDir⟩

namespace Grown

variable (h : fs.Grown free fs')
include h

/-! ## Looking up -/

theorem node (p : Place) : Option.Rel (Node.Twin free) (fs.get? p) (fs'.get? p) := by
  have hlookup {l l' : List (Place × Node)}
      (hl : Forall₂ (fun e e' => e'.1 = e.1 ∧ e.2.Grown free e'.2) l l') :
      Option.Rel (Node.Grown free) (l.lookup p) (l'.lookup p) := by
    induction hl with
    | nil => exact .none
    | @cons e e' l l' he _ ih =>
      obtain ⟨q, n⟩ := e
      obtain ⟨q', n'⟩ := e'
      obtain ⟨rfl, hn⟩ := he
      rw [lookup_cons_if, lookup_cons_if]
      split
      · exact .some hn
      · exact ih
  have hnode : Option.Rel (Node.Grown free) (fs.get? p) (fs'.get? p) := by
    by_cases hp : p = []
    · subst hp
      exact .some (.same _)
    rw [get?_of_ne _ hp, get?_of_ne _ hp]
    exact hlookup h.nodes
  have hinert := h.inert p
  generalize fs.get? p = found at hnode hinert ⊢
  generalize fs'.get? p = found' at hnode ⊢
  cases hnode with
  | none => exact .none
  | some hn => exact .some ⟨hn, hinert _ rfl⟩

theorem walkNames {jump jump' : String → Bool → Place → List String → Except Cause Target}
    (hjump : ∀ target asDir at_ rest, Alike (Target.Twin free) (jump target asDir at_ rest)
    (jump' target asDir at_ rest)) (asDir : Bool) (at_ : Place) (names : List String) :
    Alike (Target.Twin free) (fs.walkNames follow jump asDir at_ names)
    (fs'.walkNames follow jump' asDir at_ names) := by
  induction names generalizing at_ with
  | nil => exact .ok (.intro _ _ (h.node at_))
  | cons name rest ih =>
    simp only [Files.walkNames]
    split
    · exact ih _
    split
    · exact ih _
    split
    · exact .error _
    have hnode := h.node (at_ ++ [name])
    generalize fs.get? (at_ ++ [name]) = found at hnode ⊢
    generalize fs'.get? (at_ ++ [name]) = found' at hnode ⊢
    cases hnode with
    | none =>
      dsimp only
      split
      · exact .ok (.intro _ _ .none)
      · exact .error _
    | @some n n' hn =>
      obtain ⟨hgrown, hinert⟩ := hn
      cases hgrown with
      | more hfree hpart =>
        dsimp only
        split
        · exact .ok (.intro _ _ (.some ⟨.more hfree hpart, hinert⟩))
        · exact .error _
      | same =>
        have hend (p : Place) : Alike (Target.Twin free) (.ok ⟨p, some n, asDir⟩)
            (.ok ⟨p, some n, asDir⟩) :=
          .ok (.intro p asDir (.some ⟨.same n, hinert⟩))
        cases n with
        | dir mode =>
          dsimp only
          split
          · exact hend _
          · exact ih _
        | link target =>
          dsimp only
          split
          · exact hend _
          · exact hjump _ _ _ _
        | file | device | program =>
          dsimp only
          split
          · exact hend _
          · exact .error _

theorem walk (links : Nat) (asDir : Bool) (at_ : Place) (names : List String) :
    Alike (Target.Twin free) (fs.walk follow links asDir at_ names)
    (fs'.walk follow links asDir at_ names) := by
  induction links generalizing asDir at_ names with
  | zero =>
    rw [Files.walk, Files.walk]
    exact h.walkNames (fun _ _ _ _ => .error _) asDir at_ names
  | succ links ih =>
    rw [Files.walk, Files.walk]
    refine h.walkNames (fun target asDir at_ rest => ?_) asDir at_ names
    split
    · exact .error _
    · exact ih _ _ _

theorem locate (cwd : Place) (follow : Bool) (path : String) :
    Alike (Target.Twin free) (fs.locate cwd follow path) (fs'.locate cwd follow path) := by
  unfold Files.locate
  split
  · exact .error _
  split
  · exact .error _
  split
  · exact .error _
  dsimp only
  have hnode := h.node (if Path.isAbsolute path = true then [] else cwd)
  generalize fs.get? (if Path.isAbsolute path = true then [] else cwd) = found at hnode ⊢
  generalize fs'.get? (if Path.isAbsolute path = true then [] else cwd) = found' at hnode ⊢
  cases hnode with
  | none => exact .error _
  | @some n n' hn =>
    obtain ⟨hgrown, -⟩ := hn
    cases hgrown with
    | more => exact .error _
    | same =>
      cases n with
      | dir mode => exact h.walk _ _ _ _
      | _ => exact .error _

theorem find (cwd : Place) (follow : Bool) (path : String) :
    Alike (fun x x' => x'.1 = x.1 ∧ x.2.Grown free x'.2) (fs.find cwd follow path)
    (fs'.find cwd follow path) := by
  refine (h.locate cwd follow path).bind fun t t' ht => ?_
  cases ht with
  | intro p asDir hn =>
    cases hn with
    | none => exact .error _
    | some hn => exact .ok ⟨rfl, hn.1⟩

theorem isFile (cwd : Place) (path : String) : fs'.isFile cwd path = fs.isFile cwd path := by
  have hfound := h.find cwd true path
  unfold Files.isFile
  generalize fs.find cwd true path = x at hfound ⊢
  generalize fs'.find cwd true path = x' at hfound ⊢
  cases hfound with
  | error e => rfl
  | @ok a a' ha =>
    obtain ⟨p, n⟩ := a
    obtain ⟨p', n'⟩ := a'
    obtain ⟨-, hn⟩ := ha
    cases hn <;> rfl

theorem isDir (cwd : Place) (path : String) : fs'.isDir cwd path = fs.isDir cwd path := by
  have hfound := h.find cwd true path
  unfold Files.isDir
  generalize fs.find cwd true path = x at hfound ⊢
  generalize fs'.find cwd true path = x' at hfound ⊢
  cases hfound with
  | error e => rfl
  | @ok a a' ha =>
    obtain ⟨p, n⟩ := a
    obtain ⟨p', n'⟩ := a'
    obtain ⟨-, hn⟩ := ha
    cases hn <;> rfl

theorem contents? (hid : free id = false) : fs'.contents? id = fs.contents? id := by
  have hnodes := h.nodes
  unfold Files.contents?
  generalize fs.nodes = l at hnodes ⊢
  generalize fs'.nodes = l' at hnodes ⊢
  induction hnodes with
  | nil => rfl
  | @cons e e' l l' he _ ih =>
    obtain ⟨q, n⟩ := e
    obtain ⟨q', n'⟩ := e'
    obtain ⟨-, hn⟩ := he
    rw [findSome?_cons, findSome?_cons, ih]
    cases hn with
    | same => rfl
    | @more k _ _ _ hfree =>
      have hk : k ≠ id := by
        rintro rfl
        rw [hid] at hfree
        cases hfree
      simp [hk]

/-! ## Making and removing -/

theorem put (hn : n.Twin free n') (p : Place) : (fs.put p n).Grown free (fs'.put p n') := by
  have hput {l l' : List (Place × Node)}
      (hl : Forall₂ (fun e e' => e'.1 = e.1 ∧ e.2.Grown free e'.2) l l') :
      Forall₂ (fun e e' => e'.1 = e.1 ∧ e.2.Grown free e'.2) (putIn p n l) (putIn p n' l') := by
    induction hl with
    | nil => exact .cons ⟨rfl, hn.1⟩ .nil
    | cons he hl ih =>
      simp only [putIn, he.1]
      split
      · exact .cons ⟨rfl, hn.1⟩ hl
      · exact .cons he ih
  refine ⟨hput h.nodes, h.nextId, fun q m hm => ?_⟩
  rw [get?_put] at hm
  split at hm
  · cases hm
    exact hn.2
  · exact h.inert q m hm

theorem erase (p : Place) : (fs.erase p).Grown free (fs'.erase p) :=
  ⟨rel_filter (fun _ _ he => by simp [he.1]) h.nodes, h.nextId,
    fun q n hn => h.inert q n (covers_erase fs p q n hn)⟩

theorem eraseBelow (p : Place) : (fs.eraseBelow p).Grown free (fs'.eraseBelow p) :=
  ⟨rel_filter (fun _ _ he => by simp [he.1]) h.nodes, h.nextId,
    fun q n hn => h.inert q n (covers_eraseBelow fs p q n hn)⟩

theorem makeDir (cwd : Place) (path : String) :
    Alike (Grown free) (fs.makeDir cwd path) (fs'.makeDir cwd path) := by
  refine (h.locate cwd false path).bind fun t t' ht => ?_
  cases ht with
  | intro p asDir hn =>
    cases hn with
    | none => exact .ok (h.put ⟨.same (.dir _), trivial⟩ p)
    | some => exact .error _

theorem makeLink (cwd : Place) (target path : String) :
    Alike (Grown free) (fs.makeLink cwd target path) (fs'.makeLink cwd target path) := by
  refine (h.locate cwd false path).bind fun t t' ht => ?_
  cases ht with
  | intro p asDir hn =>
    cases hn with
    | none => exact .ok (h.put ⟨.same (.link _), trivial⟩ p)
    | some => exact .error _

theorem makeInnermost (cwd : Place) (missing paths : List String) :
    Alike (fun made made' => made.1.Grown free made'.1 ∧ made'.2 = made.2)
    (fs.makeInnermost cwd missing paths) (fs'.makeInnermost cwd missing paths) := by
  induction paths generalizing missing with
  | nil => exact .ok ⟨h, rfl⟩
  | cons path rest ih =>
    have hmade := h.makeDir cwd path
    simp only [Files.makeInnermost, h.isDir]
    generalize fs.makeDir cwd path = x at hmade ⊢
    generalize fs'.makeDir cwd path = x' at hmade ⊢
    cases hmade with
    | ok hmade => exact .ok ⟨hmade, rfl⟩
    | error e =>
      dsimp only
      split
      · exact ih _
      split
      · exact .ok ⟨h, rfl⟩
      · exact .error _

theorem makeEach (cwd : Place) (paths : List String) :
    (fs.makeEach cwd paths).1.Grown free (fs'.makeEach cwd paths).1 ∧
    (fs'.makeEach cwd paths).2 = (fs.makeEach cwd paths).2 := by
  induction paths generalizing fs fs' with
  | nil => exact ⟨h, rfl⟩
  | cons path rest ih =>
    have hmade := h.makeDir cwd path
    simp only [Files.makeEach, h.isDir]
    generalize fs.makeDir cwd path = x at hmade ⊢
    generalize fs'.makeDir cwd path = x' at hmade ⊢
    cases hmade with
    | ok hmade => exact ih hmade
    | error e =>
      dsimp only
      split
      · exact ih h
      · exact ⟨h, rfl⟩

theorem makeDirs (cwd : Place) (path : String) :
    (fs.makeDirs cwd path).1.Grown free (fs'.makeDirs cwd path).1 ∧
    (fs'.makeDirs cwd path).2 = (fs.makeDirs cwd path).2 := by
  have hmade := h.makeInnermost cwd [] (ancestors (path.length + 1) path)
  unfold Files.makeDirs
  generalize fs.makeInnermost cwd [] (ancestors (path.length + 1) path) = x at hmade ⊢
  generalize fs'.makeInnermost cwd [] (ancestors (path.length + 1) path) = x' at hmade ⊢
  cases hmade with
  | error e => exact ⟨h, rfl⟩
  | ok hmade =>
    dsimp only
    rw [hmade.2]
    exact hmade.1.makeEach cwd _

theorem removeFile (cwd : Place) (path : String) :
    Alike (Grown free) (fs.removeFile cwd path) (fs'.removeFile cwd path) := by
  refine (h.find cwd false path).bind fun x x' hx => ?_
  obtain ⟨p, n⟩ := x
  obtain ⟨p', n'⟩ := x'
  obtain ⟨rfl, hn⟩ := hx
  cases hn with
  | more => exact .ok (h.erase p')
  | same =>
    cases n with
    | dir mode => exact .error _
    | _ => exact .ok (h.erase p')

theorem removeTree (cwd : Place) (path : String) :
    (fs.removeTree cwd path).1.Grown free (fs'.removeTree cwd path).1 ∧
    (fs'.removeTree cwd path).2 = (fs.removeTree cwd path).2 := by
  have hfound := h.find cwd false path
  unfold Files.removeTree
  generalize fs.find cwd false path = x at hfound ⊢
  generalize fs'.find cwd false path = x' at hfound ⊢
  cases hfound with
  | error e => exact ⟨h, rfl⟩
  | @ok found found' hfound =>
    obtain ⟨p, n⟩ := found
    obtain ⟨p', n'⟩ := found'
    obtain ⟨rfl, hn⟩ := hfound
    cases hn with
    | more => exact ⟨h, rfl⟩
    | same =>
      cases n with
      | dir mode =>
        have hemptied := h.eraseBelow p'
        have hagain := hemptied.find cwd false path
        dsimp only
        generalize (fs.eraseBelow p').find cwd false path = y at hagain ⊢
        generalize (fs'.eraseBelow p').find cwd false path = y' at hagain ⊢
        cases hagain with
        | error e => exact ⟨hemptied, rfl⟩
        | ok =>
          cases lastNameError? path with
          | some e => exact ⟨hemptied, rfl⟩
          | none => exact ⟨hemptied.erase p', rfl⟩
      | link target => exact ⟨h.erase p', rfl⟩
      | file | device | program => exact ⟨h, rfl⟩

/-! ## Writing -/

/-- A file is opened in both trees, or in neither. -/
theorem openForWriting (cwd : Place) (path : String) :
    Alike (fun o o' => o.1.Grown free o'.1 ∧ o'.2.1 = o.2.1 ∧ o.2.2.Twin free o'.2.2)
    (fs.openForWriting cwd path) (fs'.openForWriting cwd path) := by
  refine (h.locate cwd true path).bind fun t t' ht => ?_
  cases ht with
  | intro p asDir hn =>
    cases hn with
    | @some n n' hn =>
      obtain ⟨hgrown, hinert⟩ := hn
      cases hgrown with
      | more hfree hpart => exact .ok ⟨h, rfl, .more hfree hpart, hinert⟩
      | same =>
        cases n with
        | dir mode => exact .error _
        | _ => exact .ok ⟨h, rfl, .same _, hinert⟩
    | none =>
      cases asDir with
      | true => exact .error _
      | false =>
        have hnew : (Node.file fs.nextId .empty defaultMode).Twin free
            (.file fs'.nextId .empty defaultMode) := by
          rw [h.nextId]
          exact ⟨.same _, fun _ => rfl⟩
        obtain ⟨hnodes, -, hinert⟩ := h.put hnew p
        exact .ok ⟨⟨hnodes, congrArg (· + 1) h.nextId, hinert⟩, rfl, hnew⟩

end Grown

/-- If a path opens a file for writing, it is a free one. -/
def opensOnly (fs : Files) (cwd : Place) (path : String) (free : Nat → Bool) : Bool :=
  match fs.openForWriting cwd path with
  | .ok (_, _, .file id _ _) => free id
  | _ => true

namespace Grown

variable (h : fs.Grown free fs')
include h

theorem opensOnly (which : Nat → Bool) :
    fs'.opensOnly cwd path which = fs.opensOnly cwd path which := by
  have hopens := h.openForWriting cwd path
  unfold Files.opensOnly
  generalize fs.openForWriting cwd path = x at hopens ⊢
  generalize fs'.openForWriting cwd path = x' at hopens ⊢
  cases hopens with
  | error e => rfl
  | @ok o o' ho =>
    obtain ⟨fs₁, p, n⟩ := o
    obtain ⟨fs₁', p', n'⟩ := o'
    obtain ⟨-, -, hn, -⟩ := ho
    cases hn with
    | more => rfl
    | same => cases n <;> rfl

theorem edit {f g : ByteArray → ByteArray}
    (hparts : ∀ old new, IsPart old new → IsPart (f old) (g new))
    (hsame : f = g ∨ fs.opensOnly cwd path free = true) :
    Alike (Grown free) (fs.edit cwd path f) (fs'.edit cwd path g) := by
  have hopens := h.openForWriting cwd path
  unfold Files.edit
  cases hopen : fs.openForWriting cwd path with
  | error e =>
    rw [hopen] at hopens
    generalize fs'.openForWriting cwd path = x' at hopens ⊢
    cases hopens
    exact .error e
  | ok o =>
    rw [hopen] at hopens
    generalize fs'.openForWriting cwd path = x' at hopens ⊢
    cases hopens with
    | @ok _ o' ho =>
      obtain ⟨fs₁, p, n⟩ := o
      obtain ⟨fs₁', p', n'⟩ := o'
      obtain ⟨hgrown, rfl, hn, hinert⟩ := ho
      cases hn with
      | more hfree hpart => exact .ok (hgrown.put ⟨.more hfree (hparts _ _ hpart), hinert⟩ p')
      | same =>
        cases n with
        | file id bytes mode =>
          have hedited : (Node.file id (f bytes) mode).Grown free (.file id (g bytes) mode) := by
            cases hfree : free id with
            | true => exact .more hfree (hparts _ _ (IsPart.refl bytes))
            | false =>
              have hnot : fs.opensOnly cwd path free ≠ true := by simp [Files.opensOnly, hopen,
                hfree]
              rw [hsame.resolve_right hnot]
              exact .same _
          exact .ok (hgrown.put ⟨hedited, hinert⟩ p')
        | device d =>
          cases d with
          | full => exact .error _
          | null | zeros => exact .ok hgrown
        | dir | link | program => exact .error _

theorem write (bytes : ByteArray) :
    Alike (Grown free) (fs.write cwd path bytes) (fs'.write cwd path bytes) :=
  h.edit (fun _ _ _ => IsPart.refl bytes) (.inl rfl)

theorem append (bytes : ByteArray) :
    Alike (Grown free) (fs.append cwd path bytes) (fs'.append cwd path bytes) :=
  h.edit (fun _ _ hpart => hpart.append (IsPart.refl bytes)) (.inl rfl)

theorem editId (id : Nat) (bytes : ByteArray) :
    (fs.editId id fun _ => bytes).Grown free (fs'.editId id fun _ => bytes) := by
  refine ⟨?_, h.nextId, fun p n hn => ?_⟩
  · rw [nodes_editId, nodes_editId, forall₂_map_left_iff, forall₂_map_right_iff]
    refine h.nodes.imp fun e e' he => ⟨he.1, ?_⟩
    obtain ⟨q, n⟩ := e
    obtain ⟨q', n'⟩ := e'
    obtain ⟨-, hn⟩ := he
    cases hn with
    | same => exact .same _
    | more hfree hpart =>
      simp only [editNode]
      split
      · exact .same _
      · exact .more hfree hpart
  · rw [get?_editId, Option.map_eq_some_iff] at hn
    obtain ⟨m, hm, rfl⟩ := hn
    have hinert := h.inert p m hm
    cases m with
    | file k was mode =>
      simp only [editNode]
      split <;> exact hinert
    | _ => exact hinert

/-! ## Reactions -/

theorem getD (hx : Alike (Grown free) x x') :
    (x.toOption.getD fs).Grown free (x'.toOption.getD fs') := by
  cases hx with
  | error e => exact h
  | ok hx => exact hx

theorem install (path : String) (content : Content) :
    (fs.install cwd path content).Grown free (fs'.install cwd path content) := by
  unfold Files.install
  cases Path.parent? path with
  | none =>
    cases content with
    | bytes bytes => exact h.getD (h.write bytes)
    | link target => exact h.getD (h.makeLink cwd target path)
    | dir => exact (h.makeDirs cwd path).1
  | some dir =>
    have hparent := (h.makeDirs cwd dir).1
    cases content with
    | bytes bytes => exact hparent.getD (hparent.write bytes)
    | link target => exact hparent.getD (hparent.makeLink cwd target path)
    | dir => exact (hparent.makeDirs cwd path).1

theorem uninstall (path : String) :
    (fs.uninstall cwd path).Grown free (fs'.uninstall cwd path) := by
  obtain ⟨htree, hresult⟩ := h.removeTree cwd path
  unfold Files.uninstall
  generalize fs.removeTree cwd path = x at htree hresult ⊢
  generalize fs'.removeTree cwd path = x' at htree hresult ⊢
  obtain ⟨fs₁, r⟩ := x
  obtain ⟨fs₁', r'⟩ := x'
  obtain rfl : r' = r := hresult
  cases r' with
  | ok _ => exact htree
  | error e => exact htree.getD (htree.removeFile cwd path)

end Grown

end Files

theorem Reaction.grown_apply (r : Reaction) {fs fs' : Files} (h : fs.Grown free fs') (cwd : Place)
    (dir : String) : (r.apply fs cwd dir).Grown free (r.apply fs' cwd dir) := by
  have hwrites (writes : List (String × Content)) {fs fs' : Files} (h : fs.Grown free fs') :
      (writes.foldl (fun fs w => fs.install cwd (Path.join dir w.1) w.2) fs).Grown free
        (writes.foldl (fun fs w => fs.install cwd (Path.join dir w.1) w.2) fs') := by
    induction writes generalizing fs fs' with
    | nil => exact h
    | cons w writes ih => exact ih (h.install _ w.2)
  have hremoves (removes : List String) {fs fs' : Files} (h : fs.Grown free fs') :
      (removes.foldl (fun fs p => fs.uninstall cwd (Path.join dir p)) fs).Grown free
        (removes.foldl (fun fs p => fs.uninstall cwd (Path.join dir p)) fs') := by
    induction removes generalizing fs fs' with
    | nil => exact h
    | cons p removes ih => exact ih (h.uninstall _)
  exact hremoves r.removes (hwrites r.writes h)

end Foundry
