import Foundry.Proofs.Toml.Statements
import Mathlib.Data.List.Nodup

/-!
# Written documents are read back

A table is written as its plain values and then a section for each of its tables, at any
depth. Read again, it has the same members, with the plain values in front.
-/

namespace Foundry

open List

variable {members : List (String × Value)} {v : Value} {depth : Nat}

namespace Toml

open Value

/-! ## Tables under construction -/

namespace Members

variable {ms : Members} {name : String}

def names (ms : Members) : List String := ms.map (·.1)

theorem get?_of_notMem (h : name ∉ ms.names) : ms.get? name = none := by
  simp only [names, mem_map, not_exists, not_and] at h
  simp only [get?, Option.map_eq_none_iff, List.find?_eq_none, beq_iff_eq]
  exact h

theorem get?_append_self (h : name ∉ ms.names) (node : Node) :
    Members.get? (ms ++ [(name, node)]) name = some node := by
  have hnone := get?_of_notMem h
  rw [get?, Option.map_eq_none_iff] at hnone
  rw [get?, List.find?_append, hnone]
  simp

theorem put_of_notMem (h : name ∉ ms.names) (node : Node) :
    ms.put name node = ms ++ [(name, node)] := by
  induction ms with
  | nil => rfl
  | cons m ms ih =>
    simp only [names, map_cons, mem_cons, not_or] at h
    have hne : (m.1 == name) = false := by simpa using Ne.symm h.1
    simp [put, hne, ih h.2]

theorem put_append_self (h : name ∉ ms.names) (old node : Node) :
    Members.put (ms ++ [(name, old)]) name node = ms ++ [(name, node)] := by
  induction ms with
  | nil => simp [put]
  | cons m ms ih =>
    simp only [names, map_cons, mem_cons, not_or] at h
    have hne : (m.1 == name) = false := by simpa using Ne.symm h.1
    simp [put, hne, ih h.2]

theorem within_append (ms : Members) (f : Members → Option Members) (path further : List String) :
    ms.within f (path ++ further) = ms.within (fun inner => inner.within f further) path := by
  induction path generalizing ms with
  | nil => rfl
  | cons p path ih => simp [within, ih]

end Members

open Members

/-- A document with a hole at a path: what is done to the table there is done to what fills
the hole. -/
def Leads (path : List String) (plug : Members → Members) : Prop :=
  ∀ ms f, (plug ms).within f path = (f ms).map plug

theorem leads_nil : Leads [] id := fun _ f => by simp [within]

section Steps

variable {path : List String} {plug : Members → Members} {ms : Members} {name : String}

/-- A hole in the last table of what fills a hole. -/
theorem Leads.inner (h : Leads path plug) (hname : name ∉ ms.names) :
    Leads (path ++ [name]) fun inner => plug (ms ++ [(name, .table .header inner)]) := by
  intro inner f
  rw [within_append, h, within, get?_append_self hname]
  simp only [within, Option.map_map]
  congr 1
  funext inner'
  simp [put_append_self hname]

theorem Leads.add_assign (h : Leads path plug) (hname : name ∉ ms.names) (v : Value) :
    Draft.add ⟨plug ms, path⟩ (.assign ⟨[], name⟩ v) = some ⟨plug (ms ++ [(name, .value v)]),
    path⟩ := by
  have hassign : ms.assign true [] name v = some (ms ++ [(name, .value v)]) := by
    simp [assign, get?_of_notMem hname, put_of_notMem hname]
  simp [Draft.add, h ms, hassign]

theorem Leads.add_header (h : Leads path plug) (hname : name ∉ ms.names) (current : List String) :
    Draft.add ⟨plug ms, current⟩ (.header ⟨path, name⟩) =
    some ⟨plug (ms ++ [(name, .table .header [])]), path ++ [name]⟩ := by
  have hopen : ms.openTable name = some (ms ++ [(name, .table .header [])]) := by
    simp [openTable, get?_of_notMem hname, put_of_notMem hname]
  simp [Draft.add, h ms, hopen]

end Steps

/-! ## Texts and the drafts they make -/

/-- Reading a text turns one draft into another. -/
def Turns (cs : List Char) (d d' : Draft) : Prop :=
  ∃ statements, Holds cs statements ∧ statements.foldlM Draft.add d = some d'

section Turns

variable {cs left right : List Char} {d d' d'' : Draft}

theorem turns_nil (d : Draft) : Turns [] d d := ⟨[], holds_nil, rfl⟩

theorem Turns.append (hleft : Turns left d d') (hright : Turns right d' d'') :
    Turns (left ++ right) d d'' := by
  obtain ⟨ss, hss, hd'⟩ := hleft
  obtain ⟨ts, hts, hd''⟩ := hright
  refine ⟨ss ++ ts, hss.append hts, ?_⟩
  rw [foldlM_append, hd']
  exact hd''

theorem turns_newline : Turns ('\n' :: cs) d d' ↔ Turns cs d d' := by
  simp only [Turns, Holds.newline]

theorem turns_of_readStatement {s : Statement} (hcs : ∃ c body, cs = c :: body ∧ IsSolid c)
    (h : ∀ rest, readStatement (cs ++ rest) = some (s, rest)) (hadd : d.add s = some d') :
    Turns cs d d' :=
  ⟨[s], holds_of_readStatement hcs h, by simp [hadd]⟩

/-- What a text that can be read describes. -/
theorem parse?_of_turns {text : String} (h : Turns text.toList {} d) :
    parse? text = some (closeMembers d.root) := by
  obtain ⟨ss, hholds, hd⟩ := h
  have hread := hholds [] [] (fun fuel hfuel => by
    obtain ⟨fuel, rfl⟩ := Nat.exists_eq_succ_of_ne_zero (Nat.ne_zero_of_lt hfuel)
    rfl) (text.toList.length + 1) (by simp)
  simp only [append_nil] at hread
  have hmark : dropMark text.toList = text.toList := by
    -- A mark of the encoding would stand where no statement starts with it.
    unfold dropMark
    split
    · rename_i hmark
      rw [hmark] at hread
      cases hread
    · rfl
  simp [parse?, hmark, hread, assemble?, hd]

end Turns

/-! ## Documents -/

/-- Settings, and tables of them with distinct names, nested at most so deep. -/
inductive Value.Fits : Nat → Value → Prop
  | setting {depth : Nat} {v : Value} (h : v.IsSetting) : Fits depth v
  | table {depth : Nat} {members : List (String × Value)} (distinct : (members.map (·.1)).Nodup)
      (fits : ∀ m ∈ members, Fits depth m.2) : Fits (depth + 1) (.table members)

/-- The plain values of a table, as they are read. -/
def plainNodes (members : List (String × Value)) : Members :=
  (members.filter fun m => !m.2.isTable).map fun m => (m.1, .value m.2)

mutual

/-- A value as it is read: a table has its plain values first and then its tables. -/
def Value.node : Value → Node
  | .table members => .table .header (plainNodes members ++ tableNodes members)
  | v => .value v

def tableNodes : List (String × Value) → Members
  | [] => []
  | (name, v) :: rest => (if v.isTable then [(name, v.node)] else []) ++ tableNodes rest

end

theorem Value.IsSetting.isTable (h : v.IsSetting) : v.isTable = false := by
  cases h <;> rfl

theorem Value.Fits.isSetting (h : v.Fits depth) (hplain : v.isTable = false) : v.IsSetting := by
  cases h with
  | setting h => exact h
  | table distinct fits => cases hplain

section Runs

variable {m : String × Value}
variable {path : List String} {plug : Members → Members} {ms : Members} {name : String}

theorem Leads.turns_assign (h : Leads path plug) (hname : name ∉ ms.names) (hv : v.IsSetting) :
    Turns (nameText name ++ " = " ++ v.render ++ "\n").toList ⟨plug ms, path⟩
    ⟨plug (ms ++ [(name, .value v)]), path⟩ := by
  refine turns_of_readStatement ?_ (readStatement_assign hv name) (h.add_assign hname v)
  obtain ⟨c, body, hcons, hc⟩ := nameText_cons name
  exact ⟨c, body ++ (" = " ++ v.render ++ "\n").toList, by simp [hcons],
    fun hmem => hc (by simp_all)⟩

theorem Leads.turns_header (h : Leads path plug) (hname : name ∉ ms.names)
    (hpath : path.length + 1 < depthLimit) (current : List String) :
    Turns (headerText (path ++ [name])).toList ⟨plug ms, current⟩
    ⟨plug (ms ++ [(name, .table .header [])]), path ++ [name]⟩ := by
  refine turns_of_readStatement ?_ (readStatement_header name hpath) (h.add_header hname current)
  exact ⟨'[', (String.intercalate "." ((path ++ [name]).map nameText) ++ "]\n").toList,
    by simp [headerText], by decide⟩

theorem notMem_names_append {node : Node}
    (hname : name ∉ members.map (·.1)) (hm : m ∈ members) (h : m.1 ∉ ms.names) :
    m.1 ∉ names (ms ++ [(name, node)]) := by
  have hne : m.1 ≠ name := by
    rintro rfl
    exact hname (mem_map.mpr ⟨m, hm, rfl⟩)
  simpa [names, hne] using h

/-- The assignments of a table. -/
theorem turns_renderPlain (h : Leads path plug) (members : List (String × Value)) (ms : Members)
    (hsettings : ∀ m ∈ members, m.2.isTable = false → m.2.IsSetting)
    (hdistinct : (members.map (·.1)).Nodup) (hfresh : ∀ m ∈ members, m.1 ∉ ms.names) :
    Turns (renderPlain members).toList ⟨plug ms, path⟩ ⟨plug (ms ++ plainNodes members), path⟩ := by
  induction members generalizing ms with
  | nil => simpa [renderPlain, plainNodes] using turns_nil _
  | cons m members ih =>
    obtain ⟨name, v⟩ := m
    obtain ⟨hname, hdistinct⟩ := nodup_cons.mp hdistinct
    obtain ⟨hfirst, hfresh⟩ := forall_mem_cons.mp hfresh
    obtain ⟨hsetting, hsettings⟩ := forall_mem_cons.mp hsettings
    cases hv : v.isTable with
    | true => simpa [renderPlain, plainNodes, hv] using ih ms hsettings hdistinct hfresh
    | false =>
      have hlast := ih (ms ++ [(name, .value v)]) hsettings hdistinct fun m hm =>
        notMem_names_append hname hm (hfresh m hm)
      simpa [renderPlain, plainNodes, hv] using (h.turns_assign hfirst (hsetting hv)).append hlast

/-- The names of the tables are none of those of the plain values. -/
theorem notMem_names_plainNodes (hdistinct : (members.map (·.1)).Nodup)
    (hm : m ∈ members) (htable : m.2.isTable = true) : m.1 ∉ (plainNodes members).names := by
  intro hmem
  simp only [names, plainNodes, map_map, mem_map, mem_filter] at hmem
  obtain ⟨other, ⟨hother, hplain⟩, hname⟩ := hmem
  have heq : other = m := inj_on_of_nodup_map hdistinct hother hm hname
  simp [heq, htable] at hplain

/-- Each section on lines of its own, after a blank line. -/
def spaced (parts : List String) : List Char := parts.flatMap fun part => '\n' :: part.toList

/-- The sections of a table, and those below them. -/
theorem turns_sections (depth : Nat) (h : Leads path plug)
    (hpath : path.length + depth < depthLimit)
    (members : List (String × Value)) (hfits : ∀ m ∈ members, m.2.Fits depth)
    (hdistinct : (members.map (·.1)).Nodup) (ms : Members)
    (hfresh : ∀ m ∈ members, m.2.isTable = true → m.1 ∉ ms.names) (current : List String) :
    ∃ current', Turns (spaced (sections path members)) ⟨plug ms, current⟩
    ⟨plug (ms ++ tableNodes members), current'⟩ := by
  -- By depth, and at each depth along the members: the sections below a table fill the hole
  -- that its header has opened, and only then the next member comes.
  induction depth using Nat.strongRecOn generalizing path plug members ms current with
  | ind depth ihdepth =>
    induction members generalizing ms current with
    | nil => exact ⟨current, by simpa [sections, spaced, tableNodes] using turns_nil _⟩
    | cons m members ih =>
      obtain ⟨name, v⟩ := m
      obtain ⟨hname, hothers⟩ := nodup_cons.mp hdistinct
      obtain ⟨hnew, hnews⟩ := forall_mem_cons.mp hfresh
      obtain ⟨hv, hvs⟩ := forall_mem_cons.mp hfits
      cases hv with
      | setting hv =>
        have hsection : sectionOf (path ++ [name]) v = [] := by cases hv <;> rfl
        simpa [sections, hsection, tableNodes, hv.isTable] using ih hvs hothers ms hnews current
      | @table depth inner hinner hbelow =>
        have hheader := h.turns_header (hnew rfl) (by omega) current
        have hlead := h.inner (hnew rfl)
        have hplain := turns_renderPlain hlead inner [] (fun m hm => (hbelow m hm).isSetting) hinner
          (by simp [names])
        obtain ⟨below, hsections⟩ := ihdepth depth (Nat.lt_succ_self depth) hlead (by simp; omega)
          inner
          hbelow hinner (plainNodes inner) (fun m hm => notMem_names_plainNodes hinner hm)
            (path ++ [name])
        obtain ⟨last, hlast⟩ := ih hvs hothers (ms ++ [(name, (table inner).node)])
          (fun m hm htable => notMem_names_append hname hm (hnews m hm htable)) below
        refine ⟨last, ?_⟩
        have hall := turns_newline.mpr (((hheader.append hplain).append hsections).append hlast)
        simpa [spaced, sections, sectionOf, tableNodes, isTable] using hall

end Runs

theorem spaced_cons (part : String) (parts : List String) :
    spaced (part :: parts) = '\n' :: (String.intercalate "\n" (part :: parts)).toList := by
  induction parts generalizing part with
  | nil => simp [spaced]
  | cons next parts ih =>
    have hnext := ih next
    simp only [spaced, flatMap_cons] at hnext ⊢
    simp [String.intercalate_cons_cons, hnext]

theorem turns_intercalate {parts : List String} {d d' : Draft} (h : Turns (spaced parts) d d') :
    Turns (String.intercalate "\n" parts).toList d d' := by
  cases parts with
  | nil => exact h
  | cons part parts => exact turns_newline.mp (spaced_cons part parts ▸ h)

/-- A document is read back, with the plain values of each table in front of its tables. -/
theorem parse?_renderFile (h : (table members).Fits depth) (hdepth : depth ≤ depthLimit) :
    parse? (renderFile members) =
    some (closeMembers (plainNodes members ++ tableNodes members)) := by
  cases h with
  | setting h => cases h
  | @table depth _ hdistinct hfits =>
    have hplain := turns_renderPlain leads_nil members [] (fun m hm => (hfits m hm).isSetting)
      hdistinct (by simp [names])
    obtain ⟨current, hsections⟩ := turns_sections depth leads_nil (by simp; omega) members hfits
      hdistinct (plainNodes members) (fun m hm => notMem_names_plainNodes hdistinct hm) []
    refine parse?_of_turns (d := ⟨plainNodes members ++ tableNodes members, current⟩)
      (turns_intercalate ?_)
    split
    · rename_i hempty
      rw [String.isEmpty_iff.mp hempty] at hplain
      exact hplain.append hsections
    · exact turns_newline.mpr (hplain.append hsections)

/-! ## Counts that can be written -/

theorem Value.IsSetting.integers_lt (h : v.IsSetting) :
    ∀ n ∈ v.integers, n < 0x8000000000000000 := by
  cases h with
  | @integer n h =>
    simp only [integers, forall_mem_singleton]
    omega
  | texts texts =>
    have hnone : integersOf (texts.map .string) = [] := by
      induction texts with
      | nil => rfl
      | cons text texts ih => simp [integersOf, integers, ih]
    simp [integers, hnone]
  | _ => simp [integers]

theorem integersIn_lt (h : ∀ m ∈ members, ∀ n ∈ m.2.integers, n < 0x8000000000000000) :
    ∀ n ∈ integersIn members, n < 0x8000000000000000 := by
  induction members with
  | nil => simp [integersIn]
  | cons m members ih =>
    obtain ⟨hm, hrest⟩ := forall_mem_cons.mp h
    rw [integersIn, forall_mem_append]
    exact ⟨hm, ih hrest⟩

theorem Value.Fits.integers_lt (h : v.Fits depth) : ∀ n ∈ v.integers, n < 0x8000000000000000 := by
  induction h with
  | setting h => exact h.integers_lt
  | table _ _ ih => exact integersIn_lt ih

theorem write_of_fits (h : (table members).Fits depth) : write members = .ok (renderFile members) :=
  if_pos (all_eq_true.mpr fun n hn => decide_eq_true (h.integers_lt n hn))

end Toml

end Foundry
