import Foundry.Config.Document
import Foundry.Proofs.Toml.Documents

/-!
# Sections read back from their own members

Every section of the configuration is a table of settings, and is what is read from its own
members: texts with whatever characters, lists, absent directories, and environments under
any names.
-/

namespace Foundry

variable {env : List (String × String)} {s : ServerSettings} {l : Limits}

open List

variable {members : List (String × Value)}

open Toml Value Record

/-! ## Tables read back -/

/-- A table as it is read back. -/
def readBack (members : List (String × Value)) : Value :=
  .table (closeMembers (plainNodes members ++ tableNodes members))

theorem close_node_table (members : List (String × Value)) :
    (table members).node.close = readBack members := rfl

theorem close_node_of_plain {v : Value} (h : v.isTable = false) : v.node.close = v := by
  cases v with
  | table members => cases h
  | _ => rfl

theorem closeMembers_eq_map (ms : Members) :
    closeMembers ms = ms.map fun m => (m.1, m.2.close) := by
  induction ms with
  | nil => rfl
  | cons m ms ih => simp [closeMembers, ih]

/-- A table of settings is read back as it is. -/
theorem readBack_of_settings (h : ∀ m ∈ members, m.2.IsSetting) :
    readBack members = .table members := by
  induction members with
  | nil => rfl
  | cons m members ih =>
    obtain ⟨hm, hrest⟩ := forall_mem_cons.mp h
    have hmembers := ih hrest
    simp only [readBack, table.injEq] at hmembers ⊢
    simpa [plainNodes, tableNodes, hm.isTable, closeMembers, Node.close] using hmembers

/-- Putting the plain values in front changes nothing for a reader by name. -/
theorem find?_readBack (h : (members.map (·.1)).Nodup) (name : String) :
    ((closeMembers (plainNodes members ++ tableNodes members)).find? fun m => m.1 == name).map
    (·.2) = ((members.find? fun m => m.1 == name).map (·.2)).map fun v => v.node.close := by
  induction members with
  | nil => rfl
  | cons m members ih =>
    obtain ⟨other, v⟩ := m
    obtain ⟨hother, hrest⟩ := nodup_cons.mp h
    have hfind := ih hrest
    simp only [closeMembers_eq_map, map_append, List.find?_append] at hfind ⊢
    by_cases hname : other = name
    · subst hname
      cases hv : v.isTable with
      | false => simp [plainNodes, hv, Node.close, close_node_of_plain hv]
      | true =>
        have hplain : plainNodes ((other, v) :: members) =
            plainNodes members := by simp [plainNodes, hv]
        have hnone : ((plainNodes members).map fun m => (m.1, m.2.close)).find?
            (fun m => m.1 == other) = none := by
          rw [List.find?_eq_none]
          intro m hm heq
          simp only [plainNodes, map_map, mem_map, mem_filter] at hm
          obtain ⟨x, ⟨hx, -⟩, rfl⟩ := hm
          exact hother (mem_map.mpr ⟨x, hx, beq_iff_eq.mp heq⟩)
        rw [hplain, hnone]
        simp [tableNodes, hv]
    · cases hv : v.isTable with
      | false => simpa [plainNodes, tableNodes, hv, hname] using hfind
      | true => simpa [plainNodes, tableNodes, hv, hname] using hfind

/-- A table that was read back gives the fields of a record as the table itself does. -/
theorem exists_record_readBack (h : (members.map (·.1)).Nodup) :
    ∃ r, (readBack members).record? = some r ∧
    ∀ {α : Type} (position : Nat) (name : String) (decode : Value → Option α) (default : α),
    r.read position name decode default =
    (named members).read position name (fun v => decode v.node.close) default := by
  refine ⟨.named (closeMembers (plainNodes members ++ tableNodes members)), rfl, ?_⟩
  intro α position name decode default
  simp only [Record.read, get?, find?_readBack h]
  cases (members.find? fun m => m.1 == name).map (·.2) <;> rfl

theorem insertSorted_append {name value : String}
    (h : ∀ p ∈ env, p.1 < name) : insertSorted name value env = env ++ [(name, value)] := by
  induction env with
  | nil => rfl
  | cons p env ih =>
    obtain ⟨hp, hrest⟩ := forall_mem_cons.mp h
    have hne : name ≠ p.1 := fun heq => String.lt_irrefl name (heq ▸ hp)
    have hnot : ¬ name < p.1 := fun hlt => String.lt_irrefl name (String.lt_trans hlt hp)
    simp [insertSorted, hne, hnot, ih hrest]

/-- A sorted environment is built up again as it was. -/
theorem foldl_insertSorted (env front : List (String × String))
    (h : (front ++ env).Pairwise fun a b => a.1 < b.1) :
    env.foldl (fun env p => insertSorted p.1 p.2 env) front = front ++ env := by
  induction env generalizing front with
  | nil => simp
  | cons p env ih =>
    have hfront : ∀ q ∈ front, q.1 < p.1 := fun q hq =>
      (pairwise_append.mp h).2.2 q hq p mem_cons_self
    rw [foldl_cons, insertSorted_append hfront, ih _ (by simpa using h), append_assoc]
    rfl

/-! ## Settings of a section -/

section Fields

variable (name : String)

theorem isSetting_textField (text : String) : ∀ m ∈ textField name text, m.2.IsSetting := by
  simp [textField, Value.IsSetting.string]

theorem isSetting_flagField (flag : Bool) : ∀ m ∈ flagField name flag, m.2.IsSetting := by
  simp [flagField, Value.IsSetting.boolean]

theorem isSetting_textsField (texts : List String) :
    ∀ m ∈ textsField name texts, m.2.IsSetting := by
  simp [textsField, Value.IsSetting.texts]

theorem isSetting_optionalField (text : Option String) :
    ∀ m ∈ optionalField name text, m.2.IsSetting := by
  cases text with
  | none => simp [optionalField]
  | some text => exact isSetting_textField name text

theorem isSetting_countField {n : Nat} (h : n < 0x8000000000000000) :
    ∀ m ∈ countField name n, m.2.IsSetting := by
  simp [countField, Value.IsSetting.integer h]

end Fields

theorem count?_natCast {n : Nat} (h : n < 0x8000000000000000) : count? (.integer n) = some n :=
  if_pos (by omega)

theorem texts?_map (texts : List String) : texts? (.array (texts.map .string)) = some texts := by
  induction texts with
  | nil => rfl
  | cons text texts ih =>
    simp only [texts?] at ih ⊢
    simp [text?, ih]

/-! ## Sections -/

theorem GeneralSettings.isSetting_members (s : GeneralSettings) :
    ∀ m ∈ s.members, m.2.IsSetting := by
  simp only [members, forall_mem_append]
  exact ⟨isSetting_textField _ _, isSetting_flagField _ _⟩

theorem GeneralSettings.ofValue?_readBack (s : GeneralSettings) :
    ofValue? (readBack s.members) = some s := by
  rw [readBack_of_settings s.isSetting_members]
  simp [ofValue?, record?, members?, members, textField, flagField, Record.read, get?,
    text?, flag?]

theorem ServerSettings.isSetting_members (h : s.maxBodyBytes < 0x8000000000000000) :
    ∀ m ∈ s.members, m.2.IsSetting := by
  simp only [members, forall_mem_append]
  exact ⟨isSetting_textField _ _, isSetting_countField _ h⟩

theorem ServerSettings.ofValue?_readBack (h : s.maxBodyBytes < 0x8000000000000000) :
    ofValue? (readBack s.members) = some s := by
  rw [readBack_of_settings (isSetting_members h)]
  simp [ofValue?, record?, members?, members, textField, countField, Record.read, get?,
    text?, count?_natCast h]

theorem Limits.isSetting_members (h : l.maxSourceBytes < 0x8000000000000000)
    (hmax : (float l.maxTimeout).IsSetting) (hdefault : (float l.defaultTimeout).IsSetting) :
    ∀ m ∈ l.members, m.2.IsSetting := by
  simp only [members, forall_mem_append]
  exact ⟨⟨isSetting_countField _ h, by simp [hmax, hdefault]⟩, isSetting_textsField _ _⟩

theorem Limits.ofValue?_readBack (h : l.maxSourceBytes < 0x8000000000000000)
    (hmembers : ∀ m ∈ l.members, m.2.IsSetting) : ofValue? (readBack l.members) = some l := by
  rw [readBack_of_settings hmembers]
  simp [ofValue?, record?, members?, members, countField, textsField, Record.read, get?,
    measure?, count?_natCast h, texts?_map]

theorem CacheSettings.isSetting_members {s : CacheSettings} (h : s.maxEntries < 0x8000000000000000)
    (h' : s.maxAgeSecs < 0x8000000000000000) : ∀ m ∈ s.members, m.2.IsSetting := by
  simp only [members, forall_mem_append]
  exact ⟨⟨⟨isSetting_flagField _ _, isSetting_optionalField _ _⟩, isSetting_countField _ h⟩,
    isSetting_countField _ h'⟩

theorem CacheSettings.ofValue?_readBack {s : CacheSettings} (h : s.maxEntries < 0x8000000000000000)
    (h' : s.maxAgeSecs < 0x8000000000000000) : ofValue? (readBack s.members) = some s := by
  rw [readBack_of_settings (isSetting_members h h')]
  obtain ⟨enabled, dir, entries, age⟩ := s
  cases dir with
  | none =>
    simp [ofValue?, record?, members?, members, flagField, countField, optionalField, Record.read,
      get?, flag?, count?_natCast h, count?_natCast h']
  | some dir =>
    simp [ofValue?, record?, members?, members, textField, flagField, countField, optionalField,
      optional, Record.read, get?, text?, flag?, count?_natCast h, count?_natCast h']

theorem TemplateSettings.isSetting_members {s : TemplateSettings}
    (h : s.buildTimeoutSecs < 0x8000000000000000)
    (h' : s.lockWaitSecs < 0x8000000000000000) : ∀ m ∈ s.members, m.2.IsSetting := by
  simp only [members, forall_mem_append]
  exact ⟨⟨⟨⟨⟨⟨⟨⟨isSetting_flagField _ _, isSetting_optionalField _ _⟩, isSetting_textsField _ _⟩,
    isSetting_textField _ _⟩, isSetting_textField _ _⟩, isSetting_textField _ _⟩,
    isSetting_countField _ h⟩,
    isSetting_countField _ h'⟩, isSetting_flagField _ _⟩

theorem TemplateSettings.ofValue?_readBack {s : TemplateSettings}
    (h : s.buildTimeoutSecs < 0x8000000000000000)
    (h' : s.lockWaitSecs < 0x8000000000000000) : ofValue? (readBack s.members) = some s := by
  rw [readBack_of_settings (isSetting_members h h')]
  obtain ⟨enabled, dir, buildArgs, manifest, sourceFile, source, buildTimeout, lockWait, warm⟩ := s
  cases dir with
  | none =>
    simp [ofValue?, record?, members?, members, textField, flagField, countField, textsField,
      optionalField, Record.read, get?, text?, flag?, texts?_map, count?_natCast h,
      count?_natCast h']
  | some dir =>
    simp [ofValue?, record?, members?, members, textField, flagField, countField, textsField,
      optionalField, optional, Record.read, get?, text?, flag?, texts?_map,
      count?_natCast h, count?_natCast h']

theorem WorkspaceSettings.ofValue?_readBack (s : WorkspaceSettings) :
    ofValue? (readBack s.members) = some s := by
  obtain ⟨root⟩ := s
  cases root with
  | none => rfl
  | some root => rfl

theorem Dependency.isSetting_members (d : Dependency) : ∀ m ∈ d.members, m.2.IsSetting := by
  simp only [members, forall_mem_append]
  exact ⟨⟨isSetting_textField _ _, isSetting_textField _ _⟩, isSetting_textField _ _⟩

theorem Dependency.ofValue?_readBack (d : Dependency) : ofValue? (readBack d.members) = some d := by
  rw [readBack_of_settings d.isSetting_members]
  simp [ofValue?, record?, members?, members, textField, Record.read, get?, text?]

theorem isSetting_env (env : List (String × String)) :
    ∀ m ∈ env.map fun p => (p.1, string p.2), m.2.IsSetting := by
  simp only [forall_mem_map]
  exact fun p _ => .string p.2

theorem env?_readBack (h : env.Pairwise fun a b => a.1 < b.1) :
    env? (readBack (env.map fun p => (p.1, .string p.2))) = some env := by
  have hpairs : (env.map fun p => (p.1, string p.2)).mapM
      (fun m => m.2.text?.map fun text => (m.1, text)) = some env := by
    clear h
    induction env with
    | nil => rfl
    | cons p env ih =>
      simp only [map_cons, mapM_cons, ih]
      rfl
  rw [readBack_of_settings (isSetting_env env)]
  simp only [env?, members?, Option.bind_eq_bind, Option.bind_some, hpairs,
    foldl_insertSorted env [] (by simpa using h), nil_append]
  rfl

theorem Toolchain.distinct_members (t : Toolchain) : (t.members.map (·.1)).Nodup := by
  simp [members, textField, textsField]

theorem Toolchain.ofValue?_readBack {t : Toolchain} (h : t.env.Pairwise fun a b => a.1 < b.1) :
    ofValue? (readBack t.members) = some t := by
  obtain ⟨r, hrecord, hread⟩ := exists_record_readBack t.distinct_members
  have hstring : ∀ text, (string text).node.close = .string text := fun _ => rfl
  have harray : ∀ items, (array items).node.close = .array items := fun _ => rfl
  unfold ofValue?
  rw [hrecord, Option.bind_eq_bind, Option.bind_some]
  simp only [hread]
  simp [members, textField, textsField, Record.read, get?, hstring, harray, close_node_table,
    env?_readBack h, Dependency.ofValue?_readBack, text?, texts?_map]

end Foundry
