import Foundry.Proofs.Toml.Words
import Foundry.Toml.Reader

/-!
# Written statements are read back

Settings are written as assignments, and their tables under headers. A text holds the
statements that are read from it, and texts one after another hold theirs one after another.
-/

namespace Foundry

open List

namespace Toml

variable {c : Char} {after : List Char} {vs : List Value} {fuel depth : Nat} {name : String}
  {ss : List Statement}
variable {cs rest : List Char} {v : Value}

/-! ## Values -/

/-- The values that settings have: texts, counts, whole measures, flags and lists of texts. -/
inductive Value.IsSetting : Value → Prop
  | string (text : String) : IsSetting (.string text)
  | integer {n : Nat} (h : n < 0x8000000000000000) : IsSetting (.integer n)
  | float {x : Binary64} {n : Nat} (hx : x.IsWhole n) (hpos : 0 < n) (hlt : n < 0x20000000000000) :
      IsSetting (.float x)
  | boolean (flag : Bool) : IsSetting (.boolean flag)
  | texts (texts : List String) : IsSetting (.array (texts.map .string))

/-- What may follow a written value: the end of its line, or what follows an item of a list. -/
def Stops (rest : List Char) : Prop := ∃ c ∈ ['\n', ',', ']'], rest.head? = some c

theorem Stops.cons (hc : c ∈ ['\n', ',', ']']) (cs : List Char) : Stops (c :: cs) := ⟨c, hc, rfl⟩

theorem Stops.ne (h : Stops rest) {d : Char} (hd : d ∉ ['\n', ',', ']']) : rest.head? ≠ some d := by
  obtain ⟨c, hc, hhead⟩ := h
  rw [hhead]
  rintro ⟨⟩
  exact hd hc

theorem Stops.not_isWord (h : Stops rest) : ∀ d ∈ rest.head?, isWord d = false ∧ d ≠ ' ' := by
  obtain ⟨c, hc, hhead⟩ := h
  have hstops : ∀ c ∈ ['\n', ',', ']'], isWord c = false ∧ c ≠ ' ' := by simp [isWord]
  intro d hd
  rw [hhead, Option.mem_some_iff] at hd
  exact hd ▸ hstops c hc

/-- A value that starts like none of the nested ones is a word. -/
theorem readValue_word (word : List Char) (hne : word ≠ []) (hword : ∀ c ∈ word, isWord c = true)
    (hrest : Stops rest) (hv : word? word = some v) (depth : Nat) :
    readValue depth (word ++ rest) = some (v, rest) := by
  obtain ⟨c, body, rfl⟩ := exists_cons_of_ne_nil hne
  have hc := hword c mem_cons_self
  have hread := readWord_append hword hrest.not_isWord hv
  rw [cons_append] at hread ⊢
  have hopens : c ≠ '"' ∧ c ≠ '\x27' ∧ c ≠ '[' ∧ c ≠ '{' := by
    refine ⟨?_, ?_, ?_, ?_⟩
    all_goals
      rintro rfl
      cases hc
  simp [readValue, hopens, hread]

theorem readValue_string (hrest : Stops rest) (text : String) (depth : Nat) :
    readValue depth ((Value.string text).render.toList ++ rest) = some (.string text, rest) := by
  have hread := readText_quoteChars (hrest.ne (by decide)) (hrest.ne (by decide)) text.toList
  rw [Value.render, String.toList_ofList]
  obtain ⟨c, body, hcons, hc⟩ := quoteChars_cons text.toList
  rw [hcons, cons_append] at hread ⊢
  rcases hc with rfl | rfl
  · simp [readValue, hread]
  unfold apostrophe at hread ⊢
  simp [readValue, hread]

/-- A character that no reader of blanks, comments and line ends passes over. -/
def IsSolid (c : Char) : Prop := c ∉ [' ', '\t', '#', '\n', '\r']

instance (c : Char) : Decidable (IsSolid c) := inferInstanceAs (Decidable (c ∉ _))

theorem skipSpace_cons (h : IsSolid c) (cs : List Char) : skipSpace (c :: cs) = c :: cs := by
  simp_all [IsSolid, skipSpace, isSpace]

theorem skipLines_cons (h : IsSolid c) (fuel : Nat) (cs : List Char) :
    skipLines fuel (c :: cs) = some (c :: cs) := by
  have hspace := skipSpace_cons h cs
  simp only [IsSolid, mem_cons, not_mem_nil, or_false, not_or] at h
  cases fuel with
  | zero => rfl
  | succ fuel => simp [skipLines, hspace, h, newline?_cons_of_ne h.2.2.2.1 h.2.2.2.2]

/-- An item of a list stands on a line of its own, four blanks in. -/
theorem skipLines_indent (h : IsSolid c) (fuel : Nat) (cs : List Char) :
    skipLines (fuel + 2) ('\n' :: ("    ".toList ++ c :: cs)) = some (c :: cs) := by
  have hspace : skipSpace ("    ".toList ++ c :: cs) = c :: cs := skipSpace_cons h cs
  have hline : skipLines (fuel + 2) ('\n' :: ("    ".toList ++ c :: cs)) =
      skipLines (fuel + 1) ("    ".toList ++ c :: cs) := rfl
  simp only [IsSolid, mem_cons, not_mem_nil, or_false, not_or] at h
  rw [hline, skipLines, hspace]
  simp [h, newline?_cons_of_ne h.2.2.2.1 h.2.2.2.2]

theorem isSolid_quote (h : c = '"' ∨ c = apostrophe) : IsSolid c ∧ c ≠ ']' := by
  rcases h with rfl | rfl
  · decide
  · decide

theorem readItems_cons {item : List Char → Option (Value × List Char)} (hsolid : IsSolid c)
    (hclose : c ≠ ']')
    (hitem : item (c :: cs) = some (v, ',' :: after))
    (hlast : readItems item fuel after = some (vs, rest)) :
    readItems item (fuel + 1) ('\n' :: ("    ".toList ++ c :: cs)) = some (v :: vs, rest) := by
  have hlength : ('\n' :: ("    ".toList ++ c :: cs)).length = cs.length + 4 + 2 := by
    simp
  rw [readItems, hlength, skipLines_indent hsolid]
  simp [hclose, hitem, skipLines_cons (c := ',') (by decide), hlast]

theorem length_le_renderItems (texts : List String) :
    texts.length ≤ (renderItems (texts.map .string)).toList.length := by
  induction texts with
  | nil => exact Nat.zero_le _
  | cons text texts ih =>
    simp only [map_cons, renderItems, String.toList_append, length_append, length_cons]
    have : 0 < "    ".toList.length := by decide
    omega

/-- The items of a list, each on a line of its own. -/
theorem readItems_renderItems (texts : List String) (rest : List Char) (depth fuel : Nat)
    (hfuel : texts.length < fuel) : readItems (readValue depth) fuel
    ('\n' :: ((renderItems (texts.map .string)).toList ++ ']' :: rest)) =
    some (texts.map .string, rest) := by
  induction texts generalizing fuel with
  | nil =>
    obtain ⟨fuel, rfl⟩ := Nat.exists_eq_succ_of_ne_zero (Nat.ne_zero_of_lt hfuel)
    simp [readItems, renderItems, skipLines, skipSpace, isSpace, newline?]
  | cons text texts ih =>
    obtain ⟨fuel, rfl⟩ := Nat.exists_eq_succ_of_ne_zero (Nat.ne_zero_of_lt hfuel)
    obtain ⟨c, body, hcons, hc⟩ := quoteChars_cons text.toList
    obtain ⟨hsolid, hclose⟩ := isSolid_quote hc
    have hrender : (Value.string text).render.toList = c :: body := by
      rw [Value.render, String.toList_ofList, hcons]
    have hlast := ih fuel (Nat.lt_of_succ_lt_succ hfuel)
    have hread := fun after => readValue_string (.cons (c := ',') (by simp) after) text depth
    simp only [map_cons, renderItems, String.toList_append, hrender, append_assoc,
      cons_append] at hread ⊢
    exact readItems_cons hsolid hclose (hread _) hlast

theorem readValue_list (h : readItems (readValue depth) (cs.length + 1) cs = some (vs, rest)) :
    readValue (depth + 1) ('[' :: cs) = some (.array vs, rest) := by
  simp [readValue, h]

/-- A list on one line, if it has at most one item, and on a line for each item otherwise. -/
theorem readValue_texts (texts : List String) (rest : List Char) (depth : Nat) :
    readValue (depth + 1) ((Value.array (texts.map .string)).render.toList ++ rest) =
    some (.array (texts.map .string), rest) := by
  rcases texts with _ | ⟨text, _ | ⟨next, texts⟩⟩
  · have hitems : ∀ fuel, readItems (readValue depth) (fuel + 1) (']' :: rest) =
        some ([], rest) := by
      intro fuel
      simp [readItems, skipLines_cons (c := ']') (by decide)]
    exact readValue_list (hitems _)
  · obtain ⟨c, body, hcons, hc⟩ := quoteChars_cons text.toList
    obtain ⟨hsolid, hclose⟩ := isSolid_quote hc
    have hread := readValue_string (.cons (c := ']') (by simp) rest) text depth
    simp only [map_cons, map_nil, Value.render, String.toList_append, String.toList_ofList, hcons,
      cons_append, append_assoc] at hread ⊢
    have hitems : ∀ fuel, readItems (readValue depth) (fuel + 1) (c :: (body ++ ']' :: rest)) =
        some ([.string text], rest) := by
      intro fuel
      rw [readItems, skipLines_cons hsolid]
      simp [hclose, hread, skipLines_cons (c := ']') (by decide)]
    exact readValue_list (hitems _)
  · have htext : (Value.array ((text :: next :: texts).map .string)).render.toList ++ rest =
        '[' :: '\n' :: ((renderItems ((text :: next :: texts).map .string)).toList ++
          ']' :: rest) := by
      simp [Value.render]
    have hlength := length_le_renderItems (text :: next :: texts)
    rw [htext]
    refine readValue_list (readItems_renderItems _ rest depth _ ?_)
    simp only [length_cons, length_append] at hlength ⊢
    omega

theorem readValue_render (hv : v.IsSetting) (hrest : Stops rest) (depth : Nat) :
    readValue (depth + 1) (v.render.toList ++ rest) = some (v, rest) := by
  cases hv with
  | string text => exact readValue_string hrest text (depth + 1)
  | @integer n h =>
    have hrender : (Value.integer n).render.toList = Nat.toDigits 10 n := by
      have hstring : (Value.integer n).render = toString n := rfl
      rw [hstring, Nat.toString_eq_ofList_toDigits, String.toList_ofList]
    rw [hrender]
    exact readValue_word _ Nat.toDigits_ne_nil
      (fun c hc => isWord_of_isDigit_or (.inl (isDigit_of_mem_toDigits hc))) hrest
        (word?_toDigits h) _
  | @float x n hx hpos hlt =>
    rw [Value.render, Decimal.text_of_isWhole hx hpos hlt]
    exact readValue_word _ (by simp) (fun c hc => isWord_of_isDigit_or (isDigit_or_eq_point n c hc))
      hrest (word?_of_isWhole hx hpos hlt) _
  | boolean flag =>
    cases flag with
    | true => exact readValue_word "true".toList (by decide) (by simp [isWord]) hrest rfl _
    | false => exact readValue_word "false".toList (by decide) (by simp [isWord]) hrest rfl _
  | texts texts => exact readValue_texts texts rest depth

/-- A value that can be read starts right away. -/
theorem skipSpace_of_readValue (h : readValue depth cs = some (v, rest)) : skipSpace cs = cs := by
  cases cs with
  | nil => rfl
  | cons c cs =>
    by_cases hc : isSpace c = true
    · simp only [isSpace, Bool.or_eq_true, beq_iff_eq] at hc
      have hnone : word? [] = none := rfl
      rcases hc with rfl | rfl
      · simp [readValue, readWord, isWord, hnone] at h
      · simp [readValue, readWord, isWord, hnone] at h
    · exact dropWhile_cons_of_neg hc

/-! ## Statements -/

theorem lineEnd?_newline (cs : List Char) : lineEnd? ('\n' :: cs) = some cs := rfl

/-- Nothing that passes over blanks stops short of a name. -/
theorem skipSpace_nameText (name : String) (rest : List Char) :
    skipSpace ((nameText name).toList ++ rest) = (nameText name).toList ++ rest := by
  obtain ⟨c, body, hcons, hc⟩ := nameText_cons name
  rw [hcons]
  exact skipSpace_cons (fun h => hc (by simp_all)) _

theorem readParts_nameText (hbare : ∀ d ∈ rest.head?, isBare d = false)
    (hrest : ∀ d ∈ (skipSpace rest).head?, d ≠ '.') :
    readParts (fuel + 1) ((nameText name).toList ++ rest) = some ([name], skipSpace rest) := by
  rw [readParts, skipSpace_nameText, readName_nameText hbare]
  simp only [Option.bind_eq_bind, Option.bind_some]
  split
  · rename_i hpoint
    rw [hpoint] at hrest
    exact absurd rfl (hrest '.' rfl)
  · rfl

theorem readStatement_assign (hv : v.IsSetting) (name : String) (rest : List Char) :
    readStatement ((nameText name ++ " = " ++ v.render ++ "\n").toList ++ rest) =
    some (.assign ⟨[], name⟩ v, rest) := by
  have htext : (nameText name ++ " = " ++ v.render ++ "\n").toList ++ rest =
      (nameText name).toList ++ ' ' :: '=' :: ' ' :: (v.render.toList ++ '\n' :: rest) := by simp
  have hvalue : readValue (depthLimit - 1) (v.render.toList ++ '\n' :: rest) =
      some (v, '\n' :: rest) :=
    readValue_render hv (.cons (c := '\n') (by simp) rest) 78
  have hspace : skipSpace (' ' :: (v.render.toList ++ '\n' :: rest)) = v.render.toList ++
      '\n' :: rest :=
    skipSpace_of_readValue hvalue
  have hkey :
      readKey ((nameText name).toList ++ ' ' :: '=' :: ' ' :: (v.render.toList ++ '\n' :: rest)) =
      some (⟨[], name⟩, '=' :: ' ' :: (v.render.toList ++ '\n' :: rest)) := by
    rw [readKey, depthLimit, readParts_nameText (by simp [isBare]) (by simp [skipSpace, isSpace])]
    rfl
  obtain ⟨c, body, hcons, hc⟩ := nameText_cons name
  unfold readStatement
  split
  · simp_all
  · simp [readPair, hkey, expect?, hspace, hvalue, lineEnd?_newline]

theorem readParts_cons {names : List String} (h : readParts fuel after = some (names, rest)) :
    readParts (fuel + 1) ((nameText name).toList ++ '.' :: after) = some (name :: names, rest) := by
  have hpoint : skipSpace ('.' :: after) = '.' :: after := skipSpace_cons (by decide) after
  rw [readParts, skipSpace_nameText, readName_nameText (by simp [isBare])]
  simp [hpoint, h]

/-- The dotted name of a header. -/
theorem readParts_intercalate (name : String) (names : List String) (rest : List Char) (fuel : Nat)
    (hfuel : names.length < fuel) :
    readParts fuel ((String.intercalate "." ((name :: names).map nameText)).toList ++ ']' :: rest) =
    some (name :: names, ']' :: rest) := by
  induction names generalizing name fuel with
  | nil =>
    obtain ⟨fuel, rfl⟩ := Nat.exists_eq_succ_of_ne_zero (Nat.ne_zero_of_lt hfuel)
    exact readParts_nameText (by simp [isBare]) (by simp [skipSpace, isSpace])
  | cons next names ih =>
    obtain ⟨fuel, rfl⟩ := Nat.exists_eq_succ_of_ne_zero (Nat.ne_zero_of_lt hfuel)
    have hnext := ih next fuel (Nat.lt_of_succ_lt_succ hfuel)
    have htext : (String.intercalate "." ((name :: next :: names).map nameText)).toList ++
        ']' :: rest = (nameText name).toList ++ '.' ::
          ((String.intercalate "." ((next :: names).map nameText)).toList ++ ']' :: rest) := by
      simp [String.intercalate_cons_cons]
    rw [htext, readParts_cons hnext]

theorem ofParts?_append (parents : List String) (name : String) :
    Key.ofParts? (parents ++ [name]) = some ⟨parents, name⟩ := by
  induction parents with
  | nil => rfl
  | cons p parents ih =>
    cases parents with
    | nil => rfl
    | cons q parents => simp_all [Key.ofParts?]

theorem readHeader_of_readKey {key : Key} (h : readKey cs = some (key, ']' :: '\n' :: rest)) :
    readHeader cs = some (.header key, rest) := by
  unfold readHeader
  split
  · -- No name starts with a bracket, so this is no element of a list of tables.
    rename_i after
    have hnone : readKey ('[' :: after) = none := rfl
    cases h
  · simp [h, expect?, lineEnd?_newline]

theorem readStatement_header {path : List String} (name : String)
    (hpath : path.length + 1 < depthLimit) (rest : List Char) :
    readStatement ((headerText (path ++ [name])).toList ++ rest) =
    some (.header ⟨path, name⟩, rest) := by
  obtain ⟨first, names, hnames⟩ := exists_cons_of_ne_nil (concat_ne_nil name path)
  have htext : (headerText (path ++ [name])).toList ++ rest =
      '[' :: ((String.intercalate "." ((path ++ [name]).map nameText)).toList ++ ']' :: '\n' ::
        rest) := by
    simp [headerText]
  have hlength : names.length < depthLimit - 1 := by
    have := congrArg List.length hnames
    simp only [length_append, length_cons, length_nil] at this
    omega
  have hkey : readKey ((String.intercalate "." ((path ++ [name]).map nameText)).toList ++
      ']' :: '\n' :: rest) = some (⟨path, name⟩, ']' :: '\n' :: rest) := by
    rw [readKey, hnames, readParts_intercalate first names _ _ hlength, ← hnames]
    simp [ofParts?_append]
  rw [htext]
  exact readHeader_of_readKey hkey

/-! ## Texts and the statements they hold -/

/-- A text holds statements when they are read from it, whatever statements come after. -/
def Holds (cs : List Char) (statements : List Statement) : Prop :=
  ∀ rest more, (∀ fuel, rest.length < fuel → readStatements fuel rest = some more) →
    ∀ fuel, (cs ++ rest).length < fuel → readStatements fuel (cs ++ rest) =
      some (statements ++ more)

theorem holds_nil : Holds [] [] := fun _ _ h => h

theorem Holds.append {left right : List Char} {ts : List Statement} (hleft : Holds left ss)
    (hright : Holds right ts) : Holds (left ++ right) (ss ++ ts) := by
  intro rest more hrest
  rw [append_assoc, append_assoc]
  exact hleft _ _ (hright _ _ hrest)

theorem Holds.newline : Holds ('\n' :: cs) ss ↔ Holds cs ss := by
  constructor
  · intro h rest more hrest fuel hfuel
    exact h rest more hrest (fuel + 1) (Nat.succ_lt_succ hfuel)
  intro h rest more hrest fuel hfuel
  obtain ⟨fuel, rfl⟩ := Nat.exists_eq_succ_of_ne_zero (Nat.ne_zero_of_lt hfuel)
  exact h rest more hrest fuel (Nat.lt_of_succ_lt_succ hfuel)

/-- One statement. -/
theorem holds_of_readStatement {s : Statement} (hcs : ∃ c body, cs = c :: body ∧ IsSolid c)
    (h : ∀ rest, readStatement (cs ++ rest) = some (s, rest)) : Holds cs [s] := by
  intro rest more hrest fuel hfuel
  obtain ⟨c, body, rfl, hc⟩ := hcs
  obtain ⟨fuel, rfl⟩ := Nat.exists_eq_succ_of_ne_zero (Nat.ne_zero_of_lt hfuel)
  have hlength : rest.length < fuel := by
    simp only [length_append, length_cons] at hfuel
    omega
  have hsolid := skipSpace_cons hc (body ++ rest)
  have hread := h rest
  rw [cons_append] at hread ⊢
  simp only [IsSolid, mem_cons, not_mem_nil, or_false, not_or] at hc
  simp [readStatements, hsolid, hc, hread, hrest fuel hlength]

end Toml

end Foundry
