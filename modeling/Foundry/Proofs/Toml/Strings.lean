import Foundry.Toml.Writer
import Mathlib.Data.List.Basic

/-!
# Quoted texts are read back

Of the six ways to quote a text, the ones without escapes are those with escapes of a text
that needs none. So there are four cases, one for each kind of quotes that the reader knows.
In long texts the quotes of the text and those that close it can stand side by side: the
induction is then over a text after a run of at most two quotes.
-/

namespace Foundry

open List Text

namespace Toml

/-- What follows is not taken for a further quote. -/
def Opens (quote : Char) (rest : List Char) : Prop := rest.head? ≠ some quote

variable {c : Char} {cs rest : List Char} {k : Nat} {quote : Char}

/-! ## Characters -/

theorem isPlain_of_not_isControl (hc : isControl c = false) (hn : c ≠ '\n') : isPlain c = true := by
  simp only [isControl, Bool.or_eq_false_iff, Bool.and_eq_false_iff, decide_eq_false_iff_not,
    beq_eq_false_iff_ne] at hc
  obtain ⟨hlow, hdel⟩ := hc
  rcases hlow with hlow | hlow
  · simp [isPlain, Nat.not_lt.mp hlow, hdel]
  · simp [hn] at hlow

theorem scalar?_upperHex :
    ∀ n < 128, (upperHex n).length = 4 ∧ scalar? (upperHex n) = some (Char.ofNat n) := by
  decide +kernel

/-- An escape of four digits is read as its character. -/
theorem exists_upperHex (hc : isControl c = true) :
    ∃ p q r s, upperHex c.toNat = [p, q, r, s] ∧ scalar? [p, q, r, s] = some c := by
  have hsmall : c.toNat < 128 := by
    simp only [isControl, Bool.or_eq_true, Bool.and_eq_true, decide_eq_true_eq, beq_iff_eq] at hc
    omega
  obtain ⟨hlength, hscalar⟩ := scalar?_upperHex c.toNat hsmall
  obtain ⟨p, q, r, s, hdigits⟩ := length_eq_four.mp hlength
  rw [hdigits, Char.ofNat_toNat] at hscalar
  exact ⟨p, q, r, s, hdigits, hscalar⟩

theorem escape_of_plain (hc : isControl c = false) (hn : c ≠ '\n') (hq : c ≠ '"') (hs : c ≠ '\\') :
    escape c = [c] := by
  have hcontrol : ∀ d, isControl d = true → c ≠ d := by
    rintro d hd rfl
    rw [hc] at hd
    cases hd
  simp [escape, hcontrol '\x08' rfl, hcontrol '\t' rfl, hn, hcontrol '\x0c' rfl, hcontrol '\r' rfl,
    hq, hs, hc]

/-- A character is escaped by a backslash and something, or stands as it is. -/
theorem escape_cases (c : Char) :
    (∃ d, escape c = ['\\', d] ∧ escaped? d = some c ∧ d ≠ 'u' ∧ d ≠ 'U' ∧ isSpace d = false ∧
    d ≠ '\n' ∧ d ≠ '\r') ∨
    (∃ p q r s, escape c = ['\\', 'u', p, q, r, s] ∧ scalar? [p, q, r, s] = some c) ∨
    (escape c = [c] ∧ isPlain c = true ∧ c ≠ '"' ∧ c ≠ '\\') := by
  by_cases hsimple : c ∈ ['\x08', '\t', '\n', '\x0c', '\r', '"', '\\']
  · left
    simp only [mem_cons, not_mem_nil, or_false] at hsimple
    rcases hsimple with rfl | rfl | rfl | rfl | rfl | rfl | rfl
    · exact ⟨'b', by decide⟩
    · exact ⟨'t', by decide⟩
    · exact ⟨'n', by decide⟩
    · exact ⟨'f', by decide⟩
    · exact ⟨'r', by decide⟩
    · exact ⟨'"', by decide⟩
    · exact ⟨'\\', by decide⟩
  · right
    simp only [mem_cons, not_mem_nil, or_false, not_or] at hsimple
    obtain ⟨hb, ht, hn, hf, hr, hq, hs⟩ := hsimple
    by_cases hc : isControl c = true
    · left
      obtain ⟨p, q, r, s, hdigits, hscalar⟩ := exists_upperHex hc
      exact ⟨p, q, r, s, by simp [escape, hb, ht, hn, hf, hr, hq, hs, hc, hdigits], hscalar⟩
    · rw [Bool.not_eq_true] at hc
      exact .inr ⟨escape_of_plain hc hn hq hs, isPlain_of_not_isControl hc hn, hq, hs⟩

theorem exists_escape_cons (c : Char) :
    ∃ d ds, escape c = d :: ds ∧ d ≠ '"' ∧ d ≠ '\n' ∧ d ≠ '\r' := by
  obtain ⟨d, he, -⟩ | ⟨p, q, r, s, he, -⟩ | ⟨he, hplain, hq, -⟩ := escape_cases c
  · exact ⟨_, _, he, by decide⟩
  · exact ⟨_, _, he, by decide⟩
  refine ⟨_, _, he, hq, ?_, ?_⟩
  all_goals
    rintro rfl
    cases hplain

/-! ## One line -/

theorem readBasic_escape (c : Char) (rest : List Char) :
    readBasic (escape c ++ rest) = push (some c) (readBasic rest) := by
  obtain ⟨d, he, hd, hu, hU, -⟩ | ⟨p, q, r, s, he, hscalar⟩ | ⟨he, hplain, hq, hs⟩ := escape_cases c
  · simp [he, readBasic, hd, hu, hU]
  · simp [he, readBasic, hscalar]
  rw [he, singleton_append, readBasic.eq_def]
  split <;> simp_all

theorem readBasic_escapeShort (cs rest : List Char) :
    readBasic (escapeShort cs ++ '"' :: rest) = some (cs, rest) := by
  induction cs with
  | nil => rfl
  | cons c cs ih =>
    rw [escapeShort, flatMap_cons, append_assoc, readBasic_escape]
    rw [escapeShort] at ih
    rw [ih]
    rfl

theorem readLiteral_append (h : ∀ c ∈ cs, isPlain c = true ∧ c ≠ apostrophe) (rest : List Char) :
    readLiteral (cs ++ apostrophe :: rest) = some (cs, rest) := by
  induction cs with
  | nil => rfl
  | cons c cs ih =>
    rw [cons_append, readLiteral.eq_def]
    split
    · simp_all
    · simp_all [apostrophe]
    · simp_all [push]

/-! ## Long texts -/

/-- Quotes in front of those that close a long text belong to it. -/
theorem closeLong_replicate (hk : k ≤ 2) (hrest : Opens quote rest) :
    closeLong quote (replicate k quote ++ rest) = (replicate k quote, rest) := by
  have hhead : ∀ d ds, rest = d :: ds → d ≠ quote := by
    rintro d ds rfl
    simpa [Opens] using hrest
  obtain rfl | rfl | rfl : k = 0 ∨ k = 1 ∨ k = 2 := by omega
  · cases rest with
    | nil => rfl
    | cons d ds =>
      cases ds <;> simp [closeLong, hhead d _ rfl]
  · cases rest with
    | nil => simp [closeLong]
    | cons d ds => simp [closeLong, hhead d ds rfl]
  · simp [closeLong]

theorem push_some (c : Char) (read : Option (List Char × List Char)) :
    push (some c) read = read.map fun r => (c :: r.1, r.2) := by
  cases read <;> rfl

/-- Up to two quotes before another character stand for themselves. -/
theorem readLongBasic_quotes (hk : k ≤ 2) (hc : c ≠ '"') (rest : List Char) :
    readLongBasic false (replicate k '"' ++ c :: rest) =
    (readLongBasic false (c :: rest)).map fun r => (replicate k '"' ++ r.1, r.2) := by
  have hplain : isPlain '"' = true := by decide
  obtain rfl | rfl | rfl : k = 0 ∨ k = 1 ∨ k = 2 := by omega
  · simp
  · simp [readLongBasic, hc, hplain, push_some]
  · simp [readLongBasic, hc, hplain, push_some, replicate_succ, Function.comp_def]

/-- A character of a long text that is no quote. -/
theorem readLongBasic_escape (hq : c ≠ '"') (rest : List Char) :
    readLongBasic false ((if c = '\n' then [c] else escape c) ++ rest) =
    push (some c) (readLongBasic false rest) := by
  split
  · subst c
    simp [readLongBasic]
  obtain ⟨d, he, hd, hu, hU, hspace, hn, hr⟩ | ⟨p, q, r, s, he, hscalar⟩ | ⟨he, hplain, hq, hs⟩ :=
    escape_cases c
  · have hblank : restIsBlank (d :: rest) = false := by
      simp [restIsBlank, skipSpace, hspace, newline?, hn, hr]
    simp [he, readLongBasic, hd, hu, hU, hblank]
  · simp [he, readLongBasic, hscalar]
  have hr : c ≠ '\r' := by
    rintro rfl
    cases hplain
  rw [he, singleton_append, readLongBasic.eq_def]
  split <;> simp_all

/-- What stands for a character that is no quote does not start with one. -/
theorem exists_escapeLong_cons (hq : c ≠ '"') :
    ∃ d ds, (if c = '\n' then [c] else escape c) = d :: ds ∧ d ≠ '"' := by
  split
  · exact ⟨c, [], rfl, hq⟩
  obtain ⟨d, ds, hd, hquote, -⟩ := exists_escape_cons c
  exact ⟨d, ds, hd, hquote⟩

theorem escapeLong_cons_of_ne (hq : c ≠ '"') (k : Nat) (cs : List Char) :
    escapeLong k (c :: cs) = (if c = '\n' then [c] else escape c) ++ escapeLong 0 cs := by
  rw [escapeLong, if_neg hq]
  split <;> rfl

/-- The run of quotes that was written last has to be read together with what follows. -/
theorem readLongBasic_escapeLong (hk : k ≤ 2) (hrest : Opens '"' rest) (cs : List Char) :
    readLongBasic false (replicate k '"' ++ (escapeLong k cs ++ '"' :: '"' :: '"' :: rest)) =
    some (replicate k '"' ++ cs, rest) := by
  induction cs generalizing k with
  | nil =>
    have hclose := closeLong_replicate hk hrest
    have hquotes : replicate k '"' ++ '"' :: '"' :: '"' :: rest =
        '"' :: '"' :: '"' :: (replicate k '"' ++ rest) := by
      obtain rfl | rfl | rfl : k = 0 ∨ k = 1 ∨ k = 2 := by omega
      all_goals rfl
    rw [escapeLong, nil_append, hquotes, readLongBasic, hclose, append_nil]
  | cons c cs ih =>
    by_cases hc : c = '"'
    · subst c
      by_cases htwo : k = 2
      · -- the third quote in a row is escaped
        subst k
        have hnext := ih (k := 0) (by decide)
        simp only [replicate_zero, nil_append] at hnext
        rw [escapeLong, if_pos rfl, if_pos rfl, cons_append, cons_append,
          readLongBasic_quotes (by decide) (by decide)]
        simp [readLongBasic, restIsBlank, skipSpace, isSpace, newline?, escaped?, hnext, push_some]
      · have hnext := ih (k := k + 1) (by omega)
        rw [escapeLong, if_pos rfl, if_neg htwo]
        rw [replicate_succ', append_assoc, append_assoc] at hnext
        exact hnext
    · have hnext := ih (k := 0) (by decide)
      simp only [replicate_zero, nil_append] at hnext
      obtain ⟨d, ds, hd, hquote⟩ := exists_escapeLong_cons hc
      rw [escapeLong_cons_of_ne hc, append_assoc, hd, cons_append,
        readLongBasic_quotes hk hquote, ← cons_append, ← hd, readLongBasic_escape hc, hnext]
      rfl

theorem occursIn_of_append {needle xs ys : List Char} (h : occursIn needle (xs ++ ys) = false) :
    occursIn needle ys = false := by
  induction xs with
  | nil => exact h
  | cons x xs ih =>
    simp only [cons_append, occursIn, Bool.or_eq_false_iff] at h
    exact ih h.2

/-- One more quote makes the run longer; a third one is not there. -/
theorem occursIn_run
    (h : occursIn [quote, quote, quote] (replicate k quote ++ quote :: cs) = false) :
    k ≠ 2 ∧ occursIn [quote, quote, quote] (replicate (k + 1) quote ++ cs) = false := by
  constructor
  · rintro rfl
    simp [occursIn, replicate_succ] at h
  rw [replicate_succ', append_assoc]
  exact h

theorem occursIn_tail {needle : List Char}
    (h : occursIn needle (replicate k quote ++ c :: cs) = false) :
    occursIn needle cs = false := by
  rw [← singleton_append, ← append_assoc] at h
  exact occursIn_of_append h

/-- A text that needs no escapes is written as it is. -/
theorem escapeLong_eq_self (hk : k ≤ 2) (hcs : ∀ c ∈ cs, isControl c = false ∧ c ≠ '\\')
    (h : occursIn ['"', '"', '"'] (replicate k '"' ++ cs) = false) : escapeLong k cs = cs := by
  induction cs generalizing k with
  | nil => rfl
  | cons c cs ih =>
    obtain ⟨⟨hcontrol, hs⟩, hrest⟩ := forall_mem_cons.mp hcs
    by_cases hc : c = '"'
    · subst c
      obtain ⟨htwo, hnext⟩ := occursIn_run h
      rw [escapeLong, if_pos rfl, if_neg htwo, ih (by omega) hrest hnext]
    · rw [escapeLong_cons_of_ne hc, ih (k := 0) (by decide) hrest (occursIn_tail h)]
      split
      · rfl
      rename_i hn
      rw [escape_of_plain hcontrol hn hc hs]
      rfl

theorem readLongLiteral_quotes (hk : k ≤ 2) (hc : c ≠ apostrophe) (rest : List Char) :
    readLongLiteral (replicate k apostrophe ++ c :: rest) =
    (readLongLiteral (c :: rest)).map fun r => (replicate k apostrophe ++ r.1, r.2) := by
  have hplain : isPlain '\x27' = true := by decide
  obtain rfl | rfl | rfl : k = 0 ∨ k = 1 ∨ k = 2 := by omega
  · simp
  · simp_all [apostrophe, readLongLiteral, push_some]
  · simp_all [apostrophe, readLongLiteral, push_some, replicate_succ, Function.comp_def]

/-- As in a text with escapes, but three quotes in a row do not occur. -/
theorem readLongLiteral_append (hk : k ≤ 2) (hcs : ∀ c ∈ cs, isControl c = false)
    (h : occursIn [apostrophe, apostrophe, apostrophe] (replicate k apostrophe ++ cs) = false)
    (hrest : Opens apostrophe rest) : readLongLiteral (replicate k apostrophe ++
    (cs ++ apostrophe :: apostrophe :: apostrophe :: rest)) =
    some (replicate k apostrophe ++ cs, rest) := by
  induction cs generalizing k with
  | nil =>
    have hclose := closeLong_replicate hk hrest
    have hquotes : replicate k apostrophe ++ apostrophe :: apostrophe :: apostrophe :: rest =
        apostrophe :: apostrophe :: apostrophe :: (replicate k apostrophe ++ rest) := by
      obtain rfl | rfl | rfl : k = 0 ∨ k = 1 ∨ k = 2 := by omega
      all_goals rfl
    rw [nil_append, hquotes, append_nil]
    exact congrArg some hclose
  | cons c cs ih =>
    obtain ⟨hcontrol, hmore⟩ := forall_mem_cons.mp hcs
    by_cases hc : c = apostrophe
    · subst c
      obtain ⟨htwo, hnext⟩ := occursIn_run h
      have hread := ih (by omega) hmore hnext
      rw [replicate_succ', append_assoc, append_assoc] at hread
      exact hread
    · have hread := ih (k := 0) (by decide) hmore (occursIn_tail h)
      have htaken : isPlain c = true ∨ c = '\n' := by
        by_cases hn : c = '\n'
        · exact .inr hn
        · exact .inl (isPlain_of_not_isControl hcontrol hn)
      have hr : c ≠ '\r' := by
        rintro rfl
        cases hcontrol
      rw [cons_append, readLongLiteral_quotes hk hc]
      simp_all [apostrophe, readLongLiteral, push_some]

/-! ## Texts and names -/

theorem newline?_cons_of_ne (hn : c ≠ '\n') (hr : c ≠ '\r') (rest : List Char) :
    newline? (c :: rest) = none := by
  simp [newline?, hn, hr]

theorem readText_escapeShort (hrest : Opens '"' rest) (cs : List Char) :
    readText (shortQuotes '"' (escapeShort cs) ++ rest) = some (cs, rest) := by
  have hread := readBasic_escapeShort cs rest
  have hquotes : shortQuotes '"' (escapeShort cs) ++ rest =
      '"' :: (escapeShort cs ++ '"' :: rest) := by
    simp [shortQuotes]
  rw [hquotes, ← hread]
  cases cs with
  | nil =>
    -- two quotes are an empty text, unless a third one follows
    cases rest with
    | nil => rfl
    | cons d ds =>
      have hd : d ≠ '"' := by simpa [Opens] using hrest
      simp [escapeShort, readText, hd]
  | cons c cs =>
    obtain ⟨d, ds, he, hd, -⟩ := exists_escape_cons c
    simp [escapeShort, he, readText, hd]

theorem readText_literal (hcs : ∀ c ∈ cs, isPlain c = true ∧ c ≠ apostrophe)
    (hrest : Opens apostrophe rest) :
    readText (shortQuotes apostrophe cs ++ rest) = some (cs, rest) := by
  have hread := readLiteral_append hcs rest
  have hquotes : shortQuotes apostrophe cs ++ rest = apostrophe :: (cs ++ apostrophe :: rest) := by
    simp [shortQuotes]
  rw [hquotes, ← hread]
  cases cs with
  | nil =>
    cases rest with
    | nil => rfl
    | cons d ds =>
      have hd : d ≠ '\x27' := by simpa [Opens, apostrophe] using hrest
      simp [apostrophe, readText, hd]
  | cons c cs =>
    have hc : c ≠ '\x27' := (hcs c mem_cons_self).2
    simp [apostrophe, readText, hc]

/-- The line end that a long text with line ends starts with is dropped, and no other. -/
theorem dropFirstNewline_append {body : List Char} (h : '\n' ∉ cs → newline? body = none) :
    dropFirstNewline ((if cs.contains '\n' then ['\n'] else []) ++ body) = body := by
  by_cases hn : '\n' ∈ cs
  · simp [hn, dropFirstNewline, newline?]
  · simp [hn, dropFirstNewline, h hn]

theorem readText_escapeLong (hrest : Opens '"' rest) (cs : List Char) :
    readText (longQuotes '"' cs (escapeLong 0 cs) ++ rest) = some (cs, rest) := by
  have hfirst : '\n' ∉ cs → newline? (escapeLong 0 cs ++ '"' :: '"' :: '"' :: rest) = none := by
    intro hn
    cases cs with
    | nil => rfl
    | cons c cs =>
      by_cases hc : c = '"'
      · subst c
        rfl
      obtain ⟨d, ds, he, -, hdn, hdr⟩ := exists_escape_cons c
      have hcn : c ≠ '\n' := Ne.symm (ne_of_not_mem_cons hn)
      rw [escapeLong_cons_of_ne hc, if_neg hcn, he]
      exact newline?_cons_of_ne hdn hdr _
  have hquotes : longQuotes '"' cs (escapeLong 0 cs) ++ rest = '"' :: '"' :: '"' ::
      ((if cs.contains '\n' then ['\n'] else []) ++ (escapeLong 0 cs ++ '"' :: '"' :: '"' :: rest))
        := by
    simp [longQuotes]
  rw [hquotes, readText, dropFirstNewline_append hfirst]
  exact readLongBasic_escapeLong (k := 0) (by decide) hrest cs

theorem readText_longLiteral (hcs : ∀ c ∈ cs, isControl c = false)
    (h : occursIn [apostrophe, apostrophe, apostrophe] cs = false) (hrest : Opens apostrophe rest) :
    readText (longQuotes apostrophe cs cs ++ rest) = some (cs, rest) := by
  have hfirst : '\n' ∉ cs →
      newline? (cs ++ apostrophe :: apostrophe :: apostrophe :: rest) = none := by
    intro hn
    cases cs with
    | nil => rfl
    | cons c cs =>
      have hr : c ≠ '\r' := by
        rintro rfl
        cases hcs '\r' mem_cons_self
      exact newline?_cons_of_ne (Ne.symm (ne_of_not_mem_cons hn)) hr _
  have hquotes : longQuotes apostrophe cs cs ++ rest = '\x27' :: '\x27' :: '\x27' ::
      ((if cs.contains '\n' then ['\n'] else []) ++
        (cs ++ apostrophe :: apostrophe :: apostrophe :: rest)) := by
    simp [longQuotes, apostrophe]
  rw [hquotes, readText, dropFirstNewline_append hfirst]
  exact readLongLiteral_append (k := 0) (by decide) hcs h hrest

theorem not_mem_of_fits {d : Char} (h : cs.contains d = false) : ∀ c ∈ cs, c ≠ d := by
  rintro c hc rfl
  simp [hc] at h

theorem not_isControl_of_fits (h : hasControl cs = false) : ∀ c ∈ cs, isControl c = false := by
  simpa [hasControl] using h

theorem escapeShort_eq_self (h : fitsBasic cs = true) : escapeShort cs = cs := by
  simp only [fitsBasic, Bool.not_eq_true', Bool.or_eq_false_iff] at h
  obtain ⟨⟨⟨hcontrol, hs⟩, hq⟩, hn⟩ := h
  have hall : ∀ c ∈ cs, escape c = [c] := fun c hc =>
    escape_of_plain (not_isControl_of_fits hcontrol c hc) (not_mem_of_fits hn c hc)
      (not_mem_of_fits hq c hc) (not_mem_of_fits hs c hc)
  rw [escapeShort, flatMap_congr hall]
  simp

theorem plain_of_fitsLiteral (h : fitsLiteral cs = true) :
    ∀ c ∈ cs, isPlain c = true ∧ c ≠ apostrophe := by
  simp only [fitsLiteral, Bool.not_eq_true', Bool.or_eq_false_iff] at h
  obtain ⟨⟨hcontrol, hq⟩, hn⟩ := h
  exact fun c hc => ⟨isPlain_of_not_isControl (not_isControl_of_fits hcontrol c hc)
    (not_mem_of_fits hn c hc), not_mem_of_fits hq c hc⟩

/-- A text is read back however it was quoted, if no quote follows. -/
theorem readText_quoteChars (hrest : Opens '"' rest) (hrest' : Opens apostrophe rest)
    (cs : List Char) : readText (quoteChars cs ++ rest) = some (cs, rest) := by
  unfold quoteChars
  split
  · rename_i hfits
    nth_rewrite 1 [← escapeShort_eq_self hfits]
    exact readText_escapeShort hrest cs
  · split
    · rename_i hfits
      exact readText_literal (plain_of_fitsLiteral hfits) hrest'
    split
    · rename_i hfits
      simp only [fitsLongBasic, Bool.not_eq_true', Bool.or_eq_false_iff] at hfits
      obtain ⟨⟨hcontrol, hs⟩, hquotes⟩ := hfits
      have hself : escapeLong 0 cs = cs := escapeLong_eq_self (by decide)
        (fun c hc => ⟨not_isControl_of_fits hcontrol c hc, not_mem_of_fits hs c hc⟩) hquotes
      have hread := readText_escapeLong hrest cs
      rwa [hself] at hread
    · split
      · rename_i hfits
        simp only [fitsLongLiteral, Bool.not_eq_true', Bool.or_eq_false_iff] at hfits
        exact readText_longLiteral (not_isControl_of_fits hfits.1) hfits.2 hrest'
      · split
        · exact readText_escapeLong hrest cs
        · exact readText_escapeShort hrest cs

/-- A quoted text starts with a quote. -/
theorem quoteChars_cons (cs : List Char) :
    ∃ q body, quoteChars cs = q :: body ∧ (q = '"' ∨ q = apostrophe) := by
  unfold quoteChars
  repeat' split
  all_goals first
    | exact ⟨_, _, rfl, .inl rfl⟩
    | exact ⟨_, _, rfl, .inr rfl⟩

/-- A run of characters ends where the text after it does not go on with it. -/
theorem span_append {p : Char → Bool} (hcs : ∀ c ∈ cs, p c = true)
    (hrest : ∀ d ∈ rest.head?, p d = false) :
    (cs ++ rest).takeWhile p = cs ∧ (cs ++ rest).dropWhile p = rest := by
  rw [takeWhile_append_of_pos hcs, dropWhile_append_of_pos hcs]
  cases rest with
  | nil => simp
  | cons d ds => simp [hrest d rfl]

theorem readName_escapeShort (cs rest : List Char) :
    readName (shortQuotes '"' (escapeShort cs) ++ rest) = some (String.ofList cs, rest) := by
  have hquotes : shortQuotes '"' (escapeShort cs) ++ rest =
      '"' :: (escapeShort cs ++ '"' :: rest) := by
    simp [shortQuotes]
  rw [hquotes, readName, readBasic_escapeShort]
  rfl

/-- A name is read back if what follows cannot belong to it. -/
theorem readName_nameText (hrest : ∀ d ∈ rest.head?, isBare d = false) (name : String) :
    readName ((nameText name).toList ++ rest) = some (name, rest) := by
  have hname : some (String.ofList name.toList, rest) = some (name, rest) := by
    rw [String.ofList_toList]
  rw [nameText, String.toList_ofList, ← hname]
  generalize name.toList = cs
  unfold quoteName
  split
  · rename_i hbare
    simp only [Bool.and_eq_true, Bool.not_eq_true', all_eq_true] at hbare
    obtain ⟨hne, hall⟩ := hbare
    obtain ⟨htake, hdrop⟩ := span_append hall hrest
    obtain ⟨c, body, rfl⟩ := exists_cons_of_ne_nil (isEmpty_eq_false_iff.mp hne)
    have hc : isBare c = true := hall c mem_cons_self
    have hquote : c ≠ '"' ∧ c ≠ '\x27' := by
      constructor
      all_goals
        rintro rfl
        cases hc
    rw [readName.eq_def]
    split
    · simp_all
    · simp_all
    simp only [htake, hdrop]
    rfl
  · split
    · rename_i hfits
      have hread := readName_escapeShort cs rest
      rwa [escapeShort_eq_self hfits] at hread
    · split
      · rename_i hfits
        have hquotes : shortQuotes apostrophe cs ++ rest =
            '\x27' :: (cs ++ apostrophe :: rest) := by
          simp [shortQuotes, apostrophe]
        rw [hquotes, readName, readLiteral_append (plain_of_fitsLiteral hfits)]
        rfl
      · exact readName_escapeShort cs rest

/-- No name starts like a blank, a comment, a line end or a header. -/
theorem nameText_cons (name : String) : ∃ c body, (nameText name).toList = c :: body ∧
    c ∉ [' ', '\t', '#', '\n', '\r', '['] := by
  rw [nameText, String.toList_ofList]
  generalize name.toList = cs
  unfold quoteName
  split
  · rename_i hbare
    simp only [Bool.and_eq_true, Bool.not_eq_true', all_eq_true] at hbare
    obtain ⟨c, body, rfl⟩ := exists_cons_of_ne_nil (isEmpty_eq_false_iff.mp hbare.1)
    have hc : isBare c = true := hbare.2 c mem_cons_self
    refine ⟨c, body, rfl, fun hmem => ?_⟩
    have hnone : ∀ d ∈ [' ', '\t', '#', '\n', '\r', '['], isBare d = false := by simp [isBare]
    rw [hnone c hmem] at hc
    cases hc
  · repeat' split
    all_goals exact ⟨_, _, rfl, by decide⟩

end Toml

end Foundry
