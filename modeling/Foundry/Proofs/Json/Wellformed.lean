import Foundry.Proofs.Json.Grammar

/-!
# What is read is written

Whatever a reader takes from the front of a text is in the grammar. A reader that judges a value, as
one for numbers does, takes the same bytes as the one that skips it. Skipping keeps the brackets
that are open, so what it has left to do is told by them: for each the rest of its elements, and its
end. -/

namespace Foundry

open List

namespace Json

variable {b : UInt8} {bs ds t u v w rest : Bytes} {bracket : Bracket} {fuel : Nat}
  {outer : List Bracket}

/-! ## Tokens -/

theorem exists_gap (t : Bytes) : ∃ gap, IsGap gap ∧ t = gap ++ skipSpace t :=
  ⟨t.takeWhile isSpace, all_eq_true.mp all_takeWhile, (takeWhile_append_dropWhile ..).symm⟩

theorem token_of_skipSpace (h : skipSpace t = bs ++ rest) : Token bs t rest := by
  obtain ⟨gap, hgap, ht⟩ := exists_gap t
  exact ⟨gap, hgap, h ▸ ht⟩

theorem Token.of_skipSpace (h : Token bs (skipSpace t) rest) : Token bs t rest := by
  obtain ⟨gap, hgap, ht⟩ := exists_gap t
  obtain ⟨gap', hgap', hskip⟩ := h
  refine ⟨gap ++ gap', fun b hb => ?_, ?_⟩
  · rcases mem_append.mp hb with hb | hb
    · exact hgap b hb
    · exact hgap' b hb
  · rw [append_assoc, ← hskip]
    exact ht

theorem Written.of_skipSpace (h : Written .value (skipSpace t) rest) : Written .value t rest := by
  cases h with
  | word h ht => exact .word h ht.of_skipSpace
  | number n ht => exact .number n ht.of_skipSpace
  | string ht hu => exact .string ht.of_skipSpace hu
  | empty ht hu => exact .empty ht.of_skipSpace hu
  | brackets ht hu => exact .brackets ht.of_skipSpace hu

theorem eq_append_of_scanIdent (h : scanIdent bs t = .ok rest) : t = bs ++ rest := by
  induction bs generalizing t with
  | nil =>
    cases h
    rfl
  | cons e bs ih =>
    cases t with
    | nil => cases h
    | cons b t =>
      rw [scanIdent] at h
      split_ifs at h with hb
      · rw [hb, ih h, cons_append]
      · cases h

/-! ## Strings -/

theorem isHex_of_hexDigit? {n : Nat} (h : hexDigit? b = some n) : IsHex n b := by
  unfold hexDigit? at h
  unfold IsHex
  simp only [UInt8.le_iff_toNat_le, UInt8.toNat_ofNat] at h
  grind

theorem hex4_of_scanHex {n : Nat} (h : scanHex t = .ok (n, rest)) : Hex4 n t rest := by
  unfold scanHex at h
  split at h
  · split at h
    · rename_i ha hb hc hd
      cases h
      exact ⟨_, _, _, _, _, _, _, _, rfl, isHex_of_hexDigit? ha, isHex_of_hexDigit? hb,
        isHex_of_hexDigit? hc, isHex_of_hexDigit? hd, rfl⟩
    · cases h
  · cases h

theorem mem_shortEscapes {c : UInt8} (h : simpleEscape? b = some c) :
    b ∈ shortEscapes.map Prod.fst := by
  unfold simpleEscape? at h
  split_ifs at h <;> subst b <;> decide

theorem Quoted.scanEscape (h : Quoted u rest) {out : Bytes} (hu : scanEscape t = .ok (out, u)) :
    Quoted (92 :: t) rest := by
  unfold Json.scanEscape at hu
  split at hu
  · cases hu
  split_ifs at hu with hb
  · subst hb
    obtain ⟨⟨lead, v⟩, hlead, hu⟩ := bind_eq_ok hu
    dsimp only at hu
    refine .unit (hex4_of_scanHex hlead) ?_
    split_ifs at hu
    · cases hu
    · cases hu
      exact h
    unfold scanTrailing at hu
    split at hu
    · cases hu
    · cases hu
    · obtain ⟨⟨trail, w⟩, htrail, hu⟩ := bind_eq_ok hu
      dsimp only at hu
      split_ifs at hu
      · cases hu
      simp only [Except.ok.injEq, Prod.mk.injEq] at hu
      exact .unit (hex4_of_scanHex htrail) (hu.2 ▸ h)
    · cases hu
    · cases hu
  · split at hu
    · rename_i hshort
      cases hu
      exact .short (mem_shortEscapes hshort) h
    · cases hu

theorem quoted_of_scanContent {content out : Bytes} (h : scanContent content t = .ok (out, rest)) :
    Quoted t rest := by
  fun_induction scanContent content t with
  | case1 => cases h
  | case2 content t =>
    cases h
    exact .quote _
  | case3 =>
    rename_i taken _ ih
    exact (ih h).scanEscape taken
  | case4 => cases h
  | case5 => cases h
  | case6 content b t hquote hescape hcontrol ih => exact .plain ⟨hquote, hescape, hcontrol⟩ (ih h)

theorem quoted_of_scanString {s : String} (h : scanString t = .ok (s, rest)) : Quoted t rest := by
  obtain ⟨⟨content, u⟩, hcontent, h⟩ := bind_eq_ok h
  dsimp only at h
  split at h
  · cases h
    exact quoted_of_scanContent hcontent
  · cases h

theorem Quoted.skipEscape (h : Quoted u rest) (hu : skipEscape t = .ok u) :
    Quoted (92 :: t) rest := by
  unfold Json.skipEscape at hu
  split at hu
  · cases hu
  rename_i b t
  split_ifs at hu with hb hshort
  · subst hb
    obtain ⟨⟨n, v⟩, hhex, rfl⟩ := map_eq_ok hu
    exact .unit (hex4_of_scanHex hhex) h
  · cases hu
    obtain ⟨c, hc⟩ := Option.isSome_iff_exists.mp hshort
    exact .short (mem_shortEscapes hc) h
  · cases hu

theorem quoted_of_skipString (h : skipString t = .ok rest) : Quoted t rest := by
  fun_induction skipString t with
  | case1 => cases h
  | case2 =>
    cases h
    exact .quote _
  | case3 =>
    rename_i taken _ ih
    exact (ih h).skipEscape taken
  | case4 => cases h
  | case5 => cases h
  | case6 b t hquote hescape hcontrol ih => exact .plain ⟨hquote, hescape, hcontrol⟩ (ih h)

/-! ## Numbers -/

theorem isDigits_takeWhile (hb : isDigit b = true) (t : Bytes) :
    IsDigits (b :: t.takeWhile isDigit) :=
  ⟨cons_ne_nil _ _, forall_mem_cons.mpr ⟨hb, all_eq_true.mp all_takeWhile⟩⟩

theorem sign_of_exponentSign (t : Bytes) :
    ∃ sign ∈ ([[], [43], [45]] : List Bytes), t = sign ++ (exponentSign t).2 := by
  unfold exponentSign
  split
  · exact ⟨[43], by simp, rfl⟩
  · exact ⟨[45], by simp, rfl⟩
  · exact ⟨[], by simp, rfl⟩

theorem exponent_of_withExponent {ended : String} {parts parts' : Parts}
    (h : parts.withExponent ended t = .ok (parts', rest)) : ∃ e, t = e ++ rest ∧ IsExponent e := by
  unfold Parts.withExponent at h
  split at h
  · cases h
    exact ⟨[], rfl, .inl rfl⟩
  rename_i mark t
  split_ifs at h with hmark
  · obtain ⟨sign, hsign, ht⟩ := sign_of_exponentSign t
    split at h
    rename_i up u hu
    rw [hu] at ht
    split at h
    · cases h
    rename_i d more
    split_ifs at h with hd
    · cases h
      refine ⟨mark :: (sign ++ d :: more.takeWhile isDigit), ?_, .inr
        ⟨mark, sign, _, rfl, ?_, hsign, isDigits_takeWhile hd more⟩⟩
      · simpa using ht
      · simpa [isExponentMark, or_comm] using hmark
    · cases h
  · cases h
    exact ⟨[], rfl, .inl rfl⟩

theorem exists_withFraction {ended : String} {parts parts' : Parts}
    (h : parts.withFraction ended t = .ok (parts', rest)) :
    ∃ f e, t = f ++ (e ++ rest) ∧ IsFraction f ∧ IsExponent e := by
  unfold Parts.withFraction at h
  split at h
  · rename_i more
    dsimp only at h
    split at h
    · cases h
    rename_i hnone
    obtain ⟨e, hdrop, he⟩ := exponent_of_withExponent h
    refine ⟨46 :: more.takeWhile isDigit, e, ?_, .inr ⟨_, rfl, ?_, all_eq_true.mp all_takeWhile⟩,
      he⟩
    · rw [← hdrop, cons_append, takeWhile_append_dropWhile]
    · simpa using hnone
  · obtain ⟨e, rfl, he⟩ := exponent_of_withExponent h
    exact ⟨[], e, rfl, .inl rfl, he⟩

/-- What has the parts of a number is one, behind either sign. -/
theorem number_of_scanParts {ended : String} {parts : Parts}
    (h : scanParts ended t = .ok (parts, rest))
    {sign : Bytes} (hsign : sign = [] ∨ sign = [45]) :
    ∃ n : Number, n.sign = sign ∧ t = n.unsigned ++ rest := by
  have hnumber {whole u : Bytes} (hwhole : IsWhole whole) {parts' : Parts}
      (hu : parts'.withFraction ended u = .ok (parts, rest)) :
      ∃ n : Number, n.sign = sign ∧ whole ++ u = n.unsigned ++ rest := by
    obtain ⟨f, e, rfl, hf, he⟩ := exists_withFraction hu
    exact ⟨⟨sign, whole, f, e, hsign, hwhole, hf, he⟩, rfl, by simp [Number.unsigned]⟩
  unfold scanParts at h
  split at h
  · cases h
  rename_i b more
  split_ifs at h with hzero hleading hdigit
  · cases h
  · subst hzero
    exact hnumber (.inl rfl) h
  · have hwhole : IsWhole (b :: more.takeWhile isDigit) :=
      .inr ⟨isDigits_takeWhile hdigit more, by simpa using hzero⟩
    simpa using hnumber hwhole h
  · cases h

theorem number_of_skipNumber (h : skipNumber t = .ok rest) {sign : Bytes}
    (hsign : sign = [] ∨ sign = [45]) : ∃ n : Number, n.sign = sign ∧ t = n.unsigned ++ rest := by
  obtain ⟨⟨parts, u⟩, hparts, rfl⟩ := map_eq_ok h
  exact number_of_scanParts hparts hsign

theorem number_of_scanNumber {positive : Bool} {x : Numeral}
    (h : scanNumber positive t = .ok (x, rest))
    {sign : Bytes} (hsign : sign = [] ∨ sign = [45]) :
    ∃ n : Number, n.sign = sign ∧ t = n.unsigned ++ rest := by
  obtain ⟨⟨parts, u⟩, hparts, h⟩ := bind_eq_ok h
  obtain ⟨x', -, h⟩ := bind_eq_ok h
  cases h
  exact number_of_scanParts hparts hsign

/-! ## Scalars -/

theorem written_of_skipScalar (hskip : skipSpace t = b :: u) (h : skipScalar b u = .ok rest) :
    Written .value t rest ∧ rest.length ≤ u.length := by
  have hword {tail : Bytes} (hmem : b :: tail ∈ words) (htail : scanIdent tail u = .ok rest) :
      Written .value t rest ∧ rest.length ≤ u.length := by
    have hu := eq_append_of_scanIdent htail
    exact ⟨.word hmem (token_of_skipSpace (by rw [hskip, hu, cons_append])), by simp [hu]⟩
  unfold skipScalar at h
  split_ifs at h with hnull htrue hfalse hminus hdigit hquote
  · exact hword (by simp [hnull, nullTail, words]) h
  · exact hword (by simp [htrue, trueTail, words]) h
  · exact hword (by simp [hfalse, falseTail, words]) h
  · obtain ⟨n, hsign, hn⟩ := number_of_skipNumber h (.inr rfl)
    exact ⟨.number n (token_of_skipSpace (by simp [hskip, hminus, hsign, hn])), by simp [hn]⟩
  · obtain ⟨n, hsign, hn⟩ := number_of_skipNumber h (.inl rfl)
    obtain ⟨d, more, hmore, -⟩ := n.exists_cons
    refine ⟨.number n (token_of_skipSpace (by rw [hskip, hsign, hn, nil_append])), ?_⟩
    rw [hmore, cons_append] at hn
    simp [(cons.inj hn).2]
  · have hquoted := quoted_of_skipString h
    exact ⟨.string (token_of_skipSpace (hquote ▸ hskip)) hquoted, hquoted.length_lt.le⟩
  · cases h

/-! ## Brackets -/

/-- Behind an element: the rest of the elements and the end of each bracket that is open. -/
inductive Closed : List Bracket → Bytes → Bytes → Prop
  | nil (rest : Bytes) : Closed [] rest rest
  | close {bracket : Bracket} {outer : List Bracket} {t u rest : Bytes}
      (ht : Token [bracket.close] t u) (hu : Closed outer u rest) : Closed (bracket :: outer) t rest
  | comma {bracket : Bracket} {outer : List Bracket} {t u v rest : Bytes} (ht : Token [44] t u)
      (hu : Written (.elements bracket) u v) (hv : Closed outer v rest) :
      Closed (bracket :: outer) t rest

/-- Right after an opening bracket: its end, or elements. -/
def Opened (bracket : Bracket) (t rest : Bytes) : Prop :=
  Token [bracket.close] t rest ∨ Written (.elements bracket) t rest

theorem Closed.elements (h : Closed (bracket :: outer) v rest) (ht : Label bracket t u)
    (hu : Written .value u v) : ∃ w, Written (.elements bracket) t w ∧ Closed outer w rest := by
  cases h with
  | close hv hw => exact ⟨_, .last ht hu hv, hw⟩
  | comma hv hw hx => exact ⟨_, .more ht hu hv hw, hx⟩

theorem Closed.eq_of_nil (h : Closed [] t rest) : t = rest := by
  cases h
  rfl

theorem Opened.written (h : Opened bracket u rest) (ht : Token [bracket.opening] t u) :
    Written .value t rest := by
  rcases h with h | h
  · exact .empty ht h
  · exact .brackets ht h

theorem Label.of_skipSpace (h : Label bracket (skipSpace t) u) (hu : Written .value u v) :
    ∃ u, Label bracket t u ∧ Written .value u v := by
  cases bracket with
  | list =>
    cases h
    exact ⟨t, rfl, hu.of_skipSpace⟩
  | object =>
    obtain ⟨w, x, hw, hx⟩ := h
    exact ⟨u, ⟨w, x, hw.of_skipSpace, hx⟩, hu⟩

theorem Written.elements_of_skipSpace (h : Written (.elements bracket) (skipSpace t) rest) :
    Written (.elements bracket) t rest := by
  cases h with
  | last ht hu hv =>
    obtain ⟨u, ht, hu⟩ := ht.of_skipSpace hu
    exact .last ht hu hv
  | more ht hu hv hw =>
    obtain ⟨u, ht, hu⟩ := ht.of_skipSpace hu
    exact .more ht hu hv hw

theorem label_of_skipKey (h : skipKey t = .ok rest) : Label .object t rest := by
  unfold skipKey at h
  split at h
  · cases h
  rename_i b u hskip
  split_ifs at h with hb
  · subst hb
    obtain ⟨v, hv, h⟩ := bind_eq_ok h
    split at h
    · cases h
    rename_i c w hcolon
    split_ifs at h with hc
    · subst hc
      cases h
      exact ⟨u, v, token_of_skipSpace hskip, quoted_of_skipString hv, token_of_skipSpace hcolon⟩
    · cases h
  · cases h

/-- What skipping has got over when it ends, by where it went on. -/
def Skip.Takes : Skip → List Bracket → Bytes → Bytes → Prop
  | .value, outer, t, rest => ∃ u, Written .value t u ∧ Closed outer u rest
  | .close false, bracket :: outer, t, rest => ∃ u, Opened bracket t u ∧ Closed outer u rest
  | .close _, outer, t, rest => Closed outer t rest

/-- With enough fuel for all bytes, skipping ends only behind a value. -/
theorem takes_of_skipFrom {skip : Skip}
    (hfuel : 2 * t.length + (if skip = .value then 1 else 2) ≤ fuel)
    (h : skipFrom fuel skip outer t = .ok rest) : skip.Takes outer t rest := by
  induction fuel generalizing skip outer t with
  | zero => split at hfuel <;> omega
  | succ fuel ih =>
    have hspace := length_skipSpace_le t
    cases skip with
    | value =>
      simp only [if_true] at hfuel
      rw [skipFrom] at h
      split at h
      · cases h
      rename_i b after hskip
      rw [hskip, length_cons] at hspace
      have hbracket (bracket : Bracket) (hb : b = bracket.opening)
          (hopen : skipFrom fuel (.close false) (bracket :: outer) after = .ok rest) :
          Skip.value.Takes outer t rest := by
        obtain ⟨u, hu, hclosed⟩ := ih (by simp; omega) hopen
        exact ⟨u, hu.written (token_of_skipSpace (hb ▸ hskip)), hclosed⟩
      split_ifs at h with hlist hobject
      · exact hbracket .list hlist h
      · exact hbracket .object hobject h
      -- behind a scalar the brackets that are open go on
      obtain ⟨u, hu, h⟩ := bind_eq_ok h
      obtain ⟨hwritten, hlength⟩ := written_of_skipScalar hskip hu
      exact ⟨u, hwritten, ih (by simp; omega) h⟩
    | close after =>
      simp only [reduceCtorEq, if_false] at hfuel
      cases outer with
      | nil =>
        cases h
        cases after <;> exact .nil _
      | cons bracket outer =>
        have helement {u : Bytes} (hu : 2 * u.length + 1 ≤ fuel)
            (h : skipElement bracket fuel outer u = .ok rest) :
            ∃ w, Written (.elements bracket) u w ∧ Closed outer w rest := by
          cases bracket with
          | list =>
            obtain ⟨v, hv, hclosed⟩ := ih (by simpa using hu) h
            exact hclosed.elements rfl hv
          | object =>
            obtain ⟨v, hkey, h⟩ := bind_eq_ok h
            have hlabel := label_of_skipKey hkey
            have := hlabel.length_le
            obtain ⟨w, hw, hclosed⟩ := ih (by simp; omega) h
            exact hclosed.elements hlabel hw
        cases hskip : skipSpace t with
        | nil => simp [skipFrom, hskip, failPeek] at h
        | cons b u =>
          rw [hskip, length_cons] at hspace
          simp only [skipFrom, hskip] at h
          split_ifs at h with hcomma hclose hafter
          · obtain ⟨rfl, rfl⟩ : after = true ∧ b = 44 := by simpa using hcomma
            obtain ⟨w, hw, hclosed⟩ := helement (by omega) h
            exact .comma (token_of_skipSpace hskip) hw hclosed
          · have htoken : Token [bracket.close] t u := token_of_skipSpace (hclose ▸ hskip)
            have hclosed : Closed outer u rest := ih (by simp; omega) h
            cases after with
            | true => exact .close htoken hclosed
            | false => exact ⟨u, .inl htoken, hclosed⟩
          · cases h
          obtain rfl : after = false := by simpa using hafter
          obtain ⟨w, hw, hclosed⟩ := helement (by simp; omega) h
          exact ⟨w, .inr (hskip ▸ hw).elements_of_skipSpace, hclosed⟩

/-- What is skipped as a value is one. -/
theorem written_of_skipValue (h : skipValue t = .ok rest) : Written .value t rest := by
  obtain ⟨u, hu, hclosed⟩ := takes_of_skipFrom (by simp) h
  exact hclosed.eq_of_nil ▸ hu

/-! ## Records -/

/-- From an element on, or right after an opening bracket, up to the end of the bracket. -/
def Ending (first : Bool) (bracket : Bracket) (t rest : Bytes) : Prop :=
  if first then Opened bracket t rest else Closed [bracket] t rest

variable {first : Bool}

theorem ending_of_close (bracket : Bracket) (h : Token [bracket.close] t rest) (first : Bool) :
    Ending first bracket t rest := by
  cases first with
  | true => exact .inl h
  | false => exact .close h (.nil rest)

theorem Ending.element (h : Ending false bracket w rest)
    (hfirst : if first then t = u else Token [44] t u)
    (hu : Label bracket u v) (hv : Written .value v w) : Ending first bracket t rest := by
  obtain ⟨x, hx, hclosed⟩ := Closed.elements h hu hv
  obtain rfl := hclosed.eq_of_nil
  cases first with
  | true =>
    cases hfirst
    exact .inr hx
  | false => exact .comma hfirst hx (.nil _)

theorem token_dropClose (h : skipSpace t = b :: u) : Token [b] t (dropClose t) := by
  rw [dropClose, h]
  exact token_of_skipSpace h

theorem token_of_nextKey {key : Option Bytes} (h : nextKey first t = .ok key) :
    (key = none ∧ Token [125] t (dropClose t)) ∨ ∃ u v, key = some v ∧
      (if first then t = u else Token [44] t u) ∧ Token [34] u v := by
  unfold nextKey at h
  split at h
  · cases h
  rename_i b u hskip
  split_ifs at h with hclose hfirst hquote hcomma
  · cases h
    exact .inl ⟨rfl, token_dropClose (hclose ▸ hskip)⟩
  · cases h
    exact .inr ⟨t, u, rfl, by simp [hfirst], token_of_skipSpace (hquote ▸ hskip)⟩
  · cases h
  · split at h
    · cases h
    rename_i c v hquote
    split_ifs at h with hc
    · cases h
      refine .inr ⟨u, v, rfl, ?_, token_of_skipSpace (hc ▸ hquote)⟩
      rw [if_neg hfirst]
      exact token_of_skipSpace (hcomma ▸ hskip)
    · cases h
    · cases h
  · cases h

theorem token_of_nextElement {element : Option Bytes} (h : nextElement first t = .ok element) :
    (element = none ∧ Token [93] t (dropClose t)) ∨ ∃ u, element = some (skipSpace u) ∧
      if first then t = u else Token [44] t u := by
  unfold nextElement at h
  split at h
  · cases h
  rename_i b u hskip
  split_ifs at h with hclose hfirst hcomma
  · cases h
    exact .inl ⟨rfl, token_dropClose (hclose ▸ hskip)⟩
  · cases h
    exact .inr ⟨t, by rw [hskip], by simp [hfirst]⟩
  · split at h
    · cases h
    rename_i c v helement
    split_ifs at h
    · cases h
    cases h
    refine .inr ⟨u, by rw [helement], ?_⟩
    rw [if_neg hfirst]
    exact token_of_skipSpace (hcomma ▸ hskip)
  · cases h

theorem token_of_scanColon (h : scanColon t = .ok rest) : Token [58] t rest := by
  unfold scanColon at h
  split at h
  · cases h
  rename_i b u hskip
  split_ifs at h with hb
  · cases h
    exact token_of_skipSpace (hb ▸ hskip)
  · cases h

theorem token_of_scanListEnd (h : scanListEnd t = .ok rest) : Token [93] t rest := by
  unfold scanListEnd at h
  split at h
  · cases h
  rename_i b u hskip
  split_ifs at h with hb
  · cases h
    exact token_of_skipSpace (hb ▸ hskip)
  · split at h <;> cases h
  · cases h

/-- A failure is no reading. -/
theorem failType_ne_ok {α : Type} {expected : String} {a : α} : failType expected t ≠ .ok a := by
  intro h
  unfold failType at h
  split at h
  · cases h
  dsimp only at h
  split_ifs at h
  · cases h
  · cases h
  obtain ⟨⟨_, _⟩, -, h⟩ := bind_eq_ok h
  cases h

section Fields

variable {σ : Type} {fields : List (Field σ)}

/-- The readers of all fields read values. -/
def ReadValues (fields : List (Field σ)) : Prop :=
  ∀ field ∈ fields, ∀ t value rest, field.read t = .ok (value, rest) → Written .value t rest

theorem mem_of_findField {key : String} {i : Nat} {field : Field σ}
    (h : findField fields key = some (i, field)) : field ∈ fields := by
  unfold findField at h
  split at h
  · obtain ⟨_, hfield, heq⟩ := Option.map_eq_some_iff.mp h
    cases heq
    exact mem_of_getElem? hfield
  · cases h

theorem ending_of_readKeyed (hfields : ReadValues fields) {found found' : Found σ}
    (h : readKeyed fields first found fuel t = .ok (found', rest)) :
    Ending first .object t rest := by
  induction fuel generalizing first found t with
  | zero => cases h
  | succ fuel ih =>
    rw [readKeyed] at h
    split at h
    · cases h
    · rename_i hkey
      cases h
      obtain ⟨-, hclose⟩ | ⟨_, _, hkey, -⟩ := token_of_nextKey hkey
      · exact ending_of_close .object hclose first
      · cases hkey
    · rename_i v hkey
      obtain ⟨hkey, -⟩ | ⟨u, _, hkey, hfirst, hquote⟩ := token_of_nextKey hkey
      · cases hkey
      cases hkey
      obtain ⟨⟨name, w⟩, hname, h⟩ := bind_eq_ok h
      have hlabel {x : Bytes} (hcolon : scanColon w = .ok x) : Label .object u x :=
        ⟨v, w, hquote, quoted_of_scanString hname, token_of_scanColon hcolon⟩
      dsimp only at h
      split at h
      · obtain ⟨x, hcolon, h⟩ := bind_eq_ok h
        obtain ⟨y, hskip, h⟩ := bind_eq_ok h
        exact (ih h).element hfirst (hlabel hcolon) (written_of_skipValue hskip)
      · rename_i i field hfind
        split_ifs at h
        · cases h
        obtain ⟨x, hcolon, h⟩ := bind_eq_ok h
        obtain ⟨⟨value, y⟩, hread, h⟩ := bind_eq_ok h
        exact (ih h).element hfirst (hlabel hcolon)
          (hfields field (mem_of_findField hfind) _ _ _ hread)

theorem ending_of_readListed (hfields : ReadValues fields) {title : String} {size index : Nat}
    {values : List σ}
    (h : readListed title size first index fields t = .ok (values, rest)) :
    Ending first .list t rest := by
  induction fields generalizing first index t values with
  | nil =>
    obtain ⟨u, hclose, h⟩ := bind_eq_ok h
    cases h
    exact ending_of_close .list (token_of_scanListEnd hclose) first
  | cons field fields ih =>
    obtain ⟨hfield, hfields⟩ := forall_mem_cons.mp hfields
    rw [readListed] at h
    split at h
    · cases h
    · split at h
      · obtain ⟨⟨_, _⟩, hlater, h⟩ := bind_eq_ok h
        cases h
        exact ih hfields hlater
      · cases h
    · rename_i u hnext
      obtain ⟨hnext, -⟩ | ⟨u, hnext, hfirst⟩ := token_of_nextElement hnext
      · cases hnext
      cases hnext
      obtain ⟨⟨value, v⟩, hread, h⟩ := bind_eq_ok h
      obtain ⟨⟨_, _⟩, hlater, h⟩ := bind_eq_ok h
      cases h
      exact (ih hfields hlater).element hfirst rfl (hfield _ _ _ hread).of_skipSpace

/-- A record that is read is a value. -/
theorem written_of_readRecord (hfields : ReadValues fields) {title : String} {values : List σ}
    (h : readRecord title fields t = .ok (values, rest)) : Written .value t rest := by
  unfold readRecord at h
  split at h
  · cases h
  · rename_i u hskip
    have hlist : Opened .list u rest := ending_of_readListed hfields h
    exact hlist.written (token_of_skipSpace hskip)
  · rename_i u hskip
    obtain ⟨⟨found, v⟩, hkeyed, h⟩ := bind_eq_ok h
    obtain ⟨_, -, h⟩ := bind_eq_ok h
    cases h
    have hobject : Opened .object u rest := ending_of_readKeyed hfields hkeyed
    exact hobject.written (token_of_skipSpace hskip)
  · exact absurd h failType_ne_ok

end Fields

/-- A document that is read has nothing but blanks behind what is taken from it. -/
theorem gap_of_document {α : Type} {read : Bytes → Except Fail (α × Bytes)} {a : α}
    (h : document read t = .ok a) : ∃ rest, read t = .ok (a, rest) ∧ IsGap rest := by
  unfold document at h
  split at h
  · cases h
  rename_i value rest hread
  split at h
  · rename_i hskip
    cases h
    obtain ⟨gap, hgap, heq⟩ := exists_gap rest
    rw [hskip, append_nil] at heq
    exact ⟨rest, hread, heq ▸ hgap⟩
  · cases h

/-! ## Texts and numbers -/

theorem written_of_readText {expected s : String} (h : readText expected t = .ok (s, rest)) :
    Written .value t rest := by
  unfold readText at h
  split at h
  · cases h
  · rename_i u hskip
    exact .string (token_of_skipSpace hskip) (quoted_of_scanString h)
  · exact absurd h failType_ne_ok

theorem written_of_readNumber {x : Binary64} (h : readNumber t = .ok (x, rest)) :
    Written .value t rest := by
  unfold readNumber at h
  split at h
  · cases h
  rename_i b u hskip
  split_ifs at h with hminus hdigit
  · obtain ⟨⟨_, _⟩, hscan, h⟩ := bind_eq_ok h
    cases h
    obtain ⟨n, hsign, hn⟩ := number_of_scanNumber hscan (.inr rfl)
    exact .number n (token_of_skipSpace (by simp [hskip, hminus, hsign, hn]))
  · obtain ⟨⟨_, _⟩, hscan, h⟩ := bind_eq_ok h
    cases h
    obtain ⟨n, hsign, hn⟩ := number_of_scanNumber hscan (.inl rfl)
    exact .number n (token_of_skipSpace (by rw [hskip, hsign, hn, nil_append]))
  · exact absurd h failType_ne_ok

theorem written_of_readOptionalNumber {x : Option Binary64}
    (h : readOptionalNumber t = .ok (x, rest)) : Written .value t rest := by
  unfold readOptionalNumber at h
  split at h
  · rename_i u hskip
    obtain ⟨v, hnull, h⟩ := bind_eq_ok h
    cases h
    have hword : 110 :: nullTail ∈ words := by simp [words, nullTail]
    exact .word hword
      (token_of_skipSpace (by rw [hskip, eq_append_of_scanIdent hnull, cons_append]))
  · obtain ⟨⟨_, _⟩, hread, h⟩ := bind_eq_ok h
    cases h
    exact (written_of_readNumber hread).of_skipSpace

end Json

end Foundry
