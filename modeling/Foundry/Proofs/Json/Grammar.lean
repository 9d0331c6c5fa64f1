import Foundry.Proofs.Json.Objects

/-!
# Values of any kind are skipped

The texts of JSON values are told by what stands at the front of a text and what is left behind it:
words, numbers, strings, and lists and objects of any depth, with blanks before their tokens. A
value that is skipped is skipped up to where it ends, whatever it holds.
-/

namespace Foundry

open List

namespace Json

variable {b : UInt8} {bs ds t u v w rest : Bytes} {bracket : Bracket} {fuel : Nat}
  {outer : List Bracket}

/-! ## The grammar -/

/-- A token behind blanks, if there are any. -/
def Token (token t rest : Bytes) : Prop := ∃ gap, IsGap gap ∧ t = gap ++ (token ++ rest)

/-- The words null, true and false. -/
def words : List Bytes := [[110, 117, 108, 108], [116, 114, 117, 101], [102, 97, 108, 115, 101]]

def IsDigits (ds : Bytes) : Prop := ds ≠ [] ∧ ∀ d ∈ ds, isDigit d = true

/-- Digits without a leading zero. -/
def IsWhole (ds : Bytes) : Prop := ds = [48] ∨ IsDigits ds ∧ ds.head? ≠ some 48

/-- The number that digits say when they follow others. -/
def decimal (start : Nat) (ds : Bytes) : Nat := ds.foldl (fun n d => 10 * n + (d.toNat - 48)) start

def IsFraction (bs : Bytes) : Prop := bs = [] ∨ ∃ ds, bs = 46 :: ds ∧ IsDigits ds

def IsExponent (bs : Bytes) : Prop := bs = [] ∨ ∃ mark sign ds, bs = mark :: (sign ++ ds) ∧
  mark ∈ [69, 101] ∧ sign ∈ [[], [43], [45]] ∧ IsDigits ds

/-- A number has no leading zero, and perhaps a fraction and an exponent. -/
structure Number where
  sign : Bytes
  whole : Bytes
  fraction : Bytes
  exponent : Bytes
  isSign : sign = [] ∨ sign = [45]
  isWhole : IsWhole whole
  isFraction : IsFraction fraction
  isExponent : IsExponent exponent

def Number.unsigned (n : Number) : Bytes := n.whole ++ (n.fraction ++ n.exponent)

def Bracket.opening : Bracket → UInt8
  | .list => 91
  | .object => 123

/-- A string up to its closing quote. Its bytes need not be a text, nor its escapes whole
characters. -/
inductive Quoted : Bytes → Bytes → Prop
  | quote (rest : Bytes) : Quoted (34 :: rest) rest
  | plain {b : UInt8} {t rest : Bytes} (hb : IsPlain b) (h : Quoted t rest) : Quoted (b :: t) rest
  | short {b : UInt8} {t rest : Bytes} (hb : b ∈ shortEscapes.map Prod.fst) (h : Quoted t rest) :
      Quoted (92 :: b :: t) rest
  | unit {n : Nat} {t u rest : Bytes} (hu : Hex4 n u t) (h : Quoted t rest) :
      Quoted (92 :: 117 :: u) rest

/-- What stands before an element: nothing in a list, and a name and a colon in an object. -/
def Label : Bracket → Bytes → Bytes → Prop
  | .list, t, rest => t = rest
  | .object, t, rest => ∃ u v, Token [34] t u ∧ Quoted u v ∧ Token [58] v rest

/-- A value, or the elements of a list or an object up to the closing bracket. -/
inductive Form where
  | value
  | elements (bracket : Bracket)

inductive Written : Form → Bytes → Bytes → Prop
  | word {word t rest : Bytes} (h : word ∈ words) (ht : Token word t rest) : Written .value t rest
  | number {t rest : Bytes} (n : Number) (ht : Token (n.sign ++ n.unsigned) t rest) :
      Written .value t rest
  | string {t u rest : Bytes} (ht : Token [34] t u) (hu : Quoted u rest) : Written .value t rest
  | empty {bracket : Bracket} {t u rest : Bytes} (ht : Token [bracket.opening] t u)
      (hu : Token [bracket.close] u rest) : Written .value t rest
  | brackets {bracket : Bracket} {t u rest : Bytes} (ht : Token [bracket.opening] t u)
      (hu : Written (.elements bracket) u rest) : Written .value t rest
  | last {bracket : Bracket} {t u v rest : Bytes} (ht : Label bracket t u) (hu : Written .value u v)
      (hv : Token [bracket.close] v rest) : Written (.elements bracket) t rest
  | more {bracket : Bracket} {t u v w rest : Bytes} (ht : Label bracket t u)
      (hu : Written .value u v)
      (hv : Token [44] v w) (hw : Written (.elements bracket) w rest) :
      Written (.elements bracket) t rest

/-- What is written for a scalar: a string in any spelling, an integer with its digits, and a double
as some number, or as null if it is not finite. -/
def Says : Json → Bytes → Bytes → Prop
  | .null => Token [110, 117, 108, 108]
  | .integer n => fun t rest => ∃ ds, IsWhole ds ∧ decimal 0 ds = n.natAbs ∧
      Token ((if n < 0 then [45] else []) ++ ds) t rest
  | .float x => fun t rest => if x.isFinite then ∃ n : Number, Token (n.sign ++ n.unsigned) t rest
      else Token [110, 117, 108, 108] t rest
  | .string s => fun t rest => ∃ u, Token [34] t u ∧ Spells s.toList u rest
  | _ => Written .value

/-- Members of an object up to its closing bracket, with these names and with values of these
kinds. -/
inductive Members {α : Type} (name : α → String) (writes : α → Bytes → Bytes → Prop) :
    Bool → List α → Bytes → Bytes → Prop
  | close {first : Bool} {t rest : Bytes} (h : Token [125] t rest) :
      Members name writes first [] t rest
  | member {first : Bool} {m : α} {more : List α} {t u v w x y rest : Bytes}
      (ht : if first then t = u else Token [44] t u) (hu : Token [34] u v)
      (hv : Spells (name m).toList v w)
      (hw : Token [58] w x) (hx : writes m x y) (hy : Members name writes false more y rest) :
      Members name writes first (m :: more) t rest

/-! ## Blanks and ends -/

theorem token_append (bs rest : Bytes) : Token bs (bs ++ rest) rest := ⟨[], isGap_nil, rfl⟩

theorem Token.skipSpace_eq (h : Token (b :: bs) t rest) (hb : isSpace b = false) :
    skipSpace t = b :: (bs ++ rest) := by
  obtain ⟨gap, hgap, rfl⟩ := h
  rw [skipSpace_gap hgap, skipSpace, cons_append, dropWhile_cons_of_neg (by simp [hb])]

theorem Token.length_lt (h : Token (b :: bs) t rest) : rest.length < t.length := by
  obtain ⟨gap, -, rfl⟩ := h
  simp
  omega

/-- A value ends before a blank, a comma or a closing bracket. -/
def Ends (rest : Bytes) : Prop := ∃ b ∈ [32, 10, 9, 13, 44, 93, 125], ∃ more, rest = b :: more

theorem Token.ends (h : Token [b] t rest) (hb : b ∈ [44, 93, 125]) : Ends t := by
  obtain ⟨gap, hgap, rfl⟩ := h
  cases gap with
  | nil => exact ⟨b, by simp at hb ⊢; tauto, rest, rfl⟩
  | cons c gap =>
    have hc := hgap c mem_cons_self
    simp only [isSpace, Bool.or_eq_true, decide_eq_true_eq] at hc
    exact ⟨c, by simp; tauto, _, rfl⟩

theorem Ends.exists_cons (h : Ends rest) : ∃ b more, rest = b :: more ∧ isDigit b = false ∧ b ≠ 46 ∧
    isExponentMark b = false := by
  obtain ⟨b, hb, more, rfl⟩ := h
  have hall : ∀ b ∈ ([32, 10, 9, 13, 44, 93, 125] : Bytes), isDigit b = false ∧ b ≠ 46 ∧
      isExponentMark b = false := by
    simp
    decide
  exact ⟨b, more, rfl, hall b hb⟩

/-! ## Numbers -/

/-- A digit is nothing else. -/
theorem ne_of_isDigit {d : UInt8} (h : isDigit d = true) (b : UInt8) (hb : isDigit b = false) :
    d ≠ b := by
  rintro rfl
  cases h.symm.trans hb

theorem isSpace_of_isDigit {d : UInt8} (h : isDigit d = true) : isSpace d = false := by
  simp [isSpace, ne_of_isDigit h 32 rfl, ne_of_isDigit h 10 rfl, ne_of_isDigit h 9 rfl,
    ne_of_isDigit h 13 rfl]

theorem IsDigits.exists_cons (h : IsDigits ds) : ∃ d more, ds = d :: more ∧ isDigit d = true ∧
    ∀ b rest, isDigit b = false → (more ++ b :: rest).dropWhile isDigit = b :: rest := by
  obtain ⟨d, more, rfl⟩ := exists_cons_of_ne_nil h.1
  obtain ⟨hd, hmore⟩ := forall_mem_cons.mp h.2
  exact ⟨d, more, rfl, hd, fun b rest hb => by simp [dropWhile_append_of_pos hmore, hb]⟩

namespace Number

variable (n : Number)

/-- Behind the digits, an exponent is told by its first byte. -/
theorem exists_exponent (hends : Ends rest) :
    ∃ c more, n.exponent ++ rest = c :: more ∧ isDigit c = false ∧
    c ≠ 46 ∧ ∀ ended (parts : Parts), (parts.withExponent ended (c :: more)).map (·.2) =
    .ok rest := by
  obtain ⟨b, more, rfl, hdigit, hpoint, hmark⟩ := hends.exists_cons
  rcases n.isExponent with h | ⟨mark, sign, ds, h, hmark', hsign, hds⟩
  · refine ⟨b, more, by rw [h, nil_append], hdigit, hpoint, fun _ _ => ?_⟩
    simp [Parts.withExponent, hmark, Except.map]
  obtain ⟨d, tail, rfl, hd, hdrop⟩ := hds.exists_cons
  refine ⟨mark, sign ++ (d :: tail) ++ b :: more, by simp [h], ?_⟩
  simp only [mem_cons, not_mem_nil, or_false] at hmark' hsign
  rcases hmark' with rfl | rfl <;> rcases hsign with
    rfl | rfl | rfl <;> refine ⟨rfl, by decide, fun _ _ => ?_⟩ <;>
    simp [Parts.withExponent, isExponentMark, exponentSign, hd, hdrop b more hdigit,
      ne_of_isDigit hd 43 rfl, ne_of_isDigit hd 45 rfl, Except.map]

theorem withFraction_eq (hends : Ends rest) (ended : String) :
    (∀ parts : Parts, (parts.withFraction ended (n.fraction ++ (n.exponent ++ rest))).map (·.2) =
    .ok rest) ∧
      ∃ c more, n.fraction ++ (n.exponent ++ rest) = c :: more ∧ isDigit c = false := by
  obtain ⟨c, more, hexponent, hc, hpoint, hskip⟩ := n.exists_exponent hends
  rw [hexponent]
  rcases n.isFraction with h | ⟨ds, h, hds⟩
  · rw [h, nil_append]
    exact ⟨fun _ => by simp [Parts.withFraction, hpoint, hskip], c, more, rfl, hc⟩
  obtain ⟨d, tail, rfl, hd, hdrop⟩ := hds.exists_cons
  rw [h, cons_append]
  exact ⟨fun _ => by simp [Parts.withFraction, hd, hdrop c more hc, hskip], 46, _, rfl, rfl⟩

theorem skipNumber_eq (hends : Ends rest) : skipNumber (n.unsigned ++ rest) = .ok rest := by
  obtain ⟨hskip, c, more, htail, hc⟩ := n.withFraction_eq hends "invalid number"
  rw [unsigned, append_assoc, append_assoc]
  rw [htail] at hskip ⊢
  rcases n.isWhole with h | ⟨hds, hzero⟩
  · simp [h, skipNumber, scanParts, hc, hskip]
  obtain ⟨d, ds, hwhole, hd, hdrop⟩ := hds.exists_cons
  have hzero' : d ≠ 48 := by simpa [hwhole] using hzero
  simp [hwhole, skipNumber, scanParts, hzero', hd, hdrop c more hc, hskip]

theorem exists_cons : ∃ d more, n.unsigned = d :: more ∧ isDigit d = true := by
  rcases n.isWhole with h | ⟨hds, -⟩
  · exact ⟨48, _, by rw [unsigned, h]; rfl, rfl⟩
  obtain ⟨d, ds, hwhole, hd, -⟩ := hds.exists_cons
  exact ⟨d, _, by rw [unsigned, hwhole]; rfl, hd⟩

end Number

/-! ## Strings -/

theorem Quoted.length_lt (h : Quoted t rest) : rest.length < t.length := by
  induction h with
  | quote rest => exact Nat.lt_succ_self _
  | plain | short => simp; omega
  | unit hu _ ih =>
    have := scanHex_length hu.scanHex_eq
    simp
    omega

theorem Quoted.skipString_eq (h : Quoted t rest) : skipString t = .ok rest := by
  have hescape {u v : Bytes} (hu : skipEscape u = .ok v) (hv : skipString v = .ok rest) :
      skipString (92 :: u) = .ok rest := by
    rw [skipString]
    simp only [show ¬ (92 : UInt8) = 34 by decide, if_false, if_true]
    split <;> rename_i hd <;> rw [hu] at hd <;> cases hd
    exact hv
  induction h with
  | quote rest =>
    rw [skipString]
    simp
  | plain hb _ ih =>
    rw [skipString]
    simpa [hb.1, hb.2.1, hb.2.2] using ih hescape
  | short hb _ ih =>
    refine hescape ?_ (ih hescape)
    simp only [shortEscapes, map_cons, map_nil, mem_cons, not_mem_nil, or_false] at hb
    rcases hb with rfl | rfl | rfl | rfl | rfl | rfl | rfl | rfl <;> rfl
  | unit hu _ ih =>
    refine hescape ?_ (ih hescape)
    simp [skipEscape, skipHex, hu.scanHex_eq, Except.map]

theorem Quoted.plain_append (h : Quoted t rest) (hbs : ∀ b ∈ bs, IsPlain b) :
    Quoted (bs ++ t) rest := by
  induction bs with
  | nil => exact h
  | cons b bs ih =>
    obtain ⟨hb, hmore⟩ := forall_mem_cons.mp hbs
    exact .plain hb (ih hmore)

/-- A text in any spelling is a string. -/
theorem Spells.quoted {cs : List Char} (h : Spells cs t rest) : Quoted t rest := by
  induction h with
  | quote rest => exact .quote rest
  | plain hq hs hc _ ih => exact ih.plain_append fun b hb => isPlain_of_mem_encode hq hs hc hb
  | short hb _ ih => exact .short (mem_map_of_mem hb) ih
  | unit hu _ ih => exact .unit hu ih
  | pair hu hv _ _ _ _ ih => exact .unit hu (.unit hv ih)

/-! ## Brackets -/

/-- Go on with the next element of a list or an object. -/
def skipElement (bracket : Bracket) (fuel : Nat) (outer : List Bracket) (rest : Bytes) :
    Except Fail Bytes :=
  match bracket with
  | .list => skipFrom fuel .value (bracket :: outer) rest
  | .object => do
    let rest ← skipKey rest
    skipFrom fuel .value (bracket :: outer) rest

theorem Label.length_le (h : Label bracket t u) : u.length ≤ t.length := by
  cases bracket with
  | list => exact (congrArg length h).ge
  | object =>
    obtain ⟨v, w, ht, hv, hw⟩ := h
    exact (hw.length_lt.trans (hv.length_lt.trans ht.length_lt)).le

theorem Label.skipElement_eq (h : Label bracket t u) :
    skipElement bracket fuel outer t = skipFrom fuel .value (bracket :: outer) u := by
  cases bracket with
  | list =>
    cases h
    rfl
  | object =>
    obtain ⟨v, w, ht, hv, hw⟩ := h
    simp [skipElement, skipKey, ht.skipSpace_eq, hv.skipString_eq, hw.skipSpace_eq, isSpace, bind,
      Except.bind]

theorem skipFrom_close (h : Token [bracket.close] t rest) (after : Bool) :
    skipFrom (fuel + 1) (.close after) (bracket :: outer) t = skipFrom fuel (.close true) outer
    rest := by
  have hskip := h.skipSpace_eq (by cases bracket <;> rfl)
  have hcomma : bracket.close ≠ 44 := by cases bracket <;> decide
  simp [skipFrom, hskip, hcomma]

theorem skipFrom_comma (h : Token [44] t rest) :
    skipFrom (fuel + 1) (.close true) (bracket :: outer) t = skipElement bracket fuel outer
    rest := by
  simp only [skipFrom, h.skipSpace_eq rfl, Bool.and_self, decide_true, if_true]
  rfl

theorem skipFrom_bracket (h : Token [bracket.opening] t rest) :
    skipFrom (fuel + 1) .value outer t = skipFrom fuel (.close false) (bracket :: outer) rest := by
  cases bracket <;> simp [skipFrom, h.skipSpace_eq, Bracket.opening, isSpace]

/-- A value starts with a byte that is neither blank nor a closing bracket. -/
theorem Written.exists_skipSpace (h : Written .value t rest) :
    ∃ b more, skipSpace t = b :: more ∧ isSpace b = false ∧ b ≠ 93 := by
  cases h with
  | word h ht =>
    simp only [words, mem_cons, not_mem_nil, or_false] at h
    rcases h with rfl | rfl | rfl <;> exact ⟨_, _, ht.skipSpace_eq rfl, rfl, by decide⟩
  | number n ht =>
    obtain ⟨d, more, htext, hd⟩ := n.exists_cons
    have hspace := isSpace_of_isDigit hd
    rcases n.isSign with h | h <;> rw [h] at ht
    · rw [nil_append, htext] at ht
      exact ⟨d, _, ht.skipSpace_eq hspace, hspace, ne_of_isDigit hd 93 rfl⟩
    · exact ⟨45, _, ht.skipSpace_eq rfl, rfl, by decide⟩
  | string ht => exact ⟨34, _, ht.skipSpace_eq rfl, rfl, by decide⟩
  | @empty bracket _ _ _ ht | @brackets bracket _ _ _ ht =>
    cases bracket <;> exact ⟨_, _, ht.skipSpace_eq rfl, rfl, by decide⟩

theorem length_skipSpace_le (t : Bytes) : (skipSpace t).length ≤ t.length :=
  (dropWhile_sublist isSpace).length_le

theorem skipFrom_open (h : Written (.elements bracket) t rest) (hfuel : t.length ≤ fuel) :
    skipFrom (fuel + 1) (.close false) (bracket :: outer) t = skipElement bracket fuel outer t := by
  obtain ⟨b, more, hskip, hb, hclose⟩ : ∃ b more, skipSpace t = b :: more ∧ isSpace b = false ∧
    b ≠ bracket.close := by
    cases bracket with
    | list => cases h with | last ht hu | more ht hu =>
      cases ht
      exact hu.exists_skipSpace
    | object => cases h with | last ht | more ht =>
      obtain ⟨v, w, ht, -⟩ := ht
      exact ⟨34, v, ht.skipSpace_eq rfl, rfl, by decide⟩
  have hlength := length_skipSpace_le t
  rw [hskip, length_cons] at hlength
  obtain ⟨fuel, rfl⟩ : ∃ n, fuel = n + 1 := ⟨fuel - 1, by omega⟩
  have hstep : skipFrom (fuel + 2) (.close false) (bracket :: outer) t =
      skipElement bracket (fuel + 1) outer (b :: more) := by
    simp only [skipFrom, hskip, hclose, Bool.false_and, Bool.false_eq_true, if_false]
    rfl
  have hagain : skipSpace (b :: more) = b :: more := dropWhile_cons_of_neg (by simp [hb])
  rw [hstep]
  cases bracket <;> simp only [skipElement, skipKey, skipFrom, hskip, hagain]

/-- Skipping gets over what is written, with enough fuel left to go on. -/
def Form.Skips : Form → Bytes → Bytes → Prop
  | .value, t, rest => Ends rest → ∀ fuel outer, 2 * t.length ≤ fuel →
      ∃ fuel', (2 * rest.length < fuel' ∧ fuel' ≤ fuel) ∧
      skipFrom fuel .value outer t = skipFrom fuel' (.close true) outer rest
  | .elements bracket, t, rest => ∀ fuel outer, 2 * t.length ≤ fuel →
      ∃ fuel', (2 * rest.length < fuel' ∧ fuel' ≤ fuel) ∧
      skipElement bracket fuel outer t = skipFrom fuel' (.close true) outer rest

theorem skips_scalar {more : Bytes} (hskip : skipSpace t = b :: more) (hb : b ≠ 91 ∧ b ≠ 123)
    (hlength : rest.length ≤ more.length) (h : Ends rest → skipScalar b more = .ok rest) :
    Form.value.Skips t rest := by
  intro hends fuel outer hfuel
  have hspace := length_skipSpace_le t
  rw [hskip, length_cons] at hspace
  obtain ⟨fuel, rfl⟩ : ∃ n, fuel = n + 1 := ⟨fuel - 1, by omega⟩
  exact ⟨fuel, by omega, by simp [skipFrom, hskip, hb, h hends, bind, Except.bind]⟩

theorem Written.skips {form : Form} (h : Written form t rest) : form.Skips t rest := by
  induction h with
  | word h ht =>
    simp only [words, mem_cons, not_mem_nil, or_false] at h
    rcases h with rfl | rfl | rfl <;>
      exact skips_scalar (ht.skipSpace_eq rfl) (by decide) (by simp; omega) fun _ => rfl
  | @number t rest n ht =>
    obtain ⟨d, more, htext, hd⟩ := n.exists_cons
    have hspace := isSpace_of_isDigit hd
    rcases n.isSign with h | h <;> rw [h] at ht
    · rw [nil_append, htext] at ht
      refine skips_scalar (ht.skipSpace_eq hspace) ⟨ne_of_isDigit hd 91 rfl,
        ne_of_isDigit hd 123 rfl⟩ (by simp) fun hends => ?_
      have hnumber := n.skipNumber_eq hends
      rw [htext, cons_append] at hnumber
      simp [skipScalar, hnumber, hd, ne_of_isDigit hd 110 rfl, ne_of_isDigit hd 116 rfl,
        ne_of_isDigit hd 102 rfl, ne_of_isDigit hd 45 rfl]
    · refine skips_scalar (ht.skipSpace_eq rfl) (by decide) (by simp) fun hends => ?_
      simp [skipScalar, n.skipNumber_eq hends]
  | string ht hu =>
    refine skips_scalar (ht.skipSpace_eq rfl) (by decide) hu.length_lt.le fun _ => ?_
    simp [skipScalar, isDigit, hu.skipString_eq]
  | empty ht hu =>
    have := ht.length_lt
    have := hu.length_lt
    intro _ fuel outer hfuel
    obtain ⟨fuel, rfl⟩ : ∃ n, fuel = n + 2 := ⟨fuel - 2, by omega⟩
    refine ⟨fuel, by omega, ?_⟩
    rw [skipFrom_bracket ht, skipFrom_close hu]
  | brackets ht hu ih =>
    have := ht.length_lt
    intro _ fuel outer hfuel
    obtain ⟨fuel, rfl⟩ : ∃ n, fuel = n + 2 := ⟨fuel - 2, by omega⟩
    obtain ⟨fuel', hfuel', hskip⟩ := ih fuel outer (by omega)
    refine ⟨fuel', by omega, ?_⟩
    rw [skipFrom_bracket ht, skipFrom_open hu (by omega), hskip]
  | @last bracket _ _ _ _ ht hu hv ih =>
    have := ht.length_le
    have := hv.length_lt
    intro fuel outer hfuel
    obtain ⟨fuel', hfuel', hskip⟩ := ih (hv.ends (by cases bracket <;> decide)) fuel (_ :: outer)
      (by omega)
    obtain ⟨fuel', rfl⟩ : ∃ n, fuel' = n + 1 := ⟨fuel' - 1, by omega⟩
    refine ⟨fuel', by omega, ?_⟩
    rw [ht.skipElement_eq, hskip, skipFrom_close hv]
  | more ht hu hv hw ihu ihw =>
    have := ht.length_le
    have := hv.length_lt
    intro fuel outer hfuel
    obtain ⟨fuel₁, hfuel₁, hvalue⟩ := ihu (hv.ends (by decide)) fuel (_ :: outer) (by omega)
    obtain ⟨fuel₁, rfl⟩ : ∃ n, fuel₁ = n + 1 := ⟨fuel₁ - 1, by omega⟩
    obtain ⟨fuel₂, hfuel₂, hskip⟩ := ihw fuel₁ outer (by omega)
    refine ⟨fuel₂, by omega, ?_⟩
    rw [ht.skipElement_eq, hvalue, skipFrom_comma hv, hskip]

/-- A value of any kind and depth is skipped. -/
theorem Written.skipValue_eq (h : Written .value t rest) (hends : Ends rest) :
    skipValue t = .ok rest ∧ rest.length ≤ t.length := by
  obtain ⟨fuel, hfuel, hskip⟩ := h.skips hends (2 * t.length + 2) [] (by omega)
  obtain ⟨fuel, rfl⟩ : ∃ n, fuel = n + 1 := ⟨fuel - 1, by omega⟩
  exact ⟨by rw [skipValue, hskip, skipFrom], by omega⟩

/-! ## Members -/

theorem Members.ends {α : Type} {name : α → String} {writes : α → Bytes → Bytes → Prop}
    {members : List α} (h : Members name writes false members t rest) : Ends t := by
  cases h with
  | close h => exact h.ends (by decide)
  | member ht => exact Token.ends ht (by decide)

theorem nextKey_eq {first : Bool} (ht : if first then t = u else Token [44] t u)
    (hu : Token [34] u v) : nextKey first t = .ok (some v) := by
  have hquote : skipSpace u = 34 :: v := hu.skipSpace_eq rfl
  cases first with
  | true =>
    cases ht
    simp [nextKey, hquote]
  | false =>
    have hcomma : skipSpace t = 44 :: u := Token.skipSpace_eq ht rfl
    simp [nextKey, hcomma, hquote]

theorem says_quote (s : String) (rest : Bytes) :
    Says (.string s) (utf8 (quote s) ++ rest) rest := by
  rw [utf8_quote, cons_append, append_assoc]
  exact ⟨_, token_append [34] _, spells_escaped _ _⟩

/-- The compact form of an object has its members, if the values have what is written for them. -/
theorem members_compact (m : String × Json) (more : List (String × Json))
    (h : ∀ m' ∈ m :: more, ∀ rest, Says m'.2 (utf8 (chars .compact 1 m'.2) ++ rest) rest) :
    ∃ t, Token [123] (compact (.object (m :: more))).toUTF8.toList t ∧
      Members Prod.fst (fun m => Says m.2) true (m :: more) t [] := by
  suffices hmembers : ∀ first, Members Prod.fst (fun m => Says m.2) first (m :: more)
      (memberBytes [] [] (chars .compact 1) first (m :: more) ++ [125]) [] by
    exact ⟨_, ⟨[], isGap_nil, byteList_object .compact m more⟩, hmembers true⟩
  generalize m :: more = members at h
  induction members with
  | nil => exact fun _ => .close (token_append _ _)
  | cons m more ih =>
    obtain ⟨hm, hmore⟩ := forall_mem_cons.mp h
    intro first
    have hbytes : memberBytes [] [] (chars .compact 1) first (m :: more) ++ [125] =
        (if first then [] else [44]) ++ ([34] ++ (utf8 (m.1.toList.flatMap escape) ++
          34 :: ([58] ++ (utf8 (chars .compact 1 m.2) ++
            (memberBytes [] [] (chars .compact 1) false more ++ [125]))))) := by
      simp [memberBytes, utf8_quote]
    rw [hbytes]
    refine .member ?_ (token_append _ _) (spells_escaped _ _) (token_append _ _) (hm _)
      (ih hmore false)
    cases first with
    | true => rfl
    | false => exact token_append _ _

end Json

end Foundry
