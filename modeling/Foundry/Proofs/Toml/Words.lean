import Foundry.Proofs.Number.Values
import Foundry.Proofs.Toml.Strings
import Mathlib.Data.Nat.Digits.Defs

/-!
# Written numbers are read back

Counts are written as their digits. A whole number of seconds is written as its digits, a
point and a zero, and is read as the nearest number to a ratio, which is that number itself.
-/

namespace Foundry

variable {n : Nat}

open List Binary64

/-! ## Digits -/

theorem toDigits_mul_pow (h : 0 < n) (k : Nat) :
    Nat.toDigits 10 (n * 10 ^ k) = Nat.toDigits 10 n ++ List.replicate k '0' := by
  induction k with
  | zero => simp
  | succ k ih =>
    have hpos := Nat.mul_pos h (Nat.pow_pos (n := k) (show 0 < 10 by decide))
    rw [pow_succ, ← mul_assoc, Nat.toDigits_of_base_le (by decide) (by omega),
      Nat.mul_div_cancel _ (by decide), Nat.mul_mod_left, ih, append_assoc, replicate_succ']
    rfl

theorem isDigit_of_mem_toDigits {c : Char} (h : c ∈ Nat.toDigits 10 n) : c.isDigit = true :=
  Nat.isDigit_of_mem_toDigits (by decide) (by decide) h

/-- No number but zero starts with a zero. -/
theorem head_toDigits_ne (h : 0 < n) : (Nat.toDigits 10 n).head? ≠ some '0' := by
  induction n using Nat.strongRecOn with
  | ind n ih =>
    by_cases hn : n < 10
    · have hall : ∀ d < 10, 0 < d → [Nat.digitChar d].head? ≠ some '0' := by decide
      rw [Nat.toDigits_of_lt_base hn]
      exact hall n hn h
    · rw [Nat.toDigits_of_base_le (by decide) (by omega),
        List.head?_append_of_ne_nil _ Nat.toDigits_ne_nil]
      exact ih (n / 10) (by omega) (by omega)

namespace Toml

variable {after : List Char} {n : Nat}
variable {cs rest word : List Char} {c : Char}

theorem value?_of_isDigit (h : c.isDigit = true) : Hex.value? c = some (c.toNat - 48) := by
  have hrange : 48 ≤ c.val ∧ c.val ≤ 57 := by simpa [Char.isDigit] using h
  exact if_pos hrange

theorem ofDigits_eq (h : ∀ c ∈ cs, c.isDigit = true) :
    ofDigits 10 cs = Nat.ofDigitChars 10 cs 0 := by
  refine foldl_ext _ _ _ fun n c hc => ?_
  rw [value?_of_isDigit (h c hc)]
  rfl

theorem ofDigits_toDigits (n : Nat) : ofDigits 10 (Nat.toDigits 10 n) = n := by
  rw [ofDigits_eq fun c => isDigit_of_mem_toDigits, Nat.ofDigitChars_ten_toDigits]

theorem ungroup?_digits (hne : cs ≠ []) (h : ∀ c ∈ cs, c.isDigit = true) :
    ungroup? Char.isDigit cs = some cs := by
  induction cs with
  | nil => exact absurd rfl hne
  | cons c cs ih =>
    obtain ⟨hc, hcs⟩ := forall_mem_cons.mp h
    cases cs with
    | nil => simp [ungroup?, hc]
    | cons d ds =>
      have hd : d ≠ '_' := by
        rintro rfl
        cases hcs '_' mem_cons_self
      simp [ungroup?, hc, hd, ih (cons_ne_nil d ds) hcs]

theorem whole?_toDigits (n : Nat) : whole? (Nat.toDigits 10 n) = some (Nat.toDigits 10 n) := by
  have hdigits := ungroup?_digits Nat.toDigits_ne_nil fun c => isDigit_of_mem_toDigits (n := n)
  rw [whole?, hdigits]
  cases Nat.eq_zero_or_pos n with
  | inl hzero =>
    subst n
    rfl
  | inr hpos =>
    have hhead := head_toDigits_ne hpos
    simp only [Option.bind_eq_bind, Option.bind_some]
    split
    · rename_i hzero
      simp [hzero] at hhead
    · rfl

/-! ## Words -/

theorem mem_of_expect? (h : expect? c cs = some after) : c ∈ cs := by
  unfold expect? at h
  split at h
  · split at h
    · rename_i hd
      rw [hd]
      exact mem_cons_self
    · cases h
  · cases h

theorem date?_eq_none (h : '-' ∉ word) : date? word = none := by
  have hexpect : expect? '-' (word.drop 4) = none := by
    cases hd : expect? '-' (word.drop 4) with
    | none => rfl
    | some after => exact absurd (mem_of_mem_drop (mem_of_expect? hd)) h
  simp [date?, hexpect]

theorem two?_subset {low high : Nat} (h : two? low high cs = some (n, after)) : after ⊆ cs := by
  unfold two? at h
  split at h
  · dsimp only at h
    split at h
    · split at h
      · cases h
        intro c hc
        simp [hc]
      · cases h
    · cases h
  · cases h

theorem time?_eq_none (h : ':' ∉ word) : time? word = none := by
  cases htwo : two? 0 23 word with
  | none => simp [time?, htwo]
  | some hours =>
    have hexpect : expect? ':' hours.2 = none := by
      cases hd : expect? ':' hours.2 with
      | none => rfl
      | some after => exact absurd (two?_subset htwo (mem_of_expect? hd)) h
    simp [time?, htwo, hexpect]

/-- Digits and points make a number and nothing else. -/
theorem word?_eq_number? (h : ∀ c ∈ word, c.isDigit = true ∨ c = '.') :
    word? word = number? word := by
  have hnot : ∀ c, c.isDigit = false → c ≠ '.' → c ∉ word := by
    intro c hdigit hpoint hmem
    rcases h c hmem with hc | hc
    · rw [hdigit] at hc
      cases hc
    · exact hpoint hc
  have hmoment : moment? word = none := by
    simp [moment?, date?_eq_none (hnot '-' rfl (by decide)),
      time?_eq_none (hnot ':' rfl (by decide))]
  unfold word?
  split
  · exact absurd mem_cons_self (hnot 't' rfl (by decide))
  · exact absurd mem_cons_self (hnot 'f' rfl (by decide))
  · exact absurd (mem_cons_of_mem _ mem_cons_self) (hnot 'x' rfl (by decide))
  · exact absurd (mem_cons_of_mem _ mem_cons_self) (hnot 'o' rfl (by decide))
  · exact absurd (mem_cons_of_mem _ mem_cons_self) (hnot 'b' rfl (by decide))
  · rw [hmoment]

theorem not_isExponentMark (h : c.isDigit = true ∨ c = '.') : isExponentMark c = false := by
  rcases h with hdigit | rfl
  · by_contra hmark
    simp only [isExponentMark, Bool.not_eq_false, Bool.or_eq_true, beq_iff_eq] at hmark
    rcases hmark with rfl | rfl <;> cases hdigit
  · rfl

theorem number?_digits (hne : cs ≠ []) (h : ∀ c ∈ cs, c.isDigit = true ∨ c = '.')
    (hhead : ∀ c ∈ cs.head?, c.isDigit = true) :
    number? cs = if cs.contains '.' then float? false cs
    else (whole? cs).bind fun digits => integer? (ofDigits 10 digits) := by
  obtain ⟨c, body, rfl⟩ := exists_cons_of_ne_nil hne
  have hc : c.isDigit = true := hhead c rfl
  have hsign : splitSign (c :: body) = (false, c :: body) := by
    have hminus : c ≠ '-' := by rintro rfl; cases hc
    have hplus : c ≠ '+' := by rintro rfl; cases hc
    simp [splitSign, hminus, hplus]
  have hinf : c ≠ 'i' := by rintro rfl; cases hc
  have hnan : c ≠ 'n' := by rintro rfl; cases hc
  have hany : ((c :: body).any fun d => d == '.' || isExponentMark d) =
      (c :: body).contains '.' := by
    rw [Bool.eq_iff_iff, any_eq_true, contains_iff_mem]
    constructor
    · rintro ⟨d, hd, hpoint⟩
      rw [not_isExponentMark (h d hd), Bool.or_false, beq_iff_eq] at hpoint
      exact hpoint ▸ hd
    · intro hpoint
      exact ⟨'.', hpoint, rfl⟩
  have hinf' : c :: body ≠ ['i', 'n', 'f'] := by simp [hinf]
  have hnan' : c :: body ≠ ['n', 'a', 'n'] := by simp [hnan]
  simp only [number?, hsign, if_neg hinf', if_neg hnan', hany]
  rfl

theorem word?_toDigits (h : n < 0x8000000000000000) :
    word? (Nat.toDigits 10 n) = some (.integer n) := by
  have hdigit : ∀ c ∈ Nat.toDigits 10 n, c.isDigit = true := fun c => isDigit_of_mem_toDigits
  have hpoint : (Nat.toDigits 10 n).contains '.' = false := by
    rw [Bool.eq_false_iff, Ne, contains_iff_mem]
    intro hmem
    cases hdigit '.' hmem
  rw [word?_eq_number? fun c hc => .inl (hdigit c hc),
    number?_digits Nat.toDigits_ne_nil (fun c hc => .inl (hdigit c hc))
      fun c hc => hdigit c (mem_of_mem_head? hc),
    hpoint, if_neg Bool.false_ne_true, whole?_toDigits, Option.bind_some, ofDigits_toDigits,
    integer?,
    if_pos ⟨by omega, by omega⟩]

end Toml

/-! ## Whole numbers of seconds -/

/-- A number is whole when its exact value is a natural number. -/
def Binary64.IsWhole (x : Binary64) (n : Nat) : Prop :=
  ∃ m q, x.parts = .finite false m q ∧ (Binary64.fraction m q).1 = n * (Binary64.fraction m q).2

namespace Decimal

variable {x : Binary64} {n : Nat}

theorem exists_stripZeros (n : Nat) (e : Int) (fuel : Nat) :
    ∃ d k : Nat, stripZeros n e fuel = ⟨d, e + k⟩ ∧ d * 10 ^ k = n := by
  induction fuel generalizing n e with
  | zero => exact ⟨n, 0, by simp [stripZeros], by simp⟩
  | succ fuel ih =>
    unfold stripZeros
    split
    · obtain ⟨d, k, hstrip, hn⟩ := ih (n / 10) (e + 1)
      refine ⟨d, k + 1, ?_, ?_⟩
      · rw [hstrip, Nat.cast_succ, add_assoc, add_comm (1 : Int)]
      rw [pow_succ, ← mul_assoc, hn]
      omega
    · exact ⟨n, 0, by simp, by simp⟩

theorem text_of_isWhole (hx : x.IsWhole n) (hpos : 0 < n) (hlt : n < 0x20000000000000) :
    (text dotted x).toList = Nat.toDigits 10 n ++ ['.', '0'] := by
  obtain ⟨m, q, hparts, hvalue⟩ := hx
  have hden := fraction_snd_pos m q
  have hm : m ≠ 0 := by
    rintro rfl
    have hzero : (fraction 0 q).1 = 0 := by cases q <;> simp [fraction]
    rw [hzero] at hvalue
    exact absurd hvalue (Nat.mul_pos hpos hden).ne
  have hmod : (fraction m q).1 % (fraction m q).2 = 0 := by
    rw [hvalue, Nat.mul_mod_left]
  have hdiv : (fraction m q).1 / (fraction m q).2 = n := by
    rw [hvalue, Nat.mul_div_cancel _ hden]
  obtain ⟨d, k, hstrip, hd⟩ := exists_stripZeros n 0 16
  have hsignificant : significant m q = ⟨d, k⟩ := by
    rw [significant, if_pos ⟨hmod, by rwa [hdiv]⟩, hdiv, hstrip, zero_add]
  have hdpos : 0 < d := Nat.pos_of_ne_zero fun h => by simp [h] at hd; omega
  have hlen : 0 < (Nat.toDigits 10 d).length := length_pos_iff.mpr Nat.toDigits_ne_nil
  have hpositional : positional (Nat.toDigits 10 d) ((Nat.toDigits 10 d).length + k) =
      Nat.toDigits 10 n := by
    rw [positional, if_neg (by omega), if_pos (by omega), ← hd, toDigits_mul_pow hdpos]
    congr 2
    omega
  have hpoint : (Nat.toDigits 10 n).contains '.' = false := by
    rw [Bool.eq_false_iff, Ne, contains_iff_mem]
    intro hmem
    cases isDigit_of_mem_toDigits hmem
  have hrange : ∀ point, dotted.inRange point = true := fun point => rfl
  simp only [text, hparts, Bool.false_eq_true, if_false, nil_append, String.toList_ofList,
    unsignedText, if_neg hm, hsignificant, digitText, hrange, if_true, Int.ofNat_eq_natCast,
    hpositional, hpoint]
  rfl

theorem read_of_isWhole (hx : x.IsWhole n) (hpos : 0 < n) (hlt : n < 0x20000000000000) :
    read false (n * 10) (-1) = x := by
  obtain ⟨m, q, hparts, hvalue⟩ := hx
  have hlength : (digitText (n * 10)).length ≤ 17 :=
    Nat.toDigits_length 10 (n * 10) 17 (by decide) (by omega)
  have hm : fractionSize ≤ m :=
    fractionSize_le hparts (hvalue ▸ Nat.le_mul_of_pos_left _ hpos)
  have hratio : n * 10 * (fraction m q).2 = (fraction m q).1 * 10 := by
    rw [hvalue]
    ring
  have hupper : ¬ 400 < Int.ofNat (digitText (n * 10)).length + -1 := by
    rw [Int.ofNat_eq_natCast]
    omega
  have hlower : ¬ Int.ofNat (digitText (n * 10)).length + -1 < -400 := by
    rw [Int.ofNat_eq_natCast]
    omega
  rw [read, if_neg (by omega), if_neg hupper, if_neg hlower]
  exact ofRatio_eq hparts hm (by decide) (by simpa using hratio)

end Decimal

namespace Toml

variable {x : Binary64} {n : Nat}

/-- The characters of a written whole number. -/
theorem isDigit_or_eq_point (n : Nat) :
    ∀ c ∈ Nat.toDigits 10 n ++ ['.', '0'], c.isDigit = true ∨ c = '.' := by
  intro c hc
  rcases mem_append.mp hc with hc | hc
  · exact .inl (isDigit_of_mem_toDigits hc)
  rcases mem_pair.mp hc with rfl | rfl
  · exact .inr rfl
  · exact .inl rfl

theorem float?_of_isWhole (hx : x.IsWhole n) (hpos : 0 < n)
    (hlt : n < 0x20000000000000) :
    float? false (Nat.toDigits 10 n ++ ['.', '0']) = some (.float x) := by
  have hmark : ∀ c ∈ Nat.toDigits 10 n ++ ['.', '0'], (!isExponentMark c) = true := by
    intro c hc
    rw [not_isExponentMark (isDigit_or_eq_point n c hc)]
    rfl
  have hpoint : ∀ c ∈ Nat.toDigits 10 n, decide (c ≠ '.') = true := by
    intro c hc
    rw [decide_eq_true_iff]
    rintro rfl
    cases isDigit_of_mem_toDigits hc
  obtain ⟨hmantissa, hexponent⟩ :=
    span_append hmark (show ∀ d ∈ ([] : List Char).head?, (!isExponentMark d) = false by simp)
  rw [append_nil] at hmantissa hexponent
  obtain ⟨hwhole, hfraction⟩ :=
    span_append hpoint (show ∀ d ∈ ['.', '0'].head?, decide (d ≠ '.') = false by simp)
  have hvalue : ofDigits 10 (Nat.toDigits 10 n ++ ['0']) = n * 10 := by
    have hdigits := toDigits_mul_pow hpos 1
    rw [pow_one, replicate_one] at hdigits
    rw [← hdigits, ofDigits_toDigits]
  have hfinite : x ≠ infinity false := by
    rintro rfl
    obtain ⟨m, q, hparts, -⟩ := hx
    cases hparts
  have hread : Decimal.read false (n * 10) (0 - ([ '0'].length : Int)) = x :=
    Decimal.read_of_isWhole hx hpos hlt
  have hzero : ungroup? Char.isDigit ['0'] = some ['0'] := rfl
  simp only [float?, hmantissa, hexponent, hwhole, hfraction, whole?_toDigits, hzero,
    Option.bind_eq_bind, Option.bind_some, hvalue, hread, if_neg hfinite]

theorem word?_of_isWhole (hx : x.IsWhole n) (hpos : 0 < n)
    (hlt : n < 0x20000000000000) : word? (Nat.toDigits 10 n ++ ['.', '0']) = some (.float x) := by
  have hne : Nat.toDigits 10 n ++ ['.', '0'] ≠ [] := by simp
  have hhead : ∀ c ∈ (Nat.toDigits 10 n ++ ['.', '0']).head?, c.isDigit = true := by
    rw [List.head?_append_of_ne_nil _ Nat.toDigits_ne_nil]
    exact fun c hc => isDigit_of_mem_toDigits (mem_of_mem_head? hc)
  have hpoint : (Nat.toDigits 10 n ++ ['.', '0']).contains '.' = true := by simp
  rw [word?_eq_number? (isDigit_or_eq_point n), number?_digits hne (isDigit_or_eq_point n) hhead,
    if_pos hpoint, float?_of_isWhole hx hpos hlt]

theorem isWord_of_isDigit_or {c : Char} (h : c.isDigit = true ∨ c = '.') : isWord c = true := by
  rcases h with hdigit | rfl
  · simp [isWord, Char.isAlphanum, hdigit]
  · rfl

theorem readWord_append {word rest : List Char} {v : Value} (hword : ∀ c ∈ word, isWord c = true)
    (hrest : ∀ d ∈ rest.head?, isWord d = false ∧ d ≠ ' ') (hv : word? word = some v) :
    readWord (word ++ rest) = some (v, rest) := by
  obtain ⟨htake, hdrop⟩ := span_append hword fun d hd => (hrest d hd).1
  simp only [readWord, htake, hdrop, hv, Option.bind_eq_bind, Option.bind_some]
  split
  · exact absurd rfl (hrest ' ' rfl).2
  · rfl

end Toml

end Foundry
