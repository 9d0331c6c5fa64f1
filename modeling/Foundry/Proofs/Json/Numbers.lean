import Foundry.Proofs.Json.Grammar
import Foundry.Proofs.Toml.Words

/-!
# Written numbers

What is written for a finite number is a number of the grammar: its digits do not start with a zero
unless that is its whole part, and there are digits on both sides of a point.
-/

namespace Foundry

open List Decimal Binary64

namespace Decimal

variable {i : Interval} {s : Scaled} {m : Nat} {e q : Int}

/-! ## Significant digits -/

end Decimal

namespace Json

variable {cs : List Char} {point : Int}

/-! ## Texts of numbers -/

/-- A text without control characters. -/
def IsShown (cs : List Char) : Prop := ∀ c ∈ cs, 32 ≤ c.toNat

instance (cs : List Char) : Decidable (IsShown cs) := decidableBAll _ cs

/-- Some digits in a text. -/
def HasDigits (cs : List Char) : Prop := cs ≠ [] ∧ ∀ c ∈ cs, c.isDigit = true

theorem utf8_digit {c : Char} (h : c.isDigit = true) :
    32 ≤ c.toNat ∧ ∃ b, String.utf8EncodeChar c = [b] ∧ isDigit b = true ∧ (b = 48 → c = '0') := by
  have hall : ∀ n < 58, 48 ≤ n → String.utf8EncodeChar (Char.ofNat n) = [UInt8.ofNat n] ∧
      isDigit (UInt8.ofNat n) = true ∧ (UInt8.ofNat n = 48 → Char.ofNat n = '0') := by decide
  have hrange : 48 ≤ c.toNat ∧ c.toNat ≤ 57 := by simpa [Char.isDigit, UInt32.le_iff_toNat_le]
    using h
  have hbyte := hall c.toNat (by omega) hrange.1
  rw [Char.ofNat_toNat] at hbyte
  exact ⟨by omega, _, hbyte⟩

theorem HasDigits.utf8 (h : HasDigits cs) :
    IsShown cs ∧ IsDigits (utf8 cs) ∧ (cs.head? ≠ some '0' → IsWhole (utf8 cs)) := by
  have hdigits : ∀ b ∈ Foundry.utf8 cs, isDigit b = true := by
    intro b hb
    obtain ⟨c, hc, hb⟩ := mem_flatMap.mp hb
    obtain ⟨-, d, hd, hdigit, -⟩ := utf8_digit (h.2 c hc)
    rw [hd, mem_singleton] at hb
    rwa [hb]
  refine ⟨fun c hc => (utf8_digit (h.2 c hc)).1, ?_⟩
  obtain ⟨c, cs, rfl⟩ := exists_cons_of_ne_nil h.1
  obtain ⟨-, b, hb, -, hzero⟩ := utf8_digit (h.2 c mem_cons_self)
  have hsome : IsDigits (Foundry.utf8 (c :: cs)) := ⟨by simp [hb], hdigits⟩
  exact ⟨hsome, fun hhead => .inr ⟨hsome, by simpa [hb] using fun h => hhead (by simp [hzero h])⟩⟩

end Json

end Foundry
