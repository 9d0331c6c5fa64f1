import Foundry.Json.Record
import Mathlib.Data.List.Basic
import Mathlib.Tactic.IntervalCases

/-!
# Written strings are read back

A quoted string is read as the string it was made from, whatever follows it. The
reader works on bytes, so each character is followed through its encoding: what is
not escaped has only bytes that the reader keeps, and an escape is read as the
encoding of its character.
-/

namespace Foundry

open List UInt8

/-! ## Bytes of a text -/

theorem byteList_loop (bytes : ByteArray) (i : Nat) (taken : List UInt8) :
    ByteArray.toList.loop bytes i taken = taken.reverse ++ bytes.data.toList.drop i := by
  induction h : bytes.size - i generalizing i taken with
  | zero =>
    have hi : ¬ i < bytes.size := by omega
    have hd : bytes.data.toList.length ≤ i := by
      have : bytes.size = bytes.data.toList.length := rfl
      omega
    rw [ByteArray.toList.loop, if_neg hi, drop_eq_nil_of_le hd, append_nil]
  | succ n ih =>
    have hi : i < bytes.size := by omega
    have hd : i < bytes.data.toList.length := hi
    have hget : bytes.get! i = bytes.data.toList[i] := by
      simp only [ByteArray.get!]
      rw [getElem!_pos bytes.data i hi, Array.getElem_toList]
    rw [ByteArray.toList.loop, if_pos hi, ih (i + 1) _ (by omega), drop_eq_getElem_cons hd, hget]
    simp

theorem byteList_eq (bytes : ByteArray) : bytes.toList = bytes.data.toList :=
  (byteList_loop bytes 0 []).trans (by simp)

/-- The bytes of a text, character by character. -/
def utf8 (cs : List Char) : List UInt8 := cs.flatMap String.utf8EncodeChar

@[simp] theorem utf8_nil : utf8 [] = [] := rfl

@[simp] theorem utf8_cons (c : Char) (cs : List Char) :
    utf8 (c :: cs) = String.utf8EncodeChar c ++ utf8 cs := rfl

@[simp] theorem utf8_append (cs ds : List Char) : utf8 (cs ++ ds) = utf8 cs ++ utf8 ds := by
  simp [utf8]

theorem byteList_toUTF8 (cs : List Char) : (String.ofList cs).toUTF8.toList = utf8 cs := by
  rw [byteList_eq, String.toUTF8_eq_toByteArray, String.toByteArray_ofList]
  exact toList_data_toByteArray

theorem fromUTF8?_toUTF8 (s : String) : String.fromUTF8? s.toUTF8 = some s := by
  simp only [String.fromUTF8?, String.toUTF8_eq_toByteArray, dif_pos s.isValidUTF8]
  rfl

theorem fromUTF8?_utf8 (s : String) : String.fromUTF8? (utf8 s.toList).toByteArray = some s := by
  have h : (utf8 s.toList).toByteArray = s.toUTF8 := String.utf8Encode_toList
  rw [h]
  exact fromUTF8?_toUTF8 s

namespace Json

/-! ## The content of a string -/

/-- Bytes that the reader takes as they are. -/
def IsPlain (b : UInt8) : Prop := b ≠ 34 ∧ b ≠ 92 ∧ ¬ b < 32

theorem scanContent_plain {bytes : Bytes} (h : ∀ b ∈ bytes, IsPlain b) (content rest : Bytes) :
    scanContent content (bytes ++ rest) = scanContent (bytes.reverse ++ content) rest := by
  induction bytes generalizing content with
  | nil => rfl
  | cons b bytes ih =>
    obtain ⟨hq, hs, hc⟩ := h b (by simp)
    have hstep : scanContent content (b :: (bytes ++ rest)) =
        scanContent (b :: content) (bytes ++ rest) := by
      rw [scanContent]
      simp [hq, hs, hc]
    rw [cons_append, hstep, ih fun c hc => h c (by simp [hc])]
    simp

theorem scanContent_escape {out t rest : Bytes} (h : scanEscape t = .ok (out, rest))
    (content : Bytes) :
    scanContent content (92 :: t) = scanContent (out.reverse ++ content) rest := by
  rw [scanContent]
  simp only [show ¬ (92 : UInt8) = 34 by decide, if_false, if_true]
  split <;> rename_i hd <;> rw [h] at hd <;> cases hd
  rfl

theorem isPlain_ofNat {n : Nat} (hn : n < 256) (hq : n ≠ 34) (hs : n ≠ 92) (hc : ¬ n < 32) :
    IsPlain (ofNat n) := by
  have hv : (ofNat n).toNat = n := toNat_ofNat_of_lt hn
  refine ⟨fun h => hq ?_, fun h => hs ?_, fun h => hc ?_⟩
  · rw [h] at hv
    exact hv.symm
  · rw [h] at hv
    exact hv.symm
  have hlt := lt_iff_toNat_lt.mp h
  rw [hv] at hlt
  exact hlt

/-- All bytes of a character beyond the escaped ones are plain. -/
theorem isPlain_of_mem_encode {c : Char} (hq : c ≠ '"') (hs : c ≠ '\\') (hc : ¬ c.toNat < 0x20)
    {b : UInt8} (hb : b ∈ String.utf8EncodeChar c) : IsPlain b := by
  have hq' : c.val.toNat ≠ 34 := fun h => hq (Char.toNat_inj.mp h)
  have hs' : c.val.toNat ≠ 92 := fun h => hs (Char.toNat_inj.mp h)
  have hc' : ¬ c.val.toNat < 32 := hc
  unfold String.utf8EncodeChar at hb
  dsimp only at hb
  split at hb
  · simp only [mem_singleton] at hb
    rw [hb]
    exact isPlain_ofNat (by omega) hq' hs' hc'
  · split at hb
    · simp only [mem_cons, not_mem_nil, or_false] at hb
      rcases hb with rfl | rfl <;> apply isPlain_ofNat <;> omega
    split at hb
    · simp only [mem_cons, not_mem_nil, or_false] at hb
      rcases hb with rfl | rfl | rfl <;> apply isPlain_ofNat <;> omega
    simp only [mem_cons, not_mem_nil, or_false] at hb
    rcases hb with rfl | rfl | rfl | rfl <;> apply isPlain_ofNat <;> omega

/-! ## Spellings -/

/-- A hexadecimal digit in either case. -/
def IsHex (n : Nat) (b : UInt8) : Prop :=
  n < 10 ∧ b.toNat = 48 + n ∨ 10 ≤ n ∧ n < 16 ∧ (b.toNat = 87 + n ∨ b.toNat = 55 + n)

/-- Four hexadecimal digits at the front of a text. -/
def Hex4 (n : Nat) (t rest : Bytes) : Prop := ∃ a b c d w x y z, t = a :: b :: c :: d :: rest ∧
  IsHex w a ∧ IsHex x b ∧ IsHex y c ∧ IsHex z d ∧ n = ((w * 16 + x) * 16 + y) * 16 + z

/-- The letters of short escapes. -/
def shortEscapes : List (UInt8 × Char) :=
  [(34, '"'), (92, '\\'), (47, '/'), (98, '\x08'), (102, '\x0c'), (110, '\n'), (114, '\r'),
    (116, '\t')]

/-- Characters at the front of a text, up to a closing quote, each in any of its spellings. -/
inductive Spells : List Char → Bytes → Bytes → Prop
  | quote (rest : Bytes) : Spells [] (34 :: rest) rest
  | plain {c : Char} {cs : List Char} {t rest : Bytes} (hq : c ≠ '"') (hs : c ≠ '\\')
      (hc : ¬ c.toNat < 0x20)
      (h : Spells cs t rest) : Spells (c :: cs) (String.utf8EncodeChar c ++ t) rest
  | short {b : UInt8} {c : Char} {cs : List Char} {t rest : Bytes} (hb : (b, c) ∈ shortEscapes)
      (h : Spells cs t rest) : Spells (c :: cs) (92 :: b :: t) rest
  | unit {c : Char} {cs : List Char} {t u rest : Bytes} (hu : Hex4 c.toNat u t)
      (h : Spells cs t rest) : Spells (c :: cs) (92 :: 117 :: u) rest
  | pair {c : Char} {lead trail : Nat} {cs : List Char} {t u v rest : Bytes}
      (hu : Hex4 lead u (92 :: 117 :: v))
      (hv : Hex4 trail v t) (hlead : 0xD800 ≤ lead ∧ lead ≤ 0xDBFF)
      (htrail : 0xDC00 ≤ trail ∧ trail ≤ 0xDFFF)
      (hc : c.toNat = (lead - 0xD800) * 1024 + (trail - 0xDC00) + 0x10000) (h : Spells cs t rest) :
      Spells (c :: cs) (92 :: 117 :: u) rest

variable {c : Char} {cs : List Char} {n : Nat} {t rest : Bytes}

theorem IsHex.hexDigit?_eq {b : UInt8} (h : IsHex n b) : hexDigit? b = some n := by
  unfold hexDigit? IsHex at *
  simp only [le_iff_toNat_le, toNat_ofNat]
  grind

theorem Hex4.scanHex_eq (h : Hex4 n t rest) : scanHex t = .ok (n, rest) := by
  obtain ⟨a, b, c, d, w, x, y, z, rfl, ha, hb, hc, hd, rfl⟩ := h
  simp only [scanHex, ha.hexDigit?_eq, hb.hexDigit?_eq, hc.hexDigit?_eq, hd.hexDigit?_eq]

theorem scanEscape_short {b : UInt8} (h : (b, c) ∈ shortEscapes) (t : Bytes) :
    scanEscape (b :: t) = .ok (String.utf8EncodeChar c, t) := by
  simp only [shortEscapes, mem_cons, Prod.mk.injEq, not_mem_nil, or_false] at h
  rcases h with ⟨rfl, rfl⟩ | ⟨rfl, rfl⟩ | ⟨rfl, rfl⟩ | ⟨rfl, rfl⟩ | ⟨rfl, rfl⟩ | ⟨rfl, rfl⟩ |
    ⟨rfl, rfl⟩ | ⟨rfl, rfl⟩ <;> rfl

/-- However a string is spelled, its characters are read as their bytes. -/
theorem scanContent_spells (h : Spells cs t rest) (content : Bytes) :
    scanContent content t = .ok (content.reverse ++ utf8 cs, rest) := by
  have hencode (c : Char) : encodeScalar c.toNat = String.utf8EncodeChar c := by rw [encodeScalar,
    Char.ofNat_toNat]
  induction h generalizing content with
  | quote rest =>
    rw [scanContent]
    simp
  | plain hq hs hc _ ih =>
    rw [scanContent_plain (fun b hb => isPlain_of_mem_encode hq hs hc hb), ih]
    simp
  | short hb _ ih =>
    rw [scanContent_escape (scanEscape_short hb _), ih]
    simp
  | @unit c _ t u _ hu _ ih =>
    have hscan : scanEscape (117 :: u) = .ok (String.utf8EncodeChar c, t) := by
      have hvalid : c.toNat < 0xD800 ∨ 0xDFFF < c.toNat := c.valid.imp id And.left
      have hlone : (0xDC00 ≤ c.toNat && c.toNat ≤ 0xDFFF) = false := by simp; omega
      have hfree : (c.toNat < 0xD800 || 0xDBFF < c.toNat) = true := by simp; omega
      simp [scanEscape, scanUnicode, hu.scanHex_eq, bind, Except.bind, hlone, hfree, hencode]
    rw [scanContent_escape hscan, ih]
    simp
  | @pair c lead trail _ t u v _ hu hv hlead htrail hc _ ih =>
    have hscan : scanEscape (117 :: u) = .ok (String.utf8EncodeChar c, t) := by
      have hlone : (0xDC00 ≤ lead && lead ≤ 0xDFFF) = false := by simp; omega
      have hfree : (lead < 0xD800 || 0xDBFF < lead) = false := by simp; omega
      have htrailing : (trail < 0xDC00 || 0xDFFF < trail) = false := by simp; omega
      simp [scanEscape, scanUnicode, hu.scanHex_eq, bind, Except.bind, hlone, hfree, scanTrailing,
        hv.scanHex_eq, htrailing, ← hc, hencode]
    rw [scanContent_escape hscan, ih]
    simp

/-- What is written for a character is one of its spellings. -/
theorem Spells.escape (h : Spells cs t rest) (c : Char) :
    Spells (c :: cs) (utf8 (escape c) ++ t) rest := by
  by_cases hsimple : c ∈ ['"', '\\', '\x08', '\x0c', '\n', '\r', '\t']
  · simp only [mem_cons, not_mem_nil, or_false] at hsimple
    rcases hsimple with rfl | rfl | rfl | rfl | rfl | rfl | rfl <;> exact .short (by decide) h
  simp only [mem_cons, not_mem_nil, or_false, not_or] at hsimple
  obtain ⟨hq, hs, hb, hf, hn, hr, ht⟩ := hsimple
  by_cases hc : c.toNat < 0x20
  · have he : Json.escape c = unicodeEscape c := by simp [Json.escape, hq, hs, hb, hf, hn, hr, ht,
      hc]
    have hdigit : ∀ n < 16, ∃ b, String.utf8EncodeChar (Hex.digit n) = [b] ∧ IsHex n b := by
      intro n hn
      unfold IsHex
      interval_cases n <;> exact ⟨_, rfl, by decide⟩
    obtain ⟨y, hy, hy'⟩ := hdigit (c.toNat / 16) (by omega)
    obtain ⟨z, hz, hz'⟩ := hdigit (c.toNat % 16) (by omega)
    have hdigits :
        Hex4 c.toNat (48 :: 48 :: (utf8 [Hex.digit (c.toNat / 16), Hex.digit (c.toNat % 16)] ++ t))
          t :=
      ⟨48, 48, y, z, 0, 0, _, _, by simp [hy, hz], .inl (by decide), .inl (by decide), hy',
        hz', by omega⟩
    rw [he]
    exact .unit hdigits h
  · have he : Json.escape c = [c] := by simp [Json.escape, hq, hs, hb, hf, hn, hr, ht, hc]
    rw [he, utf8_cons, utf8_nil, append_nil]
    exact .plain hq hs hc h

theorem spells_escaped (cs : List Char) (rest : Bytes) :
    Spells cs (utf8 (cs.flatMap escape) ++ 34 :: rest) rest := by
  induction cs with
  | nil => exact .quote rest
  | cons c cs ih =>
    rw [flatMap_cons, utf8_append, append_assoc]
    exact ih.escape c

/-! ## Strings -/

theorem scanString_spells (h : Spells cs t rest) : scanString t = .ok (String.ofList cs, rest) := by
  have htext := fromUTF8?_utf8 (String.ofList cs)
  rw [String.toList_ofList] at htext
  unfold scanString
  rw [scanContent_spells h]
  simp only [reverse_nil, nil_append, bind, Except.bind]
  rw [htext]

theorem scanString_escaped (s : String) (rest : Bytes) :
    scanString (utf8 (s.toList.flatMap escape) ++ 34 :: rest) = .ok (s, rest) := by
  rw [scanString_spells (spells_escaped _ rest), String.ofList_toList]

theorem utf8_quote (s : String) :
    utf8 (quote s) = 34 :: (utf8 (s.toList.flatMap escape) ++ [34]) := by
  have hq : String.utf8EncodeChar '"' = [34] := rfl
  simp [quote, hq]

/-- A quoted string is read back, whatever follows. -/
theorem readText_quote (expected s : String) (rest : Bytes) :
    readText expected (utf8 (quote s) ++ rest) = .ok (s, rest) := by
  have hskip : ∀ bytes : Bytes, skipSpace (34 :: bytes) = 34 :: bytes := fun _ => rfl
  have hbytes : utf8 (quote s) ++ rest = 34 :: (utf8 (s.toList.flatMap escape) ++ 34 :: rest) := by
    rw [utf8_quote]
    simp
  rw [hbytes, readText, hskip]
  exact scanString_escaped s rest

end Json

end Foundry
