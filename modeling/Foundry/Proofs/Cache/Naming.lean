import Foundry.Proofs.Cache.Soundness
import Foundry.Proofs.Files.Shelves
import Mathlib.Data.Nat.Digits.Defs

/-!
# Names of cache files

Digests and fresh identifiers are runs of hexadecimal digits of a fixed length. So the
names that the cache makes of them are of bounded length and have no unusual
characters in them: in a directory whose own path is not too long, none is refused.
-/

namespace Foundry

open List

/-- As many hexadecimal digits. -/
structure IsHex (n : Nat) (s : String) : Prop where
  length_eq : s.toList.length = n
  digit : ∀ ch ∈ s.toList, ch ∈ "0123456789abcdef".toList

theorem utf8ByteSize_ofList {cs : List Char} (h : ∀ ch ∈ cs, ch.utf8Size = 1) :
    (String.ofList cs).utf8ByteSize = cs.length := by
  induction cs with
  | nil => rfl
  | cons ch rest ih =>
    have hrest := ih fun c hc => h c (mem_cons_of_mem _ hc)
    rw [String.ofList_cons, String.utf8ByteSize_append, String.utf8ByteSize_singleton, hrest,
      h ch mem_cons_self, length_cons, Nat.add_comm]

namespace IsHex

variable {n : Nat} {s : String}

theorem utf8ByteSize_eq (h : IsHex n s) : s.utf8ByteSize = n := by
  have hall : ("0123456789abcdef".toList.all fun ch => ch.utf8Size == 1) = true := by decide
  have hsize (ch : Char) (hch : ch ∈ s.toList) : ch.utf8Size = 1 := by
    simpa using all_eq_true.mp hall ch (h.digit ch hch)
  have hbytes := utf8ByteSize_ofList hsize
  rw [String.ofList_toList] at hbytes
  rw [hbytes, h.length_eq]

theorem notMem (h : IsHex n s) {ch : Char} (hch : ch ∉ "0123456789abcdef".toList) : ch ∉ s.toList :=
  fun hmem => hch (h.digit ch hmem)

end IsHex

theorem hexDigit_mem {n : Nat} (h : n < 16) : Hex.digit n ∈ "0123456789abcdef".toList := by
  revert n
  decide

theorem isHex_contentHash (source : String) : IsHex 64 (contentHash source) := by
  have hbytes (bytes : List UInt8) : (bytes.flatMap Hex.ofByte).length = 2 * bytes.length := by
    induction bytes with
    | nil => rfl
    | cons b rest ih =>
      rw [flatMap_cons, length_append, ih, length_cons]
      simp only [Hex.ofByte, length_cons, length_nil]
      omega
  constructor
  · rw [contentHash, Sha256.hex, Hex.ofBytes, String.toList_ofList, hbytes]
    rfl
  intro ch hch
  rw [contentHash, Sha256.hex, Hex.ofBytes, String.toList_ofList] at hch
  obtain ⟨b, -, hmem⟩ := mem_flatMap.mp hch
  have hlt : b.toNat < 256 := b.toNat_lt
  simp only [Hex.ofByte, mem_cons, not_mem_nil, or_false] at hmem
  rcases hmem with rfl | rfl
  · exact hexDigit_mem (by omega)
  · exact hexDigit_mem (by omega)

theorem toDigits_hex (n : Nat) : ∀ ch ∈ Nat.toDigits 16 n, ch ∈ "0123456789abcdef".toList := by
  have hdigit : ∀ d, d < 16 → Nat.digitChar d ∈ "0123456789abcdef".toList := by decide
  induction n using Nat.strong_induction_on with
  | h n ih =>
    intro ch hch
    by_cases hn : n < 16
    · rw [Nat.toDigits_of_lt_base hn, mem_singleton] at hch
      exact hch ▸ hdigit n hn
    rw [Nat.toDigits_of_base_le (by decide) (by omega), mem_append, mem_singleton] at hch
    rcases hch with hch | rfl
    · exact ih (n / 16) (by omega) ch hch
    · exact hdigit _ (Nat.mod_lt n (by decide))

theorem isHex_freshId (k : Kernel) : IsHex 32 k.freshId.1 := by
  unfold Kernel.freshId
  generalize hmixed : (k.takeFresh.1 * 0x9E3779B97F4A7C15F39CC0605CEDC835 %
    0x100000000000000000000000000000000) = mixed
  have hlt : mixed < 16 ^ 32 := by
    rw [← hmixed]
    exact Nat.mod_lt _ (by decide)
  have hlength := Nat.toDigits_length 16 mixed 32 (by decide) hlt
  constructor
  · simp only [String.toList_ofList, length_append, length_replicate, hmixed]
    omega
  intro ch hch
  simp only [String.toList_ofList, hmixed, mem_append] at hch
  rcases hch with hzero | hch
  · rw [eq_of_mem_replicate hzero]
    decide
  · exact toDigits_hex mixed ch hch

namespace Cache

/-- The name of the file for a hash. -/
def fileName (hash : String) : String := hash ++ "." ++ extension

def draftName (hash id : String) : String := "." ++ hash ++ "." ++ id ++ ".tmp"

/-- A directory whose path leaves room for the names of the cache. -/
structure IsRoomy (dir : String) : Prop where
  sound : '\x00' ∉ dir.toList
  short : dir.utf8ByteSize + 103 ≤ Files.maxPath

theorem fileName_inj {a b : String} : fileName a = fileName b ↔ a = b := by
  rw [fileName, fileName, String.append_assoc, String.append_assoc, String.append_left_inj]

theorem isEntryName_fileName {hash : String} (h : IsHex 64 hash) :
    isEntryName (fileName hash) = true := by
  have hlast : ∃ ch rest, hash.toList.reverse = ch :: rest := by
    cases hrev : hash.toList.reverse with
    | nil =>
      have hlength := h.length_eq
      rw [← length_reverse, hrev] at hlength
      cases hlength
    | cons ch rest => exact ⟨ch, rest, rfl⟩
  obtain ⟨ch, rest, hrev⟩ := hlast
  have hchars : (fileName hash).toList.reverse = "nosj".toList ++ '.' :: (ch :: rest) := by
    simp [fileName, extension, ← hrev]
  have hext : ("nosj".toList ++ '.' :: (ch :: rest)).takeWhile (· ≠ '.') = "nosj".toList := rfl
  have hdrop : ("nosj".toList ++ '.' :: (ch :: rest)).drop "nosj".toList.length = '.' :: ch ::
      rest := rfl
  have hdots : fileName hash ≠ ".." := by
    intro heq
    have hlength := congrArg (fun s => s.toList.length) heq
    simp [fileName, extension] at hlength
  simp only [isEntryName, Path.extension?, hchars, hext, hdrop, hdots, if_false]
  rfl

variable {dir hash id : String}

theorem IsRoomy.fits (hdir : IsRoomy dir) {name : String} (hname : Path.IsName name)
    (hsound : '\x00' ∉ name.toList) (hsize : name.utf8ByteSize ≤ 102) : Files.Fits dir name := by
  have hpath : (Path.join dir name).utf8ByteSize ≤ dir.utf8ByteSize + 1 + name.utf8ByteSize ∧
      '\x00' ∉ (Path.join dir name).toList := by
    have hslash : ("/" : String).utf8ByteSize = 1 := rfl
    unfold Path.join
    split
    · exact ⟨by omega, hsound⟩
    split
    · simp only [String.utf8ByteSize_append, String.toList_append, mem_append, not_or]
      exact ⟨by omega, hdir.sound, hsound⟩
    simp only [String.utf8ByteSize_append, String.toList_append, mem_append, not_or, hslash]
    exact ⟨le_refl _, ⟨hdir.sound, by decide⟩, hsound⟩
  have hshort := hdir.short
  refine ⟨hname, ?_, ?_, ?_, ?_⟩
  · have hmax : Files.maxName = 255 := rfl
    omega
  · simpa using hpath.2
  · simpa using Path.join_ne_empty hname
  · omega

theorem isStem_of_isHex {n : Nat} {s : String} (h : IsHex n s) : Service.IsStem s :=
  h.notMem (by decide)

theorem fits_fileName (hdir : IsRoomy dir) (h : IsHex 64 hash) :
    Files.Fits dir (fileName hash) := by
  refine hdir.fits (Service.isName_entry (isStem_of_isHex h)) ?_ ?_
  · simp only [fileName, String.toList_append, mem_append, not_or]
    exact ⟨⟨h.notMem (by decide), by decide⟩, by decide⟩
  have hdot : (".").utf8ByteSize = 1 := rfl
  have hext : extension.utf8ByteSize = 4 := rfl
  rw [fileName, String.utf8ByteSize_append, String.utf8ByteSize_append, h.utf8ByteSize_eq, hdot,
    hext]
  omega

theorem fits_draftName (hdir : IsRoomy dir) (h : IsHex 64 hash) (hid : IsHex 32 id) :
    Files.Fits dir (draftName hash id) := by
  refine hdir.fits (Service.isName_draft (isStem_of_isHex h) (isStem_of_isHex hid)) ?_ ?_
  · simp only [draftName, String.toList_append, mem_append, not_or]
    exact ⟨⟨⟨⟨by decide, h.notMem (by decide)⟩, by decide⟩, hid.notMem (by decide)⟩, by decide⟩
  have hdot : (".").utf8ByteSize = 1 := rfl
  have htmp : (".tmp").utf8ByteSize = 4 := rfl
  simp only [draftName, String.utf8ByteSize_append, h.utf8ByteSize_eq, hid.utf8ByteSize_eq, hdot,
    htmp]
  omega

/-- A draft is no entry: the names differ in their last letter. -/
theorem draftName_ne_fileName (hash id other : String) : draftName hash id ≠ fileName other := by
  intro heq
  have hdraft : (draftName hash id).toList.getLast? = some 'p' := by
    rw [draftName, String.toList_append, List.getLast?_append_of_ne_nil _ (by decide)]
    rfl
  have hfile : (fileName other).toList.getLast? = some 'n' := by
    rw [fileName, String.toList_append, List.getLast?_append_of_ne_nil _ (by decide)]
    rfl
  rw [heq, hfile] at hdraft
  exact absurd hdraft (by decide)

end Cache

end Foundry
