import Foundry.Proofs.Number.Values
import Foundry.Proofs.Service.Balance
import Mathlib.Data.List.DropRight
import Mathlib.Data.String.Basic

/-!
# The most recent samples

Whatever is recorded under other names, a name keeps its last samples in the order in which they
came, as many as there is room for. The figures of one name and those of all names come from them.
-/

namespace Foundry

open List

/-! ## Seconds -/

namespace Binary64

/-- A number with the sign of a span of time. -/
def IsSpan (x : Binary64) : Prop := x.isNegative = false ∧ x.isNaN = false

variable {x y : Binary64}

theorem isSpan_ofMagnitude {n : Nat} (h : n ≤ infinityMagnitude) :
    (ofMagnitude false n).IsSpan := by
  have hlt : infinityMagnitude < signBit ∧ signBit < 2 ^ 64 := by decide
  have hbits : (ofMagnitude false n).bits.toNat = n :=
    UInt64.toNat_ofNat_of_lt' (show n < 2 ^ 64 by omega)
  simp only [IsSpan, isNegative, isNaN, magnitude, hbits, decide_eq_false_iff_not]
  rw [Nat.mod_eq_of_lt (by omega)]
  omega

theorem isSpan_ofRatio (num den : Nat) : (ofRatio false num den).IsSpan := by
  unfold ofRatio
  dsimp only
  split_ifs
  · exact isSpan_ofMagnitude (Nat.zero_le _)
  · exact isSpan_ofMagnitude le_rfl
  · exact isSpan_ofMagnitude (by omega)

theorem IsSpan.parts_cases (h : x.IsSpan) :
    x.parts = .infinity false ∨ ∃ m q, x.parts = .finite false m q := by
  obtain ⟨hsign, hnan⟩ := h
  rcases (Nat.not_lt.mp (of_decide_eq_false hnan)).eq_or_lt with heq | hlt
  · left
    rw [parts, heq, hsign]
    rfl
  · obtain ⟨m, q, hparts, -⟩ := exists_parts hlt
    exact .inr ⟨m, q, hsign ▸ hparts⟩

theorem IsSpan.add (hx : x.IsSpan) (hy : y.IsSpan) : (x.add y).IsSpan := by
  unfold Binary64.add
  rcases hx.parts_cases with hx | ⟨m, q, hx⟩ <;> rcases hy.parts_cases with hy | ⟨n, r, hy⟩ <;>
    simp only [hx, hy]
  · exact isSpan_ofMagnitude le_rfl
  · exact isSpan_ofMagnitude le_rfl
  · exact isSpan_ofMagnitude le_rfl
  simp only [signed, Bool.false_eq_true, if_false]
  split
  · exact isSpan_ofMagnitude (Nat.zero_le _)
  rw [decide_eq_false (by simp; positivity)]
  exact isSpan_ofRatio _ _

end Binary64

/-- The seconds of a span are a number, and not a negative one. -/
theorem Duration.isSpan_toSeconds (d : Duration) : d.toSeconds.IsSpan := by
  obtain ⟨n, r, hsecond, hn⟩ : ∃ n r, (Binary64.ofNat perSecond).parts = .finite false n r ∧
    n ≠ 0 :=
    ⟨8388608000000000, -23, by decide +kernel, by decide⟩
  refine (Binary64.isSpan_ofRatio _ _).add ?_
  unfold Binary64.div
  rcases (Binary64.isSpan_ofRatio d.fraction 1).parts_cases with h | ⟨m, q, h⟩ <;>
    simp only [Binary64.ofNat.eq_1 d.fraction, h, hsecond, if_neg hn]
  · exact Binary64.isSpan_ofMagnitude le_rfl
  · exact Binary64.isSpan_ofRatio _ _

namespace Metrics

variable {m : Metrics} {name : String}

/-! ## Series -/

/-- What is left of calls that record one sample after another, each under its name. -/
def recorded (capacity : Nat) (calls : List (String × Duration)) : Metrics :=
  calls.foldl (fun m call => m.record call.1 call.2) (ofCapacity capacity)

/-- The samples that were recorded under a name, oldest first. -/
def given (calls : List (String × Duration)) (name : String) : List Duration :=
  calls.filterMap fun call => if call.1 = name then some call.2 else none

/-- A full series drops its oldest sample for a new one. -/
theorem push_rtake (n : Nat) (series : List Duration) (d : Duration) :
    push (n + 1) (series.rtake (n + 1)) d = (series ++ [d]).rtake (n + 1) := by
  rw [rtake_concat_succ, push]
  congr 1
  simp only [rtake, length_drop, drop_drop]
  split
  · congr 1
    omega
  · rw [show series.length - (n + 1) = series.length - n by omega]

/-- The names of the series stand in ascending order. -/
def IsSorted (m : Metrics) : Prop := m.series.Pairwise fun a b => a.1 < b.1

variable {α : Type} {series : List (String × α)}

theorem mem_insertSorted {value : α} {x : String × α} (h : x ∈ insertSorted name value series) :
    x = (name, value) ∨ x ∈ series := by
  induction series with
  | nil => simpa [insertSorted] using h
  | cons y series ih =>
    unfold insertSorted at h
    split_ifs at h <;> grind

theorem pairwise_insertSorted (value : α) (h : series.Pairwise fun a b => a.1 < b.1) :
    (insertSorted name value series).Pairwise fun a b => a.1 < b.1 := by
  induction h with
  | nil => simp [insertSorted]
  | @cons x series hx hrest ih =>
    unfold insertSorted
    split_ifs with hname hlt
    · subst hname
      exact .cons hx hrest
    · exact .cons (forall_mem_cons.mpr ⟨hlt, fun y hy => hlt.trans (hx y hy)⟩) (.cons hx hrest)
    refine .cons (fun y hy => ?_) ih
    rcases mem_insertSorted hy with rfl | hy
    · exact lt_of_le_of_ne (not_lt.mp hlt) (Ne.symm hname)
    · exact hx y hy

/-- One after another, the calls keep the room, the order of the names and the last samples of
each. -/
theorem recorded_keeps (capacity : Nat) (calls : List (String × Duration)) :
    (recorded capacity calls).capacity = max capacity 1 ∧ (recorded capacity calls).IsSorted ∧
    ∀ name, (recorded capacity calls).samples name = (given calls name).rtake (max capacity 1) := by
  induction calls using reverseRecOn with
  | nil => exact ⟨rfl, .nil, fun _ => by simp [given, recorded, samples, ofCapacity, rtake]⟩
  | append_singleton calls call ih =>
    obtain ⟨hcapacity, hsorted, hsamples⟩ := ih
    have hstep : recorded capacity (calls ++ [call]) = (recorded capacity calls).record call.1
        call.2 := by
      simp [recorded]
    rw [hstep]
    refine ⟨hcapacity, pairwise_insertSorted _ hsorted, fun name => ?_⟩
    rw [samples_record, hcapacity, hsamples, hsamples]
    split_ifs with hname
    · obtain ⟨n, hn⟩ : ∃ n, max capacity 1 = n + 1 := ⟨max capacity 1 - 1, by omega⟩
      rw [hn, push_rtake, hname]
      simp [given]
    · simp [given, Ne.symm hname]

/-! ## Figures -/

/-- The figures count the samples, and have the least and the greatest of them. -/
structure Summary.Spans (s : Summary) (seconds : List Binary64) : Prop where
  count : s.count = seconds.length
  min_mem : s.min ∈ seconds
  max_mem : s.max ∈ seconds
  between : ∀ x ∈ seconds, s.min.le x = true ∧ x.le s.max = true

theorem ofSorted?_spans {sorted : List Binary64} (h : sorted.Pairwise fun x y => x.key ≤ y.key)
    (hnan : ∀ x ∈ sorted, x.isNaN = false) : (Summary.ofSorted? sorted = none ↔ sorted = []) ∧
    ∀ s, Summary.ofSorted? sorted = some s → s.Spans sorted := by
  unfold Summary.ofSorted?
  split
  · rename_i least greatest hhead hlast
    obtain ⟨rest, hfirst⟩ := head?_eq_some_iff.mp hhead
    obtain ⟨before, hlast⟩ := getLast?_eq_some_iff.mp hlast
    have hleast : least ∈ sorted := by simp [hfirst]
    have hgreatest : greatest ∈ sorted := by simp [hlast]
    refine ⟨by simp [hfirst], ?_⟩
    rintro s ⟨⟩
    refine ⟨rfl, hleast, hgreatest, fun x hx => ?_⟩
    have hmin : least.key ≤ x.key := by
      rw [hfirst] at h hx
      rcases mem_cons.mp hx with rfl | hx
      · exact le_rfl
      · exact (pairwise_cons.mp h).1 x hx
    have hmax : x.key ≤ greatest.key := by
      rw [hlast] at h hx
      rcases mem_append.mp hx with hx | hx
      · exact (pairwise_append.mp h).2.2 x hx greatest mem_cons_self
      · rw [mem_singleton.mp hx]
    simp [Binary64.le, hnan x hx, hnan least hleast, hnan greatest hgreatest, hmin, hmax]
  · rename_i hnone
    have hnil : sorted = [] := by
      by_contra hne
      exact hnone _ _ (head?_eq_some_head hne) (getLast?_eq_some_getLast hne)
    simp [hnil]

theorem ofSamples?_spans (samples : List Duration) :
    (Summary.ofSamples? samples = none ↔ samples = []) ∧
    ∀ s, Summary.ofSamples? samples = some s → s.Spans (samples.map Duration.toSeconds) := by
  have hperm : ascending (samples.map Duration.toSeconds) ~ samples.map Duration.toSeconds :=
    mergeSort_perm _ _
  have htrans (x y z : Binary64) : decide (x.key ≤ y.key) = true → decide (y.key ≤ z.key) = true →
      decide (x.key ≤ z.key) = true := by
    simpa using le_trans
  have htotal (x y : Binary64) : (decide (x.key ≤ y.key) || decide (y.key ≤ x.key)) = true := by
    simpa using le_total x.key y.key
  have hnan : ∀ x ∈ ascending (samples.map Duration.toSeconds), x.isNaN = false := by
    simpa [hperm.mem_iff] using fun d (_ : d ∈ samples) => d.isSpan_toSeconds.2
  obtain ⟨hnone, hspans⟩ :=
    ofSorted?_spans ((pairwise_mergeSort htrans htotal _).imp of_decide_eq_true) hnan
  refine ⟨hnone.trans ?_, fun s hs => ?_⟩
  · rw [← length_eq_zero_iff, length_mergeSort, length_map, length_eq_zero_iff]
  obtain ⟨hcount, hmin, hmax, hbetween⟩ := hspans s hs
  exact ⟨hcount.trans hperm.length_eq, hperm.mem_iff.mp hmin, hperm.mem_iff.mp hmax,
    fun x hx => hbetween x (hperm.mem_iff.mpr hx)⟩

theorem find?_eq_some_of_mem (h : series.Pairwise fun a b => a.1 < b.1) {x : String × α}
    (hx : x ∈ series) : (series.find? fun y => y.1 == x.1) = some x := by
  induction h with
  | nil => cases hx
  | @cons y series hy hrest ih =>
    rcases mem_cons.mp hx with rfl | hx
    · simp
    · simp [(hy x hx).ne, ih hx]

/-- All figures are those of one name after another. -/
theorem mem_summaries (h : m.IsSorted) (s : Summary) :
    (name, s) ∈ m.summaries ↔ m.summary? name = some s := by
  simp only [summaries, mem_filterMap, Option.map_eq_some_iff, Prod.mk.injEq]
  constructor
  · rintro ⟨x, hx, _, hs, rfl, rfl⟩
    rw [summary?, samples, find?_eq_some_of_mem h hx]
    exact hs
  · intro hs
    unfold summary? samples at hs
    cases hfind : m.series.find? fun y => y.1 == name with
    | none =>
      rw [hfind] at hs
      cases (ofSamples?_spans []).1.mpr rfl ▸ hs
    | some x =>
      rw [hfind] at hs
      exact ⟨x, mem_of_find?_eq_some hfind, s, hs, by simpa using find?_some hfind, rfl⟩

/-- A name keeps its last samples, and all figures are those of what the names keep. -/
theorem keeps_most_recent_samples (capacity : Nat) (calls : List (String × Duration)) :
    (∀ name, (recorded capacity calls).samples name =
        (given calls name).rtake (min (given calls name).length (max capacity 1)) ∧
      ((recorded capacity calls).summary? name = none ↔ given calls name = []) ∧
      (∀ s, (recorded capacity calls).summary? name = some s →
        s.count = min (given calls name).length (max capacity 1) ∧
        s.Spans (((recorded capacity calls).samples name).map Duration.toSeconds)) ∧
      ((∃ s, (name, s) ∈ (recorded capacity calls).summaries) ↔ ∃ d, (name, d) ∈ calls) ∧
      ∀ s, (name, s) ∈ (recorded capacity calls).summaries ↔
        (recorded capacity calls).summary? name = some s) ∧
    (recorded capacity calls).summaries.Pairwise fun a b => a.1 < b.1 := by
  obtain ⟨-, hsorted, hsamples⟩ := recorded_keeps capacity calls
  refine ⟨fun name => ?_, ?_⟩
  · obtain ⟨hnone, hspans⟩ := ofSamples?_spans ((recorded capacity calls).samples name)
    have hlength : ((recorded capacity calls).samples name).length =
        min (given calls name).length (max capacity 1) := by
      rw [hsamples, rtake, length_drop]
      omega
    have hnil : (recorded capacity calls).summary? name = none ↔ given calls name = [] := by
      rw [summary?, hnone, ← length_eq_zero_iff, hlength, ← length_eq_zero_iff]
      omega
    refine ⟨?_, hnil, fun s hs => ⟨?_, hspans s hs⟩, ?_, mem_summaries hsorted⟩
    · rw [hsamples, rtake, rtake]
      congr 1
      omega
    · rw [(hspans s hs).count, length_map, hlength]
    simp only [mem_summaries hsorted, ← Option.ne_none_iff_exists']
    rw [Ne, hnil]
    simp [given, filterMap_eq_nil_iff]
  · refine Pairwise.filterMap _ (fun a b hab x hx y hy => ?_) hsorted
    obtain ⟨-, -, rfl⟩ := Option.map_eq_some_iff.mp hx
    obtain ⟨-, -, rfl⟩ := Option.map_eq_some_iff.mp hy
    exact hab

end Metrics

end Foundry
