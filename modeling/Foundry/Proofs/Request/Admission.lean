import Foundry.Proofs.Config.Acceptance
import Foundry.Proofs.Service.Deadline

/-!
# Which requests are accepted

A source is refused for the first condition that it breaks, and accepted with its timeout to
the nearest nanosecond if it breaks none. Seconds are compared and rounded by their values, as
numbers of units `2^-1074`. A value of up to half a nanosecond is positive and is rounded to
no time at all.
-/

namespace Foundry

open Program Binary64 List Duration Text

/-! ## Timeouts -/

/-- The natural number nearest to `num / den`, the even one of two that are as near. -/
structure IsNearest (n num den : Nat) : Prop where
  low : 2 * (n * den) ≤ 2 * num + den
  high : 2 * num ≤ 2 * (n * den) + den
  even : 2 * (n * den) = 2 * num + den ∨ 2 * num = 2 * (n * den) + den → n % 2 = 0

theorem IsNearest.unique {n k num den : Nat} (hden : 0 < den) (hn : IsNearest n num den)
    (hk : IsNearest k num den) : n = k := by
  wlog hlt : n < k generalizing n k
  · rcases Nat.lt_or_ge k n with hgt | hge
    · exact (this hk hn hgt).symm
    · exact Nat.le_antisymm hge (Nat.not_lt.mp hlt)
  -- the value is in the middle between two neighbours, which are not both even
  have hnext : n * den + den ≤ k * den := Nat.succ_mul n den ▸ Nat.mul_le_mul_right den hlt
  obtain ⟨hlow, hhigh, heven⟩ := hn
  obtain ⟨hlow', -, heven'⟩ := hk
  have hk : k = n + 1 := Nat.eq_of_mul_eq_mul_right hden (by rw [Nat.succ_mul]; omega)
  omega

namespace Binary64

variable {x y : Binary64}

theorem isNearest_divRound (num : Nat) {den : Nat} (hden : 0 < den) :
    IsNearest (divRound num den) num den := by
  have hdiv := Nat.div_add_mod' num den
  have hmod := Nat.mod_lt num hden
  have hsucc : (num / den + 1) * den = num / den * den + den := Nat.succ_mul _ _
  unfold divRound
  dsimp only
  split
  · constructor <;> omega
  split
  · constructor <;> rw [hsucc] <;> omega
  rcases Nat.mod_two_eq_zero_or_one (num / den) with hq | hq <;> rw [hq]
  · constructor <;> rw [Nat.add_zero] <;> omega
  · constructor <;> rw [hsucc] <;> omega

theorem divRound_mul_mul (num den : Nat) {k : Nat} (hk : 0 < k) :
    divRound (num * k) (den * k) = divRound num den := by
  have hlt (a b : Nat) : 2 * (a * k) < b * k ↔ 2 * a < b := by
    rw [← Nat.mul_assoc, Nat.mul_lt_mul_right hk]
  have hgt (a b : Nat) : b * k < 2 * (a * k) ↔ b < 2 * a := by
    rw [← Nat.mul_assoc, Nat.mul_lt_mul_right hk]
  simp only [divRound, Nat.mul_div_mul_right _ _ hk, Nat.mul_mod_mul_right, hlt, hgt]

theorem units_pos_iff : 0 < x.units ↔ 0 < x.magnitude := by
  have hzero : (zero false).units = 0 ∧ (zero false).magnitude = 0 := by decide
  have h : x.units ≤ (zero false).units ↔ x.magnitude ≤ (zero false).magnitude := units_le_iff
  omega

/-- Positive numbers are compared by their values, with the infinity last. -/
theorem le_iff_units (hx : x.isNaN = false) (hsign : x.isNegative = false) (hpos : 0 < x.units) :
    x.le y = true ↔ y.isNaN = false ∧ y.isNegative = false ∧ x.units ≤ y.units := by
  have hmagnitude := units_pos_iff.mp hpos
  rw [units_le_iff]
  cases hy : y.isNegative with
  | false => simp [le, key, hx, hsign, hy]
  | true =>
    simp only [le, key, hx, hsign, hy]
    simp
    omega

end Binary64

/-- A positive value within the limit whose nearest number of nanoseconds is a span. -/
structure Limits.Admits (limits : Limits) (seconds : Binary64) (span : Duration) : Prop where
  finite : seconds.isFinite = true
  positive : seconds.isNegative = false ∧ 0 < seconds.units
  within : limits.maxTimeout.isNaN = false ∧ limits.maxTimeout.isNegative = false ∧
    seconds.units ≤ limits.maxTimeout.units
  nearest : IsNearest span.nanos (seconds.units * 10 ^ 9) Binary64.perOne
  fits : span.nanos < Duration.limit

namespace Duration

variable {x : Binary64} {span : Duration}

theorem isFinite_of_ofSeconds (h : ofSeconds? x = some span) : x.magnitude < infinityMagnitude := by
  by_contra hlarge
  have hfield : x.magnitude / fractionSize = 2047 := by
    have hbits : x.magnitude < signBit := Nat.mod_lt _ (by decide)
    simp only [infinityMagnitude, fractionSize, signBit] at hlarge hbits ⊢
    omega
  have hparts : ∀ negative m q, x.parts ≠ .finite negative m q := by
    intro negative m q
    simp only [parts, hfield, if_true]
    split <;> exact Binary64.Parts.noConfusion
  unfold ofSeconds? at h
  split at h
  · exact hparts _ _ _ ‹_›
  · cases h

theorem ofSeconds?_eq_some_iff (hfinite : x.magnitude < infinityMagnitude)
    (hsign : x.isNegative = false) : ofSeconds? x = some span ↔
    IsNearest span.nanos (x.units * 10 ^ 9) perOne ∧ span.nanos < limit := by
  obtain ⟨m, q, hparts, hfraction⟩ := exists_parts hfinite
  have hnanos : Binary64.divRound ((Binary64.fraction m q).1 * perSecond)
      (Binary64.fraction m q).2 = Binary64.divRound (x.units * 10 ^ 9) perOne := by
    have hswap : (Binary64.fraction m q).1 * perSecond * perOne =
        x.units * 10 ^ 9 * (Binary64.fraction m q).2 := by
      rw [Nat.mul_right_comm, hfraction, Nat.mul_right_comm]
      rfl
    rw [← divRound_mul_mul _ _ perOne_pos, hswap, Nat.mul_comm (Binary64.fraction m q).2,
      divRound_mul_mul _ _ (fraction_snd_pos m q)]
  have hnearest := isNearest_divRound (x.units * 10 ^ 9) perOne_pos
  obtain ⟨nanos⟩ := span
  simp only [ofSeconds?, hparts, hsign, Bool.false_and, Bool.false_eq_true, if_false, hnanos,
    Option.ite_none_right_eq_some, Option.some.injEq, mk.injEq]
  constructor
  · rintro ⟨hlt, rfl⟩
    exact ⟨hnearest, hlt⟩
  rintro ⟨hspan, hlt⟩
  rw [hnearest.unique perOne_pos hspan]
  exact ⟨hlt, rfl⟩

end Duration

theorem Limits.timeout?_eq_some_iff {limits : Limits} {seconds : Binary64} {span : Duration} :
    limits.timeout? seconds = some span ↔ limits.Admits seconds span := by
  have hnan (hfinite : seconds.magnitude < infinityMagnitude) : seconds.isNaN = false := by
    simp [isNaN, hfinite.le]
  constructor
  · intro h
    obtain ⟨hspan, hlt, hle⟩ := timeout?_eq_some h
    have hfinite := isFinite_of_ofSeconds hspan
    obtain ⟨hsign, hmagnitude⟩ := pos_of_lt hlt
    have hpos := units_pos_iff.mpr hmagnitude
    obtain ⟨hnearest, hfits⟩ := (ofSeconds?_eq_some_iff hfinite hsign).mp hspan
    exact ⟨by simpa [isFinite] using hfinite, ⟨hsign, hpos⟩,
      (le_iff_units (hnan hfinite) hsign hpos).mp hle, hnearest, hfits⟩
  · rintro ⟨hfinite, ⟨hsign, hpos⟩, hwithin, hnearest, hfits⟩
    have hfinite : seconds.magnitude < infinityMagnitude := by
      simpa [isFinite] using hfinite
    have hspan := (ofSeconds?_eq_some_iff hfinite hsign).mpr ⟨hnearest, hfits⟩
    have hlt : (zero false).lt seconds = true := by
      have hkey : seconds.key = seconds.magnitude := by simp [key, hsign]
      have hzero : (zero false).isNaN = false ∧ (zero false).key = 0 := by decide
      simpa [lt, hzero, hnan hfinite, hkey] using units_pos_iff.mp hpos
    simp [timeout?, hspan, hlt, (le_iff_units (hnan hfinite) hsign hpos).mpr hwithin]

/-! ## Sources -/

namespace Text

theorem occursIn_iff {needle hay : List Char} : occursIn needle hay = true ↔ needle <:+: hay := by
  induction hay with
  | nil => simp [occursIn]
  | cons c rest ih => simp [occursIn, ih, infix_cons_iff]

/-- Blanks around a text are trimmed off. -/
theorem trim_surrounded {before after : String} (hbefore : ∀ c ∈ before.toList, isBlank c = true)
    (hafter : ∀ c ∈ after.toList, isBlank c = true) (s : String) :
    trim (before ++ s ++ after) = trim s := by
  have hend : dropWhileEnd isBlank after.toList = [] := by
    simpa [dropWhileEnd] using hafter
  have hstart : after.toList.dropWhile isBlank = [] := dropWhile_eq_nil_iff.mpr hafter
  simp only [trim, trimChars, trimStartChars, trimEndChars, String.toList_append, append_assoc]
  rw [dropWhile_append_of_pos hbefore, dropWhile_append]
  split
  · rename_i hempty
    rw [hstart, isEmpty_iff.mp hempty]
  · rw [dropWhileEnd_append, if_pos hend]

/-- A pattern that is not empty stands in a text. -/
def Contains (text pattern : String) : Prop := pattern ≠ "" ∧ pattern.toList <:+: text.toList

end Text

namespace Limits

variable {limits : Limits} {source text : String} {seconds : Binary64} {timeout : Option Binary64}

/-- A request for a trimmed text that breaks no condition. -/
structure Accepts (limits : Limits) (text : String) (seconds : Binary64) (r : Request) : Prop where
  nonempty : text ≠ ""
  size : text.utf8ByteSize ≤ limits.maxSourceBytes
  timeout : limits.Admits seconds r.timeout
  allowed : ∀ pattern ∈ limits.denyPatterns, ¬ Text.Contains text pattern
  source : r.source = text

/-- The first condition that a trimmed text breaks. -/
inductive Refuses (limits : Limits) (text : String) (seconds : Binary64) : Fault → Prop
  | empty (h : text = "") : Refuses limits text seconds .emptySource
  | size (hne : text ≠ "") (h : limits.maxSourceBytes < text.utf8ByteSize) :
      Refuses limits text seconds (.sourceTooLarge text.utf8ByteSize limits.maxSourceBytes)
  | timeout (hne : text ≠ "") (hsize : text.utf8ByteSize ≤ limits.maxSourceBytes)
      (h : ∀ span, ¬ limits.Admits seconds span) :
      Refuses limits text seconds (.invalidTimeout seconds limits.maxTimeout)
  | pattern {span : Duration} {before after : List String} {p : String} (hne : text ≠ "")
      (hsize : text.utf8ByteSize ≤ limits.maxSourceBytes) (hspan : limits.Admits seconds span)
      (hp : limits.denyPatterns = before ++ p :: after)
      (hbefore : ∀ q ∈ before, ¬ Text.Contains text q)
      (h : Text.Contains text p) : Refuses limits text seconds (.forbiddenPattern p)

theorem contains_iff {pattern : String} :
    (!pattern.isEmpty && occursIn pattern.toList text.toList) = true ↔ Contains text pattern := by
  simp [Contains, occursIn_iff]

theorem forbidden?_eq_none_iff :
    limits.forbidden? text = none ↔ ∀ pattern ∈ limits.denyPatterns, ¬ Contains text pattern := by
  simp only [forbidden?, find?_eq_none, contains_iff]

theorem forbidden?_eq_some_iff {p : String} : limits.forbidden? text = some p ↔ Contains text p ∧
    ∃ before after, limits.denyPatterns = before ++ p :: after ∧
    ∀ q ∈ before, ¬ Contains text q := by
  simp only [forbidden?, find?_eq_some_iff_append, contains_iff, Bool.not_eq_true',
    ← Bool.not_eq_true]

theorem validate_of_accepts {r : Request}
    (h : limits.Accepts (trim source) (timeout.getD limits.defaultTimeout) r) :
    limits.validate source timeout = .ok r := by
  obtain ⟨text, span⟩ := r
  obtain ⟨hne, hsize, hspan, hallowed, rfl : text = _⟩ := h
  simp [validate, hne, hsize.not_gt, timeout?_eq_some_iff.mpr hspan,
    forbidden?_eq_none_iff.mpr hallowed]

theorem validate_of_refuses {fault : Fault}
    (h : limits.Refuses (trim source) (timeout.getD limits.defaultTimeout) fault) :
    limits.validate source timeout = .error fault := by
  cases h with
  | empty h => simp [validate, h]
  | size hne h => simp [validate, hne, h]
  | timeout hne hsize h =>
    have hnone : limits.timeout? (timeout.getD limits.defaultTimeout) = none :=
      Option.eq_none_iff_forall_ne_some.mpr fun span hspan => h span (timeout?_eq_some_iff.mp hspan)
    simp [validate, hne, hsize.not_gt, hnone]
  | pattern hne hsize hspan hp hbefore h =>
    have hsome := forbidden?_eq_some_iff.mpr ⟨h, _, _, hp, hbefore⟩
    simp [validate, hne, hsize.not_gt, timeout?_eq_some_iff.mpr hspan, hsome]

theorem accepts_or_refuses (limits : Limits) (text : String) (seconds : Binary64) :
    (∃ r, limits.Accepts text seconds r) ∨ ∃ fault, limits.Refuses text seconds fault := by
  by_cases hne : text = ""
  · exact .inr ⟨_, .empty hne⟩
  rcases Nat.lt_or_ge limits.maxSourceBytes text.utf8ByteSize with hlarge | hsize
  · exact .inr ⟨_, .size hne hlarge⟩
  by_cases hspan : ∃ span, limits.Admits seconds span
  · obtain ⟨span, hspan⟩ := hspan
    cases hpattern : limits.forbidden? text with
    | none => exact .inl ⟨⟨text, span⟩, hne, hsize, hspan, forbidden?_eq_none_iff.mp hpattern, rfl⟩
    | some p =>
      obtain ⟨h, before, after, hp, hbefore⟩ := forbidden?_eq_some_iff.mp hpattern
      exact .inr ⟨_, .pattern hne hsize hspan hp hbefore h⟩
  · exact .inr ⟨_, .timeout hne hsize fun span h => hspan ⟨span, h⟩⟩

/-- What is accepted, with which request, and what is refused, with which fault. Blanks around the
source make no difference. -/
theorem validate_accepts_exactly (limits : Limits) (source : String) (timeout : Option Binary64) :
    (∀ r, limits.validate source timeout = .ok r ↔
      limits.Accepts (Text.trim source) (timeout.getD limits.defaultTimeout) r) ∧
    (∀ fault, limits.validate source timeout = .error fault ↔
      limits.Refuses (Text.trim source) (timeout.getD limits.defaultTimeout) fault) ∧
    ∀ before after : String, (∀ c ∈ before.toList, Text.isBlank c = true) →
      (∀ c ∈ after.toList, Text.isBlank c = true) →
        limits.validate (before ++ source ++ after) timeout = limits.validate source timeout := by
  have htotal := accepts_or_refuses limits (Text.trim source) (timeout.getD limits.defaultTimeout)
  refine ⟨fun r => ⟨fun h => ?_, validate_of_accepts⟩,
    fun fault => ⟨fun h => ?_, validate_of_refuses⟩, fun before after hbefore hafter => ?_⟩
  · rcases htotal with ⟨r', haccepts⟩ | ⟨fault, hrefuses⟩
    · cases h.symm.trans (validate_of_accepts haccepts)
      exact haccepts
    · cases h.symm.trans (validate_of_refuses hrefuses)
  · rcases htotal with ⟨r', haccepts⟩ | ⟨fault', hrefuses⟩
    · cases h.symm.trans (validate_of_accepts haccepts)
    cases h.symm.trans (validate_of_refuses hrefuses)
    exact hrefuses
  · rw [validate, validate, Text.trim_surrounded hbefore hafter]

/-- A source between blanks, with a timeout in the middle between two nanoseconds. -/
theorem validate_accepts_exactly_padded :
    ({} : Limits).validate ("\u00a0" ++ "x" ++ " \n") (some (.ofRatio false 1 1024)) =
    .ok ⟨"x", ⟨976562⟩⟩ := by
  have hok : ({} : Limits).validate "x" (some (.ofRatio false 1 1024)) = .ok ⟨"x", ⟨976562⟩⟩ :=
    Except.eq_ok_of_toOption (by decide +kernel)
  rw [(validate_accepts_exactly {} "x" _).2.2 _ _ (by simp [Text.isBlank, Text.blankRanges])
    (by simp [Text.isBlank, Text.blankRanges]), hok]

end Limits

/-! ## No time at all -/

/-- A stage that reads the clock when the time of its request starts, starts its command. -/
def Request.HasTime (r : Request) : Prop :=
  0 < r.timeout.nanos ∧ ∀ command start es outcome,
    Course (Service.runStage command r (start + r.timeout.nanos)).run (⟨.clock, start⟩ :: es)
    outcome →
      ∃ reply, (⟨.run command r.timeout, reply⟩ : Event) ∈ es

/-- No stage ever starts its command. -/
def Request.HasNoTime (r : Request) : Prop :=
  r.timeout.nanos = 0 ∧ ∀ command start now es outcome, start ≤ now →
    Course (Service.runStage command r (start + r.timeout.nanos)).run (⟨.clock, now⟩ :: es)
      outcome → es = [] ∧ outcome = .error (.timeout command.stage r.timeout.toSeconds)

/-- An accepted request has time to run if its seconds are worth more than half a nanosecond, and
otherwise none. -/
theorem accepted_request_has_time_iff {limits : Limits} {source : String}
    {timeout : Option Binary64} {r : Request} (h : limits.validate source timeout = .ok r) :
    (Binary64.perOne < 2 * ((timeout.getD limits.defaultTimeout).units * 10 ^ 9) → r.HasTime) ∧
    (2 * ((timeout.getD limits.defaultTimeout).units * 10 ^ 9) ≤ Binary64.perOne →
    r.HasNoTime) := by
  have hnearest := (Limits.timeout?_eq_some_iff.mp (Limits.timeout?_of_validate h)).nearest
  constructor
  · intro hlarge
    have hpos : 0 < r.timeout.nanos := by
      by_contra hzero
      have hhigh := hnearest.high
      rw [Nat.eq_zero_of_not_pos hzero] at hhigh
      omega
    refine ⟨hpos, fun command start es outcome hes => ?_⟩
    rcases Service.course_runStage_cases hes with ⟨t, hlate, heq, -⟩ | ⟨t, t₁, t₂, reply, -, heq, -⟩
    · cases (List.cons.inj heq).1
      omega
    obtain ⟨hhead, rfl⟩ := List.cons.inj heq
    cases hhead
    exact ⟨reply, by rw [Nat.add_sub_cancel_left]; simp⟩
  · intro hsmall
    have hzero : r.timeout.nanos = 0 :=
      hnearest.unique Binary64.perOne_pos ⟨by simp, by simpa using hsmall, fun _ => rfl⟩
    refine ⟨hzero, fun command start now es outcome hnow hes => ?_⟩
    rcases Service.course_runStage_cases hes with ⟨t, -, heq, houtcome⟩ |
      ⟨t, t₁, t₂, reply, hearly, heq, -⟩
    · exact ⟨(List.cons.inj heq).2, houtcome⟩
    cases (List.cons.inj heq).1
    omega

/-- The least timeout that is some time. -/
theorem accepted_request_has_time_iff_least :
    ({} : Limits).validate "x" (some ⟨0x3e012e0be826d695⟩) = .ok ⟨"x", ⟨1⟩⟩ ∧
    Request.HasTime ⟨"x", ⟨1⟩⟩ := by
  have hok : ({} : Limits).validate "x" (some ⟨0x3e012e0be826d695⟩) = .ok ⟨"x", ⟨1⟩⟩ :=
    Except.eq_ok_of_toOption (by decide +kernel)
  exact ⟨hok, (accepted_request_has_time_iff hok).1 (by decide +kernel)⟩

/-- A tenth of a nanosecond is accepted as a timeout, and is none. -/
theorem accepted_without_time :
    ({} : Limits).validate "x" (some ⟨0x3ddb7cdfd9d7bdbb⟩) = .ok ⟨"x", ⟨0⟩⟩ ∧
    Course (Service.runStage default ⟨"x", ⟨0⟩⟩ (7 + 0)).run [⟨.clock, 7⟩]
      (.error (.timeout (default : Command).stage (Duration.toSeconds ⟨0⟩))) :=
  ⟨Except.eq_ok_of_toOption (by decide +kernel), .call 7 (.done _)⟩

end Foundry
