import Foundry.Config.Store
import Foundry.Proofs.Courses
import Foundry.Proofs.Json.Strings
import Foundry.Proofs.Number.Values
import Foundry.Proofs.Sentinel.Recovery
import Foundry.Request

/-!
# What an accepted configuration is good for

A configuration that the check lets pass has timeouts that every request can be given: they
are positive, in order and at most a day. Of its sentinel the check asks only that it is not
blank, which is less than what is needed to find the sentinel in an output.
-/

namespace Foundry

variable {x : Binary64}

open Program Binary64

/-! ## The check -/

namespace Text

theorem exists_visible {s : String} (h : (trim s).isEmpty = false) :
    ∃ ch ∈ s.toList, isBlank ch = false := by
  by_contra hblank
  have hall : ∀ ch ∈ s.toList, isBlank ch = true := by
    intro ch hch
    by_contra hne
    exact hblank ⟨ch, hch, by simpa using hne⟩
  have hnil : trimChars s.toList = [] := by
    rw [trimChars, trimStartChars, List.dropWhile_eq_nil_iff.mpr hall]
    rfl
  rw [trim, hnil] at h
  exact absurd h (by decide)

end Text

namespace Config

variable {path : String}
variable {c : Config}

/-- What the check promises of timeouts and sentinel. -/
structure Accepted (c : Config) : Prop where
  max_pos : (Binary64.zero false).lt c.limits.maxTimeout = true
  max_le : c.limits.maxTimeout.le (Binary64.ofNat timeoutCeiling) = true
  default_pos : (Binary64.zero false).lt c.limits.defaultTimeout = true
  default_le : c.limits.defaultTimeout.le c.limits.maxTimeout = true
  visible : ∃ ch ∈ c.toolchain.sentinel.toList, Text.isBlank ch = false

theorem accepted_of_check (h : c.check = .ok ()) : c.Accepted := by
  unfold check at h
  dsimp only at h
  split at h
  · cases h
  rename_i hmax
  split at h
  · cases h
  rename_i hdefault
  split at h
  · cases h
  split at h
  · cases h
  rename_i hsentinel
  simp only [Bool.not_eq_true, Bool.not_eq_false', Bool.and_eq_true] at hmax
  simp only [Bool.or_eq_true, Bool.not_eq_true', not_or, Bool.not_eq_true,
    Bool.not_eq_false] at hdefault
  exact {
    max_pos := hmax.1
    max_le := hmax.2
    default_pos := hdefault.1
    default_le := le_of_not_lt hmax.1 hdefault.1 hdefault.2
    visible := Text.exists_visible (by simpa using hsentinel) }

/-- Whatever the file holds, and also if there is none, what is loaded has passed the check. -/
theorem accepted_of_load {es : List Event} (h : Course (Config.load path).run es (.ok c)) :
    c.Accepted := by
  obtain ⟨found, rest, -, hrest⟩ := Action.course_ask_bind.mp h
  cases found with
  | false =>
    obtain ⟨-, hc⟩ := Action.course_pure.mp hrest
    cases hc
    exact accepted_of_check (by decide +kernel)
  | true =>
    rcases Action.course_bind.mp hrest with ⟨-, after, text, -, -, hafter⟩ | ⟨_, hfault, -⟩
    · obtain ⟨-, hc⟩ := course_done.mp hafter
      unfold ofText at hc
      split at hc
      · cases hc
      split at hc
      · cases hc
      rename_i hcheck
      cases hc
      exact accepted_of_check hcheck
    · cases hfault

/-- A file with an acceptable text is loaded. -/
theorem course_load {text : String} (h : Config.ofText path text = .ok c) :
    Course (Config.load path).run
    [⟨.pathExists path, true⟩, ⟨.readFile path, Except.ok text.toUTF8⟩] (.ok c) := by
  have htext : Course (readTextFile path) [⟨.readFile path, Except.ok text.toUTF8⟩] (.ok text) := by
    refine course_ask_bind.mpr ⟨Except.ok text.toUTF8, [], rfl, ?_⟩
    simp only [fromUTF8?_toUTF8]
    exact .done _
  have hread : Course (orFault s!"reading config from {path}" (readTextFile path)).run
      [⟨.readFile path, Except.ok text.toUTF8⟩] (.ok text) :=
    Action.course_orFail.mpr ⟨_, htext, rfl⟩
  have hchecked : Course (ExceptT.mk (pure (ofText path text)) : Action Config).run [] (.ok c) :=
    course_done.mpr ⟨rfl, h.symm⟩
  exact Action.course_ask_bind.mpr ⟨true, _, rfl,
    Action.course_bind.mpr (.inl ⟨_, _, text, rfl, hread, hchecked⟩)⟩

end Config

/-! ## Timeouts -/

/-- A positive number of seconds up to a day has a value up to a day. -/
theorem Binary64.exists_parts_le_ceiling (hpos : (Binary64.zero false).lt x = true)
    (hle : x.le (ofNat timeoutCeiling) = true) : ∃ m q, x.parts = .finite false m q ∧
    (Binary64.fraction m q).1 ≤ timeoutCeiling * (Binary64.fraction m q).2 := by
  obtain ⟨hsign, -⟩ := pos_of_lt hpos
  have hmagnitude := magnitude_le_of_le hsign (by decide +kernel) hle
  have hfinite : x.magnitude < infinityMagnitude :=
    hmagnitude.trans_lt (by decide +kernel)
  obtain ⟨m, q, hparts, hvalue⟩ := exists_parts hfinite
  refine ⟨m, q, hsign ▸ hparts, ?_⟩
  have hceiling : (ofNat timeoutCeiling).units = timeoutCeiling * perOne := by
    decide +kernel
  -- in units of `2^-1074` the value is at most that of the ceiling
  have hunits : x.units ≤ timeoutCeiling * perOne := hceiling ▸ units_le_iff.mpr hmagnitude
  have hscaled := Nat.mul_le_mul_right (Binary64.fraction m q).2 hunits
  rw [← hvalue, Nat.mul_right_comm] at hscaled
  exact Nat.le_of_mul_le_mul_right hscaled perOne_pos

/-- A positive number of seconds up to a day is a span of time up to a day. -/
theorem Duration.exists_ofSeconds (hpos : (Binary64.zero false).lt x = true)
    (hle : x.le (ofNat timeoutCeiling) = true) :
    ∃ span, Duration.ofSeconds? x = some span ∧ span.nanos ≤ timeoutCeiling * perSecond := by
  obtain ⟨m, q, hparts, hfraction⟩ := exists_parts_le_ceiling hpos hle
  have hden := fraction_snd_pos m q
  let nanos := Binary64.divRound ((Binary64.fraction m q).1 * perSecond) (Binary64.fraction m q).2
  have hnanos : nanos ≤ timeoutCeiling * perSecond := by
    refine divRound_le hden ?_
    rw [Nat.mul_right_comm]
    exact Nat.mul_le_mul_right perSecond hfraction
  refine ⟨⟨nanos⟩, ?_, hnanos⟩
  simp only [ofSeconds?, hparts, Bool.false_and, Bool.false_eq_true, if_false]
  rw [if_pos (hnanos.trans_lt (by decide))]

/-- Moments of the clock: the whole seconds since its start are a signed number of 64 bits. -/
def IsMoment (nanos : Nat) : Prop := nanos / Duration.perSecond < 2 ^ 63

namespace Limits

variable {seconds : Binary64} {timeout : Option Binary64}
variable {limits : Limits} {source : String}

theorem timeout?_eq_some {span : Duration}
    (h : limits.timeout? seconds = some span) : Duration.ofSeconds? seconds = some span ∧
    (Binary64.zero false).lt seconds = true ∧ seconds.le limits.maxTimeout = true := by
  unfold timeout? at h
  split at h
  · split at h
    · rename_i hspan hrange
      cases h
      exact ⟨hspan, by simpa using hrange⟩
    · cases h
  · cases h

/-- The span of an accepted request is one for its seconds. -/
theorem timeout?_of_validate {r : Request} (h : limits.validate source timeout = .ok r) :
    limits.timeout? (timeout.getD limits.defaultTimeout) = some r.timeout := by
  unfold validate at h
  dsimp only at h
  split at h
  · cases h
  split at h
  · cases h
  split at h
  · cases h
  rename_i hspan
  split at h
  · cases h
  cases h
  exact hspan

/-- Only seconds that are no timeout are refused as such. -/
theorem timeout?_of_invalidTimeout {limit : Binary64}
    (h : limits.validate source timeout = .error (.invalidTimeout seconds limit)) :
    limits.timeout? (timeout.getD limits.defaultTimeout) = none := by
  unfold validate at h
  dsimp only at h
  split at h
  · cases h
  split at h
  · cases h
  split at h
  · assumption
  · split at h <;> cases h

end Limits

/-- The limits of a loaded configuration, whatever its file holds, refuse no source for the
timeout it gets when none is asked for. Whatever timeout is asked for, an accepted request
gets at most a day, so its deadline is a moment of every clock that has a day left. -/
theorem loaded_limits_give_timeouts {path : String} {es : List Event} {c : Config}
    (h : Course (Config.load path).run es (.ok c)) :
    (∀ source seconds limit,
      c.limits.validate source none ≠ .error (.invalidTimeout seconds limit)) ∧
    ∀ source timeout r, c.limits.validate source timeout = .ok r →
      r.timeout.nanos ≤ timeoutCeiling * Duration.perSecond ∧
      ∀ now, IsMoment (now + timeoutCeiling * Duration.perSecond) →
        IsMoment (now + r.timeout.nanos) := by
  have hc := Config.accepted_of_load h
  constructor
  · intro source seconds limit hrefused
    obtain ⟨span, hspan, -⟩ :=
      Duration.exists_ofSeconds hc.default_pos (Binary64.le_trans hc.default_le hc.max_le)
    have hnone := Limits.timeout?_of_invalidTimeout hrefused
    simp [Limits.timeout?, hspan, hc.default_pos, hc.default_le] at hnone
  · intro source timeout r haccepted
    obtain ⟨hr, hpos, hle⟩ := Limits.timeout?_eq_some (Limits.timeout?_of_validate haccepted)
    obtain ⟨span, hspan, hbound⟩ := Duration.exists_ofSeconds hpos (Binary64.le_trans hle hc.max_le)
    obtain rfl : span = r.timeout := Option.some.inj (hspan.symm.trans hr)
    refine ⟨hbound, fun now hnow => lt_of_le_of_lt ?_ hnow⟩
    exact Nat.div_le_div_right (Nat.add_le_add_left hbound now)

/-- Timeouts at both ends of what is accepted: a day, and the least positive number. -/
def extremeTimeouts : Config :=
  { limits := { maxTimeout := Binary64.ofNat 86400, defaultTimeout := ⟨1⟩ } }

theorem loaded_limits_give_timeouts_extreme :
    Config.ofText "c.toml" "[limits]\nmax_timeout_secs = 86400\ndefault_timeout_secs = 5e-324\n" =
        .ok extremeTimeouts ∧
      (∀ seconds limit,
        extremeTimeouts.limits.validate "x" none ≠ .error (.invalidTimeout seconds limit)) ∧
      ∀ r, extremeTimeouts.limits.validate "x" (some (Binary64.ofNat 86400)) = .ok r →
        r.timeout.nanos ≤ timeoutCeiling * Duration.perSecond := by
  have hfile : Config.ofText "c.toml"
      "[limits]\nmax_timeout_secs = 86400\ndefault_timeout_secs = 5e-324\n" =
        .ok extremeTimeouts := by decide +kernel
  obtain ⟨hdefault, hasked⟩ := loaded_limits_give_timeouts (Config.course_load hfile)
  exact ⟨hfile, hdefault "x", fun r hr => (hasked "x" _ r hr).1⟩

/-! ## Sentinels -/

namespace Sentinel

/-- Of the sentinels that are accepted exactly those serve that are one line without blanks at
the end. Every other one is never found, and the payload is then read with the sentinel. -/
theorem accepted_sentinel_serves_iff {c : Config} (hcheck : c.check = .ok ())
    {printed payload : String} (hprinted : Text.EndsLine printed.toList)
    (hpayload : ∀ l ∈ Text.lines payload.toList, ∀ z ∈ Text.lines c.toolchain.sentinel.toList,
      Text.trimEndChars l ≠ Text.trimEndChars z) :
    Sentinel.payload (printed ++ c.toolchain.sentinel ++ "\n" ++ payload) c.toolchain.sentinel =
        Text.trim payload ↔
      '\n' ∉ c.toolchain.sentinel.toList ∧
        Text.trimEnd c.toolchain.sentinel = c.toolchain.sentinel := by
  obtain ⟨ch, hch, hvisible⟩ := (Config.accepted_of_check hcheck).visible
  have hne : c.toolchain.sentinel.toList ≠ [] := List.ne_nil_of_mem hch
  have hchars : (printed ++ c.toolchain.sentinel ++ "\n" ++ payload).toList =
      printed.toList ++ (c.toolchain.sentinel.toList ++ '\n' :: payload.toList) := by
    simp
  have htrimmed : Text.trimEnd c.toolchain.sentinel = c.toolchain.sentinel ↔
      Text.trimEndChars c.toolchain.sentinel.toList = c.toolchain.sentinel.toList := by
    rw [← String.toList_inj, Text.toList_trimEnd]
  rw [Sentinel.payload, Text.trim, String.ofList_inj, hchars, htrimmed]
  constructor
  · intro heq
    by_contra hbad
    have hline : ¬ IsLine c.toolchain.sentinel.toList := fun h => hbad ⟨h.one_line, h.trimmed⟩
    rw [payloadChars_of_not_isLine hne hline] at heq
    have hfront : ch ∈ printed.toList ++ (c.toolchain.sentinel.toList ++ ['\n']) := by simp [hch]
    exact trimChars_append_ne hfront hvisible payload.toList (by simpa using heq)
  · rintro ⟨honeLine, htrim⟩
    have hline : IsLine c.toolchain.sentinel.toList := ⟨hne, honeLine, htrim⟩
    refine hline.payloadChars_eq hprinted fun l hl => ?_
    have hself : c.toolchain.sentinel.toList ∈ Text.lines c.toolchain.sentinel.toList := by
      simp [Text.lines_of_notMem hne honeLine]
    simpa [isMark, htrim] using hpayload l hl _ hself

/-- The default sentinel, and one forged before it. -/
theorem accepted_sentinel_serves_iff_default :
    ({} : Config).check = .ok () ∧
      payload ("=== KILN OUTPUT ===\nforged\n" ++ "=== KILN OUTPUT ===" ++ "\n" ++ " real \n")
        "=== KILN OUTPUT ===" = "real" := by
  have hcheck : ({} : Config).check = .ok () := by decide +kernel
  have hlines : ∀ l ∈ Text.lines " real \n".toList,
      ∀ z ∈ Text.lines "=== KILN OUTPUT ===".toList, Text.trimEndChars l ≠ Text.trimEndChars z := by
    decide +kernel
  exact ⟨hcheck, (accepted_sentinel_serves_iff hcheck (by decide +kernel) hlines).mpr
    ⟨by decide, by decide +kernel⟩⟩

/-- A configuration whose sentinel ends in a blank. -/
def paddedSentinel : Config := { toolchain := { sentinel := "== out == " } }

/-- A sentinel that ends in a blank is accepted and never found. -/
theorem trailing_blank_hides_sentinel :
    paddedSentinel.check = .ok () ∧ Text.EndsLine "".toList ∧
      (∀ l ∈ Text.lines "real\n".toList, ∀ z ∈ Text.lines paddedSentinel.toolchain.sentinel.toList,
        Text.trimEndChars l ≠ Text.trimEndChars z) ∧
      payload ("" ++ paddedSentinel.toolchain.sentinel ++ "\n" ++ "real\n")
        paddedSentinel.toolchain.sentinel = "== out == \nreal" ∧
      payload ("" ++ paddedSentinel.toolchain.sentinel ++ "\n" ++ "real\n")
        paddedSentinel.toolchain.sentinel ≠ Text.trim "real\n" := by
  refine ⟨?_, ?_, ?_, ?_, ?_⟩ <;> decide +kernel

end Sentinel

end Foundry
