import Foundry.Body
import Foundry.Proofs.Json.Wellformed

/-!
# Payloads in any layout

A request body is decoded from the members that it has, however it is laid out: in any order, with
blanks anywhere, with strings in any spelling, and with any other members between them.
-/

namespace Foundry

open List Json Binary64

namespace Json

variable {ds t rest : Bytes}

theorem significand_eq (ds : Bytes) (start : Nat) (h : decimal start ds ≤ maxSignificand) :
    start ≤ maxSignificand ∧ significand start (ds.map digitValue) =
    (decimal start ds, ds.length) := by
  induction ds generalizing start with
  | nil => exact ⟨h, rfl⟩
  | cons d ds ih =>
    obtain ⟨hstart, hmore⟩ := ih (10 * start + (d.toNat - 48)) h
    have hcomm : start * 10 + digitValue d = 10 * start +
        (d.toNat - 48) := by rw [digitValue, mul_comm]
    refine ⟨by omega, ?_⟩
    rw [map_cons, significand, hcomm, if_neg (Nat.not_lt.mpr hstart), hmore]
    rfl

/-- The digits of a whole number are read as that number. -/
theorem scanNumber_whole (h : IsWhole ds) (hmax : decimal 0 ds ≤ maxSignificand) (positive : Bool)
    (hends : Ends rest) :
    scanNumber positive (ds ++ rest) = .ok (wholeNumber positive (decimal 0 ds), rest) := by
  obtain ⟨b, more, rfl, hdigit, hpoint, hmark⟩ := hends.exists_cons
  have hafter (parts : Parts) : parts.withFraction endOfValue (b :: more) =
      .ok (parts, b :: more) := by
    simp [Parts.withFraction, hpoint, Parts.withExponent, hmark]
  have hparts : scanParts endOfValue (ds ++ b :: more) = .ok ({ whole := ds }, b :: more) := by
    rcases h with rfl | ⟨hds, hhead⟩
    · simp [scanParts, hdigit, hafter]
    obtain ⟨d, ds, rfl, hd, hdrop⟩ := hds.exists_cons
    have hzero : d ≠ 48 := by simpa using hhead
    have htake : (ds ++ b :: more).takeWhile isDigit = ds := by
      simp [takeWhile_append_of_pos (forall_mem_cons.mp hds.2).2, hdigit]
    simp [scanParts, hzero, hd, htake, hdrop b more hdigit, hafter]
  have hvalue := (significand_eq ds 0 hmax).2
  simp [scanNumber, hparts, Parts.numeral, hvalue, bind, Except.bind, pure, Except.pure]

end Json

namespace Body

/-- A member as a payload gives it. A timeout is a whole number or null. -/
inductive Given where
  | source (text : String)
  | timeout (seconds : Option Int)
  | other (name : String) (h : name ≠ "sourceText" ∧ name ≠ "timeoutSeconds")

namespace Given

def name : Given → String
  | source _ => "sourceText"
  | timeout _ => "timeoutSeconds"
  | other name _ => name

def Writes : Given → Bytes → Bytes → Prop
  | source text => Says (.string text)
  | timeout none => Says .null
  | timeout (some n) => fun t rest => n.natAbs ≤ 2 ^ 53 ∧ Says (.integer n) t rest
  | other .. => Written .value

def source? : Given → Option String
  | source text => some text
  | _ => none

def timeout? : Given → Option (Option Binary64)
  | timeout seconds => some (seconds.map Binary64.ofInt)
  | _ => none

/-- The body that members make, if they have exactly one source and at most one timeout. -/
def body? (given : List Given) : Option Body :=
  match given.filterMap source?, given.filterMap timeout? with
  | [text], [] => some ⟨text, none⟩
  | [text], [seconds] => some ⟨text, seconds⟩
  | _, _ => none

end Given

open Given

/-- A payload that is laid out from these members. -/
def LaidOut (given : List Given) (payload : Bytes) : Prop :=
  ∃ t rest, Token [123] payload t ∧ Members Given.name Given.Writes true given t rest ∧ IsGap rest

variable {given : List Given} {t u v rest : Bytes} {first : Bool}

theorem readText_says {s : String} (h : Says (.string s) t rest) (expected : String) :
    readText expected t = .ok (s, rest) := by
  obtain ⟨u, ht, hu⟩ := h
  have hskip : skipSpace t = 34 :: u := ht.skipSpace_eq rfl
  rw [readText, hskip]
  exact (scanString_spells hu).trans (by rw [String.ofList_toList])

theorem readOptionalNumber_null (h : Says .null t rest) :
    readOptionalNumber t = .ok (none, rest) := by
  have hskip : skipSpace t = 110 :: 117 :: 108 :: 108 :: rest := Token.skipSpace_eq h rfl
  rw [readOptionalNumber, hskip]
  rfl

theorem readOptionalNumber_integer {n : Int} (hn : n.natAbs ≤ 2 ^ 53) (h : Says (.integer n) t rest)
    (hends : Ends rest) : readOptionalNumber t = .ok (some (ofInt n), rest) := by
  obtain ⟨ds, hds, hvalue, h⟩ := h
  have hscan (positive : Bool) := scanNumber_whole hds (hvalue.trans_le (hn.trans (by decide)))
    positive hends
  rw [hvalue] at hscan
  split_ifs at h with hneg
  · have hskip : skipSpace t = 45 :: (ds ++ rest) := h.skipSpace_eq rfl
    have hagain (t : Bytes) : skipSpace (45 :: t) = 45 :: t := rfl
    have hwhole : wholeNumber false n.natAbs = .integer n := by
      simp only [wholeNumber, Bool.false_eq_true, if_false]
      rw [if_neg (by simp; omega), Int.ofNat_eq_natCast]
      congr
      omega
    rw [readOptionalNumber, hskip]
    simp [readNumber, hagain, hscan, hwhole, Numeral.toBinary64, bind, Except.bind]
  · obtain ⟨d, more, rfl, hd⟩ : ∃ d more, ds = d :: more ∧ isDigit d = true := by
      rcases hds with rfl | ⟨hds, -⟩
      · exact ⟨48, [], rfl, rfl⟩
      obtain ⟨d, more, rfl, hd, -⟩ := hds.exists_cons
      exact ⟨d, more, rfl, hd⟩
    have hspace := isSpace_of_isDigit hd
    have hskip := Token.skipSpace_eq h hspace
    have hagain : skipSpace (d :: (more ++ rest)) = d :: (more ++ rest) :=
      dropWhile_cons_of_neg (by simp [hspace])
    have hwhole : wholeNumber true n.natAbs = .integer n := by
      rw [wholeNumber, if_pos rfl]
      congr
      omega
    rw [cons_append] at hscan
    rw [readOptionalNumber, hskip]
    simp [readNumber, hagain, hscan, hwhole, hd, ne_of_isDigit hd 110 rfl, ne_of_isDigit hd 45 rfl,
      Numeral.toBinary64, bind, Except.bind]

theorem Given.Writes.length_le {g : Given} (h : g.Writes t rest) (hends : Ends rest) :
    rest.length ≤ t.length := by
  cases g with
  | source =>
    obtain ⟨u, ht, hu⟩ := h
    exact (hu.quoted.length_lt.trans ht.length_lt).le
  | timeout n =>
    cases n with
    | none => exact (Token.length_lt h).le
    | some n =>
      obtain ⟨-, ds, -, -, gap, -, rfl⟩ := h
      simp
      omega
  | other => exact (Written.skipValue_eq h hends).2

/-- Members are collected as long as none is repeated. -/
theorem readKeyed_given (h : Members Given.name Given.Writes first given t rest) {fuel : Nat}
    (hfuel : t.length < fuel) (text : Option String) (seconds : Option (Option Binary64)) :
    if (text.toList ++ given.filterMap source?).length ≤ 1 ∧
        (seconds.toList ++ given.filterMap timeout?).length ≤ 1 then
      readKeyed fields first [text.map .source, seconds.map .timeout] fuel t = .ok
        ([(text.toList ++ given.filterMap source?).head?.map .source,
          (seconds.toList ++ given.filterMap timeout?).head?.map .timeout], rest)
    else ∃ e, readKeyed fields first [text.map .source, seconds.map .timeout] fuel t =
    .error e := by
  obtain ⟨fuel, rfl⟩ : ∃ n, fuel = n + 1 := ⟨fuel - 1, by omega⟩
  induction h generalizing fuel text seconds with
  | @close first t rest h =>
    have hskip : skipSpace t = 125 :: rest := h.skipSpace_eq rfl
    have hnext : nextKey first t = .ok none := by simp [nextKey, hskip]
    rw [readKeyed, hnext]
    cases text <;> cases seconds <;> simp [dropClose, hskip]
  | @member first m more t u v w x y rest ht hu hv hw hx hy ih =>
    have hlength : y.length < t.length := by
      have htu : u.length ≤ t.length := by
        cases first with
        | true => exact (congrArg length ht).ge
        | false => exact (Token.length_lt ht).le
      have := hu.length_lt
      have := hv.quoted.length_lt
      have := hw.length_lt
      have := Given.Writes.length_le hx hy.ends
      omega
    obtain ⟨fuel, rfl⟩ : ∃ n, fuel = n + 1 := ⟨fuel - 1, by omega⟩
    have hmore (text : Option String) (seconds : Option (Option Binary64)) :=
      ih text seconds fuel (by omega)
    have hcolon : scanColon w =
        .ok x := by simp [scanColon, show skipSpace w = 58 :: x from hw.skipSpace_eq rfl]
    have hother (found : Found Member) (hfind : findField fields m.name = none) :
        readKeyed fields first found (fuel + 1 + 1) t = skipValue x >>= readKeyed fields false found
          (fuel + 1) := by
      rw [readKeyed, nextKey_eq ht hu]
      simp only [scanString_spells hv, String.ofList_toList, hcolon, hfind, bind, Except.bind]
    have hfield (found : Found Member) {i : Nat} {field : Json.Field Member}
        (hfind : findField fields m.name = some (i, field)) : readKeyed fields first found
          (fuel + 1 + 1) t =
        if ((found[i]?).getD none).isSome then failHere ("duplicate field `" ++ field.name ++ "`")
          (settleObject w)
        else field.read x >>= fun r => readKeyed fields false (found.set i (some r.1)) (fuel + 1)
          r.2 := by
      rw [readKeyed, nextKey_eq ht hu]
      simp only [scanString_spells hv, String.ofList_toList, hcolon, hfind, bind, Except.bind]
    cases m with
    | source s =>
      have hfind : findField fields (Given.source s).name = some (0, fields[0]) := rfl
      rw [hfield _ hfind]
      cases text with
      | some text =>
        exact ⟨_, rfl⟩
      | none =>
        have hread : fields[0].read x = .ok (.source s, y) := by simp [fields, readText_says hx,
          Except.map]
        simpa [hread, filterMap_cons, findSome?_cons, source?, timeout?, bind,
          Except.bind] using hmore (some s) seconds
    | timeout n =>
      have hfind : findField fields (Given.timeout n).name = some (1, fields[1]) := rfl
      rw [hfield _ hfind]
      cases seconds with
      | some seconds =>
        rw [if_neg (by simp [timeout?])]
        exact ⟨_, rfl⟩
      | none =>
        have hread : fields[1].read x = .ok (.timeout (n.map ofInt), y) := by
          cases n with
          | none => simp [fields, readOptionalNumber_null hx, Except.map]
          | some n => simp [fields, readOptionalNumber_integer hx.1 hx.2 hy.ends, Except.map]
        simpa [hread, filterMap_cons, findSome?_cons, source?, timeout?, bind,
          Except.bind] using hmore text (some (n.map ofInt))
    | other name h =>
      have hfind : findField fields (other name h).name = none := by
        simp [findField, fields, Given.name, findIdx?_cons, h.1.symm, h.2.symm]
      rw [hother _ hfind]
      simpa [(Written.skipValue_eq hx hy.ends).1, filterMap_cons, findSome?_cons, source?, timeout?,
        bind, Except.bind] using hmore text seconds

/-- A payload is decoded to the body that its members make. -/
theorem parse_laidOut {payload : Bytes} (h : LaidOut given payload) :
    match body? given with
    | some body => parse payload = .ok body
    | none => ∃ reason, parse payload = .error reason := by
  obtain ⟨t, rest, ht, hmembers, hrest⟩ := h
  have hskip : skipSpace payload = 123 :: t := ht.skipSpace_eq rfl
  have hend : skipSpace rest = [] := by simpa [skipSpace] using skipSpace_gap hrest []
  have hstart : fields.map (fun _ => (none : Option Member)) = [none, none] := rfl
  have hread := readKeyed_given hmembers t.length.lt_succ_self none none
  unfold parse document Body.read readRecord
  simp only [hskip, hstart]
  unfold body?
  generalize given.filterMap source? = sources, given.filterMap timeout? = timeouts at hread
  rcases sources with _ | ⟨text, _ | _⟩ <;> rcases timeouts with
    _ | ⟨seconds, _ | _⟩ <;> simp at hread
  all_goals try obtain ⟨e, hread⟩ := hread
  all_goals simp only [hread, bind, Except.bind]
  all_goals simp [fillAbsent, fields, hend, bind, Except.bind, failHere]

theorem laidOut_toJson (source : String) :
    LaidOut [.source source, .timeout none] (toJson ⟨source, none⟩).compact.toUTF8.toList := by
  obtain ⟨t, ht, hmembers⟩ := members_compact ("sourceText",
    .string source) [("timeoutSeconds", .null)] (by simpa using ⟨says_quote source, token_append _⟩)
  refine ⟨t, [], ht, ?_, isGap_nil⟩
  rcases hmembers with _ | ⟨ht, hu, hv, hw, hx, _ | ⟨ht', hu', hv', hw', hx', hclose | _⟩⟩
  exact .member ht hu hv hw hx (.member ht' hu' hv' hw' hx' (.close hclose))

end Body

namespace Limits

open Body

variable {given : List Given} {payload : Bytes}

theorem payload_layout_is_ignored (limits : Limits) (h : LaidOut given payload) :
    (∀ body, Given.body? given = some body →
      limits.validatePayload payload = limits.validate body.source body.timeout) ∧
    (Given.body? given = none → ∃ reason, limits.validatePayload payload =
    .error (.invalidRequest reason)) ∧
    ∀ source, limits.validatePayload (toJson ⟨source, none⟩).compact.toUTF8.toList =
      limits.validateBody ⟨source, none⟩ := by
  have hparse := parse_laidOut h
  refine ⟨fun body hbody => ?_, fun hbody => ?_, fun source => ?_⟩
  · simp only [hbody] at hparse
    rw [validatePayload, hparse]
    rfl
  · simp only [hbody] at hparse
    obtain ⟨reason, hparse⟩ := hparse
    exact ⟨reason, by rw [validatePayload, hparse]⟩
  · have hparse : Body.parse _ = .ok ⟨source, none⟩ := parse_laidOut (laidOut_toJson source)
    rw [validatePayload, hparse]

/-- A timeout before an empty list and a source with an escape, among blanks. -/
def roughPayload : Bytes :=
  utf8 " \x7b\"timeoutSeconds\" :30,\n\"x\":[],\"sourceText\":\t\"\\u0041\"\x7d ".toList

theorem payload_layout_is_ignored_rough : ∃ given, LaidOut given roughPayload ∧
    Given.body? given = some ⟨"A", some (ofInt 30)⟩ ∧ ∀ limits : Limits,
    limits.validatePayload roughPayload = limits.validate "A" (some (ofInt 30)) := by
  have hgap (b : UInt8) (hb : isSpace b = true) : IsGap [b] := by simpa [IsGap] using hb
  have hunit (t : Bytes) : Hex4 'A'.toNat (48 :: 48 :: 52 :: 49 :: t) t :=
    ⟨48, 48, 52, 49, 0, 0, 4, 1, rfl, .inl (by decide), .inl (by decide), .inl (by decide),
      .inl (by decide), rfl⟩
  obtain ⟨payload, hpayload, hlaid⟩ : ∃ payload, payload = roughPayload ∧
      LaidOut [.timeout (some 30), .other "x" (by decide), .source "A"] payload := by
    refine ⟨_, ?_, _, [32], ⟨[32], hgap 32 rfl, rfl⟩,
      .member rfl (token_append _ _) (spells_escaped _ _)
      ⟨[32], hgap 32 rfl, rfl⟩ ⟨by decide, [51, 48],
        .inr ⟨⟨by simp, by simp; decide⟩, by decide⟩, by decide,
      token_append _ _⟩
      (.member (token_append _ _) ⟨[10], hgap 10 rfl, rfl⟩ (spells_escaped _ _) (token_append _ _)
      (@Written.empty .list _ _ _ (token_append _ _) (token_append _ _))
        (.member (token_append _ _) (token_append _ _)
      (spells_escaped _ _) (token_append _ _) ⟨_, ⟨[9], hgap 9 rfl, rfl⟩,
        .unit (hunit _) (.quote _)⟩
      (.close (token_append _ _)))), hgap 32 rfl⟩
    decide +kernel
  rw [hpayload] at hlaid
  have hbody : Given.body? [.timeout (some 30), .other "x" (by decide), .source "A"] =
      some ⟨"A", some (ofInt 30)⟩ := rfl
  exact ⟨_, hlaid, hbody,
    fun limits => (payload_layout_is_ignored limits hlaid).1 ⟨"A", some (ofInt 30)⟩ hbody⟩

end Limits

/-! ## What is accepted -/

namespace Body

/-- The text of an object has a member of this name, whose value stands here. -/
inductive ValueAt (name : String) : Bool → Bytes → Bytes → Prop
  | here {first : Bool} {t u v w : Bytes} (hkey : nextKey first t = .ok (some u))
      (hname : scanString u = .ok (name, v)) (hcolon : scanColon v = .ok w) : ValueAt name first t w
  | later {first : Bool} {t u v w x y : Bytes} {other : String}
      (hkey : nextKey first t = .ok (some u))
      (hname : scanString u = .ok (other, v)) (hcolon : scanColon v = .ok w)
      (hvalue : skipValue w = .ok x ∨ ∃ field ∈ fields, ∃ value, field.read w = .ok (value, x))
      (h : ValueAt name false x y) : ValueAt name first t y

/-- A payload that is one value among blanks, and the text that it has as its source: an object as
the member of that name, and a list as its first element. -/
def HasSource (payload : Bytes) (text : String) : Prop :=
  (∃ rest, Written .value payload rest ∧ IsGap rest) ∧
  ((∃ t u rest, skipSpace payload = 123 :: t ∧ ValueAt "sourceText" true t u ∧
    readText "a string" u = .ok (text, rest)) ∨
  ∃ t u rest, skipSpace payload = 91 :: t ∧ nextElement true t = .ok (some u) ∧
    readText "a string" u = .ok (text, rest))

theorem readValues_fields : ReadValues fields := by
  intro field hmem t value rest h
  simp only [fields, mem_cons, not_mem_nil, or_false] at hmem
  rcases hmem with rfl | rfl
  · obtain ⟨⟨_, _⟩, hread, heq⟩ := map_eq_ok h
    cases heq
    exact written_of_readText hread
  · obtain ⟨⟨_, _⟩, hread, heq⟩ := map_eq_ok h
    cases heq
    exact written_of_readOptionalNumber hread

variable {payload t rest : Bytes} {first : Bool}

theorem findField_cases {key : String} {i : Nat} {field : Json.Field Member}
    (h : findField fields key = some (i, field)) :
    (i = 0 ∧ key = "sourceText" ∧ field = fields[0]) ∨ (i = 1 ∧ field = fields[1]) := by
  by_cases hsource : key = "sourceText"
  · subst hsource
    cases h
    exact .inl ⟨rfl, rfl, rfl⟩
  · by_cases htimeout : key = "timeoutSeconds"
    · subst htimeout
      cases h
      exact .inr ⟨rfl, rfl⟩
    · simp [findField, fields, findIdx?_cons, Ne.symm hsource, Ne.symm htimeout] at h

theorem read_source {value : Member} (h : fields[0].read t = .ok (value, rest)) :
    ∃ text, value = .source text ∧ readText "a string" t = .ok (text, rest) := by
  obtain ⟨⟨text, _⟩, hread, heq⟩ := map_eq_ok h
  cases heq
  exact ⟨text, rfl, hread⟩

/-- What an object has as its source was there before, or stands in its text. -/
theorem readKeyed_source {fuel : Nat} {found found' : Found Member} {m : Member}
    (h : readKeyed fields first found fuel t = .ok (found', rest))
    (hm : found'.head?.getD none = some m) :
    found.head?.getD none = some m ∨ ∃ text u v, m = .source text ∧ ValueAt "sourceText" first t u ∧
      readText "a string" u = .ok (text, v) := by
  induction fuel generalizing first found t with
  | zero => cases h
  | succ fuel ih =>
    rw [readKeyed] at h
    split at h
    · cases h
    · cases h
      exact .inl hm
    rename_i u hkey
    obtain ⟨⟨name, v⟩, hname, h⟩ := bind_eq_ok h
    dsimp only at h
    split at h
    · obtain ⟨w, hcolon, h⟩ := bind_eq_ok h
      obtain ⟨x, hskip, h⟩ := bind_eq_ok h
      refine (ih h).imp id ?_
      rintro ⟨text, u, v, htext, hu, hv⟩
      exact ⟨text, u, v, htext, .later hkey hname hcolon (.inl hskip) hu, hv⟩
    · rename_i i field hfind
      split_ifs at h
      · cases h
      obtain ⟨w, hcolon, h⟩ := bind_eq_ok h
      obtain ⟨⟨value, x⟩, hread, h⟩ := bind_eq_ok h
      rcases ih h with hfound | ⟨text, u, v, htext, hu, hv⟩
      · rcases findField_cases hfind with ⟨rfl, rfl, rfl⟩ | ⟨rfl, -⟩
        · obtain ⟨text, rfl, htext⟩ := read_source hread
          cases found with
          | nil => cases hfound
          | cons =>
            cases hfound
            exact .inr ⟨text, w, x, rfl, .here hkey hname hcolon, htext⟩
        · exact .inl (by cases found <;> exact hfound)
      · refine .inr ⟨text, u, v, htext,
          .later hkey hname hcolon (.inr ⟨field, ?_, value, hread⟩) hu, hv⟩
        rcases findField_cases hfind with ⟨-, -, rfl⟩ | ⟨-, rfl⟩ <;> exact getElem_mem _

/-- The source of a body is one that its payload has. -/
theorem hasSource_of_parse {body : Body} (h : Body.parse payload = .ok body) :
    HasSource payload body.source := by
  unfold Body.parse at h
  split at h
  swap
  · cases h
  rename_i hdocument
  cases h
  obtain ⟨rest, hbody, hgap⟩ := gap_of_document hdocument
  obtain ⟨⟨members, rest⟩, hrecord, hmembers⟩ := bind_eq_ok hbody
  dsimp only at hmembers
  split at hmembers <;> cases hmembers
  refine ⟨⟨rest, written_of_readRecord readValues_fields hrecord, hgap⟩, ?_⟩
  unfold readRecord at hrecord
  split at hrecord
  · cases hrecord
  · rename_i t hskip
    rw [fields, readListed] at hrecord
    split at hrecord
    · cases hrecord
    · cases hrecord
    rename_i u hnext
    obtain ⟨⟨value, v⟩, hvalue, hrecord⟩ := bind_eq_ok hrecord
    obtain ⟨⟨_, _⟩, -, hlist⟩ := bind_eq_ok hrecord
    cases hlist
    obtain ⟨text, htext, hread⟩ := read_source hvalue
    cases htext
    exact .inr ⟨t, u, v, hskip, hnext, hread⟩
  · rename_i t hskip
    obtain ⟨⟨found, rest⟩, hkeyed, hfill⟩ := bind_eq_ok hrecord
    obtain ⟨values, hfill, hvalues⟩ := bind_eq_ok hfill
    cases hvalues
    rw [fields, fillAbsent, Option.or_none] at hfill
    split at hfill
    · cases hfill
    rename_i value hvalue
    obtain ⟨_, -, hlist⟩ := bind_eq_ok hfill
    cases hlist
    rcases readKeyed_source hkeyed hvalue with hnone | ⟨text, u, v, htext, hu, hv⟩
    · cases hnone
    cases htext
    exact .inl ⟨t, u, v, hskip, hu, hv⟩
  · exact absurd hrecord failType_ne_ok

end Body

namespace Limits

open Body

theorem accepted_payload_has_source (limits : Limits) (payload : Bytes) :
    (∀ request, limits.validatePayload payload = .ok request →
      ∃ text seconds, HasSource payload text ∧ limits.validate text seconds = .ok request) ∧
    ((∀ text, ¬ HasSource payload text) → ∃ reason, limits.validatePayload payload =
    .error (.invalidRequest reason)) ∧
    ∀ s, limits.validatePayload (91 :: (utf8 (quote s) ++ [93])) = limits.validate s none := by
  refine ⟨fun request h => ?_, fun h => ?_, fun s => ?_⟩
  · unfold validatePayload at h
    split at h
    · cases h
    rename_i body hbody
    exact ⟨body.source, body.timeout, hasSource_of_parse hbody, h⟩
  · unfold validatePayload
    split
    · exact ⟨_, rfl⟩
    rename_i body hbody
    exact absurd (hasSource_of_parse hbody) (h body.source)
  · have hnext : nextElement true (utf8 (quote s) ++ [93]) =
        .ok (some (utf8 (quote s) ++ [93])) := by
      rw [utf8_quote]
      rfl
    have hparse : Body.parse (91 :: (utf8 (quote s) ++ [93])) = .ok ⟨s, none⟩ := by
      have hskip : skipSpace (91 :: (utf8 (quote s) ++ [93])) = 91 :: (utf8 (quote s) ++ [93]) :=
        rfl
      unfold Body.parse document Body.read readRecord
      simp only [hskip, fields, readListed, hnext, readText_quote, Except.map, bind, Except.bind]
      rfl
    rw [validatePayload, hparse]
    rfl

/-- A list of a text is accepted as a request. -/
theorem list_payload_is_accepted :
    (({} : Limits).validatePayload (utf8 "[\"x\"]".toList)).toOption =
    some ⟨"x", ⟨240000000000⟩⟩ := by
  decide +kernel

end Limits

end Foundry
