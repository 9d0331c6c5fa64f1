import Foundry.Proofs.Json.Strings

/-!
# Written objects are read back

The reader takes an object apart member by member, with any blanks between the tokens, so
one argument serves the compact and the indented layout. What a member's value needs is
only that it is read back where a comma, a new line or the closing bracket follows.
-/

namespace Foundry

open List

namespace Json

variable {gap pad close rest : Bytes} {write : Json → List Char} {members : List (String × Json)}
  {layout : Layout} {m : String × Json} {more : List (String × Json)}

/-! ## Blanks -/

/-- Bytes that may stand between two tokens. -/
def IsGap (gap : Bytes) : Prop := ∀ b ∈ gap, isSpace b = true

instance (gap : Bytes) : Decidable (IsGap gap) := decidableBAll _ gap

theorem isGap_nil : IsGap [] := by decide

theorem skipSpace_gap (h : IsGap gap) (rest : Bytes) : skipSpace (gap ++ rest) = skipSpace rest :=
  dropWhile_append_of_pos h

theorem readValue_gap (h : IsGap gap) (depth fuel : Nat) (rest : Bytes) :
    readValue depth (fuel + 1) (gap ++ rest) = readValue depth (fuel + 1) rest := by
  rw [readValue, readValue, skipSpace_gap h]

/-! ## Members -/

/-- Bytes that can follow the value of a member. -/
def EndsValue (rest : Bytes) : Prop :=
  rest.head? = some 44 ∨ rest.head? = some 125 ∨ rest.head? = some 10

/-- A value is read from this text, whatever the member is followed by. -/
def IsReadFrom (v : Json) (text : List Char) : Prop :=
  ∀ depth fuel rest, EndsValue rest → readValue depth (fuel + 1) (utf8 text ++ rest) = .ok (v, rest)

theorem isReadFrom_string (s : String) : IsReadFrom (.string s) (quote s) := by
  intro depth fuel rest _
  have hbytes : utf8 (quote s) ++ rest = 34 :: (utf8 (s.toList.flatMap escape) ++ 34 :: rest) := by
    rw [utf8_quote]
    simp
  have hread : ∀ bytes, readValue depth (fuel + 1) (34 :: bytes) =
      (scanString bytes >>= fun r => .ok (.string r.1, r.2)) := by
    intro bytes
    rw [readValue]
    rfl
  rw [hbytes, hread, scanString_escaped]
  rfl

theorem isReadFrom_bool (flag : Bool) : IsReadFrom (.bool flag) (scalar (.bool flag)) := by
  intro depth fuel rest _
  cases flag <;> rw [readValue] <;> rfl

/-- The members of an object with `gap` before each key and `pad` before each value. -/
def memberBytes (gap pad : Bytes) (write : Json → List Char) : Bool → List (String × Json) → Bytes
  | _, [] => []
  | first, m :: more => (if first then gap else 44 :: gap) ++ (utf8 (quote m.1) ++
      58 :: (pad ++ (utf8 (write m.2) ++ memberBytes gap pad write false more)))

theorem length_le_memberBytes (gap pad : Bytes) (write : Json → List Char) (first : Bool)
    (members : List (String × Json)) :
    members.length ≤ (memberBytes gap pad write first members).length := by
  induction members generalizing first with
  | nil => simp
  | cons m more ih =>
    have hmore := ih false
    simp only [memberBytes, length_append, length_cons]
    omega

theorem endsValue_memberBytes (hclose : EndsValue (close ++ 125 :: rest)) (gap pad : Bytes)
    (write : Json → List Char) (members : List (String × Json)) :
    EndsValue (memberBytes gap pad write false members ++ (close ++ 125 :: rest)) := by
  cases members with
  | nil => exact hclose
  | cons m more => exact .inl rfl

theorem nextKey_gap (hgap : IsGap gap) (first : Bool) (rest : Bytes) :
    nextKey first ((if first then gap else 44 :: gap) ++ 34 :: rest) = .ok (some rest) := by
  have hquote : skipSpace (34 :: rest) = 34 :: rest := rfl
  cases first with
  | true =>
    rw [nextKey, if_pos rfl, skipSpace_gap hgap, hquote]
    rfl
  | false =>
    have hcomma : skipSpace (44 :: (gap ++ 34 :: rest)) = 44 :: (gap ++ 34 :: rest) := rfl
    have hnext : skipSpace (gap ++ 34 :: rest) = 34 :: rest := (skipSpace_gap hgap _).trans hquote
    simp [nextKey, hcomma, hnext]

theorem readMembers_memberBytes (hgap : IsGap gap) (hpad : IsGap pad) (hclose : IsGap close)
    (hend : EndsValue (close ++ 125 :: rest))
    (hread : ∀ m ∈ members, IsReadFrom m.2 (write m.2)) {depth fuel : Nat} (first : Bool)
    (hfuel : members.length < fuel) :
    readMembers depth first fuel (memberBytes gap pad write first members ++
    (close ++ 125 :: rest)) = .ok (members, rest) := by
  induction members generalizing first fuel with
  | nil =>
    obtain ⟨fuel, rfl⟩ : ∃ n, fuel = n + 1 := ⟨fuel - 1, by simp at hfuel; omega⟩
    have hskip : skipSpace (close ++ 125 :: rest) = 125 :: rest :=
      (skipSpace_gap hclose _).trans rfl
    have hnext : nextKey first (close ++ 125 :: rest) = .ok none := by
      rw [nextKey, hskip]
      rfl
    rw [memberBytes, nil_append, readMembers, hnext]
    simp [dropClose, hskip]
  | cons m more ih =>
    obtain ⟨fuel, rfl⟩ : ∃ n, fuel = n + 2 := ⟨fuel - 2, by simp at hfuel; omega⟩
    obtain ⟨hm, hmore⟩ := forall_mem_cons.mp hread
    have hlater := ih hmore false (show more.length < fuel + 1 by simpa using hfuel)
    have hvalue := hm depth fuel _ (endsValue_memberBytes hend gap pad write more)
    have hbytes : memberBytes gap pad write first (m :: more) ++ (close ++ 125 :: rest) =
        (if first then gap else 44 :: gap) ++ 34 :: (utf8 (m.1.toList.flatMap escape) ++
          34 :: 58 :: (pad ++ (utf8 (write m.2) ++
            (memberBytes gap pad write false more ++ (close ++ 125 :: rest))))) := by
      simp [memberBytes, utf8_quote]
    have hcolon : ∀ bytes, scanColon (58 :: bytes) = .ok bytes := fun _ => rfl
    rw [hbytes, readMembers, nextKey_gap hgap]
    simp only [scanString_escaped, hcolon, bind, Except.bind, readValue_gap hpad, hvalue, hlater]

/-! ## Documents -/

/-- Nothing but blanks stands between tokens, and a value can end before a closing bracket. -/
structure Layout.IsBlank (layout : Layout) : Prop where
  gap : IsGap (utf8 (layout.gap 1))
  pad : IsGap (utf8 layout.pad)
  close : IsGap (utf8 (layout.gap 0))
  ends : EndsValue (utf8 (layout.gap 0) ++ [125])

theorem isBlank_compact : Layout.compact.IsBlank :=
  ⟨isGap_nil, isGap_nil, isGap_nil, .inr (.inl rfl)⟩

theorem isBlank_indented : Layout.indented.IsBlank :=
  ⟨by decide, by decide, by decide, .inr (.inr rfl)⟩

theorem utf8_memberChars (layout : Layout) (level : Nat) (m : String × Json)
    (more : List (String × Json)) : utf8 (memberChars layout level (m :: more)) =
    memberBytes (utf8 (layout.gap level)) (utf8 layout.pad) (chars layout level) true
    (m :: more) := by
  have hcolon : String.utf8EncodeChar ':' = [58] := rfl
  have hcomma : String.utf8EncodeChar ',' = [44] := rfl
  induction more generalizing m with
  | nil => simp [memberChars, memberBytes, hcolon]
  | cons m' more ih =>
    have hlater := ih m'
    simp [memberChars, memberBytes, hcolon, hcomma, hlater]

theorem byteList_object (layout : Layout) (m : String × Json) (more : List (String × Json)) :
    (String.ofList (chars layout 0 (.object (m :: more)))).toUTF8.toList =
    123 :: (memberBytes (utf8 (layout.gap 1)) (utf8 layout.pad) (chars layout 1) true (m :: more) ++
    (utf8 (layout.gap 0) ++ [125])) := by
  rw [byteList_toUTF8, chars, utf8_cons, utf8_append, utf8_append, utf8_memberChars]
  · simp only [append_assoc]
    rfl
  · simp

/-- An object is read back from either layout, if its values are. -/
theorem parse_object (hlayout : layout.IsBlank)
    (hread : ∀ m' ∈ m :: more, IsReadFrom m'.2 (chars layout 1 m'.2)) :
    parse (String.ofList (chars layout 0 (.object (m :: more)))).toUTF8.toList =
    .ok (.object (m :: more)) := by
  have hlength := length_le_memberBytes (utf8 (layout.gap 1)) (utf8 layout.pad) (chars layout 1)
    true (m :: more)
  have hopen : ∀ depth fuel bytes, readValue (depth + 2) (fuel + 1) (123 :: bytes) =
      (readMembers (depth + 1) true fuel bytes >>= fun r => .ok (.object r.1, r.2)) := by
    intro depth fuel bytes
    rw [readValue]
    rfl
  rw [byteList_object, parse, document, depthLimit, hopen,
    readMembers_memberBytes hlayout.gap hlayout.pad hlayout.close hlayout.ends hread]
  · rfl
  simp only [length_append, length_cons] at hlength ⊢
  omega

end Json

end Foundry
