/-
What the serializer writes is a text of the grammar that denotes the value it
was given, with the members in their order and the integers in decimal digits.
-/
import Supernova.FxJsonAcceptance

namespace Supernova

attribute [local semireducible] ByteArray.toList.loop

namespace Fx

open BinaryFormat

/-- An integer of magnitude at most `2 ^ 53`. -/
def Integral (value : Double) : Prop :=
  value.finite = true ∧ value.rational.den = 1 ∧ |value.rational| ≤ 2 ^ 53

/-- Values of booleans, nulls, strings of any bytes, such integers, and maps of
these, with objects nested at most so many levels deep. -/
inductive Serializable : Nat → JsonValue → Prop
  | null {levels : Nat} : Serializable levels .null
  | boolean {levels : Nat} (value : Bool) : Serializable levels (.boolean value)
  | number {levels : Nat} {value : Double} (h : Integral value) :
      Serializable levels (.number value)
  | string {levels : Nat} (value : Bytes) : Serializable levels (.string value)
  | object {levels : Nat} {members : List (Bytes × JsonValue)}
      (hsorted : members.Pairwise fun m m' => MapKey.sortKey m.1 < MapKey.sortKey m'.1)
      (h : ∀ m ∈ members, Serializable levels m.2) : Serializable (levels + 1) (.object members)

/-- Equal values; numbers are compared by `==`. -/
inductive Equal : JsonValue → JsonValue → Prop
  | null : Equal .null .null
  | boolean (value : Bool) : Equal (.boolean value) (.boolean value)
  | number {value value' : Double} (h : value.eq value' = true) :
      Equal (.number value) (.number value')
  | string (value : Bytes) : Equal (.string value) (.string value)
  | object {members members' : List (Bytes × JsonValue)}
      (hnames : members.map Prod.fst = members'.map Prod.fst)
      (h : List.Forall₂ Equal (members.map Prod.snd) (members'.map Prod.snd)) :
      Equal (.object members) (.object members')

section Strings

theorem hexDigit_hexByte : ∀ d < 16, HexDigit (hexByte d) d := by
  intro d hd
  rw [← hexDigit_eq_some]
  revert d
  decide

/-- What the serializer writes for a byte is read as that byte. -/
theorem charactersText_escapeCharacter (c : UInt8) {x s : Bytes} (h : CharactersText x s) :
    CharactersText (escapeCharacter c ++ x) (c :: s) := by
  have hnamed : ∀ e meant, (e, meant) ∈ namedEscapes →
      CharactersText ([92, e] ++ x) (meant :: s) :=
    fun e meant hmem => .escape (.named hmem) h
  have htexts : text "\\\"" = [92, 34] ∧ text "\\\\" = [92, 92] ∧ text "\\b" = [92, 98] ∧
      text "\\f" = [92, 102] ∧ text "\\n" = [92, 110] ∧ text "\\r" = [92, 114] ∧
      text "\\t" = [92, 116] ∧ text "\\u00" = [92, 117, 48, 48] := by
    decide
  obtain ⟨hquote, hbackslash, hb, hf, hn, hr, ht, hu⟩ := htexts
  unfold escapeCharacter
  split
  · rename_i hc
    rw [hc, hquote]
    exact hnamed 34 34 (by decide)
  split
  · rename_i hc
    rw [hc, hbackslash]
    exact hnamed 92 92 (by decide)
  split
  · rename_i hc
    rw [hc, hb]
    exact hnamed 98 8 (by decide)
  split
  · rename_i hc
    rw [hc, hf]
    exact hnamed 102 12 (by decide)
  split
  · rename_i hc
    rw [hc, hn]
    exact hnamed 110 10 (by decide)
  split
  · rename_i hc
    rw [hc, hr]
    exact hnamed 114 13 (by decide)
  split
  · rename_i hc
    rw [hc, ht]
    exact hnamed 116 9 (by decide)
  split
  · rename_i hc
    have hlt : c.toNat < 32 := hc
    obtain ⟨character, hcharacter⟩ :=
      exists_character (Nat.lt_trans hlt (by decide)) (by omega : ¬ (0xD800 ≤ c.toNat ∧ _))
    have hencoded : String.utf8EncodeChar character = [c] := by
      rw [← utf8Bytes_eq (by omega), hcharacter, utf8Bytes, if_pos (by omega), UInt8.ofNat_toNat]
    have hvalue : character.toNat = 0 * 4096 + 0 * 256 + c.toNat / 16 * 16 + c.toNat % 16 := by
      omega
    rw [hu]
    have hescape := EscapeText.codePoint (hexDigit_hexByte 0 (by decide))
      (hexDigit_hexByte 0 (by decide)) (hexDigit_hexByte (c.toNat / 16) (by omega))
      (hexDigit_hexByte (c.toNat % 16) (by omega)) hvalue
    rw [hencoded] at hescape
    exact .escape hescape h
  · rename_i h34 h92 _ _ _ _ _ hc
    exact .raw ⟨by simpa using hc, h34, h92⟩ h

theorem stringText_escaped (s : Bytes) : StringText (escaped s) s := by
  refine ⟨s.flatMap escapeCharacter, rfl, ?_⟩
  induction s with
  | nil => exact .nil
  | cons c s ih => exact charactersText_escapeCharacter c ih

end Strings

section Numbers

theorem Double.rational_magnitude (d : Double) :
    |d.rational| = binary64.value d.magnitude := by
  rw [Double.rational]
  split
  · rw [abs_neg, abs_of_nonneg (value_nonneg _ _)]
  · exact abs_of_nonneg (value_nonneg _ _)

/-- The text of an integer is a number without fraction and exponent; it denotes
the same magnitude, and zero without a sign. -/
theorem numberText_insertInteger {d : Double} (hd : Integral d) :
    NumberText (insertInteger d.rational.num)
      (Double.ofMagnitude (d.rational.num < 0) d.magnitude) := by
  obtain ⟨hfinite, hden, -⟩ := hd
  generalize hz : d.rational.num = z
  have hmagnitude : (z.natAbs : ℚ) = binary64.value d.magnitude := by
    rw [← Double.rational_magnitude, ← Rat.num_div_den d.rational, hden, hz, Nat.cast_natAbs]
    simp
  have hwhole : decimal z.natAbs = [48] ∨
      (Digits (decimal z.natAbs) ∧ (decimal z.natAbs).head? ≠ some 48) := by
    rcases Nat.eq_zero_or_pos z.natAbs with hzero | hpos
    · rw [hzero]
      exact .inl (by decide)
    · obtain ⟨d, digits, hdigits, hd, hlt⟩ := decimal_of_pos hpos
      refine .inr ⟨⟨by simp [hdigits], fun c hc => isDigit_of_mem_decimal hc⟩, ?_⟩
      have hne : ∀ d < 10, 0 < d → digitByte d ≠ 48 := by decide
      rw [hdigits, List.head?_cons, ne_eq, Option.some.injEq]
      exact hne d hlt hd
  let n : Numeral := ⟨z < 0, decimal z.natAbs, none, none, hwhole, by simp⟩
  refine ⟨n, ?_, ?_⟩
  · by_cases hneg : z < 0
    · simp [n, Numeral.text, Numeral.unsignedText, signText, fractionText, exponentText,
        insertInteger, hneg]
    · simp [n, Numeral.text, Numeral.unsignedText, signText, fractionText, exponentText,
        insertInteger, hneg]
  · have hlt : d.magnitude < binary64.infinity := by simpa [Double.finite] using hfinite
    have hround : binary64.round n.magnitude = d.magnitude := by
      have heq : n.magnitude = binary64.value d.magnitude := by
        simpa [n, Numeral.magnitude, digitsValue_decimal] using hmagnitude
      rw [heq, round_value _ hlt]
    rw [Numeral.Denotes, hround]
    exact ⟨hlt, rfl⟩

theorem formatNumber_integral {d : Double} (hd : Integral d) :
    formatNumber d = pure (insertInteger d.rational.num) := by
  obtain ⟨hfinite, hden, hle⟩ := hd
  simp [formatNumber, hfinite, hden, hle]

/-- What is read back is the same number, and is written the same way. -/
theorem ofMagnitude_num {d : Double} (hd : Integral d) :
    (Double.ofMagnitude (d.rational.num < 0) d.magnitude).eq d = true ∧
      formatNumber (Double.ofMagnitude (d.rational.num < 0) d.magnitude) =
        pure (insertInteger d.rational.num) := by
  have hlt : d.magnitude < binary64.infinity := by simpa [Double.finite] using hd.1
  obtain ⟨hnegative, hmagnitude⟩ :=
    Double.ofMagnitude_spec (d.rational.num < 0) (hlt.trans (infinity_lt binary64))
  have habs := Double.rational_magnitude d
  have hrational : (Double.ofMagnitude (d.rational.num < 0) d.magnitude).rational =
      d.rational := by
    rw [Double.rational, hnegative, hmagnitude, ← habs]
    by_cases hneg : d.rational < 0
    · simp [hneg, abs_of_neg hneg]
    · simp [hneg, abs_of_nonneg (not_lt.mp hneg)]
  have hfinite : (Double.ofMagnitude (d.rational.num < 0) d.magnitude).finite = true := by
    rw [Double.finite, hmagnitude]
    simpa using hlt
  constructor
  · have hnan : d.isNaN = false := by simp [Double.isNaN, BinaryFormat.isNaN, hlt.le]
    have hnan' : (Double.ofMagnitude (d.rational.num < 0) d.magnitude).isNaN = false := by
      rw [Double.isNaN, hmagnitude]
      exact hnan
    rcases Nat.eq_zero_or_pos d.magnitude with hzero | hpos
    · rw [Double.eq, hnan, hnan', hmagnitude, hzero]
      simp
    · have hvalue : 0 < |d.rational| := by
        rw [habs]
        refine lt_of_le_of_ne (value_nonneg _ _) fun hzero => ?_
        have hround := round_value binary64 hlt
        rw [← hzero] at hround
        have hround0 : binary64.round 0 = 0 := by simp [BinaryFormat.round]
        omega
      have hsign : d.rational.num < 0 ↔ d.negative = true := by
        rw [habs] at hvalue
        rw [Rat.num_neg, Double.rational]
        rcases d.negative with _ | _
        · simpa using hvalue.le
        · simpa using hvalue
      have hdecide : decide (d.rational.num < 0) = d.negative := by simp [hsign]
      rw [hdecide, Double.ofMagnitude_self, Double.eq_self, hnan]
      rfl
  · have hintegral : Integral (Double.ofMagnitude (d.rational.num < 0) d.magnitude) := by
      refine ⟨hfinite, ?_, ?_⟩
      · rw [hrational]
        exact hd.2.1
      · rw [hrational]
        exact hd.2.2
    rw [formatNumber_integral hintegral, hrational]

end Numbers

section Values

/-- The members of an object whose values are written and read back. -/
theorem serializeMembers_text {levels : Nat} {members : List (Bytes × JsonValue)}
    (h : ∀ m ∈ members, ∃ x, serializeValue m.2 = .ok x ∧ ∃ value,
      ValueText (ObjectText levels) x value ∧ Equal value m.2 ∧ serializeValue value = .ok x) :
    ∃ y, serializeMembers members = .ok y ∧ ∃ ms,
      (members ≠ [] → MembersText (ObjectText levels) y ms) ∧
        ms.map Prod.fst = members.map Prod.fst ∧
        List.Forall₂ Equal (ms.map Prod.snd) (members.map Prod.snd) ∧
        serializeMembers ms = .ok y := by
  induction members with
  | nil => exact ⟨[], rfl, [], fun hne => absurd rfl hne, rfl, .nil, rfl⟩
  | cons m members ih =>
      obtain ⟨name, value⟩ := m
      rw [List.forall_mem_cons] at h
      obtain ⟨⟨x, hx, value', htext, hequal, hback⟩, hmembers⟩ := h
      obtain ⟨y, hy, ms, hmembersText, hnames, hvalues, hmembersBack⟩ := ih hmembers
      have hempty : ms.isEmpty = members.isEmpty := by
        rw [← List.isEmpty_map (f := Prod.fst), hnames, List.isEmpty_map]
      refine ⟨escaped name ++ 58 :: x ++ (if members.isEmpty then [] else 44 :: y), ?_,
        (name, value') :: ms, ?_, ?_, ?_, ?_⟩
      · simp only [serializeMembers, hx, hy]
        rfl
      · intro _
        have hmember : MemberText (ObjectText levels) (escaped name ++ 58 :: x) (name, value') :=
          .mk blank_nil (stringText_escaped name) blank_nil blank_nil htext
        rcases members with _ | ⟨m, members⟩
        · rw [List.map_eq_nil_iff.mp hnames]
          exact .one hmember blank_nil
        · exact .more hmember blank_nil (hmembersText (List.cons_ne_nil m members))
      · rw [List.map_cons, List.map_cons, hnames]
      · exact .cons hequal hvalues
      · simp only [serializeMembers, hback, hmembersBack, hempty]
        rfl

/-- What the serializer writes denotes an equal value, which is written the same
way again. -/
theorem serializeValue_text {levels : Nat} {value : JsonValue}
    (h : Serializable levels value) :
    ∃ x, serializeValue value = .ok x ∧ ∃ value', ValueText (ObjectText levels) x value' ∧
      Equal value' value ∧ serializeValue value' = .ok x := by
  induction h with
  | null => exact ⟨_, rfl, _, .null, .null, rfl⟩
  | boolean value => exact ⟨_, rfl, _, .boolean value, .boolean value, rfl⟩
  | number h =>
      obtain ⟨heq, hformat⟩ := ofMagnitude_num h
      refine ⟨_, ?_, _, .number (numberText_insertInteger h), .number heq, ?_⟩
      · rw [serializeValue]
        exact formatNumber_integral h
      · rw [serializeValue]
        exact hformat
  | string value => exact ⟨_, rfl, _, .string (stringText_escaped value), .string value, rfl⟩
  | @object levels members hsorted _ ih =>
      obtain ⟨y, hy, ms, htext, hnames, hvalues, hback⟩ := serializeMembers_text ih
      refine ⟨123 :: (y ++ [125]), ?_, .object ms, .object ?_, .object hnames hvalues, ?_⟩
      · simp only [serializeValue, hy]
        rfl
      · rcases members with _ | ⟨m, members⟩
        · rw [List.map_eq_nil_iff.mp hnames]
          cases hy
          exact .inl ⟨[], blank_nil, rfl, rfl⟩
        · have hsorted' : ms.Pairwise fun m m' => MapKey.sortKey m.1 < MapKey.sortKey m'.1 := by
            have hkeys : ((m :: members).map Prod.fst).Pairwise
                fun k k' => MapKey.sortKey k < MapKey.sortKey k' :=
              List.pairwise_map.mpr hsorted
            rw [← hnames, List.pairwise_map] at hkeys
            exact hkeys
          have hnodup : (ms.map Prod.fst).Nodup := by
            rw [List.Nodup, List.pairwise_map]
            exact hsorted'.imp fun hlt heq => absurd (heq ▸ hlt) (lt_irrefl _)
          exact .inr ⟨y, ms, ms, htext (List.cons_ne_nil m members), hnodup,
            ⟨hsorted', List.Perm.refl ms⟩, rfl, rfl⟩
      · simp only [serializeValue, hback]
        rfl

end Values

/-- What is written of such an object is a document that denotes an equal one. -/
theorem documentText_serialize {members : List (Bytes × JsonValue)}
    (h : Serializable kMaxDepth (.object members)) :
    ∃ x, serializeValue (.object members) = .ok x ∧ ∃ value, DocumentText x value ∧
      Equal value (.object members) ∧ serializeValue value = .ok x := by
  obtain ⟨x, hx, value, htext, hequal, hback⟩ := serializeValue_text h
  have hobject : ObjectText kMaxDepth x value := by
    rcases hequal with _ | _ | _ | _ | _
    rcases htext with _ | _ | _ | _ | hobject
    exact hobject
  exact ⟨x, hx, value, ⟨[], x, [], blank_nil, blank_nil, hobject, by simp⟩, hequal, hback⟩

/-- Serializing such an object succeeds; when the text is within the size limit,
the parser reads an equal object, and that is serialized to the same text. -/
theorem parseJsonObject_serialize {members : List (Bytes × JsonValue)}
    (h : Serializable kMaxDepth (.object members)) :
    ∃ x, serializeValue (.object members) = .ok x ∧ (x.length ≤ 64 * 1024 →
      ∃ value, parseJsonObject x = .ok value ∧ Equal value (.object members) ∧
        serializeValue value = .ok x) := by
  obtain ⟨x, hx, value, hdocument, hequal, hback⟩ := documentText_serialize h
  exact ⟨x, hx, fun hsize =>
    ⟨value, parseJsonObject_eq_ok_iff.2 ⟨hsize, hdocument⟩, hequal, hback⟩⟩

theorem parseJsonObject_serialize_nested :
    ∃ x, serializeValue (.object [(text "active", .boolean true),
        (text "peer", .object [(text "publisherId", .number (Double.ofRational 91))])]) = .ok x ∧
      (x.length ≤ 64 * 1024 → ∃ value, parseJsonObject x = .ok value ∧
        Equal value (.object [(text "active", .boolean true),
          (text "peer", .object [(text "publisherId", .number (Double.ofRational 91))])]) ∧
        serializeValue value = .ok x) := by
  refine parseJsonObject_serialize (.object (by decide) ?_)
  rintro m hm
  simp only [List.mem_cons, List.not_mem_nil, or_false] at hm
  rcases hm with rfl | rfl
  · exact .boolean true
  · refine .object (by decide) ?_
    rintro m hm
    rw [List.mem_singleton.mp hm]
    exact .number ⟨by decide +kernel, by decide +kernel, by decide +kernel⟩

end Fx

end Supernova
