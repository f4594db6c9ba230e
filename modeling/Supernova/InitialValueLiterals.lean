/-
Initial values of integer cache variables in a design: the validator reads the text with
`int()` and a table of ranges, and the generated code has the same text as a C++ expression.
-/
import Supernova.CacheVariables
import Supernova.IntegerLiterals

namespace Supernova

attribute [local semireducible] ByteArray.toList.loop

namespace Quasar

section Literals

variable (unicode : UnicodeDatabase) (float : Bytes → Bool) (locator : Bytes)

/-- The interpreter's `int`; `float` is not looked into here. -/
def pythonNumbers : NumberLiterals where
  float := float
  int literal := (String.fromUTF8? ⟨literal.toArray⟩).bind (pythonInt unicode)

def wrapLiteral (dataType : DataType) (literal : Bytes) : Bytes :=
  if dataType = .uaString then text "\"" ++ literal ++ text "\"" else literal

def integerDataTypes : List DataType :=
  [.sByte, .byte, .int16, .uInt16, .int32, .uInt32, .int64, .uInt64]

/-- What the types of OPC UA hold. -/
def opcUaRange : DataType → Int × Int
  | .sByte => (-2 ^ 7, 2 ^ 7 - 1)
  | .byte => (0, 2 ^ 8 - 1)
  | .int16 => (-2 ^ 15, 2 ^ 15 - 1)
  | .uInt16 => (0, 2 ^ 16 - 1)
  | .int32 => (-2 ^ 31, 2 ^ 31 - 1)
  | .uInt32 => (0, 2 ^ 32 - 1)
  | .int64 => (-2 ^ 63, 2 ^ 63 - 1)
  | .uInt64 => (0, 2 ^ 64 - 1)
  | _ => (0, 0)

def InRange (range : Int × Int) (n : Int) : Prop := range.1 ≤ n ∧ n ≤ range.2

def Accepted (dataType : DataType) (initialValue : String) : Prop :=
  validateInitialValue (pythonNumbers unicode float) (text initialValue) dataType locator =
    .ok ⟨⟩

/-- The decimal literals in the range of the type are accepted and no other texts, and what
is accepted has the value in the generated code that was checked. -/
structure MeansChecked (dataType : DataType) (initialValue : String) : Prop where
  accepted_iff : Accepted unicode float locator dataType initialValue ↔
    ∃ n, DenotesInteger (text initialValue) n ∧ InRange (opcUaRange dataType) n
  means : Accepted unicode float locator dataType initialValue →
    ∃ n, pythonInt unicode initialValue = some n ∧
      signedLiteral (wrapLiteral dataType (text initialValue)) = some n

/-- A text that `int` reads as a number of the type is a decimal literal if and only if the
number is in the validator's table, and then it has no leading zero if it is not small and
is not the least 64-bit number. -/
def FavourableLiteral (dataType : DataType) (initialValue : String) : Prop :=
  ∀ n, pythonInt unicode initialValue = some n → InRange (opcUaRange dataType) n →
    (DenotesInteger (text initialValue) n ↔ InRange (integerDataTypesRange dataType) n) ∧
    (InRange (integerDataTypesRange dataType) n →
      (¬LeadingZero (text initialValue) ∨ n.natAbs < 8) ∧ n ≠ -2 ^ 63)

end Literals

section Validated

variable {unicode : UnicodeDatabase} {float : Bytes → Bool} {locator : Bytes}
  {dataType : DataType} {initialValue : String}

theorem fromUTF8?_text (s : String) : String.fromUTF8? ⟨(text s).toArray⟩ = some s := by
  have hbytes : (⟨(text s).toArray⟩ : ByteArray) = s.toByteArray := by
    rw [text, byteArray_toList_eq]
    rfl
  rw [hbytes]
  exact dif_pos s.isValidUTF8

theorem accepted_iff_int (htype : dataType ∈ integerDataTypes) :
    Accepted unicode float locator dataType initialValue ↔
      ∃ n, pythonInt unicode initialValue = some n ∧
        InRange (integerDataTypesRange dataType) n := by
  have hfloat : ¬(dataType = .float ∨ dataType = .double) := by
    revert dataType
    decide
  have hvalidate : validateInitialValue (pythonNumbers unicode float) (text initialValue) dataType
      locator = assertNumericLiteralValid (pythonNumbers unicode float) (text initialValue)
        dataType locator := by
    simp only [integerDataTypes, List.mem_cons, List.not_mem_nil, or_false] at htype
    rcases htype with rfl | rfl | rfl | rfl | rfl | rfl | rfl | rfl <;> rfl
  have hint : (pythonNumbers unicode float).int (text initialValue) =
      pythonInt unicode initialValue := by
    change (String.fromUTF8? ⟨(text initialValue).toArray⟩).bind (pythonInt unicode) = _
    rw [fromUTF8?_text]
    rfl
  rw [Accepted, hvalidate, assertNumericLiteralValid, if_neg hfloat, hint]
  rcases pythonInt unicode initialValue with _ | n
  · simp [raise_eq_ok]
  · by_cases hrange : n < (integerDataTypesRange dataType).1 ∨
        (integerDataTypesRange dataType).2 < n
    · simp only [if_pos hrange, raise_eq_ok, Option.some.injEq, exists_eq_left', false_iff]
      rintro ⟨hlow, hhigh⟩
      omega
    · simp only [if_neg hrange, Option.some.injEq, exists_eq_left', except_pure_eq_ok, true_iff]
      exact ⟨by omega, by omega⟩

/-- The table has numbers of the types only, and they fit into the widest C++ integer. -/
theorem table_bounds : ∀ dataType ∈ integerDataTypes,
    ((opcUaRange dataType).1 ≤ (integerDataTypesRange dataType).1 ∧
      (integerDataTypesRange dataType).2 ≤ (opcUaRange dataType).2) ∧
    -2 ^ 63 ≤ (integerDataTypesRange dataType).1 ∧
      (integerDataTypesRange dataType).2 < 2 ^ 63 := by
  decide

theorem inRange_opcUa (htype : dataType ∈ integerDataTypes) {n : Int}
    (h : InRange (integerDataTypesRange dataType) n) : InRange (opcUaRange dataType) n := by
  obtain ⟨⟨hleast, hgreatest⟩, -⟩ := table_bounds dataType htype
  exact ⟨hleast.trans h.1, h.2.trans hgreatest⟩

theorem inRange_long (htype : dataType ∈ integerDataTypes) {n : Int}
    (h : InRange (integerDataTypesRange dataType) n) : -2 ^ 63 ≤ n ∧ n < 2 ^ 63 := by
  obtain ⟨-, hleast, hgreatest⟩ := table_bounds dataType htype
  exact ⟨hleast.trans h.1, h.2.trans_lt hgreatest⟩

theorem wrapLiteral_integer (htype : dataType ∈ integerDataTypes) (literal : Bytes) :
    wrapLiteral dataType literal = literal := by
  refine if_neg ?_
  rintro rfl
  revert htype
  decide

/-- The validator and the generated code agree on an initial value, and with OPC UA, exactly
when the literal is favourable. -/
theorem meansChecked_iff (htype : dataType ∈ integerDataTypes) :
    MeansChecked unicode float locator dataType initialValue ↔
      FavourableLiteral unicode dataType initialValue := by
  have haccepted := @accepted_iff_int unicode float locator dataType initialValue htype
  have hdenotes : ∀ m, DenotesInteger (text initialValue) m →
      pythonInt unicode initialValue = some m := fun m => pythonInt_of_denotes unicode
  rcases hint : pythonInt unicode initialValue with _ | n
  · -- No text that `int` refuses is a decimal literal.
    simp only [hint, reduceCtorEq, false_and, exists_false, iff_false] at haccepted hdenotes
    refine iff_of_true ⟨iff_of_false haccepted ?_, fun h => (haccepted h).elim⟩ ?_
    · rintro ⟨m, hm, -⟩
      exact hdenotes m hm
    · intro n hn
      rw [hint] at hn
      cases hn
  simp only [hint, Option.some.injEq, exists_eq_left'] at haccepted hdenotes
  have hliteral : (∃ m, DenotesInteger (text initialValue) m ∧ InRange (opcUaRange dataType) m) ↔
      DenotesInteger (text initialValue) n ∧ InRange (opcUaRange dataType) n := by
    constructor
    · rintro ⟨m, hm, hrange⟩
      obtain rfl := hdenotes m hm
      exact ⟨hm, hrange⟩
    · exact fun h => ⟨n, h⟩
  have hmeans : DenotesInteger (text initialValue) n →
      InRange (integerDataTypesRange dataType) n →
      ((∃ m, pythonInt unicode initialValue = some m ∧
        signedLiteral (wrapLiteral dataType (text initialValue)) = some m) ↔
        (¬LeadingZero (text initialValue) ∨ n.natAbs < 8) ∧ n ≠ -2 ^ 63) := by
    intro hn hrange
    obtain ⟨hlow, hhigh⟩ := inRange_long htype hrange
    rw [wrapLiteral_integer htype, ← signedLiteral_of_denotes hn hlow hhigh, hint]
    simp
  constructor
  · rintro ⟨hiff, hvalue⟩ m hm hrange
    rw [hint, Option.some.injEq] at hm
    subst hm
    rw [haccepted, hliteral, and_iff_left hrange] at hiff
    exact ⟨hiff.symm, fun h => (hmeans (hiff.mp h) h).mp (hvalue (haccepted.mpr h))⟩
  · intro h
    by_cases hrange : InRange (opcUaRange dataType) n
    · obtain ⟨hiff, hvalue⟩ := h n hint hrange
      refine ⟨?_, fun hok => ?_⟩
      · rw [haccepted, hliteral, and_iff_left hrange, hiff]
      · have htable := haccepted.mp hok
        exact (hmeans (hiff.mpr htable) htable).mpr (hvalue htable)
    · have htable : ¬InRange (integerDataTypesRange dataType) n :=
        fun h => hrange (inRange_opcUa htype h)
      refine ⟨?_, fun hok => (htable (haccepted.mp hok)).elim⟩
      rw [haccepted, hliteral]
      exact iff_of_false htable fun h => hrange h.2

/-- An interpreter without characters beyond ASCII. -/
def asciiDatabase : UnicodeDatabase := ⟨fun _ => false, fun _ => none⟩

theorem meansChecked_iff_offset :
    MeansChecked asciiDatabase (fun _ => false) [] .int16 "-300" := by
  have hdenotes : DenotesInteger (text "-300") (-300) := denotesInteger_of_isNumeral
    ⟨⟨[], some true, text "300", by simp, List.all_eq_true.1 (by decide), by decide⟩,
      by decide, by decide⟩
  refine (meansChecked_iff (by decide)).mpr fun n hn hrange => ?_
  obtain rfl := Option.some.inj (hn.symm.trans (pythonInt_of_denotes asciiDatabase hdenotes))
  refine ⟨iff_of_true hdenotes ⟨by decide, by decide⟩, fun _ => ⟨.inl ?_, by decide⟩⟩
  unfold LeadingZero
  decide

/-- A leading zero: the validator checks ten, and the generated code has eight. -/
theorem leadingZero_not_meansChecked :
    Accepted asciiDatabase (fun _ => false) [] .int32 "010" ∧
      pythonInt asciiDatabase "010" = some 10 ∧
      signedLiteral (wrapLiteral .int32 (text "010")) = some 8 ∧
      ¬MeansChecked asciiDatabase (fun _ => false) [] .int32 "010" := by
  have hint : pythonInt asciiDatabase "010" = some 10 := by decide
  have hliteral : signedLiteral (wrapLiteral .int32 (text "010")) = some 8 := by decide
  have haccepted : Accepted asciiDatabase (fun _ => false) [] .int32 "010" :=
    (accepted_iff_int (by decide)).mpr ⟨10, hint, by decide, by decide⟩
  refine ⟨haccepted, hint, hliteral, fun h => ?_⟩
  obtain ⟨n, hn, hvalue⟩ := h.means haccepted
  rw [hint] at hn
  rw [hliteral, ← hn] at hvalue
  exact absurd hvalue (by decide)

end Validated

end Quasar

end Supernova
