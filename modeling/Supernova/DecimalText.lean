/-
Decimal numbers as text: the number that a run of digits stands for, and the
digits that a stream writes.
-/
import Mathlib.Data.List.Induction
import Mathlib.Tactic.Ring
import Supernova.StandardString

namespace Supernova

theorem byteArray_toList_loop (bytes : ByteArray) (turns i : Nat) (r : List UInt8)
    (hturns : bytes.data.size ≤ i + turns) :
    ByteArray.toList.loop bytes i r = r.reverse ++ bytes.data.toList.drop i := by
  have hsize : bytes.size = bytes.data.size := rfl
  induction turns generalizing i r with
  | zero =>
      rw [ByteArray.toList.loop, if_neg (by omega), List.drop_eq_nil_of_le (by simpa using hturns),
        List.append_nil]
  | succ turns ih =>
      rw [ByteArray.toList.loop]
      by_cases hi : i < bytes.data.size
      · have hlt : i < bytes.data.toList.length := by simpa using hi
        have hget : bytes.get! i = bytes.data.toList[i] := by
          change bytes.data[i]! = _
          rw [getElem!_pos bytes.data i hi, Array.getElem_toList]
        rw [if_pos (by omega), ih _ _ (by omega), hget, List.reverse_cons, List.append_assoc,
          List.singleton_append, ← List.drop_eq_getElem_cons hlt]
      · rw [if_neg (by omega), List.drop_eq_nil_of_le (by simpa using hi), List.append_nil]

theorem byteArray_toList_eq (bytes : ByteArray) : bytes.toList = bytes.data.toList := by
  rw [ByteArray.toList, byteArray_toList_loop bytes bytes.data.size 0 [] (by omega)]
  rfl

theorem text_ofList (l : List Char) :
    text (String.ofList l) = l.flatMap String.utf8EncodeChar := by
  rw [text, String.toUTF8_eq_toByteArray, byteArray_toList_eq, String.toByteArray_ofList,
    List.utf8Encode]
  simp

/-- The byte of a digit. -/
def digitByte (d : Nat) : UInt8 := UInt8.ofNat (48 + d)

/-- A byte from `'0'` to `'9'`. -/
def isDigit (c : UInt8) : Bool := 48 ≤ c && c ≤ 57

/-- The number that a run of digits stands for. -/
def digitsValue (digits : Bytes) : Nat :=
  digits.foldl (fun n c => 10 * n + (c.toNat - 48)) 0

theorem digitsValue_append_singleton (digits : Bytes) (c : UInt8) :
    digitsValue (digits ++ [c]) = 10 * digitsValue digits + (c.toNat - 48) := by
  simp [digitsValue]

theorem digitsValue_append (digits digits' : Bytes) : digitsValue (digits ++ digits') =
    digitsValue digits * 10 ^ digits'.length + digitsValue digits' := by
  induction digits' using List.reverseRecOn with
  | nil => simp [digitsValue]
  | append_singleton digits' c ih =>
      rw [← List.append_assoc, digitsValue_append_singleton, digitsValue_append_singleton, ih,
        List.length_append, List.length_singleton, pow_succ]
      ring

/-- Reading digits stops at the first byte that is none. -/
theorem takeWhile_isDigit_append {digits r : Bytes} (hdigits : ∀ c ∈ digits, isDigit c = true)
    (hr : isDigit (r.headD 0) = false) : (digits ++ r).takeWhile isDigit = digits := by
  rw [List.takeWhile_append_of_pos hdigits]
  rcases r with _ | ⟨c, r⟩
  · simp
  · rw [List.headD_cons] at hr
    simp [hr]

theorem dropWhile_isDigit_append {digits r : Bytes} (hdigits : ∀ c ∈ digits, isDigit c = true)
    (hr : isDigit (r.headD 0) = false) : (digits ++ r).dropWhile isDigit = r := by
  rw [List.dropWhile_append_of_pos hdigits]
  rcases r with _ | ⟨c, r⟩
  · rfl
  · rw [List.headD_cons] at hr
    simp [hr]

theorem utf8EncodeChar_digitChar : ∀ d < 10,
    String.utf8EncodeChar d.digitChar = [digitByte d] := by
  decide

theorem decimal_eq (n : Nat) :
    decimal n = (Nat.toDigits 10 n).flatMap String.utf8EncodeChar := by
  rw [decimal, Nat.toString_eq_ofList_toDigits, text_ofList]

theorem decimal_of_lt {n : Nat} (h : n < 10) : decimal n = [digitByte n] := by
  rw [decimal_eq, Nat.toDigits_of_lt_base h, List.flatMap_singleton,
    utf8EncodeChar_digitChar n h]

theorem decimal_of_le {n : Nat} (h : 10 ≤ n) :
    decimal n = decimal (n / 10) ++ [digitByte (n % 10)] := by
  rw [decimal_eq, decimal_eq, Nat.toDigits_of_base_le (by decide) h, List.flatMap_append,
    List.flatMap_singleton, utf8EncodeChar_digitChar _ (Nat.mod_lt _ (by decide))]

theorem isDigit_digitByte : ∀ d < 10, isDigit (digitByte d) = true := by
  decide

theorem digitByte_value : ∀ d < 10, (digitByte d).toNat - 48 = d := by
  decide

theorem digitsValue_decimal (n : Nat) : digitsValue (decimal n) = n := by
  induction n using Nat.strong_induction_on with
  | _ n ih =>
      by_cases h : n < 10
      · rw [decimal_of_lt h]
        simpa [digitsValue] using digitByte_value n h
      · rw [decimal_of_le (by omega), digitsValue_append_singleton, ih _ (by omega),
          digitByte_value _ (Nat.mod_lt _ (by decide))]
        omega

theorem isDigit_of_mem_decimal {n : Nat} {c : UInt8} (hc : c ∈ decimal n) :
    isDigit c = true := by
  induction n using Nat.strong_induction_on generalizing c with
  | _ n ih =>
      by_cases h : n < 10
      · rw [decimal_of_lt h, List.mem_singleton] at hc
        exact hc ▸ isDigit_digitByte n h
      · rw [decimal_of_le (by omega), List.mem_append, List.mem_singleton] at hc
        rcases hc with hc | rfl
        · exact ih _ (by omega) hc
        · exact isDigit_digitByte _ (Nat.mod_lt _ (by decide))

/-- A positive number is written without a leading zero. -/
theorem decimal_of_pos {n : Nat} (h : 0 < n) :
    ∃ d digits, decimal n = digitByte d :: digits ∧ 0 < d ∧ d < 10 := by
  induction n using Nat.strong_induction_on with
  | _ n ih =>
      by_cases hlt : n < 10
      · exact ⟨n, [], decimal_of_lt hlt, h, hlt⟩
      · obtain ⟨d, digits, hdigits, hd⟩ := ih (n / 10) (by omega) (by omega)
        exact ⟨d, digits ++ [digitByte (n % 10)], by
          rw [decimal_of_le (by omega), hdigits, List.cons_append], hd⟩

end Supernova
