/-
`std::stol` and `std::stoul` to the base 10, with a 64-bit `long`: white space, a sign and
digits are read, up to the first byte that is none. A negative number that `std::stoul` reads
is taken modulo 2^64.
-/
import Mathlib.Data.List.TakeWhile
import Supernova.DecimalText

namespace Supernova

/-- White space of the C locale. -/
def isSpace (c : UInt8) : Bool := c = 32 || 9 ≤ c && c ≤ 13

def minusSign : UInt8 := 45

def plusSign : UInt8 := 43

/-- The number of a sign and digits. -/
def signedValue (negative : Bool) (digits : Bytes) : Int :=
  if negative then -(digitsValue digits : Int) else digitsValue digits

/-- What a conversion reads: the sign, the digits and the first position behind them. -/
structure SubjectSequence where
  negative : Bool
  digits : Bytes
  pos : Nat
deriving DecidableEq, Repr

def readSign : Bytes → Bool × Bytes
  | [] => (false, [])
  | c :: s =>
      if c = minusSign then (true, s) else if c = plusSign then (false, s) else (false, c :: s)

def subjectSequence (s : Bytes) : SubjectSequence :=
  let signed := readSign (s.dropWhile isSpace)
  { negative := signed.1
    digits := signed.2.takeWhile isDigit
    pos := s.length - (signed.2.dropWhile isDigit).length }

inductive ConversionError
  | invalidArgument
  | outOfRange
deriving DecidableEq, Repr

def SubjectSequence.value (subject : SubjectSequence) : Int :=
  signedValue subject.negative subject.digits

def stol (s : Bytes) : Except ConversionError (Int × Nat) :=
  if (subjectSequence s).digits = [] then throw .invalidArgument
  else if -2 ^ 63 ≤ (subjectSequence s).value ∧ (subjectSequence s).value < 2 ^ 63 then
    pure ((subjectSequence s).value, (subjectSequence s).pos)
  else throw .outOfRange

def stoul (s : Bytes) : Except ConversionError (Int × Nat) :=
  if (subjectSequence s).digits = [] then throw .invalidArgument
  else if digitsValue (subjectSequence s).digits < 2 ^ 64 then
    pure ((subjectSequence s).value % 2 ^ 64, (subjectSequence s).pos)
  else throw .outOfRange

section Numerals

/-- White space, an optional sign and digits, and nothing else. -/
structure NumeralParts where
  space : Bytes
  sign : Option Bool
  digits : Bytes
  space_isSpace : ∀ c ∈ space, isSpace c = true
  digits_isDigit : ∀ c ∈ digits, isDigit c = true
  digits_ne_nil : digits ≠ []

def signBytes : Option Bool → Bytes
  | none => []
  | some negative => [if negative then minusSign else plusSign]

def NumeralParts.bytes (parts : NumeralParts) : Bytes :=
  parts.space ++ (signBytes parts.sign ++ parts.digits)

def NumeralParts.value (parts : NumeralParts) : Int :=
  signedValue (parts.sign.getD false) parts.digits

/-- The text is a numeral for the number. -/
def IsNumeral (s : Bytes) (n : Int) : Prop :=
  ∃ parts : NumeralParts, s = parts.bytes ∧ n = parts.value

/-- A numeral, possibly with white space behind it. -/
def DenotesInteger (s : Bytes) (n : Int) : Prop :=
  ∃ numeral space, s = numeral ++ space ∧ (∀ c ∈ space, isSpace c = true) ∧ IsNumeral numeral n

theorem isSpace_of_isDigit (c : UInt8) (h : isDigit c = true) :
    isSpace c = false ∧ c ≠ minusSign ∧ c ≠ plusSign := by
  simp only [isDigit, Bool.and_eq_true, decide_eq_true_eq, UInt8.le_iff_toNat_le,
    UInt8.toNat_ofNat] at h
  refine ⟨?_, ?_, ?_⟩
  · simp only [isSpace, Bool.or_eq_false_iff, Bool.and_eq_false_iff, decide_eq_false_iff_not,
      UInt8.le_iff_toNat_le, ← UInt8.toNat_inj, UInt8.toNat_ofNat]
    omega
  · rintro rfl
    exact absurd h (by decide)
  · rintro rfl
    exact absurd h (by decide)

theorem isSpace_sign (negative : Bool) :
    isSpace (if negative then minusSign else plusSign) = false := by
  cases negative <;> decide

theorem readSign_bytes (parts : NumeralParts) :
    readSign (signBytes parts.sign ++ parts.digits) = (parts.sign.getD false, parts.digits) := by
  rcases parts.sign with _ | negative
  · rcases hdigits : parts.digits with _ | ⟨c, digits⟩
    · rfl
    · obtain ⟨-, hminus, hplus⟩ := isSpace_of_isDigit c
        (parts.digits_isDigit c (hdigits ▸ List.mem_cons_self))
      rw [signBytes, List.nil_append, readSign, if_neg hminus, if_neg hplus]
      rfl
  · cases negative with
    | true => rfl
    | false => rfl

theorem dropWhile_isSpace_bytes (parts : NumeralParts) :
    parts.bytes.dropWhile isSpace = signBytes parts.sign ++ parts.digits := by
  rw [NumeralParts.bytes, List.dropWhile_append_of_pos parts.space_isSpace]
  rcases parts.sign with _ | negative
  · rcases hdigits : parts.digits with _ | ⟨c, digits⟩
    · exact absurd hdigits parts.digits_ne_nil
    · have hspace := (isSpace_of_isDigit c
        (parts.digits_isDigit c (hdigits ▸ List.mem_cons_self))).1
      rw [signBytes, List.nil_append, List.dropWhile_cons_of_neg (by simp [hspace])]
  · rw [signBytes, List.singleton_append,
      List.dropWhile_cons_of_neg (by simp [isSpace_sign negative])]

/-- A numeral is read to its end. -/
theorem subjectSequence_bytes (parts : NumeralParts) : subjectSequence parts.bytes =
    ⟨parts.sign.getD false, parts.digits, parts.bytes.length⟩ := by
  have htake := takeWhile_isDigit_append (r := []) parts.digits_isDigit rfl
  have hdrop := dropWhile_isDigit_append (r := []) parts.digits_isDigit rfl
  rw [List.append_nil] at htake hdrop
  rw [subjectSequence, dropWhile_isSpace_bytes, readSign_bytes, htake, hdrop]
  rfl

/-- The sign that is read, if there is one. -/
theorem exists_sign (s : Bytes) :
    ∃ sign, s = signBytes sign ++ (readSign s).2 ∧ (readSign s).1 = sign.getD false := by
  rcases s with _ | ⟨c, s⟩
  · exact ⟨none, rfl, rfl⟩
  rw [readSign]
  split_ifs with hminus hplus
  · exact ⟨some true, by rw [hminus]; rfl, rfl⟩
  · exact ⟨some false, by rw [hplus]; rfl, rfl⟩
  · exact ⟨none, rfl, rfl⟩

/-- A text that is read to its end is a numeral. -/
theorem exists_parts {s : Bytes} (hdigits : (subjectSequence s).digits ≠ [])
    (hpos : (subjectSequence s).pos = s.length) : ∃ parts : NumeralParts, s = parts.bytes := by
  obtain ⟨sign, hsign, -⟩ := exists_sign (s.dropWhile isSpace)
  change ((readSign (s.dropWhile isSpace)).2).takeWhile isDigit ≠ [] at hdigits
  change s.length - ((readSign (s.dropWhile isSpace)).2.dropWhile isDigit).length = _ at hpos
  generalize (readSign (s.dropWhile isSpace)).2 = rest at hsign hdigits hpos
  have hrest : rest.takeWhile isDigit = rest := by
    have hnonempty : 0 < s.length := by
      rw [List.length_pos_iff]
      rintro rfl
      obtain ⟨-, rfl⟩ := List.nil_eq_append_iff.mp hsign
      exact hdigits rfl
    have hsplit := List.takeWhile_append_dropWhile (p := isDigit) (l := rest)
    have hle : rest.length ≤ s.length := by
      have hspace := (List.dropWhile_suffix isSpace (l := s)).length_le
      rw [hsign, List.length_append] at hspace
      omega
    have hlength := congrArg List.length hsplit
    rw [List.length_append] at hlength
    have hnil : rest.dropWhile isDigit = [] := List.length_eq_zero_iff.mp (by omega)
    rw [hnil, List.append_nil] at hsplit
    exact hsplit
  refine ⟨⟨s.takeWhile isSpace, sign, rest, ?_, ?_, hrest ▸ hdigits⟩, ?_⟩
  · exact fun c hc => List.mem_takeWhile_imp hc
  · exact fun c hc => List.mem_takeWhile_imp (hrest.symm ▸ hc)
  · rw [NumeralParts.bytes, ← hsign, List.takeWhile_append_dropWhile]

theorem IsNumeral.eq {s : Bytes} {n m : Int} (hn : IsNumeral s n) (hm : IsNumeral s m) :
    n = m := by
  obtain ⟨parts, rfl, rfl⟩ := hn
  obtain ⟨parts', hparts, rfl⟩ := hm
  have hsubject := (subjectSequence_bytes parts).symm.trans
    ((congrArg subjectSequence hparts).trans (subjectSequence_bytes parts'))
  injection hsubject with hsign hdigits _
  rw [NumeralParts.value, NumeralParts.value, hsign, hdigits]

/-- White space behind a numeral does not change what it denotes. -/
theorem IsNumeral.eq_of_denotes {s : Bytes} {n m : Int} (h : IsNumeral s n)
    (h' : DenotesInteger s m) : n = m := by
  obtain ⟨numeral, space, rfl, hspace, hm⟩ := h'
  rcases List.eq_nil_or_concat space with rfl | ⟨front, c, rfl⟩
  · rw [List.append_nil] at h
    exact h.eq hm
  · obtain ⟨parts, hparts, -⟩ := h
    obtain ⟨digits, d, hdigits⟩ := (List.eq_nil_or_concat parts.digits).resolve_left
      parts.digits_ne_nil
    have hlast := congrArg List.getLast? hparts
    obtain rfl : c = d := by simpa [NumeralParts.bytes, hdigits] using hlast
    have hnot := (isSpace_of_isDigit c (parts.digits_isDigit c (by simp [hdigits]))).1
    rw [hspace c (by simp)] at hnot
    cases hnot

theorem denotesInteger_of_isNumeral {s : Bytes} {n : Int} (h : IsNumeral s n) :
    DenotesInteger s n :=
  ⟨s, [], (List.append_nil s).symm, by simp, h⟩

end Numerals

section Conversions

variable {s : Bytes} {n : Int}

theorem stol_eq_ok_iff : stol s = .ok (n, s.length) ↔
    IsNumeral s n ∧ -2 ^ 63 ≤ n ∧ n < 2 ^ 63 := by
  constructor
  · intro h
    rw [stol] at h
    split_ifs at h with hnil hrange
    obtain ⟨hn, hpos⟩ := Prod.mk.inj (Except.ok.inj h)
    obtain ⟨parts, rfl⟩ := exists_parts hnil hpos
    rw [hn] at hrange
    rw [subjectSequence_bytes] at hn
    exact ⟨⟨parts, rfl, hn.symm⟩, hrange⟩
  · rintro ⟨⟨parts, rfl, rfl⟩, hrange⟩
    rw [stol, subjectSequence_bytes, if_neg parts.digits_ne_nil]
    exact if_pos hrange

/-- A number between -2^64 and 2^64 is read, as its remainder. -/
theorem stoul_eq_ok_iff : stoul s = .ok (n, s.length) ↔
    ∃ m, IsNumeral s m ∧ -2 ^ 64 < m ∧ m < 2 ^ 64 ∧ n = m % 2 ^ 64 := by
  have hrange : ∀ parts : NumeralParts, digitsValue parts.digits < 2 ^ 64 ↔
      -2 ^ 64 < parts.value ∧ parts.value < 2 ^ 64 := by
    intro parts
    rw [NumeralParts.value]
    cases parts.sign.getD false with
    | true => simp only [signedValue, if_true]; omega
    | false => simp only [signedValue, Bool.false_eq_true, if_false]; omega
  constructor
  · intro h
    rw [stoul] at h
    split_ifs at h with hnil hlt
    obtain ⟨hn, hpos⟩ := Prod.mk.inj (Except.ok.inj h)
    obtain ⟨parts, rfl⟩ := exists_parts hnil hpos
    rw [subjectSequence_bytes] at hn hlt
    obtain ⟨hlow, hhigh⟩ := (hrange parts).mp hlt
    exact ⟨parts.value, ⟨parts, rfl, rfl⟩, hlow, hhigh, hn.symm⟩
  · rintro ⟨m, ⟨parts, rfl, rfl⟩, hlow, hhigh, rfl⟩
    rw [stoul, subjectSequence_bytes, if_neg parts.digits_ne_nil]
    exact if_pos ((hrange parts).mpr ⟨hlow, hhigh⟩)

end Conversions

end Supernova
