/-
Integers as texts of two languages: what `int()` of Python makes of a text, with Unicode
digits and underscores between digits, and what a signed literal means in C++, where a leading
zero makes it octal. For numerals of ASCII digits the two are compared.
-/
import Mathlib.Data.List.DropRight
import Supernova.IntegerConversions

namespace Supernova

/-- A text without the white space around it. -/
def strip (s : Bytes) : Bytes := (s.dropWhile isSpace).rdropWhile isSpace

section Python

/-- What the interpreter knows of the characters that are not ASCII. -/
structure UnicodeDatabase where
  isSpace : Char → Bool
  decimal : Char → Option (Fin 10)

variable (unicode : UnicodeDatabase)

/-- Spaces and digits become ASCII, and `?` stands for what is neither. -/
def transformDecimalAndSpaceToAscii (c : Char) : UInt8 :=
  if c.toNat < 128 then UInt8.ofNat c.toNat
  else if unicode.isSpace c then 32
  else
    match unicode.decimal c with
    | some d => digitByte d
    | none => 63

def underscore : UInt8 := 95

/-- Digits with single underscores between them; `boundary` says that an underscore cannot
stand here, and neither can the end. -/
def scanDigits : Bool → Bytes → Option Bytes
  | boundary, [] => if boundary then none else some []
  | boundary, c :: s =>
      if isDigit c then (scanDigits false s).map (c :: ·)
      else if c = underscore ∧ boundary = false then scanDigits true s
      else none

def longFromString (s : Bytes) : Option Int :=
  (scanDigits true (readSign (strip s)).2).map (signedValue (readSign (strip s)).1)

/-- `int` of a text. -/
def pythonInt (s : String) : Option Int :=
  longFromString (s.toList.map (transformDecimalAndSpaceToAscii unicode))

end Python

section Cxx

/-- The types of literals without a suffix; `long` has 64 bits. -/
inductive LiteralType
  | int
  | unsignedInt
  | long
  | unsignedLong
deriving DecidableEq, Repr

def decimalLiteralType (n : Nat) : Option LiteralType :=
  if n < 2 ^ 31 then some .int else if n < 2 ^ 63 then some .long else none

def octalLiteralType (n : Nat) : Option LiteralType :=
  if n < 2 ^ 31 then some .int
  else if n < 2 ^ 32 then some .unsignedInt
  else if n < 2 ^ 63 then some .long
  else if n < 2 ^ 64 then some .unsignedLong
  else none

def octalValue (digits : Bytes) : Nat := digits.foldl (fun n c => 8 * n + (c.toNat - 48)) 0

def isOctalDigit (c : UInt8) : Bool := 48 ≤ c && c ≤ 55

/-- A literal of digits; the program is ill-formed if there is none. -/
def integerLiteral (digits : Bytes) : Option (LiteralType × Nat) :=
  if digits.head? = some 48 then
    if digits.all isOctalDigit then
      (octalLiteralType (octalValue digits)).map fun type => (type, octalValue digits)
    else none
  else if digits ≠ [] ∧ digits.all isDigit then
    (decimalLiteralType (digitsValue digits)).map fun type => (type, digitsValue digits)
  else none

/-- The value of `-` before a literal. -/
def negated : LiteralType × Nat → Int
  | (.int, n) | (.long, n) => -n
  | (.unsignedInt, n) => -n % 2 ^ 32
  | (.unsignedLong, n) => -n % 2 ^ 64

/-- The value of an expression that is a literal of digits, with a sign or without. -/
def signedLiteral (s : Bytes) : Option Int :=
  (integerLiteral (readSign (strip s)).2).map fun literal =>
    if (readSign (strip s)).1 then negated literal else literal.2

end Cxx

section Digits

variable {digits : Bytes} {c : UInt8}

theorem scanDigits_eq (h : ∀ c ∈ digits, isDigit c = true) :
    scanDigits false digits = some digits := by
  induction digits with
  | nil => rfl
  | cons c digits ih =>
      rw [scanDigits, if_pos (h c List.mem_cons_self),
        ih fun d hd => h d (List.mem_cons_of_mem _ hd)]
      rfl

theorem scanDigits_ne_nil (hne : digits ≠ []) (h : ∀ c ∈ digits, isDigit c = true) :
    scanDigits true digits = some digits := by
  rcases digits with _ | ⟨c, digits⟩
  · exact absurd rfl hne
  · rw [scanDigits, if_pos (h c List.mem_cons_self),
      scanDigits_eq fun d hd => h d (List.mem_cons_of_mem _ hd)]
    rfl

theorem octalValue_append_singleton (digits : Bytes) (c : UInt8) :
    octalValue (digits ++ [c]) = 8 * octalValue digits + (c.toNat - 48) := by
  simp [octalValue]

/-- Octal digits stand for less than they do as decimal ones, unless only the last is not
zero. -/
theorem octalValue_cases (h : ∀ c ∈ digits, isOctalDigit c = true) :
    digitsValue digits < 8 ∧ octalValue digits = digitsValue digits ∨
      8 ≤ digitsValue digits ∧ octalValue digits < digitsValue digits := by
  induction digits using List.reverseRecOn with
  | nil => exact .inl ⟨by decide, rfl⟩
  | append_singleton digits c ih =>
      have hc := h c (List.mem_append_right _ List.mem_cons_self)
      have hlast : c.toNat - 48 < 8 := by
        simp only [isOctalDigit, Bool.and_eq_true, decide_eq_true_eq, UInt8.le_iff_toNat_le,
          UInt8.toNat_ofNat] at hc
        omega
      rw [digitsValue_append_singleton, octalValue_append_singleton]
      rcases ih fun d hd => h d (List.mem_append_left _ hd) with ⟨-, heq⟩ | ⟨hle, hlt⟩
      · rw [heq]
        omega
      · omega

theorem isOctalDigit_of_lt (hdigit : ∀ c ∈ digits, isDigit c = true)
    (h : digitsValue digits < 8) : ∀ c ∈ digits, isOctalDigit c = true := by
  induction digits using List.reverseRecOn with
  | nil => simp
  | append_singleton digits c ih =>
      rw [digitsValue_append_singleton] at h
      intro d hd
      rcases List.mem_append.mp hd with hd | hd
      · exact ih (fun e he => hdigit e (List.mem_append_left _ he)) (by omega) d hd
      · obtain rfl := List.mem_singleton.mp hd
        have hdigit := hdigit d (List.mem_append_right _ List.mem_cons_self)
        simp only [isDigit, isOctalDigit, Bool.and_eq_true, decide_eq_true_eq,
          UInt8.le_iff_toNat_le, UInt8.toNat_ofNat] at hdigit ⊢
        omega

end Digits

section Literals

variable {digits : Bytes} {negative : Bool}

/-- The value that a sign gives to a literal. -/
def signedBy (negative : Bool) (literal : LiteralType × Nat) : Int :=
  if negative then negated literal else literal.2

theorem signedBy_small {n : Nat} (h : n < 8) :
    (octalLiteralType n).map (fun type => signedBy negative (type, n)) =
      some (if negative then -(n : Int) else n) := by
  rw [octalLiteralType, if_pos (by omega)]
  cases negative <;> rfl

/-- A literal with a leading zero and more than one octal digit has another value than its
digits say. -/
theorem octal_ne {n m : Nat} (h : n < m) : (octalLiteralType n).map
    (fun type => signedBy negative (type, n)) ≠ some (if negative then -(m : Int) else m) := by
  have hne : ∀ type, (type = .unsignedInt → n < 2 ^ 32) →
      (type = .unsignedLong → n < 2 ^ 64) →
      signedBy negative (type, n) ≠ if negative then -(m : Int) else m := by
    intro type hint hlong
    cases negative with
    | false => exact fun h' => by simp [signedBy] at h'; omega
    | true =>
        cases type with
        | int => exact fun h' => by simp [signedBy, negated] at h'; omega
        | long => exact fun h' => by simp [signedBy, negated] at h'; omega
        | unsignedInt =>
            have := hint rfl
            exact fun h' => by simp [signedBy, negated] at h'; omega
        | unsignedLong =>
            have := hlong rfl
            exact fun h' => by simp [signedBy, negated] at h'; omega
  intro hsome
  obtain ⟨type, htype, hvalue⟩ := Option.map_eq_some_iff.mp hsome
  refine hne type ?_ ?_ hvalue
  · rintro rfl
    unfold octalLiteralType at htype
    split_ifs at htype <;> first | omega | cases htype
  · rintro rfl
    unfold octalLiteralType at htype
    split_ifs at htype <;> omega

theorem natAbs_signedValue (negative : Bool) (digits : Bytes) :
    (signedValue negative digits).natAbs = digitsValue digits := by
  cases negative with
  | false => exact Int.natAbs_natCast _
  | true => exact (Int.natAbs_neg _).trans (Int.natAbs_natCast _)

/-- A signed literal of decimal digits means their number, if it has no leading zero or is
small, and is not the least `long`. -/
theorem integerLiteral_eq_some_iff (hne : digits ≠ []) (hdigit : ∀ c ∈ digits, isDigit c = true)
    (hlow : -2 ^ 63 ≤ signedValue negative digits) (hhigh : signedValue negative digits < 2 ^ 63) :
    (integerLiteral digits).map (signedBy negative) = some (signedValue negative digits) ↔
      (digits.head? ≠ some 48 ∨ (signedValue negative digits).natAbs < 8) ∧
        signedValue negative digits ≠ -2 ^ 63 := by
  rw [natAbs_signedValue]
  rw [integerLiteral]
  by_cases hhead : digits.head? = some 48
  · rw [if_pos hhead]
    by_cases hsmall : digitsValue digits < 8
    · have hoctal := isOctalDigit_of_lt hdigit hsmall
      obtain ⟨-, hvalue⟩ := (octalValue_cases hoctal).resolve_right (by omega)
      rw [if_pos (List.all_eq_true.mpr hoctal), Option.map_map, hvalue]
      have hliteral := @signedBy_small negative _ hsmall
      refine iff_of_true hliteral ⟨.inr hsmall, fun hleast => ?_⟩
      have habs := natAbs_signedValue negative digits
      rw [hleast] at habs
      omega
    · refine iff_of_false ?_ fun h => hsmall (h.1.resolve_left (not_not.mpr hhead))
      by_cases hoctal : digits.all isOctalDigit = true
      · rw [if_pos hoctal, Option.map_map]
        obtain ⟨-, hlt⟩ := (octalValue_cases (List.all_eq_true.mp hoctal)).resolve_left (by omega)
        exact octal_ne hlt
      · rw [if_neg hoctal]
        simp
  · rw [if_neg hhead, if_pos ⟨hne, List.all_eq_true.mpr hdigit⟩, and_iff_right (.inl hhead),
      Option.map_map]
    have hsigned : ∀ type, (type = .int ∨ type = .long) →
        signedBy negative (type, digitsValue digits) = signedValue negative digits := by
      rintro type (rfl | rfl)
      · cases negative <;> rfl
      · cases negative <;> rfl
    have habs := natAbs_signedValue negative digits
    by_cases hfits : digitsValue digits < 2 ^ 63
    · obtain ⟨type, htype, hsignedType⟩ : ∃ type, decimalLiteralType (digitsValue digits) =
          some type ∧ (type = .int ∨ type = .long) := by
        by_cases hint : digitsValue digits < 2 ^ 31
        · exact ⟨.int, if_pos hint, .inl rfl⟩
        · exact ⟨.long, (if_neg hint).trans (if_pos hfits), .inr rfl⟩
      rw [htype]
      exact iff_of_true (congrArg some (hsigned type hsignedType)) fun hleast => by omega
    · rw [decimalLiteralType, if_neg (by omega), if_neg hfits]
      exact iff_of_false (by simp) (not_not.mpr (by omega))

end Literals

section Readings

variable {s : Bytes}

/-- Only a numeral without the white space around it is left. -/
theorem strip_bytes (parts : NumeralParts) {space : Bytes}
    (hspace : ∀ c ∈ space, isSpace c = true) :
    strip (parts.bytes ++ space) = signBytes parts.sign ++ parts.digits := by
  obtain ⟨digits, d, hdigits⟩ := (List.eq_nil_or_concat' parts.digits).resolve_left
    parts.digits_ne_nil
  have hlast := (isSpace_of_isDigit d (parts.digits_isDigit d (by simp [hdigits]))).1
  rw [strip, List.dropWhile_append, dropWhile_isSpace_bytes, if_neg (by simp [hdigits]),
    List.rdropWhile, List.reverse_append,
    List.dropWhile_append_of_pos fun c hc => hspace c (List.mem_reverse.mp hc), hdigits,
    ← List.append_assoc, List.reverse_concat', List.dropWhile_cons_of_neg (by simp [hlast]),
    ← List.reverse_concat', List.reverse_reverse]

theorem DenotesInteger.parts {n : Int} (h : DenotesInteger s n) :
    ∃ parts : NumeralParts, n = parts.value ∧
      strip s = signBytes parts.sign ++ parts.digits := by
  obtain ⟨_, space, rfl, hspace, parts, rfl, hn⟩ := h
  exact ⟨parts, hn, strip_bytes parts hspace⟩

theorem longFromString_of_denotes {n : Int} (h : DenotesInteger s n) :
    longFromString s = some n := by
  obtain ⟨parts, rfl, hstrip⟩ := h.parts
  rw [longFromString, hstrip, readSign_bytes,
    scanDigits_ne_nil parts.digits_ne_nil parts.digits_isDigit]
  rfl

/-- The digits of a numeral begin with a zero. -/
def LeadingZero (s : Bytes) : Prop := (readSign (strip s)).2.head? = some 48

theorem signedLiteral_of_denotes {n : Int} (h : DenotesInteger s n) (hlow : -2 ^ 63 ≤ n)
    (hhigh : n < 2 ^ 63) : signedLiteral s = some n ↔
      (¬LeadingZero s ∨ n.natAbs < 8) ∧ n ≠ -2 ^ 63 := by
  obtain ⟨parts, rfl, hstrip⟩ := h.parts
  rw [signedLiteral, LeadingZero, hstrip, readSign_bytes]
  exact integerLiteral_eq_some_iff parts.digits_ne_nil parts.digits_isDigit hlow hhigh

/-- The encoding of a character that is not ASCII begins with a byte that is not. -/
theorem exists_mem_utf8EncodeChar {c : Char} (h : ¬c.toNat < 128) :
    ∃ byte ∈ String.utf8EncodeChar c, ¬byte < 128 := by
  have hfirst : ∀ n, 128 ≤ n % 256 → ¬UInt8.ofNat n < 128 := by
    intro n hn
    rw [UInt8.not_lt, UInt8.le_iff_toNat_le, UInt8.toNat_ofNat']
    exact hn
  have hascii : ¬c.val.toNat ≤ 0x7f := fun hle => h (Nat.lt_succ_of_le hle)
  unfold String.utf8EncodeChar
  dsimp only
  rw [if_neg hascii]
  split_ifs with htwo hthree
  · exact ⟨_, List.mem_cons_self, hfirst _ (by omega)⟩
  · exact ⟨_, List.mem_cons_self, hfirst _ (by omega)⟩
  · exact ⟨_, List.mem_cons_self, hfirst _ (by omega)⟩

/-- A text whose bytes are ASCII is left as it is. -/
theorem transform_of_ascii (unicode : UnicodeDatabase) (s : String)
    (h : ∀ c ∈ text s, c < 128) :
    s.toList.map (transformDecimalAndSpaceToAscii unicode) = text s := by
  have htext : text s = s.toList.flatMap String.utf8EncodeChar := by
    rw [← text_ofList, String.ofList_toList]
  rw [htext] at h ⊢
  generalize s.toList = l at h
  induction l with
  | nil => rfl
  | cons c l ih =>
      have hc : c.toNat < 128 := by
        by_contra hc
        obtain ⟨byte, hmem, hbyte⟩ := exists_mem_utf8EncodeChar hc
        exact hbyte (h byte (List.mem_flatMap.mpr ⟨c, List.mem_cons_self, hmem⟩))
      have hencode : String.utf8EncodeChar c = [UInt8.ofNat c.toNat] :=
        if_pos (Nat.le_of_lt_succ hc)
      rw [List.flatMap_cons] at h ⊢
      rw [List.map_cons, hencode, transformDecimalAndSpaceToAscii, if_pos hc,
        ih fun byte hbyte => h byte (List.mem_append_right _ hbyte)]
      rfl

theorem isSpace_lt {c : UInt8} (h : isSpace c = true) : c < 128 := by
  simp only [isSpace, Bool.or_eq_true, Bool.and_eq_true, decide_eq_true_eq] at h
  rw [UInt8.lt_iff_toNat_lt]
  rcases h with rfl | ⟨-, h⟩
  · decide
  · rw [UInt8.le_iff_toNat_le] at h
    exact h.trans_lt (by decide)

theorem isDigit_lt {c : UInt8} (h : isDigit c = true) : c < 128 := by
  simp only [isDigit, Bool.and_eq_true, decide_eq_true_eq, UInt8.le_iff_toNat_le] at h
  rw [UInt8.lt_iff_toNat_lt]
  exact h.2.trans_lt (by decide)

theorem DenotesInteger.ascii {n : Int} (h : DenotesInteger s n) : ∀ c ∈ s, c < 128 := by
  obtain ⟨_, space, rfl, hspace, parts, rfl, -⟩ := h
  have hsign : ∀ c ∈ signBytes parts.sign, c < 128 := by
    rcases parts.sign with _ | negative
    · simp [signBytes]
    · cases negative <;> simp [signBytes] <;> decide
  intro c hc
  simp only [NumeralParts.bytes, List.mem_append] at hc
  rcases hc with (hc | hc | hc) | hc
  · exact isSpace_lt (parts.space_isSpace c hc)
  · exact hsign c hc
  · exact isDigit_lt (parts.digits_isDigit c hc)
  · exact isSpace_lt (hspace c hc)

theorem pythonInt_of_denotes (unicode : UnicodeDatabase) {s : String} {n : Int}
    (h : DenotesInteger (text s) n) : pythonInt unicode s = some n := by
  rw [pythonInt, transform_of_ascii unicode s h.ascii, longFromString_of_denotes h]

end Readings

end Supernova
