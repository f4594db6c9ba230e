/-
Bounds on the size of an array, as the design has them: texts.  The validator
compares them as texts, the configuration schema takes them as numbers and the
generated class as literals of C++; here the three are compared.
-/
import Mathlib
import Supernova.AddressSpaceLayout
import Supernova.CacheVariables
import Supernova.IntegerLiterals

namespace Supernova

section Digits

/-- A run of digits without its leading zeros. -/
def significant (digits : Bytes) : Bytes := digits.dropWhile (· = 48)

theorem digitsValue_cons (c : UInt8) (digits : Bytes) :
    digitsValue (c :: digits) = (c.toNat - 48) * 10 ^ digits.length + digitsValue digits := by
  have h := digitsValue_append [c] digits
  rw [List.singleton_append] at h
  rw [h]
  simp [digitsValue]

theorem digitsValue_significant (digits : Bytes) :
    digitsValue (significant digits) = digitsValue digits := by
  induction digits with
  | nil => rfl
  | cons c digits ih =>
      by_cases hzero : c = 48
      · rw [significant, List.dropWhile_cons_of_pos (by simp [hzero]), digitsValue_cons, hzero]
        change digitsValue (significant digits) = _
        rw [ih]
        simp
      · rw [significant, List.dropWhile_cons_of_neg (by simp [hzero])]

theorem digit_bounds {c : UInt8} (h : isDigit c = true) : 48 ≤ c.toNat ∧ c.toNat ≤ 57 := by
  simpa [isDigit, UInt8.le_iff_toNat_le] using h

theorem digitsValue_lt {digits : Bytes} (h : ∀ c ∈ digits, isDigit c = true) :
    digitsValue digits < 10 ^ digits.length := by
  induction digits with
  | nil => simp [digitsValue]
  | cons c digits ih =>
      have hc := digit_bounds (h c List.mem_cons_self)
      have hdigits := ih fun d hd => h d (List.mem_cons_of_mem _ hd)
      rw [digitsValue_cons, List.length_cons, pow_succ]
      have hle : (c.toNat - 48) * 10 ^ digits.length ≤ 9 * 10 ^ digits.length :=
        Nat.mul_le_mul_right _ (by omega)
      omega

/-- A run of digits that begins with another digit than zero is worth its length. -/
theorem le_digitsValue {digits : Bytes} {c : UInt8} (hc : isDigit c = true) (hzero : c ≠ 48) :
    10 ^ digits.length ≤ digitsValue (c :: digits) := by
  have hbounds := digit_bounds hc
  have hne : c.toNat ≠ 48 := fun h => hzero (UInt8.toNat_inj.mp (h.trans (by decide)))
  rw [digitsValue_cons]
  have hle : 1 * 10 ^ digits.length ≤ (c.toNat - 48) * 10 ^ digits.length :=
    Nat.mul_le_mul_right _ (by omega)
  omega

/-- Runs of equally many digits are ordered as in a dictionary. -/
theorem digitsValue_lt_iff_of_length_eq {a b : Bytes} (ha : ∀ c ∈ a, isDigit c = true)
    (hb : ∀ c ∈ b, isDigit c = true) (hlength : a.length = b.length) :
    digitsValue a < digitsValue b ↔ a < b := by
  induction a generalizing b with
  | nil =>
      rw [List.length_nil] at hlength
      rw [List.eq_nil_of_length_eq_zero hlength.symm]
      simp
  | cons c a ih =>
      rcases b with _ | ⟨d, b⟩
      · cases hlength
      have hc := digit_bounds (ha c List.mem_cons_self)
      have hd := digit_bounds (hb d List.mem_cons_self)
      have ha' : ∀ e ∈ a, isDigit e = true := fun e he => ha e (List.mem_cons_of_mem _ he)
      have hb' : ∀ e ∈ b, isDigit e = true := fun e he => hb e (List.mem_cons_of_mem _ he)
      have heq : a.length = b.length := Nat.succ_injective hlength
      have hlast := digitsValue_lt ha'
      have hlast' := digitsValue_lt hb'
      rw [digitsValue_cons, digitsValue_cons, List.cons_lt_cons_iff, ← ih ha' hb' heq, heq]
      rw [heq] at hlast
      generalize 10 ^ b.length = weight at hlast hlast'
      rcases Nat.lt_trichotomy c.toNat d.toNat with hlt | hsame | hgt
      · have hweight : (c.toNat - 48 + 1) * weight ≤ (d.toNat - 48) * weight :=
          Nat.mul_le_mul_right _ (by omega)
        rw [Nat.succ_mul] at hweight
        exact iff_of_true (by omega) (.inl (UInt8.lt_iff_toNat_lt.mpr hlt))
      · obtain rfl := UInt8.toNat_inj.mp hsame
        simp
      · have hweight : (d.toNat - 48 + 1) * weight ≤ (c.toNat - 48) * weight :=
          Nat.mul_le_mul_right _ (by omega)
        rw [Nat.succ_mul] at hweight
        refine iff_of_false (by omega) ?_
        rintro (hlt | ⟨rfl, -⟩)
        · exact absurd (UInt8.lt_iff_toNat_lt.mp hlt) (by omega)
        · exact absurd hgt (lt_irrefl _)

theorem digitsValue_lt_of_length_lt {a b : Bytes} (ha : ∀ c ∈ a, isDigit c = true)
    (hb : ∀ c ∈ b, isDigit c = true) (hlead : b.head? ≠ some 48)
    (hlength : a.length < b.length) : digitsValue a < digitsValue b := by
  rcases b with _ | ⟨d, b⟩
  · exact absurd hlength (Nat.not_lt_zero _)
  have hzero : d ≠ 48 := fun h => hlead (congrArg some h)
  calc digitsValue a < 10 ^ a.length := digitsValue_lt ha
    _ ≤ 10 ^ b.length := Nat.pow_le_pow_right (by decide) (Nat.le_of_lt_succ hlength)
    _ ≤ digitsValue (d :: b) := le_digitsValue (hb d List.mem_cons_self) hzero

theorem significant_head (digits : Bytes) : (significant digits).head? ≠ some 48 := by
  intro h
  have hnot := List.head?_dropWhile_not (· = (48 : UInt8)) digits
  change ((digits.dropWhile (· = 48)).head?) = some 48 at h
  rw [h] at hnot
  simp at hnot

/-- Numbers are ordered as their significant digits are: by length, and in a dictionary among
those of one length. -/
theorem digitsValue_lt_iff {a b : Bytes} (ha : ∀ c ∈ a, isDigit c = true)
    (hb : ∀ c ∈ b, isDigit c = true) :
    digitsValue a < digitsValue b ↔
      List.Shortlex (· < ·) (significant a) (significant b) := by
  have ha' : ∀ c ∈ significant a, isDigit c = true :=
    fun c hc => ha c ((List.dropWhile_sublist _).subset hc)
  have hb' : ∀ c ∈ significant b, isDigit c = true :=
    fun c hc => hb c ((List.dropWhile_sublist _).subset hc)
  rw [← digitsValue_significant a, ← digitsValue_significant b, List.shortlex_def]
  rcases Nat.lt_trichotomy (significant a).length (significant b).length with hlt | heq | hgt
  · exact iff_of_true (digitsValue_lt_of_length_lt ha' hb' (significant_head b) hlt) (.inl hlt)
  · rw [digitsValue_lt_iff_of_length_eq ha' hb' heq, or_iff_right (by omega), and_iff_right heq]
    rfl
  · have hlt := digitsValue_lt_of_length_lt hb' ha' (significant_head a) hgt
    refine iff_of_false (by omega) ?_
    rintro (hshorter | ⟨hsame, -⟩)
    · omega
    · omega

end Digits

namespace Quasar

section Texts

/-- A text that `ArraySizeLimits` admits: an unsigned number up to a largest one, with white
space around it; only a zero may have a minus sign. -/
structure SizeText where
  numeral : NumeralParts
  blank : Bytes
  blanks : ∀ c ∈ numeral.space ++ blank, isBlank c = true
  unsigned : numeral.sign = some true → digitsValue numeral.digits = 0
  size_le : digitsValue numeral.digits ≤ 104857600

namespace SizeText

variable (limit : SizeText)

def text : Bytes := limit.numeral.bytes ++ limit.blank

def digits : Bytes := limit.numeral.digits

/-- The size that the text stands for. -/
def size : Nat := digitsValue limit.digits

/-- What the generated class returns where the text is its expression. -/
def returned : Option Int := signedLiteral limit.text

def OctalLooking : Prop := limit.digits.head? = some 48

instance : Decidable limit.OctalLooking := inferInstanceAs (Decidable (_ = _))

/-- The size that the digits mean in C++. -/
def literalSize : Nat :=
  if limit.OctalLooking then Supernova.octalValue limit.digits else limit.size

end SizeText

/-- The `array` element of a variable, with the texts of its attributes. -/
structure ArrayText where
  minimumSize : Option SizeText
  maximumSize : Option SizeText

namespace ArrayText

variable (array : ArrayText)

def validateArray (locator : Bytes) : Except Bytes Unit :=
  match array.minimumSize, array.maximumSize with
  | some minimum, some maximum =>
      if maximum.text < minimum.text then
        throw (Supernova.text "array's minimumSize > maximumSize, fix it." ++ locator)
      else pure ⟨⟩
  | _, _ => pure ⟨⟩

def minOccurs : Nat := array.minimumSize.elim 0 SizeText.size

/-- `none` is `unbounded`. -/
def maxOccurs : Option Nat := array.maximumSize.map SizeText.size

/-- The generated `minimumSize()`; `none` does not compile. -/
def generatedMinimumSize : Option Int := array.minimumSize.elim (some 0) SizeText.returned

def generatedMaximumSize : Option Int :=
  array.maximumSize.elim (some (2 ^ 31 - 1)) SizeText.returned

def SchemaAccepts (length : Nat) : Prop :=
  array.minOccurs ≤ length ∧ ∀ maximum ∈ array.maxOccurs, length ≤ maximum

/-- The check of the generated class. -/
def SizeCheckAccepts (length : Nat) : Prop :=
  ∃ minimum ∈ array.generatedMinimumSize, ∃ maximum ∈ array.generatedMaximumSize,
    minimum ≤ length ∧ length ≤ maximum

end ArrayText

/-- Where an array can be declared: in a cache variable, in a configuration entry, or in an
argument or a return value of a method. -/
inductive ArrayPlace
  | cacheVariable (initializeWith : InitializeWith)
  | configEntry
  | method
deriving DecidableEq, Repr

namespace ArrayPlace

/-- The validator looks at the arrays of cache variables. -/
def validate (array : ArrayText) (locator : Bytes) : ArrayPlace → Except Bytes Unit
  | .cacheVariable _ => array.validateArray locator
  | .configEntry | .method => pure ⟨⟩

/-- The configuration has an element for the array. -/
def InSchema (place : ArrayPlace) : Prop :=
  place = .cacheVariable .configuration ∨ place = .configEntry

def SizeChecked (place : ArrayPlace) : Prop :=
  ∃ initializeWith, place = .cacheVariable initializeWith

end ArrayPlace

end Texts

section Promise

namespace ArrayText

variable (array : ArrayText) (place : ArrayPlace) (locator : Bytes)

/-- The bounds are rejected when they contradict each other, and when the validator lets them
pass there is an array that passes the schema and the check of the generated class. -/
structure BoundsSatisfiable : Prop where
  rejects : (∃ error, array.validateArray locator = .error error) ↔
    ∃ minimum ∈ array.minimumSize, ∃ maximum ∈ array.maximumSize, maximum.size < minimum.size
  schema : place.validate array locator = .ok ⟨⟩ → place.InSchema →
    ∀ maximum ∈ array.maxOccurs, array.minOccurs ≤ maximum
  length : place.validate array locator = .ok ⟨⟩ → ∃ length,
    (place.InSchema → array.SchemaAccepts length) ∧
      (place.SizeChecked → array.SizeCheckAccepts length)

/-- The larger number is also the later text. -/
def TextsInOrder (minimum maximum : SizeText) : Prop :=
  maximum.text < minimum.text ↔
    List.Shortlex (· < ·) (significant maximum.digits) (significant minimum.digits)

/-- Digits that begin with a zero are octal. -/
def Literal (limit : SizeText) : Prop :=
  limit.OctalLooking → ∀ c ∈ limit.digits, isOctalDigit c = true

/-- The larger size is the earlier text. -/
def Rejected : Prop :=
  ∃ minimum ∈ array.minimumSize, ∃ maximum ∈ array.maximumSize, maximum.text < minimum.text

/-- The generated class compiles, and a size is left: one of the schema where there is one. -/
structure LeavesSize (initializeWith : InitializeWith) : Prop where
  minimum : ∀ minimum ∈ array.minimumSize, Literal minimum
  maximum : ∀ maximum ∈ array.maximumSize, Literal maximum
  size : ∀ minimum ∈ array.minimumSize, ∀ maximum ∈ array.maximumSize,
    (if initializeWith = .configuration then minimum.size else minimum.literalSize) ≤
      maximum.literalSize

/-- What the readers of the texts need besides their order. -/
def Fits : ArrayPlace → Prop
  | .cacheVariable initializeWith => array.Rejected ∨ array.LeavesSize initializeWith
  | .configEntry => ¬array.Rejected
  | .method => True

/-- When the texts mean the same to all that read them, or are rejected. -/
structure WellWritten : Prop where
  inOrder : ∀ minimum ∈ array.minimumSize, ∀ maximum ∈ array.maximumSize,
    TextsInOrder minimum maximum
  fits : array.Fits place

end ArrayText

end Promise

section Readings

variable {limit : SizeText}

theorem isSpace_of_isBlank {c : UInt8} (h : isBlank c = true) : isSpace c = true := by
  simp only [isBlank, isSpace, Bool.or_eq_true, decide_eq_true_eq] at h ⊢
  rcases h with ((rfl | rfl) | rfl) | rfl
  · decide
  · decide
  · decide
  · decide

theorem SizeText.readSign_text :
    readSign (strip limit.text) = (limit.numeral.sign.getD false, limit.digits) := by
  rw [SizeText.text, strip_bytes limit.numeral fun c hc =>
    isSpace_of_isBlank (limit.blanks c (List.mem_append_right _ hc)), readSign_bytes]
  rfl

theorem SizeText.octalValue_le (h : limit.digits.all isOctalDigit = true) :
    Supernova.octalValue limit.digits ≤ limit.size := by
  rcases octalValue_cases (List.all_eq_true.mp h) with ⟨-, heq⟩ | ⟨-, hlt⟩
  · exact heq.le
  · exact hlt.le

/-- A minus sign changes nothing, as only a zero may have one. -/
theorem SizeText.signed {n : Nat} (h : n ≤ limit.size) :
    (if limit.numeral.sign.getD false then negated (.int, n) else (n : Int)) = n := by
  rcases hsign : limit.numeral.sign with _ | _ | _
  · rfl
  · rfl
  · have hzero : n = 0 := Nat.le_zero.mp (h.trans (limit.unsigned hsign).le)
    simp [hzero, negated]

/-- The digits are a literal of type `int`. -/
theorem SizeText.integerLiteral_digits : integerLiteral limit.digits =
    if limit.OctalLooking then
      if limit.digits.all isOctalDigit then some (.int, Supernova.octalValue limit.digits)
      else none
    else some (.int, limit.size) := by
  have hsize : limit.size < 2 ^ 31 := lt_of_le_of_lt limit.size_le (by decide)
  rw [integerLiteral]
  by_cases hzero : limit.OctalLooking
  · have hhead : limit.digits.head? = some 48 := hzero
    rw [if_pos hzero, if_pos hhead]
    split_ifs with hoctal
    · rw [octalLiteralType, if_pos (lt_of_le_of_lt (SizeText.octalValue_le hoctal) hsize)]
      rfl
    · rfl
  · have hhead : ¬limit.digits.head? = some 48 := hzero
    have hvalue : digitsValue limit.digits < 2 ^ 31 := hsize
    rw [if_neg hzero, if_neg hhead, if_pos ⟨limit.numeral.digits_ne_nil,
      List.all_eq_true.mpr limit.numeral.digits_isDigit⟩, decimalLiteralType, if_pos hvalue]
    rfl

theorem SizeText.returned_eq : limit.returned =
    if limit.OctalLooking then
      if limit.digits.all isOctalDigit then some (Supernova.octalValue limit.digits : Int)
      else none
    else some (limit.size : Int) := by
  rw [SizeText.returned, signedLiteral, SizeText.readSign_text, SizeText.integerLiteral_digits]
  by_cases hzero : limit.OctalLooking
  · rw [if_pos hzero, if_pos hzero]
    by_cases hoctal : limit.digits.all isOctalDigit = true
    · rw [if_pos hoctal, if_pos hoctal]
      exact congrArg some (SizeText.signed (SizeText.octalValue_le hoctal))
    · rw [if_neg hoctal, if_neg hoctal]
      rfl
  · rw [if_neg hzero, if_neg hzero]
    exact congrArg some (SizeText.signed (Nat.le_refl _))

theorem ArrayText.literal_iff : ArrayText.Literal limit ↔
    (limit.OctalLooking → limit.digits.all isOctalDigit = true) := by
  rw [ArrayText.Literal, List.all_eq_true]

/-- The size that a literal has: the one of the design, or a smaller one in octal digits. -/
theorem SizeText.returned_eq_literalSize (h : ArrayText.Literal limit) :
    limit.returned = some (limit.literalSize : Int) := by
  rw [SizeText.returned_eq, SizeText.literalSize]
  by_cases hzero : limit.OctalLooking
  · rw [if_pos hzero, if_pos hzero, if_pos (ArrayText.literal_iff.1 h hzero)]
  · rw [if_neg hzero, if_neg hzero]

theorem SizeText.literalSize_le (h : ArrayText.Literal limit) :
    limit.literalSize ≤ limit.size := by
  rw [SizeText.literalSize]
  split_ifs with hzero
  · exact SizeText.octalValue_le (ArrayText.literal_iff.1 h hzero)
  · exact Nat.le_refl _

theorem SizeText.literal_of_returned {n : Int} (h : limit.returned = some n) :
    ArrayText.Literal limit := by
  rw [SizeText.returned_eq] at h
  refine ArrayText.literal_iff.2 fun hzero => ?_
  rw [if_pos hzero] at h
  by_contra hoctal
  rw [if_neg hoctal] at h
  cases h

end Readings

section Bounds

variable {array : ArrayText} {locator : Bytes} {place : ArrayPlace}
  {initializeWith : InitializeWith}

theorem ArrayText.validateArray_eq_error_iff :
    (∃ error, array.validateArray locator = .error error) ↔ array.Rejected := by
  unfold ArrayText.validateArray ArrayText.Rejected
  rcases array.minimumSize with _ | minimum
  · simp [pure, Except.pure]
  rcases array.maximumSize with _ | maximum
  · simp [pure, Except.pure]
  by_cases h : maximum.text < minimum.text
  · simp [h, throw, throwThe, MonadExceptOf.throw]
  · simp [h, pure, Except.pure]

theorem ArrayText.validateArray_eq_ok_iff :
    array.validateArray locator = .ok ⟨⟩ ↔ ¬array.Rejected := by
  rw [← @ArrayText.validateArray_eq_error_iff array locator]
  rcases array.validateArray locator with error | ⟨⟩
  · simp
  · simp

theorem SizeText.size_lt_iff {minimum maximum : SizeText} : maximum.size < minimum.size ↔
    List.Shortlex (· < ·) (significant maximum.digits) (significant minimum.digits) :=
  digitsValue_lt_iff maximum.numeral.digits_isDigit minimum.numeral.digits_isDigit

theorem ArrayText.rejects_iff :
    (array.Rejected ↔ ∃ minimum ∈ array.minimumSize, ∃ maximum ∈ array.maximumSize,
        maximum.size < minimum.size) ↔
    ∀ minimum ∈ array.minimumSize, ∀ maximum ∈ array.maximumSize,
      ArrayText.TextsInOrder minimum maximum := by
  unfold ArrayText.TextsInOrder ArrayText.Rejected
  simp only [SizeText.size_lt_iff]
  rcases array.minimumSize with _ | minimum
  · simp
  rcases array.maximumSize with _ | maximum
  · simp
  simp

/-- The smallest and the largest size of the generated class are those of its literals. -/
theorem ArrayText.generatedSizes (hminimum : ∀ minimum ∈ array.minimumSize, Literal minimum)
    (hmaximum : ∀ maximum ∈ array.maximumSize, Literal maximum) :
    array.generatedMinimumSize =
        some ((array.minimumSize.elim 0 SizeText.literalSize : Nat) : Int) ∧
      array.generatedMaximumSize =
        some ((array.maximumSize.elim (2 ^ 31 - 1) SizeText.literalSize : Nat) : Int) := by
  unfold ArrayText.generatedMinimumSize ArrayText.generatedMaximumSize
  constructor
  · rcases hcase : array.minimumSize with _ | minimum
    · rfl
    · exact SizeText.returned_eq_literalSize (hminimum minimum hcase)
  · rcases hcase : array.maximumSize with _ | maximum
    · rfl
    · exact SizeText.returned_eq_literalSize (hmaximum maximum hcase)

/-- The size that the smaller of the two readings of the minimum leaves. -/
def ArrayText.leastSize (array : ArrayText) (initializeWith : InitializeWith) : Nat :=
  array.minimumSize.elim 0 fun minimum =>
    if initializeWith = .configuration then minimum.size else minimum.literalSize

theorem ArrayText.leastSize_le (h : array.LeavesSize initializeWith) :
    array.minimumSize.elim 0 SizeText.literalSize ≤ array.leastSize initializeWith ∧
      array.leastSize initializeWith ≤
        array.maximumSize.elim (2 ^ 31 - 1) SizeText.literalSize := by
  unfold ArrayText.leastSize
  rcases hminimum : array.minimumSize with _ | minimum
  · exact ⟨Nat.le_refl _, Nat.zero_le _⟩
  have hliteral := SizeText.literalSize_le (h.minimum minimum hminimum)
  constructor
  · change minimum.literalSize ≤ if initializeWith = .configuration then _ else _
    split_ifs
    · exact hliteral
    · exact Nat.le_refl _
  · rcases hmaximum : array.maximumSize with _ | maximum
    · have hsize : minimum.size ≤ 104857600 := minimum.size_le
      change (if initializeWith = .configuration then _ else _) ≤ 2 ^ 31 - 1
      split_ifs
      · omega
      · omega
    · exact h.size minimum hminimum maximum hmaximum

theorem ArrayText.sizeCheckAccepts_leastSize (h : array.LeavesSize initializeWith) :
    array.SizeCheckAccepts (array.leastSize initializeWith) := by
  obtain ⟨hminimum, hmaximum⟩ := ArrayText.generatedSizes h.minimum h.maximum
  obtain ⟨hlow, hhigh⟩ := ArrayText.leastSize_le h
  exact ⟨_, hminimum, _, hmaximum, Int.ofNat_le.mpr hlow, Int.ofNat_le.mpr hhigh⟩

/-- What an accepted array says about the texts. -/
theorem ArrayText.leavesSize_of_accepts {length : Nat}
    (hschema : initializeWith = .configuration → array.SchemaAccepts length)
    (hcheck : array.SizeCheckAccepts length) : array.LeavesSize initializeWith := by
  obtain ⟨a, ha, b, hb, hlow, hhigh⟩ := hcheck
  have hminimum : ∀ minimum ∈ array.minimumSize, Literal minimum := by
    intro minimum hmem
    rw [ArrayText.generatedMinimumSize, Option.mem_def.mp hmem] at ha
    exact SizeText.literal_of_returned ha
  have hmaximum : ∀ maximum ∈ array.maximumSize, Literal maximum := by
    intro maximum hmem
    rw [ArrayText.generatedMaximumSize, Option.mem_def.mp hmem] at hb
    exact SizeText.literal_of_returned hb
  refine ⟨hminimum, hmaximum, fun minimum hmin maximum hmax => ?_⟩
  obtain ⟨hleast, hlargest⟩ := ArrayText.generatedSizes hminimum hmaximum
  rw [hleast, Option.mem_def.mp hmin] at ha
  rw [hlargest, Option.mem_def.mp hmax] at hb
  rw [← Option.some.inj ha] at hlow
  rw [← Option.some.inj hb] at hhigh
  have hhigh' : length ≤ maximum.literalSize := Int.ofNat_le.mp hhigh
  split_ifs with hconfiguration
  · have hsize := (hschema hconfiguration).1
    rw [ArrayText.minOccurs, Option.mem_def.mp hmin] at hsize
    exact Nat.le_trans hsize hhigh'
  · exact Nat.le_trans (Int.ofNat_le.mp hlow) hhigh'

theorem ArrayText.minOccurs_le (h : ¬∃ minimum ∈ array.minimumSize, ∃ maximum ∈ array.maximumSize,
    maximum.size < minimum.size) : ∀ maximum ∈ array.maxOccurs, array.minOccurs ≤ maximum := by
  intro size hsize
  obtain ⟨maximum, hmaximum, rfl⟩ := Option.map_eq_some_iff.mp hsize
  unfold ArrayText.minOccurs
  rcases hminimum : array.minimumSize with _ | minimum
  · exact Nat.zero_le _
  · exact Nat.le_of_not_lt fun hlt => h ⟨minimum, hminimum, maximum, hmaximum, hlt⟩

theorem ArrayText.fits_of_satisfiable (h : array.BoundsSatisfiable place locator) :
    array.Fits place := by
  have hrejects := Iff.trans (Iff.symm ArrayText.validateArray_eq_error_iff) h.rejects
  rcases place with initializeWith | _ | _
  · by_cases hrejected : array.Rejected
    · exact .inl hrejected
    · obtain ⟨length, hschema, hcheck⟩ :=
        h.length (ArrayText.validateArray_eq_ok_iff.2 hrejected)
      refine .inr (ArrayText.leavesSize_of_accepts ?_ (hcheck ⟨initializeWith, rfl⟩))
      rintro rfl
      exact hschema (.inl rfl)
  · intro hrejected
    obtain ⟨minimum, hminimum, maximum, hmaximum, hlt⟩ := hrejects.mp hrejected
    have hle := h.schema rfl (.inr rfl) maximum.size
      (by rw [ArrayText.maxOccurs, Option.mem_def.mp hmaximum]; rfl)
    rw [ArrayText.minOccurs, Option.mem_def.mp hminimum] at hle
    exact absurd hlt (Nat.not_lt.mpr hle)
  · trivial

/-- The validator keeps arrays possible exactly when the two texts are in the order of their
numbers, every literal of C++ among them leaves a size, and no bounds that contradict each other
stand where it does not look. -/
theorem arrayBounds_iff (array : ArrayText) (place : ArrayPlace) (locator : Bytes) :
    array.BoundsSatisfiable place locator ↔ array.WellWritten place := by
  constructor
  · intro h
    have hrejects := Iff.trans (Iff.symm ArrayText.validateArray_eq_error_iff) h.rejects
    exact ⟨ArrayText.rejects_iff.1 hrejects, ArrayText.fits_of_satisfiable h⟩
  · rintro ⟨hinOrder, hfits⟩
    have hrejects := ArrayText.rejects_iff.2 hinOrder
    have hschema : ¬array.Rejected → ∀ maximum ∈ array.maxOccurs, array.minOccurs ≤ maximum :=
      fun hnot => ArrayText.minOccurs_le (mt hrejects.mpr hnot)
    refine ⟨Iff.trans ArrayText.validateArray_eq_error_iff hrejects, fun hok hplace => ?_,
      fun hok => ?_⟩
    · rcases place with initializeWith | _ | _
      · exact hschema (ArrayText.validateArray_eq_ok_iff.1 hok)
      · exact hschema hfits
      · simp [ArrayPlace.InSchema] at hplace
    · rcases place with initializeWith | _ | _
      · have hnot := ArrayText.validateArray_eq_ok_iff.1 hok
        have hleaves : array.LeavesSize initializeWith := hfits.resolve_left hnot
        refine ⟨array.leastSize initializeWith, fun hplace => ?_,
          fun _ => ArrayText.sizeCheckAccepts_leastSize hleaves⟩
        obtain rfl : initializeWith = .configuration := by
          simpa [ArrayPlace.InSchema] using hplace
        have hleast : array.leastSize .configuration = array.minOccurs := rfl
        rw [hleast]
        exact ⟨Nat.le_refl _, hschema hnot⟩
      · refine ⟨array.minOccurs, fun _ => ⟨Nat.le_refl _, hschema hfits⟩, ?_⟩
        rintro ⟨initializeWith, h⟩
        cases h
      · refine ⟨0, fun hplace => ?_, ?_⟩
        · simp [ArrayPlace.InSchema] at hplace
        · rintro ⟨initializeWith, h⟩
          cases h

end Bounds

section Plain

theorem no_blanks : ∀ c ∈ ([] : Bytes) ++ [], isBlank c = true :=
  fun _ hc => absurd hc List.not_mem_nil

theorem no_spaces : ∀ c ∈ ([] : Bytes), isSpace c = true := fun _ hc => absurd hc List.not_mem_nil

theorem unsigned_digits (digits : Bytes) : none = some true → digitsValue digits = 0 :=
  fun h => absurd h (Option.some_ne_none true).symm

/-- A size that is written with digits only. -/
def SizeLimit.sizeText (limit : SizeLimit) : SizeText :=
  { numeral := ⟨[], none, limit.digits, no_spaces, limit.digits_isDigit, limit.digits_ne_nil⟩
    blank := []
    blanks := no_blanks
    unsigned := unsigned_digits limit.digits
    size_le := limit.size_le }

def ArrayElement.arrayText (array : ArrayElement) : ArrayText :=
  ⟨array.minimumSize.map SizeLimit.sizeText, array.maximumSize.map SizeLimit.sizeText⟩

theorem SizeLimit.text_sizeText (limit : SizeLimit) : limit.sizeText.text = limit.digits :=
  List.append_nil _

theorem validateArray_arrayText (array : ArrayElement) (locator : Bytes) :
    array.arrayText.validateArray locator = validateArray array locator := by
  obtain ⟨minimumSize, maximumSize⟩ := array
  rcases minimumSize with _ | minimum
  · rfl
  rcases maximumSize with _ | maximum
  · rfl
  simp only [ArrayText.validateArray, validateArray, ArrayElement.arrayText, Option.map_some,
    SizeLimit.text_sizeText]

/-- Sizes written with equally many digits are compared as they should be. -/
theorem textsInOrder_of_length_eq {minimum maximum : SizeLimit}
    (h : maximum.digits.length = minimum.digits.length) :
    ArrayText.TextsInOrder minimum.sizeText maximum.sizeText := by
  rw [ArrayText.TextsInOrder, ← SizeText.size_lt_iff, SizeLimit.text_sizeText,
    SizeLimit.text_sizeText]
  exact (digitsValue_lt_iff_of_length_eq maximum.digits_isDigit minimum.digits_isDigit h).symm

/-- The size that plain digits declare. -/
def declaredSize (digits : Bytes) : Option SizeText :=
  if h : digits ≠ [] ∧ (∀ c ∈ digits, isDigit c = true) ∧ digitsValue digits ≤ 104857600 then
    some (SizeLimit.sizeText ⟨digits, h.1, h.2.1, h.2.2⟩)
  else none

/-- From 9 to 10 is rejected, and from 10 to 9 is not. -/
theorem nine_and_ten :
    ¬(ArrayText.mk (declaredSize (text "9")) (declaredSize (text "10"))).BoundsSatisfiable
      (.cacheVariable .configuration) [] ∧
    ¬(ArrayText.mk (declaredSize (text "10")) (declaredSize (text "9"))).BoundsSatisfiable
      (.cacheVariable .configuration) [] := by
  have hnine : (declaredSize (text "9")).map SizeText.size = some 9 := by decide +kernel
  have hten : (declaredSize (text "10")).map SizeText.size = some 10 := by decide +kernel
  constructor
  · intro h
    have hrejected : (ArrayText.mk (declaredSize (text "9"))
        (declaredSize (text "10"))).validateArray [] =
        .error (text "array's minimumSize > maximumSize, fix it.") := by
      decide +kernel
    obtain ⟨minimum, hminimum, maximum, hmaximum, hlt⟩ := h.rejects.mp ⟨_, hrejected⟩
    change declaredSize (text "9") = some minimum at hminimum
    change declaredSize (text "10") = some maximum at hmaximum
    rw [hminimum] at hnine
    rw [hmaximum] at hten
    rw [Option.some.inj hnine, Option.some.inj hten] at hlt
    exact absurd hlt (by decide)
  · intro h
    have haccepted : (ArrayText.mk (declaredSize (text "10"))
        (declaredSize (text "9"))).validateArray [] = .ok ⟨⟩ := by
      decide +kernel
    have hle := h.schema haccepted (.inl rfl) 9 hnine
    obtain ⟨minimum, hminimum, hsize⟩ := Option.map_eq_some_iff.mp hten
    rw [ArrayText.minOccurs, hminimum] at hle
    change minimum.size ≤ 9 at hle
    omega

end Plain

end Quasar

end Supernova
