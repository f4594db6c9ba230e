/-
Unsigned parameters of the connection services: which literals are taken for a
whole number that they are not.  A literal becomes the nearest `double` before the
service checks it, so a literal close to a whole number passes for it.
-/
import Supernova.FxCoordinates
import Mathlib.Tactic.NormNum

namespace Supernova

attribute [local semireducible] ByteArray.toList.loop

namespace Fx

open BinaryFormat TextParser

/-- The exact number that a literal denotes. -/
def Numeral.rational (n : Numeral) : ℚ := if n.negative then -n.magnitude else n.magnitude

section Nearness

/-- Half the gap between a whole number and the `double` behind it. -/
def halfGapAbove (k : Nat) : ℚ := 2 ^ ((Nat.log 2 k : Int) - 53)

/-- Half the gap between a whole number and the `double` in front of it, which is smaller
in front of a power of two. -/
def halfGapBelow (k : Nat) : ℚ :=
  if k = 2 ^ Nat.log 2 k then 2 ^ ((Nat.log 2 k : Int) - 54) else 2 ^ ((Nat.log 2 k : Int) - 53)

/-- Ties are rounded to such a number. -/
def EvenSignificand (k : Nat) : Prop := k < 2 ^ 52 ∨ k % 2 = 0

/-- Nearer to a whole number than to every other `double`. -/
def NearTo (k : Nat) (x : ℚ) : Prop :=
  if k = 0 then |x| ≤ 2 ^ (-1075 : Int)
  else
    (k - halfGapBelow k < x ∨ x = k - halfGapBelow k ∧ EvenSignificand k) ∧
      (x < k + halfGapAbove k ∨ x = k + halfGapAbove k ∧ EvenSignificand k)

/-- A number that is no whole number up to the limits but is nearer to one of these than
to every other `double`. -/
def TakenForWhole (maximum : UInt64) (x : ℚ) : Prop :=
  ∃ k : Nat, k ≤ kJsonExactIntegerLimit ∧ k ≤ maximum.toNat ∧ x ≠ k ∧ NearTo k x

/-- A whole number up to 2^53 as a normalised significand. -/
theorem exists_significand {k : Nat} (hpos : 0 < k) (hle : k ≤ 2 ^ 53) :
    ∃ M : Nat, 2 ^ 52 ≤ M ∧ M < 2 ^ 53 ∧ (k : ℚ) = M * 2 ^ ((Nat.log 2 k : Int) - 52) ∧
      (M = 2 ^ 52 ↔ k = 2 ^ Nat.log 2 k) ∧ (M % 2 = 0 ↔ EvenSignificand k) ∧
      Nat.log 2 k ≤ 53 := by
  have hlow := Nat.pow_log_le_self 2 hpos.ne'
  have hhigh := Nat.lt_pow_succ_log_self (by decide : 1 < 2) k
  rcases hle.lt_or_eq with hlt | rfl
  · have hlog : Nat.log 2 k < 53 := (Nat.log_lt_iff_lt_pow (by decide) hpos.ne').mpr hlt
    obtain ⟨rest, hrest⟩ : ∃ rest, Nat.log 2 k + rest = 52 := ⟨52 - Nat.log 2 k, by omega⟩
    have hscale : 2 ^ Nat.log 2 k * 2 ^ rest = 2 ^ 52 := by rw [← pow_add, hrest]
    have hcancel : ((Nat.log 2 k : Int) - 52) = -(rest : Int) := by omega
    refine ⟨k * 2 ^ rest, ?_, ?_, ?_, ?_, ?_, hlog.le⟩
    · exact hscale ▸ Nat.mul_le_mul_right _ hlow
    · calc k * 2 ^ rest < 2 ^ (Nat.log 2 k + 1) * 2 ^ rest :=
            Nat.mul_lt_mul_of_pos_right hhigh (by positivity)
        _ = 2 ^ 53 := by rw [pow_succ, Nat.mul_right_comm, hscale, ← pow_succ]
    · rw [hcancel, zpow_neg, zpow_natCast]
      push_cast
      field_simp
    · rw [← hscale]
      exact Nat.mul_left_inj (by positivity)
    · rcases Nat.eq_zero_or_pos rest with rfl | hrestPos
      · have hbig : ¬ k < 2 ^ 52 := by
          rw [Nat.add_zero] at hrest
          rw [hrest] at hlow
          omega
        rw [EvenSignificand, or_iff_right hbig, pow_zero, Nat.mul_one]
      · have hsmall : k < 2 ^ 52 :=
          hhigh.trans_le (Nat.pow_le_pow_right (by decide) (by omega))
        refine iff_of_true ?_ (.inl hsmall)
        obtain ⟨r, rfl⟩ : ∃ r, rest = r + 1 := ⟨rest - 1, by omega⟩
        rw [pow_succ, ← Nat.mul_assoc, Nat.mul_mod_left]
  · have hlog : Nat.log 2 (2 ^ 53) = 53 := Nat.log_pow (by decide) 53
    rw [hlog]
    refine ⟨2 ^ 52, le_rfl, by decide, by norm_num, by simp, ?_, le_rfl⟩
    exact iff_of_true (by decide) (.inr (by decide))

/-- A nonnegative number is rounded to a positive whole number exactly when it is near to it. -/
theorem round_eq_whole_iff {k : Nat} (hpos : 0 < k) (hle : k ≤ 2 ^ 53) {x : ℚ} (hx : 0 ≤ x) :
    binary64.round x = binary64.round k ↔ NearTo k x := by
  obtain ⟨M, hlow, hhigh, hk, hpower, heven, hlog⟩ := exists_significand hpos hle
  generalize he : Nat.log 2 k = e at hk hpower hlog
  have hexponent : binary64.leastExponent + ((e + 1022 : Nat) : Int) = (e : Int) - 52 := by
    have hleast : binary64.leastExponent = -1074 := by decide
    rw [hleast]
    omega
  have hfinite : (e + 1022) * 2 ^ binary64.fractionBits + M < binary64.infinity := by
    have hinfinity : binary64.infinity = 2047 * 2 ^ 52 := by decide
    rw [hinfinity]
    change (e + 1022) * 2 ^ 52 + M < _
    omega
  have hround : binary64.round k = (e + 1022) * 2 ^ binary64.fractionBits + M := by
    rw [hk, ← hexponent]
    exact round_normalised binary64 (.inr hlow) hhigh hfinite
  have hunit : (2 : ℚ) ^ ((e : Int) - 53) = 1 / 2 * 2 ^ ((e : Int) - 52) := by
    rw [show (e : Int) - 53 = (e - 52) - 1 by omega, zpow_sub_one₀ two_ne_zero]
    ring
  have hunit' : (2 : ℚ) ^ ((e : Int) - 54) = 1 / 4 * 2 ^ ((e : Int) - 52) := by
    rw [show (e : Int) - 54 = (e - 53) - 1 by omega, zpow_sub_one₀ two_ne_zero, hunit]
    ring
  have habove : ((M : ℚ) + 1 / 2) * 2 ^ ((e : Int) - 52) = k + halfGapAbove k := by
    rw [halfGapAbove, he, hunit, hk]
    ring
  have hbelow : binary64.midpointBelow (e + 1022) M * 2 ^ ((e : Int) - 52) =
      k - halfGapBelow k := by
    by_cases hM : M = 2 ^ 52
    · rw [midpointBelow, if_pos ⟨by omega, hM⟩, halfGapBelow, he, if_pos (hpower.mp hM), hunit',
        hk]
      ring
    · rw [midpointBelow, if_neg fun h => hM h.2, halfGapBelow, he,
        if_neg fun h => hM (hpower.mpr h), hunit, hk]
      ring
  have hodd : M % 2 = 1 ↔ ¬ EvenSignificand k := by
    rw [← heven]
    omega
  have hnext := round_le_iff binary64 hx (.inr hlow) hhigh hfinite
  have hprevious := round_lt_normalised_iff binary64 (by decide) hx (.inr hlow) (by omega) hhigh
    hfinite
  rw [hexponent, habove, heven] at hnext
  rw [hexponent, hbelow, hodd] at hprevious
  rw [hround, eq_iff_le_not_lt, hnext, hprevious, NearTo, if_neg hpos.ne', and_comm]
  refine and_congr_left fun _ => ?_
  rcases lt_trichotomy x (k - halfGapBelow k) with hlt | heq | hgt
  · simp [hlt, hlt.not_gt, hlt.ne]
  · simp [heq]
  · simp [hgt, hgt.not_gt, hgt.ne']

/-- A nonnegative number is rounded to zero exactly when it is near to it. -/
theorem round_eq_zero_iff {x : ℚ} (hx : 0 ≤ x) : binary64.round x = 0 ↔ NearTo 0 x := by
  have hzero := round_le_iff binary64 hx (s := 0) (M := 0) (.inl rfl) (by decide) (by decide)
  have hhalf : ((0 : Nat) + 1 / 2 : ℚ) * 2 ^ (binary64.leastExponent + ((0 : Nat) : Int)) =
      2 ^ (-1075 : Int) := by
    have hleast : binary64.leastExponent + ((0 : Nat) : Int) = -1075 + 1 := by decide
    have hone : ∀ unit : ℚ, ((0 : Nat) + 1 / 2 : ℚ) * (unit * 2) = unit := by
      intro unit
      push_cast
      ring
    rw [hleast, zpow_add_one₀ two_ne_zero]
    exact hone _
  rw [hhalf] at hzero
  rw [NearTo, if_pos rfl, abs_of_nonneg hx, ← Nat.le_zero]
  rw [Nat.zero_mul, Nat.zero_add] at hzero
  rw [hzero, le_iff_lt_or_eq]
  simp

end Nearness

section Literals

theorem Numeral.magnitude_nonneg (n : Numeral) : 0 ≤ n.magnitude := by
  unfold Numeral.magnitude
  rcases n.fraction with _ | ds <;> simp only [Option.elim] <;> positivity

/-- What stands in front of the midpoint below a positive whole number is positive. -/
theorem halfGapBelow_lt {k : Nat} (hpos : 0 < k) : halfGapBelow k < k := by
  have hlow : (2 : ℚ) ^ (Nat.log 2 k : Int) ≤ k := by
    rw [zpow_natCast]
    exact_mod_cast Nat.pow_log_le_self 2 hpos.ne'
  refine lt_of_lt_of_le ?_ hlow
  unfold halfGapBelow
  split <;> exact zpow_lt_zpow_right₀ (by norm_num) (by omega)

theorem not_nearTo_of_nonpos {k : Nat} (hpos : 0 < k) {x : ℚ} (hx : x ≤ 0) : ¬ NearTo k x := by
  have hgap := halfGapBelow_lt hpos
  rw [NearTo, if_neg hpos.ne']
  rintro ⟨hlt | ⟨heq, -⟩, -⟩ <;> linarith

/-- The `double` of a literal is a whole number exactly when the literal is near to it. -/
theorem rational_eq_whole_iff {n : Numeral} {value : Double} (hvalue : n.Denotes value) {k : Nat}
    (hle : k ≤ kJsonExactIntegerLimit) : value.rational = k ↔ NearTo k n.rational := by
  obtain ⟨hfinite, rfl⟩ := hvalue
  have hx := n.magnitude_nonneg
  obtain ⟨hnegative, hmagnitude⟩ :=
    Double.ofMagnitude_spec n.negative (hfinite.trans (infinity_lt binary64))
  have hwhole : binary64.value (binary64.round n.magnitude) = k ↔ NearTo k n.magnitude := by
    rcases Nat.eq_zero_or_pos k with rfl | hpos
    · rw [← round_eq_zero_iff hx]
      constructor
      · intro hzero
        have hround := round_value binary64 hfinite
        rw [hzero] at hround
        simpa [BinaryFormat.round] using hround.symm
      · intro hzero
        rw [hzero]
        simp [BinaryFormat.value]
    · have hmodulus : k < UInt64.size := lt_of_le_of_lt hle (by decide)
      have htoNat : (UInt64.ofNat k).toNat = k := UInt64.toNat_ofNat_of_lt hmodulus
      have hholds := (asDouble_integral (n := UInt64.ofNat k) (by rwa [htoNat])).2
      rw [asDouble, (Double.ofRational_of_nonneg (Nat.cast_nonneg _)).2, htoNat] at hholds
      rw [← round_eq_whole_iff hpos hle hx]
      constructor
      · intro heq
        rw [← heq, round_value binary64 hfinite]
      · intro heq
        rw [heq, hholds]
  rw [Double.rational, hnegative, hmagnitude, Numeral.rational]
  rcases hsign : n.negative with _ | _
  · simpa using hwhole
  · rw [if_pos rfl, if_pos rfl]
    have hnonneg := value_nonneg binary64 (binary64.round n.magnitude)
    rcases Nat.eq_zero_or_pos k with rfl | hpos
    · have hsame : NearTo 0 (-n.magnitude) ↔ NearTo 0 n.magnitude := by
        rw [NearTo, if_pos rfl, abs_neg, NearTo, if_pos rfl]
      rw [hsame, ← hwhole, Nat.cast_zero, neg_eq_zero]
    · refine iff_of_false ?_ (not_nearTo_of_nonpos hpos (by linarith))
      have hkpos : (0 : ℚ) < k := by exact_mod_cast hpos
      intro heq
      linarith

/-- A parsed number is the one that its literal denotes. -/
theorem denotes_of_parses {size : Nat} {n : Numeral} {rest : Bytes} {value : Double}
    (h : (parseNumber size).Parses (n.text ++ rest) value rest) : n.Denotes value := by
  obtain ⟨x, heq, n', hx, hvalue⟩ := (accepts_parseNumber size).sound _ _ _ h
  have htext : n'.text = n.text := hx.trans (List.append_cancel_right heq).symm
  rw [← extractDouble_text, ← htext, extractDouble_text]
  exact hvalue

theorem Double.eq_symm {x y : Double} (h : x.eq y = true) : y.eq x = true := by
  rw [Double.eq, Bool.and_eq_true, Bool.and_eq_true] at h ⊢
  obtain ⟨⟨hx, hy⟩, hsame⟩ := h
  refine ⟨⟨hy, hx⟩, ?_⟩
  rw [Bool.beq_comm, Bool.and_comm]
  exact hsame

/-- A finite number that is whole equals the `double` of the whole number. -/
theorem eq_asDouble {value : Double} {k : UInt64} (hfinite : value.finite = true)
    (hrational : value.rational = k.toNat) (hexact : k.toNat ≤ kJsonExactIntegerLimit) :
    value.eq (asDouble k) = true := by
  have hintegral : Integral value := by
    refine ⟨hfinite, by rw [hrational, Rat.den_natCast], ?_⟩
    rw [hrational, abs_of_nonneg (Nat.cast_nonneg _)]
    exact_mod_cast hexact
  have hlt : value.magnitude < binary64.infinity := by simpa [Double.finite] using hfinite
  have hasDouble : asDouble k = Double.ofMagnitude (value.rational.num < 0) value.magnitude := by
    rw [asDouble, Double.ofRational, ← hrational, Double.rational_magnitude, round_value _ hlt]
    simp only [Rat.num_neg]
  rw [hasDouble]
  exact Double.eq_symm (ofMagnitude_num hintegral).1

/-- Accepted is a number in range that is a whole number. -/
theorem requiredUnsigned_eq_ok {object : Members} {key : Bytes} {value : Double}
    {maximum k : UInt64} (hmember : member? object key = some (.number value))
    (hfinite : value.finite = true) :
    requiredUnsigned object key maximum = .ok k ↔
      value.rational = k.toNat ∧ k.toNat ≤ kJsonExactIntegerLimit ∧ k ≤ maximum := by
  have hnan : value.isNaN = false := by
    have hlt : value.magnitude < binary64.infinity := by simpa [Double.finite] using hfinite
    simp [Double.isNaN, BinaryFormat.isNaN, hlt.le]
  constructor
  · intro hok
    rw [requiredUnsigned, hmember] at hok
    dsimp only at hok
    split at hok
    · cases hok
    rename_i hchecks
    split at hok
    · cases hok
    rename_i hmaximum
    rw [except_pure_eq_ok] at hok
    simp only [hnan, Bool.false_or, Bool.or_eq_true, not_or, decide_eq_true_eq, not_lt, exceeds,
      Bool.not_false, Bool.true_and, Bool.not_eq_true', Bool.not_eq_false] at hchecks
    obtain ⟨⟨hnonneg, hlimit⟩, heq⟩ := hchecks
    have hfloor : (⌊value.rational⌋.toNat : ℚ) ≤ kJsonExactIntegerLimit := by
      refine le_trans ?_ hlimit
      have hcast : ((⌊value.rational⌋.toNat : Int) : ℚ) = ⌊value.rational⌋ := by
        rw [Int.toNat_of_nonneg (Int.floor_nonneg.mpr hnonneg)]
      push_cast at hcast
      rw [hcast]
      exact Int.floor_le _
    have hfloorNat : ⌊value.rational⌋.toNat ≤ kJsonExactIntegerLimit := by exact_mod_cast hfloor
    have htoNat : (truncated value).toNat = ⌊value.rational⌋.toNat :=
      UInt64.toNat_ofNat_of_lt (lt_of_le_of_lt hfloorNat (by decide))
    have hexact : (truncated value).toNat ≤ kJsonExactIntegerLimit := htoNat ▸ hfloorNat
    obtain ⟨-, hrational⟩ := Double.rational_of_eq heq
    rw [(asDouble_integral hexact).2] at hrational
    subst hok
    exact ⟨hrational, hexact, UInt64.not_lt.mp hmaximum⟩
  · rintro ⟨hrational, hexact, hmaximum⟩
    exact requiredUnsigned_of_eq hmember (eq_asDouble hfinite hrational hexact) hexact hmaximum

/-- The parameter is refused or equals the number that the literal denotes. -/
def ExactOrRefused (n : Numeral) (object : Members) (key : Bytes) (maximum : UInt64) : Prop :=
  ∀ k, requiredUnsigned object key maximum = .ok k → (k.toNat : ℚ) = n.rational

/-- A literal that the parser has read is taken for another number exactly when it is
no whole number within the limits but nearer to one than to every other `double`. -/
theorem requiredUnsigned_exact_iff {size : Nat} {n : Numeral} {rest : Bytes} {value : Double}
    (hparse : (parseNumber size).Parses (n.text ++ rest) value rest) {object : Members}
    {key : Bytes} (hmember : member? object key = some (.number value)) (maximum : UInt64) :
    ExactOrRefused n object key maximum ↔ ¬ TakenForWhole maximum n.rational := by
  have hvalue := denotes_of_parses hparse
  have hfinite : value.finite = true := by
    obtain ⟨hround, rfl⟩ := hvalue
    have hmagnitude :=
      (Double.ofMagnitude_spec n.negative (hround.trans (infinity_lt binary64))).2
    rw [Double.finite, hmagnitude]
    exact decide_eq_true hround
  have haccepted : ∀ k : UInt64, requiredUnsigned object key maximum = .ok k ↔
      k.toNat ≤ kJsonExactIntegerLimit ∧ k.toNat ≤ maximum.toNat ∧
        NearTo k.toNat n.rational := by
    intro k
    rw [requiredUnsigned_eq_ok hmember hfinite, UInt64.le_iff_toNat_le]
    constructor
    · rintro ⟨hrational, hlimit, hmaximum⟩
      exact ⟨hlimit, hmaximum, (rational_eq_whole_iff hvalue hlimit).mp hrational⟩
    · rintro ⟨hlimit, hmaximum, hnear⟩
      exact ⟨(rational_eq_whole_iff hvalue hlimit).mpr hnear, hlimit, hmaximum⟩
  constructor
  · rintro hexact ⟨k, hlimit, hmaximum, hother, hnear⟩
    have htoNat : (UInt64.ofNat k).toNat = k :=
      UInt64.toNat_ofNat_of_lt (hmaximum.trans_lt maximum.toNat_lt)
    have hk := hexact (UInt64.ofNat k)
      ((haccepted _).mpr (by rw [htoNat]; exact ⟨hlimit, hmaximum, hnear⟩))
    rw [htoNat] at hk
    exact hother hk.symm
  · intro hnone k hok
    obtain ⟨hlimit, hmaximum, hnear⟩ := (haccepted k).mp hok
    by_contra hother
    exact hnone ⟨k.toNat, hlimit, hmaximum, fun heq => hother heq.symm, hnear⟩

end Literals

section Instances

/-- A literal that is only digits. -/
def wholeLiteral (digits : Bytes) (h : Digits digits ∧ digits.head? ≠ some 48) : Numeral :=
  ⟨false, digits, none, none, .inr h, by simp⟩

def sevenDigits : Bytes := text "7"

theorem sevenDigits_digits : Digits sevenDigits ∧ sevenDigits.head? ≠ some 48 :=
  ⟨⟨by decide, List.all_eq_true.1 (by decide)⟩, by decide⟩

/-- Seven for a time to live. -/
theorem requiredUnsigned_exact_iff_seven :
    ExactOrRefused (wholeLiteral sevenDigits sevenDigits_digits)
        [(text "ttl", .number ⟨0x401C000000000000⟩)] (text "ttl") 255 ↔
      ¬ TakenForWhole 255 (wholeLiteral sevenDigits sevenDigits_digits).rational := by
  have hparse : (parseNumber 1).Parses
      ((wholeLiteral sevenDigits sevenDigits_digits).text ++ []) ⟨0x401C000000000000⟩ [] := by
    refine (accepts_parseNumber 1).complete _ _ _ ⟨_, rfl, ?_⟩ endsNumber_nil
    refine ⟨?_, ?_⟩ <;> decide +kernel
  have hmember : member? [(text "ttl", .number ⟨0x401C000000000000⟩)] (text "ttl") =
      some (.number ⟨0x401C000000000000⟩) := by
    simp [member?]
  exact requiredUnsigned_exact_iff hparse hmember 255

def pastLimitDigits : Bytes := text "9007199254740993"

theorem pastLimitDigits_digits : Digits pastLimitDigits ∧ pastLimitDigits.head? ≠ some 48 :=
  ⟨⟨by decide, List.all_eq_true.1 (by decide)⟩, by decide⟩

/-- 2^53 + 1 for a publisher id is taken for 2^53. -/
theorem pastLimit_not_exact :
    (parseNumber 16).Parses
        ((wholeLiteral pastLimitDigits pastLimitDigits_digits).text ++ [])
        ⟨0x4340000000000000⟩ [] ∧
      ¬ ExactOrRefused (wholeLiteral pastLimitDigits pastLimitDigits_digits)
        [(text "publisherId", .number ⟨0x4340000000000000⟩)] (text "publisherId")
        (PubSub.publisherIdMaximum .uInt64) := by
  constructor
  · refine (accepts_parseNumber 16).complete _ _ _ ⟨_, rfl, ?_⟩ endsNumber_nil
    refine ⟨?_, ?_⟩ <;> decide +kernel
  · intro hexact
    have hmember : member? [(text "publisherId", .number ⟨0x4340000000000000⟩)]
        (text "publisherId") = some (.number ⟨0x4340000000000000⟩) := by
      simp [member?]
    have haccepted : (requiredUnsigned [(text "publisherId", .number ⟨0x4340000000000000⟩)]
        (text "publisherId") (PubSub.publisherIdMaximum .uInt64)) = .ok 9007199254740992 := by
      rw [requiredUnsigned_eq_ok hmember (by decide)]
      decide +kernel
    have hequal := hexact _ haccepted
    revert hequal
    decide +kernel

end Instances

end Fx

end Supernova
