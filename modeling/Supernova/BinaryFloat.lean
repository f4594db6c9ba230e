/-
Binary interchange formats: the exact rational value of a finite bit pattern,
rounding to nearest (ties to even) into a format, and conversion between two
formats.  A magnitude is a bit pattern without its sign bit, so infinity is
the first magnitude that has no value and every NaN lies above it.
-/
import Mathlib.Algebra.Order.Field.Power
import Mathlib.Data.Int.Log
import Mathlib.Data.Rat.Floor
import Mathlib.Tactic.FieldSimp
import Mathlib.Tactic.Linarith
import Mathlib.Tactic.Positivity

namespace Supernova

/-- A binary format: the stored fraction bits and the exponent bits. -/
structure BinaryFormat where
  fractionBits : Nat
  exponentBits : Nat
deriving DecidableEq, Repr

namespace BinaryFormat

def binary32 : BinaryFormat := ⟨23, 8⟩

def binary64 : BinaryFormat := ⟨52, 11⟩

/-- The number of bits of a magnitude. -/
def magnitudeBits (F : BinaryFormat) : Nat := F.exponentBits + F.fractionBits

/-- The exponent of the last fraction bit of a subnormal number. -/
def leastExponent (F : BinaryFormat) : Int :=
  2 - 2 ^ (F.exponentBits - 1) - F.fractionBits

/-- The magnitude whose exponent field is all ones and whose fraction is zero. -/
def infinity (F : BinaryFormat) : Nat :=
  (2 ^ F.exponentBits - 1) * 2 ^ F.fractionBits

def isNaN (F : BinaryFormat) (magnitude : Nat) : Bool :=
  F.infinity < magnitude

/-- The exact value of a finite magnitude. -/
def value (F : BinaryFormat) (magnitude : Nat) : ℚ :=
  let field := magnitude / 2 ^ F.fractionBits
  let fraction := magnitude % 2 ^ F.fractionBits
  if field = 0 then
    (fraction : ℚ) * 2 ^ F.leastExponent
  else
    ((2 ^ F.fractionBits + fraction : Nat) : ℚ) * 2 ^ (F.leastExponent + field - 1)

/-- Round a nonnegative rational to an integer, ties to even. -/
def roundHalfEven (x : ℚ) : Nat :=
  let down := ⌊x⌋.toNat
  if 2 * (x - down) < 1 then down
  else if 1 < 2 * (x - down) then down + 1
  else down + down % 2

theorem roundHalfEven_natCast (n : Nat) : roundHalfEven (n : ℚ) = n := by
  simp [roundHalfEven]

/-- The exponent of the last bit that the format keeps of `x`. -/
def lastBitExponent (F : BinaryFormat) (x : ℚ) : Int :=
  max (Int.log 2 x - F.fractionBits) F.leastExponent

/-- Round a nonnegative rational into the format.  A carry out of the fraction
runs into the exponent field, and overflow saturates at infinity. -/
def round (F : BinaryFormat) (x : ℚ) : Nat :=
  if x = 0 then 0
  else
    let e := F.lastBitExponent x
    min ((e - F.leastExponent).toNat * 2 ^ F.fractionBits +
      roundHalfEven (x / 2 ^ e)) F.infinity

/-- The magnitude that a significand and the exponent of its last bit make up
when the significand is normalised for the format. -/
theorem value_of_normalised (F : BinaryFormat) (shift M : Nat)
    (hlow : shift = 0 ∨ 2 ^ F.fractionBits ≤ M)
    (hhigh : M < 2 ^ (F.fractionBits + 1)) :
    F.value (shift * 2 ^ F.fractionBits + M) =
      (M : ℚ) * 2 ^ (F.leastExponent + shift) := by
  have hpos : 0 < 2 ^ F.fractionBits := by positivity
  rw [pow_succ] at hhigh
  by_cases hM : M < 2 ^ F.fractionBits
  · have hshift : shift = 0 := by
      rcases hlow with h | h
      · exact h
      · omega
    subst hshift
    have hfield : (0 * 2 ^ F.fractionBits + M) / 2 ^ F.fractionBits = 0 := by
      rw [Nat.zero_mul, Nat.zero_add, Nat.div_eq_of_lt hM]
    have hfraction : (0 * 2 ^ F.fractionBits + M) % 2 ^ F.fractionBits = M := by
      rw [Nat.zero_mul, Nat.zero_add, Nat.mod_eq_of_lt hM]
    simp only [value, hfield, hfraction, if_true]
    simp
  · have hsplit : shift * 2 ^ F.fractionBits + M =
        (M - 2 ^ F.fractionBits) + (shift + 1) * 2 ^ F.fractionBits := by
      rw [Nat.add_mul]
      omega
    have hrest : M - 2 ^ F.fractionBits < 2 ^ F.fractionBits := by omega
    have hfield : (shift * 2 ^ F.fractionBits + M) / 2 ^ F.fractionBits = shift + 1 := by
      rw [hsplit, Nat.add_mul_div_right _ _ hpos, Nat.div_eq_of_lt hrest, Nat.zero_add]
    have hfraction : (shift * 2 ^ F.fractionBits + M) % 2 ^ F.fractionBits =
        M - 2 ^ F.fractionBits := by
      rw [hsplit, Nat.add_mul_mod_self_right, Nat.mod_eq_of_lt hrest]
    have hsum : 2 ^ F.fractionBits + (M - 2 ^ F.fractionBits) = M := by omega
    simp only [value, hfield, hfraction, hsum, Nat.add_eq_zero_iff, one_ne_zero,
      and_false, if_false]
    congr 2
    push_cast
    ring

/-- `x` is a finite value of the format: a normalised significand at an
exponent in range. -/
def Holds (F : BinaryFormat) (x : ℚ) : Prop :=
  ∃ shift M : Nat, (shift = 0 ∨ 2 ^ F.fractionBits ≤ M) ∧
    M < 2 ^ (F.fractionBits + 1) ∧
    shift * 2 ^ F.fractionBits + M < F.infinity ∧
    x = (M : ℚ) * 2 ^ (F.leastExponent + shift)

/-- Every magnitude is a normalised significand with its exponent. -/
theorem exists_normalised (F : BinaryFormat) (magnitude : Nat) :
    ∃ shift M : Nat, magnitude = shift * 2 ^ F.fractionBits + M ∧
      (shift = 0 ∨ 2 ^ F.fractionBits ≤ M) ∧ M < 2 ^ (F.fractionBits + 1) := by
  have hpos : 0 < 2 ^ F.fractionBits := by positivity
  have hdecomp := Nat.div_add_mod magnitude (2 ^ F.fractionBits)
  have hfraction := Nat.mod_lt magnitude hpos
  rw [pow_succ]
  cases hfield : magnitude / 2 ^ F.fractionBits with
  | zero =>
      rw [hfield] at hdecomp
      exact ⟨0, magnitude, by omega, Or.inl rfl, by omega⟩
  | succ shift =>
      rw [hfield, Nat.mul_comm, Nat.add_mul] at hdecomp
      exact ⟨shift, 2 ^ F.fractionBits + magnitude % 2 ^ F.fractionBits,
        by omega, Or.inr (by omega), by omega⟩

/-- The last kept bit of a normalised significand is its own last bit. -/
theorem lastBitExponent_of_normalised (F : BinaryFormat) {shift M : Nat}
    (hMpos : 0 < M) (hlow : shift = 0 ∨ 2 ^ F.fractionBits ≤ M)
    (hhigh : M < 2 ^ (F.fractionBits + 1)) :
    F.lastBitExponent ((M : ℚ) * 2 ^ (F.leastExponent + shift)) =
      F.leastExponent + shift := by
  have hMq : (0 : ℚ) < M := by exact_mod_cast hMpos
  have hx : (0 : ℚ) < (M : ℚ) * 2 ^ (F.leastExponent + shift) := by positivity
  have hupper : Int.log 2 ((M : ℚ) * 2 ^ (F.leastExponent + shift)) <
      F.fractionBits + 1 + (F.leastExponent + shift) := by
    rw [← Int.lt_zpow_iff_log_lt (by decide) hx]
    have hM : (M : ℚ) < 2 ^ (F.fractionBits + 1) := by exact_mod_cast hhigh
    calc (M : ℚ) * 2 ^ (F.leastExponent + (shift : Int))
        < 2 ^ (F.fractionBits + 1) * 2 ^ (F.leastExponent + (shift : Int)) := by
          gcongr
      _ = ((2 : Nat) : ℚ) ^ ((F.fractionBits : Int) + 1 + (F.leastExponent + shift)) := by
          rw [Nat.cast_ofNat, zpow_add₀ (two_ne_zero) ((F.fractionBits : Int) + 1)]
          norm_cast
  rw [lastBitExponent]
  rcases hlow with rfl | hlow
  · simp only [Nat.cast_zero, add_zero] at hupper ⊢
    omega
  · have hlower : (F.fractionBits : Int) + (F.leastExponent + shift) ≤
        Int.log 2 ((M : ℚ) * 2 ^ (F.leastExponent + shift)) := by
      rw [← Int.zpow_le_iff_le_log (by decide) hx, zpow_add₀ (by norm_num), zpow_natCast]
      have hM : (2 : ℚ) ^ F.fractionBits ≤ M := by exact_mod_cast hlow
      push_cast
      gcongr
    omega

/-- A value that the format can hold is rounded to itself. -/
theorem round_normalised (F : BinaryFormat) {shift M : Nat}
    (hlow : shift = 0 ∨ 2 ^ F.fractionBits ≤ M)
    (hhigh : M < 2 ^ (F.fractionBits + 1))
    (hfinite : shift * 2 ^ F.fractionBits + M < F.infinity) :
    F.round ((M : ℚ) * 2 ^ (F.leastExponent + shift)) =
      shift * 2 ^ F.fractionBits + M := by
  rcases Nat.eq_zero_or_pos M with rfl | hMpos
  · have hshift : shift = 0 := by
      rcases hlow with h | h
      · exact h
      · have : 0 < 2 ^ F.fractionBits := by positivity
        omega
    simp [round, hshift]
  · have hMq : (0 : ℚ) < M := by exact_mod_cast hMpos
    have hx : (M : ℚ) * 2 ^ (F.leastExponent + (shift : Int)) ≠ 0 := by positivity
    have hcancel : (M : ℚ) * 2 ^ (F.leastExponent + (shift : Int)) /
        2 ^ (F.leastExponent + (shift : Int)) = M := by
      field_simp
    simp only [round, if_neg hx, lastBitExponent_of_normalised F hMpos hlow hhigh, hcancel,
      roundHalfEven_natCast]
    have hnat : (F.leastExponent + (shift : Int) - F.leastExponent).toNat = shift := by
      omega
    rw [hnat, min_eq_left (Nat.le_of_lt hfinite)]

theorem round_value (F : BinaryFormat) {magnitude : Nat}
    (hfinite : magnitude < F.infinity) : F.round (F.value magnitude) = magnitude := by
  obtain ⟨shift, M, rfl, hlow, hhigh⟩ := F.exists_normalised magnitude
  rw [value_of_normalised F shift M hlow hhigh, round_normalised F hlow hhigh hfinite]

theorem Holds.round_lt_infinity {F : BinaryFormat} {x : ℚ} (hx : F.Holds x) :
    F.round x < F.infinity := by
  obtain ⟨shift, M, hlow, hhigh, hfinite, rfl⟩ := hx
  rwa [round_normalised F hlow hhigh hfinite]

theorem Holds.value_round {F : BinaryFormat} {x : ℚ} (hx : F.Holds x) :
    F.value (F.round x) = x := by
  obtain ⟨shift, M, hlow, hhigh, hfinite, rfl⟩ := hx
  rw [round_normalised F hlow hhigh hfinite, value_of_normalised F shift M hlow hhigh]

/-- A significand that fits can be shifted left until it is normalised. -/
theorem exists_normalised_shift (F : BinaryFormat) {M : Nat} (t : Nat)
    (hM : M < 2 ^ (F.fractionBits + 1)) :
    ∃ s ≤ t, (t - s = 0 ∨ M = 0 ∨ 2 ^ F.fractionBits ≤ M * 2 ^ s) ∧
      M * 2 ^ s < 2 ^ (F.fractionBits + 1) := by
  rcases Nat.eq_zero_or_pos M with rfl | hMpos
  · exact ⟨0, Nat.zero_le t, Or.inr (Or.inl rfl), by simp⟩
  · have hlog : Nat.log 2 M ≤ F.fractionBits :=
      Nat.lt_succ_iff.mp (Nat.log_lt_of_lt_pow hMpos.ne' hM)
    have hlow := Nat.pow_log_le_self 2 hMpos.ne'
    have hhigh := Nat.lt_pow_succ_log_self (by decide : 1 < 2) M
    let s := min t (F.fractionBits - Nat.log 2 M)
    refine ⟨s, min_le_left _ _, ?_, ?_⟩
    · by_cases hst : s = t
      · exact Or.inl (by omega)
      · have hs : s = F.fractionBits - Nat.log 2 M := by omega
        refine Or.inr (Or.inr ?_)
        calc 2 ^ F.fractionBits = 2 ^ Nat.log 2 M * 2 ^ s := by
              rw [← pow_add, hs, Nat.add_sub_cancel' hlog]
          _ ≤ M * 2 ^ s := Nat.mul_le_mul_right _ hlow
    · have hs : s ≤ F.fractionBits - Nat.log 2 M := min_le_right _ _
      calc M * 2 ^ s < 2 ^ (Nat.log 2 M + 1) * 2 ^ s :=
            Nat.mul_lt_mul_of_pos_right hhigh (by positivity)
        _ = 2 ^ (Nat.log 2 M + 1 + s) := (pow_add 2 _ _).symm
        _ ≤ 2 ^ (F.fractionBits + 1) := Nat.pow_le_pow_right (by decide) (by omega)

/-- A significand that fits, at an exponent in range, is a value of the format. -/
theorem holds_of_fits (F : BinaryFormat) {M t : Nat}
    (hM : M < 2 ^ (F.fractionBits + 1)) (ht : t + 3 ≤ 2 ^ F.exponentBits) :
    F.Holds ((M : ℚ) * 2 ^ (F.leastExponent + t)) := by
  obtain ⟨s, hst, hnormal, hhigh⟩ := F.exists_normalised_shift t hM
  have hinfinity : 2 * 2 ^ F.fractionBits ≤ F.infinity :=
    Nat.mul_le_mul_right _ (by omega)
  rcases Nat.eq_zero_or_pos M with rfl | hMpos
  · exact ⟨0, 0, Or.inl rfl, by positivity, by
      have : 0 < 2 ^ F.fractionBits := by positivity
      omega, by simp⟩
  · have hlow : t - s = 0 ∨ 2 ^ F.fractionBits ≤ M * 2 ^ s := by
      rcases hnormal with h | h | h
      · exact Or.inl h
      · omega
      · exact Or.inr h
    refine ⟨t - s, M * 2 ^ s, hlow, hhigh, ?_, ?_⟩
    · calc (t - s) * 2 ^ F.fractionBits + M * 2 ^ s
          < (t - s) * 2 ^ F.fractionBits + 2 ^ (F.fractionBits + 1) := by omega
        _ = (t - s + 2) * 2 ^ F.fractionBits := by ring
        _ ≤ F.infinity := Nat.mul_le_mul_right _ (by omega)
    · have hsplit : F.leastExponent + (t : Int) =
          s + (F.leastExponent + ((t - s : Nat) : Int)) := by omega
      rw [hsplit, zpow_add₀ two_ne_zero, zpow_natCast]
      push_cast
      ring

/-- Every finite value of the narrow format, subnormal ones included, is a
value of a wider one whose exponent range contains it. -/
theorem holds_value_of_wider (F G : BinaryFormat) {d : Nat}
    (hfraction : F.fractionBits ≤ G.fractionBits)
    (hleast : F.leastExponent = G.leastExponent + d)
    (hrange : 2 ^ F.exponentBits + d + 2 ≤ 2 ^ G.exponentBits)
    {magnitude : Nat} (hfinite : magnitude < F.infinity) :
    G.Holds (F.value magnitude) := by
  obtain ⟨shift, M, rfl, hlow, hhigh⟩ := F.exists_normalised magnitude
  have hshift : shift < 2 ^ F.exponentBits - 1 := by
    by_contra hnot
    have : F.infinity ≤ shift * 2 ^ F.fractionBits :=
      Nat.mul_le_mul_right _ (Nat.le_of_not_lt hnot)
    omega
  have hM : M < 2 ^ (G.fractionBits + 1) :=
    Nat.lt_of_lt_of_le hhigh (Nat.pow_le_pow_right (by decide) (by omega))
  have hexponent : F.leastExponent + (shift : Int) =
      G.leastExponent + ((d + shift : Nat) : Int) := by
    rw [hleast]
    push_cast
    ring
  rw [value_of_normalised F shift M hlow hhigh, hexponent]
  exact holds_of_fits G hM (by omega)

/-- Convert a magnitude: finite values are rounded, infinity stays infinite
and a NaN keeps its leading payload bits and becomes quiet. -/
def convert (F G : BinaryFormat) (magnitude : Nat) : Nat :=
  if F.isNaN magnitude then
    let payload := magnitude % 2 ^ F.fractionBits * 2 ^ G.fractionBits / 2 ^ F.fractionBits
    G.infinity + payload ||| 2 ^ (G.fractionBits - 1)
  else if magnitude = F.infinity then G.infinity
  else G.round (F.value magnitude)

theorem convert_of_finite (F G : BinaryFormat) {magnitude : Nat}
    (hfinite : magnitude < F.infinity) :
    F.convert G magnitude = G.round (F.value magnitude) := by
  simp [convert, isNaN, Nat.not_lt.mpr (Nat.le_of_lt hfinite), hfinite.ne]

/-- Narrowing undoes widening on every number that is not a NaN. -/
theorem convert_convert (F G : BinaryFormat) {d : Nat}
    (hfraction : F.fractionBits ≤ G.fractionBits)
    (hleast : F.leastExponent = G.leastExponent + d)
    (hrange : 2 ^ F.exponentBits + d + 2 ≤ 2 ^ G.exponentBits)
    {magnitude : Nat} (hnumber : magnitude ≤ F.infinity) :
    G.convert F (F.convert G magnitude) = magnitude := by
  rcases Nat.lt_or_eq_of_le hnumber with hfinite | rfl
  · have hholds := holds_value_of_wider F G hfraction hleast hrange hfinite
    rw [convert_of_finite F G hfinite, convert_of_finite G F hholds.round_lt_infinity,
      hholds.value_round, round_value F hfinite]
  · simp [convert, isNaN]

theorem infinity_lt (F : BinaryFormat) : F.infinity < 2 ^ F.magnitudeBits := by
  rw [infinity, magnitudeBits, pow_add]
  exact Nat.mul_lt_mul_of_pos_right (Nat.sub_lt (by positivity) (by decide)) (by positivity)

theorem convert_le_infinity (F G : BinaryFormat) {magnitude : Nat}
    (hnumber : magnitude ≤ F.infinity) : F.convert G magnitude ≤ G.infinity := by
  rcases Nat.lt_or_eq_of_le hnumber with hfinite | rfl
  · rw [convert_of_finite F G hfinite, round]
    split
    · exact Nat.zero_le _
    · exact min_le_right _ _
  · simp [convert, isNaN]

/-- A magnitude below the one of a power of two has at most the value in front
of that power. -/
theorem value_le_of_lt (F : BinaryFormat) {magnitude s : Nat}
    (h : magnitude < (s + 2) * 2 ^ F.fractionBits) :
    F.value magnitude ≤ (2 ^ (F.fractionBits + 1) - 1) * 2 ^ (F.leastExponent + s) := by
  obtain ⟨shift, M, rfl, hlow, hhigh⟩ := F.exists_normalised magnitude
  have hshift : shift ≤ s := by
    by_contra hnot
    have hM : 2 ^ F.fractionBits ≤ M := hlow.resolve_left (by omega)
    have hmul : (s + 1) * 2 ^ F.fractionBits ≤ shift * 2 ^ F.fractionBits :=
      Nat.mul_le_mul_right _ (by omega)
    rw [Nat.add_mul] at h hmul
    omega
  have hM : (M : ℚ) ≤ 2 ^ (F.fractionBits + 1) - 1 := by
    rw [le_sub_iff_add_le]
    exact_mod_cast hhigh
  rw [value_of_normalised F shift M hlow hhigh]
  apply mul_le_mul hM _ (by positivity) ((Nat.cast_nonneg M).trans hM)
  exact zpow_le_zpow_right₀ (by norm_num) (by omega)

theorem le_value_of_le (F : BinaryFormat) {magnitude s : Nat}
    (h : (s + 2) * 2 ^ F.fractionBits ≤ magnitude) :
    2 ^ (F.fractionBits + 1) * 2 ^ (F.leastExponent + s) ≤ F.value magnitude := by
  obtain ⟨shift, M, rfl, hlow, hhigh⟩ := F.exists_normalised magnitude
  have hshift : s + 1 ≤ shift := by
    by_contra hnot
    have hmul : shift * 2 ^ F.fractionBits ≤ s * 2 ^ F.fractionBits :=
      Nat.mul_le_mul_right _ (by omega)
    rw [pow_succ] at hhigh
    rw [Nat.add_mul] at h
    omega
  have hM : (2 : ℚ) ^ F.fractionBits ≤ M := by
    exact_mod_cast hlow.resolve_left (by omega)
  have hbits : (2 : ℚ) * 2 ^ (F.leastExponent + (s : Int)) ≤
      2 ^ (F.leastExponent + (shift : Int)) := by
    rw [mul_comm, ← zpow_add_one₀ two_ne_zero]
    exact zpow_le_zpow_right₀ (by norm_num) (by omega)
  rw [value_of_normalised F shift M hlow hhigh, pow_succ, mul_assoc]
  exact mul_le_mul hM hbits (by positivity) (Nat.cast_nonneg M)

theorem value_nonneg (F : BinaryFormat) (magnitude : Nat) : 0 ≤ F.value magnitude := by
  unfold value
  dsimp only
  split_ifs <;> positivity

theorem floor_le_roundHalfEven (x : ℚ) : ⌊x⌋.toNat ≤ roundHalfEven x := by
  unfold roundHalfEven
  dsimp only
  split_ifs <;> omega

/-- Up to the midpoint behind an integer rounding goes no further than it; at the midpoint
only when the integer is even. -/
theorem roundHalfEven_le_iff {x : ℚ} (hx : 0 ≤ x) {n : Nat} :
    roundHalfEven x ≤ n ↔ x < n + 1 / 2 ∨ x = n + 1 / 2 ∧ n % 2 = 0 := by
  have hfloor : ((⌊x⌋.toNat : Int) : ℚ) = (⌊x⌋ : ℚ) := by
    rw [Int.toNat_of_nonneg (Int.floor_nonneg.mpr hx)]
  have hlow := Int.floor_le x
  have hhigh := Int.lt_floor_add_one x
  push_cast at hfloor
  rw [← hfloor] at hlow hhigh
  unfold roundHalfEven
  generalize ⌊x⌋.toNat = down at *
  dsimp only
  rcases Nat.lt_trichotomy down n with hlt | rfl | hgt
  · have hq : (down : ℚ) + 1 ≤ n := by exact_mod_cast hlt
    refine iff_of_true ?_ (.inl (by linarith))
    split_ifs <;> omega
  · rcases lt_trichotomy (2 * (x - down)) 1 with hbelow | hmiddle | habove
    · rw [if_pos hbelow]
      exact iff_of_true le_rfl (.inl (by linarith))
    · have hx : x = down + 1 / 2 := by linarith
      rw [if_neg hmiddle.not_lt, if_neg hmiddle.not_gt, hx]
      simp only [lt_self_iff_false, true_and, false_or]
      omega
    · rw [if_neg habove.not_gt, if_pos habove]
      refine iff_of_false (by omega) ?_
      rintro (hlt | ⟨heq, -⟩) <;> linarith
  · have hq : (n : ℚ) + 1 ≤ down := by exact_mod_cast hgt
    refine iff_of_false ?_ ?_
    · split_ifs <;> omega
    · rintro (hlt | ⟨heq, -⟩) <;> linarith

theorem roundHalfEven_le {x : ℚ} (hx : 0 ≤ x) {n : Nat} (hle : x ≤ n) :
    roundHalfEven x ≤ n := by
  have hfloor : ((⌊x⌋.toNat : Int) : ℚ) = (⌊x⌋ : ℚ) := by
    rw [Int.toNat_of_nonneg (Int.floor_nonneg.mpr hx)]
  have hlow := Int.floor_le x
  push_cast at hfloor
  rw [← hfloor] at hlow
  unfold roundHalfEven
  generalize ⌊x⌋.toNat = down at *
  dsimp only
  have hdown : down ≤ n := by exact_mod_cast hlow.trans hle
  rcases hdown.lt_or_eq with hlt | rfl
  · split_ifs <;> omega
  · rw [if_pos (by linarith)]

/-- A value is rounded to a magnitude or below it exactly when it lies below the midpoint
between that magnitude and the next, or at the midpoint behind an even significand. -/
theorem round_le_iff (F : BinaryFormat) {x : ℚ} (hx : 0 ≤ x) {s M : Nat}
    (hlow : s = 0 ∨ 2 ^ F.fractionBits ≤ M) (hhigh : M < 2 ^ (F.fractionBits + 1))
    (hfinite : s * 2 ^ F.fractionBits + M < F.infinity) :
    F.round x ≤ s * 2 ^ F.fractionBits + M ↔
      x < (M + 1 / 2) * 2 ^ (F.leastExponent + s) ∨
        x = (M + 1 / 2) * 2 ^ (F.leastExponent + s) ∧ M % 2 = 0 := by
  have hunit : (0 : ℚ) < 2 ^ (F.leastExponent + (s : Int)) := by positivity
  have hMhigh : (M : ℚ) + 1 ≤ 2 ^ (F.fractionBits + 1) := by exact_mod_cast hhigh
  rcases hx.eq_or_lt with rfl | hx
  · have hright : (0 : ℚ) < (M + 1 / 2) * 2 ^ (F.leastExponent + s) := by positivity
    rw [round, if_pos rfl]
    exact iff_of_true (Nat.zero_le _) (.inl hright)
  have hleast : F.leastExponent ≤ F.lastBitExponent x := le_max_right _ _
  obtain ⟨t, ht⟩ : ∃ t : Nat, F.lastBitExponent x = F.leastExponent + t :=
    ⟨(F.lastBitExponent x - F.leastExponent).toNat, by omega⟩
  have hround : F.round x = min (t * 2 ^ F.fractionBits +
      roundHalfEven (x / 2 ^ (F.leastExponent + (t : Int)))) F.infinity := by
    have htoNat : (F.leastExponent + (t : Int) - F.leastExponent).toNat = t := by omega
    simp only [round, if_neg hx.ne', ht, htoNat]
  have hbase : (0 : ℚ) < 2 ^ (F.leastExponent + (t : Int)) := by positivity
  have hquotient : 0 ≤ x / 2 ^ (F.leastExponent + (t : Int)) := by positivity
  have hupper : x / 2 ^ (F.leastExponent + (t : Int)) < 2 ^ (F.fractionBits + 1) := by
    have hlog : Int.log 2 x < F.leastExponent + t + (F.fractionBits + 1 : Nat) := by
      have := le_max_left (Int.log 2 x - F.fractionBits) F.leastExponent
      rw [← lastBitExponent, ht] at this
      push_cast
      omega
    rw [div_lt_iff₀ hbase, mul_comm, ← zpow_natCast, ← zpow_add₀ two_ne_zero]
    exact_mod_cast (Int.lt_zpow_iff_log_lt (by decide) hx).mpr hlog
  rcases Nat.lt_trichotomy t s with hbelow | rfl | habove
  · -- The last kept bit lies below, so does the value.
    have hM : 2 ^ F.fractionBits ≤ M := hlow.resolve_left (by omega)
    have hle : roundHalfEven (x / 2 ^ (F.leastExponent + (t : Int))) ≤
        2 * 2 ^ F.fractionBits := by
      apply roundHalfEven_le hquotient
      rw [pow_succ] at hupper
      push_cast
      linarith
    have hleft : F.round x ≤ s * 2 ^ F.fractionBits + M := by
      rw [hround]
      refine (min_le_left _ _).trans ?_
      calc t * 2 ^ F.fractionBits + roundHalfEven (x / 2 ^ (F.leastExponent + (t : Int)))
          ≤ (t + 1) * 2 ^ F.fractionBits + 2 ^ F.fractionBits := by rw [Nat.add_mul]; omega
        _ ≤ s * 2 ^ F.fractionBits + M := Nat.add_le_add (Nat.mul_le_mul_right _ hbelow) hM
    have hright : x < (M + 1 / 2) * 2 ^ (F.leastExponent + s) := by
      have hbits : (2 : ℚ) * 2 ^ (F.leastExponent + (t : Int)) ≤
          2 ^ (F.leastExponent + (s : Int)) := by
        rw [mul_comm, ← zpow_add_one₀ two_ne_zero]
        exact zpow_le_zpow_right₀ (by norm_num) (by omega)
      have hMq : (2 : ℚ) ^ F.fractionBits ≤ M := by exact_mod_cast hM
      rw [div_lt_iff₀ hbase, pow_succ] at hupper
      calc x < 2 ^ F.fractionBits * (2 * 2 ^ (F.leastExponent + (t : Int))) := by linarith
        _ ≤ 2 ^ F.fractionBits * 2 ^ (F.leastExponent + (s : Int)) := by gcongr
        _ ≤ (M + 1 / 2) * 2 ^ (F.leastExponent + (s : Int)) := by
          gcongr
          linarith
    exact iff_of_true hleft (.inl hright)
  · rw [hround, min_le_iff, or_iff_left (not_le.mpr hfinite), Nat.add_le_add_iff_left,
      roundHalfEven_le_iff hquotient, div_lt_iff₀ hbase, div_eq_iff hbase.ne']
  · -- The last kept bit lies above, so does the value.
    have hlower : (2 : ℚ) ^ F.fractionBits ≤ x / 2 ^ (F.leastExponent + (t : Int)) := by
      have hlog : F.leastExponent + t + (F.fractionBits : Int) ≤ Int.log 2 x := by
        have hmax : max (Int.log 2 x - F.fractionBits) F.leastExponent =
          F.leastExponent + t := ht
        rcases max_choice (Int.log 2 x - F.fractionBits) F.leastExponent with h | h <;> omega
      rw [le_div_iff₀ hbase, mul_comm, ← zpow_natCast, ← zpow_add₀ two_ne_zero]
      exact_mod_cast (Int.zpow_le_iff_le_log (by decide) hx).mpr hlog
    have hM : 2 ^ F.fractionBits ≤ roundHalfEven (x / 2 ^ (F.leastExponent + (t : Int))) := by
      refine le_trans ?_ (floor_le_roundHalfEven _)
      have hfloor : ((2 ^ F.fractionBits : Nat) : Int) ≤
          ⌊x / 2 ^ (F.leastExponent + (t : Int))⌋ := by
        rw [Int.le_floor]
        exact_mod_cast hlower
      omega
    have hleft : ¬ F.round x ≤ s * 2 ^ F.fractionBits + M := by
      rw [hround, not_le, lt_min_iff]
      refine ⟨?_, hfinite⟩
      calc s * 2 ^ F.fractionBits + M < (s + 1) * 2 ^ F.fractionBits + 2 ^ F.fractionBits := by
            rw [Nat.add_mul]; omega
        _ ≤ _ := Nat.add_le_add (Nat.mul_le_mul_right _ habove) hM
    have hright : (M + 1 / 2) * 2 ^ (F.leastExponent + (s : Int)) < x := by
      have hbits : (2 : ℚ) * 2 ^ (F.leastExponent + (s : Int)) ≤
          2 ^ (F.leastExponent + (t : Int)) := by
        rw [mul_comm, ← zpow_add_one₀ two_ne_zero]
        exact zpow_le_zpow_right₀ (by norm_num) (by omega)
      calc ((M : ℚ) + 1 / 2) * 2 ^ (F.leastExponent + (s : Int))
          < (M + 1) * 2 ^ (F.leastExponent + (s : Int)) := by gcongr; norm_num
        _ ≤ 2 ^ (F.fractionBits + 1) * 2 ^ (F.leastExponent + (s : Int)) := by gcongr
        _ = 2 ^ F.fractionBits * (2 * 2 ^ (F.leastExponent + (s : Int))) := by
          rw [pow_succ, mul_assoc]
        _ ≤ 2 ^ F.fractionBits * 2 ^ (F.leastExponent + (t : Int)) := by gcongr
        _ ≤ x := (le_div_iff₀ hbase).mp hlower
    refine iff_of_false hleft ?_
    rintro (hlt | ⟨heq, -⟩)
    · exact hright.not_gt hlt
    · exact hright.ne' heq

/-- A value is rounded below a power of two exactly when it lies below the
midpoint between that power and the last value in front of it. -/
theorem round_lt_iff (F : BinaryFormat) {x : ℚ} (hx : 0 ≤ x) {s : Nat}
    (hfinite : (s + 2) * 2 ^ F.fractionBits ≤ F.infinity) :
    F.round x < (s + 2) * 2 ^ F.fractionBits ↔
      x < (2 ^ (F.fractionBits + 1) - 1 / 2) * 2 ^ (F.leastExponent + s) := by
  have hpos : 0 < 2 ^ F.fractionBits := by positivity
  have hpower : 2 ^ (F.fractionBits + 1) = 2 * 2 ^ F.fractionBits := by
    rw [pow_succ, Nat.mul_comm]
  have hlast : (s + 2) * 2 ^ F.fractionBits =
      s * 2 ^ F.fractionBits + (2 ^ (F.fractionBits + 1) - 1) + 1 := by
    rw [Nat.add_mul]
    omega
  have hhalf : (((2 ^ (F.fractionBits + 1) - 1 : Nat) : ℚ) + 1 / 2) =
      2 ^ (F.fractionBits + 1) - 1 / 2 := by
    rw [Nat.cast_sub (by omega)]
    push_cast
    ring
  have hodd : (2 ^ (F.fractionBits + 1) - 1) % 2 ≠ 0 := by omega
  rw [hlast, Nat.lt_succ_iff, round_le_iff F hx (.inr (by omega)) (by omega) (by omega), hhalf]
  exact or_iff_left fun h => hodd h.2

/-- The midpoint in front of a normalised value, in units of its last bit. -/
def midpointBelow (F : BinaryFormat) (s M : Nat) : ℚ :=
  if s ≠ 0 ∧ M = 2 ^ F.fractionBits then M - 1 / 4 else M - 1 / 2

/-- A value is rounded below a magnitude exactly when it lies below the midpoint in front
of it, or at the midpoint in front of an odd significand. -/
theorem round_lt_normalised_iff (F : BinaryFormat) (hbits : 0 < F.fractionBits) {x : ℚ}
    (hx : 0 ≤ x) {s M : Nat} (hlow : s = 0 ∨ 2 ^ F.fractionBits ≤ M) (hM : 0 < M)
    (hhigh : M < 2 ^ (F.fractionBits + 1)) (hfinite : s * 2 ^ F.fractionBits + M < F.infinity) :
    F.round x < s * 2 ^ F.fractionBits + M ↔
      x < F.midpointBelow s M * 2 ^ (F.leastExponent + s) ∨
        x = F.midpointBelow s M * 2 ^ (F.leastExponent + s) ∧ M % 2 = 1 := by
  have hpower : 2 ^ (F.fractionBits + 1) = 2 * 2 ^ F.fractionBits := by
    rw [pow_succ, Nat.mul_comm]
  by_cases hedge : s ≠ 0 ∧ M = 2 ^ F.fractionBits
  · -- The value in front has the largest significand and the exponent below.
    obtain ⟨hs, rfl⟩ := hedge
    obtain ⟨t, rfl⟩ : ∃ t, s = t + 1 := ⟨s - 1, by omega⟩
    have hlast : (t + 1) * 2 ^ F.fractionBits + 2 ^ F.fractionBits =
        (t + 2) * 2 ^ F.fractionBits := by
      rw [← Nat.succ_mul]
    have hinfinity : (t + 2) * 2 ^ F.fractionBits ≤ F.infinity := hlast ▸ hfinite.le
    have heven : 2 ^ F.fractionBits % 2 ≠ 1 := by
      obtain ⟨b, hb⟩ : ∃ b, F.fractionBits = b + 1 := ⟨F.fractionBits - 1, by omega⟩
      rw [hb, pow_succ]
      omega
    have hgap : F.midpointBelow (t + 1) (2 ^ F.fractionBits) *
        2 ^ (F.leastExponent + ((t + 1 : Nat) : Int)) =
        (2 ^ (F.fractionBits + 1) - 1 / 2) * 2 ^ (F.leastExponent + (t : Int)) := by
      rw [midpointBelow, if_pos ⟨hs, rfl⟩, Nat.cast_succ, ← add_assoc, zpow_add_one₀ two_ne_zero,
        pow_succ]
      push_cast
      ring
    rw [hlast, round_lt_iff F hx hinfinity, hgap]
    exact (or_iff_left fun h => heven h.2).symm
  · obtain ⟨P, rfl⟩ : ∃ P, M = P + 1 := ⟨M - 1, by omega⟩
    have hgap : F.midpointBelow s (P + 1) = P + 1 / 2 := by
      rw [midpointBelow, if_neg hedge]
      push_cast
      ring
    rw [← Nat.add_assoc, Nat.lt_succ_iff,
      round_le_iff F hx (by omega) (by omega) (by omega), hgap]
    have hparity : P % 2 = 0 ↔ (P + 1) % 2 = 1 := by omega
    rw [hparity]

/-- Put the sign bit in front of a magnitude. -/
def withSign (F : BinaryFormat) (negative : Bool) (magnitude : Nat) : Nat :=
  negative.toNat * 2 ^ F.magnitudeBits + magnitude

theorem withSign_div_mod (F : BinaryFormat) (negative : Bool) {magnitude : Nat}
    (hmagnitude : magnitude < 2 ^ F.magnitudeBits) :
    F.withSign negative magnitude / 2 ^ F.magnitudeBits = negative.toNat ∧
      F.withSign negative magnitude % 2 ^ F.magnitudeBits = magnitude := by
  have hpos : 0 < 2 ^ F.magnitudeBits := by positivity
  rw [withSign, Nat.add_comm]
  constructor
  · rw [Nat.add_mul_div_right _ _ hpos, Nat.div_eq_of_lt hmagnitude, Nat.zero_add]
  · rw [Nat.add_mul_mod_self_right, Nat.mod_eq_of_lt hmagnitude]

/-- A number of one more bit is its sign bit in front of its magnitude. -/
theorem withSign_self (F : BinaryFormat) {bits : Nat}
    (hbits : bits < 2 * 2 ^ F.magnitudeBits) :
    F.withSign (bits / 2 ^ F.magnitudeBits ≠ 0) (bits % 2 ^ F.magnitudeBits) = bits := by
  have hbit : bits / 2 ^ F.magnitudeBits < 2 :=
    Nat.div_lt_of_lt_mul (Nat.mul_comm 2 _ ▸ hbits)
  have hsign : (decide (bits / 2 ^ F.magnitudeBits ≠ 0)).toNat =
      bits / 2 ^ F.magnitudeBits := by
    by_cases hzero : bits / 2 ^ F.magnitudeBits = 0
    · simp [hzero]
    · have hpos := Nat.pos_of_ne_zero hzero
      simp only [ne_eq, hzero, not_false_eq_true, decide_true, Bool.toNat_true]
      omega
  rw [withSign, hsign, Nat.mul_comm]
  exact Nat.div_add_mod _ _

end BinaryFormat

open BinaryFormat

/-- A C++ `float`, as its bit pattern. -/
structure Single where
  bits : UInt32
deriving DecidableEq, Repr

/-- A C++ `double`, as its bit pattern. -/
structure Double where
  bits : UInt64
deriving DecidableEq, Repr

namespace Single

def negative (f : Single) : Bool := f.bits.toNat / 2 ^ binary32.magnitudeBits ≠ 0

def magnitude (f : Single) : Nat := f.bits.toNat % 2 ^ binary32.magnitudeBits

def isNaN (f : Single) : Bool := binary32.isNaN f.magnitude

/-- The conversion from `float` to `double`, which is exact. -/
def toDouble (f : Single) : Double :=
  ⟨UInt64.ofNat (binary64.withSign f.negative (binary32.convert binary64 f.magnitude))⟩

theorem bits_eq_withSign (f : Single) :
    f.bits.toNat = binary32.withSign f.negative f.magnitude :=
  (binary32.withSign_self f.bits.toNat_lt).symm

end Single

namespace Double

def negative (d : Double) : Bool := d.bits.toNat / 2 ^ binary64.magnitudeBits ≠ 0

def magnitude (d : Double) : Nat := d.bits.toNat % 2 ^ binary64.magnitudeBits

def isNaN (d : Double) : Bool := binary64.isNaN d.magnitude

/-- The conversion from `double` to `float`, rounding to nearest. -/
def toSingle (d : Double) : Single :=
  ⟨UInt32.ofNat (binary32.withSign d.negative (binary64.convert binary32 d.magnitude))⟩

/-- The double with a sign and a magnitude. -/
def ofMagnitude (negative : Bool) (magnitude : Nat) : Double :=
  ⟨UInt64.ofNat (binary64.withSign negative magnitude)⟩

def finite (d : Double) : Bool := d.magnitude < binary64.infinity

/-- The number that a finite double stands for. -/
def rational (d : Double) : ℚ :=
  if d.negative then -binary64.value d.magnitude else binary64.value d.magnitude

/-- The double nearest to a number. -/
def ofRational (x : ℚ) : Double := ofMagnitude (x < 0) (binary64.round |x|)

/-- The comparison `<= 0`, which a NaN fails. -/
def notPositive (d : Double) : Bool :=
  !d.isNaN && (d.negative || d.magnitude = 0)

/-- The `==` of doubles: a NaN equals nothing and the two zeros are equal. -/
def eq (x y : Double) : Bool :=
  !x.isNaN && !y.isNaN && (x.bits == y.bits || (x.magnitude == 0 && y.magnitude == 0))

theorem ofMagnitude_spec (negative : Bool) {magnitude : Nat}
    (h : magnitude < 2 ^ binary64.magnitudeBits) :
    (ofMagnitude negative magnitude).negative = negative ∧
      (ofMagnitude negative magnitude).magnitude = magnitude := by
  obtain ⟨hsign, hmagnitude⟩ := withSign_div_mod binary64 negative h
  have hbits : (ofMagnitude negative magnitude).bits.toNat =
      binary64.withSign negative magnitude := by
    apply UInt64.toNat_ofNat_of_lt
    have hneg := Bool.toNat_le negative
    have hsize : UInt64.size = 2 * 2 ^ binary64.magnitudeBits := rfl
    have hmul := Nat.mul_le_mul_right (2 ^ binary64.magnitudeBits) hneg
    rw [withSign]
    omega
  rw [Double.negative, Double.magnitude, hbits, hsign, hmagnitude]
  cases negative <;> simp

/-- A double is its sign and its magnitude. -/
theorem ofMagnitude_self (d : Double) : ofMagnitude d.negative d.magnitude = d := by
  have hbits : binary64.withSign d.negative d.magnitude = d.bits.toNat :=
    binary64.withSign_self d.bits.toNat_lt
  cases d
  rw [ofMagnitude, hbits, UInt64.ofNat_toNat]

@[simp] theorem eq_self (d : Double) : d.eq d = !d.isNaN := by
  simp [eq]

end Double

theorem Double.ofRational_of_nonneg {x : ℚ} (hx : 0 ≤ x) :
    (Double.ofRational x).finite = decide (binary64.round x < binary64.infinity) ∧
      (Double.ofRational x).rational = binary64.value (binary64.round x) := by
  have hle : binary64.round x ≤ binary64.infinity := by
    unfold BinaryFormat.round
    split
    · exact Nat.zero_le _
    · exact min_le_right _ _
  obtain ⟨hnegative, hmagnitude⟩ :=
    Double.ofMagnitude_spec false (hle.trans_lt (infinity_lt binary64))
  have heq : Double.ofRational x = Double.ofMagnitude false (binary64.round x) := by
    rw [Double.ofRational, abs_of_nonneg hx, decide_eq_false (not_lt.mpr hx)]
  rw [heq]
  constructor
  · rw [Double.finite, hmagnitude]
  · rw [Double.rational, hnegative, hmagnitude, if_neg Bool.false_ne_true]

/-- A `float` that is not a NaN survives the way through a `double`. -/
theorem Single.toSingle_toDouble {f : Single} (hf : f.isNaN = false) :
    f.toDouble.toSingle = f := by
  have hnumber : f.magnitude ≤ binary32.infinity := by
    simpa [Single.isNaN, BinaryFormat.isNaN] using hf
  have hwide : binary32.convert binary64 f.magnitude < 2 ^ binary64.magnitudeBits :=
    Nat.lt_of_le_of_lt (convert_le_infinity _ _ hnumber) (infinity_lt _)
  obtain ⟨hnegative, hmagnitude⟩ := Double.ofMagnitude_spec f.negative hwide
  change f.toDouble.negative = f.negative at hnegative
  change f.toDouble.magnitude = _ at hmagnitude
  have hback : binary64.convert binary32 f.toDouble.magnitude = f.magnitude := by
    rw [hmagnitude]
    exact convert_convert binary32 binary64 (d := 925) (by decide) (by decide)
      (by decide) hnumber
  have htoNat : f.toDouble.toSingle.bits = f.bits := by
    rw [Double.toSingle, hback, hnegative, ← f.bits_eq_withSign, UInt32.ofNat_toNat]
  cases f
  simpa [Double.toSingle] using htoNat

end Supernova
