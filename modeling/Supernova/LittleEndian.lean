/-
Fixed-width little-endian bytes of a natural number, and the two's complement
reading of such a number.  Nothing here knows about a message format: the
digits are Mathlib's `Nat.ofDigits` in base 256.
-/
import Mathlib.Data.Nat.Digits.Defs
import Mathlib.Data.Int.Basic
import Mathlib.Tactic.Ring

namespace Supernova

/-- A byte string, as `std::string` and `std::vector<uint8_t>` hold it. -/
abbrev Bytes := List UInt8

instance : LawfulBEq Bytes := inferInstance

/-- The low `width` bytes of `n`, least significant byte first. -/
def littleEndian : Nat → Nat → Bytes
  | 0, _ => []
  | width + 1, n => UInt8.ofNat n :: littleEndian width (n / 256)

/-- The number whose little-endian bytes are given. -/
def ofLittleEndian (bytes : Bytes) : Nat :=
  Nat.ofDigits 256 (bytes.map UInt8.toNat)

@[simp] theorem littleEndian_length (width n : Nat) :
    (littleEndian width n).length = width := by
  induction width generalizing n with
  | zero => rfl
  | succ width ih => simp [littleEndian, ih]

theorem ofLittleEndian_lt (bytes : Bytes) :
    ofLittleEndian bytes < 256 ^ bytes.length := by
  have hdigit : ∀ d ∈ bytes.map UInt8.toNat, d < 256 := by
    intro d hd
    obtain ⟨byte, -, rfl⟩ := List.mem_map.mp hd
    exact UInt8.toNat_lt byte
  simpa [ofLittleEndian] using
    Nat.ofDigits_lt_base_pow_length (by decide : 1 < 256) hdigit

/-- Reading back the low `width` bytes keeps the number modulo `256 ^ width`. -/
theorem ofLittleEndian_littleEndian (width n : Nat) :
    ofLittleEndian (littleEndian width n) = n % 256 ^ width := by
  induction width generalizing n with
  | zero => simp [littleEndian, ofLittleEndian, Nat.mod_one]
  | succ width ih =>
      have hhead : (UInt8.ofNat n).toNat = n % 256 := UInt8.toNat_ofNat'
      have htail := ih (n / 256)
      simp only [ofLittleEndian, littleEndian, List.map_cons,
        Nat.ofDigits_cons] at htail ⊢
      rw [hhead, htail, pow_succ', Nat.mod_mul]

theorem ofLittleEndian_littleEndian_of_lt {width n : Nat}
    (hn : n < 256 ^ width) : ofLittleEndian (littleEndian width n) = n := by
  rw [ofLittleEndian_littleEndian, Nat.mod_eq_of_lt hn]

/-- Two's complement: the unsigned image of `i` in `bits` bits. -/
def toUnsigned (bits : Nat) (i : Int) : Nat := (i % 2 ^ bits).toNat

/-- Two's complement: the signed reading of an unsigned `bits`-bit number. -/
def toSigned (bits : Nat) (n : Nat) : Int := (n : Int).bmod (2 ^ bits)

theorem toUnsigned_lt (bits : Nat) (i : Int) : toUnsigned bits i < 2 ^ bits := by
  have hpos : (0 : Int) < 2 ^ bits := by positivity
  have hlt := Int.emod_lt_of_pos i hpos
  have hnonneg := Int.emod_nonneg i hpos.ne'
  simp only [toUnsigned]
  have : ((i % 2 ^ bits).toNat : Int) < ((2 ^ bits : Nat) : Int) := by
    rw [Int.toNat_of_nonneg hnonneg]
    exact_mod_cast hlt
  exact_mod_cast this

/-- The signed reading undoes the unsigned image on the signed range. -/
theorem toSigned_toUnsigned {bits : Nat} (hbits : 0 < bits) {i : Int}
    (hlow : -2 ^ (bits - 1) ≤ i) (hhigh : i < 2 ^ (bits - 1)) :
    toSigned bits (toUnsigned bits i) = i := by
  obtain ⟨k, rfl⟩ : ∃ k, bits = k + 1 := ⟨bits - 1, by omega⟩
  have hpos : (0 : Int) < 2 ^ (k + 1) := by positivity
  have hnonneg := Int.emod_nonneg i hpos.ne'
  have hhalf : ((2 ^ (k + 1) : Nat) : Int) = 2 * 2 ^ k := by
    push_cast
    ring
  simp only [Nat.add_sub_cancel] at hlow hhigh
  rw [toSigned, toUnsigned, Int.toNat_of_nonneg hnonneg]
  have hmod : (i % 2 ^ (k + 1)).bmod (2 ^ (k + 1)) = i.bmod (2 ^ (k + 1)) := by
    exact_mod_cast Int.emod_bmod i (2 ^ (k + 1))
  rw [hmod]
  apply Int.bmod_eq_of_le <;> rw [hhalf] <;> omega

/-- The signed reading of a `bits`-bit number lies in the signed range. -/
theorem toSigned_bounds {bits : Nat} (hbits : 0 < bits) (n : Nat) :
    -2 ^ (bits - 1) ≤ toSigned bits n ∧ toSigned bits n < 2 ^ (bits - 1) := by
  obtain ⟨k, rfl⟩ : ∃ k, bits = k + 1 := ⟨bits - 1, by omega⟩
  have hpos : 0 < 2 ^ (k + 1) := by positivity
  have hlow := Int.le_bmod (x := (n : Int)) hpos
  have hhigh := Int.bmod_lt (x := (n : Int)) hpos
  have hhalf : ((2 ^ (k + 1) : Nat) : Int) = 2 * 2 ^ k := by
    push_cast
    ring
  rw [hhalf] at hlow hhigh
  simp only [toSigned, Nat.add_sub_cancel]
  constructor <;> omega

end Supernova
