/-
The round trip of wire values.  Each encoder is paired with its decoder
through `Scanner.Recovers`: the decoder brings an encoded part back exactly
when the part fits the limits of the decoder and the counts on the wire.
-/
import Supernova.PubSubConfiguration
import Supernova.PubSubEncoder

namespace Supernova

namespace PubSub

open Scanner

theorem reads_u8 (diagnostic : String) (v : UInt8) :
    Reads (Reader.u8 diagnostic) (putU8 v) v := by
  have hvalue : UInt8.ofNat (ofLittleEndian (putU8 v)) = v := by
    simp [putU8, ofLittleEndian, Nat.ofDigits_singleton]
  have h := (reads_take (γ := Built) (putU8 v) diagnostic).map
    fun bytes => UInt8.ofNat (ofLittleEndian bytes)
  rwa [hvalue] at h

/-- The fixed-width fields all read back what was written, low bits first. -/
theorem reads_littleEndian {α : Type} (width n : Nat) (diagnostic : String)
    (g : Bytes → α) :
    Reads (γ := Built) (take width diagnostic >>= fun bytes => pure (g bytes))
      (littleEndian width n) (g (littleEndian width n)) := by
  have h := (reads_take (γ := Built) (littleEndian width n) diagnostic).map g
  rwa [littleEndian_length] at h

theorem reads_u16 (diagnostic : String) (v : UInt16) :
    Reads (Reader.u16 diagnostic) (putU16 v) v := by
  have h := reads_littleEndian 2 v.toNat diagnostic
    fun bytes => UInt16.ofNat (ofLittleEndian bytes)
  rwa [ofLittleEndian_littleEndian_of_lt v.toNat_lt, UInt16.ofNat_toNat] at h

theorem reads_u32 (diagnostic : String) (v : UInt32) :
    Reads (Reader.u32 diagnostic) (putU32 v) v := by
  have h := reads_littleEndian 4 v.toNat diagnostic
    fun bytes => UInt32.ofNat (ofLittleEndian bytes)
  rwa [ofLittleEndian_littleEndian_of_lt v.toNat_lt, UInt32.ofNat_toNat] at h

theorem reads_u64 (diagnostic : String) (v : UInt64) :
    Reads (Reader.u64 diagnostic) (putU64 v) v := by
  have h := reads_littleEndian 8 v.toNat diagnostic
    fun bytes => UInt64.ofNat (ofLittleEndian bytes)
  rwa [ofLittleEndian_littleEndian_of_lt v.toNat_lt, UInt64.ofNat_toNat] at h

theorem toSigned_of_lt {n : Nat} (h : n < 2 ^ 31) : toSigned 32 n = n := by
  rw [toSigned]
  apply Int.bmod_eq_of_le <;> push_cast <;> omega

/-- A string comes back exactly when its length survives the narrowing to
32 bits as a number that `int32_t` does not read as negative. -/
theorem recovers_str (diagnostic : String) (s : Bytes) :
    Recovers (Reader.str diagnostic) (putString s) (· = s) (s.length < 2 ^ 31) := by
  have hcode : (UInt32.ofNat s.length).toNat = s.length % 2 ^ 32 := UInt32.toNat_ofNat'
  refine Recovers.bind_reads (reads_u32 diagnostic (UInt32.ofNat s.length)) ?_
  simp only [hcode]
  constructor
  · intro hfits
    have hsigned : toSigned 32 (s.length % 2 ^ 32) = s.length := by
      rw [Nat.mod_eq_of_lt (by omega), toSigned_of_lt hfits]
    refine ⟨s, ?_, rfl⟩
    rw [hsigned]
    split
    · have hnil : s = [] := List.length_eq_zero_iff.mp (by omega)
      subst hnil
      exact Reads.pure []
    · rw [Int.toNat_natCast]
      exact reads_take s diagnostic
  · intro r k a c hrun hgood
    subst hgood
    have hbound := (toSigned_bounds (by decide : 0 < 32) (a.length % 2 ^ 32)).2
    split at hrun
    · cases hrun
      simp
    · rename_i hpositive
      unfold take at hrun
      split at hrun
      · rename_i hle
        simp only [EStateM.Result.ok.injEq] at hrun
        have hlength := congrArg List.length hrun.1
        rw [List.length_take_of_le hle] at hlength
        omega
      · cases hrun

namespace WireValue

/-- A scalar lies in the range of its built-in type; a Float holds a value
that came from a `float`. -/
def scalarInRange (v : WireValue) : Bool :=
  match v.type with
  | .sByte => -128 ≤ v.int.toInt && v.int.toInt < 128
  | .int16 => -32768 ≤ v.int.toInt && v.int.toInt < 32768
  | .int32 => -2147483648 ≤ v.int.toInt && v.int.toInt < 2147483648
  | .byte => v.uint.toNat < 256
  | .uInt16 => v.uint.toNat < 65536
  | .uInt32 => v.uint.toNat < 4294967296
  | .float => v.float.toSingle.toDouble == v.float
  | _ => true

def scalarIsNaN (v : WireValue) : Bool :=
  match v.type with
  | .float | .double => v.float.isNaN
  | _ => false

/-- A string is short enough for its length to be read back. -/
def scalarFits (v : WireValue) : Bool :=
  match v.type with
  | .string => v.string.length < 2 ^ 31
  | _ => true

/-- `w` is a scalar that `v` equals. -/
def Restores (v w : WireValue) : Prop :=
  w.type = v.type ∧ w.isArray = false ∧ v.scalarEquals w = true

end WireValue

theorem ofInt_toSigned_lowBits {bits : Nat} (hbits : 0 < bits) {v : Int64}
    (hlow : -2 ^ (bits - 1) ≤ v.toInt) (hhigh : v.toInt < 2 ^ (bits - 1)) :
    Int64.ofInt (toSigned bits (lowBits bits v)) = v := by
  rw [lowBits, toSigned_toUnsigned hbits hlow hhigh, Int64.ofInt_toInt]

theorem lowBits_lt (bits : Nat) (v : Int64) : lowBits bits v < 2 ^ bits :=
  toUnsigned_lt bits v.toInt

/-- A scalar other than a string always comes back. -/
theorem recovers_of_restores {v w : WireValue} {p : Reader WireValue} {body : Bytes}
    (hreads : Reads p body w) (hrestores : v.Restores w) (htype : v.type ≠ .string) :
    Recovers p body v.Restores (v.scalarFits = true) := by
  have hfits : v.scalarFits = true := by
    unfold WireValue.scalarFits
    split
    · contradiction
    · rfl
  exact (Recovers.of_reads hreads hrestores).congr (by simp [hfits])

/-- A signed type comes back when the widths of its write and its read agree. -/
theorem restores_signed {v : WireValue} {bits n : Nat}
    (htype : v.type = .sByte ∨ v.type = .int16 ∨ v.type = .int32 ∨ v.type = .int64 ∨
      v.type = .dateTime) (hbits : 0 < bits)
    (hn : n = lowBits bits v.int) (hlow : -2 ^ (bits - 1) ≤ v.int.toInt)
    (hhigh : v.int.toInt < 2 ^ (bits - 1)) :
    v.Restores (.makeSigned v.type (Int64.ofInt (toSigned bits n))) := by
  rw [hn, ofInt_toSigned_lowBits hbits hlow hhigh]
  refine ⟨rfl, rfl, ?_⟩
  rcases htype with h | h | h | h | h <;>
    simp [WireValue.makeSigned, WireValue.scalarEquals, h]

theorem restores_unsigned {v : WireValue} {n : Nat}
    (htype : v.type = .byte ∨ v.type = .uInt16 ∨ v.type = .uInt32 ∨ v.type = .uInt64)
    (hn : n = v.uint.toNat) : v.Restores (.makeUnsigned v.type (UInt64.ofNat n)) := by
  rw [hn, UInt64.ofNat_toNat]
  refine ⟨rfl, rfl, ?_⟩
  rcases htype with h | h | h | h <;>
    simp [WireValue.makeUnsigned, WireValue.scalarEquals, h]

/-- A scalar body comes back exactly when the scalar fits. -/
theorem recovers_scalarBody {v : WireValue} {body : Bytes}
    (hbody : encodeScalarBody v = .ok body) (hrange : v.scalarInRange = true)
    (hnumber : v.scalarIsNaN = false) :
    Recovers (decodeScalarBody v.type.code) body v.Restores (v.scalarFits = true) := by
  have hlt := fun bits => lowBits_lt bits v.int
  cases htype : v.type with
  | null =>
      simp only [encodeScalarBody, htype] at hbody
      cases hbody
      apply recovers_of_restores (Reads.pure WireValue.makeNull) ?_ (by simp [htype])
      simp [WireValue.Restores, WireValue.makeNull, WireValue.scalarEquals, htype]
  | boolean =>
      simp only [encodeScalarBody, htype] at hbody
      cases hbody
      apply recovers_of_restores ((reads_u8 _ _).map _) ?_ (by simp [htype])
      refine ⟨by simp [WireValue.makeBoolean, htype], rfl, ?_⟩
      cases hbool : v.boolValue <;>
        simp [WireValue.makeBoolean, WireValue.scalarEquals, htype, hbool] <;>
        simp [WireValue.boolValue]
  | sByte =>
      simp only [encodeScalarBody, htype] at hbody
      simp only [WireValue.scalarInRange, htype, Bool.and_eq_true, decide_eq_true_eq] at hrange
      cases hbody
      apply recovers_of_restores ((reads_u8 _ _).map _) ?_ (by simp [htype])
      have hrestores := restores_signed (n := lowBits 8 v.int) (Or.inl htype)
        (by decide) rfl hrange.1 hrange.2
      rwa [← UInt8.toNat_ofNat_of_lt' (hlt 8), htype] at hrestores
  | byte =>
      simp only [encodeScalarBody, htype] at hbody
      simp only [WireValue.scalarInRange, htype, decide_eq_true_eq] at hrange
      cases hbody
      apply recovers_of_restores ((reads_u8 _ _).map _) ?_ (by simp [htype])
      have hrestores := restores_unsigned (Or.inl htype) (UInt8.toNat_ofNat_of_lt' hrange)
      rwa [htype] at hrestores
  | int16 =>
      simp only [encodeScalarBody, htype] at hbody
      simp only [WireValue.scalarInRange, htype, Bool.and_eq_true, decide_eq_true_eq] at hrange
      cases hbody
      apply recovers_of_restores ((reads_u16 _ _).map _) ?_ (by simp [htype])
      have hrestores := restores_signed (by simp [htype]) (by decide)
        (UInt16.toNat_ofNat_of_lt' (hlt 16)) hrange.1 hrange.2
      rwa [htype] at hrestores
  | uInt16 =>
      simp only [encodeScalarBody, htype] at hbody
      simp only [WireValue.scalarInRange, htype, decide_eq_true_eq] at hrange
      cases hbody
      apply recovers_of_restores ((reads_u16 _ _).map _) ?_ (by simp [htype])
      have hrestores := restores_unsigned (by simp [htype]) (UInt16.toNat_ofNat_of_lt' hrange)
      rwa [htype] at hrestores
  | int32 =>
      simp only [encodeScalarBody, htype] at hbody
      simp only [WireValue.scalarInRange, htype, Bool.and_eq_true, decide_eq_true_eq] at hrange
      cases hbody
      apply recovers_of_restores ((reads_u32 _ _).map _) ?_ (by simp [htype])
      have hrestores := restores_signed (by simp [htype]) (by decide)
        (UInt32.toNat_ofNat_of_lt' (hlt 32)) hrange.1 hrange.2
      rwa [htype] at hrestores
  | uInt32 =>
      simp only [encodeScalarBody, htype] at hbody
      simp only [WireValue.scalarInRange, htype, decide_eq_true_eq] at hrange
      cases hbody
      apply recovers_of_restores ((reads_u32 _ _).map _) ?_ (by simp [htype])
      have hrestores := restores_unsigned (by simp [htype]) (UInt32.toNat_ofNat_of_lt' hrange)
      rwa [htype] at hrestores
  | int64 =>
      simp only [encodeScalarBody, htype] at hbody
      cases hbody
      apply recovers_of_restores ((reads_u64 _ _).map _) ?_ (by simp [htype])
      have hrestores := restores_signed (by simp [htype]) (by decide)
        (UInt64.toNat_ofNat_of_lt' (hlt 64)) (Int64.le_toInt v.int) (Int64.toInt_lt v.int)
      rwa [htype] at hrestores
  | uInt64 =>
      simp only [encodeScalarBody, htype] at hbody
      cases hbody
      apply recovers_of_restores ((reads_u64 _ _).map _) ?_ (by simp [htype])
      simp [WireValue.Restores, WireValue.makeUnsigned, WireValue.scalarEquals, htype]
  | float =>
      simp only [encodeScalarBody, htype] at hbody
      simp only [WireValue.scalarInRange, WireValue.scalarIsNaN, htype, beq_iff_eq]
        at hrange hnumber
      cases hbody
      apply recovers_of_restores ((reads_u32 _ _).map _) ?_ (by simp [htype])
      simp [WireValue.Restores, WireValue.makeFloat, WireValue.scalarEquals, htype,
        hrange, hnumber]
  | double =>
      simp only [encodeScalarBody, htype] at hbody
      simp only [WireValue.scalarIsNaN, htype] at hnumber
      cases hbody
      apply recovers_of_restores ((reads_u64 _ _).map _) ?_ (by simp [htype])
      simp [WireValue.Restores, WireValue.makeDouble, WireValue.scalarEquals, htype, hnumber]
  | string =>
      simp only [encodeScalarBody, htype] at hbody
      cases hbody
      refine ((recovers_str _ v.string).map WireValue.makeString ?_).congr ?_
      · intro s
        simp only [WireValue.Restores, WireValue.makeString, WireValue.scalarEquals, htype,
          beq_iff_eq, true_and]
        exact eq_comm
      · simp [WireValue.scalarFits, htype]
  | dateTime =>
      simp only [encodeScalarBody, htype] at hbody
      cases hbody
      apply recovers_of_restores ((reads_u64 _ _).map _) ?_ (by simp [htype])
      have hrestores := restores_signed (by simp [htype]) (by decide)
        (UInt64.toNat_ofNat_of_lt' (hlt 64)) (Int64.le_toInt v.int) (Int64.toInt_lt v.int)
      rwa [htype] at hrestores
  | unnamed code hcode =>
      simp only [encodeScalarBody, htype] at hbody
      cases hbody

namespace WireValue

theorem equalsAll_iff {vs ws : List WireValue} :
    equalsAll vs ws = true ↔ List.Forall₂ (fun v w => v.equals w = true) vs ws := by
  induction vs generalizing ws with
  | nil => cases ws <;> simp [equalsAll]
  | cons v vs ih => cases ws <;> simp [equalsAll, ih]

/-- Equality says the same type and shape, and then the same contents. -/
theorem equals_iff {v w : WireValue} :
    v.equals w = true ↔ w.type = v.type ∧ w.isArray = v.isArray ∧
      if v.isArray then List.Forall₂ (fun e e' => e.equals e' = true) v.elements w.elements
      else v.scalarEquals w = true := by
  obtain ⟨type, int, uint, float, string, isArray, elements⟩ := v
  obtain ⟨type', int', uint', float', string', isArray', elements'⟩ := w
  rw [equals]
  by_cases htype : type = type'
  · by_cases harray : isArray = isArray'
    · subst htype harray
      cases isArray <;> simp [equalsAll_iff]
    · simp [htype, harray, Ne.symm harray]
  · simp [htype, Ne.symm htype]

theorem equals_iff_restores {v w : WireValue} (hv : v.isArray = false) :
    v.equals w = true ↔ v.Restores w := by
  simp [equals_iff, Restores, hv]

/-- All scalars of a value lie in their range. -/
def inRange (v : WireValue) : Bool :=
  if v.isArray then v.elements.all fun e => e.isArray || e.scalarInRange
  else v.scalarInRange

/-- Some scalar of a value is a NaN. -/
def hasNaN (v : WireValue) : Bool :=
  if v.isArray then v.elements.any fun e => !e.isArray && e.scalarIsNaN
  else v.scalarIsNaN

/-- What the decoder brings back: no array longer than its limit, no string
whose length `int32_t` cannot hold, and an array type inside the mask. -/
def fits (v : WireValue) : Bool :=
  if v.isArray then
    v.type.code.toNat < 64 && v.elements.length ≤ 1000000 && v.elements.all scalarFits
  else v.scalarFits

end WireValue

/-- The flag bits around a type code that fits below them. -/
theorem typeMask_of_lt {code : UInt8} (h : code.toNat < 64) :
    code &&& VariantArrayDimensionsFlag = 0 ∧ code &&& VariantArrayValuesFlag = 0 ∧
      code &&& 0x3F = code ∧
      (code ||| VariantArrayValuesFlag) &&& VariantArrayDimensionsFlag = 0 ∧
      (code ||| VariantArrayValuesFlag) &&& VariantArrayValuesFlag ≠ 0 ∧
      (code ||| VariantArrayValuesFlag) &&& 0x3F = code := by
  have hall : ∀ n : Fin 64, let code := UInt8.ofNat n.val
      code &&& VariantArrayDimensionsFlag = 0 ∧ code &&& VariantArrayValuesFlag = 0 ∧
      code &&& 0x3F = code ∧
      (code ||| VariantArrayValuesFlag) &&& VariantArrayDimensionsFlag = 0 ∧
      (code ||| VariantArrayValuesFlag) &&& VariantArrayValuesFlag ≠ 0 ∧
      (code ||| VariantArrayValuesFlag) &&& 0x3F = code := by
    decide
  have hcode := hall ⟨code.toNat, h⟩
  simpa only [UInt8.ofNat_toNat] using hcode

/-- A mask with the array flag names a type code below 64. -/
theorem arrayMask (code : UInt8) :
    (code ||| VariantArrayValuesFlag) &&& VariantArrayValuesFlag ≠ 0 ∧
      ((code ||| VariantArrayValuesFlag) &&& 0x3F).toNat < 64 := by
  have hall : ∀ n : Fin 256, let code := UInt8.ofNat n.val
      (code ||| VariantArrayValuesFlag) &&& VariantArrayValuesFlag ≠ 0 ∧
      ((code ||| VariantArrayValuesFlag) &&& 0x3F).toNat < 64 := by
    decide +kernel
  have hcode := hall ⟨code.toNat, code.toNat_lt⟩
  simpa only [UInt8.ofNat_toNat] using hcode

theorem code_lt_of_named {type : BuiltinType} (h : type.named) : type.code.toNat < 64 := by
  cases type with
  | unnamed code hcode => simp [BuiltinType.named] at h
  | _ => decide

/-- The mask of a scalar leads to the scalar decoder. -/
theorem recovers_scalarVariant {v : WireValue} {body : Bytes} (hv : v.isArray = false)
    (hbody : encodeScalarBody v = .ok body) (hrange : v.scalarInRange = true)
    (hnumber : v.scalarIsNaN = false) :
    Recovers decodeVariant (putU8 v.type.code ++ body) (fun w => v.equals w = true)
      (v.fits = true) := by
  obtain ⟨hdimensions, harray, hcode, -⟩ :=
    typeMask_of_lt (code_lt_of_named ((encodeScalarBody_ok_iff v).mp ⟨body, hbody⟩))
  have hfits : v.fits = v.scalarFits := by simp [WireValue.fits, hv]
  simp only [WireValue.equals_iff_restores hv, hfits]
  apply Recovers.bind_reads (reads_u8 _ _)
  simp only [decodeVariantBody, hdimensions, harray, hcode, ne_eq, not_true_eq_false,
    if_false]
  exact recovers_scalarBody hbody hrange hnumber

theorem recovers_element {type : BuiltinType} {e : WireValue} {body : Bytes}
    (hbody : encodeElement type e = .ok body)
    (hrange : (e.isArray || e.scalarInRange) = true)
    (hnumber : (!e.isArray && e.scalarIsNaN) = false) :
    Recovers (decodeElement type.code) body (fun w => e.equals w = true)
      (e.scalarFits = true) := by
  obtain ⟨⟨htype, hscalar⟩, hscalarBody⟩ := encodeElement_eq_ok.1 hbody
  rw [← htype]
  rw [hscalar, Bool.false_or] at hrange
  rw [hscalar, Bool.not_false, Bool.true_and] at hnumber
  simp only [WireValue.equals_iff_restores hscalar]
  apply (recovers_scalarBody hscalarBody hrange hnumber).bind_reads_nil id
  · intro a
    exact (reads_charge _).bind_nil (Reads.pure a)
  · simp

/-- The element loop brings back all elements unless the length is implausible. -/
theorem recovers_elements {type : BuiltinType} {elements : List WireValue}
    {bodies : List Bytes} (hbodies : elements.mapM (encodeElement type) = .ok bodies)
    (hrange : ∀ e ∈ elements, (e.isArray || e.scalarInRange) = true)
    (hnumber : ∀ e ∈ elements, (!e.isArray && e.scalarIsNaN) = false) :
    Recovers (decodeElements type.code elements.length) bodies.flatten
      (List.Forall₂ (fun e w => e.equals w = true) elements)
      (elements.length ≤ 1000000 ∧ ∀ e ∈ elements, e.scalarFits = true) := by
  have hall := mapM_eq_ok.1 hbodies
  have hrecovers : List.Forall₂ (fun e body => Recovers (decodeElement type.code) body
      (fun w => e.equals w = true) (e.scalarFits = true)) elements bodies := by
    rw [List.forall₂_iff_zip] at hall ⊢
    refine ⟨hall.1, ?_⟩
    intro e body hmem
    have he := (List.of_mem_zip hmem).1
    exact recovers_element (hall.2 hmem) (hrange e he) (hnumber e he)
  have htimes := Recovers.times hrecovers
  unfold decodeElements
  rw [Int.toNat_natCast]
  by_cases hpositive : 0 < elements.length
  · by_cases hshort : elements.length ≤ 1000000
    · rw [if_pos (by exact_mod_cast hpositive), if_neg (by exact_mod_cast not_lt.mpr hshort)]
      exact htimes.congr (by simp [hshort])
    · rw [if_pos (by exact_mod_cast hpositive),
        if_pos (by exact_mod_cast not_le.mp hshort)]
      exact ⟨fun hfits => absurd hfits.1 hshort, fun r k a c hrun => by cases hrun⟩
  · have hnil : elements = [] := List.length_eq_zero_iff.mp (by omega)
    subst hnil
    cases hall
    exact htimes.congr (by simp)

theorem recovers_arrayVariant {v : WireValue} {bytes : Bytes} (harray : v.isArray = true)
    (hbytes : encodeVariant v = .ok bytes) (hrange : v.inRange = true)
    (hnumber : v.hasNaN = false) :
    Recovers decodeVariant bytes (fun w => v.equals w = true) (v.fits = true) := by
  obtain ⟨hlength, bodies, hbodies, rfl⟩ := (encodeVariant_array_eq_ok harray).mp hbytes
  simp only [WireValue.inRange, harray, if_true, List.all_eq_true] at hrange
  simp only [WireValue.hasNaN, harray, if_true, List.any_eq_false] at hnumber
  have hfits : v.fits = true ↔ v.type.code.toNat < 64 ∧
      (v.elements.length ≤ 1000000 ∧ ∀ e ∈ v.elements, e.scalarFits = true) := by
    simp [WireValue.fits, harray, and_assoc]
  by_cases hcode : v.type.code.toNat < 64
  · obtain ⟨-, -, -, hdimensions, hflag, hmask⟩ := typeMask_of_lt hcode
    have hread : (UInt32.ofNat v.elements.length).toNat = v.elements.length :=
      UInt32.toNat_ofNat_of_lt' (by simp only [UInt32.size]; omega)
    apply Recovers.bind_reads (reads_u8 _ _)
    simp only [decodeVariantBody, hdimensions, hflag, hmask, ne_eq, not_true_eq_false,
      not_false_eq_true, if_false, if_true]
    apply Recovers.bind_reads (reads_u32 _ _)
    rw [hread, toSigned_of_lt (by omega)]
    refine ((recovers_elements hbodies hrange fun e he => ?_).map
      (WireValue.makeArray (BuiltinType.ofCode v.type.code)) fun es => ?_).congr ?_
    · simpa using hnumber e he
    · rw [WireValue.equals_iff]
      simp [WireValue.makeArray, harray]
    · rw [hfits, and_iff_right hcode]
  · constructor
    · intro h
      exact absurd (hfits.mp h).1 hcode
    · intro r k w c hrun hgood
      have htype := (WireValue.equals_iff.1 hgood).1
      obtain ⟨hflag, hmask⟩ := arrayMask v.type.code
      obtain ⟨k', hk'⟩ := reads_u8 "truncated variant mask"
        (v.type.code ||| VariantArrayValuesFlag) (_ ++ r) k
      rw [List.append_assoc] at hrun
      unfold decodeVariant at hrun
      rw [bind_apply, hk'] at hrun
      simp only [decodeVariantBody, hflag, ne_eq, not_false_eq_true, if_true] at hrun
      split at hrun
      · cases hrun
      · obtain ⟨raw, c₁, -, hrun⟩ := bind_eq_ok.1 hrun
        obtain ⟨elements, c₂, -, hrun⟩ := bind_eq_ok.1 hrun
        cases hrun
        rw [← htype, WireValue.makeArray, BuiltinType.code_ofCode] at hcode
        exact absurd hmask hcode

/-- A value whose encoding exists comes back exactly when it fits. -/
theorem recovers_variant {v : WireValue} {bytes : Bytes}
    (hbytes : encodeVariant v = .ok bytes) (hrange : v.inRange = true)
    (hnumber : v.hasNaN = false) :
    Recovers decodeVariant bytes (fun w => v.equals w = true) (v.fits = true) := by
  by_cases harray : v.isArray = true
  · exact recovers_arrayVariant harray hbytes hrange hnumber
  · have hscalar : v.isArray = false := by simpa using harray
    obtain ⟨body, hbody, rfl⟩ := (encodeVariant_scalar_eq_ok hscalar).mp hbytes
    simp only [WireValue.inRange, WireValue.hasNaN, hscalar, Bool.false_eq_true,
      if_false] at hrange hnumber
    exact recovers_scalarVariant hscalar hbody hrange hnumber

end PubSub

end Supernova
