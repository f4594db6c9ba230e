/-
Free variables, which a configuration adds to the address space: their types, their initial
values as text, and what is stored for the integer ones.
-/
import Supernova.CacheVariables
import Supernova.IntegerConversions
import Supernova.PubSubEngine

namespace Supernova

attribute [local semireducible] ByteArray.toList.loop

namespace FreeVariables

open PubSub (UaScalar BuiltinType)

section Configuration

inductive IntegerType
  | byte
  | sByte
  | uInt16
  | int16
  | uInt32
  | int32
  | uInt64
  | int64
deriving DecidableEq, Repr

/-- The schema admits these types only. -/
inductive FreeVariableType
  | boolean
  | integer (type : IntegerType)
  | double
  | float
  | string
deriving DecidableEq, Repr

inductive AccessLevel
  | currentRead
  | currentReadOrWrite
  | currentWrite
deriving DecidableEq, Repr

structure FreeVariableConfig where
  name : Bytes
  type : FreeVariableType
  initialValue : Option Bytes
  accessLevel : AccessLevel
deriving DecidableEq, Repr

/-- A variable in the address space; it can be an input of calculated variables. -/
structure FreeVariable where
  name : Bytes
  dataType : BuiltinType
  value : UaScalar
  accessLevel : AccessLevel
  calculationInput : Bool
deriving DecidableEq, Repr

/-- What the conversions of the standard library throw, and the text of a runtime error
behind its origin. -/
inductive FreeVariableError
  | conversion (error : ConversionError)
  | runtime (message : Bytes)
deriving DecidableEq, Repr

def freeVariableTypeToBuiltInType : FreeVariableType → BuiltinType
  | .boolean => .boolean
  | .integer .byte => .byte
  | .integer .sByte => .sByte
  | .integer .uInt16 => .uInt16
  | .integer .int16 => .int16
  | .integer .uInt32 => .uInt32
  | .integer .int32 => .int32
  | .integer .uInt64 => .uInt64
  | .integer .int64 => .int64
  | .double => .double
  | .float => .float
  | .string => .string

namespace IntegerType

def unsigned : IntegerType → Bool
  | byte | uInt16 | uInt32 | uInt64 => true
  | sByte | int16 | int32 | int64 => false

/-- `std::numeric_limits`, minimum and maximum. -/
def limits : IntegerType → Int × Int
  | byte => (0, 2 ^ 8 - 1)
  | sByte => (-2 ^ 7, 2 ^ 7 - 1)
  | uInt16 => (0, 2 ^ 16 - 1)
  | int16 => (-2 ^ 15, 2 ^ 15 - 1)
  | uInt32 => (0, 2 ^ 32 - 1)
  | int32 => (-2 ^ 31, 2 ^ 31 - 1)
  | uInt64 => (0, 2 ^ 64 - 1)
  | int64 => (-2 ^ 63, 2 ^ 63 - 1)

def InRange (type : IntegerType) (n : Int) : Prop := type.limits.1 ≤ n ∧ n ≤ type.limits.2

/-- The setter of the variant, after the `static_cast` to its argument. -/
def setter : IntegerType → Int → UaScalar
  | byte, n => .byte (UInt8.ofInt n)
  | sByte, n => .sByte (Int8.ofInt n)
  | uInt16, n => .uInt16 (UInt16.ofInt n)
  | int16, n => .int16 (Int16.ofInt n)
  | uInt32, n => .uInt32 (UInt32.ofInt n)
  | int32, n => .int32 (Int32.ofInt n)
  | uInt64, n => .uInt64 (UInt64.ofInt n)
  | int64, n => .int64 (Int64.ofInt n)

def convFunc : IntegerType → Bytes → Except ConversionError (Int × Nat)
  | byte | uInt16 | uInt32 | uInt64 => stoul
  | sByte | int16 | int32 | int64 => stol

end IntegerType

end Configuration

section Instantiation

variable {α : Type}

def veryIntelligentWrapperOfConversionFunction (str : Bytes)
    (convFunc : Bytes → Except ConversionError (α × Nat)) : Except FreeVariableError α :=
  match convFunc str with
  | .error error => throw (.conversion error)
  | .ok (result, pos) =>
      if pos ≠ str.length then
        throw (.runtime (text "didn't manage to convert full literal '" ++ str ++
          text "' into a number of chosen type, garbage somewhere?"))
      else pure result

def veryIntelligentWrapperOfConversionFunctionWithRangeCheck (limits : Int × Int) (str : Bytes)
    (convFunc : Bytes → Except ConversionError (Int × Nat)) : Except FreeVariableError Int := do
  let convertedNumber ← veryIntelligentWrapperOfConversionFunction str convFunc
  if convertedNumber < limits.1 ∨ limits.2 < convertedNumber then
    throw (.runtime (text "value '" ++ str ++ text "' out of allowed range '" ++
      Quasar.integerText limits.1 ++ text "," ++ Quasar.integerText limits.2 ++ text "'"))
  else pure convertedNumber

def initializeIntegerNumeric (limits : Int × Int) (setter : Int → UaScalar)
    (convFunc : Bytes → Except ConversionError (Int × Nat)) (configInitialValue : Option Bytes) :
    Except FreeVariableError UaScalar :=
  match configInitialValue with
  | none => pure (setter 0)
  | some str =>
      setter <$> veryIntelligentWrapperOfConversionFunctionWithRangeCheck limits str convFunc

def initializeFloatingPointNumeric (zero : α) (setter : α → UaScalar)
    (convFunc : Bytes → Except ConversionError (α × Nat)) (configInitialValue : Option Bytes) :
    Except FreeVariableError UaScalar :=
  match configInitialValue with
  | none => pure (setter zero)
  | some str => setter <$> veryIntelligentWrapperOfConversionFunction str convFunc

/-- `std::stod` and `std::stof`. -/
structure FloatConversions where
  stod : Bytes → Except ConversionError (Double × Nat)
  stof : Bytes → Except ConversionError (Single × Nat)

/-- The initial value of a free variable, by its type. -/
def initialValue (floats : FloatConversions) (parentNodeId : Bytes)
    (config : FreeVariableConfig) : Except FreeVariableError UaScalar :=
  match config.type with
  | .boolean =>
      match config.initialValue with
      | none => pure (.boolean false)
      | some str =>
          if str ≠ text "true" ∧ str ≠ text "false" then
            throw (.runtime (text "While instantiating FreeVariable '" ++ config.name ++
              text "' under '" ++ parentNodeId ++ text " boolean literal is wrong '" ++ str ++
              text "'. Allowed values are 'true' or 'false'."))
          else pure (.boolean (str = text "true"))
  | .integer type =>
      initializeIntegerNumeric type.limits type.setter type.convFunc config.initialValue
  | .double => initializeFloatingPointNumeric ⟨0⟩ .double floats.stod config.initialValue
  | .float => initializeFloatingPointNumeric ⟨0⟩ .float floats.stof config.initialValue
  | .string => pure (.string ((config.initialValue.getD []).takeWhile (· ≠ 0)))

/-- `addNodeAndReference` says why a node cannot be added, if it cannot. -/
def instantiateFreeVariable (floats : FloatConversions)
    (addNodeAndReference : FreeVariable → Option Bytes) (parentNodeId : Bytes)
    (config : FreeVariableConfig) : Except FreeVariableError FreeVariable := do
  let value ← initialValue floats parentNodeId config
  let freeVariable : FreeVariable :=
    { name := config.name
      dataType := freeVariableTypeToBuiltInType config.type
      value := value
      accessLevel := config.accessLevel
      calculationInput := config.type ≠ .boolean ∧ config.type ≠ .string }
  match addNodeAndReference freeVariable with
  | none => pure freeVariable
  | some status =>
      throw (.runtime (text "When adding the free variable '" ++ config.name ++
        text "' to the address space: " ++ status))

end Instantiation

section Promise

/-- The number in a value of an integer type. -/
def integer? : UaScalar → Option Int
  | .sByte v => some v.toInt
  | .byte v => some v.toNat
  | .int16 v => some v.toInt
  | .uInt16 v => some v.toNat
  | .int32 v => some v.toInt
  | .uInt32 v => some v.toNat
  | .int64 v => some v.toInt
  | .uInt64 v => some v.toNat
  | _ => none

/-- An initial value is stored as it is, or it is refused; it is refused when it is not in
the range of the type. -/
def ExactOrRefused (type : IntegerType) (str : Bytes) : Prop :=
  ∀ floats addNodeAndReference parentNodeId (config : FreeVariableConfig),
    config.type = .integer type → config.initialValue = some str →
    (∀ freeVariable,
      instantiateFreeVariable floats addNodeAndReference parentNodeId config = .ok freeVariable →
      ∃ n, DenotesInteger str n ∧ integer? freeVariable.value = some n ∧ type.InRange n) ∧
    ∀ n, DenotesInteger str n → ¬type.InRange n → ∃ error,
      instantiateFreeVariable floats addNodeAndReference parentNodeId config = .error error

/-- The type is signed, or the text is no negative number that is in the range of the type
modulo 2^64. -/
def Favourable (type : IntegerType) (str : Bytes) : Prop :=
  type.unsigned = true → ∀ n, IsNumeral str n → -2 ^ 64 < n → n < 0 →
    ¬type.InRange (n + 2 ^ 64)

end Promise

section Stored

variable {type : IntegerType} {str : Bytes} {n m : Int}

theorem integer?_setter (h : type.InRange n) : integer? (type.setter n) = some n := by
  obtain ⟨hlow, hhigh⟩ := h
  have hunsigned : type.unsigned = true → 0 ≤ n := by
    cases type with
    | byte | uInt16 | uInt32 | uInt64 => exact fun _ => hlow
    | sByte | int16 | int32 | int64 => exact fun h => by cases h
  cases type with
  | byte =>
      obtain ⟨k, rfl⟩ := Int.eq_ofNat_of_zero_le (hunsigned rfl)
      simp only [IntegerType.limits] at hhigh
      simp [IntegerType.setter, integer?, UInt8.ofInt]
      omega
  | sByte => exact congrArg some (Int8.toInt_ofInt_of_le hlow (Int.lt_of_le_sub_one hhigh))
  | uInt16 =>
      obtain ⟨k, rfl⟩ := Int.eq_ofNat_of_zero_le (hunsigned rfl)
      simp only [IntegerType.limits] at hhigh
      simp [IntegerType.setter, integer?, UInt16.ofInt]
      omega
  | int16 => exact congrArg some (Int16.toInt_ofInt_of_le hlow (Int.lt_of_le_sub_one hhigh))
  | uInt32 =>
      obtain ⟨k, rfl⟩ := Int.eq_ofNat_of_zero_le (hunsigned rfl)
      simp only [IntegerType.limits] at hhigh
      simp [IntegerType.setter, integer?, UInt32.ofInt]
      omega
  | int32 => exact congrArg some (Int32.toInt_ofInt_of_le hlow (Int.lt_of_le_sub_one hhigh))
  | uInt64 =>
      obtain ⟨k, rfl⟩ := Int.eq_ofNat_of_zero_le (hunsigned rfl)
      simp only [IntegerType.limits] at hhigh
      simp [IntegerType.setter, integer?, UInt64.ofInt]
      omega
  | int64 => exact congrArg some (Int64.toInt_ofInt_of_le hlow (Int.lt_of_le_sub_one hhigh))

theorem wrapper_eq_ok {limits : Int × Int}
    {convFunc : Bytes → Except ConversionError (Int × Nat)} :
    veryIntelligentWrapperOfConversionFunctionWithRangeCheck limits str convFunc = .ok n ↔
      convFunc str = .ok (n, str.length) ∧ limits.1 ≤ n ∧ n ≤ limits.2 := by
  rw [veryIntelligentWrapperOfConversionFunctionWithRangeCheck, except_bind_eq_ok]
  have hwhole : ∀ result, veryIntelligentWrapperOfConversionFunction str convFunc = .ok result ↔
      convFunc str = .ok (result, str.length) := by
    intro result
    unfold veryIntelligentWrapperOfConversionFunction
    rcases convFunc str with error | ⟨result', pos⟩
    · simp
    · by_cases hpos : pos = str.length
      · simp [hpos, except_pure_eq_ok]
      · simp [hpos]
  constructor
  · rintro ⟨result, hresult, hrange⟩
    split_ifs at hrange with hout
    obtain rfl := except_pure_eq_ok.1 hrange
    exact ⟨(hwhole _).mp hresult, by omega⟩
  · rintro ⟨hresult, hlow, hhigh⟩
    exact ⟨n, (hwhole n).mpr hresult, if_neg (by omega)⟩

theorem IntegerType.convFunc_eq :
    type.convFunc = if type.unsigned = true then stoul else stol := by
  cases type <;> rfl

/-- The ranges lie in that of the type which the conversion returns. -/
theorem IntegerType.InRange.bounds (h : type.InRange n) :
    (type.unsigned = true → 0 ≤ n ∧ n < 2 ^ 64) ∧
      (type.unsigned = false → -2 ^ 63 ≤ n ∧ n < 2 ^ 63) := by
  obtain ⟨hlow, hhigh⟩ := h
  cases type with
  | byte | uInt16 | uInt32 | uInt64 =>
      simp only [IntegerType.limits] at hlow hhigh
      exact ⟨fun _ => by omega, fun h => by cases h⟩
  | sByte | int16 | int32 | int64 =>
      simp only [IntegerType.limits] at hlow hhigh
      exact ⟨fun h => (by cases h), fun _ => by omega⟩

/-- What the conversion with its checks accepts. -/
theorem wrapper_convFunc_eq_ok : veryIntelligentWrapperOfConversionFunctionWithRangeCheck
      type.limits str type.convFunc = .ok n ↔
    type.InRange n ∧ (IsNumeral str n ∨ type.unsigned = true ∧
      ∃ m, IsNumeral str m ∧ -2 ^ 64 < m ∧ m < 0 ∧ n = m + 2 ^ 64) := by
  rw [wrapper_eq_ok, and_comm]
  refine and_congr_right fun hrange => ?_
  have hbounds := @IntegerType.InRange.bounds type n hrange
  rw [IntegerType.convFunc_eq]
  cases hunsigned : type.unsigned with
  | false =>
      rw [if_neg (by simp), stol_eq_ok_iff, and_iff_left (hbounds.2 hunsigned)]
      simp
  | true =>
      obtain ⟨hlow, hhigh⟩ := hbounds.1 hunsigned
      rw [if_pos rfl, stoul_eq_ok_iff]
      constructor
      · rintro ⟨m, hm, hmlow, hmhigh, rfl⟩
        by_cases hnegative : m < 0
        · exact .inr ⟨rfl, m, hm, hmlow, hnegative, by omega⟩
        · exact .inl (by rwa [Int.emod_eq_of_lt (by omega) hmhigh])
      · rintro (hn | ⟨-, m, hm, hmlow, hnegative, rfl⟩)
        · exact ⟨n, hn, by omega, hhigh, by omega⟩
        · exact ⟨m, hm, hmlow, by omega, by omega⟩

/-- What is stored for a free variable of an integer type. -/
theorem instantiate_value {floats : FloatConversions}
    {addNodeAndReference : FreeVariable → Option Bytes} {parentNodeId : Bytes}
    {config : FreeVariableConfig} {freeVariable : FreeVariable}
    (htype : config.type = .integer type) (hvalue : config.initialValue = some str)
    (h : instantiateFreeVariable floats addNodeAndReference parentNodeId config =
      .ok freeVariable) :
    ∃ n, freeVariable.value = type.setter n ∧
      veryIntelligentWrapperOfConversionFunctionWithRangeCheck type.limits str type.convFunc =
        .ok n := by
  obtain ⟨value, hinitial, h⟩ := except_bind_eq_ok.1 h
  rw [initialValue, htype] at hinitial
  dsimp only at hinitial h
  rw [hvalue, initializeIntegerNumeric] at hinitial
  obtain ⟨n, hn, rfl⟩ := except_map_eq_ok.1 hinitial
  refine ⟨n, ?_, hn⟩
  split at h
  · rw [← except_pure_eq_ok.1 h]
  · cases h

/-- The initial values of an integer type are stored exactly or refused exactly when the type
is signed or the text is no negative number that is in its range modulo 2^64. -/
theorem exactOrRefused_iff (type : IntegerType) (str : Bytes) :
    ExactOrRefused type str ↔ Favourable type str := by
  constructor
  · intro h hunsigned n hn hlow hnegative hrange
    have hwrapper := wrapper_convFunc_eq_ok.2
      ⟨hrange, .inr ⟨hunsigned, n, hn, hlow, hnegative, rfl⟩⟩
    have hinstantiate : instantiateFreeVariable ⟨fun _ => throw .invalidArgument,
        fun _ => throw .invalidArgument⟩ (fun _ => none) []
        ⟨[], .integer type, some str, .currentRead⟩ =
          .ok ⟨[], freeVariableTypeToBuiltInType (.integer type), type.setter (n + 2 ^ 64),
            .currentRead, true⟩ := by
      rw [instantiateFreeVariable, initialValue]
      dsimp only
      rw [initializeIntegerNumeric, hwrapper]
      rfl
    obtain ⟨m, hm, hstored, -⟩ := (h _ _ _ _ rfl rfl).1 _ hinstantiate
    rw [integer?_setter hrange, Option.some.injEq, ← IsNumeral.eq_of_denotes hn hm] at hstored
    omega
  · intro h floats addNodeAndReference parentNodeId config htype hvalue
    have hstored : ∀ freeVariable, instantiateFreeVariable floats addNodeAndReference
        parentNodeId config = .ok freeVariable →
        ∃ n, IsNumeral str n ∧ integer? freeVariable.value = some n ∧ type.InRange n := by
      intro freeVariable hok
      obtain ⟨n, hset, hn⟩ := instantiate_value htype hvalue hok
      obtain ⟨hrange, hnumeral⟩ := wrapper_convFunc_eq_ok.1 hn
      rcases hnumeral with hnumeral | ⟨hunsigned, m, hm, hlow, hnegative, rfl⟩
      · exact ⟨n, hnumeral, hset ▸ integer?_setter hrange, hrange⟩
      · exact (h hunsigned m hm hlow hnegative hrange).elim
    constructor
    · intro freeVariable hok
      obtain ⟨n, hn, hrest⟩ := hstored freeVariable hok
      exact ⟨n, denotesInteger_of_isNumeral hn, hrest⟩
    · intro n hn hout
      rcases hresult : instantiateFreeVariable floats addNodeAndReference parentNodeId config with
        error | freeVariable
      · exact ⟨error, rfl⟩
      · obtain ⟨m, hm, -, hrange⟩ := hstored freeVariable hresult
        exact (hout (IsNumeral.eq_of_denotes hm hn ▸ hrange)).elim

/-- A byte that is far below zero. -/
def wrappedText : Bytes := text "-18446744073709551615"

theorem wrappedText_isNumeral : IsNumeral wrappedText (-(2 ^ 64 - 1)) := by
  refine ⟨⟨[], some true, text "18446744073709551615", by simp, List.all_eq_true.1 (by decide),
    by decide⟩, by decide, by decide⟩

theorem wrappedText_stored :
    instantiateFreeVariable ⟨fun _ => throw .invalidArgument, fun _ => throw .invalidArgument⟩
        (fun _ => none) (text "plant")
        ⟨text "offset", .integer .byte, some wrappedText, .currentReadOrWrite⟩ =
      .ok ⟨text "offset", .byte, .byte 1, .currentReadOrWrite, true⟩ ∧
    ¬ExactOrRefused .byte wrappedText := by
  have hstored : instantiateFreeVariable ⟨fun _ => throw .invalidArgument,
      fun _ => throw .invalidArgument⟩ (fun _ => none) (text "plant")
      ⟨text "offset", .integer .byte, some wrappedText, .currentReadOrWrite⟩ =
        .ok ⟨text "offset", .byte, .byte 1, .currentReadOrWrite, true⟩ := by
    decide
  refine ⟨hstored, fun h => ?_⟩
  obtain ⟨n, hn, hvalue, -⟩ := (h _ _ _ _ rfl rfl).1 _ hstored
  rw [← IsNumeral.eq_of_denotes wrappedText_isNumeral hn] at hvalue
  exact absurd hvalue (by decide)

end Stored

end FreeVariables

end Supernova
