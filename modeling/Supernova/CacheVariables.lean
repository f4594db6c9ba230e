/-
Cache variables in a design: what an element says and the checks that it passes
before code is generated for it.
-/
import Supernova.DecimalText
import Supernova.DesignValidator

namespace Supernova

namespace Quasar

/-- The built-in types of OPC UA. -/
inductive BuiltInType
  | boolean
  | sByte
  | byte
  | int16
  | uInt16
  | int32
  | uInt32
  | int64
  | uInt64
  | float
  | double
  | string
  | dateTime
  | guid
  | byteString
  | xmlElement
  | nodeId
  | expandedNodeId
  | statusCode
  | qualifiedName
  | localizedText
  | extensionObject
  | dataValue
  | variant
  | diagnosticInfo
deriving DecidableEq, Repr

/-- The data types that a variable can have in a design. -/
inductive DataType
  | double
  | float
  | byte
  | sByte
  | int16
  | uInt16
  | int32
  | uInt32
  | int64
  | uInt64
  | boolean
  | uaString
  | uaVariant
  | uaByteString
deriving DecidableEq, Repr

def dataTypeToBuiltinType : DataType → BuiltInType
  | .double => .double
  | .float => .float
  | .byte => .byte
  | .sByte => .sByte
  | .int16 => .int16
  | .uInt16 => .uInt16
  | .int32 => .int32
  | .uInt32 => .uInt32
  | .int64 => .int64
  | .uInt64 => .uInt64
  | .boolean => .boolean
  | .uaString => .string
  | .uaByteString => .byteString
  | .uaVariant => .variant

def dataTypeName : DataType → Bytes
  | .double => text "OpcUa_Double"
  | .float => text "OpcUa_Float"
  | .byte => text "OpcUa_Byte"
  | .sByte => text "OpcUa_SByte"
  | .int16 => text "OpcUa_Int16"
  | .uInt16 => text "OpcUa_UInt16"
  | .int32 => text "OpcUa_Int32"
  | .uInt32 => text "OpcUa_UInt32"
  | .int64 => text "OpcUa_Int64"
  | .uInt64 => text "OpcUa_UInt64"
  | .boolean => text "OpcUa_Boolean"
  | .uaString => text "UaString"
  | .uaVariant => text "UaVariant"
  | .uaByteString => text "UaByteString"

inductive AddressSpaceWrite
  | forbidden
  | delegated
  | regular
deriving DecidableEq, Repr

inductive NullPolicy
  | nullAllowed
  | nullForbidden
deriving DecidableEq, Repr

inductive InitialStatus
  | good
  | bad
  | badWaitingForInitialData
deriving DecidableEq, Repr

/-- The schema admits decimal digits, leading zeros too, up to a largest size. -/
structure SizeLimit where
  digits : Bytes
  digits_ne_nil : digits ≠ []
  digits_isDigit : ∀ c ∈ digits, isDigit c = true
  size_le : digitsValue digits ≤ 104857600

/-- The size that an attribute declares. -/
def SizeLimit.size (limit : SizeLimit) : Nat := digitsValue limit.digits

/-- The `array` element of a variable. -/
structure ArrayElement where
  minimumSize : Option SizeLimit
  maximumSize : Option SizeLimit

/-- A `cachevariable` element. -/
structure CacheVariableElement where
  name : Bytes
  addressSpaceWrite : AddressSpaceWrite
  dataType : DataType
  initializeWith : InitializeWith
  initialValue : Option Bytes
  initialStatus : Option InitialStatus
  nullPolicy : NullPolicy
  defaultConfigInitializerValue : Option Bytes
  array : Option ArrayElement

/-- A class, as far as its cache variables need it. -/
structure ClassElement where
  name : Bytes
  deviceLogic : Bool
  cacheVariables : List CacheVariableElement

section Validation

/-- How numbers are read from text: whether `float` accepts it, and what `int` makes of it. -/
structure NumberLiterals where
  float : Bytes → Bool
  int : Bytes → Option Int

def raise (what locator : Bytes) : Except Bytes Unit :=
  throw (what ++ text " (at: " ++ locator ++ text ")")

def assertAttributeAbsent {α : Type} (value : Option α) (name extraMessage locator : Bytes) :
    Except Bytes Unit :=
  if value.isSome then
    raise (name ++ text " attribute can't be present " ++ extraMessage) locator
  else pure ⟨⟩

def assertAttributePresent {α : Type} (value : Option α) (name extraMessage locator : Bytes) :
    Except Bytes Unit :=
  if value.isSome then pure ⟨⟩
  else raise (name ++ text " attribute must be present " ++ extraMessage) locator

/-- The ranges of the integer types; those of the larger unsigned ones end where the signed
ones do. -/
def integerDataTypesRange : DataType → Int × Int
  | .sByte => (-2 ^ 7, 2 ^ 7 - 1)
  | .byte => (0, 2 ^ 8 - 1)
  | .int16 => (-2 ^ 15, 2 ^ 15 - 1)
  | .uInt16 => (0, 2 ^ 16 - 1)
  | .int32 => (-2 ^ 31, 2 ^ 31 - 1)
  | .uInt32 => (0, 2 ^ 31 - 1)
  | .int64 => (-2 ^ 63, 2 ^ 63 - 1)
  | .uInt64 => (0, 2 ^ 63 - 1)
  | _ => (0, 0)

def integerText (n : Int) : Bytes :=
  if n < 0 then text "-" ++ decimal n.natAbs else decimal n.natAbs

variable (numbers : NumberLiterals)

def assertNumericLiteralValid (literal : Bytes) (dataType : DataType) (locator : Bytes) :
    Except Bytes Unit :=
  let unparsable := raise (text "literal '" ++ literal ++ text "' unparsable for data type '" ++
    dataTypeName dataType ++ text "'") locator
  if dataType = .float ∨ dataType = .double then
    if numbers.float literal then pure ⟨⟩ else unparsable
  else
    match numbers.int literal with
    | none => unparsable
    | some n =>
        let range := integerDataTypesRange dataType
        if n < range.1 ∨ range.2 < n then
          raise (text "literal '" ++ literal ++ text "' not in integer valid_range (" ++
            integerText range.1 ++ text ", " ++ integerText range.2 ++ text ")") locator
        else pure ⟨⟩

def validateInitialValue (initialValue : Bytes) (dataType : DataType) (locator : Bytes) :
    Except Bytes Unit :=
  match dataType with
  | .uaString | .uaVariant | .uaByteString => pure ⟨⟩
  | .boolean =>
      if initialValue ∈ [text "OpcUa_True", text "OpcUa_False"] then pure ⟨⟩
      else raise (text "initialValue wrong literal, only OpcUa_True or OpcUa_False allowed") locator
  | dataType => assertNumericLiteralValid numbers initialValue dataType locator

/-- The two sizes are compared as texts. -/
def validateArray (array : ArrayElement) (locator : Bytes) : Except Bytes Unit :=
  match array.minimumSize, array.maximumSize with
  | some minimum, some maximum =>
      if maximum.digits < minimum.digits then
        throw (text "array's minimumSize > maximumSize, fix it." ++ locator)
      else pure ⟨⟩
  | _, _ => pure ⟨⟩

def validateInitialization (v : CacheVariableElement) (locator : Bytes) : Except Bytes Unit :=
  match v.initializeWith with
  | .configuration => do
      assertAttributeAbsent v.initialValue (text "initialValue")
        (text "when initializeWith=configuration") locator
      assertAttributeAbsent v.initialStatus (text "initialStatus")
        (text "when initializeWith=configuration") locator
  | .valueAndStatus => do
      assertAttributePresent v.initialStatus (text "initialStatus")
        (text "when initializeWith=valueAndStatus") locator
      if v.nullPolicy = .nullForbidden then
        assertAttributePresent v.initialValue (text "initialValue")
          (text "when valueAndStatus and nullForbidden") locator
      else pure ⟨⟩

def validateArrayVariable (v : CacheVariableElement) (locator : Bytes) : Except Bytes Unit :=
  match v.array with
  | none => pure ⟨⟩
  | some array => do
      validateArray array locator
      assertAttributeAbsent v.initialValue (text "initialValue") (text "when array") locator
      assertAttributeAbsent v.defaultConfigInitializerValue (text "defaultConfigInitializerValue")
        (text "when array") locator

def validateDataType (v : CacheVariableElement) (locator : Bytes) : Except Bytes Unit :=
  if v.dataType = .uaVariant ∨ v.dataType = .uaByteString then
    match v.initializeWith with
    | .configuration =>
        raise (text "Attribute initializeWith expects valueAndStatus when data type is UaVariant")
          locator
    | .valueAndStatus => assertAttributeAbsent v.initialValue (text "initialValue")
        (text "when data type is UaVariant") locator
  else pure ⟨⟩

def validateLiteral (v : CacheVariableElement) (locator : Bytes) : Except Bytes Unit :=
  match v.initialValue with
  | some initialValue => validateInitialValue numbers initialValue v.dataType locator
  | none => pure ⟨⟩

def validateCacheVariable (v : CacheVariableElement) (locator : Bytes) : Except Bytes Unit := do
  validateInitialization v locator
  validateLiteral numbers v locator
  validateArrayVariable v locator
  validateDataType v locator

def validateCacheVariables (locator : ClassElement → CacheVariableElement → Bytes)
    (classes : List ClassElement) : Except Bytes Unit :=
  classes.forM fun c => c.cacheVariables.forM fun v => validateCacheVariable numbers v (locator c v)

end Validation

section Accepted

theorem raise_eq_ok {what locator : Bytes} {u : Unit} : raise what locator = .ok u ↔ False := by
  simp [raise]

@[simp] theorem assertAttributeAbsent_eq_ok {α : Type} {value : Option α}
    {name extraMessage locator : Bytes} {u : Unit} :
    assertAttributeAbsent value name extraMessage locator = .ok u ↔ value = none := by
  cases value <;> simp [assertAttributeAbsent, raise_eq_ok, except_pure_eq_ok]

@[simp] theorem assertAttributePresent_eq_ok {α : Type} {value : Option α}
    {name extraMessage locator : Bytes} {u : Unit} :
    assertAttributePresent value name extraMessage locator = .ok u ↔ value ≠ none := by
  cases value <;> simp [assertAttributePresent, raise_eq_ok, except_pure_eq_ok]

/-- What an accepted variable has and what it has not. -/
structure AcceptedVariable (v : CacheVariableElement) : Prop where
  valueIfForbidden : v.initializeWith = .valueAndStatus → v.nullPolicy = .nullForbidden →
    v.initialValue ≠ none
  noValueIfConfigured : v.initializeWith = .configuration → v.initialValue = none
  noValueIfArray : v.array.isSome → v.initialValue = none
  untyped : v.dataType = .uaVariant ∨ v.dataType = .uaByteString →
    v.initializeWith = .valueAndStatus ∧ v.initialValue = none

variable {numbers : NumberLiterals} {v : CacheVariableElement}

theorem acceptedVariable_of_validate {locator : Bytes} {u : Unit}
    (h : validateCacheVariable numbers v locator = .ok u) : AcceptedVariable v := by
  obtain ⟨_, hinitialization, h⟩ := except_bind_eq_ok.1 h
  obtain ⟨_, -, h⟩ := except_bind_eq_ok.1 h
  obtain ⟨_, harray, hdataType⟩ := except_bind_eq_ok.1 h
  refine ⟨?_, ?_, ?_, ?_⟩
  · intro hwith hforbidden
    rw [validateInitialization, hwith] at hinitialization
    obtain ⟨_, -, hpresent⟩ := except_bind_eq_ok.1 hinitialization
    rw [if_pos hforbidden] at hpresent
    exact assertAttributePresent_eq_ok.1 hpresent
  · intro hwith
    rw [validateInitialization, hwith] at hinitialization
    obtain ⟨_, habsent, -⟩ := except_bind_eq_ok.1 hinitialization
    exact assertAttributeAbsent_eq_ok.1 habsent
  · intro hsome
    obtain ⟨array, hsome⟩ := Option.isSome_iff_exists.mp hsome
    rw [validateArrayVariable, hsome] at harray
    obtain ⟨_, -, harray⟩ := except_bind_eq_ok.1 harray
    obtain ⟨_, habsent, -⟩ := except_bind_eq_ok.1 harray
    exact assertAttributeAbsent_eq_ok.1 habsent
  · intro htype
    rw [validateDataType, if_pos htype] at hdataType
    rcases hwith : v.initializeWith with _ | _
    · rw [hwith] at hdataType
      exact (raise_eq_ok.1 hdataType).elim
    · rw [hwith] at hdataType
      exact ⟨rfl, assertAttributeAbsent_eq_ok.1 hdataType⟩

theorem nullForbidden_iff : v.nullPolicy = .nullForbidden ↔ v.nullPolicy ≠ .nullAllowed := by
  cases v.nullPolicy <;> decide

/-- A variable that can hold anything can hold NULL. -/
theorem AcceptedVariable.nullAllowed (h : AcceptedVariable v) (htype : v.dataType = .uaVariant) :
    v.nullPolicy = .nullAllowed := by
  obtain ⟨hwith, habsent⟩ := h.untyped (.inl htype)
  rcases hpolicy : v.nullPolicy with _ | _
  · rfl
  · exact absurd habsent (h.valueIfForbidden hwith hpolicy)

theorem validateCacheVariable_of_design {locator : ClassElement → CacheVariableElement → Bytes}
    {classes : List ClassElement} {u : Unit}
    (h : validateCacheVariables numbers locator classes = .ok u) {c : ClassElement}
    (hc : c ∈ classes) (hv : v ∈ c.cacheVariables) :
    validateCacheVariable numbers v (locator c v) = .ok ⟨⟩ := by
  have hclass := forM_eq_ok.1 h c hc
  exact forM_eq_ok.1 hclass v hv

end Accepted

end Quasar

end Supernova
