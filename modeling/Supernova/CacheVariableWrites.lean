/-
Client writes to cache variables that a handler of the generated class sees
first: what the handler checks, what the device logic is called with, and when
the cache has the written value afterwards.
-/
import Supernova.AddressSpaceVariables

namespace Supernova

namespace Quasar

section Sizes

/-- The sizes that the generated class checks against. -/
structure SizeBounds where
  minimum : Fin (2 ^ 31)
  maximum : Fin (2 ^ 31)
deriving DecidableEq, Repr

def SizeBounds.Contains (bounds : SizeBounds) (size : Nat) : Prop :=
  bounds.minimum.val ≤ size ∧ size ≤ bounds.maximum.val

instance (bounds : SizeBounds) (size : Nat) : Decidable (bounds.Contains size) :=
  inferInstanceAs (Decidable (_ ∧ _))

theorem SizeBounds.Contains.lt {bounds : SizeBounds} {size : Nat} (h : bounds.Contains size) :
    size < 2 ^ 31 :=
  lt_of_le_of_lt h.2 bounds.maximum.isLt

def octalValue (digits : Bytes) : Nat := digits.foldl (fun n c => 8 * n + (c.toNat - 48)) 0

/-- Read with the smaller base, digits are worth no more. -/
theorem octalValue_le (digits : Bytes) : octalValue digits ≤ digitsValue digits := by
  have hfold : ∀ (digits : Bytes) (n m : Nat), n ≤ m →
      digits.foldl (fun n c => 8 * n + (c.toNat - 48)) n ≤
        digits.foldl (fun n c => 10 * n + (c.toNat - 48)) m := by
    intro digits
    induction digits with
    | nil => exact fun _ _ h => h
    | cons c digits ih =>
        intro n m h
        refine ih _ _ ?_
        change 8 * n + (c.toNat - 48) ≤ 10 * m + (c.toNat - 48)
        omega
  exact hfold digits 0 0 (Nat.le_refl 0)

theorem SizeLimit.size_lt (limit : SizeLimit) : limit.size < 2 ^ 31 :=
  lt_of_le_of_lt limit.size_le (by decide)

/-- The digits of the attribute are put into the code as they are: as a literal they are
octal when they begin with a zero, and then 8 and 9 do not compile. -/
def SizeLimit.literal (limit : SizeLimit) : Option (Fin (2 ^ 31)) :=
  if limit.digits.head? = some 48 then
    if limit.digits.all (· < 56) then
      some ⟨octalValue limit.digits, lt_of_le_of_lt (octalValue_le _) limit.size_lt⟩
    else none
  else some ⟨limit.size, limit.size_lt⟩

/-- The largest `int` stands for a maximum that is not declared. -/
def ArrayElement.literalBounds (array : ArrayElement) : Option SizeBounds := do
  let minimum ← array.minimumSize.elim (some 0) SizeLimit.literal
  let maximum ← array.maximumSize.elim (some ⟨2 ^ 31 - 1, by decide⟩) SizeLimit.literal
  some ⟨minimum, maximum⟩

/-- The sizes that the design admits. -/
def ArrayElement.Admits (array : ArrayElement) (size : Nat) : Prop :=
  (∀ limit ∈ array.minimumSize, limit.size ≤ size) ∧
    ∀ limit ∈ array.maximumSize, size ≤ limit.size

end Sizes

/-- A value as the generated code hands it over, to the device logic or to a setter. -/
inductive NativeValue (content : BuiltInType → Type)
  | variant (value : UaVariant content)
  | scalar (type : BuiltInType) (x : content type)
  | vector (type : BuiltInType) (xs : List (content type))

/-- The argument is the written value. -/
def NativeValue.Is {content : BuiltInType → Type} (argument : NativeValue content)
    (value : UaVariant content) : Prop :=
  match argument with
  | .variant written => value = written
  | .scalar type x => value = .scalar type x
  | .vector type xs => ∃ length_lt, value = .array type xs length_lt

/-- The conversions out of a variant. Each gives the content of a value of its own type;
`uninitialized` is what a local variable holds where one fails. -/
structure Conversions (content : BuiltInType → Type) where
  scalar : (type : BuiltInType) → UaVariant content → Except StatusCode (content type)
  toString : UaVariant content → content .string
  vector : (type : BuiltInType) → UaVariant content → Except StatusCode (List (content type))
  uninitialized : (type : BuiltInType) → content type
  scalar_eq : ∀ type x, scalar type (.scalar type x) = .ok x
  toString_eq : ∀ x, toString (.scalar .string x) = x
  vector_eq : ∀ type xs length_lt, vector type (.array type xs length_lt) = .ok xs

/-- Every type has integers for its contents here, and nothing is converted to another
type. -/
def integerConversions : Conversions fun _ => Int where
  scalar type
    | .scalar written x =>
        if written = type then .ok x else .error StatusCode.badDataEncodingInvalid
    | _ => .error StatusCode.badDataEncodingInvalid
  toString
    | .scalar _ x => x
    | _ => 0
  vector type
    | .array written xs _ =>
        if written = type then .ok xs else .error StatusCode.badDataEncodingInvalid
    | _ => .error StatusCode.badDataEncodingInvalid
  uninitialized _ := -1
  scalar_eq _ _ := if_pos rfl
  toString_eq _ := rfl
  vector_eq _ _ _ := if_pos rfl

def integerDataValue (value : UaVariant fun _ => Int) : UaDataValue fun _ => Int :=
  ⟨value, StatusCode.opcUaGood⟩

/-- A variable whose part of the generated class compiles. -/
structure CompiledVariable where
  element : CacheVariableElement
  bounds : Option SizeBounds

/-- The handler of a delegated array reads a local variable that is declared only for a
data type other than `UaVariant`. -/
def compile (v : CacheVariableElement) : Option CompiledVariable :=
  match v.array with
  | none => some ⟨v, none⟩
  | some array =>
      if v.addressSpaceWrite = .delegated ∧ v.dataType = .uaVariant then none
      else array.literalBounds.map fun bounds => ⟨v, some bounds⟩

section Handler

variable {content : BuiltInType → Type}

def checkArraySize (bounds : SizeBounds) (value : UaVariant content) : Except StatusCode Unit :=
  if !value.isArray then throw StatusCode.badDataEncodingInvalid
  else
    let stackArraySize := value.arraySize
    if stackArraySize < 0 then throw StatusCode.badDataEncodingInvalid
    else
      let arraySize := stackArraySize.toNat
      if arraySize < bounds.minimum.val ∨ bounds.maximum.val < arraySize then
        throw StatusCode.badIndexRangeInvalid
      else pure ⟨⟩

def checkDataType (v : CacheVariableElement) (value : UaVariant content) :
    Except StatusCode Unit :=
  if v.dataType ≠ .uaVariant then
    if value.type ≠ some (dataTypeToBuiltinType v.dataType) then
      if v.nullPolicy = .nullForbidden then throw StatusCode.badDataEncodingInvalid
      else if value.type ≠ none then throw StatusCode.badDataEncodingInvalid
      else pure ⟨⟩
    else pure ⟨⟩
  else pure ⟨⟩

/-- What a handler checks before it does anything. -/
def checkWrite (compiled : CompiledVariable) (value : UaVariant content) :
    Except StatusCode Unit := do
  compiled.bounds.elim (pure ⟨⟩) fun bounds => checkArraySize bounds value
  checkDataType compiled.element value

variable (conversions : Conversions content)

/-- The status of a scalar conversion is not looked at. -/
def scalarArgument (dataType : DataType) (value : UaVariant content) : NativeValue content :=
  if dataType = .uaVariant then .variant value
  else if dataType = .uaString then .scalar .string (conversions.toString value)
  else
    let type := dataTypeToBuiltinType dataType
    match conversions.scalar type value with
    | .ok x => .scalar type x
    | .error _ => .scalar type (conversions.uninitialized type)

def writeArgument (v : CacheVariableElement) (value : UaVariant content) :
    Except StatusCode (NativeValue content) :=
  if v.array.isSome then
    (conversions.vector (dataTypeToBuiltinType v.dataType) value).map (.vector _)
  else .ok (scalarArgument conversions v.dataType value)

/-- The generated handler of a variable; `deviceLink` is how the device logic answers. -/
def writeDelegate (deviceLink : NativeValue content → StatusCode) (deviceLogic : Bool)
    (compiled : CompiledVariable) (dataValue : UaDataValue content) :
    HandlerOutcome (NativeValue content) :=
  match checkWrite compiled dataValue.value with
  | .error status => ⟨none, status⟩
  | .ok _ =>
      if compiled.element.addressSpaceWrite = .regular then ⟨none, StatusCode.opcUaGood⟩
      else
        match writeArgument conversions compiled.element dataValue.value with
        | .error status => ⟨none, status⟩
        | .ok argument =>
            if deviceLogic then ⟨some argument, deviceLink argument⟩
            else ⟨none, StatusCode.badNotImplemented⟩

/-- The variables that get a handler. -/
def HasHandler (v : CacheVariableElement) : Prop :=
  v.addressSpaceWrite = .delegated ∨ v.array.isSome = true ∧ v.addressSpaceWrite = .regular

instance (v : CacheVariableElement) : Decidable (HasHandler v) :=
  inferInstanceAs (Decidable (_ ∨ _))

def assignedHandler (deviceLink : NativeValue content → StatusCode) (deviceLogic : Bool)
    (compiled : CompiledVariable) :
    Option (UaDataValue content → HandlerOutcome (NativeValue content)) :=
  if HasHandler compiled.element then
    some (writeDelegate conversions deviceLink deviceLogic compiled)
  else none

/-- A session writes to the variable. -/
def sessionWrite (deviceLink : NativeValue content → StatusCode) (deviceLogic : Bool)
    (base : BaseDataVariableType content) (compiled : CompiledVariable) (checkAccessLevel : Bool)
    (cache dataValue : UaDataValue content) : DelegatedWrite content (NativeValue content) :=
  ASDelegatingVariable.setValue base
    (assignedHandler conversions deviceLink deviceLogic compiled) true checkAccessLevel cache
    dataValue

end Handler

section Purpose

variable {content : BuiltInType → Type}

/-- The elements of a written array of the designed type. -/
def designedVector (v : CacheVariableElement) :
    UaVariant content → Option (NativeValue content)
  | .array type xs _ =>
      if v.dataType = .uaVariant ∨ type = dataTypeToBuiltinType v.dataType then
        some (.vector type xs)
      else none
  | _ => none

/-- The content of a written scalar of the designed type. -/
def designedScalar (v : CacheVariableElement) :
    UaVariant content → Option (NativeValue content)
  | .scalar type x =>
      if type = dataTypeToBuiltinType v.dataType then some (.scalar type x) else none
  | _ => none

/-- The argument that is the written value, where that has the designed type and rank. -/
def designedArgument (v : CacheVariableElement) (value : UaVariant content) :
    Option (NativeValue content) :=
  if v.array.isSome then designedVector v value
  else if v.dataType = .uaVariant then some (.variant value)
  else designedScalar v value

variable {v : CacheVariableElement} {value : UaVariant content}
  {argument : NativeValue content}

theorem designedVector_is (h : designedVector v value = some argument) : argument.Is value := by
  cases value with
  | null => cases h
  | scalar => cases h
  | array type xs length_lt =>
      obtain ⟨-, h⟩ := Option.ite_none_right_eq_some.mp h
      cases h
      exact ⟨length_lt, rfl⟩

theorem designedScalar_is (h : designedScalar v value = some argument) : argument.Is value := by
  cases value with
  | null => cases h
  | scalar type x =>
      obtain ⟨-, h⟩ := Option.ite_none_right_eq_some.mp h
      cases h
      rfl
  | array => cases h

theorem designedArgument_is (h : designedArgument v value = some argument) :
    argument.Is value := by
  rw [designedArgument] at h
  split_ifs at h
  · exact designedVector_is h
  · cases h
    rfl
  · exact designedScalar_is h

/-- The size is one that the design admits. -/
def WithinDesign (v : CacheVariableElement) (size : Nat) : Prop :=
  ∀ array ∈ v.array, array.Admits size

/-- The size is one that the generated class lets through. -/
def WithinLiterals (v : CacheVariableElement) (size : Nat) : Prop :=
  ∀ array ∈ v.array, ∀ bounds ∈ array.literalBounds, bounds.Contains size

/-- What a completed write owes to its design: the device logic sees the written value and
only when that matches, NULL passes the checks where it is allowed, and the cache has the
value exactly when the status is good. -/
structure PassesOn (compiled : CompiledVariable) (cache dataValue : UaDataValue content)
    (written : DelegatedWrite content (NativeValue content)) : Prop where
  called : ∀ argument ∈ written.called,
    designedArgument compiled.element dataValue.value = some argument ∧
      WithinDesign compiled.element dataValue.value.length
  null : dataValue.value = .null →
    (checkWrite compiled dataValue.value = .ok ⟨⟩ ↔ compiled.element.nullPolicy = .nullAllowed)
  stored : written.status.isGood = true → written.cache = dataValue
  kept : written.status.isGood = false → written.cache = cache

/-- When a write is passed on as it should be. -/
structure Passable (deviceLink : NativeValue content → StatusCode) (deviceLogic : Bool)
    (base : BaseDataVariableType content) (v : CacheVariableElement) (checkAccessLevel : Bool)
    (cache dataValue : UaDataValue content) : Prop where
  compiles : (compile v).isSome = true
  null : dataValue.value = .null → v.nullPolicy = .nullForbidden ∨
    v.array = none ∧ (v.dataType = .uaVariant ∨ deviceLogic = false)
  rank : v.array = none → v.dataType ≠ .uaVariant → deviceLogic = true →
    ∀ xs length_lt, dataValue.value ≠ .array (dataTypeToBuiltinType v.dataType) xs length_lt
  sizes : v.addressSpaceWrite = .delegated → deviceLogic = true →
    (designedArgument v dataValue.value).isSome = true → WithinLiterals v dataValue.value.length →
      WithinDesign v dataValue.value.length
  storable : ∀ argument ∈ designedArgument v dataValue.value, WithinLiterals v dataValue.value.length →
    (v.addressSpaceWrite = .delegated → deviceLogic = true ∧
      (deviceLink argument).isGood = true) →
    (base.setValue true checkAccessLevel cache dataValue).1.isGood = true ∨ cache = dataValue

end Purpose

section Checks

variable {content : BuiltInType → Type} {value : UaVariant content} {v : CacheVariableElement}
  {compiled : CompiledVariable} {u : Unit} {status : StatusCode}

theorem checkArraySize_eq_ok {bounds : SizeBounds} : checkArraySize bounds value = .ok u ↔
    value.isArray = true ∧ bounds.Contains value.length := by
  rcases harray : value.isArray with _ | _
  · simp [checkArraySize, harray]
  · have hsize := UaVariant.arraySize_of_isArray harray
    have hnonneg : ¬(value.length : Int) < 0 := by omega
    rw [checkArraySize, harray, hsize, Bool.not_true, if_neg Bool.false_ne_true]
    simp only [if_neg hnonneg, Int.toNat_natCast]
    have hbounds : bounds.Contains value.length ↔
        ¬(value.length < bounds.minimum.val ∨ bounds.maximum.val < value.length) := by
      rw [SizeBounds.Contains]
      omega
    rw [hbounds]
    split_ifs with hout <;> simp [hout, except_pure_eq_ok]

theorem isGood_of_checkArraySize {bounds : SizeBounds}
    (h : checkArraySize bounds value = .error status) : status.isGood = false := by
  simp only [checkArraySize] at h
  split_ifs at h <;> cases h <;> rfl

theorem checkDataType_eq_ok : checkDataType v value = .ok u ↔ v.dataType = .uaVariant ∨
    value.type = some (dataTypeToBuiltinType v.dataType) ∨
      value.type = none ∧ v.nullPolicy = .nullAllowed := by
  rw [checkDataType]
  split_ifs with hvariant htype hforbidden hnull
  · simp_all
  · simp_all
  · rcases hpolicy : v.nullPolicy with _ | _ <;> simp_all [except_pure_eq_ok]
  · simp_all [except_pure_eq_ok]
  · simp_all [except_pure_eq_ok]

theorem isGood_of_checkDataType (h : checkDataType v value = .error status) :
    status.isGood = false := by
  rw [checkDataType] at h
  split_ifs at h <;> cases h <;> rfl

theorem compile_cases (h : compile v = some compiled) :
    (v.array = none ∧ compiled = ⟨v, none⟩) ∨
      ∃ array bounds, v.array = some array ∧ array.literalBounds = some bounds ∧
        ¬(v.addressSpaceWrite = .delegated ∧ v.dataType = .uaVariant) ∧
        compiled = ⟨v, some bounds⟩ := by
  rw [compile] at h
  rcases harray : v.array with _ | array
  · rw [harray] at h
    exact .inl ⟨rfl, (Option.some.inj h).symm⟩
  · rw [harray] at h
    obtain ⟨hunvaried, h⟩ := Option.ite_none_left_eq_some.mp h
    obtain ⟨bounds, hbounds, rfl⟩ := Option.map_eq_some_iff.mp h
    exact .inr ⟨array, bounds, rfl, hbounds, hunvaried, rfl⟩

theorem checkWrite_scalar : checkWrite ⟨v, none⟩ value = checkDataType v value := rfl

theorem checkWrite_array {bounds : SizeBounds} : checkWrite ⟨v, some bounds⟩ value = .ok u ↔
    (value.isArray = true ∧ bounds.Contains value.length) ∧ checkDataType v value = .ok u := by
  change (checkArraySize bounds value >>= fun _ => checkDataType v value) = _ ↔ _
  rw [except_bind_eq_ok]
  constructor
  · rintro ⟨_, hsize, htype⟩
    exact ⟨checkArraySize_eq_ok.1 hsize, htype⟩
  · rintro ⟨hsize, htype⟩
    exact ⟨⟨⟩, checkArraySize_eq_ok.2 hsize, htype⟩

theorem isGood_of_checkWrite (h : checkWrite compiled value = .error status) :
    status.isGood = false := by
  obtain ⟨v, _ | bounds⟩ := compiled
  · exact isGood_of_checkDataType h
  · change (checkArraySize bounds value >>= fun _ => checkDataType v value) = _ at h
    rcases hsize : checkArraySize bounds value with status' | _
    · rw [hsize] at h
      cases h
      exact isGood_of_checkArraySize hsize
    · rw [hsize] at h
      exact isGood_of_checkDataType h

end Checks

end Quasar

end Supernova
