/-
Variables of the address space: the values that a session can write, the base
class that stores them, the variable that tells listeners about a change, and the
one that asks a handler of the generated class first.
-/
import Supernova.CacheVariables

namespace Supernova

namespace Quasar

/-- The two highest bits of a status code are its severity. -/
abbrev StatusCode := BitVec 32

namespace StatusCode

def isGood (status : StatusCode) : Bool := status &&& 0xC0000000#32 == 0#32

def opcUaGood : StatusCode := 0x00000000#32
def badDataEncodingInvalid : StatusCode := 0x80380000#32
def badIndexRangeInvalid : StatusCode := 0x80360000#32
def badNotImplemented : StatusCode := 0x80400000#32
def badTypeMismatch : StatusCode := 0x80740000#32

@[simp] theorem isGood_opcUaGood : isGood opcUaGood = true := rfl
@[simp] theorem isGood_badDataEncodingInvalid : isGood badDataEncodingInvalid = false := rfl
@[simp] theorem isGood_badIndexRangeInvalid : isGood badIndexRangeInvalid = false := rfl
@[simp] theorem isGood_badNotImplemented : isGood badNotImplemented = false := rfl
@[simp] theorem isGood_badTypeMismatch : isGood badTypeMismatch = false := rfl

end StatusCode

/-- NULL, a scalar or an array of a built-in type; the length of an array is a 32-bit
signed integer. -/
inductive UaVariant (content : BuiltInType → Type)
  | null
  | scalar (type : BuiltInType) (x : content type)
  | array (type : BuiltInType) (xs : List (content type)) (length_lt : xs.length < 2 ^ 31)

namespace UaVariant

variable {content : BuiltInType → Type}

/-- The type of a scalar, or of the elements of an array; NULL has none. -/
def type : UaVariant content → Option BuiltInType
  | null => none
  | scalar type _ => some type
  | array type _ _ => some type

def isArray : UaVariant content → Bool
  | array _ _ _ => true
  | _ => false

def length : UaVariant content → Nat
  | array _ xs _ => xs.length
  | _ => 0

def arraySize (value : UaVariant content) : Int := if value.isArray then value.length else -1

theorem arraySize_of_isArray {value : UaVariant content} (h : value.isArray = true) :
    value.arraySize = value.length := if_pos h

end UaVariant

structure UaDataValue (content : BuiltInType → Type) where
  value : UaVariant content
  statusCode : StatusCode

/-- The variable class of the server kit. It stores what it is given when it answers with
a good status, and nothing when it does not. -/
structure BaseDataVariableType (content : BuiltInType → Type) where
  setValue : (session checkAccessLevel : Bool) → (cache dataValue : UaDataValue content) →
    StatusCode × UaDataValue content
  stores : ∀ session check cache dataValue,
    (setValue session check cache dataValue).1.isGood = true →
      (setValue session check cache dataValue).2 = dataValue
  keeps : ∀ session check cache dataValue,
    (setValue session check cache dataValue).1.isGood = false →
      (setValue session check cache dataValue).2 = cache

/-- It stores everything that it is given. -/
def obedientBase : BaseDataVariableType fun _ => Int where
  setValue _ _ _ dataValue := (StatusCode.opcUaGood, dataValue)
  stores _ _ _ _ _ := rfl
  keeps _ _ _ _ hbad := by simp at hbad

/-- What a handler does: the call of the device logic that it makes, and its status. -/
structure HandlerOutcome (Argument : Type) where
  called : Option Argument
  status : StatusCode

/-- A `setValue` that has returned: its status, what the cache holds then, and what the
listeners were told. -/
structure StoredWrite (content : BuiltInType → Type) where
  status : StatusCode
  cache : UaDataValue content
  told : Option (UaDataValue content)

/-- The same where a handler may have called the device logic. -/
structure DelegatedWrite (content : BuiltInType → Type) (Argument : Type) extends
    StoredWrite content where
  called : Option Argument

section SetValue

variable {content : BuiltInType → Type} {Argument : Type} (base : BaseDataVariableType content)
  (handler : Option (UaDataValue content → HandlerOutcome Argument))
  (session checkAccessLevel : Bool) (cache dataValue : UaDataValue content)

def ChangeNotifyingVariable.setValue : StoredWrite content :=
  let stored := base.setValue session checkAccessLevel cache dataValue
  { status := stored.1
    cache := stored.2
    told := if stored.1.isGood then some dataValue else none }

/-- The status of the base class is not looked at once the handler has approved. -/
def ASDelegatingVariable.setValue : DelegatedWrite content Argument :=
  let stored := ChangeNotifyingVariable.setValue base session checkAccessLevel cache dataValue
  match handler, session with
  | some write, true =>
      let outcome := write dataValue
      if outcome.status.isGood then
        { stored with status := outcome.status, called := outcome.called }
      else { status := outcome.status, cache := cache, told := none, called := outcome.called }
  | _, _ => { stored with called := none }

variable {base cache dataValue checkAccessLevel} {outcome : HandlerOutcome Argument}
  {write : UaDataValue content → HandlerOutcome Argument}

theorem ASDelegatingVariable.setValue_of_refused (houtcome : write dataValue = outcome)
    (h : outcome.status.isGood = false) :
    ASDelegatingVariable.setValue base (some write) true checkAccessLevel cache dataValue =
      { status := outcome.status, cache := cache, told := none, called := outcome.called } := by
  simp [ASDelegatingVariable.setValue, houtcome, h]

theorem ASDelegatingVariable.setValue_of_approved (houtcome : write dataValue = outcome)
    (h : outcome.status.isGood = true) :
    ASDelegatingVariable.setValue base (some write) true checkAccessLevel cache dataValue =
      { ChangeNotifyingVariable.setValue base true checkAccessLevel cache dataValue with
        status := outcome.status
        called := outcome.called } := by
  simp [ASDelegatingVariable.setValue, houtcome, h]

/-- The base class leaves the written value behind when it stores it, and when it was
there before. -/
theorem BaseDataVariableType.holds_iff (session : Bool) :
    (base.setValue session checkAccessLevel cache dataValue).2 = dataValue ↔
      (base.setValue session checkAccessLevel cache dataValue).1.isGood = true ∨
        cache = dataValue := by
  rcases hgood : (base.setValue session checkAccessLevel cache dataValue).1.isGood with _ | _
  · rw [base.keeps session checkAccessLevel cache dataValue hgood]
    simp
  · simp [base.stores session checkAccessLevel cache dataValue hgood]

end SetValue

end Quasar

end Supernova
