/-
Cache variables over whole runs: what their generated constructor leaves in them,
what the generated setters and client writes do to them afterwards, and what a
design promises of every state in between.
-/
import Supernova.CacheVariableWrites

namespace Supernova

namespace Quasar

section Constructor

variable {content : BuiltInType → Type}

def InitialStatus.code : InitialStatus → StatusCode
  | .good => StatusCode.opcUaGood
  | .bad => 0x80000000#32
  | .badWaitingForInitialData => 0x80320000#32

/-- What the configuration has for a variable: the value of a scalar, or the elements of an
array. -/
structure ConfiguredValue (content : BuiltInType → Type) where
  scalar : (type : BuiltInType) → content type
  elements : (type : BuiltInType) → List (content type)

/-- A write that the server makes itself, without a session. -/
def internalWrite (base : BaseDataVariableType content) (cache : UaDataValue content)
    (value : UaVariant content) (statusCode : StatusCode) : StoredWrite content :=
  ChangeNotifyingVariable.setValue base false false cache ⟨value, statusCode⟩

/-- The template takes an empty text for an absent one. -/
def initialVariant (literals : (type : BuiltInType) → Bytes → content type)
    (v : CacheVariableElement) : UaVariant content :=
  match v.initialValue with
  | none => .null
  | some [] => .null
  | some literal =>
      .scalar (dataTypeToBuiltinType v.dataType)
        (literals (dataTypeToBuiltinType v.dataType) literal)

variable (literals : (type : BuiltInType) → Bytes → content type)
  (configured : ConfiguredValue content) (base : BaseDataVariableType content)

/-- A new variable holds NULL until something is written to it. -/
def createCacheVariable (compiled : CompiledVariable) (unset : StatusCode) :
    UaDataValue content :=
  let v := compiled.element
  let type := dataTypeToBuiltinType v.dataType
  let created : UaDataValue content := ⟨.null, unset⟩
  match compiled.bounds, v.initializeWith with
  | none, .valueAndStatus =>
      (internalWrite base created (initialVariant literals v)
        (v.initialStatus.elim StatusCode.opcUaGood InitialStatus.code)).cache
  | none, .configuration =>
      (internalWrite base created (.scalar type (configured.scalar type))
        StatusCode.opcUaGood).cache
  | some _, _ =>
      if v.nullPolicy = .nullForbidden then
        (internalWrite base created (.array type [] (Nat.two_pow_pos 31)) StatusCode.opcUaGood).cache
      else created

def initializeArrayFromConfiguration (v : CacheVariableElement) (bounds : SizeBounds)
    (cache : UaDataValue content) : Except Bytes (UaDataValue content) :=
  let type := dataTypeToBuiltinType v.dataType
  let elements := configured.elements type
  if h : bounds.Contains elements.length then
    pure (internalWrite base cache (.array type elements h.lt) StatusCode.opcUaGood).cache
  else
    throw (text "Size of configuration data supplied to the constructor is out of bounds. " ++
      text "Size is " ++ decimal elements.length ++ text " and bounds are [" ++
      decimal bounds.minimum ++ text "," ++ decimal bounds.maximum ++ text "]")

/-- What the constructor leaves in the variable. -/
def construct (compiled : CompiledVariable) (unset : StatusCode) :
    Except Bytes (UaDataValue content) :=
  let created := createCacheVariable literals configured base compiled unset
  match compiled.bounds, compiled.element.initializeWith with
  | some bounds, .configuration =>
      initializeArrayFromConfiguration configured base compiled.element bounds created
  | _, _ => pure created

end Constructor

section Operations

variable {content : BuiltInType → Type}

/-- A call of a generated setter, or a write by a session. -/
inductive Operation (content : BuiltInType → Type)
  | set (value : NativeValue content) (statusCode : StatusCode)
  | setNull (statusCode : StatusCode)
  | write (dataValue : UaDataValue content)

/-- The size of the array that an operation asks to store. -/
def Operation.arraySize? : Operation content → Option Nat
  | .set (.vector _ xs) _ => some xs.length
  | .write ⟨.array _ xs _, _⟩ => some xs.length
  | _ => none

/-- The setter that the class has for the variable; it takes values of one type only. -/
def setter (base : BaseDataVariableType content) (compiled : CompiledVariable)
    (cache : UaDataValue content) (value : NativeValue content) (statusCode : StatusCode) :
    Option (StoredWrite content) :=
  match compiled.bounds, value with
  | none, .variant value =>
      if compiled.element.dataType = .uaVariant then
        some (internalWrite base cache value statusCode)
      else none
  | none, .scalar type x =>
      if compiled.element.dataType ≠ .uaVariant ∧
          type = dataTypeToBuiltinType compiled.element.dataType then
        some (internalWrite base cache (.scalar type x) statusCode)
      else none
  | some bounds, .vector type xs =>
      if type = dataTypeToBuiltinType compiled.element.dataType then
        if h : bounds.Contains xs.length then
          some (internalWrite base cache (.array type xs h.lt) statusCode)
        else some { status := StatusCode.badIndexRangeInvalid, cache := cache, told := none }
      else none
  | _, _ => none

/-- The class has a setter for NULL only where that is allowed. -/
def nullSetter (base : BaseDataVariableType content) (compiled : CompiledVariable)
    (cache : UaDataValue content) (statusCode : StatusCode) : Option (StoredWrite content) :=
  if compiled.element.nullPolicy = .nullAllowed then
    some (internalWrite base cache .null statusCode)
  else none

def operate (conversions : Conversions content) (deviceLink : NativeValue content → StatusCode)
    (deviceLogic : Bool) (base : BaseDataVariableType content) (compiled : CompiledVariable)
    (cache : UaDataValue content) : Operation content → Option (StoredWrite content)
  | .set value statusCode => setter base compiled cache value statusCode
  | .setNull statusCode => nullSetter base compiled cache statusCode
  | .write dataValue =>
      some (sessionWrite conversions deviceLink deviceLogic base compiled true cache
        dataValue).toStoredWrite

/-- A run from what the cache holds: its operations in order, with what each has left. The
device logic may answer each call differently. -/
inductive Runs (conversions : Conversions content) (deviceLogic : Bool)
    (base : BaseDataVariableType content) (compiled : CompiledVariable) :
    UaDataValue content → List (Operation content × StoredWrite content) → Prop
  | done (cache : UaDataValue content) : Runs conversions deviceLogic base compiled cache []
  | next {cache : UaDataValue content} {operation : Operation content}
      {written : StoredWrite content} {rest : List (Operation content × StoredWrite content)}
      (deviceLink : NativeValue content → StatusCode)
      (happened : operate conversions deviceLink deviceLogic base compiled cache operation =
        some written)
      (later : Runs conversions deviceLogic base compiled written.cache rest) :
      Runs conversions deviceLogic base compiled cache ((operation, written) :: rest)

end Operations

section Promises

variable {content : BuiltInType → Type}

/-- What is relied on from the base class of a variable: access is checked for sessions, and
the declared data type of a variable for every write. -/
structure Serves (base : BaseDataVariableType content) (v : CacheVariableElement) : Prop where
  denies : v.addressSpaceWrite = .forbidden → ∀ cache dataValue,
    (base.setValue true true cache dataValue).1.isGood = false
  refusesOthers : v.nullPolicy = .nullForbidden → ∀ cache dataValue,
    dataValue.value.type ≠ some (dataTypeToBuiltinType v.dataType) →
      (base.setValue true true cache dataValue).1.isGood = false
  storesOwn : v.nullPolicy = .nullForbidden → ∀ cache dataValue,
    dataValue.value.type = some (dataTypeToBuiltinType v.dataType) →
      (base.setValue false false cache dataValue).1.isGood = true

/-- What a design promises of a variable in a run. -/
structure Respects (v : CacheVariableElement) (first : UaDataValue content)
    (trace : List (Operation content × StoredWrite content)) : Prop where
  constructed : v.nullPolicy = .nullForbidden → first.value ≠ .null
  later : v.nullPolicy = .nullForbidden → ∀ entry ∈ trace, entry.2.cache.value ≠ .null
  sizes : ∀ entry ∈ trace, entry.2.status.isGood = true →
    ∀ size ∈ entry.1.arraySize?, WithinDesign v size

/-- The steps that keep these promises: no empty text initialises a variable that forbids
NULL, and the size of a written array is not one that the literals admit by mistake. -/
structure Faithful (v : CacheVariableElement)
    (trace : List (Operation content × StoredWrite content)) : Prop where
  initial : v.nullPolicy = .nullForbidden → v.initialValue ≠ some []
  sizes : ∀ entry ∈ trace, ∀ size ∈ entry.1.arraySize?, WithinLiterals v size →
    WithinDesign v size

end Promises

section Kept

variable {content : BuiltInType → Type} {conversions : Conversions content}
  {deviceLink : NativeValue content → StatusCode} {deviceLogic : Bool}
  {base : BaseDataVariableType content} {v : CacheVariableElement} {compiled : CompiledVariable}
  {cache dataValue : UaDataValue content} {value : UaVariant content} {status : StatusCode}

theorem BaseDataVariableType.stored_or_kept (session check : Bool)
    (cache dataValue : UaDataValue content) :
    (base.setValue session check cache dataValue).2 = dataValue ∨
      (base.setValue session check cache dataValue).2 = cache := by
  rcases hgood : (base.setValue session check cache dataValue).1.isGood with _ | _
  · exact .inr (base.keeps session check cache dataValue hgood)
  · exact .inl (base.stores session check cache dataValue hgood)

/-- Without NULL before and in the written value there is none afterwards. -/
theorem BaseDataVariableType.ne_null (session check : Bool) (hcache : cache.value ≠ .null)
    (hvalue : dataValue.value ≠ .null) :
    (base.setValue session check cache dataValue).2.value ≠ .null := by
  rcases base.stored_or_kept session check cache dataValue with h | h
  · rwa [h]
  · rwa [h]

theorem internalWrite_ne_null (hcache : cache.value ≠ .null) (hvalue : value ≠ .null) :
    (internalWrite base cache value status).cache.value ≠ .null :=
  base.ne_null false false hcache hvalue

/-- A value of the declared type is stored. -/
theorem internalWrite_own (hserves : Serves base v) (hforbidden : v.nullPolicy = .nullForbidden)
    (htype : value.type = some (dataTypeToBuiltinType v.dataType)) :
    (internalWrite base cache value status).cache.value = value := by
  have hgood := hserves.storesOwn hforbidden cache ⟨value, status⟩ htype
  have hstored := base.stores false false cache ⟨value, status⟩ hgood
  exact congrArg UaDataValue.value hstored

theorem createCacheVariable_ne_null {literals : (type : BuiltInType) → Bytes → content type}
    {configured : ConfiguredValue content} {unset : StatusCode} (hvariable : AcceptedVariable v)
    (hserves : Serves base v) (hforbidden : v.nullPolicy = .nullForbidden)
    (hinitial : v.initialValue ≠ some []) {bounds : Option SizeBounds} :
    (createCacheVariable literals configured base ⟨v, bounds⟩ unset).value ≠ .null := by
  rcases bounds with _ | bounds
  · rcases hwith : v.initializeWith with _ | _
    · simp only [createCacheVariable, hwith]
      rw [internalWrite_own hserves hforbidden rfl]
      simp
    · have hvalue := hvariable.valueIfForbidden hwith hforbidden
      rcases htext : v.initialValue with _ | (_ | ⟨head, tail⟩)
      · exact absurd htext hvalue
      · exact absurd htext hinitial
      · simp only [createCacheVariable, hwith, initialVariant, htext]
        rw [internalWrite_own hserves hforbidden rfl]
        simp
  · simp only [createCacheVariable, if_pos hforbidden]
    rw [internalWrite_own hserves hforbidden rfl]
    simp

theorem construct_ne_null {literals : (type : BuiltInType) → Bytes → content type}
    {configured : ConfiguredValue content} {unset : StatusCode} (hvariable : AcceptedVariable v)
    (hserves : Serves base v) (hforbidden : v.nullPolicy = .nullForbidden)
    (hinitial : v.initialValue ≠ some []) {bounds : Option SizeBounds}
    (h : construct literals configured base ⟨v, bounds⟩ unset = .ok cache) :
    cache.value ≠ .null := by
  have hcreated : (createCacheVariable literals configured base ⟨v, bounds⟩ unset).value ≠ .null :=
    createCacheVariable_ne_null hvariable hserves hforbidden hinitial
  rcases bounds with _ | bounds
  · rw [← except_pure_eq_ok.1 h]
    exact hcreated
  · rcases hwith : v.initializeWith with _ | _
    · simp only [construct, hwith, initializeArrayFromConfiguration] at h
      split_ifs at h with hcontains
      · rw [← except_pure_eq_ok.1 h, internalWrite_own hserves hforbidden rfl]
        simp
    · simp only [construct, hwith] at h
      rw [← except_pure_eq_ok.1 h]
      exact hcreated

theorem setter_ne_null (hvariable : AcceptedVariable v)
    (hforbidden : v.nullPolicy = .nullForbidden) (hcache : cache.value ≠ .null)
    {bounds : Option SizeBounds} {value : NativeValue content} {written : StoredWrite content}
    (h : setter base ⟨v, bounds⟩ cache value status = some written) :
    written.cache.value ≠ .null := by
  rcases bounds with _ | bounds
  · cases value with
    | variant value =>
        obtain ⟨hvariant, -⟩ := Option.ite_none_right_eq_some.mp h
        exact absurd (hvariable.nullAllowed hvariant) (nullForbidden_iff.1 hforbidden)
    | scalar type x =>
        obtain ⟨-, h⟩ := Option.ite_none_right_eq_some.mp h
        rw [← Option.some.inj h]
        exact internalWrite_ne_null hcache (by simp)
    | vector => cases h
  · cases value with
    | variant => cases h
    | scalar => cases h
    | vector type xs =>
        obtain ⟨-, h⟩ := Option.ite_none_right_eq_some.mp h
        split_ifs at h with hcontains
        · rw [← Option.some.inj h]
          exact internalWrite_ne_null hcache (by simp)
        · rw [← Option.some.inj h]
          exact hcache

theorem checkDataType_of_checkWrite {bounds : Option SizeBounds} {u : Unit}
    (h : checkWrite ⟨v, bounds⟩ value = .ok u) : checkDataType v value = .ok u := by
  rcases bounds with _ | bounds
  · exact h
  · exact (checkWrite_array.1 h).2

theorem ne_null_of_checkDataType (hvariable : AcceptedVariable v)
    (hforbidden : v.nullPolicy = .nullForbidden) {u : Unit}
    (h : checkDataType v value = .ok u) : value ≠ .null := by
  rintro rfl
  rcases checkDataType_eq_ok.1 h with hvariant | htype | ⟨-, hallowed⟩
  · exact nullForbidden_iff.1 hforbidden (hvariable.nullAllowed hvariant)
  · cases htype
  · exact nullForbidden_iff.1 hforbidden hallowed

/-- A handler approves only what has passed its checks. -/
theorem checkWrite_of_approved
    (h : (writeDelegate conversions deviceLink deviceLogic compiled dataValue).status.isGood = true) :
    checkWrite compiled dataValue.value = .ok ⟨⟩ := by
  rcases hcheck : checkWrite compiled dataValue.value with status | _
  · simp only [writeDelegate, hcheck] at h
    exact absurd ((isGood_of_checkWrite hcheck).symm.trans h) Bool.false_ne_true
  · rfl

/-- A write by a session is checked and stored, or refused, or left to the base class. -/
theorem sessionWrite_cases {check : Bool}
    {written : DelegatedWrite content (NativeValue content)}
    (h : sessionWrite conversions deviceLink deviceLogic base compiled check cache dataValue =
      written) :
    (checkWrite compiled dataValue.value = .ok ⟨⟩ ∧
      written.cache = (base.setValue true check cache dataValue).2) ∨
    (written.status.isGood = false ∧ written.cache = cache) ∨
    (¬HasHandler compiled.element ∧
      written.status = (base.setValue true check cache dataValue).1 ∧
      written.cache = (base.setValue true check cache dataValue).2) := by
  subst h
  by_cases hhandler : HasHandler compiled.element
  · rw [sessionWrite, assignedHandler, if_pos hhandler]
    rcases hgood : (writeDelegate conversions deviceLink deviceLogic compiled
        dataValue).status.isGood with _ | _
    · rw [ASDelegatingVariable.setValue_of_refused rfl hgood]
      exact .inr (.inl ⟨hgood, rfl⟩)
    · rw [ASDelegatingVariable.setValue_of_approved rfl hgood]
      exact .inl ⟨checkWrite_of_approved hgood, rfl⟩
  · rw [sessionWrite, assignedHandler, if_neg hhandler]
    exact .inr (.inr ⟨hhandler, rfl, rfl⟩)

theorem sessionWrite_ne_null (hvariable : AcceptedVariable v) (hserves : Serves base v)
    (hforbidden : v.nullPolicy = .nullForbidden) (hcache : cache.value ≠ .null)
    {bounds : Option SizeBounds} {written : DelegatedWrite content (NativeValue content)}
    (h : sessionWrite conversions deviceLink deviceLogic base ⟨v, bounds⟩ true cache dataValue =
      written) : written.cache.value ≠ .null := by
  rcases sessionWrite_cases h with ⟨hcheck, hwritten⟩ | ⟨-, hkept⟩ | ⟨-, -, hwritten⟩
  · have hvalue := ne_null_of_checkDataType hvariable hforbidden (checkDataType_of_checkWrite hcheck)
    rw [hwritten]
    exact base.ne_null true true hcache hvalue
  · rw [hkept]
    exact hcache
  · rw [hwritten]
    by_cases hnull : dataValue.value = .null
    · have hrefused := hserves.refusesOthers hforbidden cache dataValue (by simp [hnull, UaVariant.type])
      rw [base.keeps true true cache dataValue hrefused]
      exact hcache
    · exact base.ne_null true true hcache hnull

/-- No step puts NULL into a variable that forbids it. -/
theorem operate_ne_null (hvariable : AcceptedVariable v) (hserves : Serves base v)
    (hforbidden : v.nullPolicy = .nullForbidden) (hcache : cache.value ≠ .null)
    {bounds : Option SizeBounds} {operation : Operation content} {written : StoredWrite content}
    (h : operate conversions deviceLink deviceLogic base ⟨v, bounds⟩ cache operation =
      some written) : written.cache.value ≠ .null := by
  cases operation with
  | set value status => exact setter_ne_null hvariable hforbidden hcache h
  | setNull status =>
      obtain ⟨hallowed, -⟩ := Option.ite_none_right_eq_some.mp h
      exact absurd hallowed (nullForbidden_iff.1 hforbidden)
  | write dataValue =>
      cases h
      exact sessionWrite_ne_null hvariable hserves hforbidden hcache rfl

theorem runs_ne_null (hvariable : AcceptedVariable v) (hserves : Serves base v)
    (hforbidden : v.nullPolicy = .nullForbidden) {bounds : Option SizeBounds}
    {trace : List (Operation content × StoredWrite content)} (hcache : cache.value ≠ .null)
    (h : Runs conversions deviceLogic base ⟨v, bounds⟩ cache trace) :
    ∀ entry ∈ trace, entry.2.cache.value ≠ .null := by
  induction h with
  | done => exact fun _ hnone => absurd hnone List.not_mem_nil
  | next deviceLink happened _ ih =>
      have hwritten := operate_ne_null hvariable hserves hforbidden hcache happened
      exact List.forall_mem_cons.mpr ⟨hwritten, ih hwritten⟩

/-- An array that is accepted from a session has a size within the literals. -/
theorem withinLiterals_of_sessionWrite (hserves : Serves base v)
    (hcompile : compile v = some compiled) {written : DelegatedWrite content (NativeValue content)}
    (h : sessionWrite conversions deviceLink deviceLogic base compiled true cache dataValue =
      written) (hgood : written.status.isGood = true) :
    WithinLiterals v dataValue.value.length := by
  rcases compile_cases hcompile with ⟨hnone, rfl⟩ | ⟨array, bounds, hsome, hbounds, -, rfl⟩
  · simp [WithinLiterals, hnone]
  · rcases sessionWrite_cases h with ⟨hcheck, -⟩ | ⟨hbad, -⟩ | ⟨hhandler, hstatus, -⟩
    · have hcontains := (checkWrite_array.1 hcheck).1.2
      simpa [WithinLiterals, hsome, hbounds] using hcontains
    · exact absurd (hbad.symm.trans hgood) Bool.false_ne_true
    · -- An array variable without a handler is one that cannot be written.
      have hdenied : v.addressSpaceWrite = .forbidden := by
        rcases hwrite : v.addressSpaceWrite with _ | _ | _
        · rfl
        · exact absurd (.inl hwrite) hhandler
        · exact absurd (.inr ⟨by rw [hsome, Option.isSome_some], hwrite⟩) hhandler
      rw [hstatus, hserves.denies hdenied cache dataValue] at hgood
      cases hgood

theorem withinLiterals_of_setter {type : BuiltInType} {xs : List (content type)}
    (hcompile : compile v = some compiled) {written : StoredWrite content}
    (h : setter base compiled cache (.vector type xs) status = some written)
    (hgood : written.status.isGood = true) : WithinLiterals v xs.length := by
  rcases compile_cases hcompile with ⟨-, rfl⟩ | ⟨array, bounds, hsome, hbounds, -, rfl⟩
  · cases h
  · obtain ⟨-, h⟩ := Option.ite_none_right_eq_some.mp h
    split_ifs at h with hcontains
    · simpa [WithinLiterals, hsome, hbounds] using hcontains
    · rw [← Option.some.inj h] at hgood
      simp at hgood

/-- No step accepts an array of another size than the literals let through. -/
theorem withinLiterals_of_operate (hserves : Serves base v) (hcompile : compile v = some compiled)
    {operation : Operation content} {written : StoredWrite content}
    (h : operate conversions deviceLink deviceLogic base compiled cache operation = some written)
    (hgood : written.status.isGood = true) :
    ∀ size ∈ operation.arraySize?, WithinLiterals v size := by
  intro size hsize
  cases operation with
  | set value status =>
      cases value with
      | variant => cases hsize
      | scalar => cases hsize
      | vector type xs =>
          cases hsize
          exact withinLiterals_of_setter hcompile h hgood
  | setNull => cases hsize
  | write dataValue =>
      obtain ⟨_ | _ | ⟨type, xs, length_lt⟩, statusCode⟩ := dataValue
      · cases hsize
      · cases hsize
      · cases hsize
        cases h
        exact withinLiterals_of_sessionWrite hserves hcompile rfl hgood

theorem runs_withinLiterals (hserves : Serves base v) (hcompile : compile v = some compiled)
    {trace : List (Operation content × StoredWrite content)}
    (h : Runs conversions deviceLogic base compiled cache trace) :
    ∀ entry ∈ trace, entry.2.status.isGood = true →
      ∀ size ∈ entry.1.arraySize?, WithinLiterals v size := by
  induction h with
  | done => exact fun _ hnone => absurd hnone List.not_mem_nil
  | next deviceLink happened _ ih =>
      exact List.forall_mem_cons.mpr
        ⟨fun hgood => withinLiterals_of_operate hserves hcompile happened hgood, ih⟩

end Kept

section Design

variable {content : BuiltInType → Type} {conversions : Conversions content}
  {base : BaseDataVariableType content} {c : ClassElement} {v : CacheVariableElement}
  {compiled : CompiledVariable} {first : UaDataValue content}
  {trace : List (Operation content × StoredWrite content)}

/-- Every run whose steps are faithful keeps the promises of the design. -/
theorem cacheVariable_respects_design {numbers : NumberLiterals}
    {locator : ClassElement → CacheVariableElement → Bytes} {classes : List ClassElement}
    (haccepted : validateCacheVariables numbers locator classes = .ok ⟨⟩) (hc : c ∈ classes)
    (hv : v ∈ c.cacheVariables) (hcompile : compile v = some compiled) (hserves : Serves base v)
    {literals : (type : BuiltInType) → Bytes → content type}
    {configured : ConfiguredValue content} {unset : StatusCode}
    (hconstruct : construct literals configured base compiled unset = .ok first)
    (hruns : Runs conversions c.deviceLogic base compiled first trace)
    (hfaithful : Faithful v trace) : Respects v first trace := by
  have hvariable := acceptedVariable_of_validate (validateCacheVariable_of_design haccepted hc hv)
  have hbounds : ∃ bounds, compiled = ⟨v, bounds⟩ := by
    rcases compile_cases hcompile with ⟨-, rfl⟩ | ⟨_, bounds, -, -, -, rfl⟩
    · exact ⟨none, rfl⟩
    · exact ⟨some bounds, rfl⟩
  obtain ⟨bounds, rfl⟩ := hbounds
  have hconstructed : v.nullPolicy = .nullForbidden → first.value ≠ .null := fun hforbidden =>
    construct_ne_null hvariable hserves hforbidden (hfaithful.initial hforbidden) hconstruct
  refine ⟨hconstructed, ?_, ?_⟩
  · intro hforbidden
    exact runs_ne_null hvariable hserves hforbidden (hconstructed hforbidden) hruns
  · intro entry hentry hgood size hsize
    exact hfaithful.sizes entry hentry size hsize
      (runs_withinLiterals hserves hcompile hruns entry hentry hgood size hsize)

/-- Sessions can store values of one type only. -/
def typedBase (type : BuiltInType) : BaseDataVariableType fun _ => Int where
  setValue session _ cache dataValue :=
    if session = true ∧ dataValue.value.type ≠ some type then (StatusCode.badTypeMismatch, cache)
    else (StatusCode.opcUaGood, dataValue)
  stores _ _ _ _ h := by
    split_ifs at h ⊢ with hother
    · simp at h
    · rfl
  keeps _ _ _ _ h := by
    split_ifs at h ⊢ with hother
    · rfl
    · simp at h

theorem typedBase_serves {type : BuiltInType} (htype : dataTypeToBuiltinType v.dataType = type)
    (hwrite : v.addressSpaceWrite ≠ .forbidden) : Serves (typedBase type) v := by
  subst htype
  refine ⟨fun hforbidden => absurd hforbidden hwrite, ?_, ?_⟩
  · intro _ cache dataValue hother
    simp [typedBase, hother]
  · intro _ cache dataValue _
    simp [typedBase]

/-- A text that must not be NULL, with its initial value. -/
def labelVariable (initialValue : Bytes) : CacheVariableElement where
  name := text "label"
  addressSpaceWrite := .regular
  dataType := .uaString
  initializeWith := .valueAndStatus
  initialValue := some initialValue
  initialStatus := some .good
  nullPolicy := .nullForbidden
  defaultConfigInitializerValue := none
  array := none

def displayClass (initialValue : Bytes) : ClassElement where
  name := text "Display"
  deviceLogic := false
  cacheVariables := [labelVariable initialValue]

/-- A session tries to write NULL. -/
theorem cacheVariable_respects_design_label :
    Respects (labelVariable [111, 110]) (integerDataValue (.scalar .string 2))
      [(.write (integerDataValue .null),
        ⟨StatusCode.badTypeMismatch, integerDataValue (.scalar .string 2), none⟩)] := by
  have haccepted : validateCacheVariables ⟨fun _ => false, fun _ => none⟩ (fun _ _ => [])
      [displayClass [111, 110]] = .ok ⟨⟩ := rfl
  have hserves : Serves (typedBase .string) (labelVariable [111, 110]) :=
    typedBase_serves rfl (by decide)
  have hconstruct : construct (fun _ literal => (literal.length : Int)) ⟨fun _ => 0, fun _ => []⟩
      (typedBase .string) ⟨labelVariable [111, 110], none⟩ StatusCode.opcUaGood =
      .ok (integerDataValue (.scalar .string 2)) := rfl
  have hruns : Runs integerConversions (displayClass [111, 110]).deviceLogic (typedBase .string)
      ⟨labelVariable [111, 110], none⟩ (integerDataValue (.scalar .string 2))
      [(.write (integerDataValue .null),
        ⟨StatusCode.badTypeMismatch, integerDataValue (.scalar .string 2), none⟩)] :=
    .next (fun _ => StatusCode.opcUaGood) rfl (.done _)
  exact cacheVariable_respects_design haccepted (List.mem_singleton_self _)
    (List.mem_singleton_self _) rfl hserves hconstruct hruns
    ⟨fun _ => by decide, by simp [Operation.arraySize?, integerDataValue]⟩

/-- An empty text for its initial value leaves NULL in a variable that forbids it. -/
theorem emptyLabel_holds_null :
    validateCacheVariables ⟨fun _ => false, fun _ => none⟩ (fun _ _ => []) [displayClass []] =
      .ok ⟨⟩ ∧ (labelVariable []).nullPolicy = .nullForbidden ∧
    Serves (typedBase .string) (labelVariable []) ∧
    construct (fun _ literal => (literal.length : Int)) ⟨fun _ => 0, fun _ => []⟩ (typedBase .string)
      ⟨labelVariable [], none⟩ StatusCode.opcUaGood = .ok (integerDataValue .null) ∧
    ¬Respects (labelVariable []) (integerDataValue .null) [] :=
  ⟨rfl, rfl, typedBase_serves rfl (by decide), rfl, fun h => h.constructed rfl rfl⟩

end Design

end Quasar

end Supernova
