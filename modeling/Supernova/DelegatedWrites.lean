/-
What the handler of a cache variable makes of a client write, against what the
design says of it: which writes are passed on to the device logic as they were
written and end up in the cache exactly when they succeed.
-/
import Supernova.CacheVariableWrites

namespace Supernova

namespace Quasar

section Writes

variable {content : BuiltInType → Type} {conversions : Conversions content}
  {deviceLink : NativeValue content → StatusCode} {deviceLogic : Bool}
  {base : BaseDataVariableType content} {v : CacheVariableElement} {compiled : CompiledVariable}
  {checkAccessLevel : Bool} {cache dataValue : UaDataValue content} {value : UaVariant content}
  {u : Unit}

/-- Only what the handler has done decides whether a write is passed on. -/
theorem passesOn_iff_outcome (hhandler : HasHandler compiled.element)
    {outcome : HandlerOutcome (NativeValue content)}
    (houtcome : writeDelegate conversions deviceLink deviceLogic compiled dataValue = outcome) :
    PassesOn compiled cache dataValue (sessionWrite conversions deviceLink deviceLogic base
      compiled checkAccessLevel cache dataValue) ↔
      (∀ argument ∈ outcome.called,
        designedArgument compiled.element dataValue.value = some argument ∧
          WithinDesign compiled.element dataValue.value.length) ∧
      (dataValue.value = .null → (checkWrite compiled dataValue.value = .ok ⟨⟩ ↔
        compiled.element.nullPolicy = .nullAllowed)) ∧
      (outcome.status.isGood = true →
        (base.setValue true checkAccessLevel cache dataValue).1.isGood = true ∨
          cache = dataValue) := by
  rw [sessionWrite, assignedHandler, if_pos hhandler]
  rcases hgood : outcome.status.isGood with _ | _
  · rw [ASDelegatingVariable.setValue_of_refused houtcome hgood]
    constructor
    · intro h
      exact ⟨h.called, h.null, fun himpossible => absurd himpossible Bool.false_ne_true⟩
    · rintro ⟨hcalled, hnull, -⟩
      exact ⟨hcalled, hnull, fun himpossible => absurd (hgood.symm.trans himpossible) (by decide),
        fun _ => rfl⟩
  · rw [ASDelegatingVariable.setValue_of_approved houtcome hgood, ← base.holds_iff]
    constructor
    · intro h
      exact ⟨h.called, h.null, fun _ => h.stored hgood⟩
    · rintro ⟨hcalled, hnull, hstored⟩
      exact ⟨hcalled, hnull, fun _ => hstored rfl,
        fun himpossible => absurd (hgood.symm.trans himpossible) (by decide)⟩

theorem scalarArgument_designed {dataType : DataType} (hvariant : dataType ≠ .uaVariant)
    (x : content (dataTypeToBuiltinType dataType)) :
    scalarArgument conversions dataType (.scalar (dataTypeToBuiltinType dataType) x) =
      .scalar (dataTypeToBuiltinType dataType) x := by
  rw [scalarArgument, if_neg hvariant]
  split_ifs with hstring
  · subst hstring
    exact congrArg (NativeValue.scalar _) (conversions.toString_eq x)
  · simp only [conversions.scalar_eq]

/-- A value of the designed type reaches the device logic of a scalar as it is. -/
theorem scalarArgument_of_designed (harray : v.array = none) {argument : NativeValue content}
    (h : designedArgument v value = some argument) :
    scalarArgument conversions v.dataType value = argument := by
  rw [designedArgument, harray, Option.isSome_none, if_neg Bool.false_ne_true] at h
  split_ifs at h with hvariant
  · rw [scalarArgument, if_pos hvariant]
    exact Option.some.inj h
  · cases value with
    | null => cases h
    | scalar type x =>
        obtain ⟨htype, h⟩ := Option.ite_none_right_eq_some.mp h
        subst htype
        rw [scalarArgument_designed hvariant]
        exact Option.some.inj h
    | array => cases h

/-- What a scalar variable lets through matches its design, NULL and arrays of the designed
type apart. -/
theorem designedArgument_isSome_iff (harray : v.array = none)
    (hcheck : checkDataType v value = .ok u) : (designedArgument v value).isSome = true ↔
      v.dataType = .uaVariant ∨ value ≠ .null ∧
        ∀ xs length_lt, value ≠ .array (dataTypeToBuiltinType v.dataType) xs length_lt := by
  rw [designedArgument, harray, Option.isSome_none, if_neg Bool.false_ne_true]
  split_ifs with hvariant
  · simp [hvariant]
  · rcases checkDataType_eq_ok.1 hcheck with himpossible | htype | ⟨htype, -⟩
    · exact absurd himpossible hvariant
    · cases value with
      | null => cases htype
      | scalar type x =>
          cases htype
          simp [designedScalar]
      | array type xs length_lt =>
          cases htype
          simpa [designedScalar, hvariant] using length_lt
    · cases value with
      | null => simp [designedScalar, hvariant]
      | scalar => cases htype
      | array => cases htype

/-- The checks of a scalar variable let NULL through where it is allowed. -/
theorem checkDataType_null (haccepted : AcceptedVariable v) :
    checkDataType v (.null : UaVariant content) = .ok u ↔ v.nullPolicy = .nullAllowed := by
  rw [checkDataType_eq_ok]
  constructor
  · rintro (hvariant | htype | ⟨-, hallowed⟩)
    · exact haccepted.nullAllowed hvariant
    · cases htype
    · exact hallowed
  · exact fun hallowed => .inr (.inr ⟨rfl, hallowed⟩)

/-- Values of the designed type pass the check of the data type. -/
theorem checkDataType_of_designed {argument : NativeValue content}
    (h : designedArgument v value = some argument) : checkDataType v value = .ok ⟨⟩ := by
  rw [checkDataType_eq_ok]
  rw [designedArgument] at h
  split_ifs at h with harray hvariant
  · cases value with
    | null => cases h
    | scalar => cases h
    | array type xs length_lt =>
        obtain ⟨hvariant | htype, -⟩ := Option.ite_none_right_eq_some.mp h
        · exact .inl hvariant
        · exact .inr (.inl (congrArg some htype))
  · exact .inl hvariant
  · cases value with
    | null => cases h
    | scalar type x =>
        obtain ⟨htype, -⟩ := Option.ite_none_right_eq_some.mp h
        exact .inr (.inl (congrArg some htype))
    | array => cases h

theorem withinDesign_scalar (harray : v.array = none) {size : Nat} : WithinDesign v size := by
  simp [WithinDesign, harray]

theorem withinLiterals_scalar (harray : v.array = none) {size : Nat} :
    WithinLiterals v size := by
  simp [WithinLiterals, harray]

/-- A refused write was neither NULL where that is allowed nor of the designed type. -/
theorem passable_of_refused (haccepted : AcceptedVariable v) (harray : v.array = none)
    (hrefused : checkDataType v dataValue.value ≠ .ok ⟨⟩) :
    Passable deviceLink deviceLogic base v checkAccessLevel cache dataValue := by
  refine ⟨by simp [compile, harray], ?_, ?_, fun _ _ _ _ => withinDesign_scalar harray, ?_⟩
  · intro hvalue
    refine .inl (nullForbidden_iff.2 fun hallowed => hrefused ?_)
    rw [hvalue]
    exact (checkDataType_null haccepted).mpr hallowed
  · intro _ _ _ xs length_lt hvalue
    refine hrefused (checkDataType_eq_ok.2 (.inr (.inl ?_)))
    rw [hvalue]
    rfl
  · intro argument hargument
    exact absurd (checkDataType_of_designed hargument) hrefused

theorem passable_of_unanswered (harray : v.array = none)
    (hdelegated : v.addressSpaceWrite = .delegated) :
    Passable deviceLink false base v checkAccessLevel cache dataValue := by
  refine ⟨by simp [compile, harray], fun _ => .inr ⟨harray, .inr rfl⟩, ?_,
    fun _ _ _ _ => withinDesign_scalar harray, ?_⟩
  · exact fun _ _ himpossible => absurd himpossible Bool.false_ne_true
  · exact fun _ _ _ hlink => absurd (hlink hdelegated).1 Bool.false_ne_true

/-- Where the device logic is called, what it is called with has to be the written value. -/
theorem passable_called_iff (harray : v.array = none)
    (hdelegated : v.addressSpaceWrite = .delegated)
    (hcheck : checkDataType v dataValue.value = .ok u) {argument : NativeValue content}
    (hargument : scalarArgument conversions v.dataType dataValue.value = argument) :
    Passable deviceLink true base v checkAccessLevel cache dataValue ↔
      designedArgument v dataValue.value = some argument ∧
        ((deviceLink argument).isGood = true →
          (base.setValue true checkAccessLevel cache dataValue).1.isGood = true ∨
            cache = dataValue) := by
  have hsome := designedArgument_isSome_iff harray hcheck
  constructor
  · intro h
    have hdesigned : (designedArgument v dataValue.value).isSome = true := by
      by_cases hvariant : v.dataType = .uaVariant
      · exact hsome.mpr (.inl hvariant)
      · refine hsome.mpr (.inr ⟨?_, h.rank harray hvariant rfl⟩)
        intro hvalue
        rcases checkDataType_eq_ok.1 hcheck with himpossible | htype | ⟨-, hallowed⟩
        · exact hvariant himpossible
        · rw [hvalue] at htype
          cases htype
        · rcases h.null hvalue with hforbidden | ⟨-, himpossible | himpossible⟩
          · exact nullForbidden_iff.1 hforbidden hallowed
          · exact hvariant himpossible
          · cases himpossible
    obtain ⟨designed, hdesigned⟩ := Option.isSome_iff_exists.mp hdesigned
    cases (scalarArgument_of_designed harray hdesigned).symm.trans hargument
    exact ⟨hdesigned, fun hgood =>
      h.storable _ hdesigned (withinLiterals_scalar harray) fun _ => ⟨rfl, hgood⟩⟩
  · rintro ⟨hdesigned, hstored⟩
    have hmatches := hsome.mp (Option.isSome_iff_exists.mpr ⟨_, hdesigned⟩)
    refine ⟨by simp [compile, harray], ?_, ?_, fun _ _ _ _ => withinDesign_scalar harray, ?_⟩
    · intro hvalue
      rcases hmatches with hvariant | ⟨hvalued, -⟩
      · exact .inr ⟨harray, .inl hvariant⟩
      · exact absurd hvalue hvalued
    · intro _ hvariant _
      rcases hmatches with himpossible | ⟨-, hrank⟩
      · exact absurd himpossible hvariant
      · exact hrank
    · intro designed hdesigned' _ hlink
      cases hdesigned.symm.trans hdesigned'
      exact hstored (hlink hdelegated).2

theorem passesOn_scalar_iff (haccepted : AcceptedVariable v) (harray : v.array = none)
    (hdelegated : v.addressSpaceWrite = .delegated) :
    PassesOn ⟨v, none⟩ cache dataValue (sessionWrite conversions deviceLink deviceLogic base
      ⟨v, none⟩ checkAccessLevel cache dataValue) ↔
      Passable deviceLink deviceLogic base v checkAccessLevel cache dataValue := by
  have hnull : dataValue.value = .null → (checkWrite ⟨v, none⟩ dataValue.value = .ok ⟨⟩ ↔
      v.nullPolicy = .nullAllowed) := by
    intro hnull
    rw [hnull, checkWrite_scalar]
    exact checkDataType_null haccepted
  have hregular : ¬v.addressSpaceWrite = .regular := by
    rw [hdelegated]
    decide
  rcases hcheck : checkDataType v dataValue.value with status | _
  · have houtcome : writeDelegate conversions deviceLink deviceLogic ⟨v, none⟩ dataValue =
        ⟨none, status⟩ := by
      rw [writeDelegate, checkWrite_scalar, hcheck]
    have hstatus := isGood_of_checkDataType hcheck
    rw [passesOn_iff_outcome (.inl hdelegated) houtcome]
    refine iff_of_true ⟨?_, hnull, ?_⟩ (passable_of_refused haccepted harray ?_)
    · exact fun _ hnone => (Option.not_mem_none _ hnone).elim
    · exact fun hgood => absurd (hstatus.symm.trans hgood) (by decide)
    · intro hok
      cases hcheck.symm.trans hok
  · have hargument : writeArgument conversions v dataValue.value =
        .ok (scalarArgument conversions v.dataType dataValue.value) := by
      rw [writeArgument, harray, Option.isSome_none, if_neg Bool.false_ne_true]
    rcases deviceLogic with _ | _
    · have houtcome : writeDelegate conversions deviceLink false ⟨v, none⟩ dataValue =
          ⟨none, StatusCode.badNotImplemented⟩ := by
        simp only [writeDelegate, checkWrite_scalar, hcheck, if_neg hregular, hargument,
          if_neg Bool.false_ne_true]
      rw [passesOn_iff_outcome (.inl hdelegated) houtcome]
      refine iff_of_true ⟨?_, hnull, ?_⟩ (passable_of_unanswered harray hdelegated)
      · exact fun _ hnone => (Option.not_mem_none _ hnone).elim
      · simp
    · have houtcome : writeDelegate conversions deviceLink true ⟨v, none⟩ dataValue =
          ⟨some (scalarArgument conversions v.dataType dataValue.value),
            deviceLink (scalarArgument conversions v.dataType dataValue.value)⟩ := by
        simp only [writeDelegate, checkWrite_scalar, hcheck, if_neg hregular, hargument, if_true]
      rw [passesOn_iff_outcome (.inl hdelegated) houtcome,
        passable_called_iff harray hdelegated hcheck rfl]
      constructor
      · rintro ⟨hcalled, -, hstored⟩
        exact ⟨(hcalled _ rfl).1, hstored⟩
      · rintro ⟨hdesigned, hstored⟩
        refine ⟨?_, hnull, hstored⟩
        intro argument hargument
        cases Option.mem_some_iff.mp hargument
        exact ⟨hdesigned, withinDesign_scalar harray⟩

/-- An array variable lets arrays of the designed type through, of a size within the
literals. -/
theorem checkWrite_array_designed {array : ArrayElement} {bounds : SizeBounds}
    (harray : v.array = some array) (hbounds : array.literalBounds = some bounds) :
    checkWrite ⟨v, some bounds⟩ value = .ok u ↔
      (designedArgument v value).isSome = true ∧ WithinLiterals v value.length := by
  have hliterals : WithinLiterals v value.length ↔ bounds.Contains value.length := by
    simp [WithinLiterals, harray, hbounds]
  rw [checkWrite_array, hliterals, checkDataType_eq_ok, designedArgument, harray,
    Option.isSome_some, if_pos rfl]
  cases value with
  | null => simp [UaVariant.isArray, designedVector]
  | scalar => simp [UaVariant.isArray, designedVector]
  | array type xs length_lt =>
      by_cases htype : v.dataType = .uaVariant ∨ type = dataTypeToBuiltinType v.dataType
      · simp [UaVariant.isArray, designedVector, UaVariant.type, htype]
      · simp [UaVariant.isArray, designedVector, UaVariant.type, htype]

theorem writeArgument_of_designed {argument : NativeValue content}
    (harray : v.array.isSome = true) (hvariant : v.dataType ≠ .uaVariant)
    (hdesigned : designedArgument v value = some argument) :
    writeArgument conversions v value = .ok argument := by
  rw [designedArgument, if_pos harray] at hdesigned
  rw [writeArgument, if_pos harray]
  cases value with
  | null => cases hdesigned
  | scalar => cases hdesigned
  | array type xs length_lt =>
      obtain ⟨himpossible | htype, heq⟩ := Option.ite_none_right_eq_some.mp hdesigned
      · exact absurd himpossible hvariant
      · cases heq
        subst htype
        rw [conversions.vector_eq]
        rfl

/-- An array variable never lets NULL through. -/
theorem null_array_iff {bounds : SizeBounds} :
    (dataValue.value = .null → (checkWrite ⟨v, some bounds⟩ dataValue.value = .ok ⟨⟩ ↔
      v.nullPolicy = .nullAllowed)) ↔
      (dataValue.value = .null → v.nullPolicy = .nullForbidden) := by
  refine imp_congr_right fun hvalue => ?_
  have hrefused : checkWrite ⟨v, some bounds⟩ dataValue.value ≠ .ok ⟨⟩ := by
    rw [hvalue]
    intro hok
    cases (checkWrite_array.1 hok).1.1
  rw [nullForbidden_iff, iff_false_left hrefused]

/-- For an array only values that its handler lets through ask for more. -/
theorem passable_array_iff {array : ArrayElement} (hcompiles : (compile v).isSome = true)
    (harray : v.array = some array) :
    Passable deviceLink deviceLogic base v checkAccessLevel cache dataValue ↔
      (dataValue.value = .null → v.nullPolicy = .nullForbidden) ∧
      ∀ argument ∈ designedArgument v dataValue.value, WithinLiterals v dataValue.value.length →
        (v.addressSpaceWrite = .delegated → deviceLogic = true →
          WithinDesign v dataValue.value.length) ∧
        ((v.addressSpaceWrite = .delegated → deviceLogic = true ∧
            (deviceLink argument).isGood = true) →
          (base.setValue true checkAccessLevel cache dataValue).1.isGood = true ∨
            cache = dataValue) := by
  have hranked : v.array ≠ none := by simp [harray]
  constructor
  · intro h
    refine ⟨?_, ?_⟩
    · intro hvalue
      rcases h.null hvalue with hforbidden | ⟨himpossible, -⟩
      · exact hforbidden
      · exact absurd himpossible hranked
    · intro argument hargument hliterals
      have hsome := Option.isSome_iff_exists.mpr ⟨argument, hargument⟩
      exact ⟨fun hdelegated hlogic => h.sizes hdelegated hlogic hsome hliterals,
        h.storable argument hargument hliterals⟩
  · rintro ⟨hnull, hmatching⟩
    refine ⟨hcompiles, fun hvalue => .inl (hnull hvalue), ?_, ?_, ?_⟩
    · exact fun himpossible => absurd himpossible hranked
    · intro hdelegated hlogic hsome hliterals
      obtain ⟨argument, hargument⟩ := Option.isSome_iff_exists.mp hsome
      exact (hmatching argument hargument hliterals).1 hdelegated hlogic
    · intro argument hargument hliterals
      exact (hmatching argument hargument hliterals).2

theorem passesOn_array_iff {array : ArrayElement} {bounds : SizeBounds}
    (hcompiles : compile v = some ⟨v, some bounds⟩) (harray : v.array = some array)
    (hbounds : array.literalBounds = some bounds)
    (hunvaried : ¬(v.addressSpaceWrite = .delegated ∧ v.dataType = .uaVariant))
    (hhandler : HasHandler v) :
    PassesOn ⟨v, some bounds⟩ cache dataValue (sessionWrite conversions deviceLink deviceLogic base
      ⟨v, some bounds⟩ checkAccessLevel cache dataValue) ↔
      Passable deviceLink deviceLogic base v checkAccessLevel cache dataValue := by
  have hcompiled : (compile v).isSome = true := by rw [hcompiles, Option.isSome_some]
  rw [passable_array_iff hcompiled harray]
  rcases hcheck : checkWrite ⟨v, some bounds⟩ dataValue.value with status | u
  · have houtcome : writeDelegate conversions deviceLink deviceLogic ⟨v, some bounds⟩ dataValue =
        ⟨none, status⟩ := by
      rw [writeDelegate, hcheck]
    rw [passesOn_iff_outcome hhandler houtcome, null_array_iff]
    have hvacuous : ∀ argument ∈ designedArgument v dataValue.value,
        ¬WithinLiterals v dataValue.value.length := by
      intro argument hargument hliterals
      have hsome := Option.isSome_iff_exists.mpr ⟨argument, hargument⟩
      have hok := (checkWrite_array_designed (u := ⟨⟩) harray hbounds).mpr ⟨hsome, hliterals⟩
      cases hcheck.symm.trans hok
    constructor
    · rintro ⟨-, hnull, -⟩
      exact ⟨hnull, fun argument hargument hliterals =>
        absurd hliterals (hvacuous argument hargument)⟩
    · rintro ⟨hnull, -⟩
      refine ⟨fun _ hnone => (Option.not_mem_none _ hnone).elim, hnull, fun hgood => ?_⟩
      exact absurd ((isGood_of_checkWrite hcheck).symm.trans hgood) (by decide)
  · obtain ⟨hsome, hliterals⟩ := (checkWrite_array_designed harray hbounds).mp hcheck
    obtain ⟨designed, hdesigned⟩ := Option.isSome_iff_exists.mp hsome
    by_cases hregular : v.addressSpaceWrite = .regular
    · have houtcome : writeDelegate conversions deviceLink deviceLogic ⟨v, some bounds⟩ dataValue =
          ⟨none, StatusCode.opcUaGood⟩ := by
        simp only [writeDelegate, hcheck, if_pos hregular]
      rw [passesOn_iff_outcome hhandler houtcome, null_array_iff]
      have hundelegated : v.addressSpaceWrite ≠ .delegated := by
        rw [hregular]
        decide
      constructor
      · rintro ⟨-, hnull, hstored⟩
        exact ⟨hnull, fun _ _ _ => ⟨fun himpossible => absurd himpossible hundelegated,
          fun _ => hstored StatusCode.isGood_opcUaGood⟩⟩
      · rintro ⟨hnull, hmatching⟩
        refine ⟨fun _ hnone => (Option.not_mem_none _ hnone).elim, hnull, fun _ => ?_⟩
        exact (hmatching designed hdesigned hliterals).2
          fun himpossible => absurd himpossible hundelegated
    · have hdelegated : v.addressSpaceWrite = .delegated := by
        rcases hhandler with hdelegated | ⟨-, himpossible⟩
        · exact hdelegated
        · exact absurd himpossible hregular
      have hargument : writeArgument conversions v dataValue.value = .ok designed :=
        writeArgument_of_designed (by rw [harray, Option.isSome_some])
          (fun hvariant => hunvaried ⟨hdelegated, hvariant⟩) hdesigned
      rcases deviceLogic with _ | _
      · have houtcome : writeDelegate conversions deviceLink false ⟨v, some bounds⟩ dataValue =
            ⟨none, StatusCode.badNotImplemented⟩ := by
          simp only [writeDelegate, hcheck, if_neg hregular, hargument, if_neg Bool.false_ne_true]
        rw [passesOn_iff_outcome hhandler houtcome, null_array_iff]
        constructor
        · rintro ⟨-, hnull, -⟩
          exact ⟨hnull, fun _ _ _ => ⟨fun _ himpossible => absurd himpossible Bool.false_ne_true,
            fun hlink => absurd (hlink hdelegated).1 Bool.false_ne_true⟩⟩
        · rintro ⟨hnull, -⟩
          exact ⟨fun _ hnone => (Option.not_mem_none _ hnone).elim, hnull, by simp⟩
      · have houtcome : writeDelegate conversions deviceLink true ⟨v, some bounds⟩ dataValue =
            ⟨some designed, deviceLink designed⟩ := by
          simp only [writeDelegate, hcheck, if_neg hregular, hargument, if_true]
        rw [passesOn_iff_outcome hhandler houtcome, null_array_iff]
        constructor
        · rintro ⟨hcalled, hnull, hstored⟩
          refine ⟨hnull, fun argument hargument _ => ?_⟩
          cases hdesigned.symm.trans hargument
          exact ⟨fun _ _ => (hcalled designed rfl).2, fun hlink => hstored (hlink hdelegated).2⟩
        · rintro ⟨hnull, hmatching⟩
          obtain ⟨hsizes, hstorable⟩ := hmatching designed hdesigned hliterals
          refine ⟨?_, hnull, fun hgood => hstorable fun _ => ⟨rfl, hgood⟩⟩
          intro argument hargument
          cases Option.mem_some_iff.mp hargument
          exact ⟨hdesigned, hsizes hdelegated rfl⟩

end Writes

section Design

variable {content : BuiltInType → Type} {conversions : Conversions content}
  {deviceLink : NativeValue content → StatusCode} {base : BaseDataVariableType content}
  {c : ClassElement} {v : CacheVariableElement} {checkAccessLevel : Bool}
  {cache dataValue : UaDataValue content}

/-- A write to a variable with a handler is passed on exactly when it is passable. -/
theorem delegatedWrite_passesOn_iff {numbers : NumberLiterals}
    {locator : ClassElement → CacheVariableElement → Bytes} {classes : List ClassElement}
    (haccepted : validateCacheVariables numbers locator classes = .ok ⟨⟩) (hc : c ∈ classes)
    (hv : v ∈ c.cacheVariables) (hhandler : HasHandler v) :
    (∃ compiled, compile v = some compiled ∧ PassesOn compiled cache dataValue
      (sessionWrite conversions deviceLink c.deviceLogic base compiled checkAccessLevel cache
        dataValue)) ↔
      Passable deviceLink c.deviceLogic base v checkAccessLevel cache dataValue := by
  rcases hcompile : compile v with _ | compiled
  · constructor
    · rintro ⟨_, himpossible, -⟩
      cases himpossible
    · intro h
      cases hcompile ▸ h.compiles
  · have hvariable := acceptedVariable_of_validate (validateCacheVariable_of_design haccepted hc hv)
    rcases compile_cases hcompile with ⟨harray, rfl⟩ | ⟨array, bounds, harray, hbounds, hvar, rfl⟩
    · have hdelegated : v.addressSpaceWrite = .delegated := by
        rcases hhandler with hdelegated | ⟨himpossible, -⟩
        · exact hdelegated
        · rw [harray] at himpossible
          cases himpossible
      constructor
      · rintro ⟨_, heq, h⟩
        cases heq
        exact (passesOn_scalar_iff hvariable harray hdelegated).mp h
      · exact fun h => ⟨_, rfl, (passesOn_scalar_iff hvariable harray hdelegated).mpr h⟩
    · constructor
      · rintro ⟨_, heq, h⟩
        cases heq
        exact (passesOn_array_iff hcompile harray hbounds hvar hhandler).mp h
      · exact fun h => ⟨_, rfl, (passesOn_array_iff hcompile harray hbounds hvar hhandler).mpr h⟩

def thresholdVariable : CacheVariableElement where
  name := text "threshold"
  addressSpaceWrite := .delegated
  dataType := .int32
  initializeWith := .valueAndStatus
  initialValue := none
  initialStatus := some .badWaitingForInitialData
  nullPolicy := .nullAllowed
  defaultConfigInitializerValue := none
  array := none

def sensorClass : ClassElement where
  name := text "Sensor"
  deviceLogic := true
  cacheVariables := [thresholdVariable]

/-- A number for an integer variable goes to the device logic and into the cache. -/
theorem delegatedWrite_passesOn_iff_threshold :
    validateCacheVariables ⟨fun _ => false, fun _ => none⟩ (fun _ _ => []) [sensorClass] =
      .ok ⟨⟩ ∧
    ((∃ compiled, compile thresholdVariable = some compiled ∧
      PassesOn compiled (integerDataValue .null) (integerDataValue (.scalar .int32 5))
        (sessionWrite integerConversions (fun _ => StatusCode.opcUaGood) true obedientBase compiled
          true (integerDataValue .null) (integerDataValue (.scalar .int32 5)))) ↔
      Passable (fun _ => StatusCode.opcUaGood) true obedientBase thresholdVariable true
        (integerDataValue .null) (integerDataValue (.scalar .int32 5))) := by
  have haccepted : validateCacheVariables ⟨fun _ => false, fun _ => none⟩ (fun _ _ => [])
      [sensorClass] = .ok ⟨⟩ := rfl
  exact ⟨haccepted, delegatedWrite_passesOn_iff haccepted (List.mem_singleton_self sensorClass)
    (List.mem_singleton_self thresholdVariable) (.inl rfl)⟩

/-- An array for a scalar variable reaches the device logic as a number nobody wrote. -/
theorem arrayWrite_not_passedOn :
    validateCacheVariables ⟨fun _ => false, fun _ => none⟩ (fun _ _ => []) [sensorClass] =
      .ok ⟨⟩ ∧ thresholdVariable ∈ sensorClass.cacheVariables ∧ HasHandler thresholdVariable ∧
    ∃ compiled, compile thresholdVariable = some compiled ∧
      (sessionWrite integerConversions (fun _ => StatusCode.opcUaGood) true obedientBase compiled
        true (integerDataValue .null)
        (integerDataValue (.array .int32 [1, 2] (by decide)))).called = some (.scalar .int32 (-1)) ∧
      ¬PassesOn compiled (integerDataValue .null)
        (integerDataValue (.array .int32 [1, 2] (by decide)))
        (sessionWrite integerConversions (fun _ => StatusCode.opcUaGood) true obedientBase compiled
          true (integerDataValue .null)
          (integerDataValue (.array .int32 [1, 2] (by decide)))) := by
  refine ⟨rfl, List.mem_singleton_self thresholdVariable, .inl rfl, ⟨thresholdVariable, none⟩, rfl,
    rfl, fun h => ?_⟩
  have hdesigned := (h.called (.scalar .int32 (-1)) rfl).1
  cases hdesigned

end Design

end Quasar

end Supernova
