/-
The schema of configuration files as it is generated from a design: what a class says of its
variables in the configuration, the checks that it passes, and the template that pastes its
texts into markup.
-/
import Supernova.AddressSpaceLayout
import Supernova.InitialValueLiterals
import Supernova.PastedMarkup

namespace Supernova

namespace Quasar

section Design

/-- The attributes of a `restrictionByBounds` element. -/
inductive Bound
  | minExclusive
  | minInclusive
  | maxExclusive
  | maxInclusive
deriving DecidableEq, Repr

def Bound.key : Bound → Bytes
  | .minExclusive => text "minExclusive"
  | .minInclusive => text "minInclusive"
  | .maxExclusive => text "maxExclusive"
  | .maxInclusive => text "maxInclusive"

structure ConfigRestriction where
  restrictionByEnumeration : List Bytes
  restrictionByPattern : Option Bytes
  restrictionByBounds : List (Bound × Bytes)
deriving DecidableEq, Repr

/-- A `documentation` element with its tags stripped: its text, if there is any. -/
structure Documentation where
  text : Option Bytes
deriving DecidableEq, Repr

structure ConfigCacheVariable extends CacheVariableElement where
  configRestriction : Option ConfigRestriction
  documentation : Option Documentation

/-- A `configentry` element. -/
structure ConfigEntryElement where
  name : Bytes
  dataType : DataType
  isKey : Option BooleanAttribute
  defaultValue : Option Bytes
  array : Option ArrayElement
  configRestriction : Option ConfigRestriction
  documentation : Option Documentation

structure HasObjectsElement extends HasObjects where
  minOccurs : Option Bytes
  maxOccurs : Option Bytes

/-- A class, as far as configuration files need it. -/
structure ConfigClass where
  name : Bytes
  deviceLogic : Bool
  defaultInstanceName : Option Bytes
  cacheVariables : List ConfigCacheVariable
  configEntries : List ConfigEntryElement
  hasObjects : List HasObjectsElement

structure ConfigDesign where
  classes : List ConfigClass
  root : List HasObjectsElement

def ConfigClass.toDesignClass (c : ConfigClass) : DesignClass where
  name := c.name
  deviceLogic := c.deviceLogic
  cacheVariables := c.cacheVariables.map fun v => ⟨v.name, v.initializeWith⟩
  configEntries := c.configEntries.map fun e => ⟨e.name⟩
  hasObjects := c.hasObjects.map HasObjectsElement.toHasObjects

def ConfigClass.toClassElement (c : ConfigClass) : ClassElement where
  name := c.name
  deviceLogic := c.deviceLogic
  cacheVariables := c.cacheVariables.map ConfigCacheVariable.toCacheVariableElement

def ConfigDesign.toDesign (design : ConfigDesign) : Design where
  classes := design.classes.map ConfigClass.toDesignClass
  root := design.root.map HasObjectsElement.toHasObjects

/-- The names of the variables of a class that can be configured. -/
def ConfigClass.variableNames (c : ConfigClass) : List Bytes :=
  c.cacheVariables.map (fun v => v.name) ++ c.configEntries.map ConfigEntryElement.name

end Design

section Validation

/-- A byte of a letter, a digit or an underscore; digits of other scripts are digits. -/
def isWordByte (c : UInt8) : Bool :=
  65 ≤ c && c ≤ 90 || 97 ≤ c && c ≤ 122 || isDigit c || c = 95 || 128 ≤ c

/-- What the schema of designs says of names and data types. -/
structure ValidElements (design : ConfigDesign) : Prop where
  validNames : ValidNames design.toDesign
  variableKey : ∀ c ∈ design.classes, c.variableNames.Nodup
  className : ∀ c ∈ design.classes, ∀ b ∈ c.name, isWordByte b = true
  variableName : ∀ c ∈ design.classes, ∀ name ∈ c.variableNames, ∀ b ∈ name, isWordByte b = true
  objectName : ∀ c ∈ design.classes, c.defaultInstanceName ≠ some []
  configEntryDataType : ∀ c ∈ design.classes, ∀ e ∈ c.configEntries,
    e.dataType ≠ .uaVariant ∧ e.dataType ≠ .uaByteString

variable (numbers : NumberLiterals) (locator : Bytes → Bytes → Bytes) (design : ConfigDesign)

def isHasObjectsSingleton (hasObjects : HasObjectsElement) : Bool :=
  hasObjects.minOccurs = some (text "1") && hasObjects.maxOccurs = some (text "1")

/-- Every reference to the class asks for one object, and there is a reference. -/
def isClassAlwaysSingleton (className : Bytes) : Bool :=
  let hasObjectsList := (design.classes.flatMap ConfigClass.hasObjects ++ design.root).filter
    fun ho => ho.className = className
  !hasObjectsList.isEmpty && hasObjectsList.all isHasObjectsSingleton

def validateDefaultInstanceName (c : ConfigClass) : Except Bytes Unit :=
  if c.defaultInstanceName.isSome ∧ isClassAlwaysSingleton design c.name = false then
    throw (text "defaultInstanceName can only be used with singleton classes (at class " ++
      c.name ++ text ")")
  else pure ⟨⟩

def validateConfigEntry (c : ConfigClass) (e : ConfigEntryElement) : Except Bytes Unit := do
  if e.array.isSome then
    assertAttributeAbsent e.defaultValue (text "defaultValue") (text "when it's an array")
      (locator c.name e.name)
  if e.isKey.isSome ∧ c.deviceLogic = false then
    throw (text "isKey can only be used with device logic" ++ text "(at: " ++
      locator c.name e.name ++ text ")")

/-- The checks of classes, cache variables, configuration entries and `hasobjects`. -/
def validateSecondStage : Except Bytes Unit := do
  design.classes.forM (validateDefaultInstanceName design)
  validateCacheVariables numbers (fun c v => locator c.name v.name)
    (design.classes.map ConfigClass.toClassElement)
  design.classes.forM fun c => c.configEntries.forM (validateConfigEntry locator c)
  validateHasObjectsWrapper design.toDesign

structure AcceptedDesign extends ConfigDesign where
  validElements : ValidElements toConfigDesign
  accepted : validateSecondStage numbers locator toConfigDesign = .ok ⟨⟩

end Validation

section DesignInspector

variable (design : ConfigDesign)

def getNamesOfAllClasses : List Bytes := design.classes.map ConfigClass.name

/-- The classes that a path with this name finds. -/
def classesNamed (className : Bytes) : List ConfigClass :=
  design.classes.filter fun c => c.name = className

def objectifyCacheVariables (className : Bytes) : List ConfigCacheVariable :=
  (classesNamed design className).flatMap ConfigClass.cacheVariables

def objectifyConfigEntries (className : Bytes) : List ConfigEntryElement :=
  (classesNamed design className).flatMap ConfigClass.configEntries

def getClassDefaultInstanceName (className : Bytes) : Option Bytes :=
  ((classesNamed design className).filterMap ConfigClass.defaultInstanceName).head?

def objectifyDocumentation (className name : Bytes) : List Documentation :=
  ((objectifyCacheVariables design className).filter fun v => v.name = name).filterMap
      ConfigCacheVariable.documentation ++
    ((objectifyConfigEntries design className).filter fun e => e.name = name).filterMap
      ConfigEntryElement.documentation

inductive RestrictedElement
  | cacheVariable
  | configEntry
deriving DecidableEq, Repr

def configRestrictions (className name : Bytes) : RestrictedElement → List ConfigRestriction
  | .cacheVariable => ((objectifyCacheVariables design className).filter fun v =>
      v.name = name).filterMap ConfigCacheVariable.configRestriction
  | .configEntry => ((objectifyConfigEntries design className).filter fun e =>
      e.name = name).filterMap ConfigEntryElement.configRestriction

/-- Pairs of a type and a value. -/
def getRestrictions (className name : Bytes) (what : RestrictedElement) : List (Bytes × Bytes) :=
  let found := configRestrictions design className name what
  (found.flatMap fun r => r.restrictionByEnumeration.map fun v => (text "enumeration", v)) ++
    (found.flatMap fun r => r.restrictionByPattern.toList.map fun p => (text "pattern", p)) ++
    found.flatMap fun r => r.restrictionByBounds.map fun b => (b.1.key, b.2)

end DesignInspector

section Oracle

def quasarTypeToXsdType : DataType → Option Bytes
  | .uaString => some (text "xs:string")
  | .sByte => some (text "xs:byte")
  | .byte => some (text "xs:unsignedByte")
  | .int16 => some (text "xs:short")
  | .uInt16 => some (text "xs:unsignedShort")
  | .int32 => some (text "xs:int")
  | .uInt32 => some (text "xs:unsignedInt")
  | .int64 => some (text "xs:long")
  | .uInt64 => some (text "xs:unsignedLong")
  | .boolean => some (text "xs:boolean")
  | .double => some (text "xs:double")
  | .float => some (text "xs:float")
  | .uaVariant | .uaByteString => none

def quasarDataTypeToXsdType (dataType : DataType) : Except Bytes Bytes :=
  match quasarTypeToXsdType dataType with
  | some xsdType => pure xsdType
  | none => throw (text "This quasar type " ++ dataTypeName dataType ++
      text " cant't be initialized from XSD configuration")

end Oracle

section Template

open Xml

/-- What is pasted for the elements, with the blanks of the template. -/
def documentationText (docElements : List Documentation) : Bytes :=
  text "\n      " ++
    docElements.flatMap (fun docElement => text "        " ++
      docElement.text.getD (text "None") ++ text "\n      ") ++
    text "      "

def writeDocumentation (docElements : List Documentation) : List Piece :=
  if docElements = [] then []
  else element (text "xs:annotation") []
    [.textElement (text "xs:documentation") (documentationText docElements)]

def writeRestrictions (dataType : Bytes) (restrictions : List (Bytes × Bytes)) : List Piece :=
  element (text "xs:simpleType") []
    (element (text "xs:restriction") [(text "base", dataType)]
      (restrictions.map fun restriction =>
        .emptyTag (text "xs:" ++ restriction.1) [(text "value", restriction.2)]))

/-- An empty text is no default. -/
def usage (default : Option Bytes) : List (Bytes × Bytes) :=
  if default.getD [] = [] then [(text "use", text "required")]
  else [(text "use", text "optional"), (text "default", default.getD [])]

def writeUsageAndDefaultValue (configEntry : ConfigEntryElement) : List (Bytes × Bytes) :=
  usage configEntry.defaultValue

def writeDefaultConfigInitializerValue (cacheVar : ConfigCacheVariable) : List (Bytes × Bytes) :=
  usage cacheVar.defaultConfigInitializerValue

variable (design : ConfigDesign)

def writeArrayCacheVarOrConfigEntry (className targetName : Bytes) (dataType : DataType)
    (array : ArrayElement) (what : RestrictedElement) : Except Bytes (List Piece) := do
  let xsdType ← quasarDataTypeToXsdType dataType
  let restrictions := getRestrictions design className targetName what
  pure (element (text "xs:element") [(text "name", targetName)]
    (element (text "xs:complexType") []
      (writeDocumentation (objectifyDocumentation design className targetName) ++
        element (text "xs:sequence")
          [(text "minOccurs", array.minimumSize.elim (text "0") SizeLimit.digits),
            (text "maxOccurs", array.maximumSize.elim (text "unbounded") SizeLimit.digits)]
          (if restrictions = [] then
            [.emptyTag (text "xs:element") [(text "name", text "value"), (text "type", xsdType)]]
          else element (text "xs:element") [(text "name", text "value")]
            (writeRestrictions xsdType restrictions)))))

/-- The attribute of a variable with one value; where there are restrictions, they say its
type. -/
def scalarAttribute (className name xsdType : Bytes) (plain restricted : List (Bytes × Bytes))
    (restrictions : List (Bytes × Bytes)) : List Piece :=
  let documentation := writeDocumentation (objectifyDocumentation design className name)
  if restrictions = [] then element (text "xs:attribute") plain documentation
  else element (text "xs:attribute") restricted
    (documentation ++ writeRestrictions xsdType restrictions)

def scalarCacheVar (className : Bytes) (v : ConfigCacheVariable) : Except Bytes (List Piece) := do
  let xsdType ← quasarDataTypeToXsdType v.dataType
  pure (scalarAttribute design className v.name xsdType
    ((text "name", v.name) :: (text "type", xsdType) :: writeDefaultConfigInitializerValue v)
    ((text "name", v.name) :: writeDefaultConfigInitializerValue v)
    (getRestrictions design className v.name .cacheVariable))

def scalarConfigEntry (className : Bytes) (e : ConfigEntryElement) :
    Except Bytes (List Piece) := do
  let xsdType ← quasarDataTypeToXsdType e.dataType
  pure (scalarAttribute design className e.name xsdType
    ((text "name", e.name) :: (writeUsageAndDefaultValue e ++ [(text "type", xsdType)]))
    ((text "name", e.name) :: writeUsageAndDefaultValue e)
    (getRestrictions design className e.name .configEntry))

/-- A variable that the configuration initialises. -/
def cacheVarByConfig (className : Bytes) (v : ConfigCacheVariable) : Except Bytes (List Piece) :=
  match v.array with
  | some array => writeArrayCacheVarOrConfigEntry design className v.name v.dataType array
      .cacheVariable
  | none => scalarCacheVar design className v

def configEntry (className : Bytes) (e : ConfigEntryElement) : Except Bytes (List Piece) :=
  match e.array with
  | some array => writeArrayCacheVarOrConfigEntry design className e.name e.dataType array
      .configEntry
  | none => scalarConfigEntry design className e

/-- Every key among the configuration entries of the class is unique below its parent. -/
def writeUniqueConstraintPerHasObjects (hasObjects : HasObjects) (parentName : Bytes)
    (parentPath : List Bytes) : List Piece :=
  let className := hasObjects.className
  ((objectifyConfigEntries design className).filter fun ce =>
      ce.isKey.map BooleanAttribute.lexical = some (text "true")).flatMap fun ce =>
    element (text "xs:unique")
      [(text "name", (text "_").intercalate (parentPath ++ [parentName] ++ [className, ce.name]) ++
        text "_is_unique")]
      [.emptyTag (text "xs:selector") [(text "xpath", text "tns:" ++ className)],
        .emptyTag (text "xs:field") [(text "xpath", text "@" ++ ce.name)]]

/-- The element for the objects of a class, below a parent. -/
def innerElement (parent className : Bytes) : List Piece :=
  element (text "xs:element") [(text "name", className), (text "type", text "tns:" ++ className)]
    ((objectifyHasObjects design.toDesign (.named className)).flatMap fun innerHasObjects =>
      writeUniqueConstraintPerHasObjects design innerHasObjects innerHasObjects.className
        [parent, className])

def choice (maxOccurs : Bytes) (inner : List Piece) : List Piece :=
  element (text "xs:choice") [(text "minOccurs", text "0"), (text "maxOccurs", maxOccurs)] inner

def typedElement (name : Bytes) : Piece :=
  .emptyTag (text "xs:element") [(text "name", name), (text "type", text "tns:" ++ name)]

/-- Older files can have log levels below parents of these names. -/
def logLevels (className : Bytes) : List Piece :=
  let logLevel (name maxOccurs : Bytes) : Piece :=
    .emptyTag (text "xs:element") [(text "name", name), (text "type", text "tns:" ++ name),
      (text "minOccurs", text "0"), (text "maxOccurs", maxOccurs)]
  (if className = text "Log" then [logLevel (text "GeneralLogLevel") (text "1")] else []) ++
    if className = text "ComponentLogLevels" then
      [logLevel (text "ComponentLogLevel") (text "unbounded")]
    else []

/-- The elements of variables with arrays stand in the sequence, the other ones behind it. -/
def classContent (className : Bytes) (arrays scalars : List Piece) : List Piece :=
  element (text "xs:sequence") []
      (choice (text "unbounded")
          ([typedElement (text "CalculatedVariable"), typedElement (text "FreeVariable")] ++
            (objectifyHasObjects design.toDesign (.named className)).flatMap
              (fun hasObjects => innerElement design className hasObjects.className) ++
            logLevels className) ++
        arrays) ++
    [.emptyTag (text "xs:attribute") ((text "name", text "name") ::
      (text "type", text "tns:ObjectName") ::
      usage (getClassDefaultInstanceName design className))] ++
    scalars

def classComplexType (className : Bytes) : Except Bytes (List Piece) := do
  let cacheVariables := (objectifyCacheVariables design className).filter fun v =>
    v.initializeWith = .configuration
  let configEntries := objectifyConfigEntries design className
  let arrayCacheVars ← (cacheVariables.filter fun v => v.array.isSome).mapM
    (cacheVarByConfig design className)
  let arrayConfigEntries ← (configEntries.filter fun e => e.array.isSome).mapM
    (configEntry design className)
  let scalarCacheVars ← (cacheVariables.filter fun v => v.array.isNone).mapM
    (cacheVarByConfig design className)
  let scalarConfigEntries ← (configEntries.filter fun e => e.array.isNone).mapM
    (configEntry design className)
  pure (element (text "xs:complexType") [(text "name", className)]
    (classContent design className (arrayCacheVars ++ arrayConfigEntries).flatten
      (scalarCacheVars ++ scalarConfigEntries).flatten))

def rootByConfiguration : List HasObjects :=
  design.toDesign.root.filter fun ho => ho.instantiateUsing = .configuration

def configurationComplexType : List Piece :=
  element (text "xs:complexType") [(text "name", text "Configuration")]
    (element (text "xs:sequence") []
      (choice (text "1") [typedElement (text "StandardMetaData")] ++
        choice (text "1") [typedElement (text "PubSub")] ++
        choice (text "1") [typedElement (text "Fx")] ++
        choice (text "unbounded") [typedElement (text "CalculatedVariableGenericFormula")] ++
        choice (text "unbounded")
          (((rootByConfiguration design).filter fun ho =>
              ho.className ≠ text "StandardMetaData").flatMap
            fun ho => innerElement design (text "configuration") ho.className) ++
        choice (text "unbounded")
          [typedElement (text "CalculatedVariable"), typedElement (text "FreeVariable")]))

def configurationElement : List Piece :=
  element (text "xs:element")
    [(text "name", text "configuration"), (text "type", text "tns:Configuration")]
    ((rootByConfiguration design).flatMap fun ho =>
      writeUniqueConstraintPerHasObjects design ho ho.className [text "configuration"])

def schemaAttributes : List (Bytes × Bytes) :=
  [(text "xmlns:tns", text "http://cern.ch/quasar/Configuration"),
    (text "xmlns:xi", text "http://www.w3.org/2003/XInclude"),
    (text "xmlns:xs", text "http://www.w3.org/2001/XMLSchema"),
    (text "xmlns:xsi", text "http://www.w3.org/2001/XMLSchema-instance"),
    (text "xmlns:d", text "http://cern.ch/quasar/Design"),
    (text "xmlns:fnc", text "http://cern.ch/quasar/Functions"),
    (text "targetNamespace", text "http://cern.ch/quasar/Configuration"),
    (text "elementFormDefault", text "qualified")]

/-- The template, without the types that do not depend on the design. -/
def designToConfigurationXSD : Except Bytes (List Piece) := do
  let classes ← (getNamesOfAllClasses design).mapM (classComplexType design)
  pure (element (text "xs:schema") schemaAttributes
    (classes.flatten ++ configurationComplexType design ++ configurationElement design))

end Template

section Lookups

theorem filter_key_eq {α κ : Type} [DecidableEq κ] {key : α → κ} {l : List α}
    (h : (l.map key).Nodup) {x : α} (hx : x ∈ l) : l.filter (fun y => key y = key x) = [x] := by
  induction l with
  | nil => cases hx
  | cons y l ih =>
      rw [List.map_cons, List.nodup_cons] at h
      rcases List.mem_cons.mp hx with rfl | hx
      · have hnone : l.filter (fun y => key y = key x) = [] := by
          rw [List.filter_eq_nil_iff]
          intro z hz hkey
          exact h.1 (of_decide_eq_true hkey ▸ List.mem_map_of_mem hz)
        rw [List.filter_cons_of_pos (by simp), hnone]
      · have hne : key y ≠ key x := fun heq => h.1 (heq ▸ List.mem_map_of_mem hx)
        rw [List.filter_cons_of_neg (by simpa using hne), ih h.2 hx]

/-- What a restriction pastes, whichever variable it is for. -/
def ConfigRestriction.pairs (r : ConfigRestriction) : List (Bytes × Bytes) :=
  r.restrictionByEnumeration.map (fun v => (text "enumeration", v)) ++
    r.restrictionByPattern.toList.map (fun p => (text "pattern", p)) ++
    r.restrictionByBounds.map fun b => (b.1.key, b.2)

def restrictionPairs (restriction : Option ConfigRestriction) : List (Bytes × Bytes) :=
  restriction.elim [] ConfigRestriction.pairs

variable {design : ConfigDesign} {c : ConfigClass} {v : ConfigCacheVariable}
  {e : ConfigEntryElement}

theorem ValidElements.classesNamed_eq (h : ValidElements design) (hc : c ∈ design.classes) :
    classesNamed design c.name = [c] := by
  have hkey := h.validNames.classKey
  rw [ConfigDesign.toDesign, List.map_map] at hkey
  exact filter_key_eq hkey hc

theorem ValidElements.objectifyCacheVariables_eq (h : ValidElements design)
    (hc : c ∈ design.classes) : objectifyCacheVariables design c.name = c.cacheVariables := by
  rw [objectifyCacheVariables, h.classesNamed_eq hc]
  simp

theorem ValidElements.objectifyConfigEntries_eq (h : ValidElements design)
    (hc : c ∈ design.classes) : objectifyConfigEntries design c.name = c.configEntries := by
  rw [objectifyConfigEntries, h.classesNamed_eq hc]
  simp

theorem ValidElements.getClassDefaultInstanceName_eq (h : ValidElements design)
    (hc : c ∈ design.classes) :
    getClassDefaultInstanceName design c.name = c.defaultInstanceName := by
  rw [getClassDefaultInstanceName, h.classesNamed_eq hc]
  cases hname : c.defaultInstanceName <;> simp [hname]

/-- By its name, a path finds one variable of the class. -/
theorem ValidElements.filter_cacheVariable (h : ValidElements design) (hc : c ∈ design.classes)
    (hv : v ∈ c.cacheVariables) :
    c.cacheVariables.filter (fun v' => v'.name = v.name) = [v] ∧
      c.configEntries.filter (fun e => e.name = v.name) = [] := by
  obtain ⟨hvariables, -, hdisjoint⟩ := List.nodup_append.mp (h.variableKey c hc)
  refine ⟨@filter_key_eq _ _ _ (fun v' : ConfigCacheVariable => v'.name) _ hvariables _ hv, ?_⟩
  rw [List.filter_eq_nil_iff]
  intro e he hname
  exact hdisjoint v.name (List.mem_map_of_mem (f := fun v => v.name) hv) e.name
    (List.mem_map_of_mem he) (of_decide_eq_true hname).symm

theorem ValidElements.filter_configEntry (h : ValidElements design) (hc : c ∈ design.classes)
    (he : e ∈ c.configEntries) :
    c.cacheVariables.filter (fun v => v.name = e.name) = [] ∧
      c.configEntries.filter (fun e' => e'.name = e.name) = [e] := by
  obtain ⟨-, hentries, hdisjoint⟩ := List.nodup_append.mp (h.variableKey c hc)
  refine ⟨?_, filter_key_eq hentries he⟩
  rw [List.filter_eq_nil_iff]
  intro v hv hname
  exact hdisjoint v.name (List.mem_map_of_mem (f := fun v => v.name) hv) e.name
    (List.mem_map_of_mem he) (of_decide_eq_true hname)

theorem ValidElements.cacheVariable_documentation (h : ValidElements design)
    (hc : c ∈ design.classes) (hv : v ∈ c.cacheVariables) :
    objectifyDocumentation design c.name v.name = v.documentation.toList := by
  obtain ⟨hvariable, hentry⟩ := h.filter_cacheVariable hc hv
  rw [objectifyDocumentation, h.objectifyCacheVariables_eq hc, h.objectifyConfigEntries_eq hc,
    hvariable, hentry]
  cases hdocumentation : v.documentation <;> simp [hdocumentation]

theorem ValidElements.configEntry_documentation (h : ValidElements design)
    (hc : c ∈ design.classes) (he : e ∈ c.configEntries) :
    objectifyDocumentation design c.name e.name = e.documentation.toList := by
  obtain ⟨hvariable, hentry⟩ := h.filter_configEntry hc he
  rw [objectifyDocumentation, h.objectifyCacheVariables_eq hc, h.objectifyConfigEntries_eq hc,
    hvariable, hentry]
  cases hdocumentation : e.documentation <;> simp [hdocumentation]

theorem getRestrictions_of_found {className name : Bytes} {what : RestrictedElement}
    {restriction : Option ConfigRestriction}
    (h : configRestrictions design className name what = restriction.toList) :
    getRestrictions design className name what = restrictionPairs restriction := by
  rw [getRestrictions, h]
  cases restriction <;> simp [restrictionPairs, ConfigRestriction.pairs]

theorem ValidElements.cacheVariable_restrictions (h : ValidElements design)
    (hc : c ∈ design.classes) (hv : v ∈ c.cacheVariables) :
    getRestrictions design c.name v.name .cacheVariable = restrictionPairs v.configRestriction := by
  apply getRestrictions_of_found
  rw [configRestrictions, h.objectifyCacheVariables_eq hc, (h.filter_cacheVariable hc hv).1]
  cases hrestriction : v.configRestriction <;> simp [hrestriction]

theorem ValidElements.configEntry_restrictions (h : ValidElements design)
    (hc : c ∈ design.classes) (he : e ∈ c.configEntries) :
    getRestrictions design c.name e.name .configEntry = restrictionPairs e.configRestriction := by
  apply getRestrictions_of_found
  rw [configRestrictions, h.objectifyConfigEntries_eq hc, (h.filter_configEntry hc he).2]
  cases hrestriction : e.configRestriction <;> simp [hrestriction]

end Lookups

section Balance

open Xml

variable {design : ConfigDesign} {pieces : List Piece} {className name : Bytes}

/-- The names of the elements that the template writes, those of restrictions included. -/
def tags : List Bytes :=
  [text "xs:schema", text "xs:complexType", text "xs:sequence", text "xs:choice",
    text "xs:element", text "xs:attribute", text "xs:unique", text "xs:selector", text "xs:field",
    text "xs:annotation", text "xs:documentation", text "xs:simpleType", text "xs:restriction",
    text "xs:" ++ text "enumeration", text "xs:" ++ text "pattern",
    text "xs:" ++ Bound.minExclusive.key, text "xs:" ++ Bound.minInclusive.key,
    text "xs:" ++ Bound.maxExclusive.key, text "xs:" ++ Bound.maxInclusive.key]

/-- The names of the attributes of one element, in their order. -/
def attributeNames : List (List Bytes) :=
  [[], [text "name"], [text "base"], [text "value"], [text "xpath"],
    [text "name", text "type"], [text "minOccurs", text "maxOccurs"],
    [text "name", text "type", text "minOccurs", text "maxOccurs"],
    [text "name", text "use"], [text "name", text "use", text "default"],
    [text "name", text "use", text "type"],
    [text "name", text "use", text "default", text "type"],
    [text "name", text "type", text "use"],
    [text "name", text "type", text "use", text "default"], schemaAttributes.map Prod.fst]

theorem names_valid :
    (∀ tag ∈ tags, IsName tag) ∧ ∀ names ∈ attributeNames, AttributeNames names := by
  decide +kernel

theorem isName_of_mem_tags : ∀ tag ∈ tags, IsName tag := names_valid.1

theorem attributeNames_valid : ∀ names ∈ attributeNames, AttributeNames names := names_valid.2

theorem valid_tag {tag : Bytes} {attributes : List (Bytes × Bytes)} (htag : tag ∈ tags)
    (hnames : attributes.map Prod.fst ∈ attributeNames) :
    (Piece.startTag tag attributes).Valid :=
  ⟨isName_of_mem_tags tag htag, attributeNames_valid _ hnames⟩

theorem balanced_tagged {tag : Bytes} {attributes : List (Bytes × Bytes)} {inner : List Piece}
    (htag : tag ∈ tags) (hnames : attributes.map Prod.fst ∈ attributeNames)
    (h : Balanced inner) : Balanced (element tag attributes inner) :=
  balanced_element (valid_tag htag hnames) h

theorem balanced_emptyTag {tag : Bytes} {attributes : List (Bytes × Bytes)}
    (htag : tag ∈ tags) (hnames : attributes.map Prod.fst ∈ attributeNames)
    (h : Balanced pieces) : Balanced (.emptyTag tag attributes :: pieces) :=
  .emptyTag (valid_tag htag hnames) h

theorem isName_restriction {what : RestrictedElement} {restriction : Bytes × Bytes}
    (h : restriction ∈ getRestrictions design className name what) :
    IsName (text "xs:" ++ restriction.1) := by
  rw [getRestrictions, List.mem_append, List.mem_append] at h
  simp only [List.mem_flatMap, List.mem_map] at h
  have hbound : ∀ bound : Bound, text "xs:" ++ bound.key ∈ tags := by
    intro bound
    cases bound <;> simp [tags]
  rcases h with (⟨r, -, value, -, rfl⟩ | ⟨r, -, pattern, -, rfl⟩) | ⟨r, -, bound, -, rfl⟩
  · exact isName_of_mem_tags _ (by simp [tags])
  · exact isName_of_mem_tags _ (by simp [tags])
  · exact isName_of_mem_tags _ (hbound bound.1)

theorem balanced_writeDocumentation (docElements : List Documentation) :
    Balanced (writeDocumentation docElements) := by
  rw [writeDocumentation]
  split_ifs
  · exact .nil
  · exact balanced_tagged (by simp [tags]) (by simp [attributeNames])
      (.textElement _ (isName_of_mem_tags _ (by simp [tags])) .nil)

theorem balanced_writeRestrictions {what : RestrictedElement} (xsdType : Bytes) :
    Balanced (writeRestrictions xsdType (getRestrictions design className name what)) := by
  refine balanced_tagged (by simp [tags]) (by simp [attributeNames])
    (balanced_tagged (by simp [tags]) (by simp [attributeNames])
      (balanced_emptyTags fun restriction hrestriction => ?_))
  exact ⟨isName_restriction hrestriction, attributeNames_valid _ (by simp [attributeNames])⟩

theorem map_fst_usage (default : Option Bytes) :
    (usage default).map Prod.fst = [text "use"] ∨
      (usage default).map Prod.fst = [text "use", text "default"] := by
  rw [usage]
  split_ifs
  · exact .inl rfl
  · exact .inr rfl

theorem balanced_writeArrayCacheVarOrConfigEntry {dataType : DataType} {array : ArrayElement}
    {what : RestrictedElement}
    (h : writeArrayCacheVarOrConfigEntry design className name dataType array what = .ok pieces) :
    Balanced pieces := by
  obtain ⟨xsdType, -, h⟩ := except_bind_eq_ok.1 h
  rw [except_pure_eq_ok] at h
  subst h
  refine balanced_tagged (by simp [tags]) (by simp [attributeNames])
    (balanced_tagged (by simp [tags]) (by simp [attributeNames])
      ((balanced_writeDocumentation _).append
        (balanced_tagged (by simp [tags]) (by simp [attributeNames]) ?_)))
  split_ifs
  · exact balanced_emptyTag (by simp [tags]) (by simp [attributeNames]) .nil
  · exact balanced_tagged (by simp [tags]) (by simp [attributeNames])
      (balanced_writeRestrictions xsdType)

theorem balanced_scalarAttribute {xsdType : Bytes} {plain restricted : List (Bytes × Bytes)}
    {what : RestrictedElement} (hplain : AttributeNames (plain.map Prod.fst))
    (hrestricted : AttributeNames (restricted.map Prod.fst)) :
    Balanced (scalarAttribute design className name xsdType plain restricted
      (getRestrictions design className name what)) := by
  rw [scalarAttribute]
  split_ifs
  · exact balanced_element ⟨isName_of_mem_tags _ (by simp [tags]), hplain⟩
      (balanced_writeDocumentation _)
  · exact balanced_element ⟨isName_of_mem_tags _ (by simp [tags]), hrestricted⟩
      ((balanced_writeDocumentation _).append (balanced_writeRestrictions xsdType))

theorem attributeNames_usage (default : Option Bytes) :
    AttributeNames (text "name" :: text "type" :: (usage default).map Prod.fst) ∧
      AttributeNames (text "name" :: (usage default).map Prod.fst) ∧
      AttributeNames (text "name" :: ((usage default).map Prod.fst ++ [text "type"])) := by
  rcases map_fst_usage default with h | h
  · rw [h]
    refine ⟨?_, ?_, ?_⟩ <;> exact attributeNames_valid _ (by simp [attributeNames])
  · rw [h]
    refine ⟨?_, ?_, ?_⟩ <;> exact attributeNames_valid _ (by simp [attributeNames])

theorem balanced_cacheVarByConfig {v : ConfigCacheVariable}
    (h : cacheVarByConfig design className v = .ok pieces) : Balanced pieces := by
  rw [cacheVarByConfig] at h
  split at h
  · exact balanced_writeArrayCacheVarOrConfigEntry h
  · obtain ⟨xsdType, -, h⟩ := except_bind_eq_ok.1 h
    rw [except_pure_eq_ok] at h
    subst h
    have hnames := attributeNames_usage v.defaultConfigInitializerValue
    exact balanced_scalarAttribute hnames.1 hnames.2.1

theorem balanced_configEntry {e : ConfigEntryElement}
    (h : configEntry design className e = .ok pieces) : Balanced pieces := by
  rw [configEntry] at h
  split at h
  · exact balanced_writeArrayCacheVarOrConfigEntry h
  · obtain ⟨xsdType, -, h⟩ := except_bind_eq_ok.1 h
    rw [except_pure_eq_ok] at h
    subst h
    have hnames := attributeNames_usage e.defaultValue
    refine balanced_scalarAttribute ?_ hnames.2.1
    rw [List.map_cons, List.map_append]
    exact hnames.2.2

theorem balanced_writeUniqueConstraint (hasObjects : HasObjects) (parentName : Bytes)
    (parentPath : List Bytes) :
    Balanced (writeUniqueConstraintPerHasObjects design hasObjects parentName parentPath) := by
  refine balanced_flatMap fun e _ => balanced_tagged (by simp [tags]) (by simp [attributeNames]) ?_
  exact balanced_emptyTag (by simp [tags]) (by simp [attributeNames])
    (balanced_emptyTag (by simp [tags]) (by simp [attributeNames]) .nil)

theorem balanced_innerElement (parent className : Bytes) :
    Balanced (innerElement design parent className) :=
  balanced_tagged (by simp [tags]) (by simp [attributeNames])
    (balanced_flatMap fun innerHasObjects _ =>
      balanced_writeUniqueConstraint innerHasObjects _ _)

theorem balanced_choice {maxOccurs : Bytes} (h : Balanced pieces) :
    Balanced (choice maxOccurs pieces) :=
  balanced_tagged (by simp [tags]) (by simp [attributeNames]) h

theorem balanced_typedElement (h : Balanced pieces) : Balanced (typedElement name :: pieces) :=
  balanced_emptyTag (by simp [tags]) (by simp [attributeNames]) h

theorem balanced_logLevels (className : Bytes) : Balanced (logLevels className) := by
  rw [logLevels]
  refine Balanced.append ?_ ?_
  · split_ifs
    · exact balanced_emptyTag (by simp [tags]) (by simp [attributeNames]) .nil
    · exact .nil
  · split_ifs
    · exact balanced_emptyTag (by simp [tags]) (by simp [attributeNames]) .nil
    · exact .nil

end Balance

section Classes

open Xml

variable {design : ConfigDesign} {pieces : List Piece} {className : Bytes}

theorem mem_of_mapM_eq_ok {ε α β : Type} {f : α → Except ε β} {as : List α} {bs : List β}
    (h : as.mapM f = .ok bs) {b : β} : b ∈ bs ↔ ∃ a ∈ as, f a = .ok b := by
  rw [mapM_eq_ok] at h
  induction h with
  | nil => simp
  | @cons a b' as bs hhead _ ih =>
      rw [List.mem_cons, ih, List.exists_mem_cons_iff, hhead, Except.ok.injEq]
      exact or_congr_left eq_comm

/-- The pieces of a variable of the class that the configuration has a say in. -/
def VariablePieces (design : ConfigDesign) (className : Bytes) (part : List Piece) : Prop :=
  (∃ v ∈ objectifyCacheVariables design className, v.initializeWith = .configuration ∧
    cacheVarByConfig design className v = .ok part) ∨
  ∃ e ∈ objectifyConfigEntries design className, configEntry design className e = .ok part

/-- Among the elements of a class there are those of its variables. -/
theorem of_classComplexType (h : classComplexType design className = .ok pieces) :
    ∃ arrays scalars : List (List Piece),
      pieces = element (text "xs:complexType") [(text "name", className)]
        (classContent design className arrays.flatten scalars.flatten) ∧
      ∀ part, part ∈ arrays ++ scalars ↔ VariablePieces design className part := by
  obtain ⟨arrayCacheVars, harrayCacheVars, h⟩ := except_bind_eq_ok.1 h
  obtain ⟨arrayConfigEntries, harrayConfigEntries, h⟩ := except_bind_eq_ok.1 h
  obtain ⟨scalarCacheVars, hscalarCacheVars, h⟩ := except_bind_eq_ok.1 h
  obtain ⟨scalarConfigEntries, hscalarConfigEntries, h⟩ := except_bind_eq_ok.1 h
  rw [except_pure_eq_ok] at h
  refine ⟨_, _, h.symm, fun part => ?_⟩
  simp only [List.mem_append, mem_of_mapM_eq_ok harrayCacheVars,
    mem_of_mapM_eq_ok harrayConfigEntries, mem_of_mapM_eq_ok hscalarCacheVars,
    mem_of_mapM_eq_ok hscalarConfigEntries, List.mem_filter, decide_eq_true_eq, VariablePieces]
  constructor
  · rintro ((⟨v, ⟨⟨hv, hwith⟩, -⟩, hpart⟩ | ⟨e, ⟨he, -⟩, hpart⟩) |
      ⟨v, ⟨⟨hv, hwith⟩, -⟩, hpart⟩ | ⟨e, ⟨he, -⟩, hpart⟩)
    · exact .inl ⟨v, hv, hwith, hpart⟩
    · exact .inr ⟨e, he, hpart⟩
    · exact .inl ⟨v, hv, hwith, hpart⟩
    · exact .inr ⟨e, he, hpart⟩
  · rintro (⟨v, hv, hwith, hpart⟩ | ⟨e, he, hpart⟩)
    · cases harray : v.array.isSome with
      | true => exact .inl (.inl ⟨v, ⟨⟨hv, hwith⟩, harray⟩, hpart⟩)
      | false => exact .inr (.inl ⟨v, ⟨⟨hv, hwith⟩, by simpa using harray⟩, hpart⟩)
    · cases harray : e.array.isSome with
      | true => exact .inl (.inr ⟨e, ⟨he, harray⟩, hpart⟩)
      | false => exact .inr (.inr ⟨e, ⟨he, by simpa using harray⟩, hpart⟩)

theorem VariablePieces.balanced {part : List Piece} (h : VariablePieces design className part) :
    Balanced part := by
  rcases h with ⟨v, -, -, h⟩ | ⟨e, -, h⟩
  · exact balanced_cacheVarByConfig h
  · exact balanced_configEntry h

theorem balanced_classContent {arrays scalars : List Piece} (harrays : Balanced arrays)
    (hscalars : Balanced scalars) : Balanced (classContent design className arrays scalars) := by
  refine ((balanced_tagged (by simp [tags]) (by simp [attributeNames]) ?_).append
    ?_).append hscalars
  · refine (balanced_choice (Balanced.append (Balanced.append ?_ ?_) (balanced_logLevels _))).append
      harrays
    · exact balanced_typedElement (balanced_typedElement .nil)
    · exact balanced_flatMap fun hasObjects _ => balanced_innerElement _ _
  · exact .emptyTag ⟨isName_of_mem_tags _ (by simp [tags]), (attributeNames_usage _).1⟩ .nil

theorem balanced_configurationComplexType : Balanced (configurationComplexType design) := by
  refine balanced_tagged (by simp [tags]) (by simp [attributeNames])
    (balanced_tagged (by simp [tags]) (by simp [attributeNames]) ?_)
  refine Balanced.append (Balanced.append (Balanced.append (Balanced.append (Balanced.append
    ?_ ?_) ?_) ?_) ?_) ?_
  · exact balanced_choice (balanced_typedElement .nil)
  · exact balanced_choice (balanced_typedElement .nil)
  · exact balanced_choice (balanced_typedElement .nil)
  · exact balanced_choice (balanced_typedElement .nil)
  · exact balanced_choice (balanced_flatMap fun ho _ => balanced_innerElement _ _)
  · exact balanced_choice (balanced_typedElement (balanced_typedElement .nil))

theorem balanced_configurationElement : Balanced (configurationElement design) :=
  balanced_tagged (by simp [tags]) (by simp [attributeNames])
    (balanced_flatMap fun ho _ => balanced_writeUniqueConstraint ho _ _)

/-- In the schema there are the elements of all classes. -/
theorem of_designToConfigurationXSD (h : designToConfigurationXSD design = .ok pieces) :
    ∃ classes : List (List Piece),
      pieces = element (text "xs:schema") schemaAttributes
        (classes.flatten ++ configurationComplexType design ++ configurationElement design) ∧
      ∀ part, part ∈ classes ↔ ∃ c ∈ design.classes, classComplexType design c.name = .ok part := by
  obtain ⟨classes, hclasses, h⟩ := except_bind_eq_ok.1 h
  rw [except_pure_eq_ok] at h
  refine ⟨classes, h.symm, fun part => ?_⟩
  rw [mem_of_mapM_eq_ok hclasses, getNamesOfAllClasses]
  simp only [List.mem_map, exists_exists_and_eq_and]

theorem balanced_classComplexType (h : classComplexType design className = .ok pieces) :
    Balanced pieces := by
  obtain ⟨arrays, scalars, rfl, hparts⟩ := of_classComplexType h
  have hbalanced : ∀ part ∈ arrays ++ scalars, Balanced part := fun part hpart =>
    ((hparts part).mp hpart).balanced
  rw [List.forall_mem_append] at hbalanced
  exact balanced_tagged (by simp [tags]) (by simp [attributeNames])
    (balanced_classContent (balanced_flatten hbalanced.1) (balanced_flatten hbalanced.2))

/-- One element is around all others, and all are closed. -/
theorem balanced_designToConfigurationXSD (h : designToConfigurationXSD design = .ok pieces) :
    Balanced pieces ∧ ∃ inner, Balanced inner ∧
      pieces = element (text "xs:schema") schemaAttributes inner := by
  obtain ⟨classes, rfl, hclasses⟩ := of_designToConfigurationXSD h
  have hinner : Balanced
      (classes.flatten ++ configurationComplexType design ++ configurationElement design) := by
    refine ((balanced_flatten fun part hpart => ?_).append
      balanced_configurationComplexType).append balanced_configurationElement
    obtain ⟨c, -, hc⟩ := (hclasses part).mp hpart
    exact balanced_classComplexType hc
  exact ⟨balanced_tagged (by simp [tags]) (by simp [attributeNames]) hinner, _, hinner, rfl⟩

end Classes

section Accepted

variable {numbers : NumberLiterals} {locator : Bytes → Bytes → Bytes}
  (design : AcceptedDesign numbers locator) {c : ConfigClass} {v : ConfigCacheVariable}
  {e : ConfigEntryElement}

theorem AcceptedDesign.validateCacheVariable_eq_ok (hc : c ∈ design.classes)
    (hv : v ∈ c.cacheVariables) :
    validateCacheVariable numbers v.toCacheVariableElement (locator c.name v.name) = .ok ⟨⟩ := by
  obtain ⟨_, -, h⟩ := except_bind_eq_ok.1 design.accepted
  obtain ⟨_, hvariables, -⟩ := except_bind_eq_ok.1 h
  exact validateCacheVariable_of_design hvariables
    (List.mem_map_of_mem (f := ConfigClass.toClassElement) hc)
    (List.mem_map_of_mem (f := ConfigCacheVariable.toCacheVariableElement) hv)

theorem AcceptedDesign.acceptedVariable (hc : c ∈ design.classes) (hv : v ∈ c.cacheVariables) :
    AcceptedVariable v.toCacheVariableElement :=
  acceptedVariable_of_validate (design.validateCacheVariable_eq_ok hc hv)

theorem AcceptedDesign.no_default_of_array (hc : c ∈ design.classes) (hv : v ∈ c.cacheVariables)
    (harray : v.array.isSome) : v.defaultConfigInitializerValue = none := by
  obtain ⟨_, -, h⟩ := except_bind_eq_ok.1 (design.validateCacheVariable_eq_ok hc hv)
  obtain ⟨_, -, h⟩ := except_bind_eq_ok.1 h
  obtain ⟨_, h, -⟩ := except_bind_eq_ok.1 h
  obtain ⟨array, hsome⟩ := Option.isSome_iff_exists.mp harray
  rw [validateArrayVariable, hsome] at h
  obtain ⟨_, -, h⟩ := except_bind_eq_ok.1 h
  obtain ⟨_, -, habsent⟩ := except_bind_eq_ok.1 h
  exact assertAttributeAbsent_eq_ok.1 habsent

theorem AcceptedDesign.no_defaultValue_of_array (hc : c ∈ design.classes)
    (he : e ∈ c.configEntries) (harray : e.array.isSome) : e.defaultValue = none := by
  obtain ⟨_, -, h⟩ := except_bind_eq_ok.1 design.accepted
  obtain ⟨_, -, h⟩ := except_bind_eq_ok.1 h
  obtain ⟨_, hentries, -⟩ := except_bind_eq_ok.1 h
  have hentry := forM_eq_ok.1 (forM_eq_ok.1 hentries c hc) e he
  rw [validateConfigEntry, if_pos harray] at hentry
  obtain ⟨_, habsent, -⟩ := except_bind_eq_ok.1 hentry
  exact assertAttributeAbsent_eq_ok.1 habsent

theorem exists_quasarDataTypeToXsdType {dataType : DataType}
    (h : dataType ≠ .uaVariant ∧ dataType ≠ .uaByteString) :
    ∃ xsdType, quasarDataTypeToXsdType dataType = .ok xsdType := by
  cases dataType with
  | uaVariant => exact absurd rfl h.1
  | uaByteString => exact absurd rfl h.2
  | _ => exact ⟨_, rfl⟩

theorem AcceptedDesign.exists_cacheVarByConfig (hc : c ∈ design.classes)
    (hv : v ∈ c.cacheVariables) (hwith : v.initializeWith = .configuration) :
    ∃ part, cacheVarByConfig design.toConfigDesign c.name v = .ok part := by
  have huntyped := (design.acceptedVariable hc hv).untyped
  have hdataType : v.dataType ≠ .uaVariant ∧ v.dataType ≠ .uaByteString := by
    rw [← not_or]
    intro htype
    rw [hwith] at huntyped
    cases (huntyped htype).1
  obtain ⟨xsdType, hxsdType⟩ := exists_quasarDataTypeToXsdType hdataType
  rw [cacheVarByConfig]
  split
  · rw [writeArrayCacheVarOrConfigEntry, hxsdType]
    exact ⟨_, rfl⟩
  · rw [scalarCacheVar, hxsdType]
    exact ⟨_, rfl⟩

theorem AcceptedDesign.exists_configEntry (hc : c ∈ design.classes) (he : e ∈ c.configEntries) :
    ∃ part, configEntry design.toConfigDesign c.name e = .ok part := by
  obtain ⟨xsdType, hxsdType⟩ :=
    exists_quasarDataTypeToXsdType (design.validElements.configEntryDataType c hc e he)
  rw [configEntry]
  split
  · rw [writeArrayCacheVarOrConfigEntry, hxsdType]
    exact ⟨_, rfl⟩
  · rw [scalarConfigEntry, hxsdType]
    exact ⟨_, rfl⟩

theorem exists_mapM_of_forall {ε α β : Type} {f : α → Except ε β} {as : List α}
    (h : ∀ a ∈ as, ∃ b, f a = .ok b) : ∃ bs, as.mapM f = .ok bs :=
  (exists_mapM_eq_ok fun _ => Iff.rfl).mpr h

theorem AcceptedDesign.exists_classComplexType (hc : c ∈ design.classes) :
    ∃ part, classComplexType design.toConfigDesign c.name = .ok part := by
  have hvariables : ∀ p : ConfigCacheVariable → Bool, ∃ parts,
      ((c.cacheVariables.filter fun v => v.initializeWith = .configuration).filter p).mapM
        (cacheVarByConfig design.toConfigDesign c.name) = .ok parts := by
    intro p
    refine exists_mapM_of_forall fun v hv => ?_
    simp only [List.mem_filter, decide_eq_true_eq] at hv
    exact design.exists_cacheVarByConfig hc hv.1.1 hv.1.2
  have hentries : ∀ p : ConfigEntryElement → Bool, ∃ parts,
      (c.configEntries.filter p).mapM (configEntry design.toConfigDesign c.name) =
        .ok parts := by
    intro p
    refine exists_mapM_of_forall fun e he => ?_
    exact design.exists_configEntry hc (List.mem_of_mem_filter he)
  obtain ⟨_, harrayCacheVars⟩ := hvariables fun v => v.array.isSome
  obtain ⟨_, harrayConfigEntries⟩ := hentries fun e => e.array.isSome
  obtain ⟨_, hscalarCacheVars⟩ := hvariables fun v => v.array.isNone
  obtain ⟨_, hscalarConfigEntries⟩ := hentries fun e => e.array.isNone
  simp only [classComplexType, design.validElements.objectifyCacheVariables_eq hc,
    design.validElements.objectifyConfigEntries_eq hc, harrayCacheVars, harrayConfigEntries,
    hscalarCacheVars, hscalarConfigEntries]
  exact ⟨_, rfl⟩

/-- The template does not fail on a design that has been accepted. -/
theorem AcceptedDesign.exists_designToConfigurationXSD :
    ∃ pieces, designToConfigurationXSD design.toConfigDesign = .ok pieces := by
  obtain ⟨classes, hclasses⟩ : ∃ classes, (getNamesOfAllClasses design.toConfigDesign).mapM
      (classComplexType design.toConfigDesign) = .ok classes := by
    refine exists_mapM_of_forall fun className hname => ?_
    obtain ⟨c, hc, rfl⟩ := List.mem_map.mp hname
    exact design.exists_classComplexType hc
  rw [designToConfigurationXSD, hclasses]
  exact ⟨_, rfl⟩

end Accepted

end Quasar

end Supernova
