/-
What the schema of configuration files is read as: the names and the texts of the template
come through in any case, and of what is pasted for a variable its default, its restrictions
and its documentation have to.
-/
import Supernova.ConfigurationSchema

namespace Supernova

attribute [local semireducible] ByteArray.toList.loop

namespace Quasar

open Xml

section Constants

/-- What the template writes itself, as the values of attributes and into them. -/
def constants : List Bytes :=
  [text "name", text "value", text "0", text "1", text "unbounded", text "optional",
    text "required", text "_", text "_is_unique", text "@", text "tns:", text "tns:ObjectName",
    text "tns:Configuration", text "configuration", text "Configuration",
    text "CalculatedVariable", text "FreeVariable", text "StandardMetaData", text "PubSub",
    text "Fx", text "CalculatedVariableGenericFormula", text "GeneralLogLevel",
    text "ComponentLogLevel"] ++ schemaAttributes.map Prod.snd

theorem plainValue_of_mem_constants : ∀ s ∈ constants, PlainValue s := by
  decide

theorem default_ne :
    text "default" ≠ text "use" ∧ text "default" ≠ text "name" ∧ text "default" ≠ text "type" := by
  decide

end Constants

section Survival

variable {design : ConfigDesign} {className name : Bytes}

theorem plainValue_of_word (h : ∀ b ∈ name, isWordByte b = true) : PlainValue name := by
  intro b hb
  have hword := h b hb
  simp only [isWordByte, isDigit, Bool.or_eq_true, Bool.and_eq_true, decide_eq_true_eq,
    UInt8.le_iff_toNat_le, ← UInt8.toNat_inj, UInt8.reduceToNat] at hword
  simp only [ne_eq, ← UInt8.toNat_inj, UInt8.le_iff_toNat_le, UInt8.reduceToNat]
  omega

theorem plainValue_digits (limit : SizeLimit) : PlainValue limit.digits := by
  refine plainValue_of_word fun b hb => ?_
  simp [isWordByte, limit.digits_isDigit b hb]

theorem plainValue_intercalate {names : List Bytes} (h : ∀ name ∈ names, PlainValue name) :
    PlainValue ((text "_").intercalate names) := by
  induction names with
  | nil => exact fun _ hb => absurd hb List.not_mem_nil
  | cons name names ih =>
      rw [List.forall_mem_cons] at h
      cases names with
      | nil => simpa using h.1
      | cons name' names =>
          have hseparator := plainValue_of_mem_constants (text "_") (by simp [constants])
          rw [List.intercalate_cons_cons, plainValue_append, plainValue_append]
          exact ⟨⟨h.1, hseparator⟩, ih h.2⟩

theorem plain_usage_iff {default : Option Bytes} :
    (∀ a ∈ usage default, PlainValue a.2) ↔ PlainValue (default.getD []) := by
  rw [usage]
  split_ifs with hempty
  · have hrequired := plainValue_of_mem_constants (text "required") (by simp [constants])
    rw [hempty, List.forall_mem_singleton]
    exact iff_of_true hrequired fun _ hb => absurd hb List.not_mem_nil
  · have hoptional := plainValue_of_mem_constants (text "optional") (by simp [constants])
    simp [hoptional]

theorem plainValue_xsdType {dataType : DataType} {xsdType : Bytes}
    (h : quasarDataTypeToXsdType dataType = .ok xsdType) : PlainValue xsdType := by
  cases dataType <;> cases h <;> decide

/-- The documentation is content on its own, with the blanks of the template. -/
def DocumentationSurvives (documentation : Option Documentation) : Prop :=
  ∀ d, documentation = some d →
    ∃ tokens, Contributes (documentationText [d]) tokens ∧ Content tokens

/-- Documentation without markup of its own is content. -/
theorem documentationSurvives_of_plain {documentation : Option Documentation}
    (h : ∀ d, documentation = some d → PlainContent (d.text.getD (text "None"))) :
    DocumentationSurvives documentation := by
  intro d hd
  have hblanks : ∀ c ∈ (text "\n      " ++ text "        ") ++ (text "\n      " ++ text "      "),
      c = 32 ∨ c = 10 := List.forall_iff_forall_mem.1 (by decide)
  have hplain := (h d hd).between hblanks
  have htext : documentationText [d] = (text "\n      " ++ text "        ") ++
      d.text.getD (text "None") ++ (text "\n      " ++ text "      ") := by
    simp [documentationText]
  rw [← htext] at hplain
  exact ⟨_, contributes_of_plain hplain, content_chars _⟩

theorem allSurvive_writeDocumentation {documentation : Option Documentation} :
    AllSurvive (writeDocumentation documentation.toList) ↔
      DocumentationSurvives documentation := by
  cases documentation with
  | none => simp [writeDocumentation, DocumentationSurvives]
  | some d => simp [writeDocumentation, DocumentationSurvives, Piece.Survives]

theorem allSurvive_writeRestrictions {xsdType : Bytes} {restrictions : List (Bytes × Bytes)}
    (hxsdType : PlainValue xsdType) :
    AllSurvive (writeRestrictions xsdType restrictions) ↔ ∀ r ∈ restrictions, PlainValue r.2 := by
  rw [writeRestrictions, allSurvive_element, allSurvive_element, allSurvive_emptyTags]
  simp [hxsdType]

/-- What is left of an attribute is its default, its restrictions and its documentation. -/
theorem allSurvive_scalarAttribute {xsdType : Bytes} {plain restricted : List (Bytes × Bytes)}
    {default : Option Bytes} {restriction : Option ConfigRestriction}
    {documentation : Option Documentation} (hxsdType : PlainValue xsdType)
    (hdocumentation : objectifyDocumentation design className name = documentation.toList)
    (hplain : (∀ a ∈ plain, PlainValue a.2) ↔ PlainValue (default.getD []))
    (hrestricted : (∀ a ∈ restricted, PlainValue a.2) ↔ PlainValue (default.getD [])) :
    AllSurvive (scalarAttribute design className name xsdType plain restricted
        (restrictionPairs restriction)) ↔
      PlainValue (default.getD []) ∧
      DocumentationSurvives documentation ∧ ∀ r ∈ restrictionPairs restriction, PlainValue r.2 := by
  rw [scalarAttribute, hdocumentation]
  split_ifs with hnone
  · rw [allSurvive_element, hplain, allSurvive_writeDocumentation, hnone]
    simp
  · rw [allSurvive_element, hrestricted, allSurvive_append, allSurvive_writeDocumentation,
      allSurvive_writeRestrictions hxsdType]

theorem allSurvive_writeArray {dataType : DataType} {array : ArrayElement}
    {what : RestrictedElement} {restriction : Option ConfigRestriction}
    {documentation : Option Documentation} {pieces : List Piece} (hname : PlainValue name)
    (hdocumentation : objectifyDocumentation design className name = documentation.toList)
    (hrestriction : getRestrictions design className name what = restrictionPairs restriction)
    (h : writeArrayCacheVarOrConfigEntry design className name dataType array what = .ok pieces) :
    AllSurvive pieces ↔
      DocumentationSurvives documentation ∧ ∀ r ∈ restrictionPairs restriction, PlainValue r.2 := by
  obtain ⟨xsdType, hxsdType, h⟩ := except_bind_eq_ok.1 h
  rw [except_pure_eq_ok, hdocumentation, hrestriction] at h
  subst h
  have hxsdType := plainValue_xsdType hxsdType
  have hvalue := plainValue_of_mem_constants (text "value") (by simp [constants])
  have hminimum : PlainValue (array.minimumSize.elim (text "0") SizeLimit.digits) := by
    cases array.minimumSize with
    | none => exact plainValue_of_mem_constants _ (by simp [constants])
    | some limit => exact plainValue_digits limit
  have hmaximum : PlainValue (array.maximumSize.elim (text "unbounded") SizeLimit.digits) := by
    cases array.maximumSize with
    | none => exact plainValue_of_mem_constants _ (by simp [constants])
    | some limit => exact plainValue_digits limit
  rw [allSurvive_element, allSurvive_element, allSurvive_append, allSurvive_writeDocumentation,
    allSurvive_element]
  have hinner : AllSurvive (if restrictionPairs restriction = [] then
        [.emptyTag (text "xs:element") [(text "name", text "value"), (text "type", xsdType)]]
      else element (text "xs:element") [(text "name", text "value")]
        (writeRestrictions xsdType (restrictionPairs restriction))) ↔
      ∀ r ∈ restrictionPairs restriction, PlainValue r.2 := by
    split_ifs with hnone
    · simp [hnone, Piece.Survives, hvalue, hxsdType]
    · rw [allSurvive_element, allSurvive_writeRestrictions hxsdType]
      simp [hvalue]
  rw [hinner]
  simp [hname, hminimum, hmaximum]

end Survival

section Classes

variable {design : ConfigDesign} {c : ConfigClass}

theorem ValidElements.plain_hasObjects (h : ValidElements design) {parent : ParentClass}
    {ho : HasObjects} (hho : ho ∈ objectifyHasObjects design.toDesign parent) :
    PlainValue ho.className := by
  have hkey : ho.className ∈ design.toDesign.classes.map DesignClass.name := by
    cases parent with
    | root => exact h.validNames.rootHasObjectsKeyref ho hho
    | named className =>
        obtain ⟨c, hc, hho⟩ := List.mem_flatMap.mp hho
        exact h.validNames.classHasObjectsKeyref c (List.mem_of_mem_filter hc) ho hho
  rw [ConfigDesign.toDesign, List.map_map] at hkey
  obtain ⟨c, hc, heq⟩ := List.mem_map.mp hkey
  rw [← heq]
  exact plainValue_of_word (h.className c hc)

theorem ValidElements.plain_configEntry (h : ValidElements design) {className : Bytes}
    {e : ConfigEntryElement} (he : e ∈ objectifyConfigEntries design className) :
    PlainValue e.name := by
  obtain ⟨c, hc, he⟩ := List.mem_flatMap.mp he
  exact plainValue_of_word (h.variableName c (List.mem_of_mem_filter hc) e.name
    (List.mem_append_right _ (List.mem_map_of_mem he)))

theorem ValidElements.allSurvive_writeUniqueConstraint (h : ValidElements design)
    {ho : HasObjects} {parent : ParentClass} {parentPath : List Bytes}
    (hho : ho ∈ objectifyHasObjects design.toDesign parent)
    (hpath : ∀ name ∈ parentPath, PlainValue name) :
    AllSurvive (writeUniqueConstraintPerHasObjects design ho ho.className parentPath) := by
  rw [writeUniqueConstraintPerHasObjects, allSurvive_flatMap]
  intro e he
  have hclassName := h.plain_hasObjects hho
  have hname := h.plain_configEntry (List.mem_of_mem_filter he)
  have hjoined : PlainValue ((text "_").intercalate
      (parentPath ++ [ho.className] ++ [ho.className, e.name])) := by
    apply plainValue_intercalate
    simp only [List.forall_mem_append, List.forall_mem_cons]
    exact ⟨⟨hpath, hclassName, by simp⟩, hclassName, hname, by simp⟩
  have hunique := plainValue_of_mem_constants (text "_is_unique") (by simp [constants])
  have htns := plainValue_of_mem_constants (text "tns:") (by simp [constants])
  have hat := plainValue_of_mem_constants (text "@") (by simp [constants])
  simpa [Piece.Survives, hunique, htns, hat, hclassName, hname] using hjoined

theorem ValidElements.allSurvive_innerElement (h : ValidElements design) {ho : HasObjects}
    {parent : ParentClass} {name : Bytes}
    (hho : ho ∈ objectifyHasObjects design.toDesign parent) (hname : PlainValue name) :
    AllSurvive (innerElement design name ho.className) := by
  have hclassName := h.plain_hasObjects hho
  have htns := plainValue_of_mem_constants (text "tns:") (by simp [constants])
  rw [innerElement, allSurvive_element, allSurvive_flatMap]
  refine ⟨by simp [htns, hclassName], fun inner hinner => ?_⟩
  exact h.allSurvive_writeUniqueConstraint hinner (by simp [hname, hclassName])

theorem survives_typedElement {name : Bytes} (h : name ∈ constants) :
    (typedElement name).Survives := by
  have hname := plainValue_of_mem_constants name h
  have htns := plainValue_of_mem_constants (text "tns:") (by simp [constants])
  simp [typedElement, Piece.Survives, hname, htns]

theorem allSurvive_choice {maxOccurs : Bytes} {inner : List Piece} (h : PlainValue maxOccurs) :
    AllSurvive (choice maxOccurs inner) ↔ AllSurvive inner := by
  have hzero := plainValue_of_mem_constants (text "0") (by simp [constants])
  rw [choice, allSurvive_element]
  simp [h, hzero]

theorem allSurvive_logLevels (className : Bytes) : AllSurvive (logLevels className) := by
  have htns := plainValue_of_mem_constants (text "tns:") (by simp [constants])
  have hzero := plainValue_of_mem_constants (text "0") (by simp [constants])
  have hone := plainValue_of_mem_constants (text "1") (by simp [constants])
  have hunbounded := plainValue_of_mem_constants (text "unbounded") (by simp [constants])
  have hgeneral := plainValue_of_mem_constants (text "GeneralLogLevel") (by simp [constants])
  have hcomponent := plainValue_of_mem_constants (text "ComponentLogLevel") (by simp [constants])
  rw [logLevels, allSurvive_append]
  constructor
  · split_ifs
    · simp [Piece.Survives, htns, hzero, hone, hgeneral]
    · exact allSurvive_nil
  · split_ifs
    · simp [Piece.Survives, htns, hzero, hunbounded, hcomponent]
    · exact allSurvive_nil

theorem ValidElements.allSurvive_classContent (h : ValidElements design)
    (hc : c ∈ design.classes) {arrays scalars : List Piece} :
    AllSurvive (classContent design c.name arrays scalars) ↔
      PlainValue (c.defaultInstanceName.getD []) ∧ AllSurvive arrays ∧ AllSurvive scalars := by
  have hname : PlainValue c.name := plainValue_of_word (h.className c hc)
  have hunbounded := plainValue_of_mem_constants (text "unbounded") (by simp [constants])
  have hnameText := plainValue_of_mem_constants (text "name") (by simp [constants])
  have htype := plainValue_of_mem_constants (text "tns:ObjectName") (by simp [constants])
  have htyped : AllSurvive
      [typedElement (text "CalculatedVariable"), typedElement (text "FreeVariable")] := by
    simp only [allSurvive_cons, allSurvive_nil, and_true]
    exact ⟨survives_typedElement (by simp [constants]), survives_typedElement (by simp [constants])⟩
  have hinner : AllSurvive ((objectifyHasObjects design.toDesign (.named c.name)).flatMap
      fun hasObjects => innerElement design c.name hasObjects.className) :=
    allSurvive_flatMap.2 fun ho hho => h.allSurvive_innerElement hho hname
  have hattribute : AllSurvive [.emptyTag (text "xs:attribute") ((text "name", text "name") ::
      (text "type", text "tns:ObjectName") :: usage c.defaultInstanceName)] ↔
      PlainValue (c.defaultInstanceName.getD []) := by
    rw [allSurvive_cons, Piece.Survives, List.forall_mem_cons, List.forall_mem_cons,
      plain_usage_iff]
    simp [hnameText, htype]
  rw [classContent, allSurvive_append, allSurvive_append, allSurvive_element,
    allSurvive_append, allSurvive_choice hunbounded, allSurvive_append, allSurvive_append,
    h.getClassDefaultInstanceName_eq hc, hattribute]
  have hlogLevels := allSurvive_logLevels c.name
  simp only [htyped, hinner, hlogLevels, List.not_mem_nil, false_implies, implies_true, true_and]
  tauto

theorem ValidElements.allSurvive_configurationComplexType (h : ValidElements design) :
    AllSurvive (configurationComplexType design) := by
  have hname := plainValue_of_mem_constants (text "Configuration") (by simp [constants])
  have hconfiguration := plainValue_of_mem_constants (text "configuration") (by simp [constants])
  have hone := plainValue_of_mem_constants (text "1") (by simp [constants])
  have hunbounded := plainValue_of_mem_constants (text "unbounded") (by simp [constants])
  have htyped : ∀ name ∈ [text "StandardMetaData", text "PubSub", text "Fx",
      text "CalculatedVariableGenericFormula", text "CalculatedVariable", text "FreeVariable"],
      (typedElement name).Survives := by
    simp only [List.forall_mem_cons]
    refine ⟨?_, ?_, ?_, ?_, ?_, ?_, by simp⟩ <;> exact survives_typedElement (by simp [constants])
  have hinner : AllSurvive (((rootByConfiguration design).filter fun ho =>
      ho.className ≠ text "StandardMetaData").flatMap
      fun ho => innerElement design (text "configuration") ho.className) := by
    refine allSurvive_flatMap.2 fun ho hho => ?_
    have hroot : ho ∈ objectifyHasObjects design.toDesign .root :=
      List.mem_of_mem_filter (List.mem_of_mem_filter hho)
    exact h.allSurvive_innerElement hroot hconfiguration
  simp only [List.forall_mem_cons] at htyped
  obtain ⟨hmeta, hpubSub, hfx, hformula, hcalculated, hfree, -⟩ := htyped
  rw [configurationComplexType]
  simp only [allSurvive_element, allSurvive_append, allSurvive_choice hone,
    allSurvive_choice hunbounded, allSurvive_cons, allSurvive_nil, hmeta, hpubSub, hfx, hformula,
    hcalculated, hfree, hinner]
  simp [hname]

theorem ValidElements.allSurvive_configurationElement (h : ValidElements design) :
    AllSurvive (configurationElement design) := by
  have hname := plainValue_of_mem_constants (text "configuration") (by simp [constants])
  have htype := plainValue_of_mem_constants (text "tns:Configuration") (by simp [constants])
  rw [configurationElement, allSurvive_element, allSurvive_flatMap]
  refine ⟨by simp [hname, htype], fun ho hho => ?_⟩
  have hroot : ho ∈ objectifyHasObjects design.toDesign .root := List.mem_of_mem_filter hho
  exact h.allSurvive_writeUniqueConstraint hroot (by simp [hname])

/-- What is left of the schema are the names of instances and the variables. -/
theorem ValidElements.allSurvive_designToConfigurationXSD (h : ValidElements design)
    {pieces : List Piece} (hpieces : designToConfigurationXSD design = .ok pieces)
    (hclasses : ∀ c ∈ design.classes, ∃ part, classComplexType design c.name = .ok part) :
    AllSurvive pieces ↔ ∀ c ∈ design.classes, PlainValue (c.defaultInstanceName.getD []) ∧
      ∀ part, VariablePieces design c.name part → AllSurvive part := by
  obtain ⟨classes, rfl, hmem⟩ := of_designToConfigurationXSD hpieces
  have hattributes : ∀ a ∈ schemaAttributes, PlainValue a.2 := fun a ha =>
    plainValue_of_mem_constants _ (List.mem_append_right _ (List.mem_map_of_mem ha))
  have hclass : ∀ c ∈ design.classes, ∀ part, classComplexType design c.name = .ok part →
      (AllSurvive part ↔ PlainValue (c.defaultInstanceName.getD []) ∧
        ∀ part, VariablePieces design c.name part → AllSurvive part) := by
    intro c hc part hpart
    obtain ⟨arrays, scalars, rfl, hparts⟩ := of_classComplexType hpart
    have hname : PlainValue c.name := plainValue_of_word (h.className c hc)
    rw [allSurvive_element, h.allSurvive_classContent hc, allSurvive_flatten, allSurvive_flatten,
      ← List.forall_mem_append]
    simp only [hparts]
    simp [hname]
  rw [allSurvive_element, allSurvive_append, allSurvive_append, allSurvive_flatten]
  simp only [hmem, h.allSurvive_configurationComplexType, h.allSurvive_configurationElement,
    and_true]
  constructor
  · rintro ⟨-, hsurvive⟩ c hc
    obtain ⟨part, hpart⟩ := hclasses c hc
    exact (hclass c hc part hpart).mp (hsurvive part ⟨c, hc, hpart⟩)
  · intro hsurvive
    refine ⟨hattributes, ?_⟩
    rintro part ⟨c, hc, hpart⟩
    exact (hclass c hc part hpart).mpr (hsurvive c hc)

end Classes

section Variables

variable {design : ConfigDesign} {className name : Bytes} {default : Option Bytes}
  {restriction : Option ConfigRestriction} {documentation : Option Documentation}
  {part : List Piece}

/-- What the pieces of a variable are made of. -/
structure VariableMarkup (name : Bytes) (default : Option Bytes)
    (restriction : Option ConfigRestriction) (documentation : Option Documentation)
    (part : List Piece) : Prop where
  balanced : Balanced part
  survives : AllSurvive part ↔ PlainValue (default.getD []) ∧
    DocumentationSurvives documentation ∧ ∀ r ∈ restrictionPairs restriction, PlainValue r.2
  opens : ∃ tag attributes inner, part = element tag attributes inner ∧
    (text "name", name) ∈ attributes ∧
    ∀ value, (text "default", value) ∈ attributes ↔ default.getD [] = value ∧ value ≠ []
  restrictions : ∀ r ∈ restrictionPairs restriction,
    .emptyTag (text "xs:" ++ r.1) [(text "value", r.2)] ∈ part

theorem mem_usage {value : Bytes} :
    (text "default", value) ∈ usage default ↔ default.getD [] = value ∧ value ≠ [] := by
  rw [usage]
  split_ifs with hempty
  · simp only [List.mem_singleton, Prod.mk.injEq, default_ne.1, false_and, hempty, false_iff]
    rintro ⟨rfl, hne⟩
    exact hne rfl
  · simp only [List.mem_cons, Prod.mk.injEq, default_ne.1, false_and, true_and, false_or,
      List.not_mem_nil, or_false]
    constructor
    · rintro rfl
      exact ⟨rfl, hempty⟩
    · rintro ⟨rfl, -⟩
      rfl

theorem mem_writeRestrictions {xsdType : Bytes} {restrictions : List (Bytes × Bytes)}
    {r : Bytes × Bytes} (h : r ∈ restrictions) :
    .emptyTag (text "xs:" ++ r.1) [(text "value", r.2)] ∈
      writeRestrictions xsdType restrictions := by
  have hmem : Piece.emptyTag (text "xs:" ++ r.1) [(text "value", r.2)] ∈ restrictions.map
      fun r => Piece.emptyTag (text "xs:" ++ r.1) [(text "value", r.2)] :=
    List.mem_map.mpr ⟨r, h, rfl⟩
  simp [writeRestrictions, element, hmem]

/-- An attribute can have its type in front of its default or behind it. -/
theorem variableMarkup_scalar {xsdType : Bytes} {plain restricted : List (Bytes × Bytes)}
    {what : RestrictedElement} (hname : PlainValue name) (hxsdType : PlainValue xsdType)
    (hdocumentation : objectifyDocumentation design className name = documentation.toList)
    (hrestriction : getRestrictions design className name what = restrictionPairs restriction)
    (hplain : plain.Perm ((text "name", name) :: (text "type", xsdType) :: usage default))
    (hrestricted : restricted = (text "name", name) :: usage default) :
    VariableMarkup name default restriction documentation
      (scalarAttribute design className name xsdType plain restricted
        (getRestrictions design className name what)) := by
  subst hrestricted
  obtain ⟨hnames, hnames', -⟩ := attributeNames_usage default
  have hdefault := default_ne.2
  have hmem : ∀ value, (text "default", value) ∈ plain ↔ default.getD [] = value ∧ value ≠ [] := by
    intro value
    rw [hplain.mem_iff, ← mem_usage]
    simp [hdefault]
  have hmem' : ∀ value, (text "default", value) ∈ (text "name", name) :: usage default ↔
      default.getD [] = value ∧ value ≠ [] := by
    intro value
    rw [← mem_usage]
    simp [hdefault]
  refine ⟨balanced_scalarAttribute ?_ hnames', ?_, ?_, ?_⟩
  · have hperm := hplain.map Prod.fst
    exact ⟨fun name hmem => hnames.1 name (hperm.mem_iff.mp hmem), hperm.nodup_iff.mpr hnames.2⟩
  · rw [hrestriction]
    refine allSurvive_scalarAttribute hxsdType hdocumentation ?_ ?_
    · simp only [hplain.mem_iff, List.forall_mem_cons, plain_usage_iff]
      simp [hname, hxsdType]
    · rw [List.forall_mem_cons, plain_usage_iff]
      simp [hname]
  · rw [scalarAttribute]
    split_ifs
    · exact ⟨_, _, _, rfl, hplain.mem_iff.mpr List.mem_cons_self, hmem⟩
    · exact ⟨_, _, _, rfl, List.mem_cons_self, hmem'⟩
  · intro r hr
    rw [scalarAttribute, hrestriction, if_neg (List.ne_nil_of_mem hr)]
    simp [element, mem_writeRestrictions hr]

theorem variableMarkup_array {dataType : DataType} {array : ArrayElement}
    {what : RestrictedElement} (hname : PlainValue name) (hdefault : default = none)
    (hdocumentation : objectifyDocumentation design className name = documentation.toList)
    (hrestriction : getRestrictions design className name what = restrictionPairs restriction)
    (h : writeArrayCacheVarOrConfigEntry design className name dataType array what = .ok part) :
    VariableMarkup name default restriction documentation part := by
  have hplain : PlainValue (default.getD []) := by
    rw [hdefault]
    exact fun _ hb => absurd hb List.not_mem_nil
  refine ⟨balanced_writeArrayCacheVarOrConfigEntry h, ?_, ?_, ?_⟩
  · rw [allSurvive_writeArray hname hdocumentation hrestriction h]
    exact (and_iff_right hplain).symm
  · obtain ⟨xsdType, -, h⟩ := except_bind_eq_ok.1 h
    rw [except_pure_eq_ok] at h
    subst h
    refine ⟨_, _, _, rfl, List.mem_cons_self, fun value => ?_⟩
    simp only [List.mem_singleton, Prod.mk.injEq, default_ne.2.1, false_and, hdefault, false_iff]
    rintro ⟨rfl, hvalue⟩
    exact hvalue rfl
  · intro r hr
    obtain ⟨xsdType, -, h⟩ := except_bind_eq_ok.1 h
    rw [except_pure_eq_ok, hrestriction, if_neg (List.ne_nil_of_mem hr)] at h
    subst h
    simp [element, mem_writeRestrictions hr]

end Variables

section Accepted

variable {numbers : NumberLiterals} {locator : Bytes → Bytes → Bytes}
  (design : AcceptedDesign numbers locator) {c : ConfigClass} {v : ConfigCacheVariable}
  {e : ConfigEntryElement} {part : List Piece}

theorem AcceptedDesign.cacheVariable_markup (hc : c ∈ design.classes)
    (hv : v ∈ c.cacheVariables) (h : cacheVarByConfig design.toConfigDesign c.name v = .ok part) :
    VariableMarkup v.name v.defaultConfigInitializerValue v.configRestriction v.documentation
      part := by
  have hvalid := design.validElements
  have hname : PlainValue v.name := plainValue_of_word (hvalid.variableName c hc v.name
    (List.mem_append_left _ (List.mem_map_of_mem (f := fun v => v.name) hv)))
  have hdocumentation := hvalid.cacheVariable_documentation hc hv
  have hrestriction := hvalid.cacheVariable_restrictions hc hv
  rw [cacheVarByConfig] at h
  split at h
  · rename_i array harray
    have hdefault := design.no_default_of_array hc hv (by rw [harray]; rfl)
    exact variableMarkup_array hname hdefault hdocumentation hrestriction h
  · obtain ⟨xsdType, hxsdType, h⟩ := except_bind_eq_ok.1 h
    rw [except_pure_eq_ok] at h
    subst h
    exact variableMarkup_scalar hname (plainValue_xsdType hxsdType) hdocumentation hrestriction
      (.refl _) rfl

theorem AcceptedDesign.configEntry_markup (hc : c ∈ design.classes) (he : e ∈ c.configEntries)
    (h : configEntry design.toConfigDesign c.name e = .ok part) :
    VariableMarkup e.name e.defaultValue e.configRestriction e.documentation part := by
  have hvalid := design.validElements
  have hname : PlainValue e.name := plainValue_of_word (hvalid.variableName c hc e.name
    (List.mem_append_right _ (List.mem_map_of_mem he)))
  have hdocumentation := hvalid.configEntry_documentation hc he
  have hrestriction := hvalid.configEntry_restrictions hc he
  rw [configEntry] at h
  split at h
  · rename_i array harray
    have hdefault := design.no_defaultValue_of_array hc he (by rw [harray]; rfl)
    exact variableMarkup_array hname hdefault hdocumentation hrestriction h
  · obtain ⟨xsdType, hxsdType, h⟩ := except_bind_eq_ok.1 h
    rw [except_pure_eq_ok] at h
    subst h
    exact variableMarkup_scalar hname (plainValue_xsdType hxsdType) hdocumentation hrestriction
      ((List.perm_append_singleton _ _).cons _) rfl

end Accepted

end Quasar

end Supernova
