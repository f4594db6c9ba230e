/-
The texts of a design in what is generated from it: initial values in string literals, and
default values and restrictions in the schema of configuration files.  Nothing is escaped on
the way, so a text comes through exactly if it is plain where it is pasted.
-/
import Supernova.SchemaTexts

namespace Supernova

attribute [local semireducible] ByteArray.toList.loop

namespace Quasar

open Xml

section Texts

variable (trigraphs : Bool) (design : ConfigDesign)

/-- The literal in the generated constructor, if there is one: an empty text is no value. -/
def initialLiteral (v : CacheVariableElement) : Option Bytes :=
  if v.initializeWith = .valueAndStatus ∧ v.array.isNone ∧ v.initialValue.getD [] ≠ [] then
    some (wrapLiteral v.dataType (v.initialValue.getD []))
  else none

/-- In the element of the class, the pieces of the variable are read as an element with its
name and its default, and with its restrictions inside. -/
def Declares (tokens : List Token) (className name : Bytes) (pieces : List Piece)
    (default : Option Bytes) (restrictions : List (Bytes × Bytes)) : Prop :=
  ∃ inner tag attributes rest,
    Inside tokens (text "xs:complexType") [(text "name", className)] inner ∧
    .startTag tag attributes :: rest <:+: inner ∧
    Meant pieces (.startTag tag attributes :: rest) ∧
    (text "name", name) ∈ attributes ∧
    (∀ value, default = some value → (text "default", value) ∈ attributes) ∧
    ∀ r ∈ restrictions, .emptyTag (text "xs:" ++ r.1) [(text "value", r.2)] ∈ rest

/-- What was read says of every class and every variable what the design says. -/
structure DeclaresDesign (tokens : List Token) : Prop where
  instanceNames : ∀ c ∈ design.classes, ∀ name, c.defaultInstanceName = some name →
    ∃ inner, Inside tokens (text "xs:complexType") [(text "name", c.name)] inner ∧
      .emptyTag (text "xs:attribute") [(text "name", text "name"),
        (text "type", text "tns:ObjectName"), (text "use", text "optional"),
        (text "default", name)] ∈ inner
  cacheVariables : ∀ c ∈ design.classes, ∀ v ∈ c.cacheVariables,
    v.initializeWith = .configuration → ∃ pieces, cacheVarByConfig design c.name v = .ok pieces ∧
      Declares tokens c.name v.name pieces v.defaultConfigInitializerValue
        (restrictionPairs v.configRestriction)
  configEntries : ∀ c ∈ design.classes, ∀ e ∈ c.configEntries,
    ∃ pieces, configEntry design c.name e = .ok pieces ∧
      Declares tokens c.name e.name pieces e.defaultValue (restrictionPairs e.configRestriction)

/-- Initial values are what their literals denote, and the schema is a document that is read
as it was meant, with the texts of the design in it. -/
structure TextsSurvive : Prop where
  initialValues : ∀ c ∈ design.classes, ∀ v ∈ c.cacheVariables, v.dataType = .uaString →
    ∀ value, v.initialValue = some value → ∃ literal,
      initialLiteral v.toCacheVariableElement = some literal ∧
      StringLiteral trigraphs literal value
  schema : ∃ pieces tokens, designToConfigurationXSD design = .ok pieces ∧
    Meant pieces tokens ∧ Reads (pasteAll pieces) tokens ∧ Document tokens ∧
    DeclaresDesign design tokens

/-- What is pasted for a variable is plain where it is pasted, and its default is not empty. -/
structure PlainVariable (default : Option Bytes) (restriction : Option ConfigRestriction)
    (documentation : Option Documentation) : Prop where
  default : ∀ value, default = some value → value ≠ [] ∧ PlainValue value
  restrictions : ∀ r ∈ restrictionPairs restriction, PlainValue r.2
  documentation : DocumentationSurvives documentation

structure PlainTexts : Prop where
  initialValues : ∀ c ∈ design.classes, ∀ v ∈ c.cacheVariables, v.dataType = .uaString →
    ∀ value, v.initialValue = some value → value ≠ [] ∧ PlainLiteral trigraphs value
  instanceNames : ∀ c ∈ design.classes, ∀ name, c.defaultInstanceName = some name →
    PlainValue name
  cacheVariables : ∀ c ∈ design.classes, ∀ v ∈ c.cacheVariables,
    v.initializeWith = .configuration →
    PlainVariable v.defaultConfigInitializerValue v.configRestriction v.documentation
  configEntries : ∀ c ∈ design.classes, ∀ e ∈ c.configEntries,
    PlainVariable e.defaultValue e.configRestriction e.documentation

end Texts

section Variables

variable {className name : Bytes} {default : Option Bytes}
  {restriction : Option ConfigRestriction} {documentation : Option Documentation}
  {part pieces : List Piece} {tokens : List Token}

theorem VariableMarkup.plainVariable
    (h : VariableMarkup name default restriction documentation part) (hsurvive : AllSurvive part)
    (hdeclares : Declares tokens className name part default (restrictionPairs restriction)) :
    PlainVariable default restriction documentation := by
  obtain ⟨hplain, hdocumentation, hrestrictions⟩ := h.survives.mp hsurvive
  refine ⟨?_, hrestrictions, hdocumentation⟩
  rintro value rfl
  obtain ⟨tag, attributes, inner, rfl, -, hdefault⟩ := h.opens
  obtain ⟨_, _, _, _, -, -, hmeant, -, hdeclared, -⟩ := hdeclares
  cases hmeant with
  | startTag => exact ⟨((hdefault value).mp (hdeclared value rfl)).2, hplain⟩

theorem VariableMarkup.allSurvive
    (h : VariableMarkup name default restriction documentation part)
    (hplain : PlainVariable default restriction documentation) : AllSurvive part := by
  refine h.survives.mpr ⟨?_, hplain.documentation, hplain.restrictions⟩
  cases hdefault : default with
  | none => exact fun _ hb => absurd hb List.not_mem_nil
  | some value => exact (hplain.default value hdefault).2

theorem VariableMarkup.declares
    (h : VariableMarkup name default restriction documentation part)
    (hplain : PlainVariable default restriction documentation) {content : List Piece}
    (hcontent : Balanced content) (hpart : part <:+: content)
    (hclass : element (text "xs:complexType") [(text "name", className)] content <:+: pieces)
    (hmeant : Meant pieces tokens) :
    Declares tokens className name part default (restrictionPairs restriction) := by
  obtain ⟨inner, hinside, hinner⟩ := hmeant.inside hcontent hclass
  obtain ⟨own, hown, hmeant⟩ := hinner.of_part hpart
  have hrestrictions := fun r hr => hmeant.mem_emptyTag (h.restrictions r hr)
  obtain ⟨tag, attributes, pieces', rfl, hname, hdefault⟩ := h.opens
  cases hmeant with
  | startTag _ _ hrest =>
      refine ⟨inner, tag, attributes, _, hinside, hown, .startTag tag attributes hrest, hname,
        ?_, ?_⟩
      · rintro value rfl
        exact (hdefault value).mpr ⟨rfl, (hplain.default value rfl).1⟩
      · intro r hr
        rcases List.mem_cons.mp (hrestrictions r hr) with heq | hmem
        · cases heq
        · exact hmem

end Variables

section Designs

variable {numbers : NumberLiterals} {locator : Bytes → Bytes → Bytes} {trigraphs : Bool}
  (design : AcceptedDesign numbers locator) {c : ConfigClass} {v : ConfigCacheVariable}
  {e : ConfigEntryElement} {pieces part : List Piece} {tokens : List Token}

theorem stringLiteral_initialLiteral_iff {v : CacheVariableElement} (h : AcceptedVariable v)
    (htype : v.dataType = .uaString) {value : Bytes} (hvalue : v.initialValue = some value) :
    (∃ literal, initialLiteral v = some literal ∧ StringLiteral trigraphs literal value) ↔
      value ≠ [] ∧ PlainLiteral trigraphs value := by
  have hwith : v.initializeWith = .valueAndStatus := by
    cases hwith : v.initializeWith with
    | configuration => cases hvalue.symm.trans (h.noValueIfConfigured hwith)
    | valueAndStatus => rfl
  have harray : v.array.isNone := by
    cases harray : v.array with
    | none => rfl
    | some array => cases hvalue.symm.trans (h.noValueIfArray (by rw [harray]; rfl))
  have hquoted : wrapLiteral .uaString value = 34 :: (value ++ [34]) := by
    have hquote : text "\"" = [34] := by decide
    rw [wrapLiteral, if_pos rfl, hquote]
    rfl
  rw [initialLiteral, hvalue, htype, hwith, ← stringLiteral_quoted_iff]
  simp [harray, hquoted]

/-- The elements of a class stand together in the schema. -/
theorem infix_of_class (hc : c ∈ design.classes)
    (h : designToConfigurationXSD design.toConfigDesign = .ok pieces)
    (hpart : classComplexType design.toConfigDesign c.name = .ok part) : part <:+: pieces := by
  obtain ⟨classes, rfl, hclasses⟩ := of_designToConfigurationXSD h
  have hmem : part ∈ classes := (hclasses part).mpr ⟨c, hc, hpart⟩
  rw [List.append_assoc]
  exact ((List.infix_of_mem_flatten hmem).trans (List.prefix_append _ _).isInfix).trans
    infix_element

theorem infix_of_variable {className : Bytes} {arrays scalars : List (List Piece)}
    {design : ConfigDesign} (h : part ∈ arrays ++ scalars) :
    part <:+: classContent design className arrays.flatten scalars.flatten := by
  rw [classContent]
  rcases List.mem_append.mp h with h | h
  · refine List.IsInfix.trans ?_ (List.prefix_append _ _).isInfix
    refine List.IsInfix.trans ?_ (List.prefix_append _ _).isInfix
    refine List.IsInfix.trans ?_ infix_element
    exact (List.infix_of_mem_flatten h).trans (List.suffix_append _ _).isInfix
  · exact (List.infix_of_mem_flatten h).trans (List.suffix_append _ _).isInfix

theorem plain_of_declares (hdeclares : DeclaresDesign design.toConfigDesign tokens)
    (hsurvive : ∀ c ∈ design.classes, PlainValue (c.defaultInstanceName.getD []) ∧
      ∀ part, VariablePieces design.toConfigDesign c.name part → AllSurvive part)
    (hliterals : ∀ c ∈ design.classes, ∀ v ∈ c.cacheVariables, v.dataType = .uaString →
      ∀ value, v.initialValue = some value → value ≠ [] ∧ PlainLiteral trigraphs value) :
    PlainTexts trigraphs design.toConfigDesign := by
  have hvalid := design.validElements
  refine ⟨hliterals, ?_, ?_, ?_⟩
  · intro c hc name hname
    have hplain := (hsurvive c hc).1
    rwa [hname] at hplain
  · intro c hc v hv hwith
    obtain ⟨pieces, hpieces, hdeclared⟩ := hdeclares.cacheVariables c hc v hv hwith
    have hmem : VariablePieces design.toConfigDesign c.name pieces :=
      .inl ⟨v, by rwa [hvalid.objectifyCacheVariables_eq hc], hwith, hpieces⟩
    exact (design.cacheVariable_markup hc hv hpieces).plainVariable
      ((hsurvive c hc).2 pieces hmem) hdeclared
  · intro c hc e he
    obtain ⟨pieces, hpieces, hdeclared⟩ := hdeclares.configEntries c hc e he
    have hmem : VariablePieces design.toConfigDesign c.name pieces :=
      .inr ⟨e, by rwa [hvalid.objectifyConfigEntries_eq hc], hpieces⟩
    exact (design.configEntry_markup hc he hpieces).plainVariable
      ((hsurvive c hc).2 pieces hmem) hdeclared

theorem survive_of_plain (h : PlainTexts trigraphs design.toConfigDesign)
    (hc : c ∈ design.classes) :
    PlainValue (c.defaultInstanceName.getD []) ∧
      ∀ part, VariablePieces design.toConfigDesign c.name part → AllSurvive part := by
  have hvalid := design.validElements
  constructor
  · cases hname : c.defaultInstanceName with
    | none => exact fun _ hb => absurd hb List.not_mem_nil
    | some name => exact h.instanceNames c hc name hname
  · rintro part (⟨v, hv, hwith, hpart⟩ | ⟨e, he, hpart⟩)
    · rw [hvalid.objectifyCacheVariables_eq hc] at hv
      exact (design.cacheVariable_markup hc hv hpart).allSurvive
        (h.cacheVariables c hc v hv hwith)
    · rw [hvalid.objectifyConfigEntries_eq hc] at he
      exact (design.configEntry_markup hc he hpart).allSurvive (h.configEntries c hc e he)

theorem declares_of_plain (h : PlainTexts trigraphs design.toConfigDesign)
    (hpieces : designToConfigurationXSD design.toConfigDesign = .ok pieces)
    (hmeant : Meant pieces tokens) : DeclaresDesign design.toConfigDesign tokens := by
  have hvalid := design.validElements
  have hclass : ∀ c ∈ design.classes, ∃ arrays scalars : List (List Piece),
      Balanced (classContent design.toConfigDesign c.name arrays.flatten scalars.flatten) ∧
      element (text "xs:complexType") [(text "name", c.name)]
        (classContent design.toConfigDesign c.name arrays.flatten scalars.flatten) <:+: pieces ∧
      ∀ part, part ∈ arrays ++ scalars ↔
        VariablePieces design.toConfigDesign c.name part := by
    intro c hc
    obtain ⟨part, hpart⟩ := design.exists_classComplexType hc
    have hwithin := infix_of_class design hc hpieces hpart
    obtain ⟨arrays, scalars, rfl, hparts⟩ := of_classComplexType hpart
    have hbalanced : ∀ part ∈ arrays ++ scalars, Balanced part := fun part hpart =>
      ((hparts part).mp hpart).balanced
    rw [List.forall_mem_append] at hbalanced
    exact ⟨arrays, scalars, balanced_classContent (balanced_flatten hbalanced.1)
      (balanced_flatten hbalanced.2), hwithin, hparts⟩
  refine ⟨?_, ?_, ?_⟩
  · intro c hc name hname
    obtain ⟨arrays, scalars, hbalanced, hwithin, -⟩ := hclass c hc
    obtain ⟨inner, hinside, hinner⟩ := hmeant.inside hbalanced hwithin
    refine ⟨inner, hinside, hinner.mem_emptyTag ?_⟩
    have hne : name ≠ [] := by
      rintro rfl
      exact hvalid.objectName c hc hname
    rw [classContent, hvalid.getClassDefaultInstanceName_eq hc, hname, usage,
      if_neg (by exact hne)]
    simp
  · intro c hc v hv hwith
    obtain ⟨arrays, scalars, hbalanced, hwithin, hparts⟩ := hclass c hc
    obtain ⟨part, hpart⟩ := design.exists_cacheVarByConfig hc hv hwith
    have hmem : part ∈ arrays ++ scalars :=
      (hparts part).mpr (.inl ⟨v, by rwa [hvalid.objectifyCacheVariables_eq hc], hwith, hpart⟩)
    exact ⟨part, hpart, (design.cacheVariable_markup hc hv hpart).declares
      (h.cacheVariables c hc v hv hwith) hbalanced (infix_of_variable hmem) hwithin hmeant⟩
  · intro c hc e he
    obtain ⟨arrays, scalars, hbalanced, hwithin, hparts⟩ := hclass c hc
    obtain ⟨part, hpart⟩ := design.exists_configEntry hc he
    have hmem : part ∈ arrays ++ scalars :=
      (hparts part).mpr (.inr ⟨e, by rwa [hvalid.objectifyConfigEntries_eq hc], hpart⟩)
    exact ⟨part, hpart, (design.configEntry_markup hc he hpart).declares
      (h.configEntries c hc e he) hbalanced (infix_of_variable hmem) hwithin hmeant⟩

theorem plainTexts_of_survive (h : TextsSurvive trigraphs design.toConfigDesign) :
    PlainTexts trigraphs design.toConfigDesign := by
  obtain ⟨hliterals, pieces, tokens, hpieces, hmeant, hreads, -, hdeclares⟩ := h
  have hvalidPieces := (balanced_designToConfigurationXSD hpieces).1.valid
  have hsurvive := (exists_reads_iff hvalidPieces).mp ⟨tokens, hmeant, hreads⟩
  rw [design.validElements.allSurvive_designToConfigurationXSD hpieces
    fun c hc => design.exists_classComplexType hc] at hsurvive
  refine plain_of_declares design hdeclares hsurvive fun c hc v hv htype value hvalue => ?_
  exact (stringLiteral_initialLiteral_iff (design.acceptedVariable hc hv) htype hvalue).mp
    (hliterals c hc v hv htype value hvalue)

/-- The texts of a design come through exactly if they are plain. -/
theorem textsSurvive_iff :
    TextsSurvive trigraphs design.toConfigDesign ↔ PlainTexts trigraphs design.toConfigDesign := by
  constructor
  · exact plainTexts_of_survive design
  · intro h
    obtain ⟨pieces, hpieces⟩ := design.exists_designToConfigurationXSD
    obtain ⟨hbalanced, inner, hinner, heq⟩ := balanced_designToConfigurationXSD hpieces
    have hsurvive : AllSurvive pieces := by
      rw [design.validElements.allSurvive_designToConfigurationXSD hpieces
        fun c hc => design.exists_classComplexType hc]
      exact fun c hc => survive_of_plain design h hc
    obtain ⟨tokens, hmeant, hreads⟩ := (exists_reads_iff hbalanced.valid).mpr hsurvive
    have hdocument : Document tokens := by
      rw [heq] at hmeant
      exact hmeant.document hinner
    refine ⟨fun c hc v hv htype value hvalue => ?_, pieces, tokens, hpieces, hmeant, hreads,
      hdocument, declares_of_plain design h hpieces hmeant⟩
    exact (stringLiteral_initialLiteral_iff (design.acceptedVariable hc hv) htype hvalue).mpr
      (h.initialValues c hc v hv htype value hvalue)

end Designs

section Panels

/-- A panel with a title from the design and a unit from the configuration. -/
def panelClass (initialValue defaultValue : Bytes) : ConfigClass where
  name := text "Panel"
  deviceLogic := false
  defaultInstanceName := none
  cacheVariables := [
    { name := text "title"
      addressSpaceWrite := .forbidden
      dataType := .uaString
      initializeWith := .valueAndStatus
      initialValue := some initialValue
      initialStatus := some .good
      nullPolicy := .nullForbidden
      defaultConfigInitializerValue := none
      array := none
      configRestriction := none
      documentation := none }]
  configEntries := [
    { name := text "unit"
      dataType := .uaString
      isKey := none
      defaultValue := some defaultValue
      array := none
      configRestriction := none
      documentation := none }]
  hasObjects := []

def panelElements (initialValue defaultValue : Bytes) : ConfigDesign where
  classes := [panelClass initialValue defaultValue]
  root := [⟨⟨text "Panel", .configuration, []⟩, none, none⟩]

theorem validElements_panel (initialValue defaultValue : Bytes) :
    ValidElements (panelElements initialValue defaultValue) := by
  have hclass : ∀ b ∈ text "Panel", isWordByte b = true := List.all_eq_true.1 (by decide)
  have hvariables : ∀ name ∈ [text "title", text "unit"], ∀ b ∈ name, isWordByte b = true :=
    List.forall_mem_cons.2 ⟨List.all_eq_true.1 (by decide),
      List.forall_mem_singleton.2 (List.all_eq_true.1 (by decide))⟩
  have hkey : [text "title", text "unit"].Nodup := by decide
  refine ⟨⟨?_, ?_, ?_, ?_, ?_⟩, ?_, ?_, ?_, ?_, ?_⟩
  · exact List.nodup_singleton _
  · exact List.forall_mem_singleton.mpr List.nodup_nil
  · exact List.nodup_singleton _
  · exact List.forall_mem_singleton.mpr fun _ hho => absurd hho List.not_mem_nil
  · exact List.forall_mem_singleton.mpr List.mem_cons_self
  · exact List.forall_mem_singleton.mpr hkey
  · exact List.forall_mem_singleton.mpr hclass
  · exact List.forall_mem_singleton.mpr hvariables
  · exact List.forall_mem_singleton.mpr fun h => absurd h.symm (Option.some_ne_none _)
  · exact List.forall_mem_singleton.mpr (List.forall_mem_singleton.mpr
      (by decide : DataType.uaString ≠ .uaVariant ∧ DataType.uaString ≠ .uaByteString))

theorem validateSecondStage_panel (initialValue defaultValue : Bytes) :
    validateSecondStage ⟨fun _ => false, fun _ => none⟩ (fun _ _ => [])
      (panelElements initialValue defaultValue) = .ok ⟨⟩ := by
  have hroot : validateHasObjectsWrapper (panelElements initialValue defaultValue).toDesign =
      .ok ⟨⟩ := by
    simp [validateHasObjectsWrapper, panelElements, panelClass, ConfigDesign.toDesign,
      ConfigClass.toDesignClass, objectifyHasObjects, validateHasObjects, except_pure_eq_ok]
  rw [validateSecondStage, hroot]
  rfl

def panelDesign (initialValue defaultValue : Bytes) :
    AcceptedDesign ⟨fun _ => false, fun _ => none⟩ (fun _ _ => []) where
  toConfigDesign := panelElements initialValue defaultValue
  validElements := validElements_panel initialValue defaultValue
  accepted := validateSecondStage_panel initialValue defaultValue

/-- A quote ends the literal too early, and an angle the value of the attribute. -/
theorem panel_texts_lost :
    ¬TextsSurvive false (panelDesign (text "\"on\"") (text "m")).toConfigDesign ∧
      ¬TextsSurvive false (panelDesign (text "on") (text "<m>")).toConfigDesign := by
  constructor
  · intro h
    have hplain := (plainTexts_of_survive _ h).initialValues _ List.mem_cons_self _
      List.mem_cons_self rfl _ rfl
    have hquote : 34 ∈ text "\"on\"" := by decide
    exact (hplain.2.plain 34 hquote).1 rfl
  · intro h
    have hplain := (plainTexts_of_survive _ h).configEntries _ List.mem_cons_self _
      List.mem_cons_self
    have hangle : ¬PlainValue (text "<m>") := by decide
    exact hangle (hplain.default _ rfl).2

end Panels

end Quasar

end Supernova
