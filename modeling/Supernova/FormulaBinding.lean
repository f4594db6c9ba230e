/-
What the operands of a formula are bound to: the parser variables that the
look-up by escaped names finds, and when these are the parser variables of the
node ids that the formula refers to.
-/
import Mathlib.Data.List.Nodup
import Supernova.CalculationGraph

namespace Supernova

attribute [local semireducible] ByteArray.toList.loop

namespace CalculatedVariables

/-- A node id as it is written in a formula, its dashes and slashes escaped. -/
def escapedInFormula (nodeId : Bytes) : Bytes :=
  substitute 45 (text "\\-") (substitute 47 (text "\\/") nodeId)

/-- The operand that the parser reads where a formula refers to a node id. -/
def operandOf (nodeId : Bytes) : Bytes :=
  escapeSpecialCharactersInFormula (escapedInFormula nodeId)

theorem escapeSpecialCharactersInParserVariableName_eq (input : Bytes) :
    escapeSpecialCharactersInParserVariableName input =
      substitute 47 SlashSignVariableRepr (substitute 45 DashSignVariableRepr input) := by
  have hpatterns : text "-" = [] ++ [45] ∧ text "/" = [] ++ [47] := by
    decide
  simp only [escapeSpecialCharactersInParserVariableName, hpatterns.1, hpatterns.2]
  calc replaceAll (replaceAll input ([] ++ [45]) DashSignVariableRepr) ([] ++ [47])
        SlashSignVariableRepr
      = replaceAll (replaceAll (substitute 45 ([] ++ [45]) input) ([] ++ [45])
          DashSignVariableRepr) ([] ++ [47]) SlashSignVariableRepr := by
        rw [List.nil_append, substitute_self]
    _ = replaceAll (substitute 47 ([] ++ [47]) (substitute 45 DashSignVariableRepr input))
          ([] ++ [47]) SlashSignVariableRepr := by
        rw [replaceAll_substitute (by decide) (by decide) input, List.nil_append,
          substitute_self]
    _ = substitute 47 SlashSignVariableRepr (substitute 45 DashSignVariableRepr input) :=
        replaceAll_substitute (by decide) (by decide) _

/-- A reference escaped as documented is read as the parser name of the node id. -/
theorem operandOf_eq (nodeId : Bytes) :
    operandOf nodeId = escapeSpecialCharactersInParserVariableName nodeId := by
  have hpatterns : text "\\-" = [92] ++ [45] ∧ text "\\/" = [92] ++ [47] := by
    decide
  simp only [operandOf, escapedInFormula, escapeSpecialCharactersInFormula, hpatterns.1,
    hpatterns.2]
  calc replaceAll (replaceAll (substitute 45 ([92] ++ [45]) (substitute 47 ([92] ++ [47]) nodeId))
        ([92] ++ [45]) DashSignVariableRepr) ([92] ++ [47]) SlashSignVariableRepr
      = replaceAll (substitute 45 DashSignVariableRepr (substitute 47 ([92] ++ [47]) nodeId))
          ([92] ++ [47]) SlashSignVariableRepr := by
        rw [replaceAll_substitute (by decide) (by decide)]
    -- neither escape has the other's sign
    _ = replaceAll (substitute 47 ([92] ++ [47]) (substitute 45 DashSignVariableRepr nodeId))
          ([92] ++ [47]) SlashSignVariableRepr := by
        rw [substitute_comm (by decide) (by decide) (by decide)]
    _ = substitute 47 SlashSignVariableRepr (substitute 45 DashSignVariableRepr nodeId) :=
        replaceAll_substitute (by decide) (by decide) _
    _ = escapeSpecialCharactersInParserVariableName nodeId :=
        (escapeSpecialCharactersInParserVariableName_eq nodeId).symm

namespace Engine

/-- The node id of the variable that an entry of the configuration registers. -/
def Declaration.nodeId? : Declaration → Option Bytes
  | .notifyingVariable nodeId => some nodeId
  | .calculatedVariable nodeId _ _ => some nodeId
  | .constant _ => none
  | .changeListener _ => none

/-- The node ids of the registered variables, in the order of registration. -/
def registeredNodeIds (declarations : List Declaration) : List Bytes :=
  declarations.filterMap Declaration.nodeId?

/-- The parser variable that the look-up finds for an operand. -/
def boundTo (e : Engine) (name : Bytes) : Option Nat :=
  e.parserVariables.find? fun p => (e.parserVariable p).name = name

/-- The parser variables carry the escaped node ids. -/
structure Named (e : Engine) (nodeIds : List Bytes) : Prop where
  parserVariables_eq : e.parserVariables = List.range nodeIds.length
  numParserVariables_eq : e.numParserVariables = nodeIds.length
  name_eq : ∀ p nodeId, nodeIds[p]? = some nodeId →
    (e.parserVariable p).name = escapeSpecialCharactersInParserVariableName nodeId

/-- Nothing that a look-up reads differs. -/
structure SameNames (e e' : Engine) : Prop where
  parserVariables : e'.parserVariables = e.parserVariables
  numParserVariables : e'.numParserVariables = e.numParserVariables
  name : ∀ p, (e'.parserVariable p).name = (e.parserVariable p).name

theorem SameNames.trans {e e' e'' : Engine} (h : SameNames e e') (h' : SameNames e' e'') :
    SameNames e e'' where
  parserVariables := h'.parserVariables.trans h.parserVariables
  numParserVariables := h'.numParserVariables.trans h.numParserVariables
  name p := (h'.name p).trans (h.name p)

theorem SameNames.boundTo_eq {e e' : Engine} (h : SameNames e e') (name : Bytes) :
    e'.boundTo name = e.boundTo name := by
  simp only [boundTo, h.parserVariables, h.name]

theorem SameNames.named {e e' : Engine} (h : SameNames e e') {nodeIds : List Bytes}
    (hnamed : e.Named nodeIds) : e'.Named nodeIds where
  parserVariables_eq := h.parserVariables.trans hnamed.parserVariables_eq
  numParserVariables_eq := h.numParserVariables.trans hnamed.numParserVariables_eq
  name_eq p nodeId hp := (h.name p).trans (hnamed.name_eq p nodeId hp)

theorem Named.boundTo_eq_some_iff {e : Engine} {nodeIds : List Bytes} (h : e.Named nodeIds)
    (name : Bytes) (p : Nat) : e.boundTo name = some p ↔
      (∃ nodeId, nodeIds[p]? = some nodeId ∧
        escapeSpecialCharactersInParserVariableName nodeId = name) ∧
      ∀ q < p, ∀ nodeId, nodeIds[q]? = some nodeId →
        escapeSpecialCharactersInParserVariableName nodeId ≠ name := by
  rw [boundTo, h.parserVariables_eq, List.find?_range_eq_some]
  simp only [decide_eq_true_eq, List.mem_range, Bool.not_eq_true', decide_eq_false_iff_not]
  constructor
  · rintro ⟨hname, hp, hfirst⟩
    have hsome := List.getElem?_eq_getElem hp
    refine ⟨⟨_, hsome, (h.name_eq p _ hsome).symm.trans hname⟩, ?_⟩
    intro q hq nodeId hnodeId heq
    exact hfirst q hq ((h.name_eq q nodeId hnodeId).trans heq)
  · rintro ⟨⟨nodeId, hsome, hname⟩, hfirst⟩
    have hp := (List.getElem?_eq_some_iff.mp hsome).1
    refine ⟨(h.name_eq p nodeId hsome).trans hname, hp, ?_⟩
    intro q hq heq
    have hq' := List.getElem?_eq_getElem (Nat.lt_trans hq hp)
    exact hfirst q hq _ hq' ((h.name_eq q _ hq').symm.trans heq)

end Engine

/-- The variables that a formula of a calculated variable is connected to. -/
def CalculatedVariable.variablesOf (cv : CalculatedVariable) : Engine.RequestType → List Nat
  | .value => cv.valueVariables
  | .status => cv.statusVariables

namespace Engine

theorem mem_variablesOf_addDependentVariable (cv : CalculatedVariable) (p q : Nat)
    (type : RequestType) : q ∈ (addDependentVariable cv p type).variablesOf type ↔
      q ∈ cv.variablesOf type ∨ q = p := by
  rcases type with _ | _
  · by_cases hmem : p ∈ cv.valueVariables
    · simp only [addDependentVariable, hmem, if_true, CalculatedVariable.variablesOf]
      constructor
      · exact .inl
      · rintro (hq | rfl)
        · exact hq
        · exact hmem
    · simp [addDependentVariable, hmem, CalculatedVariable.variablesOf]
  · by_cases hmem : p ∈ cv.statusVariables
    · simp only [addDependentVariable, hmem, if_true, CalculatedVariable.variablesOf]
      constructor
      · exact .inl
      · rintro (hq | rfl)
        · exact hq
        · exact hmem
    · simp [addDependentVariable, hmem, CalculatedVariable.variablesOf]

theorem variablesOf_addDependentVariable_of_ne (cv : CalculatedVariable) (p : Nat)
    {type type' : RequestType} (h : type' ≠ type) :
    (addDependentVariable cv p type).variablesOf type' = cv.variablesOf type' := by
  rcases type with _ | _ <;> rcases type' with _ | _
  · exact absurd rfl h
  · by_cases hmem : p ∈ cv.valueVariables <;>
      simp [addDependentVariable, hmem, CalculatedVariable.variablesOf]
  · by_cases hmem : p ∈ cv.statusVariables <;>
      simp [addDependentVariable, hmem, CalculatedVariable.variablesOf]
  · exact absurd rfl h

/-- What the parsing of one formula of the calculated variable `v` has connected
it to: what each of these operands is bound to, besides what was there. -/
structure Connected (v : Nat) (type : RequestType) (names : List Bytes)
    (cv : CalculatedVariable) (e e' : Engine) : Prop where
  same : SameNames e e'
  bound : ∀ name ∈ names, (e.boundTo name).isSome
  connected : ∃ cv', e'.calculatedVariable v = some cv' ∧
    (∀ p, p ∈ cv'.variablesOf type ↔
      p ∈ cv.variablesOf type ∨ ∃ name ∈ names, e.boundTo name = some p) ∧
    ∀ type', type' ≠ type → cv'.variablesOf type' = cv.variablesOf type'

theorem parserVariableRequestHandler_spec {v : Nat} {type : RequestType} {e : Engine}
    {name : Bytes} {p : Nat} {cv : CalculatedVariable} (hp : e.boundTo name = some p)
    (hcv : e.calculatedVariable v = some cv) :
    ∃ e', parserVariableRequestHandler v type e name = .ok e' ∧ SameNames e e' ∧
      e'.calculatedVariable v = some (addDependentVariable cv p type) := by
  rw [boundTo] at hp
  simp only [parserVariableRequestHandler, hp, hcv]
  refine ⟨_, rfl, ⟨rfl, rfl, ?_⟩, ?_⟩
  · intro q
    by_cases hq : q = p
    · simp [setParserVariable, setCalculatedVariable, hq]
    · simp [setParserVariable, setCalculatedVariable, hq]
  · simp [setParserVariable, setCalculatedVariable]

theorem parserVariableRequestHandler_bound {v : Nat} {type : RequestType} {e e' : Engine}
    {name : Bytes} (h : parserVariableRequestHandler v type e name = .ok e') :
    (e.boundTo name).isSome := by
  unfold parserVariableRequestHandler at h
  split at h
  · rename_i p cv hfind hcv
    rw [boundTo, hfind]
    rfl
  · cases h

theorem requests_connected {v : Nat} {type : RequestType} {names : List Bytes} {e e' : Engine}
    {cv : CalculatedVariable} (hcv : e.calculatedVariable v = some cv)
    (h : names.foldlM (parserVariableRequestHandler v type) e = .ok e') :
    Connected v type names cv e e' := by
  induction names generalizing e cv with
  | nil =>
      rw [List.foldlM_nil, except_pure_eq_ok] at h
      subst h
      exact ⟨⟨rfl, rfl, fun _ => rfl⟩, by simp, cv, hcv, by simp, fun _ _ => rfl⟩
  | cons name names ih =>
      rw [List.foldlM_cons] at h
      obtain ⟨e₁, hrequest, hrest⟩ := except_bind_eq_ok.1 h
      obtain ⟨p, hp⟩ := Option.isSome_iff_exists.mp (parserVariableRequestHandler_bound hrequest)
      obtain ⟨e₂, hok, hsame, hcv₁⟩ := parserVariableRequestHandler_spec hp hcv
      cases hrequest.symm.trans hok
      obtain ⟨hsame', hbound, cv', hcv', hmem, hother⟩ := ih hcv₁ hrest
      simp only [hsame.boundTo_eq] at hbound hmem
      refine ⟨hsame.trans hsame', ?_, cv', hcv', ?_, ?_⟩
      · rw [List.forall_mem_cons]
        exact ⟨hp ▸ rfl, hbound⟩
      · intro q
        rw [hmem, mem_variablesOf_addDependentVariable, List.exists_mem_cons_iff, hp,
          Option.some.injEq, or_assoc, eq_comm (a := q)]
      · intro type' htype
        rw [hother type' htype, variablesOf_addDependentVariable_of_ne cv p htype]

theorem requests_succeed {v : Nat} {type : RequestType} {names : List Bytes} {e : Engine}
    (hcv : (e.calculatedVariable v).isSome) (hbound : ∀ name ∈ names, (e.boundTo name).isSome) :
    ∃ e', names.foldlM (parserVariableRequestHandler v type) e = .ok e' := by
  induction names generalizing e with
  | nil => exact ⟨e, rfl⟩
  | cons name names ih =>
      obtain ⟨cv, hcv⟩ := Option.isSome_iff_exists.mp hcv
      obtain ⟨p, hp⟩ := Option.isSome_iff_exists.mp (hbound name List.mem_cons_self)
      obtain ⟨e₁, hok, hsame, hcv₁⟩ :=
        @parserVariableRequestHandler_spec v type e name p cv hp hcv
      obtain ⟨e', he'⟩ := ih (hcv₁ ▸ rfl) (e := e₁) fun name' hname' => by
        rw [hsame.boundTo_eq]
        exact hbound name' (List.mem_cons_of_mem name hname')
      refine ⟨e', ?_⟩
      rw [List.foldlM_cons, hok]
      exact he'

theorem initializeParser_connected {v : Nat} {type : RequestType} {operands : List Bytes}
    {e e' : Engine} {cv : CalculatedVariable} (hcv : e.calculatedVariable v = some cv)
    (h : initializeParser v type e operands = .ok e') :
    Connected v type (operands.filter fun name => !e.isConstantDefined name) cv e e' :=
  requests_connected hcv h

theorem isConstantDefined_of_requests {v : Nat} {type : RequestType} {names : List Bytes}
    {e e' : Engine} (h : names.foldlM (parserVariableRequestHandler v type) e = .ok e') :
    e'.parserConstants = e.parserConstants := by
  refine foldlM_keeps (I := fun s : Engine => s.parserConstants = e.parserConstants) ?_ rfl h
  intro s name s' hs hrequest
  obtain ⟨p, cv, _, _, rfl⟩ := parserVariableRequestHandler_eq_ok hrequest
  exact hs

/-- The operands of both formulas that are looked up. -/
def lookedUp (e : Engine) (operands : List Bytes) : List Bytes :=
  operands.filter fun name => !e.isConstantDefined name

/-- A new calculated variable is connected to what its operands are bound to. -/
theorem instantiated_connected {e e' : Engine} {nodeId : Bytes}
    {valueOperands statusOperands : List Bytes}
    (h : e.instantiateCalculatedVariable nodeId valueOperands statusOperands = .ok e') :
    (∀ name ∈ e.lookedUp valueOperands, (e.boundTo name).isSome) ∧
      (∀ name ∈ e.lookedUp statusOperands, (e.boundTo name).isSome) ∧
      ∃ cv, e'.calculatedVariable e.numParserVariables = some cv ∧
        (∀ p, p ∈ cv.valueVariables ↔
          ∃ name ∈ e.lookedUp valueOperands, e.boundTo name = some p) ∧
        ∀ p, p ∈ cv.statusVariables ↔
          ∃ name ∈ e.lookedUp statusOperands, e.boundTo name = some p := by
  obtain ⟨e₁, hvalue, h⟩ := except_bind_eq_ok.1 h
  obtain ⟨e₂, hstatus, h⟩ := except_bind_eq_ok.1 h
  have hallocated : (e.setCalculatedVariable e.numParserVariables
      ⟨[], [], none⟩).calculatedVariable e.numParserVariables = some ⟨[], [], none⟩ := by
    simp [setCalculatedVariable]
  obtain ⟨hsame₁, hbound₁, cv₁, hcv₁, hmem₁, hother₁⟩ :=
    initializeParser_connected hallocated hvalue
  obtain ⟨hsame₂, hbound₂, cv₂, hcv₂, hmem₂, hother₂⟩ :=
    initializeParser_connected hcv₁ hstatus
  have hconstants : ∀ name, e₁.isConstantDefined name = e.isConstantDefined name := by
    intro name
    rw [isConstantDefined, isConstantDefined, isConstantDefined_of_requests hvalue]
    rfl
  simp only [hsame₁.boundTo_eq, hconstants] at hbound₂ hmem₂
  refine ⟨hbound₁, hbound₂, ?_⟩
  simp only [registered_calculatedVariable, hcv₂] at h
  rw [← except_pure_eq_ok.1 h]
  refine ⟨{ cv₂ with notifiedVariable := some e.numParserVariables }, ?_, ?_, ?_⟩
  · simp [attach]
  · intro p
    have hvalue' := hother₂ .value (by decide)
    have hmem := hmem₁ p
    simp only [CalculatedVariable.variablesOf, List.not_mem_nil, false_or] at hvalue' hmem
    rw [hvalue', hmem]
    rfl
  · intro p
    have hstatus' := hother₁ .status (by decide)
    have hmem := hmem₂ p
    simp only [CalculatedVariable.variablesOf] at hstatus' hmem
    rw [hmem, hstatus']
    simp only [List.not_mem_nil, false_or]
    rfl

/-- The instantiation succeeds when every operand is bound. -/
theorem instantiateCalculatedVariable_succeeds {e : Engine} (nodeId : Bytes)
    {valueOperands statusOperands : List Bytes}
    (hvalue : ∀ name ∈ e.lookedUp valueOperands, (e.boundTo name).isSome)
    (hstatus : ∀ name ∈ e.lookedUp statusOperands, (e.boundTo name).isSome) :
    ∃ e', e.instantiateCalculatedVariable nodeId valueOperands statusOperands = .ok e' := by
  have hallocated : (e.setCalculatedVariable e.numParserVariables
      ⟨[], [], none⟩).calculatedVariable e.numParserVariables = some ⟨[], [], none⟩ := by
    simp [setCalculatedVariable]
  obtain ⟨e₁, hok₁⟩ := @requests_succeed e.numParserVariables .value
    (e.lookedUp valueOperands) (e.setCalculatedVariable e.numParserVariables ⟨[], [], none⟩)
    (hallocated ▸ rfl) hvalue
  obtain ⟨hsame₁, -, cv₁, hcv₁, -⟩ := requests_connected hallocated hok₁
  have hconstants : ∀ name, e₁.isConstantDefined name = e.isConstantDefined name := by
    intro name
    rw [isConstantDefined, isConstantDefined, isConstantDefined_of_requests hok₁]
    rfl
  obtain ⟨e₂, hok₂⟩ := @requests_succeed e.numParserVariables .status
    (e.lookedUp statusOperands) e₁ (hcv₁ ▸ rfl) fun name hname => by
      rw [hsame₁.boundTo_eq]
      exact hstatus name hname
  obtain ⟨-, -, cv₂, hcv₂, -⟩ := requests_connected hcv₁ hok₂
  refine ⟨(e₂.registerVariableForCalculatedVariables e.numParserVariables nodeId).attach
    e.numParserVariables cv₂,
    except_bind_eq_ok.2 ⟨e₁, hok₁, except_bind_eq_ok.2 ⟨e₂, ?_, ?_⟩⟩⟩
  · rw [initializeParser]
    simp only [hconstants]
    exact hok₂
  · simp only [registered_calculatedVariable, hcv₂]
    rfl

theorem Named.registered {e : Engine} {nodeIds : List Bytes} (h : e.Named nodeIds) (v : Nat)
    (nodeId : Bytes) :
    (e.registerVariableForCalculatedVariables v nodeId).Named (nodeIds ++ [nodeId]) := by
  constructor
  · rw [registered_parserVariables, h.parserVariables_eq, h.numParserVariables_eq,
      List.length_append, List.length_singleton, List.range_succ]
  · rw [registered_numParserVariables, h.numParserVariables_eq, List.length_append,
      List.length_singleton]
  · intro p nodeId' hp
    rw [registered_parserVariable]
    by_cases hpn : p = e.numParserVariables
    · rw [h.numParserVariables_eq] at hpn
      subst hpn
      rw [List.getElem?_concat_length, Option.some.injEq] at hp
      rw [h.numParserVariables_eq, Function.update_self, hp]
    · rw [Function.update_of_ne hpn]
      rw [h.numParserVariables_eq] at hpn
      have hlt : p < nodeIds.length := by
        have := (List.getElem?_eq_some_iff.mp hp).1
        rw [List.length_append, List.length_singleton] at this
        omega
      rw [List.getElem?_append_left hlt] at hp
      exact h.name_eq p nodeId' hp

theorem Named.instantiated {e e' : Engine} {nodeIds : List Bytes} (h : e.Named nodeIds)
    {nodeId : Bytes} {valueOperands statusOperands : List Bytes}
    (hok : e.instantiateCalculatedVariable nodeId valueOperands statusOperands = .ok e') :
    e'.Named (nodeIds ++ [nodeId]) := by
  obtain ⟨e₁, hvalue, hok⟩ := except_bind_eq_ok.1 hok
  obtain ⟨e₂, hstatus, hok⟩ := except_bind_eq_ok.1 hok
  have hallocated : (e.setCalculatedVariable e.numParserVariables
      ⟨[], [], none⟩).calculatedVariable e.numParserVariables = some ⟨[], [], none⟩ := by
    simp [setCalculatedVariable]
  obtain ⟨hsame₁, -, cv₁, hcv₁, -⟩ := initializeParser_connected hallocated hvalue
  obtain ⟨hsame₂, -, cv₂, hcv₂, -⟩ := initializeParser_connected hcv₁ hstatus
  have hnamed : e₂.Named nodeIds := hsame₂.named (hsame₁.named ⟨h.1, h.2, h.3⟩)
  have hregistered := hnamed.registered e.numParserVariables nodeId
  simp only [registered_calculatedVariable, hcv₂] at hok
  rw [← except_pure_eq_ok.1 hok]
  have hsame : SameNames (e₂.registerVariableForCalculatedVariables e.numParserVariables nodeId)
      ((e₂.registerVariableForCalculatedVariables e.numParserVariables nodeId).attach
        e.numParserVariables cv₂) := by
    refine ⟨rfl, rfl, ?_⟩
    intro p
    by_cases hp : p = e.numParserVariables
    · simp [attach, hp]
    · simp [attach, hp]
  exact hsame.named hregistered

theorem Named.declared {e e' : Engine} {nodeIds : List Bytes} (h : e.Named nodeIds)
    {declaration : Declaration} (hok : declare e declaration = .ok e') :
    e'.Named (nodeIds ++ declaration.nodeId?.toList) := by
  rcases declaration with nodeId | name | ⟨nodeId, valueOperands, statusOperands⟩ | v
  · rw [← except_pure_eq_ok.1 hok]
    exact h.registered _ nodeId
  · rw [← except_pure_eq_ok.1 hok]
    simpa [Declaration.nodeId?] using (⟨h.1, h.2, h.3⟩ : (e.registerConstantForCalculatedVariables
      name).Named nodeIds)
  · exact h.instantiated hok
  · rw [← except_pure_eq_ok.1 hok]
    simpa [Declaration.nodeId?] using (⟨h.1, h.2, h.3⟩ : (e.addChangeListener v .other).Named nodeIds)

/-- Every variable that the configuration registers gets a parser variable with
its escaped node id. -/
theorem named_of_configure {declarations : List Declaration} {e : Engine}
    (h : configure declarations = .ok e) : e.Named (registeredNodeIds declarations) := by
  suffices hall : ∀ (s : Engine) (nodeIds : List Bytes), s.Named nodeIds →
      declarations.foldlM declare s = .ok e →
      e.Named (nodeIds ++ registeredNodeIds declarations) by
    exact hall empty [] ⟨rfl, rfl, by simp⟩ h
  clear h
  induction declarations with
  | nil =>
      intro s nodeIds hs hok
      rw [List.foldlM_nil, except_pure_eq_ok] at hok
      rwa [← hok, registeredNodeIds, List.filterMap_nil, List.append_nil]
  | cons declaration declarations ih =>
      intro s nodeIds hs hok
      rw [List.foldlM_cons] at hok
      obtain ⟨s', hstep, hrest⟩ := except_bind_eq_ok.1 hok
      have hnamed := ih s' _ (hs.declared hstep) hrest
      rcases hid : declaration.nodeId? with _ | nodeId
      · simpa [registeredNodeIds, hid] using hnamed
      · simpa [registeredNodeIds, hid] using hnamed

/-- The formula's operands are references to these node ids, and constants. -/
structure Refers (e : Engine) (operands references : List Bytes) : Prop where
  operand : ∀ nodeId ∈ references, operandOf nodeId ∈ operands
  reference : ∀ name ∈ operands, e.isConstantDefined name = true ∨
    ∃ nodeId ∈ references, name = operandOf nodeId

/-- A calculated variable with these formulas is made, and each of them is
connected to the variables with the node ids that it refers to and to no other. -/
def BindsExactly (e : Engine) (nodeIds : List Bytes) (nodeId : Bytes)
    (valueOperands statusOperands valueReferences statusReferences : List Bytes) : Prop :=
  ∃ e' cv, e.instantiateCalculatedVariable nodeId valueOperands statusOperands = .ok e' ∧
    e'.calculatedVariable e.numParserVariables = some cv ∧
    (∀ p, p ∈ cv.valueVariables ↔ ∃ A ∈ valueReferences, nodeIds[p]? = some A) ∧
    ∀ p, p ∈ cv.statusVariables ↔ ∃ A ∈ statusReferences, nodeIds[p]? = some A

/-- No constant and no variable registered earlier has the parser name of the
node id. -/
def Unambiguous (e : Engine) (nodeIds : List Bytes) (A : Bytes) : Prop :=
  e.isConstantDefined (escapeSpecialCharactersInParserVariableName A) = false ∧
    ∀ before after, nodeIds = before ++ A :: after → ∀ B ∈ before,
      escapeSpecialCharactersInParserVariableName B ≠
        escapeSpecialCharactersInParserVariableName A

theorem mem_lookedUp {e : Engine} {operands : List Bytes} {name : Bytes} :
    name ∈ e.lookedUp operands ↔ name ∈ operands ∧ e.isConstantDefined name = false := by
  simp [lookedUp]

section Binding

variable {e : Engine} {nodeIds : List Bytes} (hnamed : e.Named nodeIds)
  (hdistinct : nodeIds.Nodup)

include hnamed

/-- The look-up finds the variable itself when its name is unambiguous. -/
theorem boundTo_operandOf {A : Bytes} {p : Nat} (hp : nodeIds[p]? = some A)
    (hA : e.Unambiguous nodeIds A) : e.boundTo (operandOf A) = some p := by
  rw [hnamed.boundTo_eq_some_iff, operandOf_eq]
  refine ⟨⟨A, hp, rfl⟩, ?_⟩
  intro q hq B hB
  obtain ⟨hlt, hget⟩ := List.getElem?_eq_some_iff.mp hp
  have hsplit : nodeIds = nodeIds.take p ++ A :: nodeIds.drop (p + 1) := by
    rw [← hget, ← List.drop_eq_getElem_cons, List.take_append_drop]
  apply hA.2 _ _ hsplit B
  rw [List.mem_take_iff_getElem]
  obtain ⟨hlt', hget'⟩ := List.getElem?_eq_some_iff.mp hB
  exact ⟨q, by omega, hget'⟩

include hdistinct

/-- A variable is found under some operand only when its name is unambiguous. -/
theorem unambiguous_of_boundTo {A name : Bytes} {p : Nat} (hp : nodeIds[p]? = some A)
    (hconstant : e.isConstantDefined name = false) (hbound : e.boundTo name = some p) :
    e.Unambiguous nodeIds A := by
  obtain ⟨⟨A', hA', hname⟩, hfirst⟩ := (hnamed.boundTo_eq_some_iff name p).mp hbound
  cases hp.symm.trans hA'
  refine ⟨hname ▸ hconstant, ?_⟩
  intro before after hsplit B hB heq
  obtain ⟨q, hq, hget⟩ := List.getElem_of_mem hB
  have hA'' : nodeIds[before.length]? = some A := by
    rw [hsplit, List.getElem?_append_right (Nat.le_refl _), Nat.sub_self]
    rfl
  obtain ⟨hlt, hgetp⟩ := List.getElem?_eq_some_iff.mp hp
  obtain ⟨hlt', hgetbefore⟩ := List.getElem?_eq_some_iff.mp hA''
  have hposition : before.length = p :=
    hdistinct.getElem_inj_iff.mp (hgetbefore.trans hgetp.symm)
  refine hfirst q (hposition ▸ hq) B ?_ (heq.trans hname)
  rw [hsplit, List.getElem?_append_left hq, List.getElem?_eq_getElem hq, hget]

/-- A formula all of whose references are unambiguous finds exactly their variables. -/
theorem lookedUp_bound_iff {operands references : List Bytes} (hrefers : e.Refers operands references)
    (hregistered : ∀ A ∈ references, A ∈ nodeIds) :
    ((∀ name ∈ e.lookedUp operands, (e.boundTo name).isSome) ∧
        ∀ p, (∃ name ∈ e.lookedUp operands, e.boundTo name = some p) ↔
          ∃ A ∈ references, nodeIds[p]? = some A) ↔
      ∀ A ∈ references, e.Unambiguous nodeIds A := by
  constructor
  · rintro ⟨-, hexact⟩ A hA
    obtain ⟨p, hp⟩ := List.getElem?_of_mem (hregistered A hA)
    obtain ⟨name, hname, hbound⟩ := (hexact p).mpr ⟨A, hA, hp⟩
    exact unambiguous_of_boundTo hnamed hdistinct hp (mem_lookedUp.1 hname).2 hbound
  · intro hunambiguous
    have hoperand : ∀ name ∈ e.lookedUp operands, ∃ A ∈ references, ∃ p,
        nodeIds[p]? = some A ∧ e.boundTo name = some p := by
      intro name hname
      obtain ⟨hmem, hconstant⟩ := mem_lookedUp.1 hname
      rcases hrefers.reference name hmem with hconstant' | ⟨A, hA, rfl⟩
      · exact absurd (hconstant'.symm.trans hconstant) (by decide)
      · obtain ⟨p, hp⟩ := List.getElem?_of_mem (hregistered A hA)
        exact ⟨A, hA, p, hp, boundTo_operandOf hnamed hp (hunambiguous A hA)⟩
    constructor
    · intro name hname
      obtain ⟨A, -, p, -, hbound⟩ := hoperand name hname
      exact hbound ▸ rfl
    · intro p
      constructor
      · rintro ⟨name, hname, hbound⟩
        obtain ⟨A, hA, p', hp', hbound'⟩ := hoperand name hname
        cases hbound.symm.trans hbound'
        exact ⟨A, hA, hp'⟩
      · rintro ⟨A, hA, hp⟩
        refine ⟨operandOf A, mem_lookedUp.2 ⟨hrefers.operand A hA, ?_⟩,
          boundTo_operandOf hnamed hp (hunambiguous A hA)⟩
        rw [operandOf_eq]
        exact (hunambiguous A hA).1

end Binding

/-- Without constants, every reference to a registered variable is unambiguous
if and only if the escape is injective on the registered node ids. -/
theorem forall_unambiguous_iff_injOn {e : Engine} {nodeIds : List Bytes}
    (hdistinct : nodeIds.Nodup) (hconstants : ∀ name, e.isConstantDefined name = false) :
    (∀ A ∈ nodeIds, e.Unambiguous nodeIds A) ↔
      Set.InjOn escapeSpecialCharactersInParserVariableName {A | A ∈ nodeIds} := by
  constructor
  · intro hall
    apply List.inj_on_of_nodup_map
    rw [List.Nodup, List.pairwise_map, List.pairwise_iff_getElem]
    intro i j hi hj hij
    have hsplit : nodeIds = nodeIds.take j ++ nodeIds[j] :: nodeIds.drop (j + 1) := by
      rw [← List.drop_eq_getElem_cons, List.take_append_drop]
    apply (hall _ (List.getElem_mem hj)).2 _ _ hsplit
    rw [List.mem_take_iff_getElem]
    exact ⟨i, by omega, rfl⟩
  · intro hinj A hA
    refine ⟨hconstants _, ?_⟩
    rintro before after rfl B hB heq
    have hBA : B = A := hinj (by simp [hB]) (by simp) heq
    rw [List.nodup_append] at hdistinct
    exact hdistinct.2.2 B hB A List.mem_cons_self hBA

section Dashes

/-- Two variables that have the same name once the dash is escaped. -/
def dashedDeclarations : List Declaration :=
  [.notifyingVariable (text "a__dash__b"), .notifyingVariable (text "a-b")]

end Dashes

end Engine

end CalculatedVariables

end Supernova
