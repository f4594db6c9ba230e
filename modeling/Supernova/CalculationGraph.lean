/-
The graph of parser variables and calculated variables that any configuration
builds: who notifies whom, and which listeners there are.
-/
import Supernova.CalculatedVariablesEngine
import Supernova.ExceptResults

namespace Supernova

namespace CalculatedVariables

namespace Engine

/-- What holds of the engine at all times, also while a formula is parsed: the
notified variables of a parser variable are those it is an input of, and it
listens to its own variable. -/
structure Wired (e : Engine) : Prop where
  parserVariables_eq : e.parserVariables = List.range e.numParserVariables
  notifyingVariable_eq :
    ∀ p < e.numParserVariables, (e.parserVariable p).notifyingVariable = p
  notified_iff : ∀ p v, v ∈ (e.parserVariable p).notifiedVariables ↔
    ∃ cv, e.calculatedVariable v = some cv ∧ p ∈ cv.inputs
  inputs_lt : ∀ v cv, e.calculatedVariable v = some cv →
    ∀ p ∈ cv.inputs, p < e.numParserVariables
  listens_iff : ∀ v p, .parserVariable p ∈ e.changeListeners v ↔
    v = p ∧ p < e.numParserVariables
  unsynchronized : ∀ p, e.synchronizer p = none

/-- What holds between the entries of the configuration: a calculated variable
is notified about by its own parser variable, which is constant when it has no
inputs. -/
structure Configured (e : Engine) : Prop extends Wired e where
  calculated_lt : ∀ v cv, e.calculatedVariable v = some cv → v < e.numParserVariables
  notifiedVariable_eq : ∀ v cv, e.calculatedVariable v = some cv →
    cv.notifiedVariable = some v
  isConstant_iff : ∀ p < e.numParserVariables, (e.parserVariable p).isConstant = true ↔
    ∃ cv, e.calculatedVariable p = some cv ∧ cv.inputs = []

/-- What the parsing of a formula of `v` leaves alone. -/
structure Requested (v : Nat) (e e' : Engine) : Prop where
  others : ∀ u, u ≠ v → e'.calculatedVariable u = e.calculatedVariable u
  requestor : (e.calculatedVariable v).isSome → (e'.calculatedVariable v).isSome
  isConstant : ∀ p, (e'.parserVariable p).isConstant = (e.parserVariable p).isConstant
  numParserVariables : e'.numParserVariables = e.numParserVariables

theorem setCalculatedVariable_calculatedVariable (e : Engine) (v : Nat)
    (cv : CalculatedVariable) : (e.setCalculatedVariable v cv).calculatedVariable =
      Function.update e.calculatedVariable v (some cv) := rfl

section Registered

variable (e : Engine) (v : Nat) (nodeId : Bytes)

@[simp]
theorem registered_numParserVariables :
    (e.registerVariableForCalculatedVariables v nodeId).numParserVariables =
      e.numParserVariables + 1 := rfl

@[simp]
theorem registered_parserVariables :
    (e.registerVariableForCalculatedVariables v nodeId).parserVariables =
      e.parserVariables ++ [e.numParserVariables] := rfl

@[simp]
theorem registered_calculatedVariable :
    (e.registerVariableForCalculatedVariables v nodeId).calculatedVariable =
      e.calculatedVariable := rfl

theorem registered_parserVariable :
    (e.registerVariableForCalculatedVariables v nodeId).parserVariable =
      Function.update e.parserVariable e.numParserVariables
        ⟨v, escapeSpecialCharactersInParserVariableName nodeId, [], false⟩ := rfl

theorem registered_changeListeners :
    (e.registerVariableForCalculatedVariables v nodeId).changeListeners =
      Function.update e.changeListeners v
        (e.changeListeners v ++ [.parserVariable e.numParserVariables]) := rfl

end Registered

theorem mem_inputs_addDependentVariable (cv : CalculatedVariable) (p q : Nat)
    (type : RequestType) :
    q ∈ (addDependentVariable cv p type).inputs ↔ q ∈ cv.inputs ∨ q = p := by
  rcases type with _ | _
  · by_cases hmem : p ∈ cv.valueVariables
    · simp only [addDependentVariable, hmem, if_true]
      constructor
      · exact .inl
      · rintro (hq | rfl)
        · exact hq
        · exact List.mem_append_left _ hmem
    · simp only [addDependentVariable, hmem, if_false, CalculatedVariable.inputs,
        List.mem_append, List.mem_singleton]
      tauto
  · by_cases hmem : p ∈ cv.statusVariables
    · simp only [addDependentVariable, hmem, if_true]
      constructor
      · exact .inl
      · rintro (hq | rfl)
        · exact hq
        · exact List.mem_append_right _ hmem
    · simp only [addDependentVariable, hmem, if_false, CalculatedVariable.inputs,
        List.mem_append, List.mem_singleton]
      tauto

theorem parserVariableRequestHandler_eq_ok {v : Nat} {type : RequestType} {e e' : Engine}
    {name : Bytes} (h : parserVariableRequestHandler v type e name = .ok e') :
    ∃ p cv, p ∈ e.parserVariables ∧ e.calculatedVariable v = some cv ∧
      e' = (e.setCalculatedVariable v (addDependentVariable cv p type)).setParserVariable p
        { e.parserVariable p with
          notifiedVariables := (e.parserVariable p).notifiedVariables ++ [v] } := by
  unfold parserVariableRequestHandler at h
  split at h
  · rename_i p cv hfind hcv
    exact ⟨p, cv, List.mem_of_find?_eq_some hfind, hcv, (except_pure_eq_ok.1 h).symm⟩
  · cases h

theorem Wired.requested {v : Nat} {type : RequestType} {e e' : Engine} {name : Bytes}
    (hwired : e.Wired) (h : parserVariableRequestHandler v type e name = .ok e') :
    e'.Wired ∧ Requested v e e' := by
  obtain ⟨p, cv, hp, hcv, rfl⟩ := parserVariableRequestHandler_eq_ok h
  rw [hwired.parserVariables_eq, List.mem_range] at hp
  refine ⟨⟨hwired.parserVariables_eq, ?_, ?_, ?_, hwired.listens_iff,
    hwired.unsynchronized⟩, ⟨?_, ?_, ?_, rfl⟩⟩
  · intro q hq
    by_cases hqp : q = p
    · simpa [setParserVariable, setCalculatedVariable, hqp] using
        hwired.notifyingVariable_eq p hp
    · simpa [setParserVariable, setCalculatedVariable, hqp] using
        hwired.notifyingVariable_eq q hq
  · intro q u
    have hnotified := hwired.notified_iff q u
    by_cases huv : u = v
    · subst huv
      by_cases hqp : q = p
      · subst hqp
        simp [setParserVariable, setCalculatedVariable, mem_inputs_addDependentVariable]
      · simp only [hcv, Option.some.injEq, exists_eq_left'] at hnotified
        simpa [setParserVariable, setCalculatedVariable, mem_inputs_addDependentVariable, hqp]
          using hnotified
    · by_cases hqp : q = p
      · subst hqp
        simpa [setParserVariable, setCalculatedVariable, huv] using hnotified
      · simpa [setParserVariable, setCalculatedVariable, huv, hqp] using hnotified
  · intro u cv' hcv' q hq
    by_cases huv : u = v
    · subst huv
      simp only [setParserVariable, setCalculatedVariable, Function.update_self,
        Option.some.injEq] at hcv'
      rw [← hcv', mem_inputs_addDependentVariable] at hq
      rcases hq with hq | rfl
      · exact hwired.inputs_lt u cv hcv q hq
      · exact hp
    · simp only [setParserVariable, setCalculatedVariable, Function.update_of_ne huv] at hcv'
      exact hwired.inputs_lt u cv' hcv' q hq
  · intro u hu
    simp [setParserVariable, setCalculatedVariable, hu]
  · intro _
    simp [setParserVariable, setCalculatedVariable]
  · intro q
    by_cases hqp : q = p
    · simp [setParserVariable, setCalculatedVariable, hqp]
    · simp [setParserVariable, setCalculatedVariable, hqp]

theorem Requested.trans {v : Nat} {e e' e'' : Engine} (h : Requested v e e')
    (h' : Requested v e' e'') : Requested v e e'' where
  others u hu := (h'.others u hu).trans (h.others u hu)
  requestor hv := h'.requestor (h.requestor hv)
  isConstant p := (h'.isConstant p).trans (h.isConstant p)
  numParserVariables := h'.numParserVariables.trans h.numParserVariables

theorem Wired.initialized {v : Nat} {type : RequestType} {e e' : Engine} {operands : List Bytes}
    (hwired : e.Wired) (h : initializeParser v type e operands = .ok e') :
    e'.Wired ∧ Requested v e e' := by
  refine foldlM_keeps (I := fun e' => e'.Wired ∧ Requested v e e') ?_ ⟨hwired, ?_⟩ h
  · rintro s name s' ⟨hs, hrequested⟩ hstep
    obtain ⟨hs', hrequested'⟩ := hs.requested hstep
    exact ⟨hs', hrequested.trans hrequested'⟩
  · exact ⟨fun _ _ => rfl, id, fun _ => rfl, rfl⟩

/-- The next variable and its parser variable. -/
theorem Wired.registered {e : Engine} (hwired : e.Wired) (nodeId : Bytes) :
    (e.registerVariableForCalculatedVariables e.numParserVariables nodeId).Wired := by
  constructor
  · rw [registered_parserVariables, registered_numParserVariables, hwired.parserVariables_eq,
      List.range_succ]
  · intro p hp
    rw [registered_numParserVariables] at hp
    rw [registered_parserVariable]
    by_cases hpn : p = e.numParserVariables
    · rw [hpn, Function.update_self]
    · rw [Function.update_of_ne hpn]
      exact hwired.notifyingVariable_eq p (by omega)
  · intro p v
    rw [registered_parserVariable, registered_calculatedVariable]
    by_cases hpn : p = e.numParserVariables
    · rw [hpn, Function.update_self]
      constructor
      · intro hv
        cases hv
      · rintro ⟨cv, hcv, hp⟩
        exact absurd (hwired.inputs_lt v cv hcv _ hp) (lt_irrefl _)
    · rw [Function.update_of_ne hpn]
      exact hwired.notified_iff p v
  · intro v cv hcv p hp
    exact Nat.lt_succ_of_lt (hwired.inputs_lt v cv hcv p hp)
  · intro v p
    have hlistens := hwired.listens_iff v p
    rw [registered_changeListeners, registered_numParserVariables]
    by_cases hv : v = e.numParserVariables
    · subst hv
      rw [Function.update_self, List.mem_append, hlistens, List.mem_singleton,
        ChangeListener.parserVariable.injEq]
      omega
    · rw [Function.update_of_ne hv, hlistens]
      omega
  · exact hwired.unsynchronized

theorem Configured.calculatedVariable_eq_none {e : Engine} (h : e.Configured) :
    e.calculatedVariable e.numParserVariables = none := by
  by_contra hsome
  obtain ⟨cv, hcv⟩ := Option.ne_none_iff_exists'.mp hsome
  exact lt_irrefl _ (h.calculated_lt _ cv hcv)

theorem Configured.registered {e : Engine} (h : e.Configured) (nodeId : Bytes) :
    (e.registerVariableForCalculatedVariables e.numParserVariables nodeId).Configured where
  toWired := h.toWired.registered nodeId
  calculated_lt v cv hcv := Nat.lt_succ_of_lt (h.calculated_lt v cv hcv)
  notifiedVariable_eq := h.notifiedVariable_eq
  isConstant_iff p hp := by
    rw [registered_numParserVariables] at hp
    rw [registered_parserVariable, registered_calculatedVariable]
    by_cases hpn : p = e.numParserVariables
    · rw [hpn, Function.update_self, h.calculatedVariable_eq_none]
      simp
    · rw [Function.update_of_ne hpn]
      exact h.isConstant_iff p (by omega)

/-- A calculated variable without inputs yet. -/
theorem Configured.allocated {e : Engine} (h : e.Configured) :
    (e.setCalculatedVariable e.numParserVariables ⟨[], [], none⟩).Wired := by
  refine ⟨h.parserVariables_eq, h.notifyingVariable_eq, ?_, ?_, h.listens_iff,
    h.unsynchronized⟩
  · intro p v
    rw [setCalculatedVariable_calculatedVariable]
    refine (h.notified_iff p v).trans ?_
    by_cases hv : v = e.numParserVariables
    · rw [hv, Function.update_self, h.calculatedVariable_eq_none]
      simp [CalculatedVariable.inputs]
    · rw [Function.update_of_ne hv]
  · intro v cv hcv p hp
    by_cases hv : v = e.numParserVariables
    · rw [setCalculatedVariable_calculatedVariable, hv, Function.update_self,
        Option.some.injEq] at hcv
      rw [← hcv] at hp
      cases hp
    · rw [setCalculatedVariable_calculatedVariable, Function.update_of_ne hv] at hcv
      exact h.inputs_lt v cv hcv p hp

theorem attach_notifiedVariables (e : Engine) (v : Nat) (cv : CalculatedVariable) (p : Nat) :
    ((e.attach v cv).parserVariable p).notifiedVariables =
      (e.parserVariable p).notifiedVariables := by
  by_cases hpv : p = v
  · simp [attach, hpv]
  · simp [attach, hpv]

theorem Wired.attached {e : Engine} (hwired : e.Wired) {v : Nat} {cv : CalculatedVariable}
    (hcv : e.calculatedVariable v = some cv) : (e.attach v cv).Wired := by
  refine ⟨hwired.parserVariables_eq, ?_, ?_, ?_, hwired.listens_iff, hwired.unsynchronized⟩
  · intro p hp
    have hnotifying := hwired.notifyingVariable_eq p hp
    by_cases hpv : p = v
    · simpa [attach, hpv] using hpv ▸ hnotifying
    · simpa [attach, hpv] using hnotifying
  · intro p u
    rw [attach_notifiedVariables, hwired.notified_iff]
    by_cases huv : u = v
    · simp [attach, huv, hcv, CalculatedVariable.inputs]
    · simp [attach, huv]
  · intro u cv' hcv' p hp
    by_cases huv : u = v
    · simp only [attach, huv, Function.update_self, Option.some.injEq] at hcv'
      rw [← hcv'] at hp
      exact hwired.inputs_lt v cv hcv p hp
    · simp only [attach, Function.update_of_ne huv] at hcv'
      exact hwired.inputs_lt u cv' hcv' p hp

theorem Configured.instantiated {e e' : Engine} (h : e.Configured) {nodeId : Bytes}
    {valueOperands statusOperands : List Bytes}
    (hok : e.instantiateCalculatedVariable nodeId valueOperands statusOperands = .ok e') :
    e'.Configured := by
  obtain ⟨e₁, hvalue, hok⟩ := except_bind_eq_ok.1 hok
  obtain ⟨e₂, hstatus, hok⟩ := except_bind_eq_ok.1 hok
  obtain ⟨hwired₁, hrequested₁⟩ := h.allocated.initialized hvalue
  obtain ⟨hwired₂, hrequested₂⟩ := hwired₁.initialized hstatus
  have hrequested := hrequested₁.trans hrequested₂
  have hnum : e₂.numParserVariables = e.numParserVariables := hrequested.numParserVariables
  have hother : ∀ u, u ≠ e.numParserVariables →
      e₂.calculatedVariable u = e.calculatedVariable u := by
    intro u hu
    rw [hrequested.others u hu, setCalculatedVariable_calculatedVariable,
      Function.update_of_ne hu]
  have hconstant : ∀ p, (e₂.parserVariable p).isConstant = (e.parserVariable p).isConstant :=
    hrequested.isConstant
  rcases hcv : e₂.calculatedVariable e.numParserVariables with _ | cv
  · have hsome := hrequested.requestor (by simp [setCalculatedVariable])
    simp [hcv] at hsome
  simp only [registered_calculatedVariable, hcv] at hok
  rw [← except_pure_eq_ok.1 hok, ← hnum]
  rw [← hnum] at hcv hother
  refine ⟨(hwired₂.registered nodeId).attached hcv, ?_, ?_, ?_⟩
  · intro u cv' hcv'
    by_cases hu : u = e₂.numParserVariables
    · simp [attach, hu]
    · simp only [attach, Function.update_of_ne hu, registered_calculatedVariable,
        hother u hu] at hcv'
      have hlt := h.calculated_lt u cv' hcv'
      simp only [attach, registered_numParserVariables]
      omega
  · intro u cv' hcv'
    by_cases hu : u = e₂.numParserVariables
    · simp only [attach, hu, Function.update_self, Option.some.injEq] at hcv'
      rw [← hcv', hu]
    · simp only [attach, Function.update_of_ne hu, registered_calculatedVariable,
        hother u hu] at hcv'
      exact h.notifiedVariable_eq u cv' hcv'
  · intro p hp
    simp only [attach, registered_numParserVariables] at hp
    by_cases hpn : p = e₂.numParserVariables
    · simp [attach, hpn, CalculatedVariable.isConstant, CalculatedVariable.inputs]
    · simpa [attach, hpn, registered_parserVariable, hother p hpn, hconstant p] using
        h.isConstant_iff p (by omega)

theorem configured_empty : Engine.empty.Configured := by
  have hnotified : ∀ p, (Engine.empty.parserVariable p).notifiedVariables = [] := fun _ => rfl
  refine ⟨⟨rfl, ?_, ?_, ?_, ?_, fun _ => rfl⟩, ?_, ?_, ?_⟩
  · simp [Engine.empty]
  · intro p v
    rw [hnotified]
    simp [Engine.empty]
  all_goals simp [Engine.empty]

theorem Configured.declared {e e' : Engine} (h : e.Configured) {declaration : Declaration}
    (hok : e.declare declaration = .ok e') : e'.Configured := by
  rcases declaration with nodeId | name | ⟨nodeId, valueOperands, statusOperands⟩ | v
  · exact except_pure_eq_ok.1 hok ▸ h.registered nodeId
  · rw [← except_pure_eq_ok.1 hok]
    exact ⟨⟨h.parserVariables_eq, h.notifyingVariable_eq, h.notified_iff, h.inputs_lt,
      h.listens_iff, h.unsynchronized⟩, h.calculated_lt, h.notifiedVariable_eq,
      h.isConstant_iff⟩
  · exact h.instantiated hok
  · rw [← except_pure_eq_ok.1 hok]
    refine ⟨⟨h.parserVariables_eq, h.notifyingVariable_eq, h.notified_iff, h.inputs_lt,
      ?_, h.unsynchronized⟩, h.calculated_lt, h.notifiedVariable_eq, h.isConstant_iff⟩
    intro u p
    by_cases huv : u = v
    · simpa [addChangeListener, huv] using h.listens_iff v p
    · simpa [addChangeListener, huv] using h.listens_iff u p

/-- Every configuration that is read without an error gives such an engine. -/
theorem configured_of_configure {declarations : List Declaration} {e : Engine}
    (h : configure declarations = .ok e) : e.Configured :=
  foldlM_keeps (fun _ _ _ hs hok => hs.declared hok) configured_empty h

end Engine

end CalculatedVariables

end Supernova
