/-
The optimization of the engine is not seen from outside: what it erases is read by
nobody, so that the runs before and after publish the same, and nothing that is left
refers to anything that is gone.
-/
import Supernova.ExactPropagation
import Supernova.Synchronization

namespace Supernova

attribute [local semireducible] ByteArray.toList.loop

namespace CalculatedVariables

open Quasar (BuiltInType StatusCode UaVariant UaDataValue BaseDataVariableType)

namespace Engine

section Links

/-- Who points to whom, among what there is: what a calculated variable has as an input
exists, and notifies exactly those that it is an input of; listeners and calculated
variables refer to parser variables that exist. -/
structure Consistent (e : Engine) : Prop where
  inputs : ∀ v cv, e.calculatedVariable v = some cv → ∀ p ∈ cv.inputs, p ∈ e.parserVariables
  notified : ∀ p ∈ e.parserVariables, ∀ v, v ∈ (e.parserVariable p).notifiedVariables ↔
    ∃ cv, e.calculatedVariable v = some cv ∧ p ∈ cv.inputs
  listeners : ∀ v p, .parserVariable p ∈ e.changeListeners v → p ∈ e.parserVariables
  notifiedVariable : ∀ v cv p, e.calculatedVariable v = some cv → cv.notifiedVariable = some p →
    p ∈ e.parserVariables

theorem Configured.consistent_optimize {e : Engine} (he : e.Configured) :
    e.optimize.Consistent := by
  have hkept : ∀ p, p ∈ e.optimize.parserVariables ↔
      p < e.numParserVariables ∧ e.isUnused p = false := by
    intro p
    rw [← he.mem_remaining, remaining, List.mem_toFinset]
  refine ⟨?_, ?_, ?_, ?_⟩
  · intro v cv hcv p hp
    obtain ⟨cv', hcv', hp'⟩ := (he.exists_optimize_iff v p).mp ⟨cv, hcv, hp⟩
    exact List.mem_toFinset.mp (he.input_mem_remaining hcv' hp')
  · intro p _ v
    rw [he.parserVariable_optimize, he.notified_iff, he.exists_optimize_iff]
  · intro v p hlistens
    rw [he.toWired.optimized.changeListeners] at hlistens
    split_ifs at hlistens with hunused
    · cases hlistens
    · obtain ⟨rfl, hlt⟩ := (he.listens_iff v p).mp hlistens
      simp only [List.mem_range, hlt, true_and, Bool.not_eq_true] at hunused
      exact (hkept v).mpr ⟨hlt, hunused⟩
  · intro v cv p hcv hp
    rw [he.calculatedVariable_optimize] at hcv
    split_ifs at hcv with hunused
    · obtain ⟨cv', -, rfl⟩ := Option.map_eq_some_iff.mp hcv
      cases hp
    · have hself := he.notifiedVariable_eq v cv hcv
      rw [hp, Option.some.injEq] at hself
      subst hself
      exact (hkept p).mpr ⟨he.calculated_lt p cv hcv, Bool.not_eq_true _ ▸ hunused⟩

end Links

section Simulation

variable {content : BuiltInType → Type} {e : Engine} {platform : Platform content}

/-- Two runs that differ at most in what parser variables hold that notify nobody. -/
structure SameOutside (e : Engine) (run run' : Run content) : Prop where
  reading : ∀ p, (e.parserVariable p).notifiedVariables ≠ [] → run'.reading p = run.reading p
  held : run'.held = run.held
  autoUpdateEnabled : run'.autoUpdateEnabled = run.autoUpdateEnabled
  published : run'.published = run.published

theorem notifiedVariables_of_isUnused {v : Nat} (h : e.isUnused v = true) :
    (e.parserVariable v).notifiedVariables = [] := by
  simp only [isUnused, Bool.and_eq_true, decide_eq_true_eq] at h
  exact List.length_eq_zero_iff.mp h.1

variable (he : e.Configured) {run run' : Run content} (h : e.SameOutside run run')
include he h

theorem SameOutside.reading_of_input {v p : Nat} {cv : CalculatedVariable}
    (hcv : e.calculatedVariable v = some cv) (hp : p ∈ cv.inputs) :
    run'.reading p = run.reading p :=
  h.reading p (List.ne_nil_of_mem ((he.notified_iff p v).mpr ⟨cv, hcv, hp⟩))

theorem valueReadings_optimize (v : Nat) :
    e.optimize.valueReadings v run' = e.valueReadings v run := by
  have hreading : ∀ cv, e.calculatedVariable v = some cv →
      cv.valueVariables.map run'.reading = cv.valueVariables.map run.reading := fun cv hcv =>
    List.map_congr_left fun p hp => h.reading_of_input he hcv (List.mem_append_left _ hp)
  rw [valueReadings, valueReadings, he.calculatedVariable_optimize]
  rcases hcv : e.calculatedVariable v with _ | cv
  · simp
  · split_ifs
    · exact hreading cv hcv
    · exact hreading cv hcv

theorem statusReadings_optimize (v : Nat) :
    e.optimize.statusReadings platform v run' = e.statusReadings platform v run := by
  have hreading : ∀ cv, e.calculatedVariable v = some cv →
      cv.statusVariables.map run'.reading = cv.statusVariables.map run.reading := fun cv hcv =>
    List.map_congr_left fun p hp => h.reading_of_input he hcv (List.mem_append_right _ hp)
  rw [statusReadings, statusReadings, he.calculatedVariable_optimize]
  rcases hcv : e.calculatedVariable v with _ | cv
  · simp
  · split_ifs
    · exact hreading cv hcv
    · exact hreading cv hcv
    · rfl

theorem calculation_optimize (v : Nat) :
    e.optimize.calculation platform v run' = e.calculation platform v run := by
  rw [calculation, calculation, valueReadings_optimize he h, statusReadings_optimize he h]

theorem SameOutside.publish (v : Nat) (dataValue : UaDataValue content) :
    e.SameOutside (e.publish platform v dataValue run)
      (e.optimize.publish platform v dataValue run') where
  reading := h.reading
  held := by
    simp only [Engine.publish, h.held]
  autoUpdateEnabled := h.autoUpdateEnabled
  published := by
    simp only [Engine.publish, h.published, valueReadings_optimize he h,
      statusReadings_optimize he h]

theorem SameOutside.setReading {update update' : Run content → Nat → Option (Run content)}
    {p : Nat} (reading : Reading content)
    (hupdate : ∀ v ∈ (e.parserVariable p).notifiedVariables, ∀ s s', e.SameOutside s s' →
      Option.Rel e.SameOutside (update s v) (update' s' v)) :
    Option.Rel e.SameOutside (e.setReading update p reading run)
      (e.optimize.setReading update' p reading run') := by
  rw [Engine.setReading, Engine.setReading, he.parserVariable_optimize]
  refine loop_relates hupdate ⟨?_, h.held, h.autoUpdateEnabled, h.published⟩
  intro q hq
  by_cases hqp : q = p
  · simp [hqp]
  · simpa [hqp] using h.reading q hq

/-- A parser variable that notifies nobody is written, and that is all. -/
theorem SameOutside.listen_unused {update : Run content → Nat → Option (Run content)} {v : Nat}
    (reading : Reading content) (hunused : e.isUnused v = true) {listener : ChangeListener}
    (hlistener : listener ∈ e.changeListeners v) :
    ∃ s, e.listen update reading run listener = some s ∧ e.SameOutside s run' := by
  cases listener with
  | other => exact ⟨run, rfl, h⟩
  | parserVariable p =>
      obtain ⟨rfl, -⟩ := (he.listens_iff v p).mp hlistener
      have hnone := notifiedVariables_of_isUnused hunused
      refine ⟨_, by rw [listen, Engine.setReading, hnone, List.foldlM_nil]; rfl, ?_⟩
      refine ⟨fun q hq => ?_, h.held, h.autoUpdateEnabled, h.published⟩
      have hqv : q ≠ v := by
        rintro rfl
        exact hq hnone
      simpa [hqv] using h.reading q hq

omit h in
/-- One write, before and after the optimization. -/
theorem sameOutside_setValue (depth : Nat) {session check : Bool} {v : Nat}
    {dataValue : UaDataValue content} (h : e.SameOutside run run') :
    Option.Rel e.SameOutside (e.setValue platform depth session check v dataValue run)
      (e.optimize.setValue platform depth session check v dataValue run') := by
  induction depth generalizing session check v dataValue run run' with
  | zero => exact .none
  | succ depth ih =>
      have hupdate : ∀ w s s', e.SameOutside s s' →
          Option.Rel e.SameOutside
            (e.update platform (e.setValue platform depth false false) s w)
            (e.optimize.update platform (e.optimize.setValue platform depth false false) s' w) := by
        intro w s s' hs
        rw [update, update, hs.autoUpdateEnabled, calculation_optimize he hs]
        split_ifs
        · exact ih hs
        · exact .some hs
      rw [setValue, setValue, h.held]
      split
      · exact .some h
      · rename_i newValue _
        have hpublish : e.SameOutside (e.publish platform v newValue run)
            (e.optimize.publish platform v newValue run') := h.publish he v newValue
        rw [he.toWired.optimized.changeListeners]
        split_ifs with hgone
        · -- nothing listens any more
          obtain ⟨s, hs, hsame⟩ := loop_succeeds (e.changeListeners v)
            (f := e.listen (e.update platform (e.setValue platform depth false false))
              (readingOf platform newValue))
            (I := fun _ s => e.SameOutside s (e.optimize.publish platform v newValue run'))
            (fun _ listener _ s hsplit hs => hs.listen_unused he (readingOf platform newValue)
              hgone.2 (by rw [hsplit]; simp)) hpublish
          rw [hs]
          exact .some hsame
        · refine loop_relates (fun listener _ s s' hs => ?_) hpublish
          cases listener with
          | other => exact .some hs
          | parserVariable p => exact hs.setReading he _ fun w _ => hupdate w

omit h in
theorem sameOutside_act (depth : Nat) (action : Action content) (h : e.SameOutside run run') :
    Option.Rel e.SameOutside (e.act platform depth run action)
      (e.optimize.act platform depth run' action) := by
  cases action with
  | write v session check dataValue => exact sameOutside_setValue he depth h
  | setAutoUpdate v enabled =>
      refine .some ⟨h.reading, h.held, ?_, h.published⟩
      simp only [h.autoUpdateEnabled]
  | triggerRecalculation v =>
      have hsome : (e.optimize.calculatedVariable v).isSome = (e.calculatedVariable v).isSome := by
        rw [he.calculatedVariable_optimize]
        split_ifs
        · exact Option.isSome_map
        · rfl
      rw [act, act, hsome, calculation_optimize he h]
      split_ifs
      · exact sameOutside_setValue he depth h
      · exact .some h

end Simulation

section Invisible

variable {content : BuiltInType → Type}

/-- The optimization leaves no loose ends, and whatever is done afterwards, the variables
publish and hold what they would have published and held without it. -/
theorem optimize_invisible {declarations : List Declaration} {e : Engine}
    (h : configure declarations = .ok e) (platform : Platform content)
    (actions : List (Action content)) (start : Run content) :
    e.optimize.Consistent ∧ ∃ run run',
      actions.foldlM (e.act platform (e.numParserVariables + 1)) start = some run ∧
      actions.foldlM (e.optimize.act platform (e.numParserVariables + 1)) start = some run' ∧
      run'.published = run.published ∧ run'.held = run.held := by
  have he := configured_of_configure h
  refine ⟨he.consistent_optimize, ?_⟩
  obtain ⟨run, hrun⟩ : ∃ run,
      actions.foldlM (e.act platform (e.numParserVariables + 1)) start = some run :=
    terminates_actions he (inputs_lt_of_configure h) actions start
  have hsame : Option.Rel e.SameOutside
      (actions.foldlM (e.act platform (e.numParserVariables + 1)) start)
      (actions.foldlM (e.optimize.act platform (e.numParserVariables + 1)) start) :=
    loop_relates (fun action _ _ _ hs => sameOutside_act he _ action hs)
      ⟨fun _ _ => rfl, rfl, rfl, rfl⟩
  rw [hrun] at hsame
  rcases hrun' : actions.foldlM (e.optimize.act platform (e.numParserVariables + 1)) start
    with _ | run'
  · rw [hrun'] at hsame
    cases hsame
  · rw [hrun'] at hsame
    cases hsame with
    | some hsame => exact ⟨run, run', hrun, rfl, hsame.published, hsame.held⟩

/-- The parser variable of the voltage is erased. -/
theorem optimize_invisible_flagged : ∃ e, configure flaggedVoltage = .ok e ∧
    e.optimize.parserVariables = [0, 1] ∧ e.optimize.Consistent ∧ ∃ run run',
      [writeNumber 1 0, writeNumber 0 5].foldlM (e.act flagged (e.numParserVariables + 1))
        noInputs = some run ∧
      [writeNumber 1 0, writeNumber 0 5].foldlM
        (e.optimize.act flagged (e.numParserVariables + 1)) noInputs = some run' ∧
      run'.published = run.published ∧ run'.held = run.held := by
  have hobserved : (configure flaggedVoltage).toOption.map (fun e =>
      e.optimize.parserVariables) = some [0, 1] := by
    decide
  obtain ⟨e, he⟩ := exists_configure_flaggedVoltage
  rw [he] at hobserved
  simp only [Except.toOption, Option.map_some, Option.some.injEq] at hobserved
  exact ⟨e, he, hobserved, optimize_invisible he flagged _ noInputs⟩

end Invisible

end Engine

end CalculatedVariables

end Supernova
