/-
With which status calculated variables are published: every result comes from the
readings of the inputs at its time, and the states of the inputs of the status formula
are not looked at.
-/
import Supernova.CalculationGraph
import Supernova.OptionLoops
import Supernova.Propagation

namespace Supernova

attribute [local semireducible] ByteArray.toList.loop

namespace CalculatedVariables

open Quasar (BuiltInType StatusCode UaVariant UaDataValue BaseDataVariableType)

variable {content : BuiltInType → Type}

/-- A good status comes from good inputs only. -/
def Publication.OnGoodInputs (publication : Publication content) : Prop :=
  publication.dataValue.statusCode.isGood = true →
    (∀ reading ∈ publication.valueReadings, reading.state = .good) ∧
      ∀ reading ∈ publication.statusReadings, reading.state = .good

/-- The value formula has good inputs, the status formula has not, and the numbers that it
finds there make it different from zero. -/
def Publication.Unguarded (platform : Platform content) (publication : Publication content) :
    Prop :=
  (∀ reading ∈ publication.valueReadings, reading.state = .good) ∧
    (∃ reading ∈ publication.statusReadings, reading.state ≠ .good) ∧
    ∀ statusFormula, (platform.formulas publication.address).statusFormula = some statusFormula →
      platform.isZero (statusFormula (publication.statusReadings.map Reading.value)) = false

section Calculated

variable {platform : Platform content} {formulas : Formulas content}
  {valueReadings statusReadings : List (Reading content)}

theorem isGood_opcUaBad : opcUaBad.isGood = false := rfl

theorem isGood_badWaitingForInitialData : badWaitingForInitialData.isGood = false := rfl

theorem isGood_finalStatus_iff :
    (finalStatus platform formulas statusReadings).isGood = true ↔
      ∀ statusFormula, formulas.statusFormula = some statusFormula →
        platform.isZero (statusFormula (statusReadings.map Reading.value)) = false := by
  rw [finalStatus]
  rcases formulas.statusFormula with _ | statusFormula
  · simp
  · rcases hzero : platform.isZero (statusFormula (statusReadings.map Reading.value)) with _ | _
    · simp [hzero]
    · simp [hzero, isGood_opcUaBad]

/-- When a result is good: the value formula has good inputs, and the status formula, if
there is one, is not zero. -/
theorem isGood_calculated_iff :
    (calculated platform formulas valueReadings statusReadings).statusCode.isGood = true ↔
      (∀ reading ∈ valueReadings, reading.state = .good) ∧
        ∀ statusFormula, formulas.statusFormula = some statusFormula →
          platform.isZero (statusFormula (statusReadings.map Reading.value)) = false := by
  rw [calculated]
  split
  · rename_i reading hfind
    have hnot : reading.state ≠ .good := by
      simpa using List.find?_some hfind
    have hbad : (if reading.state = .waitingInitialData then badWaitingForInitialData
        else opcUaBad).isGood = false := by
      split_ifs
      · exact isGood_badWaitingForInitialData
      · exact isGood_opcUaBad
    rw [hbad]
    simp only [Bool.false_eq_true, false_iff, not_and]
    exact fun hgood => absurd (hgood reading (List.mem_of_find?_eq_some hfind)) hnot
  · rename_i hfind
    have hgood : ∀ reading ∈ valueReadings, reading.state = .good := by
      simpa using hfind
    rw [isGood_finalStatus_iff]
    exact (and_iff_right hgood).symm

end Calculated

namespace Engine

variable {e : Engine} {platform : Platform content}

/-- Every calculated variable has been given what its formulas make of its inputs. -/
def Computed (e : Engine) (platform : Platform content) (run : Run content) : Prop :=
  ∀ publication ∈ run.published, (e.calculatedVariable publication.address).isSome →
    publication.dataValue = calculated platform (platform.formulas publication.address)
      publication.valueReadings publication.statusReadings

theorem told_eq_some {base : BaseDataVariableType content} {session check : Bool}
    {cache dataValue newValue : UaDataValue content}
    (h : (Quasar.ChangeNotifyingVariable.setValue base session check cache dataValue).told =
      some newValue) : newValue = dataValue := by
  rw [Quasar.ChangeNotifyingVariable.setValue] at h
  simp only [Option.ite_none_right_eq_some, Option.some.injEq] at h
  exact h.2.symm

theorem computed_publish {run : Run content} {v : Nat} {dataValue : UaDataValue content}
    (hrun : e.Computed platform run)
    (hvalue : (e.calculatedVariable v).isSome → dataValue = e.calculation platform v run) :
    e.Computed platform (e.publish platform v dataValue run) := by
  intro publication hpublication hsome
  rcases List.mem_append.mp hpublication with hold | hnew
  · exact hrun publication hold hsome
  · rw [List.mem_singleton] at hnew
    subst hnew
    exact hvalue hsome

/-- What is calculated is all that a calculated variable is given in a propagation. -/
theorem computed_setValue {depth : Nat} {session check : Bool} {v : Nat}
    {dataValue : UaDataValue content} {run run' : Run content}
    (hrun : e.Computed platform run)
    (hvalue : (e.calculatedVariable v).isSome → dataValue = e.calculation platform v run)
    (h : e.setValue platform depth session check v dataValue run = some run') :
    e.Computed platform run' := by
  induction depth generalizing session check v dataValue run run' with
  | zero => cases h
  | succ depth ih =>
      have hupdate : ∀ (u : Nat) (run run' : Run content), e.Computed platform run →
          e.update platform (e.setValue platform depth false false) run u = some run' →
          e.Computed platform run' := by
        intro u run run' hrun h
        rw [update] at h
        split_ifs at h
        · exact ih hrun (fun _ => rfl) h
        · cases h
          exact hrun
      rw [setValue] at h
      split at h
      · cases h
        exact hrun
      · rename_i newValue htold
        rw [told_eq_some htold] at h
        refine loop_keeps ?_ (computed_publish hrun hvalue) h
        intro listener _ run run' hrun h
        cases listener with
        | other =>
            cases h
            exact hrun
        | parserVariable p =>
            rw [listen, setReading] at h
            refine loop_keeps (fun u _ => hupdate u) ?_ h
            exact hrun

/-- The action writes to a source, if it writes. -/
def OnSource (e : Engine) : Action content → Prop
  | .write v _ _ _ => e.calculatedVariable v = none
  | .setAutoUpdate _ _ => True
  | .triggerRecalculation _ => True

theorem computed_act {depth : Nat} {action : Action content} {run run' : Run content}
    (hsource : e.OnSource action) (hrun : e.Computed platform run)
    (h : e.act platform depth run action = some run') : e.Computed platform run' := by
  cases action with
  | write v session check dataValue =>
      refine computed_setValue hrun (fun hsome => ?_) h
      have hnone : e.calculatedVariable v = none := hsource
      rw [hnone] at hsome
      cases hsome
  | setAutoUpdate v enabled =>
      cases h
      exact hrun
  | triggerRecalculation v =>
      rw [act] at h
      split_ifs at h
      · exact computed_setValue hrun (fun _ => rfl) h
      · cases h
        exact hrun

/-- Over any run of writes to sources, calculated variables are published good on good
inputs only, exactly when none is recalculated unguarded. -/
theorem publishedOnGood_iff {depth : Nat} {actions : List (Action content)}
    {start run : Run content} (hsource : ∀ action ∈ actions, e.OnSource action)
    (hstart : start.published = [])
    (hrun : actions.foldlM (e.act platform depth) start = some run) :
    (∀ publication ∈ run.published, (e.calculatedVariable publication.address).isSome →
        publication.OnGoodInputs) ↔
      ∀ publication ∈ run.published, (e.calculatedVariable publication.address).isSome →
        ¬publication.Unguarded platform := by
  have hcomputed : e.Computed platform run := by
    refine loop_keeps (fun action haction _ _ => computed_act (hsource action haction)) ?_ hrun
    intro publication hpublication
    rw [hstart] at hpublication
    cases hpublication
  refine forall₂_congr fun publication hpublication => imp_congr_right fun hsome => ?_
  rw [Publication.OnGoodInputs, hcomputed publication hpublication hsome, isGood_calculated_iff]
  constructor
  · rintro hgood ⟨hvalue, ⟨reading, hreading, hnot⟩, hzero⟩
    exact hnot ((hgood ⟨hvalue, hzero⟩).2 reading hreading)
  · rintro hguarded ⟨hvalue, hzero⟩
    refine ⟨hvalue, fun reading hreading => ?_⟩
    by_contra hnot
    exact hguarded ⟨hvalue, ⟨reading, hreading, hnot⟩, hzero⟩

/-- Integers for all numbers, sums for value formulas, and the status formula that is one
less the sum: a flag that is raised makes the status bad. -/
def flagged : Platform fun _ => Int where
  zero := 0
  isZero x := x == 0
  boolean b := if b then 1 else 0
  toDouble
    | .scalar _ x => some x
    | _ => none
  formulas _ := ⟨false, List.sum, some fun flags => 1 - flags.sum⟩
  base _ := Quasar.obedientBase

/-- A variable, a flag, and a calculated variable with the variable in its value formula and
the flag in its status formula. -/
def flaggedVoltage : List Declaration :=
  [.notifyingVariable (text "raw"), .notifyingVariable (text "fault"),
    .calculatedVariable (text "voltage") [text "raw"] [text "fault"]]

/-- Nothing has been written yet. -/
def noInputs : Run fun _ => Int where
  reading _ := ⟨0, .waitingInitialData⟩
  held _ := ⟨.null, badWaitingForInitialData⟩
  autoUpdateEnabled _ := true
  published := []

def writeNumber (v : Nat) (x : Int) : Action fun _ => Int :=
  .write v false false ⟨.scalar .double x, StatusCode.opcUaGood⟩

theorem exists_configure_flaggedVoltage : ∃ e, configure flaggedVoltage = .ok e := by
  have hok : (configure flaggedVoltage).toOption.isSome = true := by
    decide
  rcases hconfigure : configure flaggedVoltage with error | e
  · rw [hconfigure] at hok
    cases hok
  · exact ⟨e, rfl⟩

theorem publishedOnGood_iff_flagged :
    ∃ e run, configure flaggedVoltage = .ok e ∧
      [writeNumber 1 0, writeNumber 0 5].foldlM (e.act flagged 3) noInputs = some run ∧
      ((∀ publication ∈ run.published, (e.calculatedVariable publication.address).isSome →
          publication.OnGoodInputs) ↔
        ∀ publication ∈ run.published, (e.calculatedVariable publication.address).isSome →
          ¬publication.Unguarded flagged) := by
  have hobserved : (configure flaggedVoltage).toOption.bind (fun e =>
      ([writeNumber 1 0, writeNumber 0 5].foldlM (e.act flagged 3) noInputs).map fun _ =>
        (e.calculatedVariable 0, e.calculatedVariable 1)) = some (none, none) := by
    decide
  obtain ⟨e, he⟩ := exists_configure_flaggedVoltage
  rw [he] at hobserved
  obtain ⟨run, hrun, hsources⟩ := Option.map_eq_some_iff.mp hobserved
  rw [Prod.mk.injEq] at hsources
  refine ⟨e, run, he, hrun, publishedOnGood_iff ?_ rfl hrun⟩
  intro action haction
  rcases List.mem_cons.mp haction with rfl | haction
  · exact hsources.2
  · rw [List.mem_singleton] at haction
    exact haction ▸ hsources.1

/-- The flag has never been written, and the voltage is published good: the number that
stands for the missing flag is zero. -/
theorem missingFlag_published_good :
    ∃ e run, configure flaggedVoltage = .ok e ∧
      [writeNumber 0 5].foldlM (e.act flagged 3) noInputs = some run ∧
      ∃ publication ∈ run.published, (e.calculatedVariable publication.address).isSome ∧
        ¬publication.OnGoodInputs := by
  have hobserved : (configure flaggedVoltage).toOption.bind (fun e =>
      ([writeNumber 0 5].foldlM (e.act flagged 3) noInputs).map fun run =>
        run.published.map fun publication => ((e.calculatedVariable publication.address).isSome,
          publication.dataValue.statusCode, publication.statusReadings.map Reading.state)) =
      some [(false, StatusCode.opcUaGood, []),
        (true, StatusCode.opcUaGood, [.waitingInitialData])] := by
    decide
  obtain ⟨e, he⟩ := exists_configure_flaggedVoltage
  rw [he] at hobserved
  obtain ⟨run, hrun, hpublished⟩ := Option.map_eq_some_iff.mp hobserved
  have hmem : (true, StatusCode.opcUaGood, [InputState.waitingInitialData]) ∈
      run.published.map fun publication => ((e.calculatedVariable publication.address).isSome,
        publication.dataValue.statusCode, publication.statusReadings.map Reading.state) := by
    rw [hpublished]
    simp
  obtain ⟨publication, hpublication, hseen⟩ := List.mem_map.mp hmem
  simp only [Prod.mk.injEq] at hseen
  obtain ⟨hsome, hstatus, hstates⟩ := hseen
  refine ⟨e, run, he, hrun, publication, hpublication, hsome, fun hgood => ?_⟩
  obtain ⟨reading, hreading, hwaiting⟩ : ∃ reading ∈ publication.statusReadings,
      reading.state = .waitingInitialData :=
    List.mem_map.mp (by rw [hstates]; exact List.mem_singleton_self _)
  have hstate := (hgood (by rw [hstatus]; rfl)).2 reading hreading
  rw [hwaiting] at hstate
  cases hstate

end Engine

end CalculatedVariables

end Supernova
