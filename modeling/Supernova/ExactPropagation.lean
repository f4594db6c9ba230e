/-
Calculated variables track their inputs: a write makes everything downstream of it
recalculate, each variable at the latest when the last of its inputs has changed, and
comes to an end because formulas refer to earlier variables only.
-/
import Supernova.PublishedStatus

namespace Supernova

attribute [local semireducible] ByteArray.toList.loop

namespace CalculatedVariables

open Quasar (BuiltInType StatusCode UaVariant UaDataValue BaseDataVariableType)

namespace Engine

section Order

/-- The formulas of a new calculated variable find earlier variables only. -/
theorem Configured.inputs_lt_of_instantiated {e e' : Engine} (h : e.Configured) {nodeId : Bytes}
    {valueOperands statusOperands : List Bytes}
    (hok : e.instantiateCalculatedVariable nodeId valueOperands statusOperands = .ok e')
    (hlt : ∀ v cv, e.calculatedVariable v = some cv → ∀ p ∈ cv.inputs, p < v) :
    ∀ v cv, e'.calculatedVariable v = some cv → ∀ p ∈ cv.inputs, p < v := by
  obtain ⟨e₁, hvalue, hok⟩ := except_bind_eq_ok.1 hok
  obtain ⟨e₂, hstatus, hok⟩ := except_bind_eq_ok.1 hok
  obtain ⟨hwired₁, hrequested₁⟩ := h.allocated.initialized hvalue
  obtain ⟨hwired₂, hrequested₂⟩ := hwired₁.initialized hstatus
  have hrequested := hrequested₁.trans hrequested₂
  have hnum : e₂.numParserVariables = e.numParserVariables := hrequested.numParserVariables
  rcases hcv : e₂.calculatedVariable e.numParserVariables with _ | cv
  · have hsome := hrequested.requestor (by simp [setCalculatedVariable])
    simp [hcv] at hsome
  simp only [registered_calculatedVariable, hcv] at hok
  rw [← except_pure_eq_ok.1 hok]
  intro v cv' hcv' p hp
  by_cases hv : v = e.numParserVariables
  · subst hv
    simp only [attach, Function.update_self, Option.some.injEq] at hcv'
    subst hcv'
    have hlt := hwired₂.inputs_lt _ cv hcv p hp
    omega
  · simp only [attach, Function.update_of_ne hv, registered_calculatedVariable,
      hrequested.others v hv, setCalculatedVariable_calculatedVariable] at hcv'
    exact hlt v cv' hcv' p hp

/-- Formulas refer to variables that are registered before their own. -/
theorem inputs_lt_of_configure {declarations : List Declaration} {e : Engine}
    (h : configure declarations = .ok e) :
    ∀ v cv, e.calculatedVariable v = some cv → ∀ p ∈ cv.inputs, p < v := by
  have hboth : e.Configured ∧
      ∀ v cv, e.calculatedVariable v = some cv → ∀ p ∈ cv.inputs, p < v := by
    refine foldlM_keeps (I := fun s => s.Configured ∧
      ∀ v cv, s.calculatedVariable v = some cv → ∀ p ∈ cv.inputs, p < v) ?_
      ⟨configured_empty, by simp [Engine.empty]⟩ h
    rintro s declaration s' ⟨hs, hlt⟩ hok
    refine ⟨hs.declared hok, ?_⟩
    rcases declaration with nodeId | name | ⟨nodeId, valueOperands, statusOperands⟩ | v
    · exact except_pure_eq_ok.1 hok ▸ hlt
    · exact except_pure_eq_ok.1 hok ▸ hlt
    · exact hs.inputs_lt_of_instantiated hok hlt
    · exact except_pure_eq_ok.1 hok ▸ hlt
  exact hboth.2

end Order

section Termination

variable {content : BuiltInType → Type} {e : Engine} {platform : Platform content} (he : e.Configured)
  (horder : ∀ v cv, e.calculatedVariable v = some cv → ∀ p ∈ cv.inputs, p < v)
include he horder

/-- The calls are nested no deeper than there are variables behind the first. -/
theorem terminates_setValue (depth : Nat) {session check : Bool} {v : Nat}
    {dataValue : UaDataValue content} {run : Run content}
    (hdepth : e.numParserVariables - v < depth) :
    ∃ run', e.setValue platform depth session check v dataValue run = some run' := by
  induction depth generalizing session check v dataValue run with
  | zero => omega
  | succ depth ih =>
      rw [setValue]
      split
      · exact ⟨run, rfl⟩
      · have hupdate : ∀ w ∈ (e.parserVariable v).notifiedVariables, ∀ s, ∃ s',
            e.update platform (e.setValue platform depth false false) s w = some s' := by
          intro w hw s
          obtain ⟨cv, hcv, hinput⟩ := (he.notified_iff v w).mp hw
          have hlt := horder w cv hcv v hinput
          have hbound := he.calculated_lt w cv hcv
          rw [update]
          split_ifs
          · exact ih (by omega)
          · exact ⟨s, rfl⟩
        refine loop_ends (fun listener hlistener s => ?_) _
        cases listener with
        | other => exact ⟨s, rfl⟩
        | parserVariable p =>
            obtain ⟨rfl, -⟩ := (he.listens_iff v p).mp hlistener
            exact loop_ends hupdate _

theorem terminates_act (run : Run content) (action : Action content) :
    ∃ run', e.act platform (e.numParserVariables + 1) run action = some run' := by
  cases action with
  | write v session check dataValue =>
      exact terminates_setValue he horder (e.numParserVariables + 1) (by omega)
  | setAutoUpdate v enabled => exact ⟨_, rfl⟩
  | triggerRecalculation v =>
      rw [act]
      split_ifs
      · exact terminates_setValue he horder (e.numParserVariables + 1) (by omega)
      · exact ⟨run, rfl⟩

theorem terminates_actions (actions : List (Action content)) (start : Run content) :
    ∃ run, actions.foldlM (e.act platform (e.numParserVariables + 1)) start = some run :=
  loop_ends (fun action _ s => terminates_act he horder s action) start

end Termination

section Downstream

/-- Who recalculates because of a change of `v`, directly or through others; updates may be
turned off. -/
inductive Downstream (e : Engine) (autoUpdateEnabled : Nat → Bool) (v : Nat) : Nat → Prop
  | input {u : Nat} {cv : CalculatedVariable} (hcv : e.calculatedVariable u = some cv)
      (hinput : v ∈ cv.inputs) (hauto : autoUpdateEnabled u = true) :
      Downstream e autoUpdateEnabled v u
  | chain {w u : Nat} {cv : CalculatedVariable} (h : Downstream e autoUpdateEnabled v w)
      (hcv : e.calculatedVariable u = some cv) (hinput : w ∈ cv.inputs)
      (hauto : autoUpdateEnabled u = true) : Downstream e autoUpdateEnabled v u

variable {e : Engine} {auto : Nat → Bool} {u v w : Nat}

theorem Downstream.enabled (h : e.Downstream auto v u) : auto u = true := by
  cases h with
  | input _ _ hauto => exact hauto
  | chain _ _ _ hauto => exact hauto

theorem Downstream.isSome (h : e.Downstream auto v u) : (e.calculatedVariable u).isSome := by
  cases h with
  | input hcv _ _ => simp [hcv]
  | chain _ hcv _ _ => simp [hcv]

theorem Downstream.lt (horder : ∀ v cv, e.calculatedVariable v = some cv → ∀ p ∈ cv.inputs, p < v)
    (h : e.Downstream auto v u) : v < u := by
  induction h with
  | input hcv hinput _ => exact horder _ _ hcv _ hinput
  | chain _ hcv hinput _ ih => exact ih.trans (horder _ _ hcv _ hinput)

theorem Downstream.trans (hvw : e.Downstream auto v w) (hwu : e.Downstream auto w u) :
    e.Downstream auto v u := by
  induction hwu with
  | input hcv hinput hauto => exact .chain hvw hcv hinput hauto
  | chain _ hcv hinput hauto ih => exact .chain ih hcv hinput hauto

/-- The way down begins with a variable that has `v` as an input. -/
theorem Downstream.exists_first (h : e.Downstream auto v u) :
    ∃ w cv, e.calculatedVariable w = some cv ∧ v ∈ cv.inputs ∧ auto w = true ∧
      (u = w ∨ e.Downstream auto w u) := by
  induction h with
  | input hcv hinput hauto => exact ⟨_, _, hcv, hinput, hauto, .inl rfl⟩
  | chain _ hcv hinput hauto ih =>
      obtain ⟨first, cv, hfirst, hv, hfirstAuto, hbelow⟩ := ih
      refine ⟨first, cv, hfirst, hv, hfirstAuto, .inr ?_⟩
      rcases hbelow with rfl | hbelow
      · exact .input hcv hinput hauto
      · exact .chain hbelow hcv hinput hauto

end Downstream

section Exact

variable {content : BuiltInType → Type}

/-- What the formulas give on the states of the inputs. -/
inductive Gives (platform : Platform content) (formulas : Formulas content)
    (valueReadings statusReadings : List (Reading content)) : UaDataValue content → Prop
  | notGood {before after : List (Reading content)} {reading : Reading content}
      (hreadings : valueReadings = before ++ reading :: after)
      (hbefore : ∀ reading ∈ before, reading.state = .good) (hnot : reading.state ≠ .good) :
      Gives platform formulas valueReadings statusReadings
        ⟨.null, if reading.state = .waitingInitialData then badWaitingForInitialData
          else opcUaBad⟩
  | good (hgood : ∀ reading ∈ valueReadings, reading.state = .good) :
      Gives platform formulas valueReadings statusReadings
        ⟨updatedValue platform formulas valueReadings,
          finalStatus platform formulas statusReadings⟩

theorem gives_calculated (platform : Platform content) (formulas : Formulas content)
    (valueReadings statusReadings : List (Reading content)) :
    Gives platform formulas valueReadings statusReadings
      (calculated platform formulas valueReadings statusReadings) := by
  rw [calculated]
  split
  · rename_i reading hfind
    obtain ⟨hnot, before, after, hreadings, hbefore⟩ := List.find?_eq_some_iff_append.mp hfind
    refine .notGood hreadings ?_ ?_
    · simpa using hbefore
    · simpa using hnot
  · rename_i hfind
    exact .good (by simpa using hfind)

variable {e : Engine} {platform : Platform content} {run run' run'' : Run content} {u v : Nat}

/-- A calculated variable holds what its formulas give now, and its parser variable has
read that. -/
structure Exact (e : Engine) (platform : Platform content) (run : Run content) (u : Nat) :
    Prop where
  held : (e.calculatedVariable u).isSome → run.held u = e.calculation platform u run
  reading : run.reading u = readingOf platform (run.held u)

section Congr

variable (h : ∀ cv, e.calculatedVariable u = some cv → ∀ p ∈ cv.inputs,
  run'.reading p = run.reading p)
include h

theorem valueReadings_congr : e.valueReadings u run' = e.valueReadings u run := by
  rw [valueReadings, valueReadings]
  rcases hcv : e.calculatedVariable u with _ | cv
  · rfl
  · exact List.map_congr_left fun p hp => h cv hcv p (List.mem_append_left _ hp)

theorem statusReadings_congr :
    e.statusReadings platform u run' = e.statusReadings platform u run := by
  rw [statusReadings, statusReadings]
  rcases hcv : e.calculatedVariable u with _ | cv
  · rfl
  · split_ifs
    · exact List.map_congr_left fun p hp => h cv hcv p (List.mem_append_right _ hp)
    · rfl

theorem calculation_congr : e.calculation platform u run' = e.calculation platform u run := by
  rw [calculation, calculation, valueReadings_congr h, statusReadings_congr h]

end Congr

theorem Exact.congr (h : e.Exact platform run u) (hheld : run'.held u = run.held u)
    (hself : run'.reading u = run.reading u)
    (hreading : ∀ cv, e.calculatedVariable u = some cv → ∀ p ∈ cv.inputs,
      run'.reading p = run.reading p) : e.Exact platform run' u where
  held hsome := by
    rw [hheld, calculation_congr hreading]
    exact h.held hsome
  reading := by
    rw [hheld, hself]
    exact h.reading

/-- What a propagation from `v` does at most: nothing changes that is not downstream, and
no other variable that is updated becomes inexact. -/
structure Advances (e : Engine) (platform : Platform content) (v : Nat)
    (run run' : Run content) : Prop where
  autoUpdateEnabled : run'.autoUpdateEnabled = run.autoUpdateEnabled
  untouched : ∀ u, u ≠ v → ¬e.Downstream run.autoUpdateEnabled v u →
    run'.held u = run.held u ∧ run'.reading u = run.reading u
  keeps : ∀ u, u ≠ v → run.autoUpdateEnabled u = true → e.Exact platform run u →
    e.Exact platform run' u
  held : run'.held v = run.held v

/-- And what it has done in the end. -/
def Settled (e : Engine) (platform : Platform content) (v : Nat) (run : Run content) : Prop :=
  ∀ u, e.Downstream run.autoUpdateEnabled v u → e.Exact platform run u

theorem Advances.refl : e.Advances platform v run run :=
  ⟨rfl, fun _ _ _ => ⟨rfl, rfl⟩, fun _ _ _ h => h, rfl⟩

theorem Advances.trans (h : e.Advances platform v run run')
    (h' : e.Advances platform v run' run'') : e.Advances platform v run run'' where
  autoUpdateEnabled := h'.autoUpdateEnabled.trans h.autoUpdateEnabled
  untouched u hu hnot := by
    obtain ⟨hheld, hreading⟩ := h.untouched u hu hnot
    rw [← h.autoUpdateEnabled] at hnot
    obtain ⟨hheld', hreading'⟩ := h'.untouched u hu hnot
    exact ⟨hheld'.trans hheld, hreading'.trans hreading⟩
  keeps u hu hauto hexact := by
    refine h'.keeps u hu ?_ (h.keeps u hu hauto hexact)
    rw [h.autoUpdateEnabled]
    exact hauto
  held := h'.held.trans h.held

end Exact

section Propagation

variable {content : BuiltInType → Type} {e : Engine} {platform : Platform content}
  {run run' : Run content} {v w : Nat}

/-- A write that is accepted: it is told to the listeners. -/
structure Propagates (e : Engine) (platform : Platform content) (v : Nat)
    (dataValue : UaDataValue content) (run run' : Run content) : Prop where
  advances : e.Advances platform v (e.publish platform v dataValue run) run'
  settled : e.Settled platform v run'
  reading : run'.reading v = readingOf platform dataValue

theorem exact_publish {u : Nat} {dataValue : UaDataValue content} (hu : u ≠ v)
    (h : e.Exact platform run u) : e.Exact platform (e.publish platform v dataValue run) u :=
  h.congr (publish_held_of_ne hu) rfl fun _ _ _ _ => rfl

/-- A calculated variable that has been given its calculation, and whose inputs have not
changed since, is exact. -/
theorem Propagates.exact_self (horder : ∀ v cv, e.calculatedVariable v = some cv →
      ∀ p ∈ cv.inputs, p < v)
    (h : e.Propagates platform w (e.calculation platform w run) run run') :
    e.Exact platform run' w := by
  have hheld : run'.held w = e.calculation platform w run := by
    rw [h.advances.held, publish_held_self]
  refine ⟨fun _ => ?_, hheld ▸ h.reading⟩
  rw [hheld]
  refine (calculation_congr fun cv hcv p hp => ?_).symm
  have hlt := horder w cv hcv p hp
  have hnot : ¬e.Downstream run.autoUpdateEnabled w p := fun hdown =>
    absurd (hdown.lt horder) (by omega)
  exact (h.advances.untouched p (by omega) hnot).2

/-- In the loop over the variables that a parser variable notifies: some are done. -/
structure Notified (e : Engine) (platform : Platform content) (v : Nat) (run : Run content)
    (done : List Nat) (run' : Run content) : Prop where
  autoUpdateEnabled : run'.autoUpdateEnabled = run.autoUpdateEnabled
  untouched : ∀ u, u ≠ v → ¬e.Downstream run.autoUpdateEnabled v u →
    run'.held u = run.held u ∧ run'.reading u = run.reading u
  keeps : ∀ u, u ≠ v → u ∉ (e.parserVariable v).notifiedVariables →
    run.autoUpdateEnabled u = true → e.Exact platform run u → e.Exact platform run' u
  self : run'.held v = run.held v ∧ run'.reading v = run.reading v
  settled : ∀ w ∈ done, run.autoUpdateEnabled w = true →
    ∀ u, u = w ∨ e.Downstream run.autoUpdateEnabled w u → e.Exact platform run' u

theorem Notified.skip {s : Run content} {done : List Nat} (h : e.Notified platform v run done s)
    (hauto : ¬run.autoUpdateEnabled w = true) :
    e.Notified platform v run (done ++ [w]) s := by
  refine ⟨h.autoUpdateEnabled, h.untouched, h.keeps, h.self, fun w' hw' hauto' => ?_⟩
  rcases List.mem_append.mp hw' with hw' | hw'
  · exact h.settled w' hw' hauto'
  · rw [List.mem_singleton.mp hw'] at hauto'
    exact absurd hauto' hauto

variable (he : e.Configured)
  (horder : ∀ v cv, e.calculatedVariable v = some cv → ∀ p ∈ cv.inputs, p < v)
include he horder

theorem Notified.turn {s s' : Run content} {done : List Nat}
    (hw : w ∈ (e.parserVariable v).notifiedVariables) (h : e.Notified platform v run done s)
    (hauto : run.autoUpdateEnabled w = true)
    (hpropagates : e.Propagates platform w (e.calculation platform w s) s s') :
    e.Notified platform v run (done ++ [w]) s' := by
  obtain ⟨cv, hcv, hinput⟩ := (he.notified_iff v w).mp hw
  have hlt := horder w cv hcv v hinput
  have hdown : e.Downstream run.autoUpdateEnabled v w := .input hcv hinput hauto
  have hadvances := hpropagates.advances
  have hautos : (e.publish platform w (e.calculation platform w s) s).autoUpdateEnabled =
      run.autoUpdateEnabled := h.autoUpdateEnabled
  have huntouched : ∀ u, u ≠ w → ¬e.Downstream run.autoUpdateEnabled w u →
      s'.held u = s.held u ∧ s'.reading u = s.reading u := by
    intro u hu hnot
    obtain ⟨hheld, hreading⟩ := hadvances.untouched u hu (by rwa [hautos])
    exact ⟨hheld.trans (publish_held_of_ne hu), hreading⟩
  have hkeeps : ∀ u, u ≠ w → run.autoUpdateEnabled u = true → e.Exact platform s u →
      e.Exact platform s' u := fun u hu hu' hexact =>
    hadvances.keeps u hu (by rwa [hautos]) (exact_publish hu hexact)
  have hexact := hpropagates.exact_self horder
  refine ⟨hadvances.autoUpdateEnabled.trans hautos, ?_, ?_, ?_, ?_⟩
  · intro u hu hnot
    have huw : u ≠ w := by
      rintro rfl
      exact hnot hdown
    have hbelow := huntouched u huw fun hbelow => hnot (hdown.trans hbelow)
    have hold := h.untouched u hu hnot
    exact ⟨hbelow.1.trans hold.1, hbelow.2.trans hold.2⟩
  · intro u hu hnot hu' hold
    have huw : u ≠ w := by
      rintro rfl
      exact hnot hw
    exact hkeeps u huw hu' (h.keeps u hu hnot hu' hold)
  · have hself := huntouched v (by omega) fun hbelow => absurd (hbelow.lt horder) (by omega)
    exact ⟨hself.1.trans h.self.1, hself.2.trans h.self.2⟩
  · intro w' hw' hauto' u hu
    rcases List.mem_append.mp hw' with hw' | hw'
    · by_cases huw : u = w
      · exact huw ▸ hexact
      · refine hkeeps u huw ?_ (h.settled w' hw' hauto' u hu)
        rcases hu with rfl | hu
        · exact hauto'
        · exact hu.enabled
    · rw [List.mem_singleton] at hw'
      subst hw'
      rcases hu with rfl | hu
      · exact hexact
      · refine hpropagates.settled u ?_
        rw [hadvances.autoUpdateEnabled, hautos]
        exact hu

/-- The loop over the notified variables settles everything downstream. -/
theorem exists_setReading (reading : Reading content)
    {update : Run content → Nat → Option (Run content)}
    (hupdate : ∀ w ∈ (e.parserVariable v).notifiedVariables, ∀ s,
      ∃ s', update s w = some s' ∧ if s.autoUpdateEnabled w then
        e.Propagates platform w (e.calculation platform w s) s s' else s' = s) :
    ∃ run', e.setReading update v reading run = some run' ∧ e.Advances platform v run run' ∧
      e.Settled platform v run' ∧ run'.reading v = reading := by
  have hself : ∀ w ∈ (e.parserVariable v).notifiedVariables, v < w := by
    intro w hw
    obtain ⟨cv, hcv, hinput⟩ := (he.notified_iff v w).mp hw
    exact horder w cv hcv v hinput
  obtain ⟨run', hloop, hrun'⟩ := loop_succeeds
    (e.parserVariable v).notifiedVariables (f := update)
    (I := e.Notified platform v { run with reading := Function.update run.reading v reading }) (by
      intro done w rest s hsplit hs
      have hw : w ∈ (e.parserVariable v).notifiedVariables := by
        rw [hsplit]
        simp
      obtain ⟨s', hs', hturn⟩ := hupdate w hw s
      refine ⟨s', hs', ?_⟩
      rw [hs.autoUpdateEnabled] at hturn
      split_ifs at hturn with hauto
      · exact hs.turn he horder hw hauto hturn
      · exact hturn ▸ hs.skip hauto)
    ⟨rfl, fun _ _ _ => ⟨rfl, rfl⟩, fun _ _ _ _ h => h, ⟨rfl, rfl⟩,
      fun _ h => absurd h List.not_mem_nil⟩
  refine ⟨run', hloop, ⟨hrun'.autoUpdateEnabled, ?_, ?_, hrun'.self.1⟩, ?_, ?_⟩
  · intro u hu hnot
    have hsame := hrun'.untouched u hu hnot
    exact ⟨hsame.1, hsame.2.trans (Function.update_of_ne hu reading run.reading)⟩
  · intro u hu hauto hexact
    by_cases hnotified : u ∈ (e.parserVariable v).notifiedVariables
    · exact hrun'.settled u hnotified hauto u (.inl rfl)
    · refine hrun'.keeps u hu hnotified hauto (hexact.congr rfl
        (Function.update_of_ne hu reading run.reading) fun cv hcv p hp => ?_)
      have hpv : p ≠ v := by
        rintro rfl
        exact hnotified ((he.notified_iff p u).mpr ⟨cv, hcv, hp⟩)
      exact Function.update_of_ne hpv reading run.reading
  · intro u hdown
    rw [hrun'.autoUpdateEnabled] at hdown
    obtain ⟨w, cv, hcv, hinput, hauto, hbelow⟩ := hdown.exists_first
    exact hrun'.settled w ((he.notified_iff v w).mpr ⟨cv, hcv, hinput⟩) hauto u hbelow
  · exact hrun'.self.2.trans (Function.update_self v reading run.reading)

/-- The class that stores what calculated variables are given always does. -/
def Stores (e : Engine) (platform : Platform content) : Prop :=
  ∀ v, (e.calculatedVariable v).isSome → ∀ cache dataValue,
    ((platform.base v).setValue false false cache dataValue).1.isGood = true

/-- A write that is accepted propagates, within a depth that the number of variables bounds. -/
theorem exists_setValue (hstores : e.Stores platform) (depth : Nat) {session check : Bool}
    {dataValue : UaDataValue content} (hv : v < e.numParserVariables)
    (hdepth : e.numParserVariables < depth + v)
    (hgood : ((platform.base v).setValue session check (run.held v) dataValue).1.isGood = true) :
    ∃ run', e.setValue platform depth session check v dataValue run = some run' ∧
      e.Propagates platform v dataValue run run' := by
  induction depth generalizing v session check dataValue run with
  | zero => omega
  | succ depth ih =>
      have hupdate : ∀ w ∈ (e.parserVariable v).notifiedVariables, ∀ s, ∃ s',
          e.update platform (e.setValue platform depth false false) s w = some s' ∧
          if s.autoUpdateEnabled w then
            e.Propagates platform w (e.calculation platform w s) s s' else s' = s := by
        intro w hw s
        obtain ⟨cv, hcv, hinput⟩ := (he.notified_iff v w).mp hw
        have hlt := horder w cv hcv v hinput
        rw [update]
        split_ifs with hauto
        · exact ih (he.calculated_lt w cv hcv) (by omega) (hstores w (by simp [hcv]) _ _)
        · exact ⟨s, rfl, rfl⟩
      have htold : (Quasar.ChangeNotifyingVariable.setValue (platform.base v) session check
          (run.held v) dataValue).told = some dataValue := by
        simp [Quasar.ChangeNotifyingVariable.setValue, hgood]
      obtain ⟨run', hloop, hadvances, htells⟩ := loop_succeeds (e.changeListeners v)
        (f := e.listen (e.update platform (e.setValue platform depth false false))
          (readingOf platform dataValue))
        (I := fun done s => e.Advances platform v (e.publish platform v dataValue run) s ∧
          (.parserVariable v ∈ done → e.Settled platform v s ∧
            s.reading v = readingOf platform dataValue)) (by
          rintro done listener rest s hsplit ⟨hs, htells⟩
          cases listener with
          | other =>
              refine ⟨s, rfl, hs, fun hmem => htells ?_⟩
              simpa using hmem
          | parserVariable p =>
              obtain ⟨rfl, -⟩ : v = p ∧ p < e.numParserVariables := by
                refine (he.listens_iff v p).mp ?_
                rw [hsplit]
                simp
              obtain ⟨s', hs', hadvances, hsettled, hreading⟩ :=
                exists_setReading he horder (readingOf platform dataValue) hupdate
              exact ⟨s', hs', hs.trans hadvances, fun _ => ⟨hsettled, hreading⟩⟩)
        ⟨.refl, fun hmem => absurd hmem List.not_mem_nil⟩
      obtain ⟨hsettled, hreading⟩ := htells ((he.listens_iff v v).mpr ⟨rfl, hv⟩)
      refine ⟨run', ?_, hadvances, hsettled, hreading⟩
      rw [setValue, htold]
      exact hloop

end Propagation

section Runs

variable {content : BuiltInType → Type} {e : Engine} {platform : Platform content}

theorem setValue_of_refused {depth : Nat} {session check : Bool} {v : Nat}
    {dataValue : UaDataValue content} {run : Run content}
    (hbad : ((platform.base v).setValue session check (run.held v) dataValue).1.isGood = false) :
    e.setValue platform (depth + 1) session check v dataValue run = some run := by
  have htold : (Quasar.ChangeNotifyingVariable.setValue (platform.base v) session check
      (run.held v) dataValue).told = none := by
    simp [Quasar.ChangeNotifyingVariable.setValue, hbad]
  rw [setValue, htold]

/-- When a write has returned: if the variable has accepted it, every variable downstream
holds what its formulas give on the states that its inputs have now, and these are the
states of what the inputs hold; nothing else has changed, nor have the inputs of anything
else that is updated. -/
structure Tracked (e : Engine) (platform : Platform content) (v : Nat) (accepted : Bool)
    (dataValue : UaDataValue content) (run run' : Run content) : Prop where
  source : accepted = true →
    run'.held v = dataValue ∧ run'.reading v = readingOf platform dataValue
  downstream : accepted = true → ∀ u, e.Downstream run.autoUpdateEnabled v u →
    Gives platform (platform.formulas u) (e.valueReadings u run')
        (e.statusReadings platform u run') (run'.held u) ∧
      run'.reading u = readingOf platform (run'.held u)
  others : ∀ u, u ≠ v → ¬e.Downstream run.autoUpdateEnabled v u →
    run'.held u = run.held u ∧ (run.autoUpdateEnabled u = true →
      e.valueReadings u run' = e.valueReadings u run ∧
        e.statusReadings platform u run' = e.statusReadings platform u run)

/-- After any sequence of actions, a write to a variable comes to an end, and everything
downstream of it has tracked its inputs. -/
theorem write_tracked {declarations : List Declaration} (h : configure declarations = .ok e)
    (hstores : e.Stores platform) (actions : List (Action content)) (start : Run content) {v : Nat}
    (hv : v < e.numParserVariables) (session check : Bool) (dataValue : UaDataValue content) :
    ∃ run run', actions.foldlM (e.act platform (e.numParserVariables + 1)) start = some run ∧
      e.act platform (e.numParserVariables + 1) run (.write v session check dataValue) =
        some run' ∧
      e.Tracked platform v
        ((platform.base v).setValue session check (run.held v) dataValue).1.isGood
        dataValue run run' := by
  have he := configured_of_configure h
  have horder := inputs_lt_of_configure h
  obtain ⟨run, hrun⟩ := terminates_actions he horder actions start
  rcases hgood : ((platform.base v).setValue session check (run.held v) dataValue).1.isGood
    with _ | _
  · refine ⟨run, run, hrun, setValue_of_refused hgood, ?_, ?_, ?_⟩
    · exact fun h => absurd (hgood.symm.trans h) Bool.false_ne_true
    · exact fun h => absurd (hgood.symm.trans h) Bool.false_ne_true
    · exact fun _ _ _ => ⟨rfl, fun _ => ⟨rfl, rfl⟩⟩
  obtain ⟨run', hrun', hpropagates⟩ := exists_setValue he horder hstores
    (e.numParserVariables + 1) hv (by omega) hgood
  have hadvances := hpropagates.advances
  refine ⟨run, run', hrun, hrun', fun _ => ⟨?_, hpropagates.reading⟩, ?_, ?_⟩
  · rw [hadvances.held, publish_held_self]
  · intro _ u hdown
    have hexact : e.Exact platform run' u := by
      refine hpropagates.settled u ?_
      rw [hadvances.autoUpdateEnabled]
      exact hdown
    refine ⟨?_, hexact.reading⟩
    rw [hexact.held hdown.isSome]
    exact gives_calculated _ _ _ _
  · intro u hu hnot
    refine ⟨(hadvances.untouched u hu hnot).1.trans (publish_held_of_ne hu), fun hauto => ?_⟩
    have hreading : ∀ cv, e.calculatedVariable u = some cv → ∀ p ∈ cv.inputs,
        run'.reading p = run.reading p := by
      intro cv hcv p hp
      have hpv : p ≠ v := by
        rintro rfl
        exact hnot (.input hcv hp hauto)
      exact (hadvances.untouched p hpv fun hdown => hnot (.chain hdown hcv hp hauto)).2
    exact ⟨valueReadings_congr hreading, statusReadings_congr hreading⟩

theorem write_tracked_flagged : ∃ e run run', configure flaggedVoltage = .ok e ∧
    [writeNumber 1 0].foldlM (e.act flagged (e.numParserVariables + 1)) noInputs = some run ∧
    e.act flagged (e.numParserVariables + 1) run (writeNumber 0 5) = some run' ∧
    e.Tracked flagged 0 true ⟨.scalar .double 5, StatusCode.opcUaGood⟩ run run' := by
  have hobserved : (configure flaggedVoltage).toOption.map (fun e => e.numParserVariables) =
      some 3 := by
    decide
  obtain ⟨e, he⟩ := exists_configure_flaggedVoltage
  rw [he] at hobserved
  simp only [Except.toOption, Option.map_some, Option.some.injEq] at hobserved
  have hstores : e.Stores flagged := fun _ _ _ _ => StatusCode.isGood_opcUaGood
  obtain ⟨run, run', hrun, hrun', htracked⟩ := write_tracked he hstores [writeNumber 1 0]
    noInputs (v := 0) (by omega) false false ⟨.scalar .double 5, StatusCode.opcUaGood⟩
  have haccepted : ((flagged.base 0).setValue false false (run.held 0)
      ⟨.scalar .double 5, StatusCode.opcUaGood⟩).1.isGood = true := StatusCode.isGood_opcUaGood
  rw [haccepted] at htracked
  exact ⟨e, run, run', he, hrun, hrun', htracked⟩

end Runs

end Engine

end CalculatedVariables

end Supernova
