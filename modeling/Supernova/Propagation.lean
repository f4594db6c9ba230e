/-
Propagation: a write to a variable of the address space tells the parser variable that
listens to it, and that makes the calculated variables recalculate which use it; what
they store is a write again.
-/
import Supernova.AddressSpaceVariables
import Supernova.CalculatedVariablesEngine

namespace Supernova

namespace CalculatedVariables

open Quasar (BuiltInType StatusCode UaVariant UaDataValue BaseDataVariableType)

section Calculation

variable {content : BuiltInType → Type}

/-- `ParserVariable::State`. -/
inductive InputState
  | waitingInitialData
  | good
  | bad
deriving DecidableEq, Repr

/-- What a parser variable holds: `m_value` and `m_state`. -/
structure Reading (content : BuiltInType → Type) where
  value : content .double
  state : InputState

/-- Both formulas of a calculated variable, each a function of the values of the variables
that it uses. -/
structure Formulas (content : BuiltInType → Type) where
  isBoolean : Bool
  valueFormula : List (content .double) → content .double
  statusFormula : Option (List (content .double) → content .double)

/-- What the calculations run on: the numbers, the conversion of variants to them, the
formulas of each calculated variable, and the class that stores what a variable is given. -/
structure Platform (content : BuiltInType → Type) where
  zero : content .double
  isZero : content .double → Bool
  boolean : Bool → content .boolean
  toDouble : UaVariant content → Option (content .double)
  formulas : Nat → Formulas content
  base : Nat → BaseDataVariableType content

def opcUaBad : StatusCode := 0x80000000#32
def badWaitingForInitialData : StatusCode := 0x80320000#32

variable (platform : Platform content)

/-- What the change listener writes to the parser variable. -/
def readingOf (newValue : UaDataValue content) : Reading content :=
  if newValue.statusCode = badWaitingForInitialData then ⟨platform.zero, .waitingInitialData⟩
  else if newValue.statusCode &&& 0x80000000#32 ≠ 0 then ⟨platform.zero, .bad⟩
  else
    match newValue.value with
    | .null => ⟨platform.zero, .bad⟩
    | variant =>
        match platform.toDouble variant with
        | some value => ⟨value, .good⟩
        | none => ⟨platform.zero, .bad⟩

def finalStatus (formulas : Formulas content) (statusReadings : List (Reading content)) :
    StatusCode :=
  match formulas.statusFormula with
  | none => StatusCode.opcUaGood
  | some statusFormula =>
      if platform.isZero (statusFormula (statusReadings.map Reading.value)) then opcUaBad
      else StatusCode.opcUaGood

def updatedValue (formulas : Formulas content) (valueReadings : List (Reading content)) :
    UaVariant content :=
  let value := formulas.valueFormula (valueReadings.map Reading.value)
  if formulas.isBoolean then .scalar .boolean (platform.boolean !platform.isZero value)
  else .scalar .double value

/-- What a calculated variable is given that has these inputs. -/
def calculated (formulas : Formulas content) (valueReadings statusReadings : List (Reading content)) :
    UaDataValue content :=
  match valueReadings.find? fun reading => reading.state ≠ .good with
  | some reading =>
      ⟨.null, if reading.state = .waitingInitialData then badWaitingForInitialData else opcUaBad⟩
  | none => ⟨updatedValue platform formulas valueReadings, finalStatus platform formulas statusReadings⟩

end Calculation

section Runs

variable {content : BuiltInType → Type}

/-- A data value that a variable was given and has stored, and, where it is a calculated
variable, the readings of its inputs at that time. -/
structure Publication (content : BuiltInType → Type) where
  address : Nat
  dataValue : UaDataValue content
  valueReadings : List (Reading content)
  statusReadings : List (Reading content)

/-- The members of the parser variables and of the variables that change, and what has been
published so far. -/
structure Run (content : BuiltInType → Type) where
  reading : Nat → Reading content
  held : Nat → UaDataValue content
  autoUpdateEnabled : Nat → Bool
  published : List (Publication content)

namespace Engine

variable (e : Engine) (platform : Platform content)

/-- The readings of the variables that the value formula uses. -/
def valueReadings (v : Nat) (run : Run content) : List (Reading content) :=
  (e.calculatedVariable v).elim [] fun cv => cv.valueVariables.map run.reading

/-- The same of the status formula, if there is one. -/
def statusReadings (v : Nat) (run : Run content) : List (Reading content) :=
  if (platform.formulas v).statusFormula.isSome then
    (e.calculatedVariable v).elim [] fun cv => cv.statusVariables.map run.reading
  else []

/-- What the formulas of a calculated variable give on the readings of its inputs. -/
def calculation (v : Nat) (run : Run content) : UaDataValue content :=
  calculated platform (platform.formulas v) (e.valueReadings v run)
    (e.statusReadings platform v run)

def publish (v : Nat) (dataValue : UaDataValue content) (run : Run content) : Run content :=
  { run with
    held := Function.update run.held v dataValue
    published := run.published ++
      [⟨v, dataValue, e.valueReadings v run, e.statusReadings platform v run⟩] }

variable {e platform} in
theorem publish_held_self {v : Nat} {dataValue : UaDataValue content} {run : Run content} :
    (e.publish platform v dataValue run).held v = dataValue := by
  simp [publish]

variable {e platform} in
theorem publish_held_of_ne {u v : Nat} {dataValue : UaDataValue content} {run : Run content}
    (hu : u ≠ v) : (e.publish platform v dataValue run).held u = run.held u := by
  simp [publish, hu]

/-- Those with the updates turned off stay as they are. -/
def update (setValue : Nat → UaDataValue content → Run content → Option (Run content))
    (run : Run content) (v : Nat) : Option (Run content) :=
  if run.autoUpdateEnabled v then setValue v (e.calculation platform v run) run else some run

/-- `ParserVariable::setValue`. -/
def setReading (update : Run content → Nat → Option (Run content)) (p : Nat)
    (reading : Reading content) (run : Run content) : Option (Run content) :=
  (e.parserVariable p).notifiedVariables.foldlM update
    { run with reading := Function.update run.reading p reading }

/-- Listeners of other code do nothing to the calculated variables. -/
def listen (update : Run content → Nat → Option (Run content)) (reading : Reading content)
    (run : Run content) : ChangeListener → Option (Run content)
  | .parserVariable p => e.setReading update p reading run
  | .other => some run

/-- `ChangeNotifyingVariable::setValue`; `none` when the calls are nested deeper than
`depth`. -/
def setValue : Nat → Bool → Bool → Nat → UaDataValue content → Run content → Option (Run content)
  | 0, _, _, _, _, _ => none
  | depth + 1, session, checkAccessLevel, v, dataValue, run =>
      match (Quasar.ChangeNotifyingVariable.setValue (platform.base v) session checkAccessLevel
        (run.held v) dataValue).told with
      | none => some run
      | some newValue =>
          (e.changeListeners v).foldlM
            (e.listen (e.update platform (setValue depth false false))
              (readingOf platform newValue))
            (e.publish platform v newValue run)

inductive Action (content : BuiltInType → Type)
  | write (v : Nat) (session checkAccessLevel : Bool) (dataValue : UaDataValue content)
  | setAutoUpdate (v : Nat) (enabled : Bool)
  | triggerRecalculation (v : Nat)

def act (depth : Nat) (run : Run content) : Action content → Option (Run content)
  | .write v session checkAccessLevel dataValue =>
      e.setValue platform depth session checkAccessLevel v dataValue run
  | .setAutoUpdate v enabled =>
      some { run with autoUpdateEnabled := Function.update run.autoUpdateEnabled v enabled }
  | .triggerRecalculation v =>
      if (e.calculatedVariable v).isSome then
        e.setValue platform depth false false v (e.calculation platform v run) run
      else some run

end Engine

end Runs

end CalculatedVariables

end Supernova
