/-
The engine of calculated variables: how parser variables and calculated
variables are wired when the configuration is read, and the two passes that run
at start-up, the optimization and the setup of synchronization.

Objects are numbered.  A variable of the address space takes the number of the
`ParserVariable` that is made for it.
-/
import Mathlib.Logic.Function.Basic
import Supernova.FormulaElaboration

namespace Supernova

namespace CalculatedVariables

structure ParserVariable where
  notifyingVariable : Nat
  name : Bytes
  notifiedVariables : List Nat
  isConstant : Bool
deriving Inhabited, DecidableEq, Repr

structure CalculatedVariable where
  valueVariables : List Nat
  statusVariables : List Nat
  notifiedVariable : Option Nat
deriving DecidableEq, Repr

/-- The inputs of both formulas. -/
def CalculatedVariable.inputs (cv : CalculatedVariable) : List Nat :=
  cv.valueVariables ++ cv.statusVariables

def CalculatedVariable.isConstant (cv : CalculatedVariable) : Bool :=
  cv.valueVariables.length + cv.statusVariables.length = 0

/-- A listener on a variable of the address space: the engine's own, which
writes a parser variable, or another one. -/
inductive ChangeListener
  | parserVariable (p : Nat)
  | other
deriving DecidableEq, Repr

/-- The static members of `Engine` and the objects that they refer to.
`synchronizer` is the member `m_synchronizer` of each parser variable. -/
structure Engine where
  parserVariables : List Nat
  parserVariable : Nat → ParserVariable
  calculatedVariable : Nat → Option CalculatedVariable
  changeListeners : Nat → List ChangeListener
  parserConstants : List Bytes
  numParserVariables : Nat
  synchronizer : Nat → Option Nat
  numSynchronizers : Nat

namespace Engine

def empty : Engine where
  parserVariables := []
  parserVariable := fun _ => default
  calculatedVariable := fun _ => none
  changeListeners := fun _ => []
  parserConstants := []
  numParserVariables := 0
  synchronizer := fun _ => none
  numSynchronizers := 0

def setParserVariable (e : Engine) (p : Nat) (pv : ParserVariable) : Engine :=
  { e with parserVariable := Function.update e.parserVariable p pv }

def setCalculatedVariable (e : Engine) (v : Nat) (cv : CalculatedVariable) : Engine :=
  { e with calculatedVariable := Function.update e.calculatedVariable v (some cv) }

def addChangeListener (e : Engine) (v : Nat) (listener : ChangeListener) : Engine :=
  { e with
    changeListeners :=
      Function.update e.changeListeners v (e.changeListeners v ++ [listener]) }

def registerVariableForCalculatedVariables (e : Engine) (v : Nat) (nodeId : Bytes) : Engine :=
  let pv : ParserVariable :=
    { notifyingVariable := v
      name := escapeSpecialCharactersInParserVariableName nodeId
      notifiedVariables := []
      isConstant := false }
  let e := e.setParserVariable e.numParserVariables pv
  let e := e.addChangeListener v (.parserVariable e.numParserVariables)
  { e with
    parserVariables := e.parserVariables ++ [e.numParserVariables]
    numParserVariables := e.numParserVariables + 1 }

def registerConstantForCalculatedVariables (e : Engine) (name : Bytes) : Engine :=
  { e with parserConstants := name :: e.parserConstants }

def isConstantDefined (e : Engine) (name : Bytes) : Bool :=
  e.parserConstants.contains name

/-- `ParserVariableRequestUserData::Type`. -/
inductive RequestType
  | value
  | status
deriving DecidableEq, Repr

def addDependentVariable (cv : CalculatedVariable) (p : Nat) : RequestType → CalculatedVariable
  | .value =>
      if p ∈ cv.valueVariables then cv
      else { cv with valueVariables := cv.valueVariables ++ [p] }
  | .status =>
      if p ∈ cv.statusVariables then cv
      else { cv with statusVariables := cv.statusVariables ++ [p] }

/-- The formula parser of the calculated variable `requestor` asks for an operand. -/
def parserVariableRequestHandler (requestor : Nat) (type : RequestType) (e : Engine)
    (name : Bytes) : Except Bytes Engine :=
  match e.parserVariables.find? fun p => (e.parserVariable p).name = name,
      e.calculatedVariable requestor with
  | some p, some cv =>
      let pv := e.parserVariable p
      let e := e.setCalculatedVariable requestor (addDependentVariable cv p type)
      pure (e.setParserVariable p
        { pv with notifiedVariables := pv.notifiedVariables ++ [requestor] })
  | _, _ => throw (text "Couldnt find formula variable. The exact error has been logged.")

/-- The parser asks for the operands of the formula that are not constants. -/
def initializeParser (requestor : Nat) (type : RequestType) (e : Engine)
    (operands : List Bytes) : Except Bytes Engine :=
  (operands.filter fun name => !e.isConstantDefined name).foldlM
    (parserVariableRequestHandler requestor type) e

/-- `setIsConstant` on the parser variable of a new calculated variable, and
`setNotifiedVariable`. -/
def attach (e : Engine) (v : Nat) (cv : CalculatedVariable) : Engine :=
  { e with
    parserVariable := Function.update e.parserVariable v
      { e.parserVariable v with isConstant := cv.isConstant }
    calculatedVariable := Function.update e.calculatedVariable v
      (some { cv with notifiedVariable := some v }) }

/-- A calculated variable whose formulas use these operands; its own parser
variable is registered behind it. -/
def instantiateCalculatedVariable (e : Engine) (nodeId : Bytes)
    (valueOperands statusOperands : List Bytes) : Except Bytes Engine := do
  let v := e.numParserVariables
  let e := e.setCalculatedVariable v ⟨[], [], none⟩
  let e ← initializeParser v .value e valueOperands
  let e ← initializeParser v .status e statusOperands
  let e := e.registerVariableForCalculatedVariables v nodeId
  match e.calculatedVariable v with
  | none => pure e
  | some cv => pure (e.attach v cv)

/-- One entry of the configuration, or a listener that other code adds to a
variable. -/
inductive Declaration
  | notifyingVariable (nodeId : Bytes)
  | constant (name : Bytes)
  | calculatedVariable (nodeId : Bytes) (valueOperands statusOperands : List Bytes)
  | changeListener (v : Nat)
deriving DecidableEq, Repr

def declare (e : Engine) : Declaration → Except Bytes Engine
  | .notifyingVariable nodeId =>
      pure (e.registerVariableForCalculatedVariables e.numParserVariables nodeId)
  | .constant name => pure (e.registerConstantForCalculatedVariables name)
  | .calculatedVariable nodeId valueOperands statusOperands =>
      e.instantiateCalculatedVariable nodeId valueOperands statusOperands
  | .changeListener v => pure (e.addChangeListener v .other)

def configure (declarations : List Declaration) : Except Bytes Engine :=
  declarations.foldlM declare empty

section Optimize

/-- No formula uses the parser variable, and nothing else listens to its variable. -/
def isUnused (e : Engine) (p : Nat) : Bool :=
  (e.parserVariable p).notifiedVariables.length = 0 &&
    (e.changeListeners (e.parserVariable p).notifyingVariable).length ≤ 1

/-- The parser variable `p` of the variable `v` is erased. -/
def suppress (e : Engine) (p v : Nat) : Engine :=
  { e with
    changeListeners := Function.update e.changeListeners v []
    calculatedVariable := Function.update e.calculatedVariable v
      ((e.calculatedVariable v).map fun cv => { cv with notifiedVariable := none })
    parserVariables := e.parserVariables.filter fun q => q ≠ p }

/-- One turn of the loop of `optimize`. -/
def optimizeOut (e : Engine) (p : Nat) : Engine :=
  if e.isUnused p then e.suppress p (e.parserVariable p).notifyingVariable else e

def optimize (e : Engine) : Engine :=
  e.parserVariables.foldl optimizeOut e

end Optimize

section Synchronization

/-- Enter a parser variable unless it has a synchronizer or is constant. -/
def unlessSynchronized (e : Engine)
    (dfs : (Nat → Option Nat) → Nat → Option (Nat → Option Nat))
    (synchronizer : Nat → Option Nat) (p : Nat) : Option (Nat → Option Nat) :=
  if (synchronizer p).isNone && !(e.parserVariable p).isConstant then dfs synchronizer p
  else some synchronizer

/-- `none` when the recursion gets deeper than `depth`. -/
def dfsAndSetSynchronizer (e : Engine) (newSynchronizer : Nat) :
    Nat → (Nat → Option Nat) → Nat → Option (Nat → Option Nat)
  | 0, _, _ => none
  | depth + 1, synchronizer, p => do
      let synchronizer := Function.update synchronizer p (some newSynchronizer)
      -- towards the ancestors in the calculation graph
      let synchronizer ←
        match e.calculatedVariable (e.parserVariable p).notifyingVariable with
        | none => some synchronizer
        | some cv => do
            let synchronizer ← cv.valueVariables.foldlM
              (e.unlessSynchronized (e.dfsAndSetSynchronizer newSynchronizer depth)) synchronizer
            cv.statusVariables.foldlM
              (e.unlessSynchronized (e.dfsAndSetSynchronizer newSynchronizer depth)) synchronizer
      -- towards the descendants
      (e.parserVariable p).notifiedVariables.foldlM
        (fun synchronizer v =>
          match (e.calculatedVariable v).bind fun cv => cv.notifiedVariable with
          | none => some synchronizer
          | some q =>
              e.unlessSynchronized (e.dfsAndSetSynchronizer newSynchronizer depth)
                synchronizer q)
        synchronizer

/-- One turn of the loop of `setupSynchronization`. -/
def setupSynchronizer (e : Engine) (p : Nat) : Option Engine :=
  if (e.parserVariable p).notifiedVariables.length < 1 then some e
  else if (e.synchronizer p).isSome then some e
  else if (e.parserVariable p).isConstant then some e
  else do
    let new := e.numSynchronizers
    let synchronizer ← e.dfsAndSetSynchronizer new e.parserVariables.length
      (Function.update e.synchronizer p (some new)) p
    some { e with synchronizer := synchronizer, numSynchronizers := new + 1 }

def setupSynchronization (e : Engine) : Option Engine :=
  e.parserVariables.reverse.foldlM setupSynchronizer e

end Synchronization

/-- What the start-up of the server runs behind the configuration. -/
def startUp (e : Engine) : Option Engine :=
  e.optimize.setupSynchronization

end Engine

end CalculatedVariables

end Supernova
