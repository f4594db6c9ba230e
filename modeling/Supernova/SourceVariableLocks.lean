/-
Source variables of a design: the checks of their synchronicity and mutexes, the locks that
the header of device logic declares, and the generated code that reads and writes them
with the Unified Automation SDK.
-/
import Supernova.DesignValidator
import Supernova.Configurator

namespace Supernova

namespace Quasar

/-- `addressSpaceRead` or `addressSpaceWrite` of a source variable. -/
inductive SourceVariableAccess
  | forbidden
  | asynchronous
  | synchronous
deriving DecidableEq, Repr

/-- `addressSpaceReadUseMutex` or `addressSpaceWriteUseMutex`. -/
inductive UseMutex
  | no
  | ofThisOperation
  | ofThisVariable
  | ofContainingObject
  | ofParentOfContainingObject
  | handpicked
deriving DecidableEq, Repr

/-- The value of the XML attribute. -/
def UseMutex.value : UseMutex → Bytes
  | .no => text "no"
  | .ofThisOperation => text "of_this_operation"
  | .ofThisVariable => text "of_this_variable"
  | .ofContainingObject => text "of_containing_object"
  | .ofParentOfContainingObject => text "of_parent_of_containing_object"
  | .handpicked => text "handpicked"

structure SourceVariableElement where
  name : Bytes
  addressSpaceRead : SourceVariableAccess
  addressSpaceWrite : SourceVariableAccess
  addressSpaceReadUseMutex : UseMutex
  addressSpaceWriteUseMutex : UseMutex
deriving DecidableEq, Repr

/-- A design with the source variables of each class, and whether the device logic of a
class has a mutex. -/
structure SourceDesign extends Design where
  sourceVariables : Bytes → List SourceVariableElement
  mutex : Bytes → Bool

section DesignInspector

variable (design : SourceDesign) (className : Bytes)

def deviceLogicHasMutex : Bool :=
  classHasDeviceLogic design.toDesign className && design.mutex className

/-- The one parent that the class has, if it has device logic; the root is asked for. -/
def getParent : Option ParentClass :=
  if classHasDeviceLogic design.toDesign className then
    match getHasObjectsOriginNames design.toDesign className with
    | [origin] => some origin
    | _ => none
  else none

end DesignInspector

section DesignValidator

variable (design : SourceDesign)

/-- No class is called as the root, which has no element of its own. -/
def assertMutexPresent : ParentClass → Except Bytes Unit
  | .root => throw (text "Class Root needs device-logic to have a mutex")
  | .named className => do
      if !classHasDeviceLogic design.toDesign className then
        throw (text "Class " ++ className ++ text " needs device-logic to have a mutex")
      if !design.mutex className then
        throw (text "Class " ++ className ++ text " needs a mutex in its device logic")

def validateMutexOption (className : Bytes) : UseMutex → Except Bytes Unit
  | .ofContainingObject => assertMutexPresent design (.named className)
  | .ofParentOfContainingObject =>
      match getParent design className with
      | none => throw (text "Class " ++ className ++ text " has no unique parent, cant use \"" ++
          UseMutex.value .ofParentOfContainingObject ++ text "\"")
      | some parent => assertMutexPresent design parent
  | _ => pure ⟨⟩

def validateSourceVariable (className : Bytes) (sv : SourceVariableElement) : Except Bytes Unit := do
  if sv.addressSpaceRead = .synchronous ∧ sv.addressSpaceReadUseMutex ≠ .no then
    throw (text "Cant use synchro domains (...ReadUseMutex attribute) for (network-)synchro" ++
      text " execution")
  if sv.addressSpaceWrite = .synchronous ∧ sv.addressSpaceWriteUseMutex ≠ .no then
    throw (text "Cant use synchro domains (...WriteUseMutex attribute) for (network-)synchro" ++
      text " execution")
  [sv.addressSpaceReadUseMutex, sv.addressSpaceWriteUseMutex].dedup.forM
    (validateMutexOption design className)

def validateSourceVariables : Except Bytes Unit :=
  design.classes.forM fun c =>
    (design.sourceVariables c.name).forM (validateSourceVariable design c.name)

/-- The checks on names, on `hasobjects` and on source variables. -/
def SourceDesign.validate : Except Bytes Unit := do
  validateFirstStage design.toDesign
  validateSourceVariables design
  validateHasObjectsWrapper design.toDesign

end DesignValidator

/-- Functions of a device-logic object that return one of its mutexes. -/
inductive Lock
  | getLock
  | getLockVariable (name : Bytes)
  | getLockVariableRead (name : Bytes)
  | getLockVariableWrite (name : Bytes)
deriving DecidableEq, Repr

section DeviceHeader

variable (design : SourceDesign) (className : Bytes)

/-- The locks that `Base_D<class>` declares; there is such a header for a class with
device logic. -/
def declaredLocks : List Lock :=
  if classHasDeviceLogic design.toDesign className then
    (if deviceLogicHasMutex design className then [.getLock] else []) ++
      ((design.sourceVariables className).filter fun sv =>
        sv.addressSpaceWriteUseMutex = .ofThisVariable ||
          sv.addressSpaceReadUseMutex = .ofThisVariable).map
            (fun sv => .getLockVariable sv.name) ++
      ((design.sourceVariables className).filter fun sv =>
        sv.addressSpaceWriteUseMutex = .ofThisOperation).map
          (fun sv => .getLockVariableWrite sv.name) ++
      ((design.sourceVariables className).filter fun sv =>
        sv.addressSpaceReadUseMutex = .ofThisOperation).map
          (fun sv => .getLockVariableRead sv.name)
  else []

/-- The class whose device logic `Parent_D<class>` names; else it is an anonymous struct. -/
def parentStruct : Option ParentClass :=
  if classHasLegitDeviceParent design.toDesign className then getParent design className
  else none

end DeviceHeader

/-- What the constructor of a generated job sets `m_mutex` to. -/
inductive MutexExpression
  | null
  | ofDevice (lock : Lock)
  | ofParent (lock : Lock)
  | handpicked
deriving DecidableEq, Repr

/-- In the constructor of `IoJob_<class>_READ_<variable>`. -/
def readMutex (sv : SourceVariableElement) : MutexExpression :=
  match sv.addressSpaceReadUseMutex with
  | .ofThisOperation => .ofDevice (.getLockVariableRead sv.name)
  | .ofThisVariable => .ofDevice (.getLockVariable sv.name)
  | .ofContainingObject => .ofDevice .getLock
  | .ofParentOfContainingObject => .ofParent .getLock
  | .handpicked => .handpicked
  | .no => .null

/-- In the constructor of `IoJob_<class>_WRITE_<variable>`. -/
def writeMutex (sv : SourceVariableElement) : MutexExpression :=
  match sv.addressSpaceWriteUseMutex with
  | .ofThisOperation => .ofDevice (.getLockVariableWrite sv.name)
  | .ofThisVariable => .ofDevice (.getLockVariable sv.name)
  | .ofContainingObject => .ofDevice .getLock
  | .ofParentOfContainingObject => .ofParent .getLock
  | .handpicked => .handpicked
  | .no => .null

/-- The code for the job id of an operation. -/
inductive SpawnCase
  /-- There is none, and the default returns `OpcUa_Bad`. -/
  | default
  | returnBadNotImplemented
  /-- The job goes to the thread pool. -/
  | addJob (mutex : MutexExpression)
  /-- The job is executed in the call, with a `unique_lock` on its mutex or without. -/
  | execute (mutex : MutexExpression) (uniqueLock : Bool)
deriving DecidableEq, Repr

section Generated

variable (design : SourceDesign) (className : Bytes) (sv : SourceVariableElement)

/-- What `SourceVariables_spawnIoJobRead` has for the variable. -/
def spawnIoJobRead : SpawnCase :=
  match sv.addressSpaceRead with
  | .forbidden => .default
  | access =>
      if !classHasDeviceLogic design.toDesign className then .returnBadNotImplemented
      else if access = .asynchronous then .addJob (readMutex sv)
      else .execute (readMutex sv) (sv.addressSpaceReadUseMutex.value ≠ text "no")

/-- What `SourceVariables_spawnIoJobWrite` has; the mode is compared with a text that
ends in a blank. -/
def spawnIoJobWrite : SpawnCase :=
  match sv.addressSpaceWrite with
  | .forbidden => .default
  | access =>
      if !classHasDeviceLogic design.toDesign className then .returnBadNotImplemented
      else if access = .asynchronous then .addJob (writeMutex sv)
      else .execute (writeMutex sv) (sv.addressSpaceWriteUseMutex.value ≠ text "no ")

end Generated

section Running

variable {Handpicked : Type}

/-- A mutex that exists: of a device-logic object, or picked by other code. -/
inductive JobMutex (Handpicked : Type)
  | ofDevice (id : ObjectId) (lock : Lock)
  | ofRoot (lock : Lock)
  | handpicked (mutex : Handpicked)
deriving DecidableEq, Repr

/-- What a call meets: the device link of the address-space object, the mutex that other
code has configured for the operation, and room in the thread pool. -/
structure Circumstances (Handpicked : Type) where
  deviceLink : Option (ObjectId × DeviceObject)
  configuredMutex : Option Handpicked
  accepted : Bool

inductive SpawnOutcome (Handpicked : Type)
  /-- A bad status is returned, and device logic is not called. -/
  | refused
  /-- Device logic is called, under the mutex if there is one. -/
  | executed (mutex : Option (JobMutex Handpicked))
  /-- A null pointer is dereferenced. -/
  | undefined
deriving DecidableEq, Repr

/-- The constructor of a job: `none` when it throws, and an undefined `m_mutex` when the
parent is null. -/
def constructJob (circumstances : Circumstances Handpicked) :
    MutexExpression → Option (Except Unit (Option (JobMutex Handpicked)))
  | expression =>
      match circumstances.deviceLink with
      | none => none
      | some (id, device) =>
          match expression with
          | .null => some (.ok none)
          | .ofDevice lock => some (.ok (some (.ofDevice id lock)))
          | .ofParent lock =>
              match device.parent with
              | none => some (.error ⟨⟩)
              | some .root => some (.ok (some (.ofRoot lock)))
              | some (.object parent) => some (.ok (some (.ofDevice parent lock)))
          | .handpicked =>
              circumstances.configuredMutex.map fun mutex => .ok (some (.handpicked mutex))

/-- A call that gets to the code for the job id. The pool executes a job under its mutex,
or without a lock when the pointer is null. -/
def SpawnCase.run (circumstances : Circumstances Handpicked) : SpawnCase → SpawnOutcome Handpicked
  | .default => .refused
  | .returnBadNotImplemented => .refused
  | .addJob expression =>
      match constructJob circumstances expression with
      | none => .refused
      | some (.error _) => .undefined
      | some (.ok mutex) => if circumstances.accepted then .executed mutex else .refused
  | .execute expression uniqueLock =>
      match constructJob circumstances expression with
      | none => .refused
      | some (.error _) => .undefined
      | some (.ok mutex) =>
          if uniqueLock then
            match mutex with
            | none => .undefined
            | some mutex => .executed (some mutex)
          else .executed none

end Running

end Quasar

end Supernova
