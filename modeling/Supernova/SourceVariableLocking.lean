/-
Which mutex the generated reads and writes of source variables hold while device logic is
called, for designs that the validator accepts.
-/
import Supernova.ParentPointers
import Supernova.SourceVariableLocks

namespace Supernova

attribute [local semireducible] ByteArray.toList.loop

namespace Quasar

inductive IoDirection
  | read
  | write
deriving DecidableEq, Repr

def SourceVariableElement.access (sv : SourceVariableElement) : IoDirection → SourceVariableAccess
  | .read => sv.addressSpaceRead
  | .write => sv.addressSpaceWrite

def SourceVariableElement.useMutex (sv : SourceVariableElement) : IoDirection → UseMutex
  | .read => sv.addressSpaceReadUseMutex
  | .write => sv.addressSpaceWriteUseMutex

def spawnIoJob (design : SourceDesign) (className : Bytes) (sv : SourceVariableElement) :
    IoDirection → SpawnCase
  | .read => spawnIoJobRead design className sv
  | .write => spawnIoJobWrite design className sv

def ioMutex (sv : SourceVariableElement) : IoDirection → MutexExpression
  | .read => readMutex sv
  | .write => writeMutex sv

/-- The lock of its own for each operation. -/
def operationLock (sv : SourceVariableElement) : IoDirection → Lock
  | .read => .getLockVariableRead sv.name
  | .write => .getLockVariableWrite sv.name

section Policies

variable {Handpicked : Type} (design : SourceDesign) (className : Bytes)
  (sv : SourceVariableElement) (direction : IoDirection) (tree : DeviceTree)
  (circumstances : Circumstances Handpicked)

/-- The mutex that the design names for the operation: one that a header of device logic
declares, of the object or of the one parent of its class, or the one picked by other code. -/
inductive Designated : UseMutex → JobMutex Handpicked → Prop
  | ofThisOperation {id : ObjectId} {device : DeviceObject}
      (hlink : circumstances.deviceLink = some (id, device))
      (hdeclared : operationLock sv direction ∈ declaredLocks design className) :
      Designated .ofThisOperation (.ofDevice id (operationLock sv direction))
  | ofThisVariable {id : ObjectId} {device : DeviceObject}
      (hlink : circumstances.deviceLink = some (id, device))
      (hdeclared : .getLockVariable sv.name ∈ declaredLocks design className) :
      Designated .ofThisVariable (.ofDevice id (.getLockVariable sv.name))
  | ofContainingObject {id : ObjectId} {device : DeviceObject}
      (hlink : circumstances.deviceLink = some (id, device))
      (hdeclared : .getLock ∈ declaredLocks design className) :
      Designated .ofContainingObject (.ofDevice id .getLock)
  | ofParentOfContainingObject {id parentId : ObjectId} {device parentDevice : DeviceObject}
      (hlink : circumstances.deviceLink = some (id, device))
      (hpointer : device.parent = some (.object parentId))
      (hparent : tree.objects[parentId]? = some parentDevice)
      (hstruct : parentStruct design className = some (.named parentDevice.className))
      (hdeclared : .getLock ∈ declaredLocks design parentDevice.className) :
      Designated .ofParentOfContainingObject (.ofDevice parentId .getLock)
  | handpicked {mutex : Handpicked} (hconfigured : circumstances.configuredMutex = some mutex) :
      Designated .handpicked (.handpicked mutex)

end Policies

/-- Device logic is called under the mutex that the design names, and without a lock
exactly when it names none; a null pointer is not used. -/
def LocksRight (design : SourceDesign) (className : Bytes) (sv : SourceVariableElement)
    (direction : IoDirection) : Prop :=
  ∀ (Handpicked : Type) (tree : DeviceTree) (circumstances : Circumstances Handpicked),
    (∀ id device, circumstances.deviceLink = some (id, device) →
      ParentStands design.toDesign className device.parent tree) →
    (spawnIoJob design className sv direction).run circumstances ≠ .undefined ∧
      ∀ mutex, (spawnIoJob design className sv direction).run circumstances = .executed mutex →
        (mutex = none ↔ sv.useMutex direction = .no) ∧
        ∀ m, mutex = some m → Designated design className sv direction tree circumstances
          (sv.useMutex direction) m

section Validated

variable {design : SourceDesign} {className : Bytes} {sv : SourceVariableElement}

theorem assertMutexPresent_eq_ok {parent : ParentClass}
    (h : assertMutexPresent design parent = .ok ⟨⟩) : ∃ parentName, parent = .named parentName ∧
      deviceLogicHasMutex design parentName = true := by
  cases parent with
  | root => cases h
  | named parentName =>
      refine ⟨parentName, rfl, ?_⟩
      rw [deviceLogicHasMutex]
      cases hlogic : classHasDeviceLogic design.toDesign parentName with
      | false =>
          simp only [assertMutexPresent, hlogic] at h
          cases h
      | true =>
          cases hmutex : design.mutex parentName with
          | false =>
              simp only [assertMutexPresent, hlogic, hmutex] at h
              cases h
          | true => rfl

/-- What the validator has made sure of for a source variable. -/
structure Checked (design : SourceDesign) (className : Bytes) (sv : SourceVariableElement) :
    Prop where
  synchronous : ∀ direction, sv.access direction = .synchronous → sv.useMutex direction = .no
  ofContainingObject : ∀ direction, sv.useMutex direction = .ofContainingObject →
    deviceLogicHasMutex design className = true
  ofParent : ∀ direction, sv.useMutex direction = .ofParentOfContainingObject →
    ∃ parentName, getParent design className = some (.named parentName) ∧
      deviceLogicHasMutex design parentName = true

theorem checked_of_validate (hvalid : design.validate = .ok ⟨⟩) {c : DesignClass}
    (hc : c ∈ design.classes) (hsv : sv ∈ design.sourceVariables c.name) :
    Checked design c.name sv := by
  obtain ⟨_, -, hvalid⟩ := except_bind_eq_ok.1 hvalid
  obtain ⟨_, hvariables, -⟩ := except_bind_eq_ok.1 hvalid
  have hvariable := forM_eq_ok.1 (forM_eq_ok.1 hvariables c hc) sv hsv
  unfold validateSourceVariable at hvariable
  by_cases hread : sv.addressSpaceRead = .synchronous ∧ sv.addressSpaceReadUseMutex ≠ .no
  · rw [if_pos hread] at hvariable
    cases hvariable
  rw [if_neg hread] at hvariable
  dsimp only at hvariable
  by_cases hwrite : sv.addressSpaceWrite = .synchronous ∧ sv.addressSpaceWriteUseMutex ≠ .no
  · rw [if_pos hwrite] at hvariable
    cases hvariable
  rw [if_neg hwrite] at hvariable
  have hoption : ∀ direction, validateMutexOption design c.name (sv.useMutex direction) =
      .ok ⟨⟩ := by
    intro direction
    refine forM_eq_ok.1 hvariable _ ?_
    rw [List.mem_dedup]
    cases direction with
    | read => exact List.mem_cons_self
    | write => exact List.mem_cons_of_mem _ List.mem_cons_self
  constructor
  · intro direction hsynchronous
    by_contra hmutex
    cases direction with
    | read => exact hread ⟨hsynchronous, hmutex⟩
    | write => exact hwrite ⟨hsynchronous, hmutex⟩
  · intro direction huse
    have h : assertMutexPresent design (.named c.name) = .ok ⟨⟩ := by
      simpa [validateMutexOption, huse] using hoption direction
    obtain ⟨parentName, hparent, hmutex⟩ := assertMutexPresent_eq_ok h
    cases hparent
    exact hmutex
  · intro direction huse
    have h := hoption direction
    rw [huse] at h
    rcases hparent : getParent design c.name with _ | parent
    · simp only [validateMutexOption, hparent] at h
      cases h
    · simp only [validateMutexOption, hparent] at h
      obtain ⟨parentName, rfl, hmutex⟩ := assertMutexPresent_eq_ok h
      exact ⟨parentName, rfl, hmutex⟩

end Validated

section Locking

variable {design : SourceDesign} {className : Bytes} {sv : SourceVariableElement}
  {direction : IoDirection}

theorem classHasDeviceLogic_of_mutex (h : deviceLogicHasMutex design className = true) :
    classHasDeviceLogic design.toDesign className = true :=
  (Bool.and_eq_true _ _ ▸ h).1

theorem getLock_mem (h : deviceLogicHasMutex design className = true) :
    .getLock ∈ declaredLocks design className := by
  simp [declaredLocks, classHasDeviceLogic_of_mutex h, h]

theorem getLockVariable_mem (hlogic : classHasDeviceLogic design.toDesign className = true)
    (hsv : sv ∈ design.sourceVariables className)
    (huse : sv.useMutex direction = .ofThisVariable) :
    .getLockVariable sv.name ∈ declaredLocks design className := by
  have hfilter : sv ∈ (design.sourceVariables className).filter fun sv =>
      sv.addressSpaceWriteUseMutex = .ofThisVariable ||
        sv.addressSpaceReadUseMutex = .ofThisVariable := by
    rw [List.mem_filter]
    cases direction with
    | read => exact ⟨hsv, by simp [show sv.addressSpaceReadUseMutex = _ from huse]⟩
    | write => exact ⟨hsv, by simp [show sv.addressSpaceWriteUseMutex = _ from huse]⟩
  simp only [declaredLocks, hlogic, if_true, List.mem_append]
  exact .inl (.inl (.inr (List.mem_map_of_mem hfilter)))

theorem operationLock_mem (hlogic : classHasDeviceLogic design.toDesign className = true)
    (hsv : sv ∈ design.sourceVariables className)
    (huse : sv.useMutex direction = .ofThisOperation) :
    operationLock sv direction ∈ declaredLocks design className := by
  simp only [declaredLocks, hlogic, if_true, List.mem_append]
  cases direction with
  | read =>
      have hfilter : sv ∈ (design.sourceVariables className).filter fun sv =>
          sv.addressSpaceReadUseMutex = .ofThisOperation :=
        List.mem_filter.mpr ⟨hsv, decide_eq_true huse⟩
      exact .inr (List.mem_map_of_mem (f := fun sv => Lock.getLockVariableRead sv.name) hfilter)
  | write =>
      have hfilter : sv ∈ (design.sourceVariables className).filter fun sv =>
          sv.addressSpaceWriteUseMutex = .ofThisOperation :=
        List.mem_filter.mpr ⟨hsv, decide_eq_true huse⟩
      exact .inl (.inr (List.mem_map_of_mem
        (f := fun sv => Lock.getLockVariableWrite sv.name) hfilter))

/-- The parent that the validator has found is the one that the header names. -/
theorem legitParent_of_getParent {parentName : Bytes}
    (hparent : getParent design className = some (.named parentName))
    (hlogic : classHasDeviceLogic design.toDesign parentName = true) :
    classHasLegitDeviceParent design.toDesign className = true ∧
      getHasObjectsOriginNames design.toDesign className = [.named parentName] := by
  unfold getParent at hparent
  split at hparent
  · rename_i hclass
    rcases horigins : getHasObjectsOriginNames design.toDesign className with
      _ | ⟨origin, _ | ⟨origin', origins⟩⟩
    · simp [horigins] at hparent
    · simp only [horigins, Option.some.injEq] at hparent
      subst hparent
      simp [classHasLegitDeviceParent, hclass, horigins, parentHasDeviceLogic, hlogic]
    · simp [horigins] at hparent
  · cases hparent

/-- Reads and writes choose their mutex alike. -/
theorem ioMutex_eq : ioMutex sv direction =
    match sv.useMutex direction with
    | .ofThisOperation => .ofDevice (operationLock sv direction)
    | .ofThisVariable => .ofDevice (.getLockVariable sv.name)
    | .ofContainingObject => .ofDevice .getLock
    | .ofParentOfContainingObject => .ofParent .getLock
    | .handpicked => .handpicked
    | .no => .null := by
  cases direction with
  | read => rfl
  | write => rfl

variable {Handpicked : Type} {tree : DeviceTree} {circumstances : Circumstances Handpicked}

section Construction

variable {id : ObjectId} {device : DeviceObject}
  (hlink : circumstances.deviceLink = some (id, device))
include hlink

theorem constructJob_null : constructJob circumstances .null = some (.ok none) := by
  simp only [constructJob, hlink]

theorem constructJob_ofDevice (lock : Lock) :
    constructJob circumstances (.ofDevice lock) = some (.ok (some (.ofDevice id lock))) := by
  simp only [constructJob, hlink]

theorem constructJob_ofParent (lock : Lock) {parentId : ObjectId}
    (hpointer : device.parent = some (.object parentId)) :
    constructJob circumstances (.ofParent lock) =
      some (.ok (some (.ofDevice parentId lock))) := by
  simp only [constructJob, hlink, hpointer]

theorem constructJob_handpicked : constructJob circumstances .handpicked =
    circumstances.configuredMutex.map fun mutex => .ok (some (.handpicked mutex)) := by
  simp only [constructJob, hlink]

end Construction

/-- A job that is constructed has the mutex that the design names, or none. -/
theorem constructJob_spec (hchecked : Checked design className sv)
    (hsv : sv ∈ design.sourceVariables className)
    (hlogic : classHasDeviceLogic design.toDesign className = true)
    (hparent : ∀ id device, circumstances.deviceLink = some (id, device) →
      ParentStands design.toDesign className device.parent tree) :
    constructJob circumstances (ioMutex sv direction) = none ∨
      ∃ mutex, constructJob circumstances (ioMutex sv direction) = some (.ok mutex) ∧
        (mutex = none ↔ sv.useMutex direction = .no) ∧
        ∀ m, mutex = some m → Designated design className sv direction tree circumstances
          (sv.useMutex direction) m := by
  rcases hlink : circumstances.deviceLink with _ | ⟨id, device⟩
  · exact .inl (by simp [constructJob, hlink])
  cases huse : sv.useMutex direction with
  | no =>
      right
      refine ⟨none, ?_, by simp, by simp⟩
      rw [ioMutex_eq, huse]
      exact constructJob_null hlink
  | ofThisOperation =>
      right
      rw [ioMutex_eq, huse]
      refine ⟨_, constructJob_ofDevice hlink _, by simp, ?_⟩
      intro m hm
      cases hm
      exact .ofThisOperation hlink (operationLock_mem hlogic hsv huse)
  | ofThisVariable =>
      right
      rw [ioMutex_eq, huse]
      refine ⟨_, constructJob_ofDevice hlink _, by simp, ?_⟩
      intro m hm
      cases hm
      exact .ofThisVariable hlink (getLockVariable_mem hlogic hsv huse)
  | ofContainingObject =>
      right
      rw [ioMutex_eq, huse]
      refine ⟨_, constructJob_ofDevice hlink _, by simp, ?_⟩
      intro m hm
      cases hm
      exact .ofContainingObject hlink (getLock_mem (hchecked.ofContainingObject direction huse))
  | ofParentOfContainingObject =>
      right
      obtain ⟨parentName, hgetParent, hmutex⟩ := hchecked.ofParent direction huse
      obtain ⟨hlegit, horigins⟩ :=
        legitParent_of_getParent hgetParent (classHasDeviceLogic_of_mutex hmutex)
      obtain ⟨parentId, parentDevice, hpointer, hobject, rfl⟩ :=
        hparent id device hlink hlegit _ horigins (classHasDeviceLogic_of_mutex hmutex)
      rw [ioMutex_eq, huse]
      refine ⟨_, constructJob_ofParent hlink _ hpointer, by simp, ?_⟩
      intro m hm
      cases hm
      refine .ofParentOfContainingObject hlink hpointer hobject ?_ (getLock_mem hmutex)
      rw [parentStruct, if_pos hlegit, hgetParent]
  | handpicked =>
      rw [ioMutex_eq, huse]
      dsimp only
      rw [constructJob_handpicked hlink]
      rcases hconfigured : circumstances.configuredMutex with _ | mutex
      · exact .inl rfl
      · right
        refine ⟨some (.handpicked mutex), rfl, by simp, ?_⟩
        intro m hm
        cases hm
        exact .handpicked hconfigured

/-- Any class has an object whose parent pointer is right, in some tree. -/
theorem exists_parentStands (design : Design) (className : Bytes) :
    ∃ parent tree, ParentStands design className parent tree := by
  rcases horigins : getHasObjectsOriginNames design className with
    _ | ⟨origin, _ | ⟨origin', origins⟩⟩
  · refine ⟨none, emptyDeviceTree, fun _ origin horigin => ?_⟩
    rw [horigins] at horigin
    cases horigin
  · cases origin with
    | root =>
        refine ⟨some .root, emptyDeviceTree, fun _ origin horigin => ?_⟩
        rw [horigins] at horigin
        cases horigin
        rfl
    | named parentName =>
        refine ⟨some (.object 0), ⟨0, [⟨parentName, none, none, []⟩], [], []⟩,
          fun _ origin horigin => ?_⟩
        rw [horigins] at horigin
        cases horigin
        exact fun _ => ⟨0, _, rfl, rfl, rfl⟩
  · refine ⟨none, emptyDeviceTree, fun _ origin horigin => ?_⟩
    rw [horigins] at horigin
    cases horigin

/-- What is executed is the job that was constructed, under its mutex. -/
theorem run_addJob {expression : MutexExpression}
    (h : constructJob circumstances expression = none ∨
      ∃ mutex, constructJob circumstances expression = some (.ok mutex)) :
    (SpawnCase.addJob expression).run circumstances ≠ .undefined ∧
      ∀ mutex, (SpawnCase.addJob expression).run circumstances = .executed mutex →
        constructJob circumstances expression = some (.ok mutex) := by
  rcases h with hnone | ⟨mutex, hmutex⟩
  · simp [SpawnCase.run, hnone]
  · cases haccepted : circumstances.accepted
    · simp [SpawnCase.run, hmutex, haccepted]
    · simp [SpawnCase.run, hmutex, haccepted]

theorem run_execute {expression : MutexExpression}
    (h : constructJob circumstances expression = none ∨
      constructJob circumstances expression = some (.ok none)) :
    (SpawnCase.execute expression false).run circumstances ≠ .undefined ∧
      ∀ mutex, (SpawnCase.execute expression false).run circumstances = .executed mutex →
        constructJob circumstances expression = some (.ok mutex) := by
  rcases h with hnone | hnull
  · simp [SpawnCase.run, hnone]
  · simp [SpawnCase.run, hnull]

theorem spawnIoJob_cases (hlogic : classHasDeviceLogic design.toDesign className = true) :
    spawnIoJob design className sv direction =
      match sv.access direction with
      | .forbidden => .default
      | .asynchronous => .addJob (ioMutex sv direction)
      | .synchronous => .execute (ioMutex sv direction)
          (decide (direction = .write ∨ sv.useMutex direction ≠ .no)) := by
  have hblank : ∀ useMutex : UseMutex, useMutex.value ≠ text "no " := by
    intro useMutex
    cases useMutex <;> decide
  have hno : ∀ useMutex : UseMutex, useMutex.value = text "no" ↔ useMutex = .no := by
    intro useMutex
    cases useMutex <;> decide
  cases direction with
  | read =>
      have hlock : decide (sv.addressSpaceReadUseMutex.value ≠ text "no") =
          decide (IoDirection.read = .write ∨ sv.addressSpaceReadUseMutex ≠ .no) :=
        decide_eq_decide.mpr (by simp [hno])
      cases haccess : sv.addressSpaceRead <;>
        simp only [spawnIoJob, spawnIoJobRead, SourceVariableElement.access, haccess, hlogic,
          ioMutex, SourceVariableElement.useMutex, hlock] <;> rfl
  | write =>
      cases haccess : sv.addressSpaceWrite <;>
        simp [spawnIoJob, spawnIoJobWrite, SourceVariableElement.access, haccess, hlogic, ioMutex,
          hblank]

theorem spawnIoJob_refused (hlogic : classHasDeviceLogic design.toDesign className = false) :
    (spawnIoJob design className sv direction).run circumstances = .refused := by
  cases direction with
  | read =>
      cases haccess : sv.addressSpaceRead <;>
        simp [spawnIoJob, spawnIoJobRead, haccess, hlogic, SpawnCase.run]
  | write =>
      cases haccess : sv.addressSpaceWrite <;>
        simp [spawnIoJob, spawnIoJobWrite, haccess, hlogic, SpawnCase.run]

/-- A synchronous write has no mutex, and the generated code locks it. -/
theorem not_locksRight_of_synchronousWrite (hchecked : Checked design className sv)
    (hlogic : classHasDeviceLogic design.toDesign className = true)
    (hwrite : sv.addressSpaceWrite = .synchronous) : ¬LocksRight design className sv .write := by
  intro hlocks
  obtain ⟨parent, tree, hparent⟩ := exists_parentStands design.toDesign className
  let circumstances : Circumstances Unit :=
    ⟨some (0, ⟨className, parent, none, []⟩), none, true⟩
  refine (hlocks Unit tree circumstances ?_).1 ?_
  · intro id device hlink
    cases hlink
    exact hparent
  · have hno := hchecked.synchronous .write hwrite
    rw [spawnIoJob_cases hlogic, show sv.access .write = _ from hwrite, ioMutex_eq, hno]
    simp [SpawnCase.run, constructJob, circumstances]

theorem locksRight_of_checked (hchecked : Checked design className sv)
    (hsv : sv ∈ design.sourceVariables className)
    (hnot : ¬(direction = .write ∧ sv.addressSpaceWrite = .synchronous ∧
      classHasDeviceLogic design.toDesign className = true)) :
    LocksRight design className sv direction := by
  intro Handpicked tree circumstances hparent
  cases hlogic : classHasDeviceLogic design.toDesign className with
  | false =>
      rw [spawnIoJob_refused hlogic]
      simp
  | true =>
      have hconstruct := @constructJob_spec design className sv direction Handpicked tree
        circumstances hchecked hsv hlogic hparent
      have hmutex : ∀ mutex, constructJob circumstances (ioMutex sv direction) =
          some (.ok mutex) → (mutex = none ↔ sv.useMutex direction = .no) ∧
            ∀ m, mutex = some m → Designated design className sv direction tree circumstances
              (sv.useMutex direction) m := by
        intro mutex hmutex
        rcases hconstruct with hnone | ⟨mutex', hmutex', hspec⟩
        · rw [hnone] at hmutex
          cases hmutex
        · cases hmutex.symm.trans hmutex'
          exact hspec
      rw [spawnIoJob_cases hlogic]
      cases haccess : sv.access direction with
      | forbidden => simp [SpawnCase.run]
      | asynchronous =>
          have hrun := run_addJob (hconstruct.imp_right fun h => ⟨h.choose, h.choose_spec.1⟩)
          exact ⟨hrun.1, fun mutex h => hmutex mutex (hrun.2 mutex h)⟩
      | synchronous =>
          have hno := hchecked.synchronous direction haccess
          have hread : direction ≠ .write := by
            rintro rfl
            exact hnot ⟨rfl, haccess, hlogic⟩
          have hnull : constructJob circumstances (ioMutex sv direction) = none ∨
              constructJob circumstances (ioMutex sv direction) = some (.ok none) := by
            rcases hconstruct with hnone | ⟨mutex, hmutex', hspec, -⟩
            · exact .inl hnone
            · exact .inr (hspec.mpr hno ▸ hmutex')
          have hrun := run_execute hnull
          have huniqueLock :
              decide (direction = .write ∨ sv.useMutex direction ≠ .no) = false := by
            simp [hread, hno]
          dsimp only
          rw [huniqueLock]
          exact ⟨hrun.1, fun mutex h => hmutex mutex (hrun.2 mutex h)⟩

/-- Every operation of an accepted design that calls device logic does so under the mutex
that the design names, except synchronous writes, which dereference a null mutex. -/
theorem locksRight_iff (hvalid : design.validate = .ok ⟨⟩) {c : DesignClass}
    (hc : c ∈ design.classes) (hsv : sv ∈ design.sourceVariables c.name) :
    (∀ depth config tree, configure design.toDesign depth config = .ok tree →
        AllParented design.toDesign tree) ∧ LocksRight design c.name sv direction ↔
      ¬(direction = .write ∧ sv.addressSpaceWrite = .synchronous ∧
        classHasDeviceLogic design.toDesign c.name = true) := by
  have hchecked := checked_of_validate hvalid hc hsv
  constructor
  · rintro ⟨-, hlocks⟩ ⟨rfl, hwrite, hlogic⟩
    exact not_locksRight_of_synchronousWrite hchecked hlogic hwrite hlocks
  · intro hnot
    exact ⟨fun depth config tree h => allParented_configure h,
      locksRight_of_checked hchecked hsv hnot⟩

end Locking

section Example

/-- Read by the thread pool under a mutex of its own, written in the call. -/
def adc : SourceVariableElement :=
  { name := text "adc", addressSpaceRead := .asynchronous, addressSpaceWrite := .synchronous
    addressSpaceReadUseMutex := .ofThisVariable, addressSpaceWriteUseMutex := .no }

def boardClass : DesignClass :=
  { name := text "Board", deviceLogic := true, cacheVariables := [], configEntries := []
    hasObjects := [] }

def adcDesign : SourceDesign :=
  { classes := [boardClass]
    root := [⟨text "Board", .configuration, []⟩]
    sourceVariables := fun className => if className = text "Board" then [adc] else []
    mutex := fun _ => false }

theorem validate_adcDesign : adcDesign.validate = .ok ⟨⟩ := by
  decide

theorem locksRight_iff_adc : LocksRight adcDesign boardClass.name adc .read :=
  ((@locksRight_iff adcDesign adc .read validate_adcDesign boardClass (by decide)
    (by decide)).mpr (by simp)).2

theorem adc_write_undefined : adcDesign.validate = .ok ⟨⟩ ∧
    adc ∈ adcDesign.sourceVariables boardClass.name ∧
    ¬LocksRight adcDesign boardClass.name adc .write := by
  refine ⟨validate_adcDesign, by decide, ?_⟩
  intro h
  let circumstances : Circumstances Unit :=
    ⟨some (0, ⟨boardClass.name, some .root, none, []⟩), none, true⟩
  refine (h Unit emptyDeviceTree circumstances ?_).1 (by decide)
  intro id device hlink hlegit origin horigin
  cases hlink
  have hroot : getHasObjectsOriginNames adcDesign.toDesign boardClass.name = [.root] := by
    decide
  rw [hroot] at horigin
  cases horigin
  rfl

end Example

end Quasar

end Supernova
