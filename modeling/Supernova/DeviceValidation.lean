/-
The validation of the device-logic objects after the configuration: below each object,
and for each class that is instantiated there by configuration, the number of objects has
to be within the limits of the design.
-/
import Supernova.DeviceRoot

namespace Supernova

namespace Quasar

/-- `minOccurs` and `maxOccurs` of a `hasobjects` element, where it has them. -/
structure Occurs where
  minOccurs : Option Nat
  maxOccurs : Option Nat
deriving DecidableEq, Repr

def Occurs.Allows (occurs : Occurs) (size : Nat) : Prop :=
  (∀ minOccurs ∈ occurs.minOccurs, minOccurs ≤ size) ∧
    ∀ maxOccurs ∈ occurs.maxOccurs, size ≤ maxOccurs

/-- The limits of a class in its parent; the generated code has one function for both. -/
abbrev Cardinalities := ParentClass → Bytes → Occurs

/-- What the generated code throws: the class, the object, and the class of the instances
with the limit and their number. -/
inductive ValidationError
  | noLessThan (className : ParentClass) (object : Option ObjectId) (innerClassName : Bytes)
      (minOccurs size : Nat)
  | noMoreThan (className : ParentClass) (object : Option ObjectId) (innerClassName : Bytes)
      (maxOccurs size : Nat)
  | noObject (id : ObjectId)
  /-- The calls are nested deeper than any stack. -/
  | tooDeep
deriving DecidableEq, Repr

section Validator

variable (design : Design) (cardinalities : Cardinalities)

/-- The comparison is not generated for a minimum of zero. -/
def checkMinOccurs (parent : ParentClass) (object : Option ObjectId) (innerClassName : Bytes)
    (size : Nat) : Except ValidationError Unit :=
  match (cardinalities parent innerClassName).minOccurs with
  | none => pure ⟨⟩
  | some minOccurs =>
      if 0 < minOccurs ∧ size < minOccurs then
        throw (.noLessThan parent object innerClassName minOccurs size)
      else pure ⟨⟩

def checkMaxOccurs (parent : ParentClass) (object : Option ObjectId) (innerClassName : Bytes)
    (size : Nat) : Except ValidationError Unit :=
  match (cardinalities parent innerClassName).maxOccurs with
  | none => pure ⟨⟩
  | some maxOccurs =>
      if maxOccurs < size then
        throw (.noMoreThan parent object innerClassName maxOccurs size)
      else pure ⟨⟩

/-- `writeInnerClassValidatorFunction` -/
def validateHas (validateDevice : Bytes → ObjectId → Except ValidationError Unit)
    (parent : ParentClass) (object : Option ObjectId) (children : List (Bytes × ObjectId))
    (hasObjectDef : HasObjects) : Except ValidationError Unit :=
  if classHasDeviceLogic design hasObjectDef.className then do
    let objects := collection children hasObjectDef.className
    checkMinOccurs cardinalities parent object hasObjectDef.className objects.length
    checkMaxOccurs cardinalities parent object hasObjectDef.className objects.length
    objects.forM (validateDevice hasObjectDef.className)
  else pure ⟨⟩

/-- What the configuration instantiates below a class, or below the root. -/
def validateChildren (validateDevice : Bytes → ObjectId → Except ValidationError Unit)
    (parent : ParentClass) (object : Option ObjectId) (children : List (Bytes × ObjectId)) :
    Except ValidationError Unit :=
  (innerObjects design .configuration parent).forM
    (validateHas design cardinalities validateDevice parent object children)

/-- `writeClassValidatorFunction`, with calls nested up to a depth. -/
def validateDevice (tree : DeviceTree) : Nat → Bytes → ObjectId → Except ValidationError Unit
  | 0, _, _ => throw .tooDeep
  | depth + 1, className, id =>
      match tree.objects[id]? with
      | none => throw (.noObject id)
      | some device =>
          validateChildren design cardinalities (validateDevice tree depth) (.named className)
            (some id) device.children

/-- `validateDeviceTree`, which is `validateRoot` of the root. -/
def validateDeviceTree (depth : Nat) (tree : DeviceTree) : Except ValidationError Unit :=
  validateChildren design cardinalities (validateDevice design cardinalities tree depth) .root
    none tree.rootChildren

end Validator

section Checks

variable {design : Design} {cardinalities : Cardinalities}
  {validateDevice : Bytes → ObjectId → Except ValidationError Unit} {parent : ParentClass}
  {object : Option ObjectId} {children : List (Bytes × ObjectId)}

theorem checkMinOccurs_eq_ok {innerClassName : Bytes} {size : Nat} {u : Unit} :
    checkMinOccurs cardinalities parent object innerClassName size = .ok u ↔
      ∀ minOccurs ∈ (cardinalities parent innerClassName).minOccurs, minOccurs ≤ size := by
  unfold checkMinOccurs
  rcases (cardinalities parent innerClassName).minOccurs with _ | minOccurs
  · simp [except_pure_eq_ok]
  · by_cases hless : 0 < minOccurs ∧ size < minOccurs
    · simp [hless]
    · have hle : minOccurs ≤ size := by omega
      simp [hless, hle, except_pure_eq_ok]

theorem checkMaxOccurs_eq_ok {innerClassName : Bytes} {size : Nat} {u : Unit} :
    checkMaxOccurs cardinalities parent object innerClassName size = .ok u ↔
      ∀ maxOccurs ∈ (cardinalities parent innerClassName).maxOccurs, size ≤ maxOccurs := by
  unfold checkMaxOccurs
  rcases (cardinalities parent innerClassName).maxOccurs with _ | maxOccurs
  · simp [except_pure_eq_ok]
  · by_cases hmore : maxOccurs < size
    · simp [hmore]
    · simp [hmore, Nat.not_lt.mp hmore, except_pure_eq_ok]

/-- A class passes when the numbers are allowed and each object passes. -/
theorem validateChildren_eq_ok :
    validateChildren design cardinalities validateDevice parent object children = .ok ⟨⟩ ↔
      ∀ ho ∈ innerObjects design .configuration parent,
        classHasDeviceLogic design ho.className = true →
          (cardinalities parent ho.className).Allows (collection children ho.className).length ∧
            ∀ id ∈ collection children ho.className, validateDevice ho.className id = .ok ⟨⟩ := by
  rw [validateChildren, forM_eq_ok]
  refine forall₂_congr fun ho _ => ?_
  rw [validateHas]
  split_ifs with hlogic
  · simp only [except_bind_eq_ok, checkMinOccurs_eq_ok, checkMaxOccurs_eq_ok, forM_eq_ok, hlogic,
      forall_const, exists_const, Occurs.Allows, and_assoc]
  · simp [hlogic, except_pure_eq_ok]

end Checks

end Quasar

end Supernova
