/-
The design of a server: its classes, what each instantiates below it, and the
checks that a design passes before code is generated from it.
-/
import Supernova.ExceptResults
import Supernova.StandardString

namespace Supernova

namespace Quasar

inductive InstantiateUsing
  | design
  | configuration
deriving DecidableEq, Repr

/-- One `hasobjects` element: the class that is instantiated, and the names of
the objects that the design itself asks for. -/
structure HasObjects where
  className : Bytes
  instantiateUsing : InstantiateUsing
  objects : List Bytes
deriving DecidableEq, Repr

inductive InitializeWith
  | configuration
  | valueAndStatus
deriving DecidableEq, Repr

structure CacheVariable where
  name : Bytes
  initializeWith : InitializeWith
deriving DecidableEq, Repr

structure ConfigEntry where
  name : Bytes
deriving DecidableEq, Repr

structure DesignClass where
  name : Bytes
  deviceLogic : Bool
  cacheVariables : List CacheVariable
  configEntries : List ConfigEntry
  hasObjects : List HasObjects
deriving DecidableEq, Repr

structure Design where
  classes : List DesignClass
  root : List HasObjects
deriving DecidableEq, Repr

/-- What can have `hasobjects`. -/
inductive ParentClass
  | root
  | named (className : Bytes)
deriving DecidableEq, Repr

section DesignInspector

variable (design : Design)

def classHasDeviceLogic (className : Bytes) : Bool :=
  design.classes.any fun c => c.name = className && c.deviceLogic

/-- The `hasobjects` of a class, or of the root. -/
def objectifyHasObjects : ParentClass → List HasObjects
  | .root => design.root
  | .named className =>
      (design.classes.filter fun c => c.name = className).flatMap DesignClass.hasObjects

/-- The parents that refer to a class; the root is asked for, too. -/
def getHasObjectsOriginNames (className : Bytes) : List ParentClass :=
  let refers (hasObjects : List HasObjects) : Bool :=
    hasObjects.any fun ho => ho.className = className
  (design.classes.filter fun c => refers c.hasObjects).map (fun c => .named c.name) ++
    if refers design.root then [.root] else []

/-- The root has device logic by definition. -/
def parentHasDeviceLogic : ParentClass → Bool
  | .root => true
  | .named className => classHasDeviceLogic design className

/-- There is one type of parent, with device logic. -/
def classHasLegitDeviceParent (className : Bytes) : Bool :=
  classHasDeviceLogic design className &&
    match getHasObjectsOriginNames design className with
    | [origin] => parentHasDeviceLogic design origin
    | _ => false

def objectifyClass (className : Bytes) : Except Bytes DesignClass :=
  match design.classes.filter fun c => c.name = className with
  | [c] => .ok c
  | _ => .error (text "ERROR: Class " ++ className ++
      text " NOT FOUND in your quasar design... ")

end DesignInspector

section DesignValidator

/-- What the schema says of the names of classes: no class twice, no class twice
among the children of one parent, and children only of classes there are. -/
structure ValidNames (design : Design) : Prop where
  classKey : (design.classes.map DesignClass.name).Nodup
  classHasObjectsUniqueChildClass : ∀ c ∈ design.classes,
    (c.hasObjects.map HasObjects.className).Nodup
  rootHasObjectsUniqueClass : (design.root.map HasObjects.className).Nodup
  classHasObjectsKeyref : ∀ c ∈ design.classes, ∀ ho ∈ c.hasObjects,
    ho.className ∈ design.classes.map DesignClass.name
  rootHasObjectsKeyref : ∀ ho ∈ design.root,
    ho.className ∈ design.classes.map DesignClass.name

instance (design : Design) : Decidable (ValidNames design) :=
  decidable_of_iff
    ((design.classes.map DesignClass.name).Nodup ∧
      (∀ c ∈ design.classes, (c.hasObjects.map HasObjects.className).Nodup) ∧
      (design.root.map HasObjects.className).Nodup ∧
      (∀ c ∈ design.classes, ∀ ho ∈ c.hasObjects,
        ho.className ∈ design.classes.map DesignClass.name) ∧
      ∀ ho ∈ design.root, ho.className ∈ design.classes.map DesignClass.name)
    ⟨fun ⟨h₁, h₂, h₃, h₄, h₅⟩ => ⟨h₁, h₂, h₃, h₄, h₅⟩,
      fun ⟨h₁, h₂, h₃, h₄, h₅⟩ => ⟨h₁, h₂, h₃, h₄, h₅⟩⟩

variable (design : Design)

def validateFirstStage : Except Bytes Unit :=
  if ValidNames design then .ok ⟨⟩
  else .error (text "the design does not conform to the schema")

def validateHasObjects (hasObjects : HasObjects) : Except Bytes Unit :=
  match hasObjects.instantiateUsing with
  | .design => do
      let c ← objectifyClass design hasObjects.className
      if c.configEntries ≠ [] then
        throw (text "For instantiation from design, only classes without config " ++
          text "entries are allowed")
      if ∃ cacheVariable ∈ c.cacheVariables, cacheVariable.initializeWith = .configuration then
        throw (text "For instantiation from design, only classes with non-" ++
          text "config-dependent cachevariables are allowed")
  | .configuration =>
      if hasObjects.objects ≠ [] then
        throw (text "You can't have d:object when instantiation by configuration is chosen")
      else pure ⟨⟩

def validateHasObjectsWrapper : Except Bytes Unit := do
  design.classes.forM fun c =>
    (objectifyHasObjects design (.named c.name)).forM (validateHasObjects design)
  design.root.forM (validateHasObjects design)

/-- The checks on names and on `hasobjects`, in their order. -/
def validate : Except Bytes Unit := do
  validateFirstStage design
  validateHasObjectsWrapper design

variable {design}

theorem validNames_of_validate (h : validate design = .ok ⟨⟩) : ValidNames design := by
  obtain ⟨_, hfirst, -⟩ := except_bind_eq_ok.1 h
  rw [validateFirstStage] at hfirst
  by_contra hnot
  rw [if_neg hnot] at hfirst
  cases hfirst

/-- With names that are valid, the children of a parent are of different classes. -/
theorem ValidNames.nodup (h : ValidNames design) (parent : ParentClass) :
    ((objectifyHasObjects design parent).map HasObjects.className).Nodup := by
  cases parent with
  | root => exact h.rootHasObjectsUniqueClass
  | named className =>
      have hnodup : ((design.classes.filter fun c => c.name = className).map
          DesignClass.name).Nodup :=
        h.classKey.sublist (List.filter_sublist.map _)
      have hmem : ∀ c ∈ design.classes.filter fun c => c.name = className,
          c ∈ design.classes ∧ c.name = className := by
        simp
      rw [objectifyHasObjects]
      generalize design.classes.filter (fun c => c.name = className) = named at hnodup hmem ⊢
      rcases named with _ | ⟨c, _ | ⟨c', rest⟩⟩
      · exact List.nodup_nil
      · rw [List.flatMap_cons, List.flatMap_nil, List.append_nil]
        exact h.classHasObjectsUniqueChildClass c (hmem c List.mem_cons_self).1
      · -- No second class has the name.
        have hname : c.name = c'.name :=
          (hmem c (by simp)).2.trans (hmem c' (by simp)).2.symm
        simp [hname] at hnodup

end DesignValidator

end Quasar

end Supernova
