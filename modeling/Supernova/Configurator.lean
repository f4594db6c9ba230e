/-
The generated configurator: it walks a configuration next to the design, makes
an address-space object for every instance, and a device-logic object where the
class has device logic, which it registers with its parent or as an orphan.
-/
import Supernova.DesignValidator

namespace Supernova

namespace Quasar

section XmlObjects

/-- What an entry of the content order refers to. -/
inductive ContentId
  | element (className : Bytes)
  | calculatedVariable
  | freeVariable
  | other
deriving DecidableEq, Repr

structure ContentOrder where
  id : ContentId
  index : Nat
deriving DecidableEq, Repr

/-- An element of the configuration; the elements in it are given with their
class, the calculated variables in it by their number. -/
structure XmlObject where
  name : Bytes
  elements : List (Bytes × XmlObject)
  calculatedVariables : Nat
  contentOrder : List ContentOrder

/-- What the design instantiates has an empty configuration. -/
def emptyXmlObject (name : Bytes) : XmlObject := ⟨name, [], 0, []⟩

def standardMetaData : Bytes := text "StandardMetaData"

/-- The elements of one class; standard meta data are one at most. -/
def XmlObject.collection (config : XmlObject) (className : Bytes) : List XmlObject :=
  let elements := (config.elements.filter fun e => e.1 = className).map Prod.snd
  if className = standardMetaData then elements.take 1 else elements

inductive ContentOrderError
  | invalidIndex (childTypeId : ContentId) (index size : Nat)
  | unregistered (count : Nat)
  | optionalUnregistered (childTypeId : ContentId)
deriving DecidableEq, Repr

/-- The children are an array: each has one entry, and no entry has another index. -/
def validateContentOrderArray (contentOrder : List ContentOrder) (size : Nat)
    (childTypeId : ContentId) : Except ContentOrderError Unit := do
  let validChildIndices ← contentOrder.foldlM (fun valid entry =>
    if entry.id = childTypeId then
      if entry.index ∈ valid then pure (valid.erase entry.index)
      else throw (.invalidIndex childTypeId entry.index size)
    else pure valid) (List.range size)
  if validChildIndices = [] then pure ⟨⟩ else throw (.unregistered validChildIndices.length)

/-- The child is optional: when present it has an entry. -/
def validateContentOrderOptional (contentOrder : List ContentOrder) (present : Bool)
    (childTypeId : ContentId) : Except ContentOrderError Unit :=
  if present && !contentOrder.any fun entry => entry.id = childTypeId then
    throw (.optionalUnregistered childTypeId)
  else pure ⟨⟩

def validateContentOrder (config : XmlObject) (className : Bytes) :
    Except ContentOrderError Unit :=
  let size := (config.collection className).length
  if className = standardMetaData then
    validateContentOrderOptional config.contentOrder (size ≠ 0) (.element className)
  else validateContentOrderArray config.contentOrder size (.element className)

/-- The element that an entry of the content order stands for. -/
def XmlObject.get? (config : XmlObject) (className : Bytes) (index : Nat) : Option XmlObject :=
  if className = standardMetaData then (config.collection className).head?
  else (config.collection className)[index]?

end XmlObjects

section Devices

/-- Device-logic objects are told apart by the order in which they were made. -/
abbrev ObjectId := Nat

inductive DeviceParent
  | root
  | object (id : ObjectId)
deriving DecidableEq, Repr

/-- A device-logic object; the vectors of its children are one list here, in
the order of registration, with the class of each child. -/
structure DeviceObject where
  className : Bytes
  parent : Option DeviceParent
  addressSpaceLink : Option Nat
  children : List (Bytes × ObjectId)
deriving DecidableEq, Repr

/-- All device-logic objects, the children of the root, the lists of orphaned
objects, and how many address-space objects there are. -/
structure DeviceTree where
  asObjects : Nat
  objects : List DeviceObject
  rootChildren : List (Bytes × ObjectId)
  orphanedObjects : List (Bytes × ObjectId)
deriving DecidableEq, Repr

def emptyDeviceTree : DeviceTree := ⟨0, [], [], []⟩

inductive ConfigureError
  | contentOrder (error : ContentOrderError)
  | noElement (className : Bytes) (index : Nat)
  | linkedTwice
  /-- The calls are nested deeper than any stack. -/
  | tooDeep
deriving DecidableEq, Repr

abbrev Configure := StateT DeviceTree (Except ConfigureError)

def newAddressSpaceObject : Configure Nat :=
  modifyGet fun tree => (tree.asObjects, { tree with asObjects := tree.asObjects + 1 })

def newDevice (className : Bytes) (parent : Option DeviceParent) : Configure ObjectId :=
  modifyGet fun tree => (tree.objects.length,
    { tree with objects := tree.objects ++ [⟨className, parent, none, []⟩] })

def linkAddressSpace (device : ObjectId) (asItem : Nat) : Configure Unit := do
  let tree ← get
  if (tree.objects[device]?.bind DeviceObject.addressSpaceLink).isSome then throw .linkedTwice
  set { tree with objects := tree.objects.modify device fun d =>
    { d with addressSpaceLink := some asItem } }

/-- `add` of the root, or of a device-logic object. -/
def add (parent : DeviceParent) (className : Bytes) (device : ObjectId) : Configure Unit :=
  modify fun tree =>
    match parent with
    | .root => { tree with rootChildren := tree.rootChildren ++ [(className, device)] }
    | .object id => { tree with objects := tree.objects.modify id fun d =>
        { d with children := d.children ++ [(className, device)] } }

def registerOrphanedObject (className : Bytes) (device : ObjectId) : Configure Unit :=
  modify fun tree =>
    { tree with orphanedObjects := tree.orphanedObjects ++ [(className, device)] }

/-- The device-logic object of a class that has device logic, linked. -/
def newLinkedDevice (design : Design) (className : Bytes) (parent : Option DeviceParent)
    (asItem : Nat) : Configure (Option ObjectId) :=
  if classHasDeviceLogic design className then do
    let dItem ← newDevice className parent
    linkAddressSpace dItem asItem
    pure (some dItem)
  else pure none

end Devices

section Configure

variable (design : Design)

/-- The configure function of a class: it returns the device-logic object of a
class that has device logic. -/
abbrev ConfigureClass :=
  Bytes → XmlObject → Option DeviceParent → Configure (Option ObjectId)

/-- What both ways of instantiation do for one object: configure it, and register
its device-logic object, if any. A parent without device logic has no device. -/
def configureObject (configureClass : ConfigureClass) (parentClass : ParentClass)
    (parentDevice : Option DeviceParent) (className : Bytes) (xmlObj : XmlObject) :
    Configure Unit :=
  if classHasDeviceLogic design className then do
    let device ← configureClass className xmlObj
      (if classHasLegitDeviceParent design className then parentDevice else none)
    device.forM fun device =>
      if parentHasDeviceLogic design parentClass then
        parentDevice.forM fun parent => add parent className device
      else registerOrphanedObject className device
  else do
    let _ ← configureClass className xmlObj none
    pure ⟨⟩

def writeConfigureObjectByDesign (configureClass : ConfigureClass) (parentClass : ParentClass)
    (parentDevice : Option DeviceParent) (hasObjects : HasObjects) (instanceName : Bytes) :
    Configure Unit :=
  configureObject design configureClass parentClass parentDevice hasObjects.className
    (emptyXmlObject instanceName)

/-- The classes that a parent instantiates in one of the ways. -/
def innerObjects (instantiateUsing : InstantiateUsing) (parentClass : ParentClass) :
    List HasObjects :=
  (objectifyHasObjects design parentClass).filter fun ho =>
    ho.instantiateUsing = instantiateUsing

/-- One entry of the content order; calculated and free variables are no objects. -/
def configureEntry (configureClass : ConfigureClass) (parentClass : ParentClass)
    (parentDevice : Option DeviceParent) (config : XmlObject) (entry : ContentOrder) :
    Configure Unit :=
  match entry.id with
  | .element innerClass =>
      if innerClass ∈ (innerObjects design .configuration parentClass).map HasObjects.className
      then
        match config.get? innerClass entry.index with
        | none => throw (.noElement innerClass entry.index)
        | some xmlObj =>
            configureObject design configureClass parentClass parentDevice innerClass xmlObj
      else pure ⟨⟩
  | _ => pure ⟨⟩

def checked (result : Except ContentOrderError Unit) : Configure Unit :=
  match result with
  | .ok _ => pure ⟨⟩
  | .error error => throw (.contentOrder error)

def writeConfigureObjectByConfiguration (configureClass : ConfigureClass)
    (parentClass : ParentClass) (parentDevice : Option DeviceParent) (config : XmlObject) :
    Configure Unit := do
  (innerObjects design .configuration parentClass).forM fun ho =>
    checked (validateContentOrder config ho.className)
  checked (validateContentOrderArray config.contentOrder config.calculatedVariables
    .calculatedVariable)
  config.contentOrder.forM
    (configureEntry design configureClass parentClass parentDevice config)

/-- First what the design instantiates, then what the configuration does. -/
def configureChildren (configureClass : ConfigureClass) (parentClass : ParentClass)
    (parentDevice : Option DeviceParent) (config : XmlObject) : Configure Unit := do
  (innerObjects design .design parentClass).forM fun ho =>
    ho.objects.forM (writeConfigureObjectByDesign design configureClass parentClass
      parentDevice ho)
  writeConfigureObjectByConfiguration design configureClass parentClass parentDevice config

/-- The configure function of each class, with calls nested up to a depth. -/
def configureClass : Nat → ConfigureClass
  | 0, _, _, _ => throw .tooDeep
  | depth + 1, className, config, parentDevice => do
      let asItem ← newAddressSpaceObject
      let dItem ← newLinkedDevice design className parentDevice asItem
      configureChildren design (configureClass depth) (.named className)
        (dItem.map DeviceParent.object) config
      pure dItem

/-- The device-logic objects that a configuration gives. -/
def configure (depth : Nat) (config : XmlObject) : Except ConfigureError DeviceTree :=
  (·.2) <$> (configureChildren design (configureClass design depth) .root (some .root) config).run
    emptyDeviceTree

end Configure

end Quasar

end Supernova
