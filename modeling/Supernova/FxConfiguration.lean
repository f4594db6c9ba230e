/-
The FX section of the configuration: the datasets that an automation component
offers, and the validation of what the schema alone cannot express.
-/
import Supernova.DecimalText
import Supernova.PubSubEngine

namespace Supernova

namespace Fx

structure DatasetField where
  name : Bytes
  address : Bytes
deriving DecidableEq, Repr

structure OutputDatasetConfig where
  name : Bytes
  writerGroupId : UInt16
  dataSetWriterId : UInt16
  publishingIntervalMs : Double
  fields : List DatasetField
deriving DecidableEq, Repr

structure InputDatasetConfig where
  name : Bytes
  fields : List DatasetField
deriving DecidableEq, Repr

structure FunctionalEntityConfig where
  name : Bytes
  outputs : List OutputDatasetConfig
  inputs : List InputDatasetConfig
deriving DecidableEq, Repr

structure Configuration where
  automationComponent : Bytes
  publisherIdType : PubSub.PublisherIdType
  publisherId : UInt64
  entities : List FunctionalEntityConfig
deriving DecidableEq, Repr

def refuse {α : Type} (what : Bytes) : Except Bytes α :=
  throw (text "Fx configuration: " ++ what)

def requireUnique (seen : List Bytes) (name : Bytes) (what : Bytes) :
    Except Bytes (List Bytes) :=
  if name.isEmpty then refuse (text "empty " ++ what ++ text " name")
  else if name ∈ seen then refuse (text "duplicate " ++ what ++ text " '" ++ name ++ text "'")
  else pure (name :: seen)

def dotByte : UInt8 := 46

/-- What is behind the last dot. -/
def leafOf (address : Bytes) : Bytes :=
  match rfind dotByte address with
  | none => address
  | some dot => address.drop (dot + 1)

/-- The field loop of `finalizeFields`; `names` are those of the fields before. -/
def finalizeFieldsFrom (datasetName direction : Bytes) :
    List Bytes → List DatasetField → Except Bytes (List DatasetField)
  | _, [] => pure []
  | names, field :: fields =>
      let name := if field.name.isEmpty then leafOf field.address else field.name
      if field.address.isEmpty then
        refuse (direction ++ text " '" ++ datasetName ++
          text "' has a Field with an empty address")
      else if name.isEmpty then
        refuse (direction ++ text " '" ++ datasetName ++ text "' has a Field with an empty name")
      else if name ∈ names then
        refuse (direction ++ text " '" ++ datasetName ++ text "' has two Fields named '" ++
          name ++ text "' (give one an explicit name=\"...\")")
      else do
        let finalized ← finalizeFieldsFrom datasetName direction (name :: names) fields
        pure ({ field with name } :: finalized)

def finalizeFields (fields : List DatasetField) (datasetName direction : Bytes) :
    Except Bytes (List DatasetField) :=
  if fields.isEmpty then refuse (direction ++ text " '" ++ datasetName ++ text "' has no Fields")
  else finalizeFieldsFrom datasetName direction [] fields

/-- A comparison with a whole number; it fails for a NaN. -/
def exceeds (d : Double) (limit : Nat) : Bool := !d.isNaN && decide ((limit : ℚ) < d.rational)

/-- Positive and at most one day. -/
def acceptedInterval (publishingIntervalMs : Double) : Bool :=
  PubSub.isPositive publishingIntervalMs && !exceeds publishingIntervalMs 86400000

/-- The loop over the output datasets, with the names and the writer groups
seen so far; the groups are those of the whole component. -/
def finalizeOutputs : List Bytes → List UInt16 → List OutputDatasetConfig →
    Except Bytes (List UInt16 × List OutputDatasetConfig)
  | _, writerGroupIds, [] => pure (writerGroupIds, [])
  | outputNames, writerGroupIds, dataset :: datasets => do
      let outputNames ← requireUnique outputNames dataset.name (text "OutputDataset")
      if dataset.writerGroupId ∈ writerGroupIds then
        refuse (text "writerGroupId " ++ decimal dataset.writerGroupId.toNat ++
          text " is used by more than one OutputDataset")
      else if !acceptedInterval dataset.publishingIntervalMs then
        refuse (text "OutputDataset '" ++ dataset.name ++
          text "': publishingIntervalMs must be positive and at most 86400000 (one day)")
      else do
        let fields ← finalizeFields dataset.fields dataset.name (text "OutputDataset")
        let (writerGroupIds, finalized) ←
          finalizeOutputs outputNames (dataset.writerGroupId :: writerGroupIds) datasets
        pure (writerGroupIds, { dataset with fields } :: finalized)

def finalizeInputs : List Bytes → List InputDatasetConfig → Except Bytes (List InputDatasetConfig)
  | _, [] => pure []
  | inputNames, dataset :: datasets => do
      let inputNames ← requireUnique inputNames dataset.name (text "InputDataset")
      let fields ← finalizeFields dataset.fields dataset.name (text "InputDataset")
      let finalized ← finalizeInputs inputNames datasets
      pure ({ dataset with fields } :: finalized)

def finalizeEntities : List Bytes → List UInt16 → List FunctionalEntityConfig →
    Except Bytes (List FunctionalEntityConfig)
  | _, _, [] => pure []
  | entityNames, writerGroupIds, entity :: entities => do
      let entityNames ← requireUnique entityNames entity.name (text "FunctionalEntity")
      let (writerGroupIds, outputs) ← finalizeOutputs [] writerGroupIds entity.outputs
      let inputs ← finalizeInputs [] entity.inputs
      if outputs.isEmpty && inputs.isEmpty then
        refuse (text "FunctionalEntity '" ++ entity.name ++ text "' declares no datasets")
      else do
        let finalized ← finalizeEntities entityNames writerGroupIds entities
        pure ({ entity with outputs, inputs } :: finalized)

/-- The largest whole number up to which all are `double`s, 2^53. -/
def kJsonExactIntegerLimit : Nat := 9007199254740992

def finalizeAndValidate (configuration : Configuration) : Except Bytes Configuration :=
  if configuration.automationComponent.isEmpty then
    refuse (text "empty automationComponent name")
  else if PubSub.publisherIdMaximum configuration.publisherIdType < configuration.publisherId then
    refuse (text "publisherId " ++ decimal configuration.publisherId.toNat ++
      text " does not fit publisherIdType " ++
      PubSub.publisherIdTypeName configuration.publisherIdType)
  else if kJsonExactIntegerLimit < configuration.publisherId.toNat then
    refuse (text "publisherId above 2^53 is not supported " ++
      text "(the connection services exchange coordinates as JSON numbers)")
  else if configuration.entities.isEmpty then refuse (text "no FunctionalEntity elements")
  else do
    let entities ← finalizeEntities [] [] configuration.entities
    pure { configuration with entities }

end Fx

end Supernova
