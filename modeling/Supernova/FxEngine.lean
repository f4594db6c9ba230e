/-
The FX engine: what it holds at run time, the nodes it adds to the address
space, and its start, which resolves the configured datasets and builds the
model of the automation component.
-/
import Supernova.FxConfiguration
import Supernova.PubSubStart

namespace Supernova

namespace Fx

inductive EndpointStatus
  | initial
  | ready
  | preOperational
  | operational
  | error
deriving DecidableEq, Repr

def endpointStatusName : EndpointStatus → Bytes
  | .initial => text "Initial"
  | .ready => text "Ready"
  | .preOperational => text "PreOperational"
  | .operational => text "Operational"
  | .error => text "Error"

inductive Role
  | publisher
  | subscriber
deriving DecidableEq, Repr

def roleName : Role → Bytes
  | .publisher => text "publisher"
  | .subscriber => text "subscriber"

/-- Writer coordinates are used by outputs only. -/
structure DatasetRuntime where
  name : Bytes
  writerGroupId : UInt16 := 0
  dataSetWriterId : UInt16 := 0
  publishingIntervalMs : Double := Double.ofRational 100
  fields : List DatasetField
  cacheVariables : List Nat
deriving DecidableEq, Repr

/-- The folder is empty until the model is built. -/
structure EntityRuntime where
  name : Bytes
  outputs : List DatasetRuntime
  inputs : List DatasetRuntime
  endpointsFolder : Bytes := []
deriving DecidableEq, Repr

/-- An endpoint's own variables are given with the values they show. -/
structure Endpoint where
  entity : Bytes
  dataset : Bytes
  role : Role
  address : Bytes
  ownerTag : Bytes
  active : Bool := false
  statusVariable : Option EndpointStatus := none
  addressVariable : Option Bytes := none
  datasetVariable : Option Bytes := none
deriving DecidableEq, Repr

structure Engine where
  staged : Option Configuration := none
  configuration : Configuration := ⟨[], .uInt16, 0, []⟩
  entities : List EntityRuntime := []
  endpoints : OrderedMap Bytes Endpoint := .empty
  poisonedNames : List Bytes := []
  started : Bool := false
deriving DecidableEq

section Nodes

/-- How the address space answers the creation of a node: what it says about an
id that exists, and what else it has against an id. -/
structure Refusals where
  duplicate : Bytes → Bytes
  other : Bytes → Option Bytes

/-- Nodes are permanent: those that were added before a failure stay. -/
abbrev Build := EStateM Bytes (List Bytes)

/-- The id of a child of a node with a string id.  No name has a NUL byte in
it: XML text has none, and a connection name with one is refused. -/
def makeChildNodeId (parent childName : Bytes) : Bytes := parent ++ text "." ++ childName

def addNode (refusals : Refusals) (nodeId : Bytes) : Build PUnit := do
  let nodes ← get
  if nodeId ∈ nodes then throw (text "While adding node: " ++ refusals.duplicate nodeId)
  else
    match refusals.other nodeId with
    | some error => throw (text "While adding node: " ++ error)
    | none => set (nodes ++ [nodeId])

def addObject (refusals : Refusals) (parent name : Bytes) : Build Bytes := do
  addNode refusals (makeChildNodeId parent name)
  pure (makeChildNodeId parent name)

def addVariable (refusals : Refusals) (parent name : Bytes) : Build PUnit :=
  addNode refusals (makeChildNodeId parent name)

/-- The method is referenced after its argument properties. -/
def addMethod (refusals : Refusals) (parent name : Bytes) : Build PUnit := do
  let method := makeChildNodeId parent name
  addNode refusals (makeChildNodeId method (text "args"))
  addNode refusals (makeChildNodeId method (text "return_values"))
  addNode refusals method

def addMethods (refusals : Refusals) (parent : Bytes) : Build PUnit := do
  addMethod refusals parent (text "EstablishConnections")
  addMethod refusals parent (text "CloseConnections")

def buildDataset (refusals : Refusals) (folder : Bytes) (dataset : DatasetRuntime) :
    Build PUnit := do
  let datasetNode ← addObject refusals folder dataset.name
  dataset.fields.forM fun field => addVariable refusals datasetNode field.name

def buildEntity (refusals : Refusals) (entitiesFolder : Bytes) (entity : EntityRuntime) :
    Build EntityRuntime := do
  let entityNode ← addObject refusals entitiesFolder entity.name
  let outputData ← addObject refusals entityNode (text "OutputData")
  let inputData ← addObject refusals entityNode (text "InputData")
  let endpointsFolder ← addObject refusals entityNode (text "ConnectionEndpoints")
  entity.outputs.forM (buildDataset refusals outputData)
  entity.inputs.forM (buildDataset refusals inputData)
  pure { entity with endpointsFolder }

/-- A child of the objects folder has its name as its id. -/
def buildModel (refusals : Refusals) (configuration : Configuration)
    (entities : List EntityRuntime) : Build (List EntityRuntime) := do
  let component := configuration.automationComponent
  addNode refusals component
  addMethods refusals component
  let entitiesFolder ← addObject refusals component (text "FunctionalEntities")
  entities.mapM (buildEntity refusals entitiesFolder)

end Nodes

section Start

/-- What the engine finds when it starts: the nodes of the address space, each
with its cache variable if it is one. -/
abbrev NodeLookup := Bytes → Option (Option Nat)

def resolveVariable (node : NodeLookup) (address diagnosticContext : Bytes) :
    Except Bytes Nat :=
  match node address with
  | none => throw (text "Fx: " ++ diagnosticContext ++ text ": address '" ++ address ++
      text "' does not exist in the address space")
  | some none => throw (text "Fx: " ++ diagnosticContext ++ text ": address '" ++ address ++
      text "' is not a cache variable")
  | some (some v) => pure v

def resolveFields (node : NodeLookup) (entityName datasetName direction : Bytes)
    (fields : List DatasetField) : Except Bytes (List Nat) :=
  fields.mapM fun field => resolveVariable node field.address
    (text "FunctionalEntity '" ++ entityName ++ text "' " ++ direction ++ text " '" ++
      datasetName ++ text "' Field '" ++ field.name ++ text "'")

def outputRuntime (node : NodeLookup) (entityName : Bytes) (dataset : OutputDatasetConfig) :
    Except Bytes DatasetRuntime := do
  let cacheVariables ←
    resolveFields node entityName dataset.name (text "OutputDataset") dataset.fields
  pure
    { name := dataset.name
      writerGroupId := dataset.writerGroupId
      dataSetWriterId := dataset.dataSetWriterId
      publishingIntervalMs := dataset.publishingIntervalMs
      fields := dataset.fields
      cacheVariables }

def inputRuntime (node : NodeLookup) (entityName : Bytes) (dataset : InputDatasetConfig) :
    Except Bytes DatasetRuntime := do
  let cacheVariables ←
    resolveFields node entityName dataset.name (text "InputDataset") dataset.fields
  pure { name := dataset.name, fields := dataset.fields, cacheVariables }

def entityRuntime (node : NodeLookup) (entity : FunctionalEntityConfig) :
    Except Bytes EntityRuntime := do
  let outputs ← entity.outputs.mapM (outputRuntime node entity.name)
  let inputs ← entity.inputs.mapM (inputRuntime node entity.name)
  pure { name := entity.name, outputs, inputs }

/-- The engine with what it works on: the publish/subscribe engine and the ids
of the nodes in the address space. -/
structure Server where
  fx : Engine
  pubSub : PubSub.Engine
  nodes : List Bytes
deriving DecidableEq

def stageConfiguration (configuration : Configuration) (fx : Engine) : Except Bytes Engine :=
  if fx.started then throw (text "Fx: engine is already started")
  else pure { fx with staged := some configuration }

/-- What a start that fails has built does not matter: the server does not come up. -/
def startIfStaged (node : NodeLookup) (refusals : Refusals) (server : Server) :
    Except Bytes Server :=
  match server.fx.staged with
  | none => pure server
  | some configuration =>
      if server.fx.started then throw (text "Fx: engine is already started")
      else do
        let built ← configuration.entities.mapM (entityRuntime node)
        match buildModel refusals configuration (server.fx.entities ++ built) server.nodes with
        | .error error _ => throw error
        | .ok entities nodes =>
            pure
              { fx :=
                  { server.fx with staged := none, configuration, entities, started := true }
                pubSub := PubSub.ensureStarted server.pubSub
                nodes }

end Start

end Fx

end Supernova
