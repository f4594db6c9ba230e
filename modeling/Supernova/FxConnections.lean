/-
The connection services: how EstablishConnections checks a request, brings up
its data plane and its endpoint view, and how CloseConnections and the shutdown
take connections down.
-/
import Supernova.FxEngine
import Supernova.FxJsonTermination

namespace Supernova

namespace Fx

/-- Endpoint objects are permanent, so their number is limited. -/
def kMaxEndpointsPerEntity : Nat := 64

/-- Refuse a request that shows a fault. -/
def check (fault : Bool) (what : Bytes) : Except Bytes PUnit :=
  if fault then throw what else pure ⟨⟩

section Requests

abbrev Members := List (Bytes × JsonValue)

def member? (object : Members) (name : Bytes) : Option JsonValue :=
  (object.find? fun m => m.1 = name).map Prod.snd

def setMember (object : Members) (name : Bytes) (value : JsonValue) : Members :=
  OrderedMap.insertEntry name value object

def validateConnectionName (name : Bytes) : Except Bytes PUnit := do
  check name.isEmpty (text "'connectionName' must not be empty")
  check (decide (64 < name.length)) (text "'connectionName' must be at most 64 bytes")
  check (name.any fun c => c < 0x20 || c = 0x7F)
    (text "'connectionName' must not contain control characters")

def requireOnlyMembers (object : Members) (allowed : List Bytes) (context : Bytes) :
    Except Bytes PUnit :=
  match object.find? fun m => m.1 ∉ allowed with
  | some m => throw (text "unknown member '" ++ m.1 ++ text "' in " ++ context)
  | none => pure ⟨⟩

def requiredString (object : Members) (key : Bytes) : Except Bytes Bytes :=
  match member? object key with
  | none => throw (text "missing '" ++ key ++ text "'")
  | some (.string value) => pure value
  | some _ => throw (text "'" ++ key ++ text "' must be a string")

/-- The conversion of a nonnegative `double` that is small enough to an integer. -/
def truncated (value : Double) : UInt64 := UInt64.ofNat ⌊value.rational⌋.toNat

/-- The conversion of an integer to a `double`. -/
def asDouble (value : UInt64) : Double := Double.ofRational value.toNat

def requiredUnsigned (object : Members) (key : Bytes) (maximum : UInt64) :
    Except Bytes UInt64 :=
  match member? object key with
  | none => throw (text "missing '" ++ key ++ text "'")
  | some (.number value) =>
      if value.isNaN || decide (value.rational < 0) || exceeds value kJsonExactIntegerLimit ||
          !value.eq (asDouble (truncated value)) then
        throw (text "'" ++ key ++ text "' must be a non-negative integer (at most 2^53)")
      else if maximum < truncated value then
        throw (text "'" ++ key ++ text "' out of range (maximum " ++ decimal maximum.toNat ++
          text ")")
      else pure (truncated value)
  | some _ => throw (text "'" ++ key ++ text "' must be a number")

/-- The members of an object; anything else is refused. -/
def requireObject : JsonValue → Except Bytes Members
  | .object members => pure members
  | _ => throw (text "JSON value is not an object")

def statusDetail (status : EndpointStatus) (diagnostic : Bytes) : JsonValue :=
  let detail := setMember [] (text "status") (.string (endpointStatusName status))
  .object
    (if diagnostic.isEmpty then detail
    else setMember detail (text "diagnostic") (.string diagnostic))

/-- The wire coordinates of a publishing side. -/
structure Coordinates where
  publisherIdType : PubSub.PublisherIdType
  publisherId : UInt64
  writerGroupId : UInt16
  dataSetWriterId : UInt16
deriving DecidableEq, Repr

/-- The type of publisher id that a peer names; `UInt16` if it names none. -/
def peerIdType (peer : Members) : Except Bytes PubSub.PublisherIdType :=
  if hasMember peer (text "publisherIdType") then
    requiredString peer (text "publisherIdType") >>= PubSub.parsePublisherIdType
  else PubSub.parsePublisherIdType (text "UInt16")

/-- The checks on `peer`. -/
def readPeer (peer : JsonValue) : Except Bytes Coordinates :=
  match peer with
  | .object members => do
      requireOnlyMembers members
        [text "publisherId", text "publisherIdType", text "writerGroupId",
          text "dataSetWriterId"] (text "'peer'")
      let publisherIdType ← peerIdType members
      let publisherId ← requiredUnsigned members (text "publisherId")
        (PubSub.publisherIdMaximum publisherIdType)
      let writerGroupId ← requiredUnsigned members (text "writerGroupId") 0xFFFF
      let dataSetWriterId ← requiredUnsigned members (text "dataSetWriterId") 0xFFFF
      pure ⟨publisherIdType, publisherId, writerGroupId.toUInt16, dataSetWriterId.toUInt16⟩
  | _ => throw (text "'peer' must be an object")

end Requests

section Names

variable (fx : Engine)

def findEntity (name : Bytes) : Option EntityRuntime :=
  fx.entities.find? fun entity => entity.name = name

def findDataset (datasets : List DatasetRuntime) (name : Bytes) : Option DatasetRuntime :=
  datasets.find? fun dataset => dataset.name = name

/-- Empty if there is none. -/
def activeConnectionNameFor (entity : Bytes) (role : Role) (dataset : Bytes) : Bytes :=
  ((fx.endpoints.entries.find? fun entry => entry.2.active && entry.2.entity = entity &&
    entry.2.role = role && entry.2.dataset = dataset).map Prod.fst).getD []

def endpointCountOf (entityName : Bytes) : Nat :=
  fx.endpoints.entries.countP fun entry => entry.2.entity = entityName

def autoName (n : Nat) : Bytes := text "cep-" ++ decimal n

/-- A candidate that is fresh, or closed and of this entity. -/
def availableTo (entityName candidate : Bytes) : Bool :=
  candidate ∉ fx.poisonedNames &&
    match fx.endpoints.find? candidate with
    | none => true
    | some endpoint => !endpoint.active && endpoint.entity = entityName

def freshAutoName (entityName : Bytes) : Option Bytes :=
  if endpointCountOf fx entityName < kMaxEndpointsPerEntity then
    let bound := fx.endpoints.size + fx.poisonedNames.length + 1
    ((List.range bound).map fun n => autoName (n + 1)).find? (availableTo fx entityName)
  else none

/-- Reuse any closed endpoint when no new name can exist. -/
def firstFreeAutoName (entityName : Bytes) : Except Bytes Bytes :=
  match freshAutoName fx entityName with
  | some candidate => pure candidate
  | none =>
      match fx.endpoints.entries.find? fun entry =>
          !entry.2.active && entry.2.entity = entityName with
      | some entry => pure entry.1
      | none => throw (text "functional entity '" ++ entityName ++
          text "' reached its connection endpoint limit (" ++ decimal kMaxEndpointsPerEntity ++
          text ") and every endpoint is busy — close a connection first")

def connectionNameOf (request : Members) (entityName : Bytes) : Except Bytes Bytes :=
  match member? request (text "connectionName") with
  | none => firstFreeAutoName fx entityName
  | some (.string name) => do
      validateConnectionName name
      pure name
  | some _ => throw (text "'connectionName' must be a string")

/-- The endpoint to use again, if there is one under this name. -/
def existingEndpoint (entityName name : Bytes) : Except Bytes (Option Endpoint) :=
  if name ∈ fx.poisonedNames then
    throw (text "connection name '" ++ name ++ text "' is unusable: its endpoint " ++
      text "view was left half-created by an earlier failure (choose another name)")
  else
    match fx.endpoints.find? name with
    | some existing =>
        if existing.active then
          throw (text "connection '" ++ name ++ text "' is already established")
        else if existing.entity ≠ entityName then
          throw (text "connection name '" ++ name ++ text "' belongs to functional entity '" ++
            existing.entity ++ text "'")
        else pure (some existing)
    | none =>
        if kMaxEndpointsPerEntity ≤ endpointCountOf fx entityName then
          throw (text "functional entity '" ++ entityName ++
            text "' reached its connection endpoint limit (" ++ decimal kMaxEndpointsPerEntity ++
            text "); close and reuse an existing connection name")
        else pure none

def ownerTag (configuration : Configuration) (entityName name : Bytes) : Bytes :=
  text "fx:" ++ configuration.automationComponent ++ text "/" ++ entityName ++ text "/" ++ name

end Names

section Establish

/-- What an establish is about to bring up. -/
inductive DataPlane
  | publisher (dataset : DatasetRuntime) (group : PubSub.DynamicWriterGroup)
  | subscriber (reader : PubSub.DynamicReader)
deriving DecidableEq, Repr

/-- A request that has passed the checks made before anything changes. -/
structure Establishment where
  name : Bytes
  endpoint : Endpoint
  endpointsFolder : Bytes
  dataPlane : DataPlane
deriving DecidableEq, Repr

/-- The interval that the request asks for in place of the configured one. -/
def requestedInterval (request : Members) (configured : Double) : Except Bytes Double :=
  match member? request (text "publishingIntervalMs") with
  | none => pure configured
  | some (.number value) => do
      check (!acceptedInterval value)
        (text "'publishingIntervalMs' must be positive and at most 86400000 (one day)")
      pure value
  | some _ => throw (text "'publishingIntervalMs' must be a number")

/-- The time to live that the request asks for. -/
def requestedTtl (request : Members) : Except Bytes UInt8 :=
  if hasMember request (text "ttl") then do
    let ttl ← requiredUnsigned request (text "ttl") 255
    pure ttl.toUInt8
  else pure 1

def publisherDataPlane (entity : EntityRuntime) (request : Members) (datasetName host : Bytes)
    (port : UInt16) : Except Bytes DataPlane := do
  check (hasMember request (text "peer")) (text "'peer' applies to subscriber connections only")
  match findDataset entity.outputs datasetName with
  | none => throw (text "functional entity '" ++ entity.name ++ text "' has no output dataset '" ++
      datasetName ++ text "'")
  | some dataset =>
      let publishingIntervalMs ← requestedInterval request dataset.publishingIntervalMs
      let ttl ← requestedTtl request
      pure (.publisher dataset
        { id := dataset.writerGroupId
          dataSetWriterId := dataset.dataSetWriterId
          publishingIntervalMs
          fields := dataset.cacheVariables
          host
          port
          ttl })

def subscriberDataPlane (entity : EntityRuntime) (request : Members)
    (datasetName host : Bytes) (port : UInt16) (name : Bytes) : Except Bytes DataPlane := do
  check (hasMember request (text "publishingIntervalMs") || hasMember request (text "ttl"))
    (text "'publishingIntervalMs'/'ttl' apply to publisher connections only")
  match findDataset entity.inputs datasetName with
  | none => throw (text "functional entity '" ++ entity.name ++ text "' has no input dataset '" ++
      datasetName ++ text "'")
  | some dataset =>
      match member? request (text "peer") with
      | none => throw (text "subscriber connections need a 'peer' object " ++
          text "(the publishing side's wire coordinates)")
      | some peer =>
          let coordinates ← readPeer peer
          pure (.subscriber
            { publisherIdType := coordinates.publisherIdType
              publisherId := coordinates.publisherId
              writerGroupId := coordinates.writerGroupId
              dataSetWriterId := coordinates.dataSetWriterId
              targets := dataset.cacheVariables
              host
              port
              onFirstData := some name })

def dataPlaneFor (entity : EntityRuntime) (request : Members) (role : Role)
    (datasetName host : Bytes) (port : UInt16) (name : Bytes) : Except Bytes DataPlane :=
  match role with
  | .publisher => publisherDataPlane entity request datasetName host port
  | .subscriber => subscriberDataPlane entity request datasetName host port name

def parseRole (role : Bytes) : Except Bytes Role :=
  if role = text "publisher" then pure .publisher
  else if role = text "subscriber" then pure .subscriber
  else throw (text "role must be 'publisher' or 'subscriber'")

/-- The checks of an establish up to the activation of its data plane. -/
def prepareEstablish (fx : Engine) (requestJson : Bytes) : Except Bytes Establishment := do
  check (!fx.started) (text "FX is not active on this server")
  let request ← parseJsonObject requestJson >>= requireObject
  requireOnlyMembers request
    [text "functionalEntity", text "role", text "dataset", text "address",
      text "connectionName", text "publishingIntervalMs", text "ttl", text "peer"]
    (text "the connection configuration")
  let entityName ← requiredString request (text "functionalEntity")
  let role ← requiredString request (text "role")
  let datasetName ← requiredString request (text "dataset")
  let address ← requiredString request (text "address")
  match findEntity fx entityName with
  | none => throw (text "unknown functional entity '" ++ entityName ++ text "'")
  | some entity =>
      let role ← parseRole role
      let name ← connectionNameOf fx request entityName
      let existing ← existingEndpoint fx entityName name
      let busy := activeConnectionNameFor fx entityName role datasetName
      check (!busy.isEmpty) (text "dataset '" ++ datasetName ++
        text "' is already connected as '" ++ busy ++ text "' — close that connection first")
      let (host, port) ← PubSub.parseNetworkAddress address
      let tag := ownerTag fx.configuration entityName name
      let endpoint : Endpoint :=
        match existing with
        | none =>
            { entity := entityName, dataset := datasetName, role, address, ownerTag := tag }
        | some existing =>
            { existing with
              entity := entityName
              dataset := datasetName
              role
              address
              ownerTag := tag }
      let dataPlane ← dataPlaneFor entity request role datasetName host port name
      pure { name, endpoint, endpointsFolder := entity.endpointsFolder, dataPlane }

/-- What lies outside the engine during a call: what opening and binding the
socket throws, if it does, and how the address space answers. -/
structure Environment where
  socket : Option Bytes
  refusals : Refusals

/-- The data plane is activated first: this is the step that can fail. -/
def activate (configuration : Configuration) (socket : Option Bytes)
    (establishment : Establishment) (pubSub : PubSub.Engine) : Except Bytes PubSub.Engine :=
  let tag := establishment.endpoint.ownerTag
  match establishment.dataPlane with
  | .publisher _ group =>
      PubSub.addDynamicWriterGroup pubSub socket tag configuration.publisherIdType
        configuration.publisherId group
  | .subscriber reader => PubSub.addDynamicReader pubSub socket tag reader

/-- The view is built when the endpoint is established for the first time. -/
def buildEndpointView (refusals : Refusals) (establishment : Establishment) :
    Build Endpoint :=
  let endpoint := establishment.endpoint
  if endpoint.statusVariable.isSome then pure endpoint
  else do
    let endpointNode ← addObject refusals establishment.endpointsFolder establishment.name
    addVariable refusals endpointNode (text "Status")
    addVariable refusals endpointNode (text "Address")
    addVariable refusals endpointNode (text "Dataset")
    pure { endpoint with
      statusVariable := some .initial
      addressVariable := some []
      datasetVariable := some [] }

/-- Undo the data plane and give the name up; the nodes stay. -/
def abandon (establishment : Establishment) (nodes : List Bytes) (server : Server) : Server :=
  { fx :=
      { server.fx with
        poisonedNames := server.fx.poisonedNames.insert establishment.name }
    pubSub := PubSub.removeDynamic server.pubSub establishment.endpoint.ownerTag
    nodes }

def setEndpointStatus (endpoint : Endpoint) (status : EndpointStatus) : Endpoint :=
  { endpoint with statusVariable := endpoint.statusVariable.map fun _ => status }

/-- The display variables; a string value ends at its first NUL. -/
def refreshEndpointView (endpoint : Endpoint) : Endpoint :=
  { endpoint with
    addressVariable :=
      endpoint.addressVariable.map fun _ => endpoint.address.takeWhile (· ≠ 0)
    datasetVariable := endpoint.datasetVariable.map fun _ =>
      (roleName endpoint.role ++ text ":" ++ endpoint.entity ++ text "." ++
        endpoint.dataset).takeWhile (· ≠ 0) }

def storeEndpoint (name : Bytes) (endpoint : Endpoint) (fx : Engine) : Engine :=
  { fx with
    endpoints := fx.endpoints.assign name (refreshEndpointView { endpoint with active := true }) }

/-- First data may have arrived before the endpoint was stored. -/
def reconciledStatus (establishment : Establishment) (pubSub : PubSub.Engine) :
    EndpointStatus :=
  match establishment.dataPlane with
  | .publisher _ _ => .operational
  | .subscriber _ =>
      if PubSub.readerDataSeen pubSub establishment.endpoint.ownerTag then .operational
      else .preOperational

/-- The status of an endpoint in the table. -/
def showStatus (name : Bytes) (status : EndpointStatus) (fx : Engine) : Engine :=
  match fx.endpoints.find? name with
  | none => fx
  | some endpoint =>
      { fx with endpoints := fx.endpoints.assign name (setEndpointStatus endpoint status) }

def coordinatesOf (configuration : Configuration) (dataset : DatasetRuntime) : JsonValue :=
  let coordinates := setMember [] (text "publisherIdType")
    (.string (PubSub.publisherIdTypeName configuration.publisherIdType))
  let coordinates := setMember coordinates (text "publisherId")
    (.number (asDouble configuration.publisherId))
  let coordinates := setMember coordinates (text "writerGroupId")
    (.number (asDouble dataset.writerGroupId.toUInt64))
  .object (setMember coordinates (text "dataSetWriterId")
    (.number (asDouble dataset.dataSetWriterId.toUInt64)))

def establishedDetail (configuration : Configuration) (establishment : Establishment)
    (status : EndpointStatus) : JsonValue :=
  let detail := setMember [] (text "status") (.string (endpointStatusName status))
  let detail := setMember detail (text "address") (.string establishment.endpoint.address)
  match establishment.dataPlane with
  | .publisher dataset _ =>
      .object (setMember detail (text "coordinates") (coordinatesOf configuration dataset))
  | .subscriber _ => .object detail

/-- What a call returns. -/
inductive Outcome
  | good (connectionId detail : Bytes)
  | badInvalidArgument (detail : Bytes)
deriving DecidableEq, Repr

/-- The detail of a refused call; a document of strings can always be written. -/
def refusal (what : Bytes) : Outcome :=
  match serializeValue (statusDetail .error what) with
  | .ok detail => .badInvalidArgument detail
  | .error _ => .badInvalidArgument []

def establishConnections (environment : Environment) (requestJson : Bytes) (server : Server) :
    Server × Outcome :=
  match prepareEstablish server.fx requestJson with
  | .error what => (server, refusal what)
  | .ok establishment =>
      match activate server.fx.configuration environment.socket establishment
          server.pubSub with
      | .error what => (server, refusal what)
      | .ok pubSub =>
          match buildEndpointView environment.refusals establishment server.nodes with
          | .error what nodes =>
              (abandon establishment nodes { server with pubSub }, refusal what)
          | .ok endpoint nodes =>
              let status := reconciledStatus establishment pubSub
              let fx := showStatus establishment.name status
                (storeEndpoint establishment.name endpoint server.fx)
              let detail := serializeValue
                (establishedDetail server.fx.configuration establishment status)
              match detail with
              | .error what => (⟨fx, pubSub, nodes⟩, refusal what)
              | .ok detail => (⟨fx, pubSub, nodes⟩, .good establishment.name detail)

end Establish

section Close

/-- The bare connection id or a JSON object; a known name always wins verbatim. -/
def requestedId (fx : Engine) (requestText : Bytes) : Except Bytes Bytes :=
  if !fx.endpoints.contains requestText && requestText.head? = some 123 then do
    let request ← parseJsonObject requestText >>= requireObject
    requireOnlyMembers request [text "connectionId"] (text "the close request")
    requiredString request (text "connectionId")
  else pure requestText

/-- The connection to close. -/
def closeTarget (fx : Engine) (requestText : Bytes) : Except Bytes (Bytes × Endpoint) := do
  check (!fx.started) (text "FX is not active on this server")
  let name ← requestedId fx requestText
  check name.isEmpty (text "empty connectionId")
  match fx.endpoints.find? name with
  | none => throw (text "unknown connection '" ++ name ++ text "'")
  | some endpoint => do
      check (!endpoint.active) (text "connection '" ++ name ++ text "' is not established")
      pure (name, endpoint)

/-- What a closed endpoint is left as. -/
def closed (endpoint : Endpoint) : Endpoint :=
  setEndpointStatus { endpoint with active := false } .initial

/-- The data plane of an endpoint is taken down, the endpoint stays. -/
def takeDown (name : Bytes) (endpoint : Endpoint) (server : Server) : Server :=
  { server with
    fx := { server.fx with endpoints := server.fx.endpoints.assign name (closed endpoint) }
    pubSub := PubSub.removeDynamic server.pubSub endpoint.ownerTag }

def closeConnections (requestText : Bytes) (server : Server) : Server × Outcome :=
  match closeTarget server.fx requestText with
  | .error what => (server, refusal what)
  | .ok (name, endpoint) =>
      match serializeValue (statusDetail .initial []) with
      | .error what => (takeDown name endpoint server, refusal what)
      | .ok detail => (takeDown name endpoint server, .good [] detail)

/-- One turn of the loop of `shutdown`. -/
def shutdownEndpoint (server : Server) (entry : Bytes × Endpoint) : Server :=
  if entry.2.active then takeDown entry.1 entry.2 server else server

def shutdown (server : Server) : Server :=
  if !server.fx.started then server
  else
    let stopped := server.fx.endpoints.entries.foldl shutdownEndpoint server
    { stopped with fx := { stopped.fx with started := false } }

end Close

/-- The callback of a reader, on the io thread: without the lock it changes
nothing and asks to be called again. -/
def markSubscriberOperational (lockFree : Bool) (connectionName : Bytes) (fx : Engine) :
    Engine × Bool :=
  if !lockFree then (fx, false)
  else
    match fx.endpoints.find? connectionName with
    | none => (fx, true)
    | some endpoint =>
        if !endpoint.active || endpoint.role ≠ .subscriber then (fx, true)
        else (showStatus connectionName .operational fx, true)

end Fx

end Supernova
