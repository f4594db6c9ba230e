/-
The publish/subscribe engine on its io thread: the objects that handlers keep
alive, the timers and sockets that are under way, and the completions in the
queue of the thread.  A call of the dynamic API runs as a task between two
handlers; between a call and its task other handlers may run.
-/
import Supernova.AsyncOperations
import Supernova.PubSubStart

namespace Supernova

namespace PubSub

namespace IoThread

/-- A writer group object; `stopped` is set when it is removed. -/
structure GroupObject where
  runtime : WriterGroupRuntime
  stopped : Bool

/-- A `UdpReceiver`. -/
structure ReceiverObject where
  endpoint : ReceiverKey
  isOpen : Bool

/-- A receiver in use, by the number of its object. -/
structure ReceiverEntry where
  receiver : Nat
  useCount : Nat
  used : 0 < useCount

/-- `async_wait` on the timer of a group, `async_receive_from` on the socket of a
receiver; both by the number of the object that the handler holds. -/
inductive Operation where
  | wait (group : Nat)
  | receiveFrom (receiver : Nat)
deriving DecidableEq

/-- How an operation that was not aborted ends. -/
inductive Outcome where
  | expired
  | failed
  | datagram (data : Bytes)
deriving DecidableEq

/-- Objects are numbered in the order of their creation.  Handlers refer to them
after the tables have let go of them. -/
structure State where
  running : Bool
  groups : List GroupObject
  receiverObjects : List ReceiverObject
  writerGroups : List Nat
  receivers : OrderedMap ReceiverKey ReceiverEntry
  readers : OrderedMap ReaderKey ReaderRuntime
  io : IoContext Operation Outcome

/-- An exception leaves the state that was reached. -/
abbrev Task := EStateM Bytes State

def State.initial : State := ⟨false, [], [], [], .empty, .empty, .empty⟩

section Timers

/-- Setting the time of expiry cancels what is waiting on the timer. -/
def scheduleGroup (s : State) (group : Nat) : State :=
  { s with io := (s.io.cancel (.wait group)).initiate (.wait group) }

/-- `stopped = true; timer->cancel()` -/
def stopGroup (s : State) (group : Nat) : State :=
  { s with
    groups := s.groups.modify group fun object => { object with stopped := true }
    io := s.io.cancel (.wait group) }

def newGroup (runtime : WriterGroupRuntime) : Task Nat := do
  let s ← get
  modify fun s => { s with groups := s.groups ++ [⟨runtime, false⟩] }
  pure s.groups.length

def pushWriterGroup (s : State) (group : Nat) : State :=
  { s with writerGroups := s.writerGroups ++ [group] }

end Timers

section Receivers

def armReceive (s : State) (receiver : Nat) : State :=
  { s with io := s.io.initiate (.receiveFrom receiver) }

/-- Closing the socket. -/
def stopReceiver (s : State) (receiver : Nat) : State :=
  { s with
    receiverObjects := s.receiverObjects.modify receiver fun object =>
      { object with isOpen := false }
    io := s.io.cancel (.receiveFrom receiver) }

/-- `socket` is what opening and binding the socket throws, if it does. -/
def newReceiver (socket : Option Bytes) (endpoint : ReceiverKey) : Task Nat :=
  match socket with
  | some error => throw error
  | none => do
      let s ← get
      modify fun s => { s with receiverObjects := s.receiverObjects ++ [⟨endpoint, true⟩] }
      pure s.receiverObjects.length

def assignReceiver (s : State) (endpoint : ReceiverKey) (entry : ReceiverEntry) : State :=
  { s with receivers := s.receivers.assign endpoint entry }

def acquireReceiver (socket : Option Bytes) (endpoint : ReceiverKey) (armImmediately : Bool) :
    Task Unit := do
  let s ← get
  match s.receivers.find? endpoint with
  | some entry =>
      set (assignReceiver s endpoint
        ⟨entry.receiver, entry.useCount + 1, Nat.succ_pos _⟩)
  | none => do
      let receiver ← newReceiver socket endpoint
      modify fun s => if armImmediately then armReceive s receiver else s
      modify fun s => assignReceiver s endpoint ⟨receiver, 1, Nat.one_pos⟩

def releaseReceiver (s : State) (endpoint : ReceiverKey) : State :=
  match s.receivers.find? endpoint with
  | none => s
  | some entry =>
      if h : 0 < entry.useCount - 1 then
        assignReceiver s endpoint ⟨entry.receiver, entry.useCount - 1, h⟩
      else
        { stopReceiver s entry.receiver with receivers := s.receivers.erase endpoint }

end Receivers

section DynamicEntities

/-- An active group with these wire coordinates. -/
def active (s : State) (publisherIdType : PublisherIdType) (publisherId : UInt64) (id : UInt16)
    (group : Nat) : Bool :=
  (s.groups[group]?).any fun object => collides publisherIdType publisherId id object.runtime

/-- `socket` is what the transmitter throws, if it does.  The object is numbered
when it is committed: one that is not goes with the exception. -/
def addDynamicWriterGroup (socket : Option Bytes) (ownerTag : Bytes)
    (publisherIdType : PublisherIdType) (publisherId : UInt64) (group : DynamicWriterGroup) :
    Task Unit := do
  let s ← get
  if !s.running then throw (text "PubSub: engine is not running")
  else if group.fields.isEmpty then
    throw (text "PubSub: dynamic writer group without fields")
  else if !isPositive group.publishingIntervalMs then
    throw (text "PubSub: publishing interval must be positive")
  else if s.writerGroups.any (active s publisherIdType publisherId group.id) then
    throw (text "PubSub: writer group " ++ decimal group.id.toNat ++ text " of publisher " ++
      decimal publisherId.toNat ++ text " is already active")
  else
    match socket with
    | some error => throw error
    | none => do
        let runtime ← newGroup (newWriterGroup ownerTag publisherIdType publisherId group)
        modify fun s => pushWriterGroup s runtime
        modify fun s => scheduleGroup s runtime

/-- The reader is committed after its receiver is up. -/
def addDynamicReader (socket : Option Bytes) (ownerTag : Bytes) (reader : DynamicReader) :
    Task Unit := do
  let s ← get
  if !s.running then throw (text "PubSub: engine is not running")
  else if reader.targets.isEmpty then throw (text "PubSub: dynamic reader without targets")
  else if s.readers.contains reader.key then
    throw (text "PubSub: a reader for publisher " ++ decimal reader.publisherId.toNat ++
      text ", writer group " ++ decimal reader.writerGroupId.toNat ++
      text ", data set writer " ++ decimal reader.dataSetWriterId.toNat ++
      text " is already active")
  else do
    acquireReceiver socket ⟨reader.host, reader.port⟩ true
    modify fun s => { s with
      readers := s.readers.assign reader.key (newReader ownerTag reader) }

/-- One turn of the group loop of `removeDynamic`. -/
def removeGroup (ownerTag : Bytes) (s : State) (group : Nat) : State :=
  if (s.groups[group]?).any fun object => object.runtime.ownerTag = ownerTag then
    { stopGroup s group with writerGroups := s.writerGroups.filter fun other => other ≠ group }
  else s

/-- One turn of the reader loop of `removeDynamic`. -/
def removeReader (ownerTag : Bytes) (s : State) (entry : ReaderKey × ReaderRuntime) : State :=
  if entry.2.ownerTag = ownerTag then
    let s := releaseReceiver s entry.2.endpoint
    { s with readers := s.readers.erase entry.1 }
  else s

def removeDynamic (s : State) (ownerTag : Bytes) : State :=
  if !s.running then s
  else
    s.readers.entries.foldl (removeReader ownerTag)
      (s.writerGroups.foldl (removeGroup ownerTag) s)

end DynamicEntities

section Lifecycle

variable (surroundings : Surroundings) (configuration : Configuration)

/-- One turn of the group loop of `buildRuntimes`. -/
def buildWriterGroup (connection : ConnectionConfig) (group : WriterGroupConfig) : Task Unit := do
  let runtime ← ofExcept (groupRuntime surroundings configuration connection group)
  let group ← newGroup runtime
  modify fun s => pushWriterGroup s group

/-- One turn of the reader loop. -/
def buildReader (connection : ConnectionConfig) (reader : DataSetReaderConfig) : Task Unit := do
  let targets ← ofExcept (reader.targets.mapM (resolveVariable surroundings))
  let key : ReaderKey := ⟨reader.publisherId, reader.writerGroupId, reader.dataSetWriterId⟩
  let s ← get
  if s.readers.contains key then
    throw (text "PubSub: duplicate DataSetReader (publisherId/writerGroupId/dataSetWriterId)")
  else do
    let runtime : ReaderRuntime :=
      { publisherIdType := reader.publisherIdType
        publisherId := reader.publisherId
        writerGroupId := reader.writerGroupId
        dataSetWriterId := reader.dataSetWriterId
        ownerTag := []
        host := connection.host
        port := connection.port
        targets
        onFirstData := none
        firstDataSignalled := false
        dataSeen := false }
    set { s with readers := s.readers.assign key runtime }
    let endpoint : ReceiverKey := ⟨connection.host, connection.port⟩
    acquireReceiver (surroundings.receiver endpoint) endpoint false

def buildConnection (connection : ConnectionConfig) : Task Unit := do
  connection.writerGroups.forM (buildWriterGroup surroundings configuration connection)
  connection.readers.forM (buildReader surroundings connection)

/-- What was built is scheduled and armed before the thread starts. -/
def armAll (s : State) : State :=
  let s := s.writerGroups.foldl scheduleGroup s
  let s := s.receivers.entries.foldl (fun s entry => armReceive s entry.2.receiver) s
  { s with running := true }

/-- `startIfStaged` with this configuration staged. -/
def startStaged : Task Unit := do
  let s ← get
  if s.running then throw (text "PubSub: engine is already running")
  else do
    set { s with io := .empty }
    configuration.connections.forM (buildConnection surroundings configuration)
    modify armAll

def ensureStarted (s : State) : State :=
  if s.running then s else { s with io := .empty, running := true }

/-- The io thread is stopped and joined after the task that stops groups and
receivers; what is left in its queue goes with the context. -/
def shutdown (s : State) : State :=
  if !s.running then s
  else
    let s := s.writerGroups.foldl stopGroup s
    let s := s.receivers.entries.foldl (fun s entry => stopReceiver s entry.2.receiver) s
    { s with
      io := .empty
      writerGroups := []
      receivers := .empty
      readers := .empty
      running := false }

end Lifecycle

section Handlers

/-- What is seen outside: a message that a group object sends, a reaction of a
reader in the table. -/
inductive Effect where
  | published (group : Nat) (message : NetworkMessage)
  | reacted (key : ReaderKey) (reaction : Reaction)

/-- The handler of `async_wait`. -/
def waitCompleted (s : State) (sample : Nat → Nat → Nat → Option UaVariant) (group : Nat)
    (outcome : Option Outcome) : State × List Effect :=
  match outcome, s.groups[group]? with
  | some _, some object =>
      if object.stopped then (s, [])
      else
        let cycle := publishGroup sample object.runtime
        (scheduleGroup
            { s with groups := s.groups.set group { object with runtime := cycle.1 } } group,
          [.published group cycle.2])
  | _, _ => (s, [])

def handleDatagram (s : State) (signalled : Nat → Bool) (data : Bytes) : State × List Effect :=
  match decodeDatagram data with
  | .error _ _ => (s, [])
  | .ok message _ =>
      let handled := handleMessages signalled message 0 message.messages s.readers
      ({ s with readers := handled.1 }, handled.2.map fun reaction => .reacted reaction.1 reaction.2)

/-- The handler of `async_receive_from`. -/
def receiveCompleted (s : State) (signalled : Nat → Bool) (receiver : Nat)
    (outcome : Option Outcome) : State × List Effect :=
  match outcome, s.receiverObjects[receiver]? with
  | some outcome, some object =>
      if !object.isOpen then (s, [])
      else
        match outcome with
        | .datagram data =>
            if 0 < data.length then
              let handled := handleDatagram s signalled data
              (armReceive handled.1 receiver, handled.2)
            else (armReceive s receiver, [])
        | _ => (armReceive s receiver, [])
  | _, _ => (s, [])

/-- What a handler finds when it runs: the values of variables, and what callbacks
return. -/
structure Moment where
  sample : Nat → Nat → Nat → Option UaVariant
  signalled : Nat → Bool

def complete (s : State) (moment : Moment) : Operation × Option Outcome → State × List Effect
  | (.wait group, outcome) => waitCompleted s moment.sample group outcome
  | (.receiveFrom receiver, outcome) => receiveCompleted s moment.signalled receiver outcome

end Handlers

/-- What happens to the engine: calls, timers that expire, what a socket receives,
and the handler of a queued completion. -/
inductive Event where
  | start (surroundings : Surroundings) (configuration : Configuration)
  | ensureStarted
  | addWriterGroup (socket : Option Bytes) (ownerTag : Bytes)
      (publisherIdType : PublisherIdType) (publisherId : UInt64) (group : DynamicWriterGroup)
  | addReader (socket : Option Bytes) (ownerTag : Bytes) (reader : DynamicReader)
  | remove (ownerTag : Bytes)
  | shutdown
  | expire (group : Nat)
  | fail (receiver : Nat)
  | arrive (receiver : Nat) (data : Bytes)
  | complete (position : Nat) (moment : Moment)

/-- The state that a task leaves behind, whether it returned or threw. -/
def left (result : EStateM.Result Bytes State Unit) : State :=
  match result with
  | .ok _ s => s
  | .error _ s => s

/-- A step and what is seen of it.  A start that throws aborts the startup of the
server, and an event that cannot happen now ends the run. -/
def act (s : State) : Event → Option (State × List Effect)
  | .start surroundings configuration =>
      match startStaged surroundings configuration s with
      | .ok _ s' => some (s', [])
      | .error _ _ => none
  | .ensureStarted => some (ensureStarted s, [])
  | .addWriterGroup socket ownerTag publisherIdType publisherId group =>
      some (left (addDynamicWriterGroup socket ownerTag publisherIdType publisherId group s), [])
  | .addReader socket ownerTag reader => some (left (addDynamicReader socket ownerTag reader s), [])
  | .remove ownerTag => some (removeDynamic s ownerTag, [])
  | .shutdown => some (shutdown s, [])
  | .expire group => (s.io.finish (.wait group) .expired).map fun io => ({ s with io }, [])
  | .fail receiver => (s.io.finish (.receiveFrom receiver) .failed).map fun io => ({ s with io }, [])
  | .arrive receiver data =>
      (s.io.finish (.receiveFrom receiver) (.datagram data)).map fun io => ({ s with io }, [])
  | .complete position moment =>
      (s.io.take position).map fun taken => complete { s with io := taken.2 } moment taken.1

def step (s : State) (event : Event) : Option State :=
  (act s event).map Prod.fst

/-- What is seen of an event. -/
def effects (s : State) (event : Event) : List Effect :=
  match act s event with
  | none => []
  | some (_, seen) => seen

end IoThread

end PubSub

end Supernova
