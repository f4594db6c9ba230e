/-
The publish/subscribe engine at run time: writer groups, readers and the
receivers they share, the entities added and removed by owner tag, and what a
received datagram does to the readers.
-/
import Supernova.OrderedMap
import Supernova.PubSubConfiguration

namespace Supernova

namespace PubSub

section Values

/-- The scalar values of a variant that the engine can write. -/
inductive UaScalar where
  | boolean (v : Bool)
  | sByte (v : Int8)
  | byte (v : UInt8)
  | int16 (v : Int16)
  | uInt16 (v : UInt16)
  | int32 (v : Int32)
  | uInt32 (v : UInt32)
  | int64 (v : Int64)
  | uInt64 (v : UInt64)
  | float (v : Single)
  | double (v : Double)
  | string (v : Bytes)
deriving DecidableEq, Repr

/-- `other` is a value of any type that the engine has no case for, such as a
DateTime, a structure or a matrix. -/
inductive UaVariant where
  | null
  | scalar (v : UaScalar)
  | array (type : BuiltinType) (elements : List UaScalar)
  | other
deriving DecidableEq, Repr

/-- How the value of a wire type becomes a scalar; a string ends at its first
NUL, as `UaString` reads a C string. -/
def uaScalar : BuiltinType → Option (WireValue → UaScalar)
  | .boolean => some fun v => .boolean v.boolValue
  | .sByte => some fun v => .sByte v.int.toInt8
  | .byte => some fun v => .byte v.uint.toUInt8
  | .int16 => some fun v => .int16 v.int.toInt16
  | .uInt16 => some fun v => .uInt16 v.uint.toUInt16
  | .int32 => some fun v => .int32 v.int.toInt32
  | .uInt32 => some fun v => .uInt32 v.uint.toUInt32
  | .int64 => some fun v => .int64 v.int
  | .uInt64 => some fun v => .uInt64 v.uint
  | .float => some fun v => .float v.float.toSingle
  | .double => some fun v => .double v.float
  | .string => some fun v => .string (v.string.takeWhile (· ≠ 0))
  | .null | .dateTime | .unnamed _ _ => none

/-- `wireToUaVariant`; a single SByte is not supported, an array of them is. -/
def wireToUaVariant (value : WireValue) : Option UaVariant :=
  if value.isArray then
    (uaScalar value.type).map fun element => .array value.type (value.elements.map element)
  else if value.type = .sByte then none
  else (uaScalar value.type).map fun scalar => .scalar (scalar value)

end Values

/-- The value of a positive double; a NaN is not positive. -/
def isPositive (d : Double) : Bool :=
  !d.isNaN && !d.negative && d.magnitude ≠ 0

structure DynamicWriterGroup where
  id : UInt16
  dataSetWriterId : UInt16
  publishingIntervalMs : Double
  fields : List Nat
  host : Bytes
  port : UInt16
  ttl : UInt8 := 1
  loopback : Bool := true
deriving DecidableEq, Repr

/-- `onFirstData` is what the callback captures, the name of a connection. -/
structure DynamicReader where
  publisherIdType : PublisherIdType
  publisherId : UInt64
  writerGroupId : UInt16
  dataSetWriterId : UInt16
  targets : List Nat
  host : Bytes
  port : UInt16
  onFirstData : Option Bytes
deriving DecidableEq, Repr

structure WriterRuntime where
  id : UInt16
  sequenceNumber : UInt16
  fieldVariables : List Nat
deriving DecidableEq, Repr

structure UdpTransmitter where
  host : Bytes
  port : UInt16
  ttl : UInt8
  loopback : Bool
deriving DecidableEq, Repr

/-- An empty owner tag marks what was configured at startup. -/
structure WriterGroupRuntime where
  id : UInt16
  publishingIntervalMs : Double
  sequenceNumber : UInt16
  publisherIdType : PublisherIdType
  publisherId : UInt64
  ownerTag : Bytes
  transmitter : UdpTransmitter
  writers : List WriterRuntime
deriving DecidableEq, Repr

structure ReaderRuntime where
  publisherIdType : PublisherIdType
  publisherId : UInt64
  writerGroupId : UInt16
  dataSetWriterId : UInt16
  ownerTag : Bytes
  host : Bytes
  port : UInt16
  targets : List Nat
  onFirstData : Option Bytes
  firstDataSignalled : Bool
  dataSeen : Bool
deriving DecidableEq, Repr

/-- A receiver in use; the last release erases its entry. -/
structure ReceiverEntry where
  useCount : Nat
  used : 0 < useCount
deriving DecidableEq, Repr

structure ReceiverKey where
  host : Bytes
  port : UInt16
deriving DecidableEq, Repr

structure ReaderKey where
  publisherId : UInt64
  writerGroupId : UInt16
  dataSetWriterId : UInt16
deriving DecidableEq, Repr

/-- Pairs of a string and a number; the string is closed by a zero. -/
instance : MapKey ReceiverKey where
  sortKey key := key.host.map (fun b => b.toNat + 1) ++ [0, key.port.toNat]
  sortKey_injective := by
    rintro ⟨host, port⟩ ⟨host', port'⟩ h
    simp only at h
    induction host generalizing host' with
    | nil =>
        rcases host' with _ | ⟨b, host'⟩
        · simpa [UInt16.toNat_inj] using h
        · simp at h
    | cons b host ih =>
        rcases host' with _ | ⟨b', host'⟩
        · simp at h
        · simp only [List.map_cons, List.cons_append, List.cons.injEq, Nat.add_right_cancel_iff,
            UInt8.toNat_inj] at h
          have htail := ih host' h.2
          simp only [ReceiverKey.mk.injEq] at htail ⊢
          exact ⟨by rw [h.1, htail.1], htail.2⟩

instance : MapKey ReaderKey where
  sortKey key := [key.publisherId.toNat, key.writerGroupId.toNat, key.dataSetWriterId.toNat]
  sortKey_injective := by
    rintro ⟨publisherId, writerGroupId, dataSetWriterId⟩ ⟨publisherId', writerGroupId',
      dataSetWriterId'⟩ h
    simpa [UInt64.toNat_inj, UInt16.toNat_inj] using h

structure Engine where
  running : Bool
  writerGroups : List WriterGroupRuntime
  receivers : OrderedMap ReceiverKey ReceiverEntry
  readers : OrderedMap ReaderKey ReaderRuntime
deriving DecidableEq

/-- `socket` is what opening and binding a new socket throws, if it does. -/
def acquireReceiver (receivers : OrderedMap ReceiverKey ReceiverEntry) (socket : Option Bytes)
    (key : ReceiverKey) : Except Bytes (OrderedMap ReceiverKey ReceiverEntry) :=
  match receivers.find? key with
  | some entry => pure (receivers.assign key ⟨entry.useCount + 1, Nat.succ_pos _⟩)
  | none =>
      match socket with
      | some error => throw error
      | none => pure (receivers.assign key ⟨1, Nat.one_pos⟩)

def releaseReceiver (receivers : OrderedMap ReceiverKey ReceiverEntry) (key : ReceiverKey) :
    OrderedMap ReceiverKey ReceiverEntry :=
  match receivers.find? key with
  | none => receivers
  | some entry =>
      if h : 0 < entry.useCount - 1 then receivers.assign key ⟨entry.useCount - 1, h⟩
      else receivers.erase key

/-- The group is active already: same wire coordinates. -/
def collides (publisherIdType : PublisherIdType) (publisherId : UInt64) (id : UInt16)
    (group : WriterGroupRuntime) : Bool :=
  group.id = id && group.publisherId = publisherId && group.publisherIdType = publisherIdType

def newWriterGroup (ownerTag : Bytes) (publisherIdType : PublisherIdType) (publisherId : UInt64)
    (group : DynamicWriterGroup) : WriterGroupRuntime :=
  { id := group.id
    publishingIntervalMs := group.publishingIntervalMs
    sequenceNumber := 0
    publisherIdType
    publisherId
    ownerTag
    transmitter := ⟨group.host, group.port, group.ttl, group.loopback⟩
    writers := [⟨group.dataSetWriterId, 0, group.fields⟩] }

def addDynamicWriterGroup (e : Engine) (socket : Option Bytes) (ownerTag : Bytes)
    (publisherIdType : PublisherIdType) (publisherId : UInt64) (group : DynamicWriterGroup) :
    Except Bytes Engine :=
  if !e.running then throw (text "PubSub: engine is not running")
  else if group.fields.isEmpty then
    throw (text "PubSub: dynamic writer group without fields")
  else if !isPositive group.publishingIntervalMs then
    throw (text "PubSub: publishing interval must be positive")
  else if e.writerGroups.any (collides publisherIdType publisherId group.id) then
    throw (text "PubSub: writer group " ++ decimal group.id.toNat ++ text " of publisher " ++
      decimal publisherId.toNat ++ text " is already active")
  else
    match socket with
    | some error => throw error
    | none => pure
        { e with
          writerGroups :=
            e.writerGroups ++ [newWriterGroup ownerTag publisherIdType publisherId group] }

def DynamicReader.key (reader : DynamicReader) : ReaderKey :=
  ⟨reader.publisherId, reader.writerGroupId, reader.dataSetWriterId⟩

def ReaderRuntime.endpoint (reader : ReaderRuntime) : ReceiverKey :=
  ⟨reader.host, reader.port⟩

def newReader (ownerTag : Bytes) (reader : DynamicReader) : ReaderRuntime :=
  { publisherIdType := reader.publisherIdType
    publisherId := reader.publisherId
    writerGroupId := reader.writerGroupId
    dataSetWriterId := reader.dataSetWriterId
    ownerTag
    host := reader.host
    port := reader.port
    targets := reader.targets
    onFirstData := reader.onFirstData
    firstDataSignalled := false
    dataSeen := false }

def addDynamicReader (e : Engine) (socket : Option Bytes) (ownerTag : Bytes)
    (reader : DynamicReader) : Except Bytes Engine :=
  if !e.running then throw (text "PubSub: engine is not running")
  else if reader.targets.isEmpty then throw (text "PubSub: dynamic reader without targets")
  else if e.readers.contains reader.key then
    throw (text "PubSub: a reader for publisher " ++ decimal reader.publisherId.toNat ++
      text ", writer group " ++ decimal reader.writerGroupId.toNat ++
      text ", data set writer " ++ decimal reader.dataSetWriterId.toNat ++
      text " is already active")
  else do
    let receivers ← acquireReceiver e.receivers socket ⟨reader.host, reader.port⟩
    pure { e with
      receivers := receivers
      readers := e.readers.assign reader.key (newReader ownerTag reader) }

/-- One turn of the reader loop of `removeDynamic`. -/
def removeReader (ownerTag : Bytes) (e : Engine) (entry : ReaderKey × ReaderRuntime) : Engine :=
  if entry.2.ownerTag = ownerTag then
    { e with
      receivers := releaseReceiver e.receivers entry.2.endpoint
      readers := e.readers.erase entry.1 }
  else e

def removeDynamic (e : Engine) (ownerTag : Bytes) : Engine :=
  if !e.running then e
  else
    e.readers.entries.foldl (removeReader ownerTag)
      { e with writerGroups := e.writerGroups.filter fun group => group.ownerTag ≠ ownerTag }

def readerDataSeen (e : Engine) (ownerTag : Bytes) : Bool :=
  e.running && e.readers.entries.any fun entry =>
    entry.2.ownerTag = ownerTag && entry.2.dataSeen

def shutdown (e : Engine) : Engine :=
  if !e.running then e
  else { running := false, writerGroups := [], receivers := .empty, readers := .empty }

section Datagrams

/-- What a datagram makes the engine do: values written to variables, in order,
and callbacks invoked. -/
inductive Reaction where
  | write (target : Nat) (value : UaVariant)
  | firstData (connectionName : Bytes)
deriving DecidableEq, Repr

def messageKey (message : NetworkMessage) (dsm : DataSetMessage) : ReaderKey :=
  ⟨message.publisherId, if message.writerGroupIdEnabled then message.writerGroupId else 0,
    dsm.dataSetWriterId⟩

/-- The fields for which there are targets, where they can be converted. -/
def writes (fields : List WireValue) (targets : List Nat) : List Reaction :=
  (fields.zip targets).filterMap fun pair => (wireToUaVariant pair.1).map (.write pair.2)

/-- A reader that the fields of a DataSetMessage are applied to; `signalled` is
what its callback returns. -/
def applyMessage (signalled : Bool) (fields : List WireValue) (reader : ReaderRuntime) :
    ReaderRuntime × List Reaction :=
  if min fields.length reader.targets.length = 0 then (reader, [])
  else
    match reader.onFirstData with
    | none => ({ reader with dataSeen := true }, writes fields reader.targets)
    | some connectionName =>
        if reader.firstDataSignalled then
          ({ reader with dataSeen := true }, writes fields reader.targets)
        else
          ({ reader with dataSeen := true, firstDataSignalled := signalled },
            writes fields reader.targets ++ [.firstData connectionName])

/-- The message loop of `handleDatagram`; `signalled` tells what a callback
returns in each of its turns.  Each reaction is given with its reader. -/
def handleMessages (signalled : Nat → Bool) (message : NetworkMessage) :
    Nat → List DataSetMessage → OrderedMap ReaderKey ReaderRuntime →
      OrderedMap ReaderKey ReaderRuntime × List (ReaderKey × Reaction)
  | _, [], readers => (readers, [])
  | m, dsm :: messages, readers =>
      if dsm.keepAlive then handleMessages signalled message (m + 1) messages readers
      else
        match readers.find? (messageKey message dsm) with
        | none => handleMessages signalled message (m + 1) messages readers
        | some reader =>
            let applied := applyMessage (signalled m) dsm.fields reader
            let rest := handleMessages signalled message (m + 1) messages
              (readers.assign (messageKey message dsm) applied.1)
            (rest.1, applied.2.map (fun reaction => (messageKey message dsm, reaction)) ++ rest.2)

def handleDatagram (e : Engine) (signalled : Nat → Bool) (data : Bytes) :
    Engine × List (ReaderKey × Reaction) :=
  match decodeDatagram data with
  | .error _ _ => (e, [])
  | .ok message _ =>
      let handled := handleMessages signalled message 0 message.messages e.readers
      ({ e with readers := handled.1 }, handled.2)

/-- A datagram arrives at a receiver, whose handler is `handleDatagram`. -/
def receive (e : Engine) (endpoint : ReceiverKey) (signalled : Nat → Bool) (data : Bytes) :
    Engine × List (ReaderKey × Reaction) :=
  if e.receivers.contains endpoint then handleDatagram e signalled data else (e, [])

end Datagrams

end PubSub

end Supernova
