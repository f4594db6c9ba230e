/-
The two threads of the FX engine, step by step: the io thread handles datagrams,
publishes, and calls readers back; the service thread establishes and closes
connections under the engine lock.  What the service thread posts to the io
thread is executed while that has no datagram in hand.
-/
import Supernova.FxEndpoints
import Supernova.Trace

namespace Supernova

namespace Fx

section State

inductive Call
  | establish (environment : Environment) (requestJson : Bytes)
  | close (requestText : Bytes)

/-- Where the service thread is; every point but `idle` is under the lock. -/
inductive ServicePoint
  | idle
  | preparing (environment : Environment) (requestJson : Bytes)
  | activating (environment : Environment) (establishment : Establishment)
  | viewing (environment : Environment) (establishment : Establishment)
  | abandoning (establishment : Establishment) (what : Bytes)
  | storing (establishment : Establishment) (endpoint : Endpoint)
  | reconciling (establishment : Establishment)
  | showing (establishment : Establishment) (status : EndpointStatus)
  | closing (requestText : Bytes)
  | removing (name : Bytes) (endpoint : Endpoint)
  /-- The readers that were removed are gone. -/
  | clearing (name : Bytes) (endpoint : Endpoint)
      (gone : List (PubSub.ReaderKey × PubSub.ReaderRuntime))
  | returning (outcome : Outcome)

/-- Where the io thread is: between handlers, before a message of a datagram, or
in the callback of a reader, before the lock is tried, under the lock, or after. -/
inductive IoPoint
  | idle
  | handling (message : PubSub.NetworkMessage) (messages : List PubSub.DataSetMessage)
  | calling (key : PubSub.ReaderKey) (connectionName : Bytes)
      (message : PubSub.NetworkMessage) (messages : List PubSub.DataSetMessage)
  | marking (key : PubSub.ReaderKey) (connectionName : Bytes)
      (message : PubSub.NetworkMessage) (messages : List PubSub.DataSetMessage)
  | marked (key : PubSub.ReaderKey) (connectionName : Bytes)
      (message : PubSub.NetworkMessage) (messages : List PubSub.DataSetMessage)

/-- Who holds the mutex of the FX engine. -/
inductive Holder
  | service
  | io
deriving DecidableEq, Repr

structure Threads where
  server : Server
  lock : Option Holder
  service : ServicePoint
  io : IoPoint

def start (server : Server) : Threads := ⟨server, none, .idle, .idle⟩

inductive Action
  | call (call : Call)
  | service
  | receive (endpoint : PubSub.ReceiverKey) (data : Bytes)
  | timer (group : Nat) (sample : Nat → Nat → Nat → Option PubSub.UaVariant)
  | io

end State

section ServiceThread

/-- A call waits until the lock is free. -/
def callStep (s : Threads) (call : Call) : Option Threads :=
  match s.service, s.lock with
  | .idle, none =>
      some { s with
        lock := some .service
        service :=
          match call with
          | .establish environment requestJson => .preparing environment requestJson
          | .close requestText => .closing requestText }
  | _, _ => none

/-- What is posted to the io thread waits until that is between handlers. -/
def posted (s : Threads) (next : Threads) : Option Threads :=
  match s.io with
  | .idle => some next
  | _ => none

def detailOutcome (name : Bytes) (detail : Except Bytes Bytes) : Outcome :=
  match detail with
  | .error what => refusal what
  | .ok detail => .good name detail

def activateStep (s : Threads) (environment : Environment) (establishment : Establishment) :
    Threads :=
  match activate s.server.fx.configuration environment.socket establishment s.server.pubSub with
  | .error what => { s with service := .returning (refusal what) }
  | .ok pubSub =>
      { s with server := { s.server with pubSub }, service := .viewing environment establishment }

def viewStep (s : Threads) (environment : Environment) (establishment : Establishment) :
    Threads :=
  match buildEndpointView environment.refusals establishment s.server.nodes with
  | .error what nodes =>
      { s with server := { s.server with nodes }, service := .abandoning establishment what }
  | .ok endpoint nodes =>
      { s with server := { s.server with nodes }, service := .storing establishment endpoint }

/-- Only a subscriber asks the publish/subscribe engine for its reader. -/
def reconcileStep (s : Threads) (establishment : Establishment) : Option Threads :=
  let next := { s with
    service := .showing establishment (reconciledStatus establishment s.server.pubSub) }
  match establishment.dataPlane with
  | .publisher _ _ => some next
  | .subscriber _ => posted s next

def withFx (s : Threads) (fx : Engine) (service : ServicePoint) : Threads :=
  { s with server := { s.server with fx }, service }

def serviceStep (s : Threads) : Option Threads :=
  match s.service with
  | .idle => none
  | .preparing environment requestJson =>
      match prepareEstablish s.server.fx requestJson with
      | .error what => some { s with service := .returning (refusal what) }
      | .ok establishment => some { s with service := .activating environment establishment }
  | .activating environment establishment => posted s (activateStep s environment establishment)
  | .viewing environment establishment => some (viewStep s environment establishment)
  | .abandoning establishment what =>
      posted s { s with
        server := abandon establishment s.server.nodes s.server
        service := .returning (refusal what) }
  | .storing establishment endpoint =>
      some (withFx s (storeEndpoint establishment.name endpoint s.server.fx)
        (.reconciling establishment))
  | .reconciling establishment => reconcileStep s establishment
  | .showing establishment status =>
      some (withFx s (showStatus establishment.name status s.server.fx)
        (.returning (detailOutcome establishment.name (serializeValue
          (establishedDetail s.server.fx.configuration establishment status)))))
  | .closing requestText =>
      match closeTarget s.server.fx requestText with
      | .error what => some { s with service := .returning (refusal what) }
      | .ok (name, endpoint) => some { s with service := .removing name endpoint }
  | .removing name endpoint =>
      posted s { s with
        server :=
          { s.server with pubSub := PubSub.removeDynamic s.server.pubSub endpoint.ownerTag }
        service := .clearing name endpoint
          (s.server.pubSub.readers.entries.filter fun entry =>
            entry.2.ownerTag = endpoint.ownerTag) }
  | .clearing name endpoint _ =>
      some (withFx s
        { s.server.fx with
          endpoints := s.server.fx.endpoints.assign name (closed endpoint) }
        (.returning (detailOutcome [] (serializeValue (statusDetail .initial [])))))
  | .returning _ => some { s with lock := none, service := .idle }

end ServiceThread

section IoThread

open PubSub

/-- The name that a reader passes to its callback, when a message with these
fields makes it call back. -/
def dueCallback (fields : List WireValue) (reader : ReaderRuntime) : Option Bytes :=
  if min fields.length reader.targets.length = 0 then none
  else if reader.firstDataSignalled then none
  else reader.onFirstData

def withReaders (s : Threads) (readers : OrderedMap ReaderKey ReaderRuntime) (io : IoPoint) :
    Threads :=
  { s with server := { s.server with pubSub := { s.server.pubSub with readers } }, io }

/-- One message: the fields are written, and the callback is made if it is due. -/
def messageStep (s : Threads) (message : NetworkMessage) (dsm : DataSetMessage)
    (messages : List DataSetMessage) : Threads :=
  if dsm.keepAlive then { s with io := .handling message messages }
  else
    match s.server.pubSub.readers.find? (messageKey message dsm) with
    | none => { s with io := .handling message messages }
    | some reader =>
        withReaders s
          (s.server.pubSub.readers.assign (messageKey message dsm)
            (applyMessage false dsm.fields reader).1)
          (match dueCallback dsm.fields reader with
            | none => .handling message messages
            | some connectionName =>
                .calling (messageKey message dsm) connectionName message messages)

/-- The callback has returned true. -/
def setSignalled (s : Threads) (key : ReaderKey) (io : IoPoint) : Threads :=
  match s.server.pubSub.readers.find? key with
  | none => { s with io }
  | some reader =>
      withReaders s
        (s.server.pubSub.readers.assign key { reader with firstDataSignalled := true }) io

def ioStep (s : Threads) : Option Threads :=
  match s.io with
  | .idle => none
  | .handling _ [] => some { s with io := .idle }
  | .handling message (dsm :: messages) => some (messageStep s message dsm messages)
  | .calling key connectionName message messages =>
      match s.lock with
      | none =>
          some { s with lock := some .io, io := .marking key connectionName message messages }
      | some _ => some { s with io := .handling message messages }
  | .marking key connectionName message messages =>
      some
        { s with
          server :=
            { s.server with fx := (markSubscriberOperational true connectionName s.server.fx).1 }
          lock := none
          io := .marked key connectionName message messages }
  | .marked key _ message messages => some (setSignalled s key (.handling message messages))

/-- A datagram arrives at a receiver that is in use. -/
def receiveStep (s : Threads) (endpoint : ReceiverKey) (data : Bytes) : Option Threads :=
  match s.io with
  | .idle =>
      if s.server.pubSub.receivers.contains endpoint then
        match decodeDatagram data with
        | .error _ _ => some s
        | .ok message _ => some { s with io := .handling message message.messages }
      else none
  | _ => none

def timerStep (s : Threads) (group : Nat) (sample : Nat → Nat → Nat → Option UaVariant) :
    Option Threads :=
  posted s { s with server :=
    { s.server with pubSub := timerCompleted s.server.pubSub group sample } }

end IoThread

def step (s : Threads) : Action → Option Threads
  | .call call => callStep s call
  | .service => serviceStep s
  | .receive endpoint data => receiveStep s endpoint data
  | .timer group sample => timerStep s group sample
  | .io => ioStep s

end Fx

end Supernova
