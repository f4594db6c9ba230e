/-
Calls of the methods of a class: what the generated code checks and converts before the
device logic is called, in the calling thread or in a job of the thread pool, and what
it passes to `finishCall`.
-/
import Supernova.AsyncSourceVariable
import Supernova.CacheVariableWrites

namespace Supernova

namespace ASDelegatingMethod

open Quasar (BuiltInType DataType dataTypeToBuiltinType StatusCode UaVariant NativeValue
  Conversions)
open ASSourceVariable (badInternalError badOutOfService badResourceUnavailable)

def badArgumentsMissing : StatusCode := 0x80760000#32

/-- `addressSpaceCallUseMutex` -/
inductive CallUseMutex
  | no
  | ofThisMethod
  | ofContainingObject
deriving DecidableEq, Repr

/-- An `argument` or a `returnvalue` of the design. -/
structure Parameter where
  name : Bytes
  dataType : DataType
  isArray : Bool
deriving DecidableEq, Repr

structure Method where
  name : Bytes
  arguments : List Parameter
  returnValues : List Parameter
  asynchronous : Bool
  callUseMutex : CallUseMutex
deriving DecidableEq, Repr

section Arguments

variable {content : BuiltInType → Type} (conversions : Conversions content)

/-- The local variable of an argument. -/
def convertArgument (argument : Parameter) (input : UaVariant content) :
    Except StatusCode (NativeValue content) :=
  let type := dataTypeToBuiltinType argument.dataType
  if argument.isArray then (conversions.vector type input).map (.vector type)
  else if argument.dataType = .uaString then
    .ok (.scalar .string (conversions.toString input))
  else if argument.dataType = .uaVariant then .ok (.variant input)
  else
    match conversions.scalar type input with
    | .ok x => .ok (.scalar type x)
    | .error _ => throw StatusCode.badDataEncodingInvalid

/-- The beginning of the generated handler, up to the arguments of the device logic. -/
def convertArguments (m : Method) (inputArguments : List (UaVariant content)) :
    Except StatusCode (List (NativeValue content)) :=
  if inputArguments.length ≠ m.arguments.length then throw badArgumentsMissing
  else (m.arguments.zip inputArguments).mapM fun pair => convertArgument conversions pair.1 pair.2

end Arguments

variable {Object Handle Mutex : Type} {content : BuiltInType → Type} {maxThreads : Nat}

/-- What `beginCall` finds behind the method handle. -/
inductive Target (Object : Type)
  /-- A class without device logic. -/
  | noDeviceLogic
  /-- The handle is not that of a node. -/
  | noNode
  | noMethod
  /-- A delegating method to which no handler is assigned. -/
  | noHandler
  | handled (object : Object) (m : Method)
deriving DecidableEq, Repr

/-- What a target without a handler is refused with. -/
def Target.handler : Target Object → Except StatusCode (Object × Method)
  | .noDeviceLogic => throw badInternalError
  | .noNode => throw badInternalError
  | .noMethod => throw badInternalError
  | .noHandler => throw StatusCode.badNotImplemented
  | .handled object m => pure (object, m)

/-- A call of the device logic; the arguments are those that were converted. -/
structure Call (Object Handle : Type) (content : BuiltInType → Type) where
  object : Object
  m : Method
  handle : Handle
  arguments : List (NativeValue content)

/-- The mutexes of the device logic. -/
structure Locks (Object Mutex : Type) where
  lockMethodCall : Object → Bytes → Mutex
  lock : Object → Mutex

/-- The mutex that is passed with a job; a call in the calling thread takes none. -/
def Call.mutex (locks : Locks Object Mutex) (call : Call Object Handle content) : Option Mutex :=
  match call.m.callUseMutex with
  | .no => none
  | .ofThisMethod => some (locks.lockMethodCall call.object call.m.name)
  | .ofContainingObject => some (locks.lock call.object)

/-- A job of the thread pool: that of a method call or one of other code, as that of a source
variable. -/
inductive Job (Object Handle Mutex : Type) (content : BuiltInType → Type)
  | methodCall (call : Call Object Handle content)
  | other (mutex : Option Mutex)

def Job.associatedMutex (locks : Locks Object Mutex) :
    Job Object Handle Mutex content → Option Mutex
  | .methodCall call => call.mutex locks
  | .other mutex => mutex

def Job.handle? : Job Object Handle Mutex content → Option Handle
  | .methodCall call => some call.handle
  | .other _ => none

/-- How the device logic answers: with a status and what it has left in the variables of the
return values, by their position, or by throwing. -/
inductive Ending (content : BuiltInType → Type)
  | returned (status : StatusCode) (values : Nat → NativeValue content)
  /-- A `std::exception`. -/
  | threwException
  | threwOther

/-- `pCallback->finishCall(...)`, in the calling thread or in a worker. -/
structure FinishCall (Handle : Type) (content : BuiltInType → Type) (maxThreads : Nat) where
  handle : Handle
  outputArguments : List (UaVariant content)
  status : StatusCode
  worker : Option (Fin maxThreads)

/-- What is finished with when the device logic has answered; `helper` makes a variant of a
return value. -/
def Ending.finish (helper : NativeValue content → UaVariant content)
    (call : Call Object Handle content) (worker : Option (Fin maxThreads)) :
    Ending content → FinishCall Handle content maxThreads
  | .returned status values =>
      ⟨call.handle, call.m.returnValues.mapIdx fun i _ => helper (values i), status, worker⟩
  | .threwException => ⟨call.handle, [], badInternalError, worker⟩
  | .threwOther => ⟨call.handle, [], badInternalError, worker⟩

/-- What `beginCall` returns: what a check before the call gives, or Good. -/
inductive Return
  | refused (status : StatusCode)
  | good
deriving DecidableEq, Repr

/-- The handles passed to calls, what these have returned, the calls about to go to the thread
pool and those whose device logic runs in the calling thread, the pool, and the calls finished
so far. -/
structure State (Object Handle Mutex : Type) (content : BuiltInType → Type) (maxThreads : Nat) where
  begun : List Handle := []
  returned : List (Handle × Return) := []
  dispatching : List (Call Object Handle content) := []
  delegating : List (Call Object Handle content) := []
  pool : ThreadPool.State (Job Object Handle Mutex content) Mutex maxThreads
  finished : List (FinishCall Handle content maxThreads) := []

/-- One step of a calling thread, of a worker or of other code that uses the pool. -/
inductive Event (Object Handle Mutex : Type) (content : BuiltInType → Type) (maxThreads : Nat)
  | beginCall (target : Target Object) (handle : Handle)
      (inputArguments : List (UaVariant content))
  | dispatch (position : Nat) (threadPool : Bool)
  /-- The device logic of a synchronous call has answered. -/
  | finish (position : Nat) (ending : Ending content)
  /-- The device logic in the job of a worker has answered. -/
  | execute (worker : Fin maxThreads) (ending : Ending content)
  | pool (e : ThreadPool.Event (Job Object Handle Mutex content) maxThreads)

/-- The job that a worker executes. -/
def executing (pool : ThreadPool.State (Job Object Handle Mutex content) Mutex maxThreads)
    (worker : Fin maxThreads) : Option (Job Object Handle Mutex content) :=
  match pool.place worker with
  | .executing duty => some duty.job
  | _ => none

/-- Steps of the pool that are not steps of a method call. -/
def isOther (pool : ThreadPool.State (Job Object Handle Mutex content) Mutex maxThreads) :
    ThreadPool.Event (Job Object Handle Mutex content) maxThreads → Bool
  | .addJob job => job.handle?.isNone
  | .finishExecute worker => ((executing pool worker).bind Job.handle?).isNone
  | _ => true

section Step

variable [DecidableEq Handle] [DecidableEq Mutex] (conversions : Conversions content)
  (helper : NativeValue content → UaVariant content) (locks : Locks Object Mutex)

/-- `beginCall` up to the call of the device logic or the dispatch of its job. -/
def beginCall (s : State Object Handle Mutex content maxThreads) (target : Target Object)
    (handle : Handle) (inputArguments : List (UaVariant content)) :
    State Object Handle Mutex content maxThreads :=
  let checked : Except StatusCode (Call Object Handle content) := do
    let handler ← target.handler
    let arguments ← convertArguments conversions handler.2 inputArguments
    pure ⟨handler.1, handler.2, handle, arguments⟩
  match checked with
  | .error status => { s with returned := s.returned ++ [(handle, .refused status)] }
  | .ok call =>
      if call.m.asynchronous then { s with dispatching := s.dispatching ++ [call] }
      else { s with delegating := s.delegating ++ [call] }

/-- `addJob` and the status that it returns, with or without a pool. -/
def addJob (pool : ThreadPool.State (Job Object Handle Mutex content) Mutex maxThreads)
    (call : Call Object Handle content) (threadPool : Bool) :
    Option (StatusCode × ThreadPool.State (Job Object Handle Mutex content) Mutex maxThreads) :=
  if threadPool then
    (ThreadPool.step (Job.associatedMutex locks) pool (.addJob (.methodCall call))).map fun pool' =>
      (if pool.maxJobs ≤ pool.pendingJobs.length then badResourceUnavailable
        else StatusCode.opcUaGood, pool')
  else some (badOutOfService, pool)

/-- The end of the handler of an asynchronous method. -/
def dispatch (s : State Object Handle Mutex content maxThreads)
    (call : Call Object Handle content) (threadPool : Bool) :
    Option (State Object Handle Mutex content maxThreads) :=
  (addJob locks s.pool call threadPool).map fun dispatched =>
    { s with
      pool := dispatched.2
      finished :=
        if !dispatched.1.isGood then s.finished ++ [⟨call.handle, [], dispatched.1, none⟩]
        else s.finished
      returned := s.returned ++ [(call.handle, .good)] }

/-- A handle is passed to one call. -/
def step (s : State Object Handle Mutex content maxThreads) :
    Event Object Handle Mutex content maxThreads →
      Option (State Object Handle Mutex content maxThreads)
  | .beginCall target handle inputArguments =>
      if handle ∈ s.begun then none
      else some (beginCall conversions { s with begun := s.begun ++ [handle] } target handle
        inputArguments)
  | .dispatch position threadPool =>
      match s.dispatching[position]? with
      | none => none
      | some call =>
          dispatch locks { s with dispatching := s.dispatching.eraseIdx position } call threadPool
  | .finish position ending =>
      match s.delegating[position]? with
      | none => none
      | some call => some
          { s with
            delegating := s.delegating.eraseIdx position
            finished := s.finished ++ [ending.finish helper call none]
            returned := s.returned ++ [(call.handle, .good)] }
  | .execute worker ending =>
      match executing s.pool worker with
      | some (.methodCall call) =>
          (ThreadPool.step (Job.associatedMutex locks) s.pool (.finishExecute worker)).map
            fun pool =>
              { s with
                pool
                finished := s.finished ++ [ending.finish helper call (some worker)] }
      | _ => none
  | .pool e =>
      if isOther s.pool e then
        (ThreadPool.step (Job.associatedMutex locks) s.pool e).map fun pool => { s with pool }
      else none

end Step

def start (maxJobs : Nat) : State Object Handle Mutex content maxThreads :=
  { pool := ThreadPool.start maxJobs }

end ASDelegatingMethod

end Supernova
