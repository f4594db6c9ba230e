/-
Reads and writes of a source variable under open62541: a call that completes its handle
itself or passes it to a job of the thread pool, and what the delegate is wrapped in.
-/
import Supernova.AddressSpaceVariables
import Supernova.QuasarThreadPool

namespace Supernova

namespace ASSourceVariable

open Quasar (StatusCode)

variable {Handle Value Mutex : Type} {maxThreads : Nat}

def badInternalError : StatusCode := 0x80020000#32
def badResourceUnavailable : StatusCode := 0x80040000#32
def badOutOfService : StatusCode := 0x808D0000#32

@[simp] theorem isGood_badResourceUnavailable :
    StatusCode.isGood badResourceUnavailable = false := rfl
@[simp] theorem isGood_badOutOfService : StatusCode.isGood badOutOfService = false := rfl

inductive Direction
  | read
  | write
deriving DecidableEq, Repr

/-- The members that one of `beginRead` and `beginWrite` looks at: whether there is a
delegate, whether there is a mutex provider, and the synchronicity. -/
structure Access where
  fn : Bool
  mutexFn : Bool
  asynchronous : Bool
deriving DecidableEq, Repr

structure Variable where
  readFn : Bool
  writeFn : Bool
  readMutexFn : Bool
  writeMutexFn : Bool
  readAsynchronous : Bool
  writeAsynchronous : Bool
deriving DecidableEq, Repr

def Variable.access (v : Variable) : Direction → Access
  | .read => ⟨v.readFn, v.readMutexFn, v.readAsynchronous⟩
  | .write => ⟨v.writeFn, v.writeMutexFn, v.writeAsynchronous⟩

/-- What a handle is completed with: a read with a data value, whose variant may be
empty, and a write with a status. -/
inductive Answer (Value : Type)
  | dataValue (variant : Option Value) (status : StatusCode)
  | status (status : StatusCode)
deriving DecidableEq, Repr

/-- `badDataValue` for a read; a write is completed with the status itself. -/
def bad (status : StatusCode) : Direction → Answer Value
  | .read => .dataValue none status
  | .write => .status status

/-- How a call of the delegate ends. -/
inductive Ending
  | returned (status : StatusCode)
  /-- A `std::exception`. -/
  | threwException
  | threwOther
deriving DecidableEq, Repr

def Ending.status : Ending → StatusCode
  | .returned status => status
  | .threwException => badInternalError
  | .threwOther => badInternalError

/-- The lambda `work`; a read has the variant as the delegate left it. -/
def work (variant : Option Value) (ending : Ending) : Direction → Answer Value
  | .read => .dataValue variant ending.status
  | .write => .status ending.status

/-- A call that has checked its members, with the mutex for the delegate. -/
structure Call (Handle Mutex : Type) where
  direction : Direction
  handle : Handle
  mutex : Option Mutex
deriving DecidableEq, Repr

/-- A job of the thread pool: that of a read or write, which shares the handle, or one of
other code, as that of an asynchronous method. -/
inductive Job (Handle Mutex : Type)
  | operation (call : Call Handle Mutex)
  | other (mutex : Option Mutex)
deriving DecidableEq, Repr

def Job.associatedMutex : Job Handle Mutex → Option Mutex
  | .operation call => call.mutex
  | .other mutex => mutex

def Job.handle? : Job Handle Mutex → Option Handle
  | .operation call => some call.handle
  | .other _ => none

/-- `handle.complete(...)`, in the calling thread or in a worker. -/
structure Completion (Handle Value : Type) (maxThreads : Nat) where
  handle : Handle
  answer : Answer Value
  worker : Option (Fin maxThreads)
deriving DecidableEq, Repr

/-- The handles passed to calls, the calls about to go to the thread pool and those whose
delegate runs in the calling thread, the pool, and the completions so far. -/
structure State (Handle Value Mutex : Type) (maxThreads : Nat) where
  begun : List Handle := []
  dispatching : List (Call Handle Mutex) := []
  delegating : List (Call Handle Mutex) := []
  pool : ThreadPool.State (Job Handle Mutex) Mutex maxThreads
  completions : List (Completion Handle Value maxThreads) := []

namespace State

def complete (s : State Handle Value Mutex maxThreads) (handle : Handle)
    (answer : Answer Value) (worker : Option (Fin maxThreads)) :
    State Handle Value Mutex maxThreads :=
  { s with completions := s.completions ++ [⟨handle, answer, worker⟩] }

/-- `beginRead` and `beginWrite` up to the place where they differ in synchronicity. The
mutex is what the provider returns, null or not, and `base` the answer of the base class. -/
def beginIo (s : State Handle Value Mutex maxThreads) (access : Access) (direction : Direction)
    (handle : Handle) (mutex : Option Mutex) (base : Answer Value) :
    State Handle Value Mutex maxThreads :=
  if !access.fn then s.complete handle base none
  else if access.mutexFn && mutex.isNone then
    s.complete handle (bad badInternalError direction) none
  else
    let call : Call Handle Mutex := ⟨direction, handle, if access.mutexFn then mutex else none⟩
    if access.asynchronous then { s with dispatching := s.dispatching ++ [call] }
    else { s with delegating := s.delegating ++ [call] }

def beginRead (v : Variable) (s : State Handle Value Mutex maxThreads) (handle : Handle)
    (mutex : Option Mutex) (base : Answer Value) : State Handle Value Mutex maxThreads :=
  s.beginIo (v.access .read) .read handle mutex base

def beginWrite (v : Variable) (s : State Handle Value Mutex maxThreads) (handle : Handle)
    (mutex : Option Mutex) (base : Answer Value) : State Handle Value Mutex maxThreads :=
  s.beginIo (v.access .write) .write handle mutex base

variable [DecidableEq Mutex]

/-- `addJob` and the status that it returns; `none` while the access lock is taken. -/
def addJob (pool : ThreadPool.State (Job Handle Mutex) Mutex maxThreads)
    (job : Job Handle Mutex) :
    Option (StatusCode × ThreadPool.State (Job Handle Mutex) Mutex maxThreads) :=
  (ThreadPool.step Job.associatedMutex pool (.addJob job)).map fun pool' =>
    (if pool.maxJobs ≤ pool.pendingJobs.length then badResourceUnavailable
      else StatusCode.opcUaGood, pool')

/-- The asynchronous end of both functions, with or without a pool. -/
def dispatch (s : State Handle Value Mutex maxThreads) (call : Call Handle Mutex)
    (threadPool : Bool) : Option (State Handle Value Mutex maxThreads) :=
  (if threadPool then addJob s.pool (.operation call) else some (badOutOfService, s.pool)).map
    fun dispatched =>
      let dispatchStatus := dispatched.1
      let s := { s with pool := dispatched.2 }
      if !dispatchStatus.isGood then
        s.complete call.handle (bad dispatchStatus call.direction) none
      else s

end State

/-- One step of a calling thread, of a worker or of other code that uses the pool. -/
inductive Event (Handle Value Mutex : Type) (maxThreads : Nat)
  /-- A call of `beginRead` or `beginWrite`. -/
  | beginIo (v : Variable) (direction : Direction) (handle : Handle) (mutex : Option Mutex)
      (base : Answer Value)
  | dispatch (position : Nat) (threadPool : Bool)
  /-- The delegate of a synchronous call has ended, the lock having been taken. -/
  | finish (position : Nat) (variant : Option Value) (ending : Ending)
  /-- The delegate in the job of a worker has ended. -/
  | execute (worker : Fin maxThreads) (variant : Option Value) (ending : Ending)
  | pool (e : ThreadPool.Event (Job Handle Mutex) maxThreads)

variable [DecidableEq Handle] [DecidableEq Mutex]

/-- The job that a worker executes. -/
def executing (pool : ThreadPool.State (Job Handle Mutex) Mutex maxThreads)
    (worker : Fin maxThreads) : Option (Job Handle Mutex) :=
  match pool.place worker with
  | .executing duty => some duty.job
  | _ => none

/-- Steps of the pool that are not steps of a read or write. -/
def isOther (pool : ThreadPool.State (Job Handle Mutex) Mutex maxThreads) :
    ThreadPool.Event (Job Handle Mutex) maxThreads → Bool
  | .addJob job => job.handle?.isNone
  | .finishExecute worker => ((executing pool worker).bind Job.handle?).isNone
  | _ => true

/-- A handle is passed to one call. -/
def step (s : State Handle Value Mutex maxThreads) :
    Event Handle Value Mutex maxThreads → Option (State Handle Value Mutex maxThreads)
  | .beginIo v direction handle mutex base =>
      if handle ∈ s.begun then none
      else
        let s := { s with begun := s.begun ++ [handle] }
        match direction with
        | .read => some (s.beginRead v handle mutex base)
        | .write => some (s.beginWrite v handle mutex base)
  | .dispatch position threadPool =>
      match s.dispatching[position]? with
      | none => none
      | some call =>
          { s with dispatching := s.dispatching.eraseIdx position }.dispatch call threadPool
  | .finish position variant ending =>
      match s.delegating[position]? with
      | none => none
      | some call =>
          some ({ s with delegating := s.delegating.eraseIdx position }.complete call.handle
            (work variant ending call.direction) none)
  | .execute worker variant ending =>
      match executing s.pool worker with
      | some (.operation call) =>
          (ThreadPool.step Job.associatedMutex s.pool (.finishExecute worker)).map fun pool =>
            { s with pool }.complete call.handle (work variant ending call.direction) (some worker)
      | _ => none
  | .pool e =>
      if isOther s.pool e then
        (ThreadPool.step Job.associatedMutex s.pool e).map fun pool => { s with pool }
      else none

end ASSourceVariable

end Supernova
