/-
The IO manager of a source variable and the jobs that it spawns.  The manager
keeps the current transaction in its members, and a job copies them when it is
made; every job also carries the request that it was made for, which the code
does not have, so that answers can be compared with requests.
-/
import Supernova.Trace

namespace Supernova

namespace SourceVariable

variable {Callback : Type}

inductive Status where
  | good
  | bad
  | badOutOfService
  | badUserAccessDenied
  | badNotImplemented
  | badInternalError
  | badResourceUnavailable
deriving DecidableEq, Repr

/-- What the job id of an operation stands for. -/
inductive Operation where
  /-- `ASSOURCEVARIABLE_NOTHING`. -/
  | nothing
  /-- A class without device logic. -/
  | notImplemented
  | asynchronous
  | synchronous
deriving DecidableEq, Repr

/-- The arguments of `beginTransaction` that matter for the answer. -/
structure Transaction (Callback : Type) where
  callback : Callback
  hTransaction : UInt32
deriving DecidableEq, Repr

/-- A read or a write that belongs to a transaction. -/
structure Request (Callback : Type) where
  transaction : Transaction Callback
  callbackHandle : UInt32
deriving DecidableEq, Repr

/-- What a job holds of its callback, and the request that it was made for. -/
structure IoJob (Callback : Type) where
  write : Bool
  callback : Option Callback
  hTransaction : UInt32
  callbackHandle : UInt32
  request : Request Callback
deriving DecidableEq, Repr

/-- The job finishes its request through what was passed for it. -/
def IoJob.Right (job : IoJob Callback) : Prop :=
  job.callback = some job.request.transaction.callback ∧
    job.hTransaction = job.request.transaction.hTransaction ∧
    job.callbackHandle = job.request.callbackHandle

/-- What decides about a job besides its operation: the threads, the
constructor of the job, and the room in the pool. -/
structure Surroundings where
  threadsUp : Bool := true
  constructed : Bool := true
  accepted : Bool := true
deriving DecidableEq, Repr

/-- What `SourceVariables_spawnIoJobRead` and its sibling for writes do. -/
inductive Spawned where
  | refused (status : Status)
  /-- The job is in the pool. -/
  | queued
  /-- The job was executed within the call. -/
  | executed
deriving DecidableEq, Repr

def spawnIoJob (operation : Operation) (surroundings : Surroundings) : Spawned :=
  if !surroundings.threadsUp then .refused .badOutOfService
  else
    match operation with
    | .nothing => .refused .bad
    | .notImplemented => .refused .badNotImplemented
    | .asynchronous =>
        if !surroundings.constructed then .refused .badInternalError
        else if !surroundings.accepted then .refused .badResourceUnavailable
        else .queued
    | .synchronous =>
        if !surroundings.constructed then .refused .badInternalError else .executed

/-- The members of the manager, the transactions that clients have open, the
jobs in the pool and the jobs that have called their callback. -/
structure State (Callback : Type) where
  callback : Option Callback := none
  transaction : UInt32 := 0
  callbackHandle : UInt32 := 0
  opened : List (Transaction Callback) := []
  queued : List (IoJob Callback) := []
  finished : List (IoJob Callback) := []

namespace State

def beginTransaction (s : State Callback) (transaction : Transaction Callback) :
    Status × State Callback :=
  (.good, { s with
    callback := some transaction.callback
    transaction := transaction.hTransaction
    opened := transaction :: s.opened })

/-- The job that the manager's members make for a request. -/
def jobFor (s : State Callback) (write : Bool) (request : Request Callback) :
    IoJob Callback :=
  { write
    callback := s.callback
    hTransaction := s.transaction
    callbackHandle := s.callbackHandle
    request }

/-- `beginRead` and `beginWrite`, which differ in their operation only. -/
def beginIo (s : State Callback) (write : Bool) (operation : Operation)
    (request : Request Callback) (surroundings : Surroundings) : Status × State Callback :=
  let s := { s with callbackHandle := request.callbackHandle }
  if operation = .nothing then (.badUserAccessDenied, s)
  else
    match spawnIoJob operation surroundings with
    | .refused status => (status, s)
    | .queued => (.good, { s with queued := s.queued ++ [s.jobFor write request] })
    | .executed => (.good, { s with finished := s.finished ++ [s.jobFor write request] })

end State

/-- The operations of one source variable. -/
structure Variable where
  readOperation : Operation
  writeOperation : Operation
deriving DecidableEq, Repr

def State.beginRead (v : Variable) (s : State Callback) (request : Request Callback)
    (surroundings : Surroundings) : Status × State Callback :=
  s.beginIo false v.readOperation request surroundings

def State.beginWrite (v : Variable) (s : State Callback) (request : Request Callback)
    (surroundings : Surroundings) : Status × State Callback :=
  s.beginIo true v.writeOperation request surroundings

/-- Calls of the clients, in any order, and executions of jobs in the pool. -/
inductive Event (Callback : Type) where
  | beginTransaction (transaction : Transaction Callback)
  | beginRead (request : Request Callback) (surroundings : Surroundings)
  | beginWrite (request : Request Callback) (surroundings : Surroundings)
  | finishTransaction (transaction : Transaction Callback)
  | execute (position : Nat)

variable [DecidableEq Callback]

/-- One call or one execution; reads and writes belong to an open transaction. -/
def step (v : Variable) (s : State Callback) : Event Callback → Option (State Callback)
  | .beginTransaction transaction => some (s.beginTransaction transaction).2
  | .beginRead request surroundings =>
      if request.transaction ∈ s.opened then some (s.beginRead v request surroundings).2
      else none
  | .beginWrite request surroundings =>
      if request.transaction ∈ s.opened then some (s.beginWrite v request surroundings).2
      else none
  | .finishTransaction transaction =>
      if transaction ∈ s.opened then some { s with opened := s.opened.erase transaction }
      else none
  | .execute position =>
      match s.queued[position]? with
      | none => none
      | some job => some { s with
          queued := s.queued.eraseIdx position
          finished := s.finished ++ [job] }

/-- Every job, waiting or finished, answers its own request. -/
def Unmixed (s : State Callback) : Prop :=
  ∀ job ∈ s.queued ++ s.finished, job.Right

/-- The transaction begun last has the callback and the handle of this one. -/
def Current (s : State Callback) (transaction : Transaction Callback) : Prop :=
  s.callback = some transaction.callback ∧ s.transaction = transaction.hTransaction

/-- The operation makes a job. -/
def Spawns (operation : Operation) (surroundings : Surroundings) : Prop :=
  ∀ status, spawnIoJob operation surroundings ≠ .refused status

/-- A read or write that makes a job belongs to the current transaction. -/
def InTurn (v : Variable) (s : State Callback) : Event Callback → Prop
  | .beginRead request surroundings =>
      Spawns v.readOperation surroundings → Current s request.transaction
  | .beginWrite request surroundings =>
      Spawns v.writeOperation surroundings → Current s request.transaction
  | _ => True

section

omit [DecidableEq Callback]

theorem jobFor_right_iff (s : State Callback) (write : Bool) (request : Request Callback) :
    (State.jobFor { s with callbackHandle := request.callbackHandle } write request).Right ↔
      Current s request.transaction := by
  simp [IoJob.Right, State.jobFor, Current]

theorem not_spawns_nothing (surroundings : Surroundings) :
    ¬ Spawns .nothing surroundings := by
  intro h
  by_cases hthreads : surroundings.threadsUp = true
  · exact h .bad (by simp [spawnIoJob, hthreads])
  · exact h .badOutOfService (by simp [spawnIoJob, hthreads])

/-- A read or write keeps the jobs right exactly when it is in turn. -/
theorem unmixed_beginIo {s : State Callback} (h : Unmixed s) (write : Bool)
    (operation : Operation) (request : Request Callback) (surroundings : Surroundings) :
    Unmixed (s.beginIo write operation request surroundings).2 ↔
      (Spawns operation surroundings → Current s request.transaction) := by
  have hjob := jobFor_right_iff s write request
  have hold : ∀ job ∈ s.queued, job.Right := fun job hmem =>
    h job (List.mem_append_left _ hmem)
  have hdone : ∀ job ∈ s.finished, job.Right := fun job hmem =>
    h job (List.mem_append_right _ hmem)
  unfold State.beginIo
  by_cases hnothing : operation = .nothing
  · subst hnothing
    simp only [if_true, not_spawns_nothing, false_imp_iff, iff_true]
    exact h
  · simp only [if_neg hnothing]
    cases hspawn : spawnIoJob operation surroundings with
    | refused status =>
        have hnot : ¬ Spawns operation surroundings := fun hspawns => hspawns status hspawn
        simp only [hnot, false_imp_iff, iff_true]
        exact h
    | queued =>
        have hspawns : Spawns operation surroundings := by simp [Spawns, hspawn]
        simp only [hspawns, true_imp_iff, ← hjob, Unmixed, List.mem_append,
          List.mem_singleton]
        constructor
        · intro hall
          exact hall _ (Or.inl (Or.inr rfl))
        · rintro hright job ((hmem | rfl) | hmem)
          · exact hold job hmem
          · exact hright
          · exact hdone job hmem
    | executed =>
        have hspawns : Spawns operation surroundings := by simp [Spawns, hspawn]
        simp only [hspawns, true_imp_iff, ← hjob, Unmixed, List.mem_append,
          List.mem_singleton]
        constructor
        · intro hall
          exact hall _ (Or.inr (Or.inr rfl))
        · rintro hright job (hmem | hmem | rfl)
          · exact hold job hmem
          · exact hdone job hmem
          · exact hright

end

/-- A step keeps every job right exactly when it is in turn. -/
theorem unmixed_step {v : Variable} {s s' : State Callback} {e : Event Callback}
    (h : Unmixed s) (hstep : step v s e = some s') : Unmixed s' ↔ InTurn v s e := by
  cases e with
  | beginTransaction transaction =>
      cases hstep
      exact iff_of_true h trivial
  | beginRead request surroundings =>
      simp only [step] at hstep
      split at hstep
      · cases hstep
        exact unmixed_beginIo h false v.readOperation request surroundings
      · cases hstep
  | beginWrite request surroundings =>
      simp only [step] at hstep
      split at hstep
      · cases hstep
        exact unmixed_beginIo h true v.writeOperation request surroundings
      · cases hstep
  | finishTransaction transaction =>
      simp only [step] at hstep
      split at hstep
      · cases hstep
        exact iff_of_true h trivial
      · cases hstep
  | execute position =>
      simp only [step] at hstep
      split at hstep
      · cases hstep
      · rename_i job hjob
        cases hstep
        have hmem := List.mem_of_getElem? hjob
        refine iff_of_true ?_ trivial
        intro job' hjob'
        simp only [List.mem_append, List.mem_singleton] at hjob'
        rcases hjob' with hqueued | hfinished | rfl
        · exact h job' (List.mem_append_left _ (List.mem_of_mem_eraseIdx hqueued))
        · exact h job' (List.mem_append_right _ hfinished)
        · exact h job' (List.mem_append_left _ hmem)

/-- Two clients begin a transaction each before the first one reads. -/
def interleavedRun : List (Event Nat) :=
  [.beginTransaction ⟨1, 10⟩, .beginTransaction ⟨2, 20⟩,
    .beginRead ⟨⟨1, 10⟩, 7⟩ {}, .execute 0]

end SourceVariable

end Supernova
