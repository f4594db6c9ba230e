/-
The thread pool: one step of a worker, of `addJob` or of the destructor at a
time.  What the code does under the access lock is a step that needs the lock
to be free, except the scan for a duty, which keeps the lock over several steps
because a duty destroyed meanwhile can release a mutex.
-/
import Mathlib.Logic.Function.Basic
import Mathlib.Data.Fin.Basic
import Supernova.Trace

namespace Supernova

namespace ThreadPool

variable {Job Mutex : Type} {maxThreads : Nat}

/-- A job taken off the list, with the mutex that its `unique_lock` owns. -/
structure Duty (Job Mutex : Type) where
  job : Job
  lock : Option Mutex
deriving DecidableEq, Repr

/-- Where a worker is in `work`. -/
inductive Place (Job Mutex : Type) where
  /-- At the top of the loop. -/
  | idle
  /-- In `findSomeDuty`, about to look at the job at this position. -/
  | scanning (position : Nat)
  /-- In `wait_for`. -/
  | waiting
  | executing (duty : Duty Job Mutex)
  /-- `execute` has returned or thrown. -/
  | executed (duty : Duty Job Mutex)
  /-- Behind the explicit unlock. -/
  | unlocked (duty : Duty Job Mutex)
  /-- The job is counted as finished; the iteration ends. -/
  | counted (duty : Duty Job Mutex)
  | returned
deriving DecidableEq, Repr

def Place.hasReturned : Place Job Mutex → Bool
  | .returned => true
  | _ => false

/-- The pool, the owners of the associated mutexes, and a record of every
release of a mutex by a worker that did not own it. -/
structure State (Job Mutex : Type) (maxThreads : Nat) where
  quit : Bool := false
  maxJobs : Nat
  pendingJobs : List Job := []
  accessLock : Option (Fin maxThreads) := none
  place : Fin maxThreads → Place Job Mutex := fun _ => .idle
  owner : Mutex → Option (Fin maxThreads) := fun _ => none
  jobsAcceptedCounter : Nat := 0
  jobsFinishedCounter : Nat := 0
  /-- Calls of `addJob` that have pushed their job but not counted it. -/
  uncounted : Nat := 0
  accepted : List Job := []
  finished : List Job := []
  discarded : List Job := []
  wrongReleases : List (Fin maxThreads × Mutex) := []

/-- One step of a thread. -/
inductive Event (Job : Type) (maxThreads : Nat) where
  /-- The locked part of `addJob`; refused when the list is full. -/
  | addJob (job : Job)
  /-- `addJob` behind the lock. -/
  | countAccepted
  /-- An idle worker takes the access lock and checks `m_quit`. -/
  | enter (worker : Fin maxThreads)
  /-- One turn of the loop of `findSomeDuty`. -/
  | scan (worker : Fin maxThreads)
  | wake (worker : Fin maxThreads)
  | finishExecute (worker : Fin maxThreads)
  /-- The explicit unlock of the associated mutex. -/
  | unlock (worker : Fin maxThreads)
  | countFinished (worker : Fin maxThreads)
  /-- The end of the iteration destroys the duty with its lock. -/
  | destroyDuty (worker : Fin maxThreads)
  /-- `m_quit = true` in the destructor. -/
  | setQuit
  /-- The destructor behind the joins removes what is still pending. -/
  | flush
deriving DecidableEq, Repr

namespace State

def goTo (s : State Job Mutex maxThreads) (worker : Fin maxThreads)
    (place : Place Job Mutex) : State Job Mutex maxThreads :=
  { s with place := Function.update s.place worker place }

variable [DecidableEq Mutex]

/-- `try_lock` that succeeded. -/
def lockMutex (s : State Job Mutex maxThreads) (worker : Fin maxThreads) (mutex : Mutex) :
    State Job Mutex maxThreads :=
  { s with owner := Function.update s.owner mutex (some worker) }

/-- `std::mutex::unlock`: it frees the mutex whoever owns it, and is wrong when
the caller does not. -/
def unlockMutex (s : State Job Mutex maxThreads) (worker : Fin maxThreads)
    (mutex : Mutex) : State Job Mutex maxThreads :=
  { s with
    owner := Function.update s.owner mutex none
    wrongReleases :=
      if s.owner mutex = some worker then s.wrongReleases
      else s.wrongReleases ++ [(worker, mutex)] }

end State

/-- The pool as the constructor leaves it. -/
def start (maxJobs : Nat) : State Job Mutex maxThreads := { maxJobs }

section Step

variable [DecidableEq Mutex] (associatedMutex : Job → Option Mutex)

/-- A duty is found: the job leaves the list and the access lock is released. -/
def takeDuty (s : State Job Mutex maxThreads) (worker : Fin maxThreads) (position : Nat)
    (duty : Duty Job Mutex) : State Job Mutex maxThreads :=
  { s with
    pendingJobs := s.pendingJobs.eraseIdx position
    accessLock := none
    place := Function.update s.place worker (.executing duty) }

/-- One turn of the loop of `findSomeDuty` at a position of the list. -/
def findSomeDuty (s : State Job Mutex maxThreads) (worker : Fin maxThreads)
    (position : Nat) : State Job Mutex maxThreads :=
  match s.pendingJobs[position]? with
  | none => { s.goTo worker .waiting with accessLock := none }
  | some job =>
      match associatedMutex job with
      | none => takeDuty s worker position ⟨job, none⟩
      | some mutex =>
          if s.owner mutex = none then
            takeDuty (s.lockMutex worker mutex) worker position ⟨job, some mutex⟩
          else s.goTo worker (.scanning (position + 1))

/-- One step of the pool; `none` when the thread is not at that point. -/
def step (s : State Job Mutex maxThreads) :
    Event Job maxThreads → Option (State Job Mutex maxThreads)
  | .addJob job =>
      if s.accessLock = none then
        if s.maxJobs ≤ s.pendingJobs.length then some s
        else some { s with
          pendingJobs := s.pendingJobs ++ [job]
          accepted := s.accepted ++ [job]
          uncounted := s.uncounted + 1 }
      else none
  | .countAccepted =>
      if 0 < s.uncounted then
        some { s with
          uncounted := s.uncounted - 1
          jobsAcceptedCounter := s.jobsAcceptedCounter + 1 }
      else none
  | .enter worker =>
      match s.place worker with
      | .idle =>
          if s.accessLock = none then
            if s.quit then some (s.goTo worker .returned)
            else some { s.goTo worker (.scanning 0) with accessLock := some worker }
          else none
      | _ => none
  | .scan worker =>
      match s.place worker with
      | .scanning position => some (findSomeDuty associatedMutex s worker position)
      | _ => none
  | .wake worker =>
      match s.place worker with
      | .waiting => if s.accessLock = none then some (s.goTo worker .idle) else none
      | _ => none
  | .finishExecute worker =>
      match s.place worker with
      | .executing duty => some (s.goTo worker (.executed duty))
      | _ => none
  | .unlock worker =>
      match s.place worker with
      | .executed duty =>
          match associatedMutex duty.job with
          | none => some (s.goTo worker (.unlocked duty))
          | some mutex =>
              if s.accessLock = none then
                some ((s.unlockMutex worker mutex).goTo worker (.unlocked duty))
              else none
      | _ => none
  | .countFinished worker =>
      match s.place worker with
      | .unlocked duty =>
          some { s.goTo worker (.counted duty) with
            jobsFinishedCounter := s.jobsFinishedCounter + 1
            finished := s.finished ++ [duty.job] }
      | _ => none
  | .destroyDuty worker =>
      match s.place worker with
      | .counted duty =>
          match duty.lock with
          | none => some (s.goTo worker .idle)
          | some mutex => some ((s.unlockMutex worker mutex).goTo worker .idle)
      | _ => none
  | .setQuit => some { s with quit := true }
  | .flush =>
      if s.quit ∧ ∀ worker, (s.place worker).hasReturned then
        some { s with pendingJobs := [], discarded := s.discarded ++ s.pendingJobs }
      else none

/-- What a step does, with the guards that it has passed. -/
inductive Steps (s : State Job Mutex maxThreads) :
    Event Job maxThreads → State Job Mutex maxThreads → Prop
  | refuses (job : Job) (haccess : s.accessLock = none)
      (hfull : s.maxJobs ≤ s.pendingJobs.length) : Steps s (.addJob job) s
  | accepts (job : Job) (haccess : s.accessLock = none)
      (hroom : s.pendingJobs.length < s.maxJobs) :
      Steps s (.addJob job) { s with
        pendingJobs := s.pendingJobs ++ [job]
        accepted := s.accepted ++ [job]
        uncounted := s.uncounted + 1 }
  | counts (hcount : 0 < s.uncounted) :
      Steps s .countAccepted { s with
        uncounted := s.uncounted - 1
        jobsAcceptedCounter := s.jobsAcceptedCounter + 1 }
  | returns (worker : Fin maxThreads) (hfrom : s.place worker = .idle)
      (haccess : s.accessLock = none) : Steps s (.enter worker) (s.goTo worker .returned)
  | enters (worker : Fin maxThreads) (hfrom : s.place worker = .idle)
      (haccess : s.accessLock = none) :
      Steps s (.enter worker) { s.goTo worker (.scanning 0) with accessLock := some worker }
  | scans (worker : Fin maxThreads) (position : Nat)
      (hfrom : s.place worker = .scanning position) :
      Steps s (.scan worker) (findSomeDuty associatedMutex s worker position)
  | wakes (worker : Fin maxThreads) (hfrom : s.place worker = .waiting) :
      Steps s (.wake worker) (s.goTo worker .idle)
  | executes (worker : Fin maxThreads) (duty : Duty Job Mutex)
      (hfrom : s.place worker = .executing duty) :
      Steps s (.finishExecute worker) (s.goTo worker (.executed duty))
  | skips (worker : Fin maxThreads) (duty : Duty Job Mutex)
      (hfrom : s.place worker = .executed duty) (hmutex : associatedMutex duty.job = none) :
      Steps s (.unlock worker) (s.goTo worker (.unlocked duty))
  | unlocks (worker : Fin maxThreads) (duty : Duty Job Mutex) (mutex : Mutex)
      (hfrom : s.place worker = .executed duty)
      (hmutex : associatedMutex duty.job = some mutex) (haccess : s.accessLock = none) :
      Steps s (.unlock worker) ((s.unlockMutex worker mutex).goTo worker (.unlocked duty))
  | finishes (worker : Fin maxThreads) (duty : Duty Job Mutex)
      (hfrom : s.place worker = .unlocked duty) :
      Steps s (.countFinished worker) { s.goTo worker (.counted duty) with
        jobsFinishedCounter := s.jobsFinishedCounter + 1
        finished := s.finished ++ [duty.job] }
  | drops (worker : Fin maxThreads) (duty : Duty Job Mutex)
      (hfrom : s.place worker = .counted duty) (hlock : duty.lock = none) :
      Steps s (.destroyDuty worker) (s.goTo worker .idle)
  | destroys (worker : Fin maxThreads) (duty : Duty Job Mutex) (mutex : Mutex)
      (hfrom : s.place worker = .counted duty) (hlock : duty.lock = some mutex) :
      Steps s (.destroyDuty worker) ((s.unlockMutex worker mutex).goTo worker .idle)
  | quits : Steps s .setQuit { s with quit := true }
  | flushes (hquit : s.quit = true) (hreturned : ∀ worker, (s.place worker).hasReturned = true) :
      Steps s .flush { s with pendingJobs := [], discarded := s.discarded ++ s.pendingJobs }

variable {associatedMutex}

theorem steps_of_step {s s' : State Job Mutex maxThreads} {e : Event Job maxThreads}
    (h : step associatedMutex s e = some s') : Steps associatedMutex s e s' := by
  cases e with
  | addJob job =>
      simp only [step] at h
      split at h
      · rename_i haccess
        split at h
        · rename_i hfull
          cases h
          exact .refuses job haccess hfull
        · rename_i hroom
          cases h
          exact .accepts job haccess (Nat.lt_of_not_le hroom)
      · cases h
  | countAccepted =>
      simp only [step] at h
      split at h
      · rename_i hcount
        cases h
        exact .counts hcount
      · cases h
  | enter worker =>
      simp only [step] at h
      split at h
      · rename_i hfrom
        split at h
        · rename_i haccess
          split at h
          · cases h
            exact .returns worker hfrom haccess
          · cases h
            exact .enters worker hfrom haccess
        · cases h
      · cases h
  | scan worker =>
      simp only [step] at h
      split at h
      · rename_i position hfrom
        cases h
        exact .scans worker position hfrom
      · cases h
  | wake worker =>
      simp only [step] at h
      split at h
      · rename_i hfrom
        split at h
        · cases h
          exact .wakes worker hfrom
        · cases h
      · cases h
  | finishExecute worker =>
      simp only [step] at h
      split at h
      · rename_i duty hfrom
        cases h
        exact .executes worker duty hfrom
      · cases h
  | unlock worker =>
      simp only [step] at h
      split at h
      · rename_i duty hfrom
        split at h
        · rename_i hmutex
          cases h
          exact .skips worker duty hfrom hmutex
        · rename_i mutex hmutex
          split at h
          · rename_i haccess
            cases h
            exact .unlocks worker duty mutex hfrom hmutex haccess
          · cases h
      · cases h
  | countFinished worker =>
      simp only [step] at h
      split at h
      · rename_i duty hfrom
        cases h
        exact .finishes worker duty hfrom
      · cases h
  | destroyDuty worker =>
      simp only [step] at h
      split at h
      · rename_i duty hfrom
        split at h
        · rename_i hlock
          cases h
          exact .drops worker duty hfrom hlock
        · rename_i mutex hlock
          cases h
          exact .destroys worker duty mutex hfrom hlock
      · cases h
  | setQuit =>
      cases h
      exact .quits
  | flush =>
      simp only [step] at h
      split at h
      · rename_i hflush
        cases h
        exact .flushes hflush.1 hflush.2
      · cases h

end Step

end ThreadPool

end Supernova
