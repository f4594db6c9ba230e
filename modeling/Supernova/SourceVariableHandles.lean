/-
How often the handle of a read or write under open62541 is completed: a handle passed to a
call is in one place, in the call, in a job of the pool or among the completions.
-/
import Supernova.AsyncSourceVariable
import Supernova.ThreadPoolJobs

namespace Supernova

namespace ThreadPool

section Outstanding

variable {Job Mutex : Type} {maxThreads : Nat} {s s' : State Job Mutex maxThreads}

/-- The job of a worker that has not come to its end. -/
def Place.unexecuted : Place Job Mutex → Option Job
  | .executing duty => some duty.job
  | _ => none

/-- The jobs that the pool has accepted and not executed. -/
def State.outstanding (s : State Job Mutex maxThreads) : List Job :=
  s.pendingJobs ++ (s.discarded ++
    (List.finRange maxThreads).filterMap fun worker => (s.place worker).unexecuted)

/-- What a step does to the jobs that are not executed. -/
inductive Outlook (s : State Job Mutex maxThreads) (e : Event Job maxThreads)
    (s' : State Job Mutex maxThreads) : Prop
  | keeps (hother : ∀ worker, e ≠ .finishExecute worker)
      (hfull : ∀ job, e = .addJob job → s.maxJobs ≤ s.pendingJobs.length)
      (houtstanding : s'.outstanding.Perm s.outstanding)
  | accepts (job : Job) (hevent : e = .addJob job) (hroom : s.pendingJobs.length < s.maxJobs)
      (houtstanding : s'.outstanding.Perm (job :: s.outstanding))
  | executes (worker : Fin maxThreads) (duty : Duty Job Mutex)
      (hevent : e = .finishExecute worker) (hfrom : s.place worker = .executing duty)
      (houtstanding : s.outstanding.Perm (duty.job :: s'.outstanding))

/-- A worker goes from a place to another, and neither has a job in execution. -/
theorem outstanding_of_moves {worker : Fin maxThreads} {place : Place Job Mutex}
    (hplace : s'.place = Function.update s.place worker place)
    (hsame : place.unexecuted = (s.place worker).unexecuted)
    (hpending : s'.pendingJobs = s.pendingJobs) (hdiscarded : s'.discarded = s.discarded) :
    s'.outstanding.Perm s.outstanding := by
  obtain ⟨others, hbefore, hafter⟩ := collected_of_update Place.unexecuted hplace
  rw [hsame] at hafter
  rw [State.outstanding, State.outstanding, hpending, hdiscarded]
  exact ((hafter.trans hbefore.symm).append_left _).append_left _

theorem outlook_moves {e : Event Job maxThreads} {worker : Fin maxThreads}
    {before place : Place Job Mutex} (hfrom : s.place worker = before)
    (hplace : s'.place = Function.update s.place worker place)
    (hsame : place.unexecuted = before.unexecuted) (hpending : s'.pendingJobs = s.pendingJobs)
    (hdiscarded : s'.discarded = s.discarded)
    (hother : ∀ worker, e ≠ .finishExecute worker) (hnot : ∀ job, e ≠ .addJob job) :
    Outlook s e s' :=
  .keeps hother (fun job h => absurd h (hnot job))
    (outstanding_of_moves hplace (by rw [hsame, hfrom]) hpending hdiscarded)

theorem outstanding_takeDuty {worker : Fin maxThreads} {position : Nat} {duty : Duty Job Mutex}
    (hfrom : s.place worker = .scanning position)
    (hjob : s.pendingJobs[position]? = some duty.job) :
    (takeDuty s worker position duty).outstanding.Perm s.outstanding := by
  obtain ⟨others, hbefore, hafter⟩ := collected_of_update Place.unexecuted
    (rfl : (takeDuty s worker position duty).place = _)
  rw [hfrom] at hbefore
  rw [State.outstanding, State.outstanding]
  calc (s.pendingJobs.eraseIdx position ++ (s.discarded ++
        (List.finRange maxThreads).filterMap
          fun w => ((takeDuty s worker position duty).place w).unexecuted)).Perm
        (s.pendingJobs.eraseIdx position ++ (s.discarded ++ (duty.job :: others))) :=
      (hafter.append_left _).append_left _
    List.Perm _ (duty.job :: (s.pendingJobs.eraseIdx position ++ (s.discarded ++ others))) := by
      rw [← List.append_assoc, ← List.append_assoc]
      exact List.perm_middle
    List.Perm _ (s.pendingJobs ++ (s.discarded ++ others)) :=
      (perm_eraseIdx hjob).symm.append_right _
    List.Perm _ _ := (hbefore.symm.append_left _).append_left _

variable [DecidableEq Mutex] {associatedMutex : Job → Option Mutex}

theorem outstanding_findSomeDuty {worker : Fin maxThreads} {position : Nat}
    (hfrom : s.place worker = .scanning position) :
    (findSomeDuty associatedMutex s worker position).outstanding.Perm s.outstanding := by
  have hidle : (s.place worker).unexecuted = none := by
    rw [hfrom]
    rfl
  unfold findSomeDuty
  split
  · exact outstanding_of_moves rfl hidle.symm rfl rfl
  · rename_i job hjob
    split
    · exact outstanding_takeDuty hfrom hjob
    · split
      · exact outstanding_takeDuty hfrom hjob
      · exact outstanding_of_moves rfl hidle.symm rfl rfl

theorem outlook_of_step {e : Event Job maxThreads} (h : step associatedMutex s e = some s') :
    Outlook s e s' := by
  cases steps_of_step h with
  | refuses job haccess hfull => exact .keeps (by simp) (fun _ _ => hfull) (.refl _)
  | accepts job haccess hroom =>
      refine .accepts job rfl hroom ?_
      simp only [State.outstanding]
      rw [List.append_assoc]
      exact List.perm_middle
  | counts hcount => exact .keeps (by simp) (by simp) (.refl _)
  | returns worker hfrom haccess =>
      exact outlook_moves hfrom rfl rfl rfl rfl (by simp) (by simp)
  | enters worker hfrom haccess =>
      exact outlook_moves hfrom rfl rfl rfl rfl (by simp) (by simp)
  | scans worker position hfrom =>
      exact .keeps (by simp) (by simp) (outstanding_findSomeDuty hfrom)
  | wakes worker hfrom => exact outlook_moves hfrom rfl rfl rfl rfl (by simp) (by simp)
  | executes worker duty hfrom =>
      refine .executes worker duty rfl hfrom ?_
      obtain ⟨others, hbefore, hafter⟩ := collected_of_update Place.unexecuted
        (rfl : (s.goTo worker (.executed duty)).place = _)
      rw [hfrom] at hbefore
      rw [State.outstanding, State.outstanding]
      calc List.Perm _ (s.pendingJobs ++ (s.discarded ++ (duty.job :: others))) :=
          (hbefore.append_left _).append_left _
        List.Perm _ (duty.job :: (s.pendingJobs ++ (s.discarded ++ others))) := by
          rw [← List.append_assoc, ← List.append_assoc]
          exact List.perm_middle
        List.Perm _ _ := ((hafter.symm.append_left _).append_left _).cons duty.job
  | skips worker duty hfrom hmutex =>
      exact outlook_moves hfrom rfl rfl rfl rfl (by simp) (by simp)
  | unlocks worker duty mutex hfrom hmutex haccess =>
      exact outlook_moves hfrom rfl rfl rfl rfl (by simp) (by simp)
  | finishes worker duty hfrom =>
      exact outlook_moves hfrom rfl rfl rfl rfl (by simp) (by simp)
  | drops worker duty hfrom hlock =>
      exact outlook_moves hfrom rfl rfl rfl rfl (by simp) (by simp)
  | destroys worker duty mutex hfrom hlock =>
      exact outlook_moves hfrom rfl rfl rfl rfl (by simp) (by simp)
  | quits => exact .keeps (by simp) (by simp) (.refl _)
  | flushes hquit hreturned =>
      refine .keeps (by simp) (by simp) ?_
      simp only [State.outstanding, List.nil_append, List.append_assoc]
      rw [← List.append_assoc, ← List.append_assoc]
      exact List.perm_append_comm.append_right _

end Outstanding

end ThreadPool

namespace ASSourceVariable

open Quasar (StatusCode)

variable {Handle Value Mutex : Type} {maxThreads : Nat}
  {s s' : State Handle Value Mutex maxThreads}

/-- Where the handles are: completed, in a call, or in a job that is not executed. -/
def State.places (s : State Handle Value Mutex maxThreads) : List Handle :=
  s.completions.map Completion.handle ++ (s.dispatching.map Call.handle ++
    (s.delegating.map Call.handle ++ s.pool.outstanding.filterMap Job.handle?))

variable [DecidableEq Handle]

/-- Each handle passed to a call is in one place. -/
structure Accounted (s : State Handle Value Mutex maxThreads) : Prop where
  nodup : s.begun.Nodup
  count_places : ∀ handle, s.places.count handle = s.begun.count handle

section Places

variable (handle handle' : Handle)

theorem count_places_eq (s : State Handle Value Mutex maxThreads) :
    s.places.count handle = (s.completions.map Completion.handle).count handle +
      (s.dispatching.map Call.handle).count handle +
      (s.delegating.map Call.handle).count handle +
      (s.pool.outstanding.filterMap Job.handle?).count handle := by
  simp only [State.places, List.count_append, Nat.add_assoc]

theorem count_places_complete (s : State Handle Value Mutex maxThreads) (answer : Answer Value)
    (worker : Option (Fin maxThreads)) :
    (s.complete handle answer worker).places.count handle' =
      [handle].count handle' + s.places.count handle' := by
  simp only [count_places_eq, State.complete, List.map_append, List.map_cons, List.map_nil,
    List.count_append]
  omega

theorem count_places_beginIo (s : State Handle Value Mutex maxThreads) (access : Access)
    (direction : Direction) (mutex : Option Mutex) (base : Answer Value) :
    (s.beginIo access direction handle mutex base).places.count handle' =
      [handle].count handle' + s.places.count handle' := by
  unfold State.beginIo
  split
  · exact count_places_complete handle handle' s base none
  split
  · exact count_places_complete handle handle' s _ none
  dsimp only
  split
  · simp only [count_places_eq, List.map_append, List.map_cons, List.map_nil, List.count_append]
    omega
  · simp only [count_places_eq, List.map_append, List.map_cons, List.map_nil, List.count_append]
    omega

theorem count_map_eraseIdx {calls : List (Call Handle Mutex)} {position : Nat}
    {call : Call Handle Mutex} (hcall : calls[position]? = some call) :
    (calls.map Call.handle).count handle =
      [call.handle].count handle + ((calls.eraseIdx position).map Call.handle).count handle := by
  rw [((ThreadPool.perm_eraseIdx hcall).map Call.handle).count_eq, ← List.count_append]
  rfl

end Places

section Pool

variable [DecidableEq Mutex] {pool pool' : ThreadPool.State (Job Handle Mutex) Mutex maxThreads}

omit [DecidableEq Handle] [DecidableEq Mutex] in
theorem executing_eq_some {worker : Fin maxThreads}
    {duty : ThreadPool.Duty (Job Handle Mutex) Mutex}
    (hfrom : pool.place worker = .executing duty) : executing pool worker = some duty.job := by
  rw [executing, hfrom]

omit [DecidableEq Handle] in
/-- The pool takes a job unless it has no room, and then says so. -/
theorem handles_of_addJob {call : Call Handle Mutex} {status : StatusCode}
    (h : State.addJob pool (.operation call) = some (status, pool')) :
    (status = badResourceUnavailable ∧ (pool'.outstanding.filterMap Job.handle?).Perm
        (pool.outstanding.filterMap Job.handle?)) ∨
      status = StatusCode.opcUaGood ∧ (pool'.outstanding.filterMap Job.handle?).Perm
        (call.handle :: pool.outstanding.filterMap Job.handle?) := by
  obtain ⟨added, hstep, heq⟩ := Option.map_eq_some_iff.mp h
  obtain ⟨hstatus, rfl⟩ := Prod.mk.inj heq
  cases ThreadPool.outlook_of_step hstep with
  | keeps hother hfull houtstanding =>
      rw [if_pos (hfull _ rfl)] at hstatus
      exact .inl ⟨hstatus.symm, houtstanding.filterMap Job.handle?⟩
  | accepts job hevent hroom houtstanding =>
      cases hevent
      rw [if_neg (Nat.not_le_of_lt hroom)] at hstatus
      exact .inr ⟨hstatus.symm, houtstanding.filterMap Job.handle?⟩
  | executes worker duty hevent hfrom houtstanding => cases hevent

omit [DecidableEq Handle] in
theorem handles_of_executed {worker : Fin maxThreads} {call : Call Handle Mutex}
    (hexecuting : executing pool worker = some (.operation call))
    (h : ThreadPool.step Job.associatedMutex pool (.finishExecute worker) = some pool') :
    (pool.outstanding.filterMap Job.handle?).Perm
      (call.handle :: pool'.outstanding.filterMap Job.handle?) := by
  cases ThreadPool.outlook_of_step h with
  | keeps hother hfull houtstanding => exact absurd rfl (hother worker)
  | accepts job hevent hroom houtstanding => cases hevent
  | executes worker' duty hevent hfrom houtstanding =>
      cases hevent
      have hjob := (executing_eq_some hfrom).symm.trans hexecuting
      rw [Option.some.inj hjob] at houtstanding
      exact houtstanding.filterMap Job.handle?

omit [DecidableEq Handle] in
theorem handles_of_isOther {e : ThreadPool.Event (Job Handle Mutex) maxThreads}
    (hother : isOther pool e = true)
    (h : ThreadPool.step Job.associatedMutex pool e = some pool') :
    (pool'.outstanding.filterMap Job.handle?).Perm
      (pool.outstanding.filterMap Job.handle?) := by
  cases ThreadPool.outlook_of_step h with
  | keeps hnot hfull houtstanding => exact houtstanding.filterMap Job.handle?
  | accepts job hevent hroom houtstanding =>
      subst hevent
      have hnone := Option.isNone_iff_eq_none.mp hother
      have hjobs := houtstanding.filterMap Job.handle?
      rwa [List.filterMap_cons_none hnone] at hjobs
  | executes worker duty hevent hfrom houtstanding =>
      subst hevent
      simp only [isOther, executing_eq_some hfrom, Option.bind_some] at hother
      have hnone := Option.isNone_iff_eq_none.mp hother
      have hjobs := houtstanding.filterMap Job.handle?
      rw [List.filterMap_cons_none hnone] at hjobs
      exact hjobs.symm

/-- With the call the pool gets its handle, or the call completes it. -/
theorem count_places_dispatch (handle : Handle) {call : Call Handle Mutex} {threadPool : Bool}
    (h : s.dispatch call threadPool = some s') :
    s'.places.count handle = [call.handle].count handle + s.places.count handle := by
  obtain ⟨⟨dispatchStatus, pool⟩, hdispatch, rfl⟩ := Option.map_eq_some_iff.mp h
  cases threadPool with
  | false =>
      cases hdispatch
      simp only [isGood_badOutOfService, Bool.not_false, if_true]
      exact count_places_complete call.handle handle s _ none
  | true =>
      rcases handles_of_addJob hdispatch with ⟨rfl, hhandles⟩ | ⟨rfl, hhandles⟩
      · simp only [isGood_badResourceUnavailable, Bool.not_false, if_true]
        rw [count_places_complete]
        simp only [count_places_eq, hhandles.count_eq]
      · simp only [StatusCode.isGood_opcUaGood, Bool.not_true, Bool.false_eq_true, if_false,
          count_places_eq, hhandles.count_eq, List.count_cons, List.count_nil]
        omega

end Pool

section Steps

omit [DecidableEq Handle] in
theorem begun_beginIo (s : State Handle Value Mutex maxThreads) (access : Access)
    (direction : Direction) (handle : Handle) (mutex : Option Mutex) (base : Answer Value) :
    (s.beginIo access direction handle mutex base).begun = s.begun := by
  unfold State.beginIo
  split
  · rfl
  split
  · rfl
  dsimp only
  split
  · rfl
  · rfl

theorem Accounted.same (hs : Accounted s) (hbegun : s'.begun = s.begun)
    (hplaces : ∀ handle, s'.places.count handle = s.places.count handle) : Accounted s' where
  nodup := hbegun ▸ hs.nodup
  count_places handle := by rw [hplaces, hs.count_places, hbegun]

theorem Accounted.begun_step {handle : Handle} (hs : Accounted s) (hnew : handle ∉ s.begun)
    (access : Access) (direction : Direction) (mutex : Option Mutex) (base : Answer Value) :
    Accounted ({ s with begun := s.begun ++ [handle] }.beginIo access direction handle mutex
      base) := by
  constructor
  · rw [begun_beginIo]
    exact List.nodup_append.mpr ⟨hs.nodup, List.nodup_singleton handle, by
      rintro a ha b hb rfl
      exact hnew (List.mem_singleton.mp hb ▸ ha)⟩
  · intro handle'
    rw [begun_beginIo, count_places_beginIo, List.count_append, ← hs.count_places, Nat.add_comm]
    rfl

variable [DecidableEq Mutex]

omit [DecidableEq Handle] in
theorem begun_dispatch {call : Call Handle Mutex} {threadPool : Bool}
    (h : s.dispatch call threadPool = some s') : s'.begun = s.begun := by
  obtain ⟨dispatched, -, rfl⟩ := Option.map_eq_some_iff.mp h
  dsimp only
  split
  · rfl
  · rfl

/-- Every step leaves each handle in one place. -/
theorem accounted_step {e : Event Handle Value Mutex maxThreads} (hs : Accounted s)
    (h : step s e = some s') : Accounted s' := by
  cases e with
  | beginIo v direction handle mutex base =>
      simp only [step] at h
      split at h
      · cases h
      rename_i hnew
      cases direction with
      | read =>
          cases h
          exact hs.begun_step hnew (v.access .read) .read mutex base
      | write =>
          cases h
          exact hs.begun_step hnew (v.access .write) .write mutex base
  | dispatch position threadPool =>
      simp only [step] at h
      split at h
      · cases h
      rename_i call hcall
      have hbegun := begun_dispatch h
      refine hs.same hbegun fun handle => ?_
      rw [count_places_dispatch handle h, count_places_eq, count_places_eq,
        count_map_eraseIdx handle hcall]
      dsimp only
      omega
  | finish position variant ending =>
      simp only [step] at h
      split at h
      · cases h
      rename_i call hcall
      cases h
      refine hs.same rfl fun handle => ?_
      rw [count_places_complete, count_places_eq, count_places_eq,
        count_map_eraseIdx handle hcall]
      dsimp only
      omega
  | execute worker variant ending =>
      simp only [step] at h
      split at h
      · rename_i call hexecuting
        obtain ⟨pool, hpool, rfl⟩ := Option.map_eq_some_iff.mp h
        refine hs.same rfl fun handle => ?_
        rw [count_places_complete, count_places_eq, count_places_eq,
          (handles_of_executed hexecuting hpool).count_eq, List.count_cons]
        simp only [List.count_cons, List.count_nil]
        omega
      · cases h
  | pool e =>
      simp only [step] at h
      split at h
      · rename_i hother
        obtain ⟨pool, hpool, rfl⟩ := Option.map_eq_some_iff.mp h
        refine hs.same rfl fun handle => ?_
        rw [count_places_eq, count_places_eq, (handles_of_isOther hother hpool).count_eq]
      · cases h

end Steps

section Completed

/-- No call with this handle is under way. -/
def State.Returned (s : State Handle Value Mutex maxThreads) (handle : Handle) : Prop :=
  ∀ call ∈ s.dispatching ++ s.delegating, call.handle ≠ handle

/-- The pool has run the job with this handle, if it has accepted one. -/
def State.Ran (s : State Handle Value Mutex maxThreads) (handle : Handle) : Prop :=
  ∀ job ∈ s.pool.outstanding, job.handle? ≠ some handle

def State.completed (s : State Handle Value Mutex maxThreads) (handle : Handle) : Nat :=
  (s.completions.map Completion.handle).count handle

/-- No handle is completed twice, nor one that no call has, and the handle of a call is
completed when the call has returned and its job has run. -/
structure CompletesOnce (s : State Handle Value Mutex maxThreads) : Prop where
  atMostOnce : ∀ handle, s.completed handle ≤ 1
  onlyBegun : ∀ handle, handle ∉ s.begun → s.completed handle = 0
  once : ∀ handle ∈ s.begun, s.Returned handle → s.Ran handle → s.completed handle = 1

theorem Accounted.completesOnce (hs : Accounted s) : CompletesOnce s := by
  have hcount : ∀ handle, s.completed handle ≤ s.begun.count handle := by
    intro handle
    rw [← hs.count_places, count_places_eq, State.completed]
    omega
  constructor
  · exact fun handle => (hcount handle).trans (List.nodup_iff_count_le_one.mp hs.nodup handle)
  · intro handle hnot
    have hzero := List.count_eq_zero_of_not_mem hnot
    have := hcount handle
    omega
  · intro handle hmem hreturned hran
    have hone := List.count_eq_one_of_mem hs.nodup hmem
    have hdispatching : (s.dispatching.map Call.handle).count handle = 0 := by
      refine List.count_eq_zero_of_not_mem ?_
      rw [List.mem_map]
      rintro ⟨call, hcall, hhandle⟩
      exact hreturned call (List.mem_append_left _ hcall) hhandle
    have hdelegating : (s.delegating.map Call.handle).count handle = 0 := by
      refine List.count_eq_zero_of_not_mem ?_
      rw [List.mem_map]
      rintro ⟨call, hcall, hhandle⟩
      exact hreturned call (List.mem_append_right _ hcall) hhandle
    have hjobs : (s.pool.outstanding.filterMap Job.handle?).count handle = 0 := by
      refine List.count_eq_zero_of_not_mem ?_
      rw [List.mem_filterMap]
      rintro ⟨job, hjob, hhandle⟩
      exact hran job hjob hhandle
    rw [← hs.count_places, count_places_eq] at hone
    rw [State.completed]
    omega

variable [DecidableEq Mutex]

/-- However calls, workers and other users of the pool take turns, and whatever members,
mutexes and delegates the variables have, each handle is completed exactly once. -/
theorem completesOnce_throughout (maxJobs : Nat)
    (es : List (Event Handle Value Mutex maxThreads)) :
    Throughout step CompletesOnce ⟨[], [], [], ThreadPool.start maxJobs, []⟩ es := by
  refine throughout_of_invariant (I := Accounted) ?_ ?_ ?_ es
  · intro s e s' hs h
    exact accounted_step hs h
  · intro s hs
    exact hs.completesOnce
  · refine ⟨List.nodup_nil, fun handle => ?_⟩
    simp [State.places, ThreadPool.State.outstanding, ThreadPool.start,
      ThreadPool.Place.unexecuted]

end Completed

end ASSourceVariable

end Supernova
