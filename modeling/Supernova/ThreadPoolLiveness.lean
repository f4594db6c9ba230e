/-
What the thread pool does eventually.  Every accepted job is executed to its end,
however many others are submitted, as long as the workers are scheduled and jobs
return; and once the pool is told to quit, all workers return.
-/
import Mathlib.Data.Fintype.Basic
import Mathlib.Data.List.GetD
import Mathlib.Tactic.IntervalCases
import Supernova.FairRuns
import Supernova.ThreadPoolProgress

namespace Supernova

namespace ThreadPool

variable {Job Mutex : Type} {maxThreads : Nat} {associatedMutex : Job → Option Mutex}

section Phases

/-- How many steps a worker is from having finished its job. -/
def Place.toFinish : Place Job Mutex → Nat
  | .executing _ => 3
  | .executed _ => 2
  | .unlocked _ => 1
  | _ => 0

/-- How many steps a worker is from the turn of its next scan. -/
def Place.toScan : Place Job Mutex → Nat
  | .executing _ => 6
  | .executed _ => 5
  | .unlocked _ => 4
  | .counted _ => 3
  | .waiting => 3
  | .idle => 2
  | .scanning _ => 1
  | .returned => 0

/-- The next scan that begins takes this job, if it is the first one. -/
structure Available (associatedMutex : Job → Option Mutex) (job : Job)
    (s : State Job Mutex maxThreads) : Prop where
  free : ∀ mutex, associatedMutex job = some mutex → s.owner mutex = none
  fresh : ∀ worker position, s.place worker = .scanning position → position = 0

/-- The worker is to unlock the mutex of this job. -/
def Holding (associatedMutex : Job → Option Mutex) (job : Job) (worker : Fin maxThreads)
    (s : State Job Mutex maxThreads) : Prop :=
  ∃ duty mutex, (s.place worker = .executing duty ∨ s.place worker = .executed duty) ∧
    associatedMutex duty.job = some mutex ∧ associatedMutex job = some mutex

/-- The worker is in the middle of its scan, and the mutex of this job is free. -/
def Passing (associatedMutex : Job → Option Mutex) (job : Job) (worker : Fin maxThreads)
    (s : State Job Mutex maxThreads) : Prop :=
  (∃ position, s.place worker = .scanning position) ∧
    ∀ mutex, associatedMutex job = some mutex → s.owner mutex = none

variable {s s' : State Job Mutex maxThreads} {e : Event Job maxThreads} {job : Job}
  {worker : Fin maxThreads}

theorem Available.update (h : Available associatedMutex job s) {place : Place Job Mutex}
    (hplace : s'.place = Function.update s.place worker place)
    (hfree : ∀ mutex, s.owner mutex = none → s'.owner mutex = none)
    (hfresh : ∀ position, place = .scanning position → position = 0) :
    Available associatedMutex job s' where
  free mutex hmutex := hfree mutex (h.free mutex hmutex)
  fresh w position hw := by
    rw [hplace] at hw
    by_cases heq : w = worker
    · subst heq
      rw [Function.update_self] at hw
      exact hfresh position hw
    · rw [Function.update_of_ne heq] at hw
      exact h.fresh w position hw

theorem available_of_unlocked (hguarded : Guarded s) (haccess : s.accessLock = none)
    (hfree : ∀ mutex, associatedMutex job = some mutex → s.owner mutex = none) :
    Available associatedMutex job s where
  free := hfree
  fresh w position hw := by
    have hlocked := (hguarded w).mpr ⟨position, hw⟩
    rw [haccess] at hlocked
    cases hlocked

/-- Whatever the first job is, its mutex is free for the next scan, or held by a worker
that is to unlock it, or free with a scan going on. -/
theorem first_cases (job : Job) (hguarded : Guarded s) (hattributed : Attributed associatedMutex s) :
    Available associatedMutex job s ∨ (∃ worker, Holding associatedMutex job worker s) ∨
      ∃ worker, Passing associatedMutex job worker s := by
  by_cases hfree : ∀ mutex, associatedMutex job = some mutex → s.owner mutex = none
  · cases haccess : s.accessLock with
    | none => exact .inl (available_of_unlocked hguarded haccess hfree)
    | some worker => exact .inr (.inr ⟨worker, (hguarded worker).mp haccess, hfree⟩)
  · push Not at hfree
    obtain ⟨mutex, hmutex, howner⟩ := hfree
    obtain ⟨worker, howned⟩ := Option.ne_none_iff_exists'.mp howner
    have hheld := hattributed.owner mutex worker howned
    cases hplace : s.place worker with
    | executing duty =>
        rw [hplace, Place.held_executing] at hheld
        have hlock := hattributed.lock worker duty (by rw [hplace]; rfl)
        exact .inr (.inl ⟨worker, duty, mutex, .inl hplace, hlock.symm.trans hheld, hmutex⟩)
    | executed duty =>
        rw [hplace, Place.held_executed] at hheld
        have hlock := hattributed.lock worker duty (by rw [hplace]; rfl)
        exact .inr (.inl ⟨worker, duty, mutex, .inr hplace, hlock.symm.trans hheld, hmutex⟩)
    | idle | scanning | waiting | unlocked | counted | returned =>
        rw [hplace] at hheld
        cases hheld

variable [DecidableEq Mutex]

theorem toFinish_step (hstep : step associatedMutex s e = some s')
    (hworker : e.worker = some worker) (hrunning : (s.place worker).running ≠ none) :
    (s'.place worker).toFinish < (s.place worker).toFinish := by
  have hnot : ∀ {place : Place Job Mutex}, s.place worker = place → place.running ≠ none :=
    fun hplace => hplace ▸ hrunning
  cases steps_of_step hstep with
  | refuses job haccess hfull => cases hworker
  | accepts job haccess hroom => cases hworker
  | counts hcount => cases hworker
  | returns w hfrom haccess =>
      cases hworker
      exact absurd rfl (hnot hfrom)
  | enters w hfrom haccess =>
      cases hworker
      exact absurd rfl (hnot hfrom)
  | scans w position hfrom =>
      cases hworker
      exact absurd rfl (hnot hfrom)
  | wakes w hfrom =>
      cases hworker
      exact absurd rfl (hnot hfrom)
  | executes w duty hfrom =>
      cases hworker
      simp [State.goTo, hfrom, Place.toFinish]
  | skips w duty hfrom hmutex =>
      cases hworker
      simp [State.goTo, hfrom, Place.toFinish]
  | unlocks w duty mutex hfrom hmutex haccess =>
      cases hworker
      simp [State.goTo, hfrom, Place.toFinish]
  | finishes w duty hfrom =>
      cases hworker
      simp [State.goTo, hfrom, Place.toFinish]
  | drops w duty hfrom hlock =>
      cases hworker
      exact absurd rfl (hnot hfrom)
  | destroys w duty mutex hfrom hlock =>
      cases hworker
      exact absurd rfl (hnot hfrom)
  | quits => cases hworker
  | flushes hquit hreturned => cases hworker

theorem toScan_step (hstep : step associatedMutex s e = some s')
    (hworker : e.worker = some worker) (hfresh : ∀ position, s.place worker ≠ .scanning position) :
    (s'.place worker).toScan < (s.place worker).toScan := by
  cases steps_of_step hstep with
  | refuses job haccess hfull => cases hworker
  | accepts job haccess hroom => cases hworker
  | counts hcount => cases hworker
  | scans w position hfrom =>
      cases hworker
      exact absurd hfrom (hfresh position)
  | returns w hfrom haccess =>
      cases hworker
      simp [State.goTo, hfrom, Place.toScan]
  | enters w hfrom haccess =>
      cases hworker
      simp [State.goTo, hfrom, Place.toScan]
  | wakes w hfrom =>
      cases hworker
      simp [State.goTo, hfrom, Place.toScan]
  | executes w duty hfrom =>
      cases hworker
      simp [State.goTo, hfrom, Place.toScan]
  | skips w duty hfrom hmutex =>
      cases hworker
      simp [State.goTo, hfrom, Place.toScan]
  | unlocks w duty mutex hfrom hmutex haccess =>
      cases hworker
      simp [State.goTo, hfrom, Place.toScan]
  | finishes w duty hfrom =>
      cases hworker
      simp [State.goTo, hfrom, Place.toScan]
  | drops w duty hfrom hlock =>
      cases hworker
      simp [State.goTo, hfrom, Place.toScan]
  | destroys w duty mutex hfrom hlock =>
      cases hworker
      simp [State.goTo, hfrom, Place.toScan]
  | quits => cases hworker
  | flushes hquit hreturned => cases hworker

theorem unlockMutex_free (worker : Fin maxThreads) {mutex mutex' : Mutex}
    (h : s.owner mutex' = none) : (s.unlockMutex worker mutex).owner mutex' = none := by
  simp only [State.unlockMutex]
  by_cases hm : mutex' = mutex
  · subst hm
    exact Function.update_self _ _ _
  · rwa [Function.update_of_ne hm]

/-- The first job stays available until a scan takes it. -/
theorem available_step (h : Available associatedMutex job s)
    (hstep : step associatedMutex s e = some s') : Available associatedMutex job s' ∨
      ∃ worker, e = .scan worker ∧ s.place worker = .scanning 0 := by
  cases steps_of_step hstep with
  | refuses job haccess hfull => exact .inl h
  | accepts job haccess hroom => exact .inl ⟨h.free, h.fresh⟩
  | counts hcount => exact .inl ⟨h.free, h.fresh⟩
  | returns w hfrom haccess => exact .inl (h.update rfl (fun _ hfree => hfree) (by simp))
  | enters w hfrom haccess => exact .inl (h.update rfl (fun _ hfree => hfree) (by simp))
  | scans w position hfrom =>
      cases h.fresh w position hfrom
      exact .inr ⟨w, rfl, hfrom⟩
  | wakes w hfrom => exact .inl (h.update rfl (fun _ hfree => hfree) (by simp))
  | executes w duty hfrom => exact .inl (h.update rfl (fun _ hfree => hfree) (by simp))
  | skips w duty hfrom hmutex => exact .inl (h.update rfl (fun _ hfree => hfree) (by simp))
  | unlocks w duty mutex hfrom hmutex haccess =>
      exact .inl (h.update rfl (fun _ hfree => unlockMutex_free w hfree) (by simp))
  | finishes w duty hfrom => exact .inl (h.update rfl (fun _ hfree => hfree) (by simp))
  | drops w duty hfrom hlock => exact .inl (h.update rfl (fun _ hfree => hfree) (by simp))
  | destroys w duty mutex hfrom hlock =>
      exact .inl (h.update rfl (fun _ hfree => unlockMutex_free w hfree) (by simp))
  | quits => exact .inl ⟨h.free, h.fresh⟩
  | flushes hquit hreturned => exact .inl ⟨h.free, h.fresh⟩

/-- A scan that begins takes the first job when it is available. -/
theorem scan_available {base : Multiset Job} {front : List Job}
    {busy : Finset (Fin maxThreads)} (h : Available associatedMutex job s)
    (howes : Owes base (job :: front) busy s) (hfrom : s.place worker = .scanning 0)
    (hstep : step associatedMutex s (.scan worker) = some s') :
    OwesLess base (2 * (job :: front).length + busy.card) s' := by
  obtain ⟨later, hpending⟩ := howes.waiting
  have hfirst : s.pendingJobs[0]? = some job := by rw [hpending]; rfl
  simp only [step, hfrom, Option.some.injEq] at hstep
  subst hstep
  cases hmutex : associatedMutex job with
  | none =>
      have htakes : findSomeDuty associatedMutex s worker 0 =
          takeDuty s worker 0 ⟨job, none⟩ := by
        simp [findSomeDuty, hfirst, hmutex]
      rw [htakes]
      exact owesLess_of_takes howes hfrom hfirst rfl rfl rfl (Nat.succ_pos _)
  | some mutex =>
      have htakes : findSomeDuty associatedMutex s worker 0 =
          takeDuty (s.lockMutex worker mutex) worker 0 ⟨job, some mutex⟩ := by
        simp [findSomeDuty, hfirst, hmutex, h.free mutex hmutex]
      rw [htakes]
      exact owesLess_of_takes howes hfrom hfirst rfl rfl rfl (Nat.succ_pos _)

/-- A worker keeps what it is to unlock until it unlocks it, and then the job is available. -/
theorem holding_step (h : Holding associatedMutex job worker s) (hguarded : Guarded s)
    (hstep : step associatedMutex s e = some s') :
    Available associatedMutex job s' ∨ Holding associatedMutex job worker s' := by
  obtain ⟨duty, mutex, hplace, hduty, hjob⟩ := h
  by_cases hworker : e.worker = some worker
  · have hat : ∀ {place : Place Job Mutex}, s.place worker = place →
        place = .executing duty ∨ place = .executed duty := fun hp => hp ▸ hplace
    cases steps_of_step hstep with
    | refuses job haccess hfull => cases hworker
    | accepts job haccess hroom => cases hworker
    | counts hcount => cases hworker
    | returns w hfrom haccess =>
        cases hworker
        exact absurd (hat hfrom) (by simp)
    | enters w hfrom haccess =>
        cases hworker
        exact absurd (hat hfrom) (by simp)
    | scans w position hfrom =>
        cases hworker
        exact absurd (hat hfrom) (by simp)
    | wakes w hfrom =>
        cases hworker
        exact absurd (hat hfrom) (by simp)
    | executes w duty' hfrom =>
        cases hworker
        have hsame : duty' = duty := by simpa using hat hfrom
        exact .inr ⟨duty, mutex, .inr (by simp [State.goTo, hsame]), hduty, hjob⟩
    | skips w duty' hfrom hmutex =>
        cases hworker
        have hsame : duty' = duty := by simpa using hat hfrom
        rw [hsame, hduty] at hmutex
        cases hmutex
    | unlocks w duty' mutex' hfrom hmutex haccess =>
        cases hworker
        have hsame : duty' = duty := by simpa using hat hfrom
        rw [hsame, hduty, Option.some.injEq] at hmutex
        subst hmutex
        refine .inl ⟨?_, ?_⟩
        · intro mutex' hmutex'
          rw [hjob, Option.some.injEq] at hmutex'
          subst hmutex'
          simp [State.goTo, State.unlockMutex]
        · intro w position hw
          by_cases heq : w = worker
          · subst heq
            simp [State.goTo] at hw
          · simp only [State.goTo, State.unlockMutex, Function.update_of_ne heq] at hw
            have hlocked := (hguarded w).mpr ⟨position, hw⟩
            rw [haccess] at hlocked
            cases hlocked
    | finishes w duty' hfrom =>
        cases hworker
        exact absurd (hat hfrom) (by simp)
    | drops w duty' hfrom hlock =>
        cases hworker
        exact absurd (hat hfrom) (by simp)
    | destroys w duty' mutex' hfrom hlock =>
        cases hworker
        exact absurd (hat hfrom) (by simp)
    | quits => cases hworker
    | flushes hquit hreturned => cases hworker
  · refine .inr ⟨duty, mutex, ?_, hduty, hjob⟩
    rw [place_of_other hstep hworker]
    exact hplace

/-- What is left of a scan. -/
def State.remaining (s : State Job Mutex maxThreads) (worker : Fin maxThreads) : Nat :=
  match s.place worker with
  | .scanning position => s.pendingJobs.length + 1 - position
  | _ => 0

/-- Nothing changes under a scan that it could miss. -/
theorem others_while_scanning {position : Nat} (hguarded : Guarded s)
    (hfrom : s.place worker = .scanning position)
    (hstep : step associatedMutex s e = some s') (hother : e.worker ≠ some worker) :
    s'.pendingJobs = s.pendingJobs ∧ ∀ mutex, s.owner mutex = none → s'.owner mutex = none := by
  have hlocked := (hguarded worker).mpr ⟨position, hfrom⟩
  cases steps_of_step hstep with
  | accepts job haccess hroom =>
      rw [haccess] at hlocked
      cases hlocked
  | scans w position' hfrom' =>
      have hlocked' := (hguarded w).mpr ⟨position', hfrom'⟩
      rw [hlocked, Option.some.injEq] at hlocked'
      exact absurd (congrArg some hlocked'.symm) hother
  | flushes hset hreturned =>
      have hworker := hreturned worker
      rw [hfrom] at hworker
      cases hworker
  | refuses job haccess hfull => exact ⟨rfl, fun _ hfree => hfree⟩
  | counts hcount => exact ⟨rfl, fun _ hfree => hfree⟩
  | returns w hfrom haccess => exact ⟨rfl, fun _ hfree => hfree⟩
  | enters w hfrom haccess => exact ⟨rfl, fun _ hfree => hfree⟩
  | wakes w hfrom => exact ⟨rfl, fun _ hfree => hfree⟩
  | executes w duty hfrom => exact ⟨rfl, fun _ hfree => hfree⟩
  | skips w duty hfrom hmutex => exact ⟨rfl, fun _ hfree => hfree⟩
  | unlocks w duty mutex hfrom hmutex haccess =>
      exact ⟨rfl, fun _ hfree => unlockMutex_free w hfree⟩
  | finishes w duty hfrom => exact ⟨rfl, fun _ hfree => hfree⟩
  | drops w duty hfrom hlock => exact ⟨rfl, fun _ hfree => hfree⟩
  | destroys w duty mutex hfrom hlock => exact ⟨rfl, fun _ hfree => unlockMutex_free w hfree⟩
  | quits => exact ⟨rfl, fun _ hfree => hfree⟩

/-- The end of a scan either leaves the mutex of a job free for the next one or locks it;
the turns before bring the end nearer. -/
theorem scan_passing {position : Nat} (hguarded : Guarded s)
    (hfrom : s.place worker = .scanning position)
    (hfree : ∀ mutex, associatedMutex job = some mutex → s.owner mutex = none)
    (hstep : step associatedMutex s (.scan worker) = some s') :
    Available associatedMutex job s' ∨ Holding associatedMutex job worker s' ∨
      Passing associatedMutex job worker s' ∧ s'.remaining worker < s.remaining worker := by
  have hguarded' := guarded_step hguarded hstep
  simp only [step, hfrom, Option.some.injEq] at hstep
  subst hstep
  have hturn := turn_findSomeDuty associatedMutex s worker position
  generalize findSomeDuty associatedMutex s worker position = s' at hturn hguarded' ⊢
  cases hturn with
  | ends hnone => exact .inl (available_of_unlocked hguarded' rfl hfree)
  | takes job' hjob hmutex => exact .inl (available_of_unlocked hguarded' rfl hfree)
  | locks job' mutex hjob hmutex howner =>
      by_cases hsame : associatedMutex job = some mutex
      · refine .inr (.inl ⟨⟨job', some mutex⟩, mutex, .inl ?_, hmutex, hsame⟩)
        exact Function.update_self _ _ _
      · refine .inl (available_of_unlocked hguarded' rfl ?_)
        intro mutex' hmutex'
        have hne : mutex' ≠ mutex := by
          rintro rfl
          exact hsame hmutex'
        exact (Function.update_of_ne hne _ _).trans (hfree mutex' hmutex')
  | passes job' mutex hjob hmutex hlocked =>
      have hplace : (s.goTo worker (.scanning (position + 1))).place worker =
          .scanning (position + 1) := Function.update_self _ _ _
      refine .inr (.inr ⟨⟨⟨position + 1, hplace⟩, hfree⟩, ?_⟩)
      have hlt := (List.getElem?_eq_some_iff.mp hjob).1
      simp only [State.remaining, hplace, hfrom]
      simp only [State.goTo]
      omega

/-- The only step of a worker in its scan is the next turn of it. -/
theorem eq_scan_of_scanning {position : Nat} (hfrom : s.place worker = .scanning position)
    (hstep : step associatedMutex s e = some s') (hworker : e.worker = some worker) :
    e = .scan worker := by
  have hat : ∀ {place : Place Job Mutex}, s.place worker = place →
      place = .scanning position := fun hp => hp ▸ hfrom
  cases steps_of_step hstep with
  | refuses job haccess hfull => cases hworker
  | accepts job haccess hroom => cases hworker
  | counts hcount => cases hworker
  | scans w position' hfrom' =>
      cases hworker
      rfl
  | returns w hfrom' haccess =>
      cases hworker
      cases hat hfrom'
  | enters w hfrom' haccess =>
      cases hworker
      cases hat hfrom'
  | wakes w hfrom' =>
      cases hworker
      cases hat hfrom'
  | executes w duty hfrom' =>
      cases hworker
      cases hat hfrom'
  | skips w duty hfrom' hmutex =>
      cases hworker
      cases hat hfrom'
  | unlocks w duty mutex hfrom' hmutex haccess =>
      cases hworker
      cases hat hfrom'
  | finishes w duty hfrom' =>
      cases hworker
      cases hat hfrom'
  | drops w duty hfrom' hlock =>
      cases hworker
      cases hat hfrom'
  | destroys w duty mutex hfrom' hlock =>
      cases hworker
      cases hat hfrom'
  | quits => cases hworker
  | flushes hset hreturned => cases hworker

/-- A scan goes on to its end. -/
theorem passing_step (h : Passing associatedMutex job worker s) (hguarded : Guarded s)
    (hstep : step associatedMutex s e = some s') :
    Available associatedMutex job s' ∨ Holding associatedMutex job worker s' ∨
      Passing associatedMutex job worker s' ∧ s'.remaining worker ≤ s.remaining worker ∧
        (e.worker = some worker → s'.remaining worker < s.remaining worker) := by
  obtain ⟨⟨position, hfrom⟩, hfree⟩ := h
  by_cases hworker : e.worker = some worker
  · have hscan := eq_scan_of_scanning hfrom hstep hworker
    subst hscan
    rcases scan_passing hguarded hfrom hfree hstep with h | h | ⟨h, hlt⟩
    · exact .inl h
    · exact .inr (.inl h)
    · exact .inr (.inr ⟨h, hlt.le, fun _ => hlt⟩)
  · obtain ⟨hpending, howner⟩ := others_while_scanning hguarded hfrom hstep hworker
    have hplace := (place_of_other hstep hworker).trans hfrom
    refine .inr (.inr ⟨⟨⟨position, hplace⟩, fun mutex hmutex => howner mutex (hfree mutex hmutex)⟩,
      le_of_eq ?_, fun hsame => absurd hsame hworker⟩)
    simp only [State.remaining, hplace, hfrom, hpending]

end Phases

section Runs

theorem attributed_start (maxJobs : Nat) :
    Attributed associatedMutex (start maxJobs : State Job Mutex maxThreads) :=
  ⟨by simp [start, Place.duty], by simp [start], by simp [start]⟩

theorem runningOf_busy (s : State Job Mutex maxThreads) :
    s.runningOf (Finset.univ.filter fun worker => (s.place worker).running.isSome) =
      (s.running : Multiset Job) := by
  have hcases : ∀ worker, (if (s.place worker).running.isSome then (s.place worker).running
      else none) = (s.place worker).running := by
    intro worker
    cases (s.place worker).running <;> rfl
  rw [State.runningOf, Finset.filter_val, Multiset.filterMap_filter]
  simp only [hcases]
  rw [Fin.univ_def]
  rfl

variable [DecidableEq Mutex]

/-- The pool with its workers, for ever. -/
abbrev Schedule (maxThreads : Nat) (associatedMutex : Job → Option Mutex) :=
  Execution (step associatedMutex : State Job Mutex maxThreads → Event Job maxThreads → _)

/-- Every worker that has not returned takes another step: the scheduler and the locks
starve nobody, and no job runs forever. -/
def Fair (x : Schedule maxThreads associatedMutex) : Prop :=
  ∀ worker, Recurs fun n =>
    (x.event n).worker = some worker ∨ (x.state n).place worker = .returned

variable {x : Schedule maxThreads associatedMutex} {maxJobs : Nat}
  {base : Multiset Job} {front : List Job} {busy : Finset (Fin maxThreads)}

theorem guarded_state (hstart : x.state 0 = start maxJobs) (n : Nat) : Guarded (x.state n) := by
  refine x.invariant (fun s e s' h hstep => guarded_step h hstep) ?_ n
  rw [hstart]
  intro worker
  simp [start]

theorem attributed_state (hstart : x.state 0 = start maxJobs) (n : Nat) :
    Attributed associatedMutex (x.state n) := by
  refine x.invariant (fun s e s' h hstep => attributed_step h hstep) ?_ n
  rw [hstart]
  exact attributed_start maxJobs

/-- While the pool does not quit, every worker acts again and again. -/
theorem acts (hstart : x.state 0 = start maxJobs) (hfair : Fair x)
    (hquit : ∀ n, (x.state n).quit = false) (worker : Fin maxThreads) :
    Recurs fun n => (x.event n).worker = some worker := by
  intro n
  obtain ⟨m, hm, hacts | hreturned⟩ := hfair worker n
  · exact ⟨m, hm, hacts⟩
  · have hset := (attributed_state hstart m).returned worker hreturned
    rw [hquit m] at hset
    cases hset

theorem leadsTo_of_busy (hstart : x.state 0 = start maxJobs) (hfair : Fair x)
    (hquit : ∀ n, (x.state n).quit = false) {worker : Fin maxThreads} (hworker : worker ∈ busy) :
    LeadsTo (fun n => Owes base front busy (x.state n))
      fun n => OwesLess base (2 * front.length + busy.card) (x.state n) := by
  refine LeadsTo.of_variant (fun n => ((x.state n).place worker).toFinish) ?_ ?_
    (acts hstart hfair hquit worker)
  · intro n h
    rcases owes_step h (x.step_state n) (hquit n) with h' | h'
    · by_cases hacts : (x.event n).worker = some worker
      · exact .inr ⟨h', (toFinish_step (x.step_state n) hacts (h.begun worker hworker)).le⟩
      · rw [place_of_other (x.step_state n) hacts]
        exact .inr ⟨h', le_rfl⟩
    · exact .inl h'
  · intro n h hacts
    rcases owes_step h (x.step_state n) (hquit n) with h' | h'
    · exact .inr ⟨h', toFinish_step (x.step_state n) hacts (h.begun worker hworker)⟩
    · exact .inl h'

/-- An available first job is taken by the next scan, whoever makes it. -/
theorem leadsTo_of_available (hstart : x.state 0 = start maxJobs) (hfair : Fair x)
    (hquit : ∀ n, (x.state n).quit = false) (worker : Fin maxThreads) (job : Job) :
    LeadsTo (fun n => Owes base (job :: front) busy (x.state n) ∧
        Available associatedMutex job (x.state n))
      fun n => OwesLess base (2 * (job :: front).length + busy.card) (x.state n) := by
  have hkeep : ∀ n, Owes base (job :: front) busy (x.state n) ∧
      Available associatedMutex job (x.state n) →
      OwesLess base (2 * (job :: front).length + busy.card) (x.state (n + 1)) ∨
        (Owes base (job :: front) busy (x.state (n + 1)) ∧
          Available associatedMutex job (x.state (n + 1))) ∧
        ∀ w position, x.event n = .scan w → (x.state n).place w ≠ .scanning position := by
    rintro n ⟨howes, havailable⟩
    by_cases hscan : ∃ w, x.event n = .scan w ∧ (x.state n).place w = .scanning 0
    · obtain ⟨w, hevent, hfrom⟩ := hscan
      exact .inl (scan_available havailable howes hfrom (hevent ▸ x.step_state n))
    · rcases owes_step howes (x.step_state n) (hquit n) with h' | h'
      · rcases available_step havailable (x.step_state n) with h'' | h''
        · refine .inr ⟨⟨h', h''⟩, fun w position hevent hfrom => hscan ⟨w, hevent, ?_⟩⟩
          rw [hfrom, havailable.fresh w position hfrom]
        · exact absurd h'' hscan
      · exact .inl h'
  have hact : ∀ n, (x.event n).worker = some worker →
      (∀ w position, x.event n = .scan w → (x.state n).place w ≠ .scanning position) →
      ((x.state (n + 1)).place worker).toScan < ((x.state n).place worker).toScan := by
    intro n hacts hnot
    refine toScan_step (x.step_state n) hacts fun position hfrom => ?_
    exact hnot worker position (eq_scan_of_scanning hfrom (x.step_state n) hacts) hfrom
  refine LeadsTo.of_variant (fun n => ((x.state n).place worker).toScan) ?_ ?_
    (acts hstart hfair hquit worker)
  · intro n h
    rcases hkeep n h with h' | ⟨h', hnot⟩
    · exact .inl h'
    · by_cases hacts : (x.event n).worker = some worker
      · exact .inr ⟨h', (hact n hacts hnot).le⟩
      · rw [place_of_other (x.step_state n) hacts]
        exact .inr ⟨h', le_rfl⟩
  · intro n h hacts
    rcases hkeep n h with h' | ⟨h', hnot⟩
    · exact .inl h'
    · exact .inr ⟨h', hact n hacts hnot⟩

/-- A worker that holds the mutex of the first job makes that job available. -/
theorem leadsTo_of_holding (hstart : x.state 0 = start maxJobs) (hfair : Fair x)
    (hquit : ∀ n, (x.state n).quit = false) (worker : Fin maxThreads) (job : Job) :
    LeadsTo (fun n => Owes base (job :: front) busy (x.state n) ∧
        Holding associatedMutex job worker (x.state n))
      fun n => OwesLess base (2 * (job :: front).length + busy.card) (x.state n) ∨
        Owes base (job :: front) busy (x.state n) ∧
          Available associatedMutex job (x.state n) := by
  have hrunning : ∀ n, Holding associatedMutex job worker (x.state n) →
      ((x.state n).place worker).running ≠ none := by
    rintro n ⟨duty, -, hplace | hplace, -⟩ <;> simp [hplace, Place.running]
  refine LeadsTo.of_variant (fun n => ((x.state n).place worker).toFinish) ?_ ?_
    (acts hstart hfair hquit worker)
  · rintro n ⟨howes, hholding⟩
    rcases owes_step howes (x.step_state n) (hquit n) with h' | h'
    · rcases holding_step hholding (guarded_state hstart n) (x.step_state n) with h'' | h''
      · exact .inl (.inr ⟨h', h''⟩)
      · by_cases hacts : (x.event n).worker = some worker
        · exact .inr ⟨⟨h', h''⟩, (toFinish_step (x.step_state n) hacts (hrunning n hholding)).le⟩
        · rw [place_of_other (x.step_state n) hacts]
          exact .inr ⟨⟨h', h''⟩, le_rfl⟩
    · exact .inl (.inl h')
  · rintro n ⟨howes, hholding⟩ hacts
    rcases owes_step howes (x.step_state n) (hquit n) with h' | h'
    · rcases holding_step hholding (guarded_state hstart n) (x.step_state n) with h'' | h''
      · exact .inl (.inr ⟨h', h''⟩)
      · exact .inr ⟨⟨h', h''⟩, toFinish_step (x.step_state n) hacts (hrunning n hholding)⟩
    · exact .inl (.inl h')

/-- A scan that has passed the first job ends. -/
theorem leadsTo_of_passing (hstart : x.state 0 = start maxJobs) (hfair : Fair x)
    (hquit : ∀ n, (x.state n).quit = false) (worker : Fin maxThreads) (job : Job) :
    LeadsTo (fun n => Owes base (job :: front) busy (x.state n) ∧
        Passing associatedMutex job worker (x.state n))
      fun n => OwesLess base (2 * (job :: front).length + busy.card) (x.state n) ∨
        Owes base (job :: front) busy (x.state n) ∧
          (Available associatedMutex job (x.state n) ∨
            Holding associatedMutex job worker (x.state n)) := by
  refine LeadsTo.of_variant (fun n => (x.state n).remaining worker) ?_ ?_
    (acts hstart hfair hquit worker)
  · rintro n ⟨howes, hpassing⟩
    rcases owes_step howes (x.step_state n) (hquit n) with h' | h'
    · rcases passing_step hpassing (guarded_state hstart n) (x.step_state n) with
        h'' | h'' | ⟨h'', hle, -⟩
      · exact .inl (.inr ⟨h', .inl h''⟩)
      · exact .inl (.inr ⟨h', .inr h''⟩)
      · exact .inr ⟨⟨h', h''⟩, hle⟩
    · exact .inl (.inl h')
  · rintro n ⟨howes, hpassing⟩ hacts
    rcases owes_step howes (x.step_state n) (hquit n) with h' | h'
    · rcases passing_step hpassing (guarded_state hstart n) (x.step_state n) with
        h'' | h'' | ⟨h'', -, hlt⟩
      · exact .inl (.inr ⟨h', .inl h''⟩)
      · exact .inl (.inr ⟨h', .inr h''⟩)
      · exact .inr ⟨⟨h', h''⟩, hlt hacts⟩
    · exact .inl (.inl h')

/-- The first of the jobs that are owed is begun. -/
theorem leadsTo_of_first (hstart : x.state 0 = start maxJobs) (hfair : Fair x)
    (hquit : ∀ n, (x.state n).quit = false) (worker : Fin maxThreads) (job : Job) :
    LeadsTo (fun n => Owes base (job :: front) busy (x.state n))
      fun n => OwesLess base (2 * (job :: front).length + busy.card) (x.state n) := by
  have havailable : LeadsTo (fun n => Owes base (job :: front) busy (x.state n) ∧
      Available associatedMutex job (x.state n))
      fun n => OwesLess base (2 * (job :: front).length + busy.card) (x.state n) :=
    leadsTo_of_available hstart hfair hquit worker job
  have hholding : ∀ w, LeadsTo (fun n => Owes base (job :: front) busy (x.state n) ∧
      Holding associatedMutex job w (x.state n))
      fun n => OwesLess base (2 * (job :: front).length + busy.card) (x.state n) :=
    fun w => (leadsTo_of_holding hstart hfair hquit w job).trans_or havailable
  intro n howes
  rcases first_cases job (guarded_state hstart n) (attributed_state hstart n) with
    h | ⟨w, h⟩ | ⟨w, h⟩
  · exact havailable n ⟨howes, h⟩
  · exact hholding w n ⟨howes, h⟩
  · obtain ⟨m, hm, hless | ⟨howes', h' | h'⟩⟩ :=
      leadsTo_of_passing hstart hfair hquit w job n ⟨howes, h⟩
    · exact ⟨m, hm, hless⟩
    · obtain ⟨k, hk, hless⟩ := havailable m ⟨howes', h'⟩
      exact ⟨k, hm.trans hk, hless⟩
    · obtain ⟨k, hk, hless⟩ := hholding w m ⟨howes', h'⟩
      exact ⟨k, hm.trans hk, hless⟩

/-- What is owed is paid. -/
theorem leadsTo_finished (hstart : x.state 0 = start maxJobs) (hfair : Fair x)
    (hquit : ∀ n, (x.state n).quit = false) (hworkers : 0 < maxThreads) (k : Nat) :
    LeadsTo (fun n => OwesLess base k (x.state n))
      fun n => base ≤ ((x.state n).finished : Multiset Job) := by
  induction k with
  | zero =>
      rintro n ⟨front, busy, -, hlt⟩
      exact absurd hlt (Nat.not_lt_zero _)
  | succ k ih =>
      rintro n ⟨front, busy, howes, hlt⟩
      have hless : ∀ m, OwesLess base (2 * front.length + busy.card) (x.state m) →
          OwesLess base k (x.state m) := by
        rintro m ⟨front', busy', howes', hlt'⟩
        exact ⟨front', busy', howes', by omega⟩
      rcases busy.eq_empty_or_nonempty with rfl | ⟨worker, hworker⟩
      · cases front with
        | nil =>
            refine ⟨n, le_rfl, howes.account.trans (le_of_eq ?_)⟩
            simp [State.runningOf]
        | cons job front =>
            obtain ⟨m, hm, h⟩ := leadsTo_of_first hstart hfair hquit ⟨0, hworkers⟩ job n howes
            obtain ⟨m', hm', h'⟩ := ih m (hless m h)
            exact ⟨m', hm.trans hm', h'⟩
      · obtain ⟨m, hm, h⟩ := leadsTo_of_busy hstart hfair hquit hworker n howes
        obtain ⟨m', hm', h'⟩ := ih m (hless m h)
        exact ⟨m', hm.trans hm', h'⟩

theorem account_state (hstart : x.state 0 = start maxJobs) (n : Nat) :
    ∃ started, Balanced (x.state n).ledger (x.state n).running started := by
  refine x.invariant (I := fun s => ∃ started, Balanced s.ledger s.running started) ?_ ?_ n
  · rintro s e s' ⟨started, h⟩ hstep
    have hrecord : record associatedMutex ⟨s, started⟩ e = some ⟨s', started ++
        (List.finRange maxThreads).filterMap fun worker =>
          begun (s.place worker) (s'.place worker)⟩ := by
      rw [record, hstep]
      rfl
    have hrecorded : Balanced (Recorded.mk s started).pool.ledger
        (Recorded.mk s started).pool.running (Recorded.mk s started).started := h
    exact ⟨_, balanced_record hrecorded hrecord⟩
  · rw [hstart]
    exact ⟨[], balanced_start maxJobs⟩

/-- Every job that the pool accepts is executed to its end, in every fair run in which the
pool is not told to quit.  Further jobs may be submitted all the time. -/
theorem accepted_finished (hstart : x.state 0 = start maxJobs) (hfair : Fair x)
    (hquit : ∀ n, (x.state n).quit = false) (hworkers : 0 < maxThreads) (n : Nat) :
    ∃ m, n ≤ m ∧ (x.state n).accepted.Subperm (x.state m).finished := by
  obtain ⟨started, hbalanced⟩ := account_state hstart n
  have hdiscarded : (x.state n).discarded = [] := by
    by_contra hsome
    have hset := hbalanced.quit hsome
    rw [State.ledger, hquit n] at hset
    cases hset
  have hpartition : (x.state n).accepted.Perm ((x.state n).pendingJobs ++
      ((x.state n).running ++ ((x.state n).finished ++ (x.state n).discarded))) :=
    hbalanced.partition
  have howes : Owes ((x.state n).accepted : Multiset Job) (x.state n).pendingJobs
      (Finset.univ.filter fun worker => ((x.state n).place worker).running.isSome)
      (x.state n) := by
    refine ⟨⟨[], (List.append_nil _).symm⟩, ?_, ?_⟩
    · intro worker hworker
      exact Option.isSome_iff_ne_none.mp (Finset.mem_filter.mp hworker).2
    · rw [runningOf_busy, Multiset.coe_add, Multiset.coe_add, Multiset.coe_le]
      rw [hdiscarded, List.append_nil] at hpartition
      refine (hpartition.trans ?_).subperm
      rw [← List.append_assoc]
      exact List.perm_append_comm.trans (by rw [List.append_assoc])
  obtain ⟨m, hm, hle⟩ := leadsTo_finished hstart hfair hquit hworkers _ n
    ⟨_, _, howes, Nat.lt_succ_self _⟩
  exact ⟨m, hm, Multiset.coe_le.mp hle⟩

/-- What the only worker of a pool without jobs does. -/
def restingEvent (n : Nat) : Event Job 1 :=
  if n % 3 = 1 then .enter 0 else if n % 3 = 2 then .scan 0 else .wake 0

/-- The worker goes round its loop and finds nothing to do. -/
structure Resting (n : Nat) (s : State Job Mutex 1) : Prop where
  quit : s.quit = false
  pendingJobs : s.pendingJobs = []
  accessLock : s.accessLock = if n % 3 = 2 then some 0 else none
  place : s.place 0 =
    if n % 3 = 1 then .idle else if n % 3 = 2 then .scanning 0 else .waiting

theorem resting_step {n : Nat} {s : State Job Mutex 1} (h : Resting n s) :
    ∃ s', step associatedMutex s (restingEvent n) = some s' ∧ Resting (n + 1) s' := by
  have hplace := h.place
  have haccess := h.accessLock
  rcases (by omega : n % 3 = 0 ∨ n % 3 = 1 ∨ n % 3 = 2) with hphase | hphase | hphase
  · have hnext : (n + 1) % 3 = 1 := by omega
    simp only [hphase] at hplace haccess
    have hstep : step associatedMutex s (restingEvent n) = some (s.goTo 0 .idle) := by
      simp [restingEvent, hphase, step, hplace, haccess]
    refine ⟨_, hstep, h.quit, h.pendingJobs, ?_, ?_⟩ <;> simp [State.goTo, hnext, haccess]
  · have hnext : (n + 1) % 3 = 2 := by omega
    simp only [hphase] at hplace haccess
    have hstep : step associatedMutex s (restingEvent n) =
        some { s.goTo 0 (.scanning 0) with accessLock := some 0 } := by
      simp [restingEvent, hphase, step, hplace, haccess, h.quit]
    refine ⟨_, hstep, h.quit, h.pendingJobs, ?_, ?_⟩ <;> simp [State.goTo, hnext]
  · have hnext : (n + 1) % 3 = 0 := by omega
    simp only [hphase] at hplace haccess
    have hstep : step associatedMutex s (restingEvent n) =
        some { s.goTo 0 .waiting with accessLock := none } := by
      simp [restingEvent, hphase, step, hplace, findSomeDuty, h.pendingJobs]
    refine ⟨_, hstep, h.quit, h.pendingJobs, ?_, ?_⟩ <;> simp [State.goTo, hnext]

theorem worker_restingEvent (n : Nat) (worker : Fin 1) :
    (restingEvent n : Event Job 1).worker = some worker := by
  rw [Subsingleton.elim worker 0, restingEvent]
  split_ifs <;> rfl

/-- One worker that executes job 7 and goes on looking for others. -/
def lonelyEvent (n : Nat) : Event Nat 1 :=
  if n < 7 then
    [.addJob 7, .enter 0, .scan 0, .finishExecute 0, .unlock 0, .countFinished 0,
      .destroyDuty 0].getD n .setQuit
  else restingEvent n

theorem lonelyEvent_of_le {n : Nat} (h : 7 ≤ n) : lonelyEvent n = restingEvent n :=
  if_neg (Nat.not_lt.mpr h)

theorem run_lonely (n : Nat) : ∃ s, run (step fun _ => some ()) (start 10)
    ((List.range (n + 7)).map lonelyEvent) = some s ∧ Resting (n + 7) s := by
  induction n with
  | zero => exact ⟨_, rfl, rfl, rfl, rfl, rfl⟩
  | succ n ih =>
      obtain ⟨s, hrun, hresting⟩ := ih
      obtain ⟨s', hstep, hresting'⟩ := resting_step hresting
      refine ⟨s', ?_, by rwa [Nat.add_right_comm]⟩
      rw [Nat.add_right_comm, Execution.run_range_succ, hrun, Option.bind_some,
        lonelyEvent_of_le (Nat.le_add_left 7 n), hstep]

theorem run_lonely_isSome (n : Nat) : (run (step fun _ => some ()) (start 10)
    ((List.range n).map lonelyEvent)).isSome := by
  rcases Nat.lt_or_ge n 7 with hlt | hge
  · interval_cases n <;> rfl
  · obtain ⟨k, rfl⟩ := Nat.exists_eq_add_of_le' hge
    obtain ⟨s, hrun, -⟩ := run_lonely k
    rw [hrun]
    rfl

/-- The accepted job of the lonely worker finishes. -/
theorem accepted_finished_lonely : ∃ m, 1 ≤ m ∧
    ((Execution.ofEvents run_lonely_isSome).state 1).accepted.Subperm
      ((Execution.ofEvents run_lonely_isSome).state m).finished := by
  refine accepted_finished (show (Execution.ofEvents run_lonely_isSome).state 0 = start 10
    from rfl) ?_ ?_ Nat.one_pos 1
  · intro worker n
    refine ⟨n + 7, Nat.le_add_right n 7, .inl ?_⟩
    change (lonelyEvent (n + 7)).worker = some worker
    rw [lonelyEvent_of_le (Nat.le_add_left 7 n)]
    exact worker_restingEvent (n + 7) worker
  · intro n
    rcases Nat.lt_or_ge n 7 with hlt | hge
    · interval_cases n <;> rfl
    · obtain ⟨k, rfl⟩ := Nat.exists_eq_add_of_le' hge
      obtain ⟨s, hrun, hresting⟩ := run_lonely k
      have hstate : (Execution.ofEvents run_lonely_isSome).state (k + 7) = s :=
        Option.some.inj ((Option.some_get _).trans hrun)
      rw [hstate]
      exact hresting.quit

end Runs

section Quitting

variable {s s' : State Job Mutex maxThreads} {e : Event Job maxThreads} {worker : Fin maxThreads}

/-- How many steps a worker is from its return, once the pool quits. -/
def State.toReturn (s : State Job Mutex maxThreads) (worker : Fin maxThreads) : Nat :=
  match s.place worker with
  | .returned => 0
  | .idle => 1
  | .waiting => 2
  | .counted _ => 2
  | .unlocked _ => 3
  | .executed _ => 4
  | .executing _ => 5
  | .scanning position => 6 + (s.pendingJobs.length + 1 - position)

/-- The jobs begun so far, and one more while a scan goes on. -/
def State.begunAtMost (s : State Job Mutex maxThreads) : Nat :=
  s.running.length + (s.finished.length + if s.accessLock.isSome then 1 else 0)

theorem begunAtMost_of_update {place : Place Job Mutex}
    (hplace : s'.place = Function.update s.place worker place)
    (hsum : place.running.toList.length +
        (s'.finished.length + if s'.accessLock.isSome then 1 else 0) ≤
      (s.place worker).running.toList.length +
        (s.finished.length + if s.accessLock.isSome then 1 else 0)) :
    s'.begunAtMost ≤ s.begunAtMost := by
  obtain ⟨others, hbefore, hafter⟩ := running_of_update hplace
  rw [State.begunAtMost, State.begunAtMost, hbefore.length_eq, hafter.length_eq,
    List.length_append, List.length_append]
  omega

variable [DecidableEq Mutex]

theorem toReturn_of_other (hguarded : Guarded s) (hstep : step associatedMutex s e = some s')
    (hother : e.worker ≠ some worker) : s'.toReturn worker = s.toReturn worker := by
  have hplace := place_of_other hstep hother
  cases hfrom : s.place worker with
  | scanning position =>
      have hpending := (others_while_scanning hguarded hfrom hstep hother).1
      rw [hfrom] at hplace
      simp only [State.toReturn, hfrom, hplace, hpending]
  | idle | waiting | executing | executed | unlocked | counted | returned =>
      rw [hfrom] at hplace
      simp only [State.toReturn, hfrom, hplace]

theorem toReturn_step (hquit : s.quit = true) (hstep : step associatedMutex s e = some s')
    (hworker : e.worker = some worker) : s'.toReturn worker < s.toReturn worker := by
  have hself : ∀ (t : State Job Mutex maxThreads) (place : Place Job Mutex),
      (t.goTo worker place).place worker = place := fun _ _ => Function.update_self _ _ _
  cases steps_of_step hstep with
  | refuses job haccess hfull => cases hworker
  | accepts job haccess hroom => cases hworker
  | counts hcount => cases hworker
  | returns w hfrom haccess =>
      cases hworker
      simp [State.toReturn, hself, hfrom]
  | enters w hfrom haccess =>
      cases hworker
      simp only [step, hfrom, haccess, hquit, if_true, Option.some.injEq] at hstep
      have hplace := congrArg (fun s : State Job Mutex maxThreads => s.place worker) hstep
      simp [State.goTo] at hplace
  | scans w position hfrom =>
      cases hworker
      have hturn := turn_findSomeDuty associatedMutex s worker position
      generalize findSomeDuty associatedMutex s worker position = s' at hturn ⊢
      cases hturn with
      | ends hnone =>
          simp only [State.toReturn, State.goTo, Function.update_self, hfrom]
          omega
      | takes job hjob hmutex =>
          simp only [State.toReturn, takeDuty, Function.update_self, hfrom]
          omega
      | locks job mutex hjob hmutex hfree =>
          simp only [State.toReturn, takeDuty, Function.update_self, hfrom]
          omega
      | passes job mutex hjob hmutex hlocked =>
          have hlt := (List.getElem?_eq_some_iff.mp hjob).1
          simp only [State.toReturn, State.goTo, Function.update_self, hfrom]
          omega
  | wakes w hfrom =>
      cases hworker
      simp [State.toReturn, hself, hfrom]
  | executes w duty hfrom =>
      cases hworker
      simp [State.toReturn, hself, hfrom]
  | skips w duty hfrom hmutex =>
      cases hworker
      simp [State.toReturn, hself, hfrom]
  | unlocks w duty mutex hfrom hmutex haccess =>
      cases hworker
      simp [State.toReturn, hself, hfrom]
  | finishes w duty hfrom =>
      cases hworker
      simp [State.toReturn, State.goTo, hfrom]
  | drops w duty hfrom hlock =>
      cases hworker
      simp [State.toReturn, hself, hfrom]
  | destroys w duty mutex hfrom hlock =>
      cases hworker
      simp [State.toReturn, hself, hfrom]
  | quits => cases hworker
  | flushes hset hreturned => cases hworker

theorem quit_step (hquit : s.quit = true) (hstep : step associatedMutex s e = some s') :
    s'.quit = true := by
  cases flow_of_step hstep with
  | stays hplace hledger | moves _ _ _ _ _ hplace hledger | accepts _ hplace _ hledger
    | takes _ _ _ _ _ _ hplace hledger | finishes _ _ _ hplace hledger
    | flushes _ _ hplace hledger =>
      have hsame := congrArg Ledger.quit hledger
      exact hsame.trans hquit
  | quits hplace hledger => exact congrArg Ledger.quit hledger

/-- A pool that quits begins no job but the one that a scan may still find. -/
theorem begunAtMost_step (hguarded : Guarded s) (hquit : s.quit = true)
    (hstep : step associatedMutex s e = some s') : s'.begunAtMost ≤ s.begunAtMost := by
  have hmoves : ∀ {w : Fin maxThreads} {before place : Place Job Mutex}
      {t : State Job Mutex maxThreads}, t.place = Function.update s.place w place →
      s.place w = before → place.running = before.running → t.accessLock = s.accessLock →
      t.finished = s.finished → t.begunAtMost ≤ s.begunAtMost := by
    intro w before place t hplace hfrom hrunning haccess hfinished
    exact begunAtMost_of_update hplace (by rw [hfrom, hrunning, haccess, hfinished])
  cases steps_of_step hstep with
  | refuses job haccess hfull => exact le_rfl
  | accepts job haccess hroom => exact le_rfl
  | counts hcount => exact le_rfl
  | quits => exact le_rfl
  | flushes hset hreturned => exact le_rfl
  | returns w hfrom haccess => exact hmoves rfl hfrom rfl rfl rfl
  | enters w hfrom haccess =>
      simp only [step, hfrom, haccess, hquit, if_true, Option.some.injEq] at hstep
      have hplace := congrArg (fun s : State Job Mutex maxThreads => s.place w) hstep
      simp [State.goTo] at hplace
  | scans w position hfrom =>
      have hlocked := (hguarded w).mpr ⟨position, hfrom⟩
      have hturn := turn_findSomeDuty associatedMutex s w position
      generalize findSomeDuty associatedMutex s w position = s' at hturn ⊢
      cases hturn with
      | ends hnone =>
          exact begunAtMost_of_update rfl (by simp [State.goTo, hfrom, Place.running])
      | takes job hjob hmutex =>
          refine begunAtMost_of_update rfl ?_
          simp [takeDuty, hfrom, hlocked, Place.running, Nat.add_comm]
      | locks job mutex hjob hmutex hfree =>
          refine begunAtMost_of_update rfl ?_
          simp [takeDuty, State.lockMutex, hfrom, hlocked, Place.running, Nat.add_comm]
      | passes job mutex hjob hmutex hstill => exact hmoves rfl hfrom rfl rfl rfl
  | wakes w hfrom => exact hmoves rfl hfrom rfl rfl rfl
  | executes w duty hfrom => exact hmoves rfl hfrom rfl rfl rfl
  | skips w duty hfrom hmutex => exact hmoves rfl hfrom rfl rfl rfl
  | unlocks w duty mutex hfrom hmutex haccess => exact hmoves rfl hfrom rfl rfl rfl
  | finishes w duty hfrom =>
      refine begunAtMost_of_update rfl ?_
      simp [State.goTo, hfrom, Place.running]
      exact ((Nat.add_right_comm _ _ _).trans (Nat.add_comm _ 1)).le
  | drops w duty hfrom hlock => exact hmoves rfl hfrom rfl rfl rfl
  | destroys w duty mutex hfrom hlock => exact hmoves rfl hfrom rfl rfl rfl

variable {x : Schedule maxThreads associatedMutex} {maxJobs : Nat}

theorem returned_step (hquit : s.quit = true) (hstep : step associatedMutex s e = some s')
    (hreturned : s.place worker = .returned) : s'.place worker = .returned := by
  have hnever : e.worker ≠ some worker := by
    intro hacts
    have hlt := toReturn_step hquit hstep hacts
    rw [State.toReturn, State.toReturn, hreturned] at hlt
    exact Nat.not_lt_zero _ hlt
  rw [place_of_other hstep hnever]
  exact hreturned

theorem quit_later {n m : Nat} (hnm : n ≤ m) (hquit : (x.state n).quit = true) :
    (x.state m).quit = true := by
  induction m, hnm using Nat.le_induction with
  | base => exact hquit
  | succ m _ ih => exact quit_step ih (x.step_state m)

theorem begunAtMost_later (hstart : x.state 0 = start maxJobs) {n m : Nat} (hnm : n ≤ m)
    (hquit : (x.state n).quit = true) :
    (x.state m).begunAtMost ≤ (x.state n).begunAtMost := by
  induction m, hnm using Nat.le_induction with
  | base => exact le_rfl
  | succ m hnm ih =>
      have hstep := begunAtMost_step (guarded_state hstart m) (quit_later hnm hquit)
        (x.step_state m)
      exact hstep.trans ih

/-- A worker of a pool that quits goes on to its return. -/
theorem leadsTo_returned (hstart : x.state 0 = start maxJobs) (hfair : Fair x)
    (worker : Fin maxThreads) : LeadsTo (fun n => (x.state n).quit = true)
      fun n => (x.state n).place worker = .returned := by
  refine LeadsTo.of_variant (fun n => (x.state n).toReturn worker) ?_ ?_ (hfair worker)
  · intro n hquit
    refine .inr ⟨quit_step hquit (x.step_state n), ?_⟩
    by_cases hacts : (x.event n).worker = some worker
    · exact (toReturn_step hquit (x.step_state n) hacts).le
    · exact (toReturn_of_other (guarded_state hstart n) (x.step_state n) hacts).le
  · rintro n hquit (hacts | hreturned)
    · exact .inr ⟨quit_step hquit (x.step_state n), toReturn_step hquit (x.step_state n) hacts⟩
    · exact .inl (returned_step hquit (x.step_state n) hreturned)

/-- A pool that is told to quit joins all its workers in every fair run.  What it has accepted
is then finished, or still pending for the destructor to remove, and at most one job more was
begun than when it was told. -/
theorem workers_return (hstart : x.state 0 = start maxJobs) (hfair : Fair x) (n : Nat)
    (hquit : (x.state n).quit = true) :
    ∃ m, n ≤ m ∧ (∀ worker, (x.state m).place worker = .returned) ∧
      (x.state m).accepted.Perm ((x.state m).finished ++
        ((x.state m).pendingJobs ++ (x.state m).discarded)) ∧
      (x.state m).finished.length ≤
        (x.state n).running.length + (x.state n).finished.length + 1 := by
  obtain ⟨m, hm, hset, hall⟩ := LeadsTo.all (P := fun n => (x.state n).quit = true)
    (Q := fun worker n => (x.state n).place worker = .returned) (List.finRange maxThreads)
    (fun n h => quit_step h (x.step_state n))
    (fun worker n h hreturned => returned_step h (x.step_state n) hreturned)
    (fun worker _ => leadsTo_returned hstart hfair worker) n hquit
  have hreturned : ∀ worker, (x.state m).place worker = .returned :=
    fun worker => hall worker (List.mem_finRange worker)
  have hrunning : (x.state m).running = [] := by
    simp [State.running, hreturned, Place.running]
  obtain ⟨started, hbalanced⟩ := account_state hstart m
  have hpartition : (x.state m).accepted.Perm ((x.state m).pendingJobs ++
      ((x.state m).running ++ ((x.state m).finished ++ (x.state m).discarded))) :=
    hbalanced.partition
  rw [hrunning, List.nil_append] at hpartition
  have hbegun := begunAtMost_later hstart hm hquit
  rw [State.begunAtMost, State.begunAtMost, hrunning] at hbegun
  refine ⟨m, hm, hreturned, hpartition.trans ?_, ?_⟩
  · rw [← List.append_assoc, ← List.append_assoc]
    exact List.perm_append_comm.append_right _
  · split_ifs at hbegun <;> simp only [List.length_nil] at hbegun <;> omega

/-- A worker is told to quit while it executes the first of two jobs. -/
def quittingEvent (n : Nat) : Event Nat 1 :=
  [.addJob 7, .addJob 8, .enter 0, .scan 0, .setQuit, .finishExecute 0, .unlock 0,
    .countFinished 0, .destroyDuty 0, .enter 0].getD n .setQuit

theorem run_quitting (n : Nat) : ∃ s, run (step fun _ => some ()) (start 10)
    ((List.range (n + 10)).map quittingEvent) = some s ∧ s.place 0 = .returned := by
  induction n with
  | zero => exact ⟨_, rfl, rfl⟩
  | succ n ih =>
      obtain ⟨s, hrun, hreturned⟩ := ih
      have hevent : quittingEvent (n + 10) = .setQuit :=
        List.getD_eq_default _ _ (Nat.le_add_left 10 n)
      refine ⟨{ s with quit := true }, ?_, hreturned⟩
      rw [Nat.add_right_comm, Execution.run_range_succ, hrun, Option.bind_some, hevent]
      rfl

theorem run_quitting_isSome (n : Nat) : (run (step fun _ => some ()) (start 10)
    ((List.range n).map quittingEvent)).isSome := by
  rcases Nat.lt_or_ge n 10 with hlt | hge
  · interval_cases n <;> rfl
  · obtain ⟨k, rfl⟩ := Nat.exists_eq_add_of_le' hge
    obtain ⟨s, hrun, -⟩ := run_quitting k
    rw [hrun]
    rfl

/-- The worker finishes the first job and returns, and the second one stays pending. -/
theorem workers_return_quitting : ∃ m, 5 ≤ m ∧
    (∀ worker, ((Execution.ofEvents run_quitting_isSome).state m).place worker = .returned) ∧
    ((Execution.ofEvents run_quitting_isSome).state m).accepted.Perm
      (((Execution.ofEvents run_quitting_isSome).state m).finished ++
        (((Execution.ofEvents run_quitting_isSome).state m).pendingJobs ++
          ((Execution.ofEvents run_quitting_isSome).state m).discarded)) ∧
    ((Execution.ofEvents run_quitting_isSome).state m).finished.length ≤
      ((Execution.ofEvents run_quitting_isSome).state 5).running.length +
        ((Execution.ofEvents run_quitting_isSome).state 5).finished.length + 1 := by
  refine workers_return (show (Execution.ofEvents run_quitting_isSome).state 0 = start 10
    from rfl) ?_ 5 rfl
  intro worker n
  obtain ⟨s, hrun, hreturned⟩ := run_quitting n
  have hstate : (Execution.ofEvents run_quitting_isSome).state (n + 10) = s :=
    Option.some.inj ((Option.some_get _).trans hrun)
  refine ⟨n + 10, Nat.le_add_right n 10, .inr ?_⟩
  rw [hstate, Subsingleton.elim worker 0]
  exact hreturned

end Quitting

end ThreadPool

end Supernova
