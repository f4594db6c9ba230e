/-
Who owns an associated mutex.  As long as no duty with a lock is destroyed the
owner of a mutex is the worker whose job holds it, so jobs of one mutex exclude
each other; the destruction of such a duty releases the mutex a second time.
-/
import Supernova.QuasarThreadPool

namespace Supernova

namespace ThreadPool

variable {Job Mutex : Type} {maxThreads : Nat} {associatedMutex : Job → Option Mutex}

namespace Place

/-- The duty of a worker from its selection to the end of the iteration. -/
def duty : Place Job Mutex → Option (Duty Job Mutex)
  | executing duty | executed duty | unlocked duty | counted duty => some duty
  | _ => none

/-- The mutex that a worker has locked and not yet released. -/
def held : Place Job Mutex → Option Mutex
  | executing duty | executed duty => duty.lock
  | _ => none

@[simp] theorem held_executing (d : Duty Job Mutex) : (executing d).held = d.lock := rfl

@[simp] theorem held_executed (d : Duty Job Mutex) : (executed d).held = d.lock := rfl

@[simp] theorem held_unlocked (d : Duty Job Mutex) : (unlocked d).held = none := rfl

@[simp] theorem held_counted (d : Duty Job Mutex) : (counted d).held = none := rfl

end Place

/-- What a step does to the places, to the owners and to the record. -/
inductive Move [DecidableEq Mutex] (associatedMutex : Job → Option Mutex)
    (s : State Job Mutex maxThreads) (e : Event Job maxThreads) (s' : State Job Mutex maxThreads) : Prop where
  | stays (hplace : s'.place = s.place) (howner : s'.owner = s.owner)
      (hwrong : s'.wrongReleases = s.wrongReleases)
  | goes (worker : Fin maxThreads) (place : Place Job Mutex)
      (hheld : place.held = (s.place worker).held)
      (hlock : ∀ duty, place.duty = some duty → (s.place worker).duty = some duty ∨
        duty.lock = associatedMutex duty.job)
      (hplace : s'.place = Function.update s.place worker place)
      (howner : s'.owner = s.owner) (hwrong : s'.wrongReleases = s.wrongReleases)
  | locks (worker : Fin maxThreads) (job : Job) (mutex : Mutex)
      (hmutex : associatedMutex job = some mutex) (hfree : s.owner mutex = none)
      (hheld : (s.place worker).held = none)
      (hplace : s'.place = Function.update s.place worker (.executing ⟨job, some mutex⟩))
      (howner : s'.owner = Function.update s.owner mutex (some worker))
      (hwrong : s'.wrongReleases = s.wrongReleases)
  | releases (worker : Fin maxThreads) (duty : Duty Job Mutex) (mutex : Mutex)
      (hmutex : associatedMutex duty.job = some mutex)
      (hfrom : s.place worker = .executed duty)
      (hplace : s'.place = Function.update s.place worker (.unlocked duty))
      (howner : s'.owner = Function.update s.owner mutex none)
      (hwrong : s'.wrongReleases = (s.unlockMutex worker mutex).wrongReleases)
  | skips (worker : Fin maxThreads) (duty : Duty Job Mutex)
      (hmutex : associatedMutex duty.job = none) (hfrom : s.place worker = .executed duty)
      (hplace : s'.place = Function.update s.place worker (.unlocked duty))
      (howner : s'.owner = s.owner) (hwrong : s'.wrongReleases = s.wrongReleases)
  | destroys (worker : Fin maxThreads) (duty : Duty Job Mutex) (mutex : Mutex)
      (hevent : e = .destroyDuty worker) (hfrom : s.place worker = .counted duty)
      (hlock : duty.lock = some mutex)
      (hwrong : s'.wrongReleases = (s.unlockMutex worker mutex).wrongReleases)

section

variable [DecidableEq Mutex]

theorem move_of_findSomeDuty {s : State Job Mutex maxThreads} {e : Event Job maxThreads}
    {worker : Fin maxThreads} {position : Nat}
    (hfrom : s.place worker = .scanning position) :
    Move associatedMutex s e (findSomeDuty associatedMutex s worker position) := by
  have hheld : (s.place worker).held = none := by rw [hfrom]; rfl
  unfold findSomeDuty
  split
  · exact .goes worker .waiting (by rw [hheld]; rfl) (fun _ h => by cases h) rfl rfl rfl
  · rename_i job _
    split
    · rename_i hnone
      refine .goes worker (.executing ⟨job, none⟩) (by rw [hheld]; rfl) ?_ rfl rfl rfl
      intro duty h
      cases h
      exact Or.inr hnone.symm
    · rename_i mutex hmutex
      split
      · rename_i hfree
        exact .locks worker job mutex hmutex hfree hheld rfl rfl rfl
      · exact .goes worker (.scanning (position + 1)) (by rw [hheld]; rfl) (fun _ h => by cases h) rfl rfl rfl

/-- Everything a step can do to the ownership of mutexes. -/
theorem move_of_step {s s' : State Job Mutex maxThreads} {e : Event Job maxThreads}
    (h : step associatedMutex s e = some s') : Move associatedMutex s e s' := by
  cases steps_of_step h with
  | refuses job haccess hfull => exact .stays rfl rfl rfl
  | accepts job haccess hroom => exact .stays rfl rfl rfl
  | counts hcount => exact .stays rfl rfl rfl
  | returns worker hfrom haccess =>
      exact .goes worker .returned (by rw [hfrom]; rfl) (fun _ h => by cases h) rfl rfl rfl
  | enters worker hfrom haccess =>
      exact .goes worker (.scanning 0) (by rw [hfrom]; rfl) (fun _ h => by cases h) rfl rfl rfl
  | scans worker position hfrom => exact move_of_findSomeDuty hfrom
  | wakes worker hfrom =>
      exact .goes worker .idle (by rw [hfrom]; rfl) (fun _ h => by cases h) rfl rfl rfl
  | executes worker duty hfrom =>
      refine .goes worker (.executed duty) (by rw [hfrom]; rfl) ?_ rfl rfl rfl
      intro duty' h
      exact Or.inl (by rw [hfrom]; exact h)
  | skips worker duty hfrom hmutex => exact .skips worker duty hmutex hfrom rfl rfl rfl
  | unlocks worker duty mutex hfrom hmutex haccess =>
      exact .releases worker duty mutex hmutex hfrom rfl rfl rfl
  | finishes worker duty hfrom =>
      refine .goes worker (.counted duty) (by rw [hfrom]; rfl) ?_ rfl rfl rfl
      intro duty' h
      exact Or.inl (by rw [hfrom]; exact h)
  | drops worker duty hfrom hlock =>
      exact .goes worker .idle (by rw [hfrom]; rfl) (fun _ h => by cases h) rfl rfl rfl
  | destroys worker duty mutex hfrom hlock =>
      exact .destroys worker duty mutex rfl hfrom hlock rfl
  | quits => exact .stays rfl rfl rfl
  | flushes hquit hreturned => exact .stays rfl rfl rfl

end

/-- A mutex is owned by the worker whose duty holds it, every duty has locked
the mutex of its job, and no release has been wrong. -/
structure Owned (associatedMutex : Job → Option Mutex) (s : State Job Mutex maxThreads) :
    Prop where
  lock : ∀ worker duty, (s.place worker).duty = some duty →
    duty.lock = associatedMutex duty.job
  owner : ∀ mutex worker, s.owner mutex = some worker ↔
    (s.place worker).held = some mutex
  right : s.wrongReleases = []

theorem owned_start (maxJobs : Nat) :
    Owned associatedMutex (start maxJobs : State Job Mutex maxThreads) where
  lock worker duty h := by cases h
  owner mutex worker := by simp [start, Place.held]
  right := rfl

/-- At most one job of a mutex is executing, and no release has been wrong. -/
structure Exclusive (associatedMutex : Job → Option Mutex)
    (s : State Job Mutex maxThreads) : Prop where
  one : ∀ worker worker' duty duty' mutex, s.place worker = .executing duty →
    s.place worker' = .executing duty' → associatedMutex duty.job = some mutex →
    associatedMutex duty'.job = some mutex → worker = worker'
  right : s.wrongReleases = []

theorem Owned.exclusive {s : State Job Mutex maxThreads} (h : Owned associatedMutex s) :
    Exclusive associatedMutex s where
  one worker worker' duty duty' mutex hplace hplace' hmutex hmutex' := by
    have hheld : ∀ w d, s.place w = .executing d → associatedMutex d.job = some mutex →
        s.owner mutex = some w := by
      intro w d hw hd
      have hlock := h.lock w d (by rw [hw]; rfl)
      rw [h.owner mutex w, hw]
      exact hlock.trans hd
    have hsame := (hheld worker duty hplace hmutex).symm.trans
      (hheld worker' duty' hplace' hmutex')
    exact Option.some.inj hsame
  right := h.right

/-- The step is the end of an iteration whose duty still has its lock. -/
def DestroysLock (s : State Job Mutex maxThreads) (e : Event Job maxThreads) : Prop :=
  ∃ worker duty, e = .destroyDuty worker ∧ s.place worker = .counted duty ∧
    duty.lock ≠ none

/-- Moving one worker keeps what is known of the duties. -/
theorem lock_of_update {s s' : State Job Mutex maxThreads} {worker : Fin maxThreads}
    {place : Place Job Mutex} (h : Owned associatedMutex s)
    (hplace : s'.place = Function.update s.place worker place)
    (hlock : ∀ duty, place.duty = some duty → (s.place worker).duty = some duty ∨
      duty.lock = associatedMutex duty.job) (w : Fin maxThreads) (duty : Duty Job Mutex)
    (hduty : (s'.place w).duty = some duty) : duty.lock = associatedMutex duty.job := by
  rw [hplace] at hduty
  by_cases hw : w = worker
  · subst hw
    rw [Function.update_self] at hduty
    rcases hlock duty hduty with hold | hnew
    · exact h.lock w duty hold
    · exact hnew
  · rw [Function.update_of_ne hw] at hduty
    exact h.lock w duty hduty

/-- Moving one worker that keeps its mutex keeps what is known of the owners. -/
theorem owner_of_update {s s' : State Job Mutex maxThreads} {worker : Fin maxThreads}
    {place : Place Job Mutex} (h : Owned associatedMutex s)
    (hplace : s'.place = Function.update s.place worker place) (howner : s'.owner = s.owner)
    (hheld : place.held = (s.place worker).held) (mutex : Mutex) (w : Fin maxThreads) :
    s'.owner mutex = some w ↔ (s'.place w).held = some mutex := by
  rw [howner, hplace, h.owner mutex w]
  by_cases hw : w = worker
  · subst hw
    rw [Function.update_self, hheld]
  · rw [Function.update_of_ne hw]

variable [DecidableEq Mutex]

/-- Every step but the destruction of a lock keeps the owners right. -/
theorem owned_step {s s' : State Job Mutex maxThreads} {e : Event Job maxThreads}
    (h : Owned associatedMutex s) (hkeeps : ¬ DestroysLock s e)
    (hstep : step associatedMutex s e = some s') : Owned associatedMutex s' := by
  cases move_of_step hstep with
  | stays hplace howner hwrong =>
      refine ⟨?_, ?_, hwrong.trans h.right⟩
      · rw [hplace]
        exact h.lock
      · rw [hplace, howner]
        exact h.owner
  | goes worker place hheld hlock hplace howner hwrong =>
      exact ⟨lock_of_update h hplace hlock, owner_of_update h hplace howner hheld,
        hwrong.trans h.right⟩
  | skips worker duty hmutex hfrom hplace howner hwrong =>
      have hlock := h.lock worker duty (by rw [hfrom]; rfl)
      refine ⟨lock_of_update h hplace ?_, owner_of_update h hplace howner ?_,
        hwrong.trans h.right⟩
      · intro duty' h'
        exact Or.inl (by rw [hfrom]; exact h')
      · rw [hfrom, Place.held_unlocked, Place.held_executed, hlock, hmutex]
  | locks worker job mutex hmutex hfree hheld hplace howner hwrong =>
      refine ⟨lock_of_update h hplace ?_, ?_, hwrong.trans h.right⟩
      · intro duty hduty
        cases hduty
        exact Or.inr hmutex.symm
      · intro m w
        have hold := h.owner m w
        rw [howner, hplace]
        by_cases hm : m = mutex
        · subst hm
          rw [hfree] at hold
          by_cases hw : w = worker
          · simp [hw]
          · rw [Function.update_self, Function.update_of_ne hw, ← hold]
            simp [Ne.symm hw]
        · rw [Function.update_of_ne hm, hold]
          by_cases hw : w = worker
          · subst hw
            simp [hheld, Ne.symm hm]
          · rw [Function.update_of_ne hw]
  | releases worker duty mutex hmutex hfrom hplace howner hwrong =>
      have hlock := h.lock worker duty (by rw [hfrom]; rfl)
      have hheld : (s.place worker).held = some mutex := by
        rw [hfrom, Place.held_executed, hlock, hmutex]
      have howned := (h.owner mutex worker).mpr hheld
      refine ⟨lock_of_update h hplace ?_, ?_, ?_⟩
      · intro duty' h'
        exact Or.inl (by rw [hfrom]; exact h')
      · intro m w
        have hold := h.owner m w
        rw [howner, hplace]
        by_cases hm : m = mutex
        · subst hm
          rw [howned] at hold
          by_cases hw : w = worker
          · simp [hw]
          · rw [Function.update_self, Function.update_of_ne hw, ← hold]
            simp [Ne.symm hw]
        · rw [Function.update_of_ne hm, hold]
          by_cases hw : w = worker
          · subst hw
            simp [hheld, Ne.symm hm]
          · rw [Function.update_of_ne hw]
      · rw [hwrong, State.unlockMutex, if_pos howned, h.right]
  | destroys worker duty mutex hevent hfrom hlock hwrong =>
      exact absurd ⟨worker, duty, hevent, hfrom, by simp [hlock]⟩ hkeeps

/-- The destruction of a lock is a wrong release: the explicit unlock has
already given the mutex up. -/
theorem not_exclusive_of_destroysLock {s s' : State Job Mutex maxThreads}
    {e : Event Job maxThreads} (h : Owned associatedMutex s) (hdestroys : DestroysLock s e)
    (hstep : step associatedMutex s e = some s') : ¬ Exclusive associatedMutex s' := by
  obtain ⟨worker, duty, rfl, hfrom, hlock⟩ := hdestroys
  obtain ⟨mutex, hmutex⟩ := Option.ne_none_iff_exists'.mp hlock
  have hnot : s.owner mutex ≠ some worker := by
    rw [ne_eq, h.owner mutex worker, hfrom]
    simp
  simp only [step, hfrom, hmutex, Option.some.injEq] at hstep
  intro hexclusive
  have hright := hexclusive.right
  rw [← hstep] at hright
  simp [State.goTo, State.unlockMutex, hnot] at hright

/-- A run of the pool keeps the jobs of each mutex apart and releases mutexes
only as their owner exactly as long as it destroys no duty that has a lock. -/
theorem exclusive_iff (associatedMutex : Job → Option Mutex) (maxJobs : Nat)
    (events : List (Event Job maxThreads)) :
    Throughout (step associatedMutex) (Exclusive associatedMutex) (start maxJobs) events ↔
      Along (step associatedMutex) (fun s e => ¬ DestroysLock s e) (start maxJobs) events := by
  apply throughout_iff_along (I := Owned associatedMutex)
  · intro s e s' h hkeeps hstep
    exact owned_step h hkeeps hstep
  · intro s h
    exact h.exclusive
  · intro s e s' h hbreak hstep
    exact not_exclusive_of_destroysLock h (not_not.mp hbreak) hstep
  · exact owned_start maxJobs

/-- Three workers and three jobs of one mutex: the first worker finishes its
job, the second one takes the mutex, the first one's duty releases it, and the
third worker starts. -/
def overlappingRun : List (Event Nat 3) :=
  [.addJob 0, .addJob 1, .addJob 2,
    .enter 0, .scan 0, .finishExecute 0, .unlock 0, .countFinished 0,
    .enter 1, .scan 1, .destroyDuty 0, .enter 2, .scan 2]

/-- Two jobs of one mutex execute at the same time. -/
theorem overlappingRun_overlaps :
    ∃ s, run (step fun _ : Nat => some ()) (start 10) overlappingRun = some s ∧
      s.place 1 = .executing ⟨1, some ()⟩ ∧ s.place 2 = .executing ⟨2, some ()⟩ ∧
      ¬ Exclusive (fun _ => some ()) s := by
  refine ⟨_, rfl, by decide, by decide, ?_⟩
  intro hexclusive
  have hsame := hexclusive.one 1 2 ⟨1, some ()⟩ ⟨2, some ()⟩ () (by decide) (by decide) rfl rfl
  exact absurd hsame (by decide)

end ThreadPool

end Supernova
