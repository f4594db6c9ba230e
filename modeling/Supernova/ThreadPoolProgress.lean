/-
What brings a job of the thread pool forward: who holds the locks, what is still
owed of the accepted jobs, and how the first pending job comes to be taken.
-/
import Mathlib.Data.Multiset.Filter
import Mathlib.Data.Finset.Card
import Supernova.ThreadPoolExclusion
import Supernova.ThreadPoolJobs

namespace Supernova

namespace ThreadPool

variable {Job Mutex : Type} {maxThreads : Nat} {associatedMutex : Job → Option Mutex}

/-- The worker whose step an event is; submissions and the destructor are nobody's. -/
def Event.worker : Event Job maxThreads → Option (Fin maxThreads)
  | .enter worker | .scan worker | .wake worker | .finishExecute worker | .unlock worker
  | .countFinished worker | .destroyDuty worker => some worker
  | .addJob _ | .countAccepted | .setQuit | .flush => none

section Access

/-- The access lock is between steps only with a worker in the middle of its scan. -/
def Guarded (s : State Job Mutex maxThreads) : Prop :=
  ∀ worker, s.accessLock = some worker ↔ ∃ position, s.place worker = .scanning position

/-- What is locked belongs to a job that has not been unlocked, and a worker has returned
only because the pool quits. -/
structure Attributed (associatedMutex : Job → Option Mutex) (s : State Job Mutex maxThreads) :
    Prop where
  lock : ∀ worker duty, (s.place worker).duty = some duty →
    duty.lock = associatedMutex duty.job
  owner : ∀ mutex worker, s.owner mutex = some worker → (s.place worker).held = some mutex
  returned : ∀ worker, s.place worker = .returned → s.quit = true

variable {s s' : State Job Mutex maxThreads}

theorem guarded_of_update {worker : Fin maxThreads} {place : Place Job Mutex} (h : Guarded s)
    (hplace : s'.place = Function.update s.place worker place)
    (haccess : s'.accessLock = s.accessLock)
    (hscans : (∃ position, place = .scanning position) ↔
      ∃ position, s.place worker = .scanning position) : Guarded s' := by
  intro w
  rw [haccess, h w, hplace]
  by_cases hw : w = worker
  · subst hw
    rw [Function.update_self]
    exact hscans.symm
  · rw [Function.update_of_ne hw]

/-- The scanning worker stops scanning and gives the lock back. -/
theorem guarded_of_release {worker : Fin maxThreads} {place : Place Job Mutex} {position : Nat}
    (h : Guarded s) (hfrom : s.place worker = .scanning position)
    (hplace : s'.place = Function.update s.place worker place) (haccess : s'.accessLock = none)
    (hto : ∀ position, place ≠ .scanning position) : Guarded s' := by
  have hlocked := (h worker).mpr ⟨position, hfrom⟩
  intro w
  rw [haccess, hplace]
  refine iff_of_false (by simp) ?_
  rintro ⟨p, hp⟩
  by_cases hw : w = worker
  · subst hw
    rw [Function.update_self] at hp
    exact hto p hp
  · rw [Function.update_of_ne hw] at hp
    have hother := (h w).mpr ⟨p, hp⟩
    rw [hlocked, Option.some.injEq] at hother
    exact hw hother.symm

/-- A worker moves on with the mutex that it holds. -/
theorem attributed_of_update {worker : Fin maxThreads} {place : Place Job Mutex}
    (h : Attributed associatedMutex s) (hplace : s'.place = Function.update s.place worker place)
    (howner : s'.owner = s.owner) (hquit : s'.quit = s.quit)
    (hheld : place.held = (s.place worker).held)
    (hlock : ∀ duty, place.duty = some duty → (s.place worker).duty = some duty ∨
      duty.lock = associatedMutex duty.job)
    (hreturned : place = .returned → s.quit = true) : Attributed associatedMutex s' := by
  constructor
  · intro w duty hduty
    rw [hplace] at hduty
    by_cases hw : w = worker
    · subst hw
      rw [Function.update_self] at hduty
      rcases hlock duty hduty with hold | hnew
      · exact h.lock w duty hold
      · exact hnew
    · rw [Function.update_of_ne hw] at hduty
      exact h.lock w duty hduty
  · intro mutex w howned
    rw [howner] at howned
    have hold := h.owner mutex w howned
    rw [hplace]
    by_cases hw : w = worker
    · subst hw
      rw [Function.update_self, hheld]
      exact hold
    · rw [Function.update_of_ne hw]
      exact hold
  · intro w hw
    rw [hplace] at hw
    rw [hquit]
    by_cases heq : w = worker
    · subst heq
      rw [Function.update_self] at hw
      exact hreturned hw
    · rw [Function.update_of_ne heq] at hw
      exact h.returned w hw

variable [DecidableEq Mutex]

/-- What a turn of a scan does: the list is at its end, or the job there is taken, with its
mutex if it has one, or its mutex is locked. -/
inductive Turn (associatedMutex : Job → Option Mutex) (s : State Job Mutex maxThreads)
    (worker : Fin maxThreads) (position : Nat) : State Job Mutex maxThreads → Prop
  | ends (hnone : s.pendingJobs[position]? = none) :
      Turn associatedMutex s worker position { s.goTo worker .waiting with accessLock := none }
  | takes (job : Job) (hjob : s.pendingJobs[position]? = some job)
      (hmutex : associatedMutex job = none) :
      Turn associatedMutex s worker position (takeDuty s worker position ⟨job, none⟩)
  | locks (job : Job) (mutex : Mutex) (hjob : s.pendingJobs[position]? = some job)
      (hmutex : associatedMutex job = some mutex) (hfree : s.owner mutex = none) :
      Turn associatedMutex s worker position
        (takeDuty (s.lockMutex worker mutex) worker position ⟨job, some mutex⟩)
  | passes (job : Job) (mutex : Mutex) (hjob : s.pendingJobs[position]? = some job)
      (hmutex : associatedMutex job = some mutex) (hlocked : s.owner mutex ≠ none) :
      Turn associatedMutex s worker position (s.goTo worker (.scanning (position + 1)))

theorem turn_findSomeDuty (associatedMutex : Job → Option Mutex) (s : State Job Mutex maxThreads)
    (worker : Fin maxThreads) (position : Nat) : Turn associatedMutex s worker position
      (findSomeDuty associatedMutex s worker position) := by
  unfold findSomeDuty
  cases hjob : s.pendingJobs[position]? with
  | none => exact .ends hjob
  | some job =>
      cases hmutex : associatedMutex job with
      | none => simpa only [hmutex] using .takes job hjob hmutex
      | some mutex =>
          by_cases hfree : s.owner mutex = none
          · simpa only [hmutex, if_pos hfree] using .locks job mutex hjob hmutex hfree
          · simpa only [hmutex, if_neg hfree] using .passes job mutex hjob hmutex hfree

theorem guarded_step {e : Event Job maxThreads} (h : Guarded s)
    (hstep : step associatedMutex s e = some s') : Guarded s' := by
  cases steps_of_step hstep with
  | refuses job haccess hfull => exact h
  | accepts job haccess hroom => exact h
  | counts hcount => exact h
  | returns worker hfrom haccess => exact guarded_of_update h rfl rfl (by simp [hfrom])
  | enters worker hfrom haccess =>
      intro w
      have hnone : ¬ ∃ position, s.place w = .scanning position := by
        rw [← h w, haccess]
        simp
      by_cases hw : w = worker
      · subst hw
        simp [State.goTo]
      · simp only [State.goTo, Function.update_of_ne hw, Option.some.injEq]
        exact iff_of_false (Ne.symm hw) hnone
  | scans worker position hfrom =>
      have hturn := turn_findSomeDuty associatedMutex s worker position
      generalize findSomeDuty associatedMutex s worker position = s' at hturn ⊢
      cases hturn with
      | ends hnone => exact guarded_of_release h hfrom rfl rfl (by simp)
      | takes job hjob hmutex => exact guarded_of_release h hfrom rfl rfl (by simp)
      | locks job mutex hjob hmutex hfree => exact guarded_of_release h hfrom rfl rfl (by simp)
      | passes job mutex hjob hmutex hlocked =>
          exact guarded_of_update h rfl rfl (by simp [hfrom])
  | wakes worker hfrom => exact guarded_of_update h rfl rfl (by simp [hfrom])
  | executes worker duty hfrom => exact guarded_of_update h rfl rfl (by simp [hfrom])
  | skips worker duty hfrom hmutex => exact guarded_of_update h rfl rfl (by simp [hfrom])
  | unlocks worker duty mutex hfrom hmutex haccess =>
      exact guarded_of_update h rfl rfl (by simp [hfrom])
  | finishes worker duty hfrom => exact guarded_of_update h rfl rfl (by simp [hfrom])
  | drops worker duty hfrom hlock => exact guarded_of_update h rfl rfl (by simp [hfrom])
  | destroys worker duty mutex hfrom hlock =>
      exact guarded_of_update h rfl rfl (by simp [hfrom])
  | quits => exact h
  | flushes hquit hreturned => exact h

/-- A worker releases a mutex; nobody else holds what it held. -/
theorem attributed_of_unlock {worker : Fin maxThreads} {place : Place Job Mutex} {mutex : Mutex}
    {duty : Duty Job Mutex} (h : Attributed associatedMutex s)
    (hfrom : (s.place worker).duty = some duty)
    (hheld : (s.place worker).held = none ∨ (s.place worker).held = some mutex)
    (hlock : ∀ duty', place.duty = some duty' → duty' = duty) (hreturned : place ≠ .returned) :
    Attributed associatedMutex ((s.unlockMutex worker mutex).goTo worker place) := by
  have hrest : ∀ w, w ≠ worker →
      ((s.unlockMutex worker mutex).goTo worker place).place w = s.place w := by
    intro w hw
    exact Function.update_of_ne hw _ _
  have hself : ((s.unlockMutex worker mutex).goTo worker place).place worker = place :=
    Function.update_self _ _ _
  constructor
  · intro w duty' hduty'
    by_cases hw : w = worker
    · subst hw
      rw [hself] at hduty'
      exact hlock duty' hduty' ▸ h.lock w duty hfrom
    · rw [hrest w hw] at hduty'
      exact h.lock w duty' hduty'
  · intro mutex' w howned
    simp only [State.goTo, State.unlockMutex] at howned
    by_cases hm : mutex' = mutex
    · subst hm
      rw [Function.update_self] at howned
      cases howned
    · rw [Function.update_of_ne hm] at howned
      have hold := h.owner mutex' w howned
      by_cases hw : w = worker
      · subst hw
        rcases hheld with hnone | hsome
        · rw [hnone] at hold
          cases hold
        · rw [hsome, Option.some.injEq] at hold
          exact absurd hold.symm hm
      · rw [hrest w hw]
        exact hold
  · intro w hw
    by_cases heq : w = worker
    · subst heq
      rw [hself] at hw
      exact absurd hw hreturned
    · rw [hrest w heq] at hw
      exact h.returned w hw

theorem attributed_findSomeDuty {worker : Fin maxThreads} {position : Nat}
    (h : Attributed associatedMutex s) (hfrom : s.place worker = .scanning position) :
    Attributed associatedMutex (findSomeDuty associatedMutex s worker position) := by
  have hheld : (s.place worker).held = none := by rw [hfrom]; rfl
  have hturn := turn_findSomeDuty associatedMutex s worker position
  generalize findSomeDuty associatedMutex s worker position = s' at hturn ⊢
  cases hturn with
  | ends hnone =>
      exact attributed_of_update h rfl rfl rfl (by rw [hheld]; rfl) (by simp [Place.duty])
        (by simp)
  | takes job hjob hmutex =>
      refine attributed_of_update h rfl rfl rfl (by rw [hheld]; rfl) ?_ (by simp)
      intro duty hduty
      cases hduty
      exact .inr hmutex.symm
  | passes job mutex hjob hmutex hlocked =>
      exact attributed_of_update h rfl rfl rfl (by rw [hheld]; rfl) (by simp [Place.duty])
        (by simp)
  | locks job mutex hjob hmutex hfree =>
      constructor
      · intro w duty hduty
        simp only [takeDuty, State.lockMutex] at hduty
        by_cases hw : w = worker
        · subst hw
          rw [Function.update_self] at hduty
          cases hduty
          exact hmutex.symm
        · rw [Function.update_of_ne hw] at hduty
          exact h.lock w duty hduty
      · intro mutex' w howned
        simp only [takeDuty, State.lockMutex] at howned ⊢
        by_cases hm : mutex' = mutex
        · subst hm
          rw [Function.update_self, Option.some.injEq] at howned
          subst howned
          rw [Function.update_self]
          rfl
        · rw [Function.update_of_ne hm] at howned
          have hold := h.owner mutex' w howned
          have hw : w ≠ worker := by
            rintro rfl
            rw [hheld] at hold
            cases hold
          rw [Function.update_of_ne hw]
          exact hold
      · intro w hw
        simp only [takeDuty, State.lockMutex] at hw
        by_cases heq : w = worker
        · subst heq
          rw [Function.update_self] at hw
          cases hw
        · rw [Function.update_of_ne heq] at hw
          exact h.returned w hw

theorem attributed_step {e : Event Job maxThreads} (h : Attributed associatedMutex s)
    (hstep : step associatedMutex s e = some s') : Attributed associatedMutex s' := by
  have hquits : ∀ worker, s.place worker = .idle → s' = s.goTo worker .returned →
      e = .enter worker → s.quit = true := by
    rintro worker hidle rfl rfl
    by_contra hquit
    simp only [step, hidle, if_neg hquit] at hstep
    split at hstep
    · have hplace := congrArg (fun s : State Job Mutex maxThreads => s.place worker)
        (Option.some.inj hstep)
      simp [State.goTo] at hplace
    · cases hstep
  cases steps_of_step hstep with
  | refuses job haccess hfull => exact h
  | accepts job haccess hroom => exact ⟨h.lock, h.owner, h.returned⟩
  | counts hcount => exact ⟨h.lock, h.owner, h.returned⟩
  | returns worker hfrom haccess =>
      exact attributed_of_update h rfl rfl rfl (by rw [hfrom]; rfl) (by simp [Place.duty])
        fun _ => hquits worker hfrom rfl rfl
  | enters worker hfrom haccess =>
      exact attributed_of_update h rfl rfl rfl (by rw [hfrom]; rfl) (by simp [Place.duty])
        (by simp)
  | scans worker position hfrom => exact attributed_findSomeDuty h hfrom
  | wakes worker hfrom =>
      exact attributed_of_update h rfl rfl rfl (by rw [hfrom]; rfl) (by simp [Place.duty])
        (by simp)
  | executes worker duty hfrom =>
      refine attributed_of_update h rfl rfl rfl (by rw [hfrom]; rfl) ?_ (by simp)
      intro duty' hduty'
      exact .inl (by rw [hfrom]; exact hduty')
  | skips worker duty hfrom hmutex =>
      have hlock := h.lock worker duty (by rw [hfrom]; rfl)
      refine attributed_of_update h rfl rfl rfl ?_ ?_ (by simp)
      · rw [hfrom, Place.held_unlocked, Place.held_executed, hlock, hmutex]
      · intro duty' hduty'
        exact .inl (by rw [hfrom]; exact hduty')
  | unlocks worker duty mutex hfrom hmutex haccess =>
      have hduty : (s.place worker).duty = some duty := by rw [hfrom]; rfl
      have hlock := h.lock worker duty hduty
      refine attributed_of_unlock h hduty ?_ ?_ (by simp)
      · exact .inr (by rw [hfrom, Place.held_executed, hlock, hmutex])
      · intro duty' hduty'
        cases hduty'
        rfl
  | finishes worker duty hfrom =>
      refine attributed_of_update h rfl rfl rfl (by rw [hfrom]; rfl) ?_ (by simp)
      intro duty' hduty'
      exact .inl (by rw [hfrom]; exact hduty')
  | drops worker duty hfrom hlock =>
      exact attributed_of_update h rfl rfl rfl (by rw [hfrom]; rfl) (by simp [Place.duty])
        (by simp)
  | destroys worker duty mutex hfrom hlock =>
      have hduty : (s.place worker).duty = some duty := by rw [hfrom]; rfl
      refine attributed_of_unlock h hduty ?_ (by simp [Place.duty]) (by simp)
      exact .inl (by rw [hfrom]; rfl)
  | quits => exact ⟨h.lock, h.owner, fun _ _ => rfl⟩
  | flushes hquit hreturned => exact ⟨h.lock, h.owner, h.returned⟩

theorem place_of_other {e : Event Job maxThreads} {worker : Fin maxThreads}
    (hstep : step associatedMutex s e = some s') (hother : e.worker ≠ some worker) :
    s'.place worker = s.place worker := by
  have hgo : ∀ w (place : Place Job Mutex), some w ≠ some worker →
      Function.update s.place w place worker = s.place worker := by
    intro w place hw
    exact Function.update_of_ne (fun h => hw (congrArg some h.symm)) _ _
  cases steps_of_step hstep with
  | refuses job haccess hfull => rfl
  | accepts job haccess hroom => rfl
  | counts hcount => rfl
  | returns w hfrom haccess => exact hgo w _ hother
  | enters w hfrom haccess => exact hgo w _ hother
  | scans w position hfrom =>
      have hturn := turn_findSomeDuty associatedMutex s w position
      generalize findSomeDuty associatedMutex s w position = s' at hturn ⊢
      cases hturn with
      | ends hnone => exact hgo w _ hother
      | takes job hjob hmutex => exact hgo w _ hother
      | locks job mutex hjob hmutex hfree => exact hgo w _ hother
      | passes job mutex hjob hmutex hlocked => exact hgo w _ hother
  | wakes w hfrom => exact hgo w _ hother
  | executes w duty hfrom => exact hgo w _ hother
  | skips w duty hfrom hmutex => exact hgo w _ hother
  | unlocks w duty mutex hfrom hmutex haccess => exact hgo w _ hother
  | finishes w duty hfrom => exact hgo w _ hother
  | drops w duty hfrom hlock => exact hgo w _ hother
  | destroys w duty mutex hfrom hlock => exact hgo w _ hother
  | quits => rfl
  | flushes hquit hreturned => rfl

end Access

section Owed

/-- The jobs that some workers run. -/
def State.runningOf (s : State Job Mutex maxThreads) (busy : Finset (Fin maxThreads)) :
    Multiset Job :=
  busy.val.filterMap fun worker => (s.place worker).running

/-- What is owed of some accepted jobs: those not begun are at the front of the list, and
those begun but not finished are with the busy workers. -/
structure Owes (base : Multiset Job) (front : List Job) (busy : Finset (Fin maxThreads))
    (s : State Job Mutex maxThreads) : Prop where
  waiting : ∃ later, s.pendingJobs = front ++ later
  begun : ∀ worker ∈ busy, (s.place worker).running ≠ none
  account : base ≤ (s.finished : Multiset Job) + front + s.runningOf busy

/-- Fewer steps are owed than this: two for each job to begin, one for each to finish. -/
def OwesLess (base : Multiset Job) (k : Nat) (s : State Job Mutex maxThreads) : Prop :=
  ∃ front busy, Owes base front busy s ∧ 2 * front.length + busy.card < k

variable {s s' : State Job Mutex maxThreads} {base : Multiset Job} {front : List Job}
  {busy : Finset (Fin maxThreads)}

theorem runningOf_congr
    (h : ∀ worker ∈ busy, (s'.place worker).running = (s.place worker).running) :
    s'.runningOf busy = s.runningOf busy := by
  have hlist : ∀ workers : Multiset (Fin maxThreads),
      (∀ worker ∈ workers, (s'.place worker).running = (s.place worker).running) →
      (workers.filterMap fun worker => (s'.place worker).running) =
        workers.filterMap fun worker => (s.place worker).running := by
    intro workers hworkers
    induction workers using Quotient.inductionOn with
    | h l => exact congrArg _ (List.filterMap_congr hworkers)
  exact hlist busy.val h

theorem runningOf_cons {worker : Fin maxThreads} {job : Job} (hidle : worker ∉ busy)
    (hrunning : (s.place worker).running = some job) :
    s.runningOf (busy.cons worker hidle) = job ::ₘ s.runningOf busy :=
  Multiset.filterMap_cons_some (fun w => (s.place w).running) worker busy.val hrunning

theorem Owes.congr (h : Owes base front busy s)
    (hpending : ∃ later, s'.pendingJobs = s.pendingJobs ++ later)
    (hrunning : ∀ worker ∈ busy, (s'.place worker).running = (s.place worker).running)
    (hfinished : (s.finished : Multiset Job) ≤ s'.finished) : Owes base front busy s' where
  waiting := by
    obtain ⟨later, heq⟩ := h.waiting
    obtain ⟨later', heq'⟩ := hpending
    exact ⟨later ++ later', by rw [heq', heq, List.append_assoc]⟩
  begun worker hworker := by
    rw [hrunning worker hworker]
    exact h.begun worker hworker
  account := by
    rw [runningOf_congr hrunning]
    exact h.account.trans
      (Multiset.add_le_add_iff_right.mpr (Multiset.add_le_add_iff_right.mpr hfinished))

theorem running_of_ne {worker w : Fin maxThreads} {place : Place Job Mutex}
    (hplace : s'.place = Function.update s.place worker place) (hw : w ≠ worker) :
    (s'.place w).running = (s.place w).running := by
  rw [hplace, Function.update_of_ne hw]

/-- One of the jobs that are owed begins. -/
theorem owesLess_of_takes (h : Owes base front busy s) {worker : Fin maxThreads}
    {position : Nat} {duty : Duty Job Mutex} (hfrom : s.place worker = .scanning position)
    (hjob : s.pendingJobs[position]? = some duty.job)
    (hplace : s'.place = Function.update s.place worker (.executing duty))
    (hpending : s'.pendingJobs = s.pendingJobs.eraseIdx position)
    (hfinished : s'.finished = s.finished) (hlt : position < front.length) :
    OwesLess base (2 * front.length + busy.card) s' := by
  obtain ⟨later, heq⟩ := h.waiting
  have hidle : worker ∉ busy := by
    intro hworker
    exact h.begun worker hworker (by rw [hfrom]; rfl)
  have hself : (s'.place worker).running = some duty.job := by
    rw [hplace, Function.update_self]
    rfl
  have hrest : ∀ w ∈ busy, (s'.place w).running = (s.place w).running :=
    fun w hw => running_of_ne hplace fun heq => hidle (heq ▸ hw)
  rw [heq, List.getElem?_append_left hlt] at hjob
  have hperm : (front : Multiset Job) = duty.job ::ₘ (front.eraseIdx position : Multiset Job) :=
    Multiset.coe_eq_coe.mpr (perm_eraseIdx hjob)
  refine ⟨front.eraseIdx position, busy.cons worker hidle, ⟨?_, ?_, ?_⟩, ?_⟩
  · exact ⟨later, by rw [hpending, heq, List.eraseIdx_append_of_lt_length hlt]⟩
  · intro w hw
    rcases Finset.mem_cons.mp hw with rfl | hw
    · rw [hself]
      exact Option.some_ne_none _
    · rw [hrest w hw]
      exact h.begun w hw
  · rw [runningOf_cons hidle hself, runningOf_congr hrest, hfinished]
    refine h.account.trans (le_of_eq ?_)
    rw [hperm]
    simp only [Multiset.add_cons, Multiset.cons_add]
  · rw [List.length_eraseIdx_of_lt hlt, Finset.card_cons]
    omega

/-- A busy worker finishes its job. -/
theorem owesLess_of_finishes (h : Owes base front busy s) {worker : Fin maxThreads}
    {duty : Duty Job Mutex} (hfrom : s.place worker = .unlocked duty)
    (hplace : s'.place = Function.update s.place worker (.counted duty))
    (hpending : s'.pendingJobs = s.pendingJobs)
    (hfinished : s'.finished = s.finished ++ [duty.job]) (hworker : worker ∈ busy) :
    OwesLess base (2 * front.length + busy.card) s' := by
  have hself : (s.place worker).running = some duty.job := by
    rw [hfrom]
    rfl
  have hrest : ∀ w ∈ busy.erase worker, (s'.place w).running = (s.place w).running :=
    fun w hw => running_of_ne hplace (Finset.ne_of_mem_erase hw)
  refine ⟨front, busy.erase worker, ⟨?_, ?_, ?_⟩, ?_⟩
  · rw [hpending]
    exact h.waiting
  · intro w hw
    rw [hrest w hw]
    exact h.begun w (Finset.mem_of_mem_erase hw)
  · have hsplit : s.runningOf busy = duty.job ::ₘ s.runningOf (busy.erase worker) := by
      have hcons := runningOf_cons (Finset.notMem_erase worker busy) hself
      rwa [Finset.cons_eq_insert, Finset.insert_erase hworker] at hcons
    refine h.account.trans (le_of_eq ?_)
    rw [hsplit, runningOf_congr hrest, hfinished, ← Multiset.coe_add, Multiset.coe_singleton,
      Multiset.add_comm _ {duty.job}, Multiset.singleton_add]
    simp only [Multiset.add_cons, Multiset.cons_add]
  · rw [Finset.card_erase_of_mem hworker]
    have := Finset.card_pos.mpr ⟨worker, hworker⟩
    omega

variable [DecidableEq Mutex]

/-- What is owed stays or becomes less, until the pool is flushed. -/
theorem owes_step {e : Event Job maxThreads} (h : Owes base front busy s)
    (hstep : step associatedMutex s e = some s') (hquit : s.quit = false) :
    Owes base front busy s' ∨ OwesLess base (2 * front.length + busy.card) s' := by
  cases flow_of_step hstep with
  | stays hplace hledger =>
      simp only [State.ledger, Ledger.mk.injEq] at hledger
      exact .inl (h.congr ⟨[], by simp [hledger.1]⟩ (by simp [hplace]) (by simp [hledger.2.2.1]))
  | quits hplace hledger =>
      simp only [State.ledger, Ledger.mk.injEq] at hledger
      exact .inl (h.congr ⟨[], by simp [hledger.1]⟩ (by simp [hplace]) (by simp [hledger.2.2.1]))
  | accepts job hplace hroom hledger =>
      simp only [State.ledger, Ledger.mk.injEq] at hledger
      exact .inl (h.congr ⟨[job], hledger.1⟩ (by simp [hplace]) (by simp [hledger.2.2.1]))
  | moves worker place hfrom hrunning hbegun hplace hledger =>
      simp only [State.ledger, Ledger.mk.injEq] at hledger
      refine .inl (h.congr ⟨[], by simp [hledger.1]⟩ ?_ (by simp [hledger.2.2.1]))
      intro w _
      by_cases hw : w = worker
      · subst hw
        rw [hplace, Function.update_self, hrunning]
      · exact running_of_ne hplace hw
  | takes worker position duty hfrom hjob hfree hplace hledger =>
      simp only [State.ledger, Ledger.mk.injEq] at hledger
      rcases Nat.lt_or_ge position front.length with hlt | hge
      · exact .inr (owesLess_of_takes h hfrom hjob hplace hledger.1 hledger.2.2.1 hlt)
      · obtain ⟨later, heq⟩ := h.waiting
        have hrest : ∀ w ∈ busy, (s'.place w).running = (s.place w).running := by
          intro w hw
          refine running_of_ne hplace ?_
          rintro rfl
          exact h.begun w hw (by rw [hfrom]; rfl)
        refine .inl ⟨⟨later.eraseIdx (position - front.length), ?_⟩, ?_, ?_⟩
        · rw [hledger.1, heq, List.eraseIdx_append_of_length_le hge]
        · intro w hw
          rw [hrest w hw]
          exact h.begun w hw
        · rw [runningOf_congr hrest, hledger.2.2.1]
          exact h.account
  | finishes worker duty hfrom hplace hledger =>
      simp only [State.ledger, Ledger.mk.injEq] at hledger
      by_cases hworker : worker ∈ busy
      · exact .inr (owesLess_of_finishes h hfrom hplace hledger.1 hledger.2.2.1 hworker)
      · refine .inl (h.congr ⟨[], by simp [hledger.1]⟩ ?_ ?_)
        · intro w hw
          exact running_of_ne hplace fun heq => hworker (heq ▸ hw)
        · rw [hledger.2.2.1, ← Multiset.coe_add]
          exact Multiset.le_add_right _ _
  | flushes hset hreturned hplace hledger =>
      rw [hquit] at hset
      cases hset

end Owed

end ThreadPool

end Supernova
