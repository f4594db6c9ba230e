/-
Where the jobs of the pool are: every accepted one is pending, running, finished
or discarded, and the jobs of a mutex start in the order of their acceptance as
long as no mutex is released behind the back of a scan.
-/
import Mathlib.Data.List.FinRange
import Mathlib.Data.List.Perm.Basic
import Supernova.QuasarThreadPool

namespace Supernova

section Updates

variable {ι α : Type*} [DecidableEq ι]

/-- What one index contributes stands apart from what the others do. -/
theorem filterMap_update_perm {indices : List ι} (hnodup : indices.Nodup) {i : ι}
    (hi : i ∈ indices) (f : ι → Option α) (v : Option α) :
    (indices.filterMap (Function.update f i v)).Perm
      (v.toList ++ (indices.erase i).filterMap f) := by
  have hperm := (List.perm_cons_erase hi).filterMap (Function.update f i v)
  have hrest : (indices.erase i).filterMap (Function.update f i v) =
      (indices.erase i).filterMap f := by
    apply List.filterMap_congr
    intro j hj
    have hne : j ≠ i := fun heq => hnodup.not_mem_erase (heq ▸ hj)
    rw [Function.update_of_ne hne]
  rw [List.filterMap_cons, Function.update_self, hrest] at hperm
  cases v with
  | none => exact hperm
  | some a => exact hperm

end Updates

namespace ThreadPool

variable {Job Mutex : Type} {maxThreads : Nat}

/-- The job of a worker from its selection until it is counted as finished. -/
def Place.running : Place Job Mutex → Option Job
  | .executing duty | .executed duty | .unlocked duty => some duty.job
  | _ => none

/-- The job that a worker begins with between two places. -/
def begun (before after : Place Job Mutex) : Option Job :=
  match before, after with
  | .scanning _, .executing duty => some duty.job
  | _, _ => none

def State.running (s : State Job Mutex maxThreads) : List Job :=
  (List.finRange maxThreads).filterMap fun worker => (s.place worker).running

/-- The pool with a record of the jobs in the order in which they were started. -/
structure Recorded (Job Mutex : Type) (maxThreads : Nat) where
  pool : State Job Mutex maxThreads
  started : List Job := []

section Properties

variable [DecidableEq Mutex] (associatedMutex : Job → Option Mutex)

def record (s : Recorded Job Mutex maxThreads) (e : Event Job maxThreads) :
    Option (Recorded Job Mutex maxThreads) :=
  (step associatedMutex s.pool e).map fun pool =>
    ⟨pool, s.started ++ (List.finRange maxThreads).filterMap fun worker =>
      begun (s.pool.place worker) (pool.place worker)⟩

/-- Each accepted job is in one place, and none is executed but for an accepted
one, which is executed once.  Every submission is a job of its own, so lists of
jobs are compared with their multiplicities. -/
structure Conserved (s : Recorded Job Mutex maxThreads) : Prop where
  partition : s.pool.accepted.Perm
    (s.pool.pendingJobs ++ (s.pool.running ++ (s.pool.finished ++ s.pool.discarded)))
  once : s.started.Perm (s.pool.running ++ s.pool.finished)
  refused : ∀ job, job ∉ s.pool.accepted → job ∉ s.started
  quit : s.pool.discarded ≠ [] → s.pool.quit = true
  limit : s.pool.pendingJobs.length ≤ s.pool.maxJobs
  counter : s.pool.jobsFinishedCounter ≤ s.pool.accepted.length

def jobsOf (mutex : Mutex) (jobs : List Job) : List Job :=
  jobs.filter fun job => associatedMutex job = some mutex

/-- The jobs of a mutex that were started are the first ones that were accepted. -/
def InOrder (s : Recorded Job Mutex maxThreads) : Prop :=
  ∀ mutex, jobsOf associatedMutex mutex s.started <+: jobsOf associatedMutex mutex s.pool.accepted

/-- A duty is destroyed with the lock on a mutex for which a scan has passed one
job and still has another one ahead. -/
def Undercuts (s : State Job Mutex maxThreads) (e : Event Job maxThreads) : Prop :=
  ∃ worker duty mutex scanner position i j job job',
    e = .destroyDuty worker ∧ s.place worker = .counted duty ∧ duty.lock = some mutex ∧
    s.place scanner = .scanning position ∧ i < position ∧ position ≤ j ∧
    s.pendingJobs[i]? = some job ∧ associatedMutex job = some mutex ∧
    s.pendingJobs[j]? = some job' ∧ associatedMutex job' = some mutex

end Properties

section Ledger

/-- What the pool knows of its jobs, the workers apart. -/
structure Ledger (Job : Type) where
  pending : List Job
  accepted : List Job
  finished : List Job
  discarded : List Job
  finishedCounter : Nat
  maxJobs : Nat
  quit : Bool

def State.ledger (s : State Job Mutex maxThreads) : Ledger Job :=
  ⟨s.pendingJobs, s.accepted, s.finished, s.discarded, s.jobsFinishedCounter, s.maxJobs, s.quit⟩

/-- What a step does to the jobs. -/
inductive Flow (associatedMutex : Job → Option Mutex) (s s' : State Job Mutex maxThreads) : Prop
  | stays (hplace : s'.place = s.place) (hledger : s'.ledger = s.ledger)
  | quits (hplace : s'.place = s.place) (hledger : s'.ledger = { s.ledger with quit := true })
  | accepts (job : Job) (hplace : s'.place = s.place)
      (hroom : s.pendingJobs.length < s.maxJobs)
      (hledger : s'.ledger = { s.ledger with
        pending := s.pendingJobs ++ [job]
        accepted := s.accepted ++ [job] })
  | moves (worker : Fin maxThreads) (place : Place Job Mutex)
      (hfrom : (s.place worker).hasReturned = false)
      (hrunning : place.running = (s.place worker).running)
      (hbegun : begun (s.place worker) place = none)
      (hplace : s'.place = Function.update s.place worker place) (hledger : s'.ledger = s.ledger)
  | takes (worker : Fin maxThreads) (position : Nat) (duty : Duty Job Mutex)
      (hfrom : s.place worker = .scanning position)
      (hjob : s.pendingJobs[position]? = some duty.job)
      (hfree : ∀ mutex, associatedMutex duty.job = some mutex → s.owner mutex = none)
      (hplace : s'.place = Function.update s.place worker (.executing duty))
      (hledger : s'.ledger = { s.ledger with pending := s.pendingJobs.eraseIdx position })
  | finishes (worker : Fin maxThreads) (duty : Duty Job Mutex)
      (hfrom : s.place worker = .unlocked duty)
      (hplace : s'.place = Function.update s.place worker (.counted duty))
      (hledger : s'.ledger = { s.ledger with
        finished := s.finished ++ [duty.job]
        finishedCounter := s.jobsFinishedCounter + 1 })
  | flushes (hquit : s.quit = true) (hreturned : ∀ worker, (s.place worker).hasReturned = true)
      (hplace : s'.place = s.place)
      (hledger : s'.ledger = { s.ledger with
        pending := []
        discarded := s.discarded ++ s.pendingJobs })

variable {associatedMutex : Job → Option Mutex} {s s' : State Job Mutex maxThreads}

theorem flow_moves {worker : Fin maxThreads} {before place : Place Job Mutex}
    (hfrom : s.place worker = before)
    (hplace : s'.place = Function.update s.place worker place) (hledger : s'.ledger = s.ledger)
    (hsame : before.hasReturned = false ∧ place.running = before.running ∧
      begun before place = none) : Flow associatedMutex s s' := by
  subst hfrom
  exact .moves worker place hsame.1 hsame.2.1 hsame.2.2 hplace hledger

variable [DecidableEq Mutex]

theorem flow_of_findSomeDuty {worker : Fin maxThreads} {position : Nat}
    (hfrom : s.place worker = .scanning position) :
    Flow associatedMutex s (findSomeDuty associatedMutex s worker position) := by
  unfold findSomeDuty
  split
  · exact flow_moves hfrom rfl rfl ⟨rfl, rfl, rfl⟩
  · rename_i job hjob
    split
    · rename_i hnone
      exact .takes worker position ⟨job, none⟩ hfrom hjob (by simp [hnone]) rfl rfl
    · rename_i mutex hmutex
      split
      · rename_i hfree
        refine .takes worker position ⟨job, some mutex⟩ hfrom hjob ?_ rfl rfl
        intro mutex' hmutex'
        rw [hmutex, Option.some.injEq] at hmutex'
        exact hmutex' ▸ hfree
      · exact flow_moves hfrom rfl rfl ⟨rfl, rfl, rfl⟩

theorem flow_of_step {e : Event Job maxThreads} (h : step associatedMutex s e = some s') :
    Flow associatedMutex s s' := by
  cases steps_of_step h with
  | refuses job haccess hfull => exact .stays rfl rfl
  | accepts job haccess hroom => exact .accepts job rfl hroom rfl
  | counts hcount => exact .stays rfl rfl
  | returns worker hfrom haccess => exact flow_moves hfrom rfl rfl ⟨rfl, rfl, rfl⟩
  | enters worker hfrom haccess => exact flow_moves hfrom rfl rfl ⟨rfl, rfl, rfl⟩
  | scans worker position hfrom => exact flow_of_findSomeDuty hfrom
  | wakes worker hfrom => exact flow_moves hfrom rfl rfl ⟨rfl, rfl, rfl⟩
  | executes worker duty hfrom => exact flow_moves hfrom rfl rfl ⟨rfl, rfl, rfl⟩
  | skips worker duty hfrom hmutex => exact flow_moves hfrom rfl rfl ⟨rfl, rfl, rfl⟩
  | unlocks worker duty mutex hfrom hmutex haccess =>
      exact flow_moves hfrom rfl rfl ⟨rfl, rfl, rfl⟩
  | finishes worker duty hfrom => exact .finishes worker duty hfrom rfl rfl
  | drops worker duty hfrom hlock => exact flow_moves hfrom rfl rfl ⟨rfl, rfl, rfl⟩
  | destroys worker duty mutex hfrom hlock => exact flow_moves hfrom rfl rfl ⟨rfl, rfl, rfl⟩
  | quits => exact .quits rfl rfl
  | flushes hquit hreturned => exact .flushes hquit hreturned rfl rfl

end Ledger

section Conservation

variable {s s' : State Job Mutex maxThreads}

/-- What the other workers contribute, as a worker moves. -/
theorem collected_of_update {α : Type} (f : Place Job Mutex → Option α) {worker : Fin maxThreads}
    {place : Place Job Mutex} (hplace : s'.place = Function.update s.place worker place) :
    ∃ others, ((List.finRange maxThreads).filterMap fun w => f (s.place w)).Perm
        ((f (s.place worker)).toList ++ others) ∧
      ((List.finRange maxThreads).filterMap fun w => f (s'.place w)).Perm
        ((f place).toList ++ others) := by
  have hbefore : (fun w => f (s.place w)) =
      Function.update (fun w => f (s.place w)) worker (f (s.place worker)) := by
    rw [Function.update_eq_self]
  have hafter : (fun w => f (s'.place w)) =
      Function.update (fun w => f (s.place w)) worker (f place) := by
    funext w
    rw [hplace]
    exact Function.apply_update (fun _ => f) s.place worker place w
  refine ⟨((List.finRange maxThreads).erase worker).filterMap fun w => f (s.place w), ?_, ?_⟩
  · nth_rewrite 1 [hbefore]
    exact filterMap_update_perm (List.nodup_finRange _) (List.mem_finRange worker) _ _
  · rw [hafter]
    exact filterMap_update_perm (List.nodup_finRange _) (List.mem_finRange worker) _ _

/-- The jobs of the other workers, as a worker moves. -/
theorem running_of_update {worker : Fin maxThreads} {place : Place Job Mutex}
    (hplace : s'.place = Function.update s.place worker place) :
    ∃ others, s.running.Perm ((s.place worker).running.toList ++ others) ∧
      s'.running.Perm (place.running.toList ++ others) :=
  collected_of_update Place.running hplace

theorem begun_self (place : Place Job Mutex) : begun place place = none := by
  cases place <;> rfl

theorem begun_of_stays (hplace : s'.place = s.place) :
    (List.finRange maxThreads).filterMap (fun w => begun (s.place w) (s'.place w)) = [] := by
  simp [hplace, begun_self]

theorem begun_of_update {worker : Fin maxThreads} {place : Place Job Mutex}
    (hplace : s'.place = Function.update s.place worker place) :
    (List.finRange maxThreads).filterMap (fun w => begun (s.place w) (s'.place w)) =
      (begun (s.place worker) place).toList := by
  have hbegun : (fun w => begun (s.place w) (s'.place w)) =
      Function.update (fun _ => none) worker (begun (s.place worker) place) := by
    funext w
    rw [hplace]
    by_cases hw : w = worker
    · subst hw
      rw [Function.update_self, Function.update_self]
    · rw [Function.update_of_ne hw, Function.update_of_ne hw, begun_self]
  have hperm := filterMap_update_perm (List.nodup_finRange maxThreads) (List.mem_finRange worker)
    (fun _ => none) (begun (s.place worker) place)
  rw [List.filterMap_none, List.append_nil] at hperm
  rw [hbegun]
  cases hjob : begun (s.place worker) place with
  | none =>
      rw [hjob] at hperm
      exact List.perm_nil.mp hperm
  | some job =>
      rw [hjob] at hperm
      exact List.perm_singleton.mp hperm

theorem perm_eraseIdx {jobs : List Job} {position : Nat} {job : Job}
    (h : jobs[position]? = some job) : jobs.Perm (job :: jobs.eraseIdx position) := by
  obtain ⟨hlt, rfl⟩ := List.getElem?_eq_some_iff.mp h
  exact (List.getElem_cons_eraseIdx_perm hlt).symm

/-- The account of the jobs: where they are, which were started, how many finished. -/
structure Balanced (ledger : Ledger Job) (running started : List Job) : Prop where
  partition : ledger.accepted.Perm
    (ledger.pending ++ (running ++ (ledger.finished ++ ledger.discarded)))
  once : started.Perm (running ++ ledger.finished)
  quit : ledger.discarded ≠ [] → ledger.quit = true
  limit : ledger.pending.length ≤ ledger.maxJobs
  counter : ledger.finishedCounter = ledger.finished.length

theorem Balanced.conserved {s : Recorded Job Mutex maxThreads}
    (h : Balanced s.pool.ledger s.pool.running s.started) : Conserved s where
  partition := h.partition
  once := h.once
  refused := by
    intro job hjob hstarted
    have hmem := h.once.mem_iff.mp hstarted
    have haccepted := mt h.partition.mem_iff.mpr hjob
    simp only [List.mem_append] at haccepted hmem
    tauto
  quit := h.quit
  limit := h.limit
  counter := by
    have hlength := h.partition.length_eq
    have hcounter := h.counter
    simp only [List.length_append, State.ledger] at hlength hcounter
    omega

theorem balanced_start (maxJobs : Nat) :
    Balanced (start maxJobs : State Job Mutex maxThreads).ledger
      (start maxJobs : State Job Mutex maxThreads).running [] := by
  have hrunning : (start maxJobs : State Job Mutex maxThreads).running = [] := by
    simp [State.running, start, Place.running]
  rw [hrunning]
  exact ⟨List.Perm.nil, List.Perm.nil, fun h => absurd rfl h, Nat.zero_le maxJobs, rfl⟩

section

variable {ledger : Ledger Job} {running running' others started : List Job}

theorem Balanced.congr (h : Balanced ledger running started) (hrunning : running'.Perm running) :
    Balanced ledger running' started :=
  { h with
    partition := h.partition.trans ((hrunning.symm.append_right _).append_left _)
    once := h.once.trans (hrunning.symm.append_right _) }

theorem Balanced.accept (h : Balanced ledger running started) (job : Job)
    (hroom : ledger.pending.length < ledger.maxJobs) :
    Balanced { ledger with
      pending := ledger.pending ++ [job]
      accepted := ledger.accepted ++ [job] } running started where
  partition := by
    refine (List.perm_append_singleton job ledger.accepted).trans ((h.partition.cons job).trans ?_)
    rw [List.append_assoc, List.singleton_append]
    exact List.perm_middle.symm
  once := h.once
  quit := h.quit
  limit := by
    rw [List.length_append]
    exact hroom
  counter := h.counter

theorem Balanced.take (h : Balanced ledger running started) {position : Nat} {job : Job}
    (hjob : ledger.pending[position]? = some job) :
    Balanced { ledger with pending := ledger.pending.eraseIdx position } (job :: running)
      (started ++ [job]) where
  partition := by
    refine h.partition.trans (((perm_eraseIdx hjob).append_right _).trans ?_)
    exact List.perm_middle.symm
  once := (List.perm_append_singleton job started).trans (h.once.cons job)
  quit := h.quit
  limit := (List.eraseIdx_sublist ledger.pending position).length_le.trans h.limit
  counter := h.counter

theorem Balanced.finish {job : Job} (h : Balanced ledger (job :: running) started) :
    Balanced { ledger with
      finished := ledger.finished ++ [job]
      finishedCounter := ledger.finishedCounter + 1 } running started where
  partition := by
    refine h.partition.trans (List.Perm.append_left _ ?_)
    refine List.perm_middle.symm.trans (List.Perm.append_left _ ?_)
    rw [List.append_assoc]
    exact List.perm_middle.symm
  once := by
    refine h.once.trans (List.perm_middle.symm.trans (List.Perm.append_left _ ?_))
    exact (List.perm_append_singleton job ledger.finished).symm
  quit := h.quit
  limit := h.limit
  counter := by
    rw [List.length_append, h.counter]
    rfl

theorem Balanced.flush (h : Balanced ledger running started) (hquit : ledger.quit = true) :
    Balanced { ledger with
      pending := []
      discarded := ledger.discarded ++ ledger.pending } running started where
  partition := by
    refine h.partition.trans (List.perm_append_comm.trans ?_)
    simp only [List.nil_append, List.append_assoc]
    exact List.Perm.refl _
  once := h.once
  quit := fun _ => hquit
  limit := Nat.zero_le _
  counter := h.counter

end

variable [DecidableEq Mutex] {associatedMutex : Job → Option Mutex}

/-- Every step keeps the account. -/
theorem balanced_record {s s' : Recorded Job Mutex maxThreads} {e : Event Job maxThreads}
    (h : Balanced s.pool.ledger s.pool.running s.started)
    (hstep : record associatedMutex s e = some s') :
    Balanced s'.pool.ledger s'.pool.running s'.started := by
  obtain ⟨pool, hpool, rfl⟩ := Option.map_eq_some_iff.mp hstep
  dsimp only
  cases flow_of_step hpool with
  | stays hplace hledger =>
      rw [begun_of_stays hplace, List.append_nil, hledger, State.running, hplace]
      exact h
  | quits hplace hledger =>
      rw [begun_of_stays hplace, List.append_nil, hledger, State.running, hplace]
      exact ⟨h.partition, h.once, fun _ => rfl, h.limit, h.counter⟩
  | accepts job hplace hroom hledger =>
      rw [begun_of_stays hplace, List.append_nil, hledger, State.running, hplace]
      exact h.accept job hroom
  | moves worker place _ hsame hbegun hplace hledger =>
      obtain ⟨others, hbefore, hafter⟩ := running_of_update hplace
      rw [begun_of_update hplace, hbegun, Option.toList_none, List.append_nil, hledger]
      rw [hsame] at hafter
      exact h.congr (hafter.trans hbefore.symm)
  | takes worker position duty hfrom hjob hfree hplace hledger =>
      obtain ⟨others, hbefore, hafter⟩ := running_of_update hplace
      rw [begun_of_update hplace, hledger, hfrom]
      rw [hfrom] at hbefore
      exact (h.take hjob).congr (hafter.trans (hbefore.symm.cons duty.job))
  | finishes worker duty hfrom hplace hledger =>
      obtain ⟨others, hbefore, hafter⟩ := running_of_update hplace
      have hbegun : begun (s.pool.place worker) (.counted duty) = none := by rw [hfrom]; rfl
      rw [begun_of_update hplace, hbegun, Option.toList_none, List.append_nil, hledger]
      rw [hfrom] at hbefore
      exact (h.congr hbefore.symm).finish.congr hafter
  | flushes hset hreturned hplace hledger =>
      rw [begun_of_stays hplace, List.append_nil, hledger, State.running, hplace]
      exact h.flush hset

end Conservation

section Order

variable {associatedMutex : Job → Option Mutex} {s s' : State Job Mutex maxThreads}

/-- One worker scans at a time, under the access lock; what it has passed over is
locked, or no job of that mutex is ahead of it. -/
structure ScansInOrder (associatedMutex : Job → Option Mutex)
    (s : State Job Mutex maxThreads) : Prop where
  alone : ∀ worker position, s.place worker = .scanning position → s.accessLock = some worker
  passed : ∀ worker position, s.place worker = .scanning position → ∀ i < position, ∀ job,
    s.pendingJobs[i]? = some job → ∃ mutex, associatedMutex job = some mutex ∧
      (s.owner mutex ≠ none ∨ ∀ j, position ≤ j → ∀ job', s.pendingJobs[j]? = some job' →
        associatedMutex job' ≠ some mutex)

theorem ScansInOrder.not_scanning (h : ScansInOrder associatedMutex s)
    (hlock : s.accessLock = none) (worker : Fin maxThreads) (position : Nat) :
    s.place worker ≠ .scanning position := by
  intro hscanning
  rw [h.alone worker position hscanning] at hlock
  cases hlock

/-- Nothing is to be shown when nobody scans. -/
theorem scansInOrder_of_not_scanning
    (h : ∀ worker position, s.place worker ≠ .scanning position) :
    ScansInOrder associatedMutex s where
  alone := fun worker position hscanning => absurd hscanning (h worker position)
  passed := fun worker position hscanning => absurd hscanning (h worker position)

theorem scanning_update {worker w : Fin maxThreads} {place : Place Job Mutex} {position : Nat} :
    Function.update s.place worker place w = .scanning position ↔
      (w = worker ∧ place = .scanning position) ∨ (w ≠ worker ∧ s.place w = .scanning position) := by
  by_cases hw : w = worker
  · subst hw
    simp
  · simp [hw]

/-- The only worker that may have been scanning goes elsewhere. -/
theorem scansInOrder_of_update {worker : Fin maxThreads} {place : Place Job Mutex}
    (h : ∀ w position, s.place w = .scanning position → w = worker)
    (hplace : s'.place = Function.update s.place worker place)
    (hnot : ∀ position, place ≠ .scanning position) : ScansInOrder associatedMutex s' := by
  refine scansInOrder_of_not_scanning fun w position hscanning => ?_
  rw [hplace, scanning_update] at hscanning
  rcases hscanning with ⟨-, hscanning⟩ | ⟨hw, hscanning⟩
  · exact hnot position hscanning
  · exact hw (h w position hscanning)

/-- Another worker goes to a place where it does not scan. -/
theorem ScansInOrder.moved (h : ScansInOrder associatedMutex s) {worker : Fin maxThreads}
    {place : Place Job Mutex} (hplace : s'.place = Function.update s.place worker place)
    (hnot : ∀ position, place ≠ .scanning position) (hlock : s'.accessLock = s.accessLock)
    (hpending : s'.pendingJobs = s.pendingJobs) (howner : s'.owner = s.owner) :
    ScansInOrder associatedMutex s' := by
  have hold : ∀ w position, s'.place w = .scanning position → s.place w = .scanning position := by
    intro w position hscanning
    rw [hplace, scanning_update] at hscanning
    exact hscanning.elim (fun hnew => absurd hnew.2 (hnot position)) And.right
  constructor
  · intro w position hscanning
    rw [hlock]
    exact h.alone w position (hold w position hscanning)
  · intro w position hscanning
    rw [hpending, howner]
    exact h.passed w position (hold w position hscanning)

variable [DecidableEq Mutex]

theorem scansInOrder_findSomeDuty (h : ScansInOrder associatedMutex s)
    {worker : Fin maxThreads} {position : Nat} (hfrom : s.place worker = .scanning position) :
    ScansInOrder associatedMutex (findSomeDuty associatedMutex s worker position) := by
  have hworker : ∀ w p, s.place w = .scanning p → w = worker := by
    intro w p hscanning
    have hlock := h.alone w p hscanning
    rw [h.alone worker position hfrom, Option.some.injEq] at hlock
    exact hlock.symm
  unfold findSomeDuty
  split
  · exact scansInOrder_of_update hworker rfl (by simp)
  · rename_i job hjob
    split
    · exact scansInOrder_of_update hworker rfl (by simp)
    · rename_i mutex hmutex
      split
      · exact scansInOrder_of_update hworker rfl (by simp)
      · rename_i hlocked
        have hscan : ∀ w p, (s.goTo worker (.scanning (position + 1))).place w = .scanning p →
            w = worker ∧ p = position + 1 := by
          intro w p hscanning
          rcases scanning_update.1 hscanning with ⟨hw, hp⟩ | ⟨hw, hscanning⟩
          · exact ⟨hw, (Place.scanning.inj hp).symm⟩
          · exact absurd (hworker w p hscanning) hw
        constructor
        · intro w p hscanning
          obtain ⟨rfl, -⟩ := hscan w p hscanning
          exact h.alone w position hfrom
        · intro w p hscanning i hi job' hjob'
          obtain ⟨rfl, rfl⟩ := hscan w p hscanning
          rcases Nat.lt_succ_iff_lt_or_eq.mp hi with hi | rfl
          · obtain ⟨mutex', hmutex', hpassed⟩ := h.passed w position hfrom i hi job' hjob'
            refine ⟨mutex', hmutex', hpassed.imp_right fun hahead j hj => ?_⟩
            exact hahead j (by omega)
          · change s.pendingJobs[i]? = some job' at hjob'
            rw [hjob, Option.some.injEq] at hjob'
            exact ⟨mutex, hjob' ▸ hmutex, .inl hlocked⟩

theorem scansInOrder_step {e : Event Job maxThreads} (h : ScansInOrder associatedMutex s)
    (hkeeps : ¬ Undercuts associatedMutex s e) (hstep : step associatedMutex s e = some s') :
    ScansInOrder associatedMutex s' := by
  cases steps_of_step hstep with
  | refuses job haccess hfull => exact h
  | accepts job haccess hroom => exact scansInOrder_of_not_scanning (h.not_scanning haccess)
  | counts hcount => exact ⟨h.alone, h.passed⟩
  | returns worker hfrom haccess =>
      have hnobody : ∀ w position, s.place w = .scanning position → w = worker :=
        fun w position hscanning => absurd hscanning (h.not_scanning haccess w position)
      exact scansInOrder_of_update hnobody rfl (by simp)
  | enters worker hfrom haccess =>
      have hscan : ∀ w p, (s.goTo worker (.scanning 0)).place w = .scanning p →
          w = worker ∧ p = 0 := by
        intro w p hscanning
        rcases scanning_update.1 hscanning with ⟨hw, hp⟩ | ⟨hw, hscanning⟩
        · exact ⟨hw, (Place.scanning.inj hp).symm⟩
        · exact absurd hscanning (h.not_scanning haccess w p)
      constructor
      · intro w p hscanning
        rw [(hscan w p hscanning).1]
      · intro w p hscanning i hi
        rw [(hscan w p hscanning).2] at hi
        exact absurd hi (Nat.not_lt_zero i)
  | scans worker position hfrom => exact scansInOrder_findSomeDuty h hfrom
  | wakes worker hfrom => exact h.moved rfl (by simp) rfl rfl rfl
  | executes worker duty hfrom => exact h.moved rfl (by simp) rfl rfl rfl
  | skips worker duty hfrom hmutex => exact h.moved rfl (by simp) rfl rfl rfl
  | unlocks worker duty mutex hfrom hmutex haccess =>
      have hnobody : ∀ w position, s.place w = .scanning position → w = worker :=
        fun w position hscanning => absurd hscanning (h.not_scanning haccess w position)
      exact scansInOrder_of_update hnobody rfl (by simp)
  | finishes worker duty hfrom => exact h.moved rfl (by simp) rfl rfl rfl
  | drops worker duty hfrom hlock => exact h.moved rfl (by simp) rfl rfl rfl
  | destroys worker duty mutex hfrom hlock =>
      have hold : ∀ w p, ((s.unlockMutex worker mutex).goTo worker .idle).place w =
          .scanning p → s.place w = .scanning p := by
        intro w p hscanning
        exact (scanning_update.1 hscanning).elim (fun hnew => absurd hnew.2 (by simp)) And.right
      constructor
      · exact fun w p hscanning => h.alone w p (hold w p hscanning)
      · intro w p hscanning i hi job hjob
        obtain ⟨mutex', hmutex', hpassed⟩ := h.passed w p (hold w p hscanning) i hi job hjob
        refine ⟨mutex', hmutex', ?_⟩
        by_cases hsame : mutex' = mutex
        · subst hsame
          refine .inr fun j hj job' hjob' hahead => hkeeps ?_
          exact ⟨worker, duty, mutex', w, p, i, j, job, job', rfl, hfrom, hlock,
            hold w p hscanning, hi, hj, hjob, hmutex', hjob', hahead⟩
        · refine hpassed.imp_left fun howner => ?_
          change Function.update s.owner mutex none mutex' ≠ none
          rwa [Function.update_of_ne hsame]
  | quits => exact ⟨h.alone, h.passed⟩
  | flushes hquit hreturned =>
      refine scansInOrder_of_not_scanning fun worker position hscanning => ?_
      have hworker := hreturned worker
      rw [hscanning] at hworker
      cases hworker

theorem jobsOf_eraseIdx {jobs : List Job} {position : Nat} {job : Job} (mutex : Mutex)
    (hjob : jobs[position]? = some job)
    (hfirst : associatedMutex job = some mutex → ∀ i < position, ∀ job', jobs[i]? = some job' →
      associatedMutex job' ≠ some mutex) :
    jobsOf associatedMutex mutex jobs =
      jobsOf associatedMutex mutex [job] ++
        jobsOf associatedMutex mutex (jobs.eraseIdx position) := by
  obtain ⟨hlt, rfl⟩ := List.getElem?_eq_some_iff.mp hjob
  have hsplit : jobs = jobs.take position ++ jobs[position] :: jobs.drop (position + 1) := by
    rw [← List.drop_eq_getElem_cons hlt, List.take_append_drop]
  have hrest : jobs.eraseIdx position = jobs.take position ++ jobs.drop (position + 1) :=
    List.eraseIdx_eq_take_drop_succ jobs position
  have hall : jobsOf associatedMutex mutex jobs = jobsOf associatedMutex mutex
      (jobs.take position ++ jobs[position] :: jobs.drop (position + 1)) := congrArg _ hsplit
  rw [hall, hrest]
  simp only [jobsOf, List.filter_append]
  by_cases hmutex : associatedMutex jobs[position] = some mutex
  · have hbefore : (jobs.take position).filter
        (fun job => decide (associatedMutex job = some mutex)) = [] := by
      rw [List.filter_eq_nil_iff]
      intro job' hmem
      obtain ⟨i, hi, rfl⟩ := List.mem_take_iff_getElem.mp hmem
      simpa using hfirst hmutex i (by omega) _ (List.getElem?_eq_getElem (by omega))
    rw [hbefore, List.filter_cons_of_pos (by simpa using hmutex),
      List.filter_cons_of_pos (by simpa using hmutex), List.filter_nil]
    rfl
  · rw [List.filter_cons_of_neg (by simpa using hmutex),
      List.filter_cons_of_neg (by simpa using hmutex), List.filter_nil, List.nil_append]

/-- The started jobs of a mutex come first, then the discarded ones, then those
that are pending; after the first discarded job nothing moves any more. -/
structure Sequenced (associatedMutex : Job → Option Mutex)
    (s : Recorded Job Mutex maxThreads) : Prop where
  sequence : ∀ mutex, jobsOf associatedMutex mutex s.pool.accepted =
    jobsOf associatedMutex mutex s.started ++ (jobsOf associatedMutex mutex s.pool.discarded ++
      jobsOf associatedMutex mutex s.pool.pendingJobs)
  retired : s.pool.discarded ≠ [] → ∀ worker, (s.pool.place worker).hasReturned = true

theorem Sequenced.inOrder {s : Recorded Job Mutex maxThreads} (h : Sequenced associatedMutex s) :
    InOrder associatedMutex s := by
  intro mutex
  rw [h.sequence mutex]
  exact List.prefix_append _ _

/-- What happens to the lists of a mutex while nothing is started. -/
theorem sequenced_of_stays {s : Recorded Job Mutex maxThreads} {pool : State Job Mutex maxThreads}
    (hplace : pool.place = s.pool.place)
    (hsequence : ∀ mutex, jobsOf associatedMutex mutex pool.accepted =
      jobsOf associatedMutex mutex s.started ++ (jobsOf associatedMutex mutex pool.discarded ++
        jobsOf associatedMutex mutex pool.pendingJobs))
    (hretired : pool.discarded ≠ [] → ∀ worker, (s.pool.place worker).hasReturned = true) :
    Sequenced associatedMutex ⟨pool, s.started ++ (List.finRange maxThreads).filterMap fun worker =>
      begun (s.pool.place worker) (pool.place worker)⟩ where
  sequence := by
    intro mutex
    dsimp only
    rw [begun_of_stays hplace, List.append_nil]
    exact hsequence mutex
  retired := by
    dsimp only
    rw [hplace]
    exact hretired

theorem sequenced_record {s s' : Recorded Job Mutex maxThreads} {e : Event Job maxThreads}
    (h : Sequenced associatedMutex s) (hscans : ScansInOrder associatedMutex s.pool)
    (hstep : record associatedMutex s e = some s') : Sequenced associatedMutex s' := by
  obtain ⟨pool, hpool, rfl⟩ := Option.map_eq_some_iff.mp hstep
  have hmoves : ∀ worker, (s.pool.place worker).hasReturned = false → s.pool.discarded = [] := by
    intro worker hworker
    by_contra hdiscarded
    rw [h.retired hdiscarded worker] at hworker
    cases hworker
  cases flow_of_step hpool with
  | stays hplace hledger =>
      simp only [State.ledger, Ledger.mk.injEq] at hledger
      obtain ⟨hpending, haccepted, -, hdiscarded, -⟩ := hledger
      refine sequenced_of_stays hplace ?_ ?_
      · rw [hpending, haccepted, hdiscarded]
        exact h.sequence
      · rw [hdiscarded]
        exact h.retired
  | quits hplace hledger =>
      simp only [State.ledger, Ledger.mk.injEq] at hledger
      obtain ⟨hpending, haccepted, -, hdiscarded, -⟩ := hledger
      refine sequenced_of_stays hplace ?_ ?_
      · rw [hpending, haccepted, hdiscarded]
        exact h.sequence
      · rw [hdiscarded]
        exact h.retired
  | accepts job hplace hroom hledger =>
      simp only [State.ledger, Ledger.mk.injEq] at hledger
      obtain ⟨hpending, haccepted, -, hdiscarded, -⟩ := hledger
      refine sequenced_of_stays hplace ?_ ?_
      · intro mutex
        have hsequence := h.sequence mutex
        rw [hpending, haccepted, hdiscarded]
        simp only [jobsOf, List.filter_append] at hsequence ⊢
        rw [hsequence]
        simp only [List.append_assoc]
      · rw [hdiscarded]
        exact h.retired
  | flushes hset hreturned hplace hledger =>
      simp only [State.ledger, Ledger.mk.injEq] at hledger
      obtain ⟨hpending, haccepted, -, hdiscarded, -⟩ := hledger
      refine sequenced_of_stays hplace ?_ fun _ => hreturned
      intro mutex
      have hsequence := h.sequence mutex
      rw [hpending, haccepted, hdiscarded]
      simp only [jobsOf, List.filter_append, List.filter_nil, List.append_nil] at hsequence ⊢
      exact hsequence
  | moves worker place hfrom hsame hbegun hplace hledger =>
      simp only [State.ledger, Ledger.mk.injEq] at hledger
      obtain ⟨hpending, haccepted, -, hdiscarded, -⟩ := hledger
      refine ⟨fun mutex => ?_, fun hnone => ?_⟩
      · dsimp only
        rw [begun_of_update hplace, hbegun, Option.toList_none, List.append_nil, hpending,
          haccepted, hdiscarded]
        exact h.sequence mutex
      · exact absurd (hdiscarded.trans (hmoves worker hfrom)) hnone
  | takes worker position duty hfrom hjob hfree hplace hledger =>
      simp only [State.ledger, Ledger.mk.injEq] at hledger
      obtain ⟨hpending, haccepted, -, hdiscarded, -⟩ := hledger
      have hempty := hmoves worker (by rw [hfrom]; rfl)
      refine ⟨fun mutex => ?_, fun hnone => absurd (hdiscarded.trans hempty) hnone⟩
      have hsequence := h.sequence mutex
      -- an earlier job of this mutex was passed as locked, and the mutex was not released since
      have hfirst : associatedMutex duty.job = some mutex → ∀ i < position, ∀ job',
          s.pool.pendingJobs[i]? = some job' → associatedMutex job' ≠ some mutex := by
        intro hmutex i hi job' hjob' hmutex'
        obtain ⟨mutex', hearlier, hlocked | hahead⟩ := hscans.passed worker position hfrom i hi
          job' hjob'
        · rw [hmutex', Option.some.injEq] at hearlier
          exact hlocked (hfree mutex' (hearlier ▸ hmutex))
        · rw [hmutex', Option.some.injEq] at hearlier
          exact hahead position le_rfl duty.job hjob (hearlier ▸ hmutex)
      dsimp only
      rw [begun_of_update hplace, hpending, haccepted, hdiscarded, hsequence, hempty,
        jobsOf_eraseIdx mutex hjob hfirst, hfrom]
      simp only [begun, Option.toList_some, jobsOf, List.filter_append, List.filter_nil,
        List.nil_append, List.append_assoc]
  | finishes worker duty hfrom hplace hledger =>
      simp only [State.ledger, Ledger.mk.injEq] at hledger
      obtain ⟨hpending, haccepted, -, hdiscarded, -⟩ := hledger
      have hempty := hmoves worker (by rw [hfrom]; rfl)
      have hbegun : begun (s.pool.place worker) (.counted duty) = none := by rw [hfrom]; rfl
      refine ⟨fun mutex => ?_, fun hnone => absurd (hdiscarded.trans hempty) hnone⟩
      dsimp only
      rw [begun_of_update hplace, hbegun, Option.toList_none, List.append_nil, hpending,
        haccepted, hdiscarded]
      exact h.sequence mutex

end Order

section Runs

theorem not_undercuts_of_ne {associatedMutex : Job → Option Mutex} {s : State Job Mutex maxThreads}
    {e : Event Job maxThreads} (h : ∀ worker, e ≠ .destroyDuty worker) :
    ¬ Undercuts associatedMutex s e := by
  rintro ⟨worker, -, -, -, -, -, -, -, -, hevent, -⟩
  exact h worker hevent

theorem not_undercuts_of_empty {associatedMutex : Job → Option Mutex}
    {s : State Job Mutex maxThreads} {e : Event Job maxThreads} (h : s.pendingJobs = []) :
    ¬ Undercuts associatedMutex s e := by
  rintro ⟨-, -, -, -, -, i, -, job, -, -, -, -, -, -, -, hjob, -⟩
  rw [h] at hjob
  cases hjob

variable [DecidableEq Mutex]

/-- In every run jobs are neither lost nor executed twice; those of a mutex start
in the order of their acceptance as long as no lock is destroyed in the middle of
a scan that has passed a job of its mutex and has another one ahead. -/
theorem conserved_inOrder_of_not_undercuts (associatedMutex : Job → Option Mutex) (maxJobs : Nat)
    {events : List (Event Job maxThreads)}
    (h : Along (record associatedMutex) (fun s e => ¬ Undercuts associatedMutex s.pool e)
      ⟨start maxJobs, []⟩ events) :
    Throughout (record associatedMutex) (fun s => Conserved s ∧ InOrder associatedMutex s)
      ⟨start maxJobs, []⟩ events := by
  refine throughout_of_along (I := fun s => Balanced s.pool.ledger s.pool.running s.started ∧
    ScansInOrder associatedMutex s.pool ∧ Sequenced associatedMutex s) ?_ ?_ ?_ h
  · rintro s e s' ⟨hbalanced, hscans, hsequenced⟩ hkeeps hstep
    refine ⟨balanced_record hbalanced hstep, ?_, sequenced_record hsequenced hscans hstep⟩
    obtain ⟨pool, hpool, rfl⟩ := Option.map_eq_some_iff.mp hstep
    exact scansInOrder_step hscans hkeeps hpool
  · rintro s ⟨hbalanced, -, hsequenced⟩
    exact ⟨hbalanced.conserved, hsequenced.inOrder⟩
  · exact ⟨balanced_start maxJobs, scansInOrder_of_not_scanning (by simp [start]),
      fun _ => rfl, fun hnone => absurd rfl hnone⟩

/-- A job of a mutex from its acceptance to the end of its duty. -/
theorem conserved_inOrder_single :
    Throughout (record fun _ : Nat => some ())
      (fun s : Recorded Nat Unit 1 => Conserved s ∧ InOrder (fun _ => some ()) s) ⟨start 10, []⟩
      [.addJob 0, .enter 0, .scan 0, .finishExecute 0, .unlock 0, .countFinished 0,
        .destroyDuty 0] :=
  conserved_inOrder_of_not_undercuts _ 10
    ⟨not_undercuts_of_ne (by simp), not_undercuts_of_ne (by simp), not_undercuts_of_ne (by simp),
      not_undercuts_of_ne (by simp), not_undercuts_of_ne (by simp), not_undercuts_of_ne (by simp),
      not_undercuts_of_empty rfl, trivial⟩

/-- Four workers and four jobs of one mutex: the third worker has passed job 2
while the second one held the mutex when the first one's duty releases it. -/
def overtakingRun : List (Event Nat 4) :=
  [.addJob 0, .addJob 1, .addJob 2, .addJob 3,
    .enter 0, .scan 0, .finishExecute 0, .unlock 0, .countFinished 0,
    .enter 1, .scan 1, .enter 2, .scan 2, .destroyDuty 0, .scan 2]

theorem overtakingRun_not_inOrder :
    ¬ ∀ events, Throughout (record fun _ : Nat => some ())
      (fun s : Recorded Nat Unit 4 => Conserved s ∧ InOrder (fun _ => some ()) s)
      ⟨start 10, []⟩ events := by
  intro h
  obtain ⟨s, hrun, hstarted, haccepted⟩ : ∃ s : Recorded Nat Unit 4,
      run (record fun _ : Nat => some ()) ⟨start 10, []⟩ overtakingRun = some s ∧
        s.started = [0, 1, 3] ∧ s.pool.accepted = [0, 1, 2, 3] :=
    ⟨_, rfl, by decide, by decide⟩
  have hprefix := ((h overtakingRun).last hrun).2 ()
  rw [hstarted, haccepted] at hprefix
  exact absurd hprefix (by decide)

end Runs

end ThreadPool

end Supernova
