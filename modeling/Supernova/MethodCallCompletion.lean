/-
How often `finishCall` is called for a method call: a call that is refused is not
finished, and one for which `beginCall` returns Good is finished once, in the end also when
its job has to wait.
-/
import Mathlib
import Supernova.DelegatingMethod
import Supernova.RunComponents
import Supernova.SourceVariableHandles
import Supernova.ThreadPoolLiveness

namespace Supernova

namespace ThreadPool

variable {Job Mutex : Type} {maxThreads : Nat} [DecidableEq Mutex]
  {associatedMutex : Job → Option Mutex} {s s' : State Job Mutex maxThreads}
  {e : Event Job maxThreads}

theorem accepted_of_step (h : step associatedMutex s e = some s') : s'.accepted = s.accepted ∨
    ∃ job, e = .addJob job ∧ s'.accepted = s.accepted ++ [job] := by
  cases steps_of_step h with
  | accepts job haccess hroom => exact .inr ⟨job, rfl, rfl⟩
  | scans worker position hfrom =>
      have hturn := turn_findSomeDuty associatedMutex s worker position
      generalize findSomeDuty associatedMutex s worker position = s' at hturn ⊢
      cases hturn with
      | ends | takes | locks | passes => exact .inl rfl
  | refuses | counts | returns | enters | wakes | executes | skips | unlocks | finishes | drops
  | destroys | quits | flushes => exact .inl rfl

omit [DecidableEq Mutex] in
/-- What is not executed and what is finished are different ones among the accepted jobs. -/
theorem outstanding_append_finished {started : List Job}
    (h : Balanced s.ledger s.running started) :
    (s.outstanding ++ s.finished).Subperm s.accepted := by
  have hrunning : ((List.finRange maxThreads).filterMap fun worker =>
      (s.place worker).unexecuted).Sublist s.running := by
    rw [State.running]
    generalize List.finRange maxThreads = workers
    induction workers with
    | nil => exact List.Sublist.refl []
    | cons worker workers ih =>
        rw [List.filterMap_cons, List.filterMap_cons]
        cases hplace : s.place worker with
        | executing duty => exact ih.cons_cons duty.job
        | executed duty => exact ih.cons duty.job
        | unlocked duty => exact ih.cons duty.job
        | idle | scanning | waiting | counted | returned => exact ih
  have hsub : (s.outstanding ++ s.finished).Sublist
      (s.pendingJobs ++ (s.discarded ++ s.running) ++ s.finished) :=
    ((hrunning.append_left _).append_left _).append_right _
  refine hsub.subperm.trans (List.Perm.subperm ?_)
  refine (List.Perm.trans ?_ (h.partition : s.accepted.Perm _).symm)
  rw [List.append_assoc]
  refine List.Perm.append_left _ ?_
  rw [List.append_assoc, ← List.append_assoc s.running]
  exact List.perm_append_comm

end ThreadPool

namespace ASDelegatingMethod

open Quasar (BuiltInType StatusCode UaVariant NativeValue Conversions)
open ASSourceVariable (badOutOfService badResourceUnavailable isGood_badOutOfService
  isGood_badResourceUnavailable)

variable {Object Handle Mutex : Type} {content : BuiltInType → Type} {maxThreads : Nat}

/-- The handles for which `beginCall` has returned Good. -/
def goodOf (returned : List (Handle × Return)) : List Handle :=
  (returned.filter fun entry => entry.2 = .good).map Prod.fst

@[simp] theorem goodOf_refused (returned : List (Handle × Return)) (handle : Handle)
    (status : StatusCode) : goodOf (returned ++ [(handle, .refused status)]) = goodOf returned := by
  simp [goodOf]

@[simp] theorem goodOf_good (returned : List (Handle × Return)) (handle : Handle) :
    goodOf (returned ++ [(handle, .good)]) = goodOf returned ++ [handle] := by
  simp [goodOf]

theorem mem_goodOf {returned : List (Handle × Return)} {handle : Handle} :
    handle ∈ goodOf returned ↔ (handle, .good) ∈ returned := by
  simp [goodOf]

theorem goodOf_sublist (returned : List (Handle × Return)) :
    (goodOf returned).Sublist (returned.map Prod.fst) :=
  List.filter_sublist.map Prod.fst

namespace State

variable (s : State Object Handle Mutex content maxThreads)

/-- The handles in jobs that are not executed. -/
def waiting : List Handle :=
  s.pool.outstanding.filterMap Job.handle?

/-- The handles in all jobs that the pool has accepted. -/
def accepted : List Handle :=
  s.pool.accepted.filterMap Job.handle?

variable [DecidableEq Handle]

/-- How often a call with this handle has been finished. -/
def finishes (handle : Handle) : Nat :=
  (s.finished.map FinishCall.handle).count handle

/-- Each handle is in a call or has been returned for, and what was returned Good for is
finished or waits in the pool. -/
structure Accounted : Prop where
  nodup : s.begun.Nodup
  calls : ∀ handle, (s.returned.map Prod.fst).count handle +
    (s.dispatching.map Call.handle).count handle +
    (s.delegating.map Call.handle).count handle = s.begun.count handle
  answers : ∀ handle, s.finishes handle + s.waiting.count handle = (goodOf s.returned).count handle
  jobs : ∀ handle, s.accepted.count handle ≤ (s.returned.map Prod.fst).count handle

end State

section Pool

variable [DecidableEq Mutex] {locks : Locks Object Mutex}
  {pool pool' : ThreadPool.State (Job Object Handle Mutex content) Mutex maxThreads}

omit [DecidableEq Mutex] in
theorem executing_eq_some {worker : Fin maxThreads}
    {duty : ThreadPool.Duty (Job Object Handle Mutex content) Mutex}
    (hfrom : pool.place worker = .executing duty) : executing pool worker = some duty.job := by
  rw [executing, hfrom]

/-- A call is dispatched with a bad status, or becomes a job of the pool. -/
theorem handles_of_addJob {call : Call Object Handle content} {threadPool : Bool}
    {status : StatusCode} (h : addJob locks pool call threadPool = some (status, pool')) :
    (status.isGood = false ∧
      (pool'.outstanding.filterMap Job.handle?).Perm (pool.outstanding.filterMap Job.handle?) ∧
      pool'.accepted = pool.accepted) ∨
    (status.isGood = true ∧
      (pool'.outstanding.filterMap Job.handle?).Perm
        (call.handle :: pool.outstanding.filterMap Job.handle?) ∧
      pool'.accepted = pool.accepted ++ [.methodCall call]) := by
  cases threadPool with
  | false =>
      cases h
      exact .inl ⟨isGood_badOutOfService, .refl _, rfl⟩
  | true =>
      obtain ⟨added, hstep, heq⟩ := Option.map_eq_some_iff.mp h
      obtain ⟨hstatus, rfl⟩ := Prod.mk.inj heq
      cases ThreadPool.steps_of_step hstep with
      | refuses job haccess hfull =>
          rw [if_pos hfull] at hstatus
          subst hstatus
          exact .inl ⟨isGood_badResourceUnavailable, .refl _, rfl⟩
      | accepts job haccess hroom =>
          rw [if_neg (Nat.not_le_of_lt hroom)] at hstatus
          subst hstatus
          refine .inr ⟨StatusCode.isGood_opcUaGood, ?_, rfl⟩
          simp only [ThreadPool.State.outstanding, List.append_assoc]
          exact List.perm_middle.filterMap Job.handle?

/-- The job of a call is executed. -/
theorem handles_of_executed {worker : Fin maxThreads} {call : Call Object Handle content}
    (hexecuting : executing pool worker = some (.methodCall call))
    (h : ThreadPool.step (Job.associatedMutex locks) pool (.finishExecute worker) = some pool') :
    (pool.outstanding.filterMap Job.handle?).Perm
        (call.handle :: pool'.outstanding.filterMap Job.handle?) ∧
      pool'.accepted = pool.accepted := by
  constructor
  · cases ThreadPool.outlook_of_step h with
    | keeps hother hfull houtstanding => exact absurd rfl (hother worker)
    | accepts job hevent hroom houtstanding => cases hevent
    | executes worker' duty hevent hfrom houtstanding =>
        cases hevent
        have hjob := (executing_eq_some hfrom).symm.trans hexecuting
        rw [Option.some.inj hjob] at houtstanding
        exact houtstanding.filterMap Job.handle?
  · rcases ThreadPool.accepted_of_step h with hsame | ⟨job, hevent, -⟩
    · exact hsame
    · cases hevent

/-- What others do with the pool concerns no handle. -/
theorem handles_of_isOther {e : ThreadPool.Event (Job Object Handle Mutex content) maxThreads}
    (hother : isOther pool e = true)
    (h : ThreadPool.step (Job.associatedMutex locks) pool e = some pool') :
    (pool'.outstanding.filterMap Job.handle?).Perm (pool.outstanding.filterMap Job.handle?) ∧
      pool'.accepted.filterMap Job.handle? = pool.accepted.filterMap Job.handle? := by
  constructor
  · cases ThreadPool.outlook_of_step h with
    | keeps hnot hfull houtstanding => exact houtstanding.filterMap Job.handle?
    | accepts job hevent hroom houtstanding =>
        subst hevent
        have hjobs := houtstanding.filterMap Job.handle?
        rwa [List.filterMap_cons_none (Option.isNone_iff_eq_none.mp hother)] at hjobs
    | executes worker duty hevent hfrom houtstanding =>
        subst hevent
        simp only [isOther, executing_eq_some hfrom, Option.bind_some] at hother
        have hjobs := houtstanding.filterMap Job.handle?
        rw [List.filterMap_cons_none (Option.isNone_iff_eq_none.mp hother)] at hjobs
        exact hjobs.symm
  · rcases ThreadPool.accepted_of_step h with hsame | ⟨job, hevent, hadded⟩
    · rw [hsame]
    · subst hevent
      rw [hadded, List.filterMap_append,
        List.filterMap_cons_none (Option.isNone_iff_eq_none.mp hother), List.filterMap_nil,
        List.append_nil]

end Pool

section Steps

variable [DecidableEq Handle] [DecidableEq Mutex] {conversions : Conversions content}
  {helper : NativeValue content → UaVariant content} {locks : Locks Object Mutex}
  {s s' : State Object Handle Mutex content maxThreads}

omit [DecidableEq Mutex] in
theorem count_map_eraseIdx (handle : Handle) {calls : List (Call Object Handle content)}
    {position : Nat} {call : Call Object Handle content} (hcall : calls[position]? = some call) :
    (calls.map Call.handle).count handle =
      ((calls.eraseIdx position).map Call.handle).count handle + [call.handle].count handle := by
  rw [((ThreadPool.perm_eraseIdx hcall).map Call.handle).count_eq, List.map_cons,
    ← List.singleton_append, List.count_append, Nat.add_comm]

omit [DecidableEq Mutex] in
theorem accounted_beginCall (hs : s.Accounted) {handle : Handle} (hnew : handle ∉ s.begun)
    (target : Target Object) (inputArguments : List (UaVariant content)) :
    (beginCall conversions { s with begun := s.begun ++ [handle] } target handle
      inputArguments).Accounted := by
  have hnodup : (s.begun ++ [handle]).Nodup :=
    List.nodup_append.mpr ⟨hs.nodup, List.nodup_singleton handle, by
      rintro a ha b hb rfl
      exact hnew (List.mem_singleton.mp hb ▸ ha)⟩
  unfold beginCall
  dsimp only
  split
  · refine ⟨hnodup, fun handle' => ?_, fun handle' => ?_, fun handle' => ?_⟩
    · have hcalls := hs.calls handle'
      simp only [List.map_append, List.map_cons, List.map_nil, List.count_append]
      omega
    · rw [goodOf_refused]
      exact hs.answers handle'
    · have hjobs := hs.jobs handle'
      simp only [List.map_append, List.count_append]
      exact Nat.le_add_right_of_le hjobs
  · rename_i call hchecked
    have hhandle : call.handle = handle := by
      obtain ⟨handler, -, hchecked⟩ := except_bind_eq_ok.1 hchecked
      obtain ⟨arguments, -, hchecked⟩ := except_bind_eq_ok.1 hchecked
      rw [← except_pure_eq_ok.1 hchecked]
    split
    all_goals
      refine ⟨hnodup, fun handle' => ?_, hs.answers, hs.jobs⟩
      have hcalls := hs.calls handle'
      simp only [List.map_append, List.map_cons, List.map_nil, List.count_append, hhandle]
      omega

/-- A dispatch finishes a call that the pool does not take. -/
theorem accounted_dispatch (hs : s.Accounted) {position : Nat}
    {call : Call Object Handle content} (hcall : s.dispatching[position]? = some call)
    {threadPool : Bool}
    (h : dispatch locks { s with dispatching := s.dispatching.eraseIdx position } call threadPool =
      some s') : s'.Accounted := by
  obtain ⟨⟨status, pool⟩, hdispatch, rfl⟩ := Option.map_eq_some_iff.mp h
  have hcalls := fun handle => hs.calls handle
  simp only [count_map_eraseIdx _ hcall] at hcalls
  have hreturned : ∀ handle, ((s.returned ++ [(call.handle, Return.good)]).map Prod.fst).count
      handle = (s.returned.map Prod.fst).count handle + [call.handle].count handle := by
    intro handle
    rw [List.map_append, List.count_append]
    rfl
  rcases handles_of_addJob hdispatch with ⟨hbad, hwaiting, haccepted⟩ | ⟨hgood, hwaiting, haccepted⟩
  · refine ⟨hs.nodup, fun handle => ?_, fun handle => ?_, fun handle => ?_⟩
    · have := hcalls handle
      dsimp only
      rw [hreturned]
      omega
    · have hanswers := hs.answers handle
      have hcount := hwaiting.count_eq handle
      simp only [State.finishes, State.waiting, hbad, Bool.not_false, if_true, List.map_append,
        List.map_cons, List.map_nil, List.count_append, goodOf_good] at hanswers hcount ⊢
      omega
    · have hjobs := hs.jobs handle
      simp only [State.accepted, haccepted] at hjobs ⊢
      rw [hreturned]
      omega
  · refine ⟨hs.nodup, fun handle => ?_, fun handle => ?_, fun handle => ?_⟩
    · have := hcalls handle
      dsimp only
      rw [hreturned]
      omega
    · have hanswers := hs.answers handle
      have hcount := hwaiting.count_eq handle
      rw [← List.singleton_append, List.count_append] at hcount
      simp only [State.finishes, State.waiting, hgood, Bool.not_true, Bool.false_eq_true, if_false,
        List.count_append, goodOf_good] at hanswers hcount ⊢
      omega
    · have hjobs := hs.jobs handle
      simp only [State.accepted, haccepted, List.filterMap_append, List.count_append] at hjobs ⊢
      rw [hreturned]
      exact Nat.add_le_add_right hjobs _

theorem accounted_step {e : Event Object Handle Mutex content maxThreads} (hs : s.Accounted)
    (h : step conversions helper locks s e = some s') : s'.Accounted := by
  cases e with
  | beginCall target handle inputArguments =>
      simp only [step] at h
      split at h
      · cases h
      · rename_i hnew
        cases h
        exact accounted_beginCall hs hnew target inputArguments
  | dispatch position threadPool =>
      simp only [step] at h
      split at h
      · cases h
      · rename_i call hcall
        exact accounted_dispatch hs hcall h
  | finish position ending =>
      simp only [step] at h
      split at h
      · cases h
      · rename_i call hcall
        cases h
        have hhandle : (ending.finish helper call (none : Option (Fin maxThreads))).handle =
            call.handle := by
          cases ending <;> rfl
        refine ⟨hs.nodup, fun handle => ?_, fun handle => ?_, fun handle => ?_⟩
        · have hcalls := hs.calls handle
          rw [count_map_eraseIdx handle hcall] at hcalls
          simp only [List.map_append, List.map_cons, List.map_nil, List.count_append]
          omega
        · have hanswers := hs.answers handle
          simp only [State.finishes, State.waiting, List.map_append, List.map_cons, List.map_nil,
            List.count_append, goodOf_good, hhandle] at hanswers ⊢
          omega
        · have hjobs := hs.jobs handle
          simp only [List.map_append, List.count_append]
          exact Nat.le_add_right_of_le hjobs
  | execute worker ending =>
      simp only [step] at h
      split at h
      · rename_i call hexecuting
        obtain ⟨pool, hpool, rfl⟩ := Option.map_eq_some_iff.mp h
        obtain ⟨hwaiting, haccepted⟩ := handles_of_executed hexecuting hpool
        have hhandle : (ending.finish helper call (some worker)).handle = call.handle := by
          cases ending <;> rfl
        refine ⟨hs.nodup, hs.calls, fun handle => ?_, fun handle => ?_⟩
        · have hanswers := hs.answers handle
          have hcount := hwaiting.count_eq handle
          rw [← List.singleton_append, List.count_append] at hcount
          simp only [State.finishes, State.waiting, List.map_append, List.map_cons, List.map_nil,
            List.count_append, hhandle] at hanswers ⊢
          omega
        · have hjobs := hs.jobs handle
          rwa [State.accepted, ← haccepted] at hjobs
      · cases h
  | pool e =>
      simp only [step] at h
      split at h
      · rename_i hother
        obtain ⟨pool, hpool, rfl⟩ := Option.map_eq_some_iff.mp h
        obtain ⟨hwaiting, haccepted⟩ := handles_of_isOther hother hpool
        refine ⟨hs.nodup, hs.calls, fun handle => ?_, fun handle => ?_⟩
        · have hanswers := hs.answers handle
          rwa [State.waiting, ← hwaiting.count_eq handle] at hanswers
        · have hjobs := hs.jobs handle
          rwa [State.accepted, ← haccepted] at hjobs
      · cases h

end Steps

section Once

variable [DecidableEq Handle] {s : State Object Handle Mutex content maxThreads}

/-- No call is finished twice, none that is refused or that has not returned is finished, and
one for which Good was returned is finished unless its job still waits in the pool. -/
structure FinishesOnce (s : State Object Handle Mutex content maxThreads) : Prop where
  atMostOnce : ∀ handle, s.finishes handle ≤ 1
  refused : ∀ handle status, (handle, .refused status) ∈ s.returned → s.finishes handle = 0
  unreturned : ∀ handle, handle ∉ s.returned.map Prod.fst → s.finishes handle = 0
  good : ∀ handle, (handle, .good) ∈ s.returned → (s.finishes handle = 1 ↔ handle ∉ s.waiting)

theorem State.Accounted.returned_nodup (hs : s.Accounted) : (s.returned.map Prod.fst).Nodup := by
  rw [List.nodup_iff_count_le_one]
  intro handle
  have hcalls := hs.calls handle
  have hbegun := List.nodup_iff_count_le_one.mp hs.nodup handle
  omega

theorem State.Accounted.finishesOnce (hs : s.Accounted) : FinishesOnce s := by
  have hgood : ∀ handle, (goodOf s.returned).count handle ≤ 1 :=
    List.nodup_iff_count_le_one.mp (hs.returned_nodup.sublist (goodOf_sublist s.returned))
  have hzero : ∀ handle, handle ∉ goodOf s.returned → s.finishes handle = 0 := by
    intro handle hnot
    have hanswers := hs.answers handle
    rw [List.count_eq_zero_of_not_mem hnot] at hanswers
    omega
  constructor
  · intro handle
    have hanswers := hs.answers handle
    have hone := hgood handle
    omega
  · intro handle status hrefused
    refine hzero handle fun hmem => ?_
    have hsame := List.inj_on_of_nodup_map hs.returned_nodup hrefused (mem_goodOf.1 hmem) rfl
    cases hsame
  · intro handle hnot
    exact hzero handle fun hmem => hnot ((goodOf_sublist s.returned).subset hmem)
  · intro handle hreturned
    have hanswers := hs.answers handle
    have hpos := List.count_pos_iff.mpr (mem_goodOf.2 hreturned)
    have hone := hgood handle
    rw [← List.count_eq_zero]
    omega

variable [DecidableEq Mutex] {conversions : Conversions content}
  {helper : NativeValue content → UaVariant content} {locks : Locks Object Mutex}

omit [DecidableEq Mutex] in
theorem accounted_start (maxJobs : Nat) :
    (start maxJobs : State Object Handle Mutex content maxThreads).Accounted := by
  refine ⟨List.nodup_nil, fun handle => rfl, fun handle => ?_, fun handle => Nat.le_refl 0⟩
  simp [State.finishes, State.waiting, goodOf, ThreadPool.State.outstanding, start,
    ThreadPool.start, ThreadPool.Place.unexecuted]

end Once

section Liveness

variable [DecidableEq Handle] [DecidableEq Mutex] (conversions : Conversions content)
  (helper : NativeValue content → UaVariant content) (locks : Locks Object Mutex)

/-- The calls of a server with its pool, for ever. -/
abbrev Schedule (Handle : Type) [DecidableEq Handle] (maxThreads : Nat) :=
  Execution (step conversions helper locks :
    State Object Handle Mutex content maxThreads → Event Object Handle Mutex content maxThreads → _)

/-- The step of the pool that a step is, if any. -/
def poolEvent? (s : State Object Handle Mutex content maxThreads) :
    Event Object Handle Mutex content maxThreads →
      Option (ThreadPool.Event (Job Object Handle Mutex content) maxThreads)
  | .dispatch position true =>
      (s.dispatching[position]?).map fun call => .addJob (.methodCall call)
  | .execute worker _ => some (.finishExecute worker)
  | .pool e => some e
  | .beginCall _ _ _ | .dispatch _ false | .finish _ _ => none

def pool : Component
    (step conversions helper locks : State Object Handle Mutex content maxThreads → _ → _)
    (ThreadPool.step (Job.associatedMutex locks) :
      ThreadPool.State (Job Object Handle Mutex content) Mutex maxThreads → _ → _) where
  part := State.pool
  event? := poolEvent?
  stays := by
    intro s e s' hstep hevent
    cases e with
    | beginCall target handle inputArguments =>
        simp only [step] at hstep
        split at hstep
        · cases hstep
        · cases hstep
          unfold beginCall
          dsimp only
          split
          · rfl
          · split <;> rfl
    | dispatch position threadPool =>
        simp only [step] at hstep
        split at hstep
        · cases hstep
        · rename_i call hcall
          obtain ⟨⟨status, pool⟩, hdispatch, rfl⟩ := Option.map_eq_some_iff.mp hstep
          cases threadPool with
          | true => rw [poolEvent?, hcall] at hevent; cases hevent
          | false => cases hdispatch; rfl
    | finish position ending =>
        simp only [step] at hstep
        split at hstep
        · cases hstep
        · cases hstep
          rfl
    | execute worker ending => cases hevent
    | pool e => cases hevent
  acts := by
    intro s e s' d hstep hevent
    cases e with
    | beginCall target handle inputArguments => cases hevent
    | dispatch position threadPool =>
        cases threadPool with
        | false => cases hevent
        | true =>
            simp only [step] at hstep
            split at hstep
            · cases hstep
            · rename_i call hcall
              rw [poolEvent?, hcall] at hevent
              cases hevent
              obtain ⟨dispatched, hdispatch, rfl⟩ := Option.map_eq_some_iff.mp hstep
              obtain ⟨pool, hpool, rfl⟩ := Option.map_eq_some_iff.mp hdispatch
              exact hpool
    | finish position ending => cases hevent
    | execute worker ending =>
        cases hevent
        simp only [step] at hstep
        split at hstep
        · obtain ⟨pool, hpool, rfl⟩ := Option.map_eq_some_iff.mp hstep
          exact hpool
        · cases hstep
    | pool e =>
        cases hevent
        simp only [step] at hstep
        split at hstep
        · obtain ⟨pool, hpool, rfl⟩ := Option.map_eq_some_iff.mp hstep
          exact hpool
        · cases hstep

variable {conversions helper locks} {x : Schedule conversions helper locks Handle maxThreads}
  {maxJobs : Nat}

/-- Every worker that has not returned takes another step. -/
def Fair (x : Schedule conversions helper locks Handle maxThreads) : Prop :=
  ∀ worker, Recurs fun n =>
    (∃ d, poolEvent? (x.state n) (x.event n) = some d ∧ d.worker = some worker) ∨
      (x.state n).pool.place worker = .returned

theorem acts (hstart : x.state 0 = start maxJobs) (hfair : Fair x)
    (hquit : ∀ n, (x.state n).pool.quit = false) (worker : Fin maxThreads) :
    Recurs fun n =>
      ∃ d, poolEvent? (x.state n) (x.event n) = some d ∧ d.worker = some worker := by
  have hattributed := (pool conversions helper locks).invariant (x := x)
    (I := ThreadPool.Attributed (Job.associatedMutex locks))
    (fun t d t' h hstep => ThreadPool.attributed_step h hstep) (by
      change ThreadPool.Attributed _ (x.state 0).pool
      rw [hstart]
      exact ThreadPool.attributed_start maxJobs)
  intro n
  obtain ⟨m, hm, hacts | hreturned⟩ := hfair worker n
  · exact ⟨m, hm, hacts⟩
  · have hset := (hattributed m).returned worker hreturned
    exact absurd ((hquit m).symm.trans hset) Bool.false_ne_true

theorem accounted_state (hstart : x.state 0 = start maxJobs) (n : Nat) :
    (x.state n).Accounted := by
  refine x.invariant (I := fun s => s.Accounted) (fun s e s' h hstep => accounted_step h hstep) ?_ n
  rw [hstart]
  exact accounted_start maxJobs

/-- What was returned or finished stays so. -/
theorem grows_step {s s' : State Object Handle Mutex content maxThreads}
    {e : Event Object Handle Mutex content maxThreads}
    (h : step conversions helper locks s e = some s') :
    s.returned <+: s'.returned ∧ s.finished <+: s'.finished := by
  cases e with
  | beginCall target handle inputArguments =>
      simp only [step] at h
      split at h
      · cases h
      · cases h
        unfold beginCall
        dsimp only
        split
        · exact ⟨List.prefix_append _ _, List.prefix_rfl⟩
        · split <;> exact ⟨List.prefix_rfl, List.prefix_rfl⟩
  | dispatch position threadPool =>
      simp only [step] at h
      split at h
      · cases h
      · obtain ⟨dispatched, -, rfl⟩ := Option.map_eq_some_iff.mp h
        refine ⟨List.prefix_append _ _, ?_⟩
        dsimp only
        split
        · exact List.prefix_append _ _
        · exact List.prefix_rfl
  | finish position ending =>
      simp only [step] at h
      split at h
      · cases h
      · cases h
        exact ⟨List.prefix_append _ _, List.prefix_append _ _⟩
  | execute worker ending =>
      simp only [step] at h
      split at h
      · obtain ⟨pool, -, rfl⟩ := Option.map_eq_some_iff.mp h
        exact ⟨List.prefix_rfl, List.prefix_append _ _⟩
      · cases h
  | pool e =>
      simp only [step] at h
      split at h
      · obtain ⟨pool, -, rfl⟩ := Option.map_eq_some_iff.mp h
        exact ⟨List.prefix_rfl, List.prefix_rfl⟩
      · cases h

theorem grows {n m : Nat} (hnm : n ≤ m) : (x.state n).returned <+: (x.state m).returned ∧
    (x.state n).finished <+: (x.state m).finished := by
  induction m, hnm using Nat.le_induction with
  | base => exact ⟨List.prefix_rfl, List.prefix_rfl⟩
  | succ m _ ih =>
      have hstep := grows_step (x.step_state m)
      exact ⟨ih.1.trans hstep.1, ih.2.trans hstep.2⟩

theorem finishes_later (hstart : x.state 0 = start maxJobs) {n m : Nat} (hnm : n ≤ m)
    {handle : Handle} (hfinished : (x.state n).finishes handle = 1) :
    (x.state m).finishes handle = 1 := by
  have hgrows : (x.state n).finished <+: (x.state m).finished := (grows hnm).2
  have hle := (hgrows.map FinishCall.handle).sublist.count_le handle
  have hone := (accounted_state hstart m).finishesOnce.atMostOnce handle
  rw [State.finishes] at hfinished hone ⊢
  omega

omit [DecidableEq Mutex] in
/-- A job that is finished does not wait. -/
theorem not_waiting_of_finished {s : State Object Handle Mutex content maxThreads}
    (hs : s.Accounted) {started : List (Job Object Handle Mutex content)}
    (hbalanced : ThreadPool.Balanced s.pool.ledger s.pool.running started)
    {job : Job Object Handle Mutex content} (hjob : job ∈ s.pool.finished) {handle : Handle}
    (hhandle : job.handle? = some handle) : handle ∉ s.waiting := by
  intro hwaiting
  obtain ⟨jobs, hperm, hsub⟩ := ThreadPool.outstanding_append_finished hbalanced
  have hcount := (hsub.filterMap Job.handle?).count_le handle
  rw [(hperm.filterMap Job.handle?).count_eq, List.filterMap_append, List.count_append] at hcount
  have hwaits := List.count_pos_iff.mpr hwaiting
  have hdone := List.count_pos_iff.mpr (List.mem_filterMap.mpr ⟨job, hjob, hhandle⟩)
  have hjobs := hs.jobs handle
  have hreturned := List.nodup_iff_count_le_one.mp hs.returned_nodup handle
  rw [State.waiting] at hwaits
  rw [State.accepted] at hjobs
  omega

/-- In every fair run in which the pool is not told to quit, each call for which `beginCall`
returns Good is finished, once and for all. -/
theorem eventually_finished (hstart : x.state 0 = start maxJobs) (hfair : Fair x)
    (hquit : ∀ n, (x.state n).pool.quit = false) (hworkers : 0 < maxThreads) {n : Nat}
    {handle : Handle} (hreturned : (handle, .good) ∈ (x.state n).returned) :
    ∃ m, n ≤ m ∧ ∀ k, m ≤ k → (x.state k).finishes handle = 1 := by
  have hfinal : ∀ {m}, n ≤ m → handle ∉ (x.state m).waiting →
      ∃ m, n ≤ m ∧ ∀ k, m ≤ k → (x.state k).finishes handle = 1 := by
    intro m hm hwaiting
    have hgood := (accounted_state hstart m).finishesOnce.good handle
      ((grows hm).1.subset hreturned)
    exact ⟨m, hm, fun k hk => finishes_later hstart hk (hgood.mpr hwaiting)⟩
  by_cases hwaiting : handle ∈ (x.state n).waiting
  · -- The pool alone makes a fair run of its own, in which the job is executed.
    have hacts := acts hstart hfair hquit
    have hrecurs : Recurs ((pool conversions helper locks).Acts x) := by
      intro k
      obtain ⟨m, hm, d, hevent, -⟩ := hacts ⟨0, hworkers⟩ k
      exact ⟨m, hm, Option.isSome_iff_exists.mpr ⟨d, hevent⟩⟩
    have hpoolStart : (Component.execution hrecurs).state 0 = ThreadPool.start maxJobs := by
      rw [Component.execution_state_zero, hstart]
      rfl
    have hpoolFair : ThreadPool.Fair (Component.execution hrecurs) := by
      intro worker k
      obtain ⟨m, hm, hworker⟩ := Component.recurs_event hrecurs
        (Q := fun d => d.worker = some worker) (hacts worker) k
      exact ⟨m, hm, .inl hworker⟩
    obtain ⟨job, hjob, hhandle⟩ := List.mem_filterMap.mp hwaiting
    obtain ⟨k, hk, hlater⟩ := Component.exists_index hrecurs n
    obtain ⟨k', hk', hfinished⟩ := ThreadPool.accepted_finished hpoolStart hpoolFair
      (Component.forall_state hrecurs (Q := fun pool => pool.quit = false) hquit) hworkers k
    obtain ⟨m, hm, hstate⟩ := hlater k' hk'
    obtain ⟨started, hbalanced⟩ := ThreadPool.account_state hpoolStart k
    have haccepted : job ∈ ((Component.execution hrecurs).state k).accepted := by
      refine (ThreadPool.outstanding_append_finished hbalanced).subset
        (List.mem_append_left _ ?_)
      rw [hk]
      exact hjob
    have hdone : job ∈ (x.state m).pool.finished := by
      have hmem := hfinished.subset haccepted
      rwa [hstate] at hmem
    obtain ⟨started', hbalanced'⟩ := ThreadPool.account_state hpoolStart k'
    rw [hstate] at hbalanced'
    exact hfinal hm (not_waiting_of_finished (accounted_state hstart m) hbalanced' hdone hhandle)
  · exact hfinal le_rfl hwaiting

/-- An asynchronous method without arguments that takes its own mutex. -/
def startMethod : Method := ⟨text "start", [], [], true, .ofThisMethod⟩

/-- A variant of a return value. -/
def integerHelper : NativeValue (fun _ => Int) → UaVariant fun _ => Int
  | .variant value => value
  | .scalar type x => .scalar type x
  | .vector type xs => if h : xs.length < 2 ^ 31 then .array type xs h else .null

def unitLocks : Locks Unit Unit := ⟨fun _ _ => (), fun _ => ()⟩

/-- The method is called, and the only worker executes the job and rests. -/
def startedEvent (n : Nat) : Event Unit Nat Unit (fun _ => Int) 1 :=
  if n < 8 then
    [.beginCall (.handled () startMethod) 7 [], .dispatch 0 true, .pool (.enter (Fin.last 0)),
      .pool (.scan (Fin.last 0)),
      .execute (Fin.last 0) (.returned StatusCode.opcUaGood fun _ => .variant .null),
      .pool (.unlock (Fin.last 0)), .pool (.countFinished (Fin.last 0)),
      .pool (.destroyDuty (Fin.last 0))].getD n (.pool .setQuit)
  else .pool (ThreadPool.restingEvent (n - 1))

theorem run_started (n : Nat) : ∃ s, run (step Quasar.integerConversions integerHelper unitLocks)
    (start 10) ((List.range (n + 8)).map startedEvent) = some s ∧
      ThreadPool.Resting (n + 7) s.pool := by
  induction n with
  | zero => exact ⟨_, rfl, rfl, rfl, rfl, rfl⟩
  | succ n ih =>
      obtain ⟨s, hrun, hresting⟩ := ih
      obtain ⟨pool, hstep, hresting'⟩ : ∃ pool, ThreadPool.step (Job.associatedMutex unitLocks)
          s.pool (ThreadPool.restingEvent (n + 7)) = some pool ∧ ThreadPool.Resting (n + 8) pool :=
        ThreadPool.resting_step hresting
      refine ⟨{ s with pool }, ?_, by rwa [Nat.add_right_comm]⟩
      have hevent : startedEvent (n + 8) = .pool (ThreadPool.restingEvent (n + 7)) :=
        if_neg (Nat.not_lt.mpr (Nat.le_add_left 8 n))
      have hother : isOther s.pool (ThreadPool.restingEvent (n + 7)) = true := by
        unfold ThreadPool.restingEvent
        split_ifs <;> rfl
      rw [Nat.add_right_comm, Execution.run_range_succ, hrun, Option.bind_some, hevent]
      simp only [step, hother, if_true, hstep, Option.map_some]

theorem run_started_isSome (n : Nat) :
    (run (step Quasar.integerConversions integerHelper unitLocks) (start 10)
      ((List.range n).map startedEvent)).isSome := by
  rcases Nat.lt_or_ge n 8 with hlt | hge
  · interval_cases n <;> rfl
  · obtain ⟨k, rfl⟩ := Nat.exists_eq_add_of_le' hge
    obtain ⟨s, hrun, -⟩ := run_started k
    rw [hrun]
    rfl

/-- The call of the method is finished. -/
theorem eventually_finished_started : ∃ m, 2 ≤ m ∧
    ∀ k, m ≤ k → ((Execution.ofEvents run_started_isSome).state k).finishes 7 = 1 := by
  refine eventually_finished (show (Execution.ofEvents run_started_isSome).state 0 = start 10
    from rfl) ?_ ?_ Nat.one_pos ?_
  · intro worker n
    refine ⟨n + 8, Nat.le_add_right n 8, .inl ⟨ThreadPool.restingEvent (n + 7), ?_, ?_⟩⟩
    · change poolEvent? _ (startedEvent (n + 8)) = _
      rw [startedEvent, if_neg (Nat.not_lt.mpr (Nat.le_add_left 8 n))]
      rfl
    · exact ThreadPool.worker_restingEvent (n + 7) worker
  · intro n
    rcases Nat.lt_or_ge n 8 with hlt | hge
    · interval_cases n <;> rfl
    · obtain ⟨k, rfl⟩ := Nat.exists_eq_add_of_le' hge
      obtain ⟨s, hrun, hresting⟩ := run_started k
      have hstate : (Execution.ofEvents run_started_isSome).state (k + 8) = s :=
        Option.some.inj ((Option.some_get _).trans hrun)
      rw [hstate]
      exact hresting.quit
  · exact List.mem_singleton.mpr rfl

end Liveness

end ASDelegatingMethod

end Supernova
