/-
Calls on the FX engine return, however many datagrams are handled in between: what is
posted to the io thread gets its turn, and the io thread never waits for the lock.  Once no
more calls are made, data make the subscribers Operational.
-/
import Supernova.FairRuns
import Supernova.FxStatus

namespace Supernova

namespace Fx

section Ranks

/-- How far a call is from its end. -/
def ServicePoint.rank : ServicePoint → Nat
  | .idle => 0
  | .returning _ => 1
  | .abandoning _ _ => 2
  | .showing _ _ => 2
  | .reconciling _ => 3
  | .storing _ _ => 4
  | .viewing _ _ => 5
  | .activating _ _ => 6
  | .preparing _ _ => 7
  | .clearing _ _ _ => 2
  | .removing _ _ => 3
  | .closing _ => 4

/-- How far the io thread is from the end of its datagram. -/
def IoPoint.rank : IoPoint → Nat
  | .idle => 0
  | .handling _ messages => 4 * messages.length + 1
  | .marked _ _ _ messages => 4 * messages.length + 2
  | .marking _ _ _ messages => 4 * messages.length + 3
  | .calling _ _ _ messages => 4 * messages.length + 4

variable {s s' : Threads} {action : Action}

/-- A step of the service thread is the return of the call or brings it nearer. -/
theorem serviceStep_cases (hstep : serviceStep s = some s') :
    (∃ outcome, s.service = .returning outcome ∧ s' = { s with lock := none, service := .idle }) ∨
      s'.service ≠ .idle ∧ s'.service.rank < s.service.rank ∧ s'.io = s.io := by
  unfold serviceStep at hstep
  split at hstep
  case h_1 => cases hstep
  case h_2 environment requestJson hservice =>
    rw [hservice]
    split at hstep <;> cases hstep <;>
      exact .inr ⟨by rintro ⟨⟩, by simp [ServicePoint.rank], rfl⟩
  case h_3 environment establishment hservice =>
    obtain ⟨-, rfl⟩ := posted_eq_some.1 hstep
    rw [hservice, activateStep]
    split <;> exact .inr ⟨by rintro ⟨⟩, by simp [ServicePoint.rank], rfl⟩
  case h_4 environment establishment hservice =>
    cases hstep
    rw [hservice, viewStep]
    split <;> exact .inr ⟨by rintro ⟨⟩, by simp [ServicePoint.rank], rfl⟩
  case h_5 establishment what hservice =>
    obtain ⟨-, rfl⟩ := posted_eq_some.1 hstep
    rw [hservice]
    exact .inr ⟨by rintro ⟨⟩, by simp [ServicePoint.rank], rfl⟩
  case h_6 establishment endpoint hservice =>
    cases hstep
    rw [hservice]
    exact .inr ⟨by rintro ⟨⟩, by simp [ServicePoint.rank, withFx], rfl⟩
  case h_7 establishment hservice =>
    rw [hservice]
    unfold reconcileStep at hstep
    split at hstep
    · cases hstep
      exact .inr ⟨by rintro ⟨⟩, by simp [ServicePoint.rank], rfl⟩
    · obtain ⟨-, rfl⟩ := posted_eq_some.1 hstep
      exact .inr ⟨by rintro ⟨⟩, by simp [ServicePoint.rank], rfl⟩
  case h_8 establishment status hservice =>
    cases hstep
    rw [hservice]
    exact .inr ⟨by rintro ⟨⟩, by simp [ServicePoint.rank, withFx], rfl⟩
  case h_9 requestText hservice =>
    rw [hservice]
    split at hstep <;> cases hstep <;>
      exact .inr ⟨by rintro ⟨⟩, by simp [ServicePoint.rank], rfl⟩
  case h_10 name endpoint hservice =>
    obtain ⟨-, rfl⟩ := posted_eq_some.1 hstep
    rw [hservice]
    exact .inr ⟨by rintro ⟨⟩, by simp [ServicePoint.rank], rfl⟩
  case h_11 name endpoint gone hservice =>
    cases hstep
    rw [hservice]
    exact .inr ⟨by rintro ⟨⟩, by simp [ServicePoint.rank, withFx], rfl⟩
  case h_12 outcome hservice =>
    cases hstep
    exact .inl ⟨outcome, hservice, rfl⟩

theorem rank_serviceStep (hstep : serviceStep s = some s') :
    s'.service.rank < s.service.rank ∧ s'.io = s.io := by
  rcases serviceStep_cases hstep with ⟨outcome, hservice, rfl⟩ | ⟨-, hrank, hio⟩
  · rw [hservice]
    exact ⟨Nat.one_pos, rfl⟩
  · exact ⟨hrank, hio⟩

/-- Each step of the io thread brings the datagram nearer to its end. -/
theorem rank_ioStep (hstep : ioStep s = some s') :
    s'.io.rank < s.io.rank ∧ s'.service = s.service := by
  unfold ioStep at hstep
  split at hstep
  case h_1 => cases hstep
  case h_2 message hio =>
    cases hstep
    rw [hio]
    exact ⟨Nat.succ_pos _, rfl⟩
  case h_3 message dsm messages hio =>
    cases hstep
    rw [hio, messageStep]
    split
    · exact ⟨by simp only [IoPoint.rank, List.length_cons]; omega, rfl⟩
    · split
      · exact ⟨by simp only [IoPoint.rank, List.length_cons]; omega, rfl⟩
      · rw [withReaders]
        split <;> exact ⟨by simp only [IoPoint.rank, List.length_cons]; omega, rfl⟩
  case h_4 key connectionName message messages hio =>
    rw [hio]
    split at hstep <;> cases hstep <;> exact ⟨by simp only [IoPoint.rank]; omega, rfl⟩
  case h_5 key connectionName message messages hio =>
    cases hstep
    rw [hio]
    exact ⟨by simp only [IoPoint.rank]; omega, rfl⟩
  case h_6 key connectionName message messages hio =>
    cases hstep
    rw [hio, setSignalled]
    split <;> exact ⟨by simp only [IoPoint.rank, withReaders]; omega, rfl⟩

/-- A call is accepted between calls. -/
theorem callStep_eq_some {call : Call} (hstep : callStep s call = some s') :
    s.service = .idle ∧ s'.service ≠ .idle ∧ s'.io = s.io := by
  unfold callStep at hstep
  split at hstep
  · rename_i hservice hlock
    cases hstep
    refine ⟨hservice, ?_, rfl⟩
    cases call <;> exact fun h => by cases h
  · cases hstep

theorem idle_of_receiveStep {receiver : PubSub.ReceiverKey} {data : Bytes}
    (hstep : receiveStep s receiver data = some s') :
    s.io = .idle ∧ s'.service = s.service := by
  unfold receiveStep at hstep
  split at hstep
  · rename_i hio
    split at hstep
    · split at hstep <;> cases hstep <;> exact ⟨hio, rfl⟩
    · cases hstep
  · cases hstep

/-- While a datagram is in hand no step takes the io thread back. -/
theorem io_step (hbusy : s.io ≠ .idle) (hstep : step s action = some s') :
    s'.io.rank ≤ s.io.rank ∧ (action = .io → s'.io.rank < s.io.rank) := by
  cases action with
  | call call =>
      rw [(callStep_eq_some hstep).2.2]
      exact ⟨le_rfl, fun h => by cases h⟩
  | service =>
      rw [(rank_serviceStep hstep).2]
      exact ⟨le_rfl, fun h => by cases h⟩
  | receive receiver data => exact absurd (idle_of_receiveStep hstep).1 hbusy
  | timer group sample => exact absurd (posted_eq_some.1 hstep).1 hbusy
  | io =>
      have hrank := (rank_ioStep hstep).1
      exact ⟨Nat.le_of_lt hrank, fun _ => hrank⟩

/-- While a call is under way no step takes it back. -/
theorem service_step (hbusy : s.service ≠ .idle) (hstep : step s action = some s') :
    s'.service.rank ≤ s.service.rank ∧
      (action = .service → s'.service.rank < s.service.rank) := by
  cases action with
  | call call => exact absurd (callStep_eq_some hstep).1 hbusy
  | service =>
      have hrank := (rank_serviceStep hstep).1
      exact ⟨Nat.le_of_lt hrank, fun _ => hrank⟩
  | receive receiver data =>
      rw [(idle_of_receiveStep hstep).2]
      exact ⟨le_rfl, fun h => by cases h⟩
  | timer group sample =>
      obtain ⟨-, rfl⟩ := posted_eq_some.1 hstep
      exact ⟨le_rfl, fun h => by cases h⟩
  | io =>
      rw [(rank_ioStep hstep).2]
      exact ⟨le_rfl, fun h => by cases h⟩

/-- Between handlers of the io thread nothing holds up the service thread. -/
theorem isSome_serviceStep (hidle : s.io = .idle) (hbusy : s.service ≠ .idle) :
    (serviceStep s).isSome = true := by
  have hposted : ∀ next, (posted s next).isSome = true := by
    intro next
    rw [posted, hidle]
    rfl
  unfold serviceStep
  split
  · exact absurd ‹_› hbusy
  · split <;> rfl
  · exact hposted _
  · rfl
  · exact hposted _
  · rfl
  · unfold reconcileStep
    split
    · rfl
    · exact hposted _
  · rfl
  · split <;> rfl
  · exact hposted _
  · rfl
  · rfl

/-- The io thread waits for nothing. -/
theorem isSome_ioStep (hbusy : s.io ≠ .idle) : (ioStep s).isSome = true := by
  unfold ioStep
  split
  · exact absurd ‹_› hbusy
  · rfl
  · rfl
  · split <;> rfl
  · rfl
  · rfl

/-- A call ends with the return of its outcome, which gives the lock up. -/
theorem returning_of_idle (hbusy : s.service ≠ .idle) (hstep : step s action = some s')
    (hidle : s'.service = .idle) :
    action = .service ∧ (∃ outcome, s.service = .returning outcome) ∧ s'.lock = none := by
  cases action with
  | call call => exact absurd (callStep_eq_some hstep).1 hbusy
  | receive receiver data =>
      rw [(idle_of_receiveStep hstep).2] at hidle
      exact absurd hidle hbusy
  | timer group sample =>
      obtain ⟨-, rfl⟩ := posted_eq_some.1 hstep
      exact absurd hidle hbusy
  | io =>
      rw [(rank_ioStep hstep).2] at hidle
      exact absurd hidle hbusy
  | service =>
      rcases serviceStep_cases hstep with ⟨outcome, hservice, rfl⟩ | ⟨hbusy', -⟩
      · exact ⟨rfl, ⟨outcome, hservice⟩, rfl⟩
      · exact absurd hidle hbusy'

end Ranks

section Fairness

/-- A fair run: what a thread can do again and again it does again and again.  Datagrams
and timers may come at any time. -/
structure Fair (x : Execution step) : Prop where
  service : (Recurs fun n => (serviceStep (x.state n)).isSome = true) →
    Recurs fun n => x.event n = .service
  io : (Recurs fun n => (ioStep (x.state n)).isSome = true) → Recurs fun n => x.event n = .io

variable {x : Execution step}

/-- The io thread comes to the end of every datagram. -/
theorem leadsTo_io_idle (hfair : Fair x) :
    LeadsTo (fun n => (x.state n).io ≠ .idle) fun n => ¬ (x.state n).io ≠ .idle := by
  refine LeadsTo.ends (fun n => (x.state n).io.rank) ?_ ?_ ?_ hfair.io
  · exact fun n hbusy => (io_step hbusy (x.step_state n)).1
  · exact fun n hbusy => (io_step hbusy (x.step_state n)).2
  · exact LeadsTo.of_imp fun n hbusy => .inr (isSome_ioStep hbusy)

/-- A call that is under way comes to its end: the io thread is between handlers again and
again, so that what is posted to it gets its turn. -/
theorem leadsTo_service_idle (hfair : Fair x) :
    LeadsTo (fun n => (x.state n).service ≠ .idle) fun n => ¬ (x.state n).service ≠ .idle := by
  refine LeadsTo.ends (fun n => (x.state n).service.rank) ?_ ?_ ?_ hfair.service
  · exact fun n hbusy => (service_step hbusy (x.step_state n)).1
  · exact fun n hbusy => (service_step hbusy (x.step_state n)).2
  · intro n hbusy
    by_cases hio : (x.state n).io = .idle
    · exact ⟨n, le_rfl, .inr (isSome_serviceStep hio hbusy)⟩
    · obtain ⟨m, hm, hidle⟩ := leadsTo_io_idle hfair n hio
      refine ⟨m, hm, ?_⟩
      by_cases hservice : (x.state m).service = .idle
      · exact .inl (not_not.mpr hservice)
      · exact .inr (isSome_serviceStep (not_not.mp hidle) hservice)

/-- Every call that is accepted returns its outcome in a fair run, and the lock is free then
for the next one, however many datagrams and timers the io thread handles in between. -/
theorem call_returns (hfair : Fair x) (n : ℕ) (call : Call) (hcall : x.event n = .call call) :
    ∃ m outcome, n < m ∧ (x.state m).service = .returning outcome ∧ x.event m = .service ∧
      (∀ k, n < k → k ≤ m → (x.state k).service ≠ .idle) ∧
      (x.state (m + 1)).service = .idle ∧ (x.state (m + 1)).lock = none := by
  have hbegun : (x.state (n + 1)).service ≠ .idle := by
    have hstep := x.step_state n
    rw [hcall] at hstep
    exact (callStep_eq_some hstep).2.1
  obtain ⟨m, hm, hbusy, hends⟩ := LeadsTo.exists_last (leadsTo_service_idle hfair) hbegun
  have hidle := not_not.mp hends
  obtain ⟨hevent, ⟨outcome, houtcome⟩, hlock⟩ :=
    returning_of_idle (hbusy m hm le_rfl) (x.step_state m) hidle
  exact ⟨m, outcome, hm, houtcome, hevent, hbusy, hidle, hlock⟩

/-- After the datagram of the meter only datagrams that cannot be read arrive. -/
theorem exists_fair_meter : ∃ x : Execution step, x.state 0 = start meterServer ∧
    (∀ n, x.event n = meterActions.getD n (.receive ⟨text "h", 1⟩ [])) ∧ Fair x ∧
    (∀ n, TagsDistinct (x.state n) (x.event n)) ∧ (x.state 8).service = .idle ∧
    ∃ endpoint, (x.state 8).server.fx.endpoints.find? (text "c") = some endpoint ∧
      endpoint.active = true ∧ endpoint.role = .subscriber := by
  obtain ⟨-, hdistinct, s, s', endpoint, -, hrun, hresting, hfind, hactive, hrole, hrun',
    hresting', hreceiver, -⟩ := run_meter
  have hruns : run step (start meterServer) meterActions = some s' := by
    rw [← List.take_append_drop 8 meterActions, run_append hrun, hrun']
  obtain ⟨hservice, hio⟩ := resting_eq_true hresting'
  have hrest : step s' (.receive ⟨text "h", 1⟩ []) = some s' := by
    rw [step, receiveStep, hio]
    dsimp only
    rw [if_pos hreceiver]
    rfl
  have hafter := Execution.state_settling hruns hrest
  have hstate : (Execution.settling hruns hrest).state 8 = s :=
    Option.some.inj ((Option.some_get _).trans hrun)
  refine ⟨Execution.settling hruns hrest, rfl, fun _ => rfl, ⟨?_, ?_⟩, ?_, ?_, ?_⟩
  · intro hable
    obtain ⟨m, hm, hstep⟩ := hable meterActions.length
    obtain ⟨d, rfl⟩ := Nat.exists_eq_add_of_le hm
    rw [hafter, serviceStep, hservice] at hstep
    cases hstep
  · intro hable
    obtain ⟨m, hm, hstep⟩ := hable meterActions.length
    obtain ⟨d, rfl⟩ := Nat.exists_eq_add_of_le hm
    rw [hafter, ioStep, hio] at hstep
    cases hstep
  · exact Execution.holds_settling hruns hrest hdistinct trivial
  · rw [hstate]
    exact (resting_eq_true hresting).1
  · rw [hstate]
    exact ⟨endpoint, hfind, hactive, hrole⟩

/-- The call that establishes the subscription returns. -/
theorem call_returns_meter : ∃ (x : Execution step) (m : ℕ) (outcome : Outcome),
    x.state 0 = start meterServer ∧ x.event 0 = meterActions.head (by decide) ∧ 0 < m ∧
    (x.state m).service = .returning outcome ∧ x.event m = .service ∧
    (∀ k, 0 < k → k ≤ m → (x.state k).service ≠ .idle) ∧
    (x.state (m + 1)).service = .idle ∧ (x.state (m + 1)).lock = none := by
  obtain ⟨x, hstart, hevents, hfair, -⟩ := exists_fair_meter
  obtain ⟨m, outcome, hreturns⟩ := call_returns hfair 0 _ (hevents 0)
  exact ⟨x, m, outcome, hstart, hevents 0, hreturns⟩

end Fairness

section Quiet

open PubSub

variable {s s' : Threads} {action : Action} {x : Execution step} {key : ReaderKey} {name : Bytes}

/-- The reader of a connection takes data, and its callback has returned true if `signalled`. -/
def Serves (signalled : Bool) (key : ReaderKey) (name : Bytes) (s : Threads) : Prop :=
  ∃ reader, s.server.pubSub.readers.find? key = some reader ∧ reader.targets ≠ [] ∧
    reader.onFirstData = some name ∧ (signalled = true → reader.firstDataSignalled = true)

/-- Without a call the service thread does nothing. -/
theorem service_quiet (hidle : s.service = .idle) (hquiet : ∀ call, action ≠ .call call)
    (hstep : step s action = some s') : s'.service = .idle ∧ action ≠ .service := by
  cases action with
  | call call => exact absurd rfl (hquiet call)
  | service =>
      rw [step, serviceStep, hidle] at hstep
      cases hstep
  | receive receiver data => exact ⟨(idle_of_receiveStep hstep).2.trans hidle, by rintro ⟨⟩⟩
  | timer group sample =>
      obtain ⟨-, rfl⟩ := posted_eq_some.1 hstep
      exact ⟨hidle, by rintro ⟨⟩⟩
  | io => exact ⟨(rank_ioStep hstep).2.trans hidle, by rintro ⟨⟩⟩

/-- A reader that is written serves as before, and one that is signalled stays so. -/
theorem serves_assign {signalled : Bool} {key' : ReaderKey} {reader' reader'' : ReaderRuntime}
    {io : IoPoint} (h : Serves signalled key name s)
    (hfind' : s.server.pubSub.readers.find? key' = some reader')
    (hcore : readerCore reader'' = readerCore reader')
    (hkept : reader'.firstDataSignalled = true → reader''.firstDataSignalled = true) :
    Serves signalled key name
      (withReaders s (s.server.pubSub.readers.assign key' reader'') io) := by
  obtain ⟨reader, hfind, htargets, hname, hsignalled⟩ := h
  by_cases hkey : key' = key
  · subst hkey
    rw [hfind, Option.some.injEq] at hfind'
    subst hfind'
    obtain ⟨-, htargets', hname'⟩ := Linked.core_ext hcore
    refine ⟨reader'', ?_, htargets' ▸ htargets, hname'.trans hname, fun hset => ?_⟩
    · rw [withReaders, OrderedMap.find?_assign, if_pos rfl]
    · exact hkept (hsignalled hset)
  · refine ⟨reader, ?_, htargets, hname, hsignalled⟩
    rw [withReaders, OrderedMap.find?_assign, if_neg (Ne.symm hkey), hfind]

theorem serves_ioStep {signalled : Bool} (h : Serves signalled key name s)
    (hstep : ioStep s = some s') : Serves signalled key name s' := by
  unfold ioStep at hstep
  split at hstep
  case h_1 => cases hstep
  case h_2 message hio =>
    cases hstep
    exact h
  case h_3 message dsm messages hio =>
    cases hstep
    unfold messageStep
    split
    · exact h
    · split
      · exact h
      · rename_i reader hfind
        exact serves_assign h hfind (applyMessage_dueCallback dsm.fields reader).1
          (applyMessage_signalled dsm.fields)
  case h_4 key' connectionName message messages hio =>
    split at hstep <;> cases hstep <;> exact h
  case h_5 key' connectionName message messages hio =>
    cases hstep
    exact h
  case h_6 key' connectionName message messages hio =>
    cases hstep
    unfold setSignalled
    split
    · exact h
    · rename_i reader hfind
      exact serves_assign h hfind rfl fun _ => rfl

/-- No reader goes while no call is under way. -/
theorem serves_step {signalled : Bool} (hidle : s.service = .idle)
    (hquiet : ∀ call, action ≠ .call call) (h : Serves signalled key name s)
    (hstep : step s action = some s') : Serves signalled key name s' := by
  cases action with
  | call call => exact absurd rfl (hquiet call)
  | service => exact absurd rfl (service_quiet hidle hquiet hstep).2
  | receive receiver data =>
      rw [step, receiveStep] at hstep
      split at hstep
      · split at hstep
        · split at hstep <;> cases hstep <;> exact h
        · cases hstep
      · cases hstep
  | timer group sample =>
      obtain ⟨-, rfl⟩ := posted_eq_some.1 hstep
      exact h
  | io => exact serves_ioStep h hstep

/-- The lock is free when a callback is made and no call is under way. -/
theorem unhindered (h : Synchronous s) (hidle : s.service = .idle) (hbusy : s.io ≠ .idle)
    (action : Action) : Unhindered s action := by
  refine ⟨hbusy, fun key' connectionName message messages hio => ?_⟩
  have hlocked := h.locked
  rw [hidle, hio] at hlocked
  unfold Locked at hlocked
  split at hlocked
  · assumption
  · exact absurd rfl hlocked.1
  · exact hlocked.2.elim

/-- The io thread takes the messages of a datagram in hand. -/
theorem due_receive (h : Serves false key name s) {receiver : ReceiverKey} {data : Bytes}
    {message : NetworkMessage} {cursor}
    (hdecode : decodeDatagram data = .ok message cursor)
    (haddresses : Addresses key message message.messages)
    (hstep : step s (.receive receiver data) = some s') : Due key name s' ∧ s'.io ≠ .idle := by
  obtain ⟨reader, hfind, htargets, hname, -⟩ := h
  rw [step, receiveStep, hdecode] at hstep
  split at hstep
  · split at hstep
    · cases hstep
      exact ⟨⟨reader, hfind, htargets, hname, .inr haddresses⟩, by rintro ⟨⟩⟩
    · cases hstep
  · cases hstep

variable {server : Server}

theorem synchronous_state (hboots : Boots server) (hstart : x.state 0 = start server)
    (hdistinct : ∀ n, TagsDistinct (x.state n) (x.event n)) (n : ℕ) : Synchronous (x.state n) := by
  induction n with
  | zero =>
      rw [hstart]
      exact synchronous_start hboots
  | succ n ih => exact synchronous_step ih (hdistinct n) (x.step_state n)

theorem service_quiet_later {n m : ℕ} (hidle : (x.state n).service = .idle)
    (hquiet : ∀ m, n ≤ m → ∀ call, x.event m ≠ .call call) (hnm : n ≤ m) :
    (x.state m).service = .idle := by
  induction m, hnm using Nat.le_induction with
  | base => exact hidle
  | succ m hnm ih => exact (service_quiet ih (hquiet m hnm) (x.step_state m)).1

theorem serves_later {signalled : Bool} {n m : ℕ} (hidle : (x.state n).service = .idle)
    (hquiet : ∀ m, n ≤ m → ∀ call, x.event m ≠ .call call)
    (h : Serves signalled key name (x.state n)) (hnm : n ≤ m) :
    Serves signalled key name (x.state m) := by
  induction m, hnm using Nat.le_induction with
  | base => exact h
  | succ m hnm ih =>
      exact serves_step (service_quiet_later hidle hquiet hnm) (hquiet m hnm) ih (x.step_state m)

/-- Once a datagram with a message for a reader is received and no calls are made any more,
the reader is signalled. -/
theorem exists_signalled (hboots : Boots server) (hstart : x.state 0 = start server)
    (hfair : Fair x) (hdistinct : ∀ n, TagsDistinct (x.state n) (x.event n)) {n : ℕ}
    (hidle : (x.state n).service = .idle)
    (hquiet : ∀ m, n ≤ m → ∀ call, x.event m ≠ .call call) (hdue : Due key name (x.state n))
    (hbusy : (x.state n).io ≠ .idle) : ∃ m, n < m ∧ Serves true key name (x.state m) := by
  obtain ⟨m, hnm, hall, hends⟩ := LeadsTo.exists_last (leadsTo_io_idle hfair) hbusy
  have hduring : ∀ k, n ≤ k → k ≤ m + 1 → Due key name (x.state k) := by
    intro k hnk
    induction k, hnk using Nat.le_induction with
    | base => exact fun _ => hdue
    | succ k hnk ih =>
        intro hkm
        have hsynchronous := synchronous_state hboots hstart hdistinct k
        have hquietly := service_quiet_later hidle hquiet hnk
        have hbusy' := hall k hnk (Nat.le_of_succ_le_succ hkm)
        exact due_step (ih (Nat.le_of_succ_le hkm))
          (unhindered hsynchronous hquietly hbusy' (x.event k)) (x.step_state k)
  obtain ⟨reader, hfind, htargets, hname, hsignalled⟩ := hduring (m + 1) (by omega) le_rfl
  rw [not_not.mp hends] at hsignalled
  exact ⟨m + 1, by omega, reader, hfind, htargets, hname, fun _ => hsignalled.resolve_right id⟩

/-- When no calls are made any more, every established subscriber has a reader, and one
datagram with a message for that makes it Operational for good, in every fair run. -/
theorem eventually_operational (hboots : Boots server) (hstart : x.state 0 = start server)
    (hfair : Fair x) (hdistinct : ∀ n, TagsDistinct (x.state n) (x.event n)) (n : ℕ)
    (hidle : (x.state n).service = .idle)
    (hquiet : ∀ m, n ≤ m → ∀ call, x.event m ≠ .call call) (name : Bytes) (endpoint : Endpoint)
    (hfind : (x.state n).server.fx.endpoints.find? name = some endpoint)
    (hactive : endpoint.active = true) (hrole : endpoint.role = .subscriber) :
    ∃ key reader, ReaderOf (x.state n) name endpoint key reader ∧
      ∀ m receiver data message cursor, n ≤ m → x.event m = .receive receiver data →
        decodeDatagram data = .ok message cursor → Addresses key message message.messages →
        ∃ k, m < k ∧ ∀ j, k ≤ j → ∃ endpoint',
          (x.state j).server.fx.endpoints.find? name = some endpoint' ∧
          endpoint'.active = true ∧ endpoint'.statusVariable = some .operational := by
  have hs := synchronous_state hboots hstart hdistinct
  have hclears : ¬ (x.state n).service.Clears name := by
    rw [hidle]
    exact id
  obtain ⟨key, reader, hreader⟩ := exists_readerOf (hs n) hfind hactive hrole hclears
  refine ⟨key, reader, hreader, ?_⟩
  intro m receiver data message cursor hnm hevent hdecode haddresses
  have htagged : reader.ownerTag ≠ [] :=
    hreader.tagged ▸ ((hs n).kept name endpoint hfind).tagged
  obtain ⟨htargets, -⟩ := (hs n).linked.served key reader hreader.found htagged
  have hserves : Serves false key name (x.state m) :=
    serves_later hidle hquiet ⟨reader, hreader.found, htargets, hreader.named, nofun⟩ hnm
  have hquiet' : ∀ k, m + 1 ≤ k → ∀ call, x.event k ≠ .call call :=
    fun k hk => hquiet k (by omega)
  have hstep := x.step_state m
  rw [hevent] at hstep
  obtain ⟨hdue, hbusy⟩ := due_receive hserves hdecode haddresses hstep
  obtain ⟨k, hk, hsignalled⟩ := exists_signalled hboots hstart hfair hdistinct
    (service_quiet_later hidle hquiet (by omega)) hquiet' hdue hbusy
  refine ⟨k, by omega, fun j hj => ?_⟩
  obtain ⟨reader', hfind', -, hname', hset⟩ := serves_later
    (service_quiet_later hidle hquiet (by omega)) (fun i hi => hquiet i (by omega)) hsignalled hj
  exact operational_of_signalled (hs j) hfind' hname' (hset rfl)

/-- The datagram for the meter makes it Operational. -/
theorem eventually_operational_meter : ∃ (x : Execution step) (endpoint : Endpoint)
    (key : ReaderKey) (reader : ReaderRuntime), x.state 0 = start meterServer ∧
    x.event 8 = .receive ⟨text "h", 1⟩ datagramOfPublisher8 ∧
    ReaderOf (x.state 8) (text "c") endpoint key reader ∧
    ∀ m receiver data message cursor, 8 ≤ m → x.event m = .receive receiver data →
      decodeDatagram data = .ok message cursor → Addresses key message message.messages →
      ∃ k, m < k ∧ ∀ j, k ≤ j → ∃ endpoint',
        (x.state j).server.fx.endpoints.find? (text "c") = some endpoint' ∧
        endpoint'.active = true ∧ endpoint'.statusVariable = some .operational := by
  obtain ⟨x, hstart, hevents, hfair, hdistinct, hidle, endpoint, hfind, hactive, hrole⟩ :=
    exists_fair_meter
  have hquiet : ∀ m, 8 ≤ m → ∀ call, x.event m ≠ .call call := by
    intro m hm call
    rw [hevents]
    obtain ⟨d, rfl⟩ := Nat.exists_eq_add_of_le hm
    rcases Nat.lt_or_ge d 6 with hlt | hge
    · interval_cases d <;> exact nofun
    · rw [List.getD_eq_default _ _ (Nat.add_le_add_left hge 8)]
      exact nofun
  obtain ⟨key, reader, hreader, hoperational⟩ := eventually_operational run_meter.1 hstart
    hfair hdistinct 8 hidle hquiet (text "c") endpoint hfind hactive hrole
  exact ⟨x, endpoint, key, reader, hstart, hevents 8, hreader, hoperational⟩

end Quiet

end Fx

end Supernova
