/-
Handlers, removals, the start and the shutdown keep the engine sound: each
operation that ends is followed by the next one as long as something uses it.
-/
import Supernova.PubSubIoSound

namespace Supernova

namespace PubSub

namespace IoThread

variable {s s' : State}

/-- The tables refer to the object of the operation. -/
def State.Uses (s : State) : Operation → Prop
  | .wait group => group ∈ s.writerGroups
  | .receiveFrom receiver =>
      ∃ endpoint entry, s.receivers.find? endpoint = some entry ∧ entry.receiver = receiver

theorem Sound.pending_eq_one (h : Sound s) {operation : Operation} (huses : s.Uses operation) :
    s.io.pending operation = 1 := by
  rcases operation with group | receiver
  · exact h.waiting group huses
  · obtain ⟨endpoint, entry, hentry, rfl⟩ := huses
    exact h.receiving endpoint entry hentry

/-- What is under way may change for objects that nothing uses any more. -/
theorem Sound.withIo (h : Sound s) {io : IoContext Operation Outcome}
    (hknown : ∀ operation, io.Mentions operation → s.Knows operation)
    (hpending : ∀ operation, s.Uses operation →
      io.pending operation = s.io.pending operation) :
    Sound { s with io } := by
  refine ⟨h.toPlaced.withIo hknown, ?_, ?_⟩
  · intro group hgroup
    exact (hpending (.wait group) hgroup).trans (h.waiting group hgroup)
  · intro endpoint entry hentry
    exact (hpending (.receiveFrom entry.receiver) ⟨endpoint, entry, hentry, rfl⟩).trans
      (h.receiving endpoint entry hentry)

theorem Sound.withReaders (h : Sound s) (readers : OrderedMap ReaderKey ReaderRuntime) :
    Sound { s with readers } :=
  ⟨⟨h.distinct, h.live, h.opened, h.known⟩, h.waiting, h.receiving⟩

section Handlers

variable {io : IoContext Operation Outcome} {position : Nat} {operation : Operation}

/-- An operation that ends waits for its handler. -/
theorem sound_finish (h : Sound s) {outcome : Outcome}
    (hfinish : s.io.finish operation outcome = some io) : Sound { s with io } :=
  h.withIo (fun other hmentions => h.known other (IoContext.mentions_finish hfinish hmentions))
    fun other _ => IoContext.pending_finish hfinish other

/-- A completion that is taken and not followed by another operation. -/
theorem sound_taken (h : Sound s) {outcome : Option Outcome}
    (htake : s.io.take position = some ((operation, outcome), io))
    (hspent : outcome.isSome = true → ¬ s.Uses operation) : Sound { s with io } := by
  refine h.withIo ?_ ?_
  · exact fun other hmentions => h.known other ((IoContext.mentions_of_take htake).2 other hmentions)
  · intro other huses
    rw [IoContext.pending_take htake other, if_neg]
    · rfl
    · rintro ⟨rfl, hsome⟩
      exact hspent hsome huses

/-- The operation that follows takes the place of the one that has ended. -/
theorem sound_rearmed (h : Sound s) {outcome : Outcome} {io' : IoContext Operation Outcome}
    (htake : s.io.take position = some ((operation, some outcome), io))
    (huses : s.Uses operation)
    (hmentions : ∀ other, io'.Mentions other → other = operation ∨ io.Mentions other)
    (hself : io.pending operation = 0 → io'.pending operation = 1)
    (hother : ∀ other, other ≠ operation → io'.pending other = io.pending other) :
    Sound { s with io := io' } := by
  have htaken := fun other => IoContext.pending_take htake other
  refine h.withIo ?_ ?_
  · intro other hmem
    rcases hmentions other hmem with rfl | hmem
    · exact h.known _ (IoContext.mentions_of_take htake).1
    · exact h.known other ((IoContext.mentions_of_take htake).2 other hmem)
  · intro other _
    by_cases heq : other = operation
    · subst heq
      have hone := h.pending_eq_one huses
      have hzero := htaken other
      simp only [Option.isSome_some, and_self, if_true] at hzero
      rw [hone, hself (by omega)]
    · rw [htaken other, hother other heq, if_neg fun hand => heq hand.1, Nat.add_zero]

theorem sound_setRuntime (h : Sound s) {group : Nat} {object : GroupObject}
    (hobject : s.groups[group]? = some object) (runtime : WriterGroupRuntime) :
    Sound { s with groups := s.groups.set group { object with runtime } } := by
  refine ⟨⟨h.distinct, ?_, h.opened, ?_⟩, h.waiting, h.receiving⟩
  · intro other
    rw [h.live other]
    simp only [List.getElem?_set]
    by_cases hother : group = other
    · subst hother
      obtain ⟨hlt, hget⟩ := List.getElem?_eq_some_iff.mp hobject
      simp [hlt, hget]
    · simp [hother]
  · rintro (other | receiver) hmentions
    · have hlt : other < s.groups.length := h.known (.wait other) hmentions
      change other < (s.groups.set group _).length
      rw [List.length_set]
      exact hlt
    · exact h.known (.receiveFrom receiver) hmentions

theorem sound_waitCompleted (h : Sound s) (sample : Nat → Nat → Nat → Option UaVariant)
    {group : Nat} {outcome : Option Outcome}
    (htake : s.io.take position = some ((.wait group, outcome), io)) :
    Sound (waitCompleted { s with io } sample group outcome).1 := by
  rcases outcome with _ | outcome
  · exact sound_taken h htake (by simp)
  have hunused : (∀ runtime, s.groups[group]? ≠ some ⟨runtime, false⟩) →
      Sound { s with io } := by
    intro hno
    refine sound_taken h htake fun _ hmem => ?_
    obtain ⟨⟨runtime, stopped⟩, hfound, hlive⟩ := (h.live group).mp hmem
    obtain rfl : stopped = false := hlive
    exact hno runtime hfound
  rcases hobject : s.groups[group]? with _ | ⟨runtime, stopped⟩
  · simp only [waitCompleted, hobject]
    exact hunused (by simp [hobject])
  rcases stopped with _ | _
  · have huses : s.Uses (.wait group) := (h.live group).mpr ⟨⟨runtime, false⟩, hobject, rfl⟩
    simp only [waitCompleted, hobject, Bool.false_eq_true, if_false]
    have hset := sound_setRuntime h hobject (publishGroup sample runtime).1
    refine sound_rearmed hset htake huses ?_ ?_ ?_
    · intro other hmentions
      rcases IoContext.mentions_initiate.1 hmentions with rfl | hmentions
      · exact .inl rfl
      · exact .inr (IoContext.mentions_cancel.1 hmentions)
    · intro hzero
      have hle := IoContext.pending_cancel_self_le io (.wait group)
      change ((io.cancel (.wait group)).initiate (.wait group)).pending (.wait group) = 1
      rw [IoContext.pending_initiate, if_pos rfl]
      omega
    · intro other hne
      rw [IoContext.pending_initiate, if_neg hne, IoContext.pending_cancel_of_ne _ hne, Nat.add_zero]
  · simp only [waitCompleted, hobject, if_true]
    exact hunused (by simp [hobject])

theorem handleDatagram_state (s : State) (signalled : Nat → Bool) (data : Bytes) :
    ∃ readers, (handleDatagram s signalled data).1 = { s with readers } := by
  unfold handleDatagram
  split
  · exact ⟨s.readers, rfl⟩
  · exact ⟨_, rfl⟩

theorem sound_armReceive_taken (h : Sound s) {receiver : Nat} {outcome : Outcome}
    (htake : s.io.take position = some ((.receiveFrom receiver, some outcome), io))
    (huses : s.Uses (.receiveFrom receiver)) :
    Sound (armReceive { s with io } receiver) := by
  refine sound_rearmed h htake huses ?_ ?_ ?_
  · exact fun other hmentions => IoContext.mentions_initiate.1 hmentions
  · intro hzero
    rw [IoContext.pending_initiate, if_pos rfl, hzero]
  · intro other hne
    rw [IoContext.pending_initiate, if_neg hne, Nat.add_zero]

theorem sound_receiveCompleted (h : Sound s) (signalled : Nat → Bool) {receiver : Nat}
    {outcome : Option Outcome}
    (htake : s.io.take position = some ((.receiveFrom receiver, outcome), io)) :
    Sound (receiveCompleted { s with io } signalled receiver outcome).1 := by
  rcases outcome with _ | outcome
  · exact sound_taken h htake (by simp)
  have hclosed : (∀ endpoint, s.receiverObjects[receiver]? ≠ some ⟨endpoint, true⟩) →
      Sound { s with io } := by
    intro hno
    refine sound_taken h htake fun _ => ?_
    rintro ⟨endpoint, hentry⟩
    exact hno endpoint ((h.opened receiver endpoint).mpr hentry)
  rcases hobject : s.receiverObjects[receiver]? with _ | ⟨endpoint, isOpen⟩
  · simp only [receiveCompleted, hobject]
    exact hclosed (by simp [hobject])
  rcases isOpen with _ | _
  · simp only [receiveCompleted, hobject, Bool.not_false, if_true]
    exact hclosed (by simp [hobject])
  · have huses : s.Uses (.receiveFrom receiver) :=
      ⟨endpoint, (h.opened receiver endpoint).mp hobject⟩
    have harmed := sound_armReceive_taken h htake huses
    simp only [receiveCompleted, hobject, Bool.not_true, Bool.false_eq_true, if_false]
    rcases outcome with _ | _ | data
    · exact harmed
    · exact harmed
    · by_cases hdata : 0 < data.length
      · simp only [hdata, if_true]
        obtain ⟨readers, hreaders⟩ := handleDatagram_state { s with io } signalled data
        rw [hreaders]
        exact harmed.withReaders readers
      · simp only [hdata, if_false]
        exact harmed

theorem sound_complete (h : Sound s) (moment : Moment) {completion : Operation × Option Outcome}
    (htake : s.io.take position = some (completion, io)) :
    Sound (complete { s with io } moment completion).1 := by
  obtain ⟨group | receiver, outcome⟩ := completion
  · exact sound_waitCompleted h moment.sample htake
  · exact sound_receiveCompleted h moment.signalled htake

end Handlers

section Removal

variable {ownerTag : Bytes}

theorem sound_removeReader (h : Sound s) (entry : ReaderKey × ReaderRuntime) :
    Sound (removeReader ownerTag s entry) := by
  rw [removeReader]
  split
  · exact (sound_releaseReceiver h _).withReaders _
  · exact h

theorem sound_removeDynamic (h : Sound s) (ownerTag : Bytes) :
    Sound (removeDynamic s ownerTag) := by
  rw [removeDynamic]
  split
  · exact h
  · have hgroups : Sound (s.writerGroups.foldl (removeGroup ownerTag) s) :=
      List.foldlRecOn _ _ h fun _ h group _ => sound_removeGroup h ownerTag group
    exact List.foldlRecOn _ _ hgroups fun _ h entry _ => sound_removeReader h entry

end Removal

section Start

variable {surroundings : Surroundings} {configuration : Configuration} {u : Unit}

/-- While the runtimes are built, nothing is under way. -/
structure Building (s : State) : Prop extends Placed s where
  quiet : s.io = .empty

theorem build_writerGroup {connection : ConnectionConfig} {group : WriterGroupConfig}
    (h : Building s)
    (hrun : buildWriterGroup surroundings configuration connection group s = .ok u s') :
    Building s' ∧
      PubSub.buildWriterGroup surroundings configuration connection group s.engine =
        .ok u s'.engine := by
  obtain ⟨runtime, s₁, hresult, hnew⟩ := estate_bind_eq_ok.1 hrun
  obtain ⟨hruntime, rfl⟩ := estate_ofExcept_eq_ok.1 hresult
  obtain ⟨number, s₂, hnumber, hpush⟩ := estate_bind_eq_ok.1 hnew
  obtain ⟨rfl, rfl⟩ : s.groups.length = number ∧
      { s with groups := s.groups ++ [⟨runtime, false⟩] } = s₂ := EStateM.Result.ok.inj hnumber
  have hs' := estate_modify_eq_ok.1 hpush
  subst hs'
  refine ⟨⟨placed_newGroup h.toPlaced runtime, h.quiet⟩, ?_⟩
  rw [engine_pushWriterGroup h.addressed]
  exact estate_bind_eq_ok.2 ⟨runtime, s.engine, lifted_eq_ok.2 ⟨hruntime, rfl⟩, rfl⟩

theorem build_acquireReceiver {socket : Option Bytes} {endpoint : ReceiverKey} (h : Building s)
    (hrun : acquireReceiver socket endpoint false s = .ok u s') : Building s' := by
  rcases acquireReceiver_run s socket endpoint false with
    ⟨entry, hentry, hok⟩ | ⟨-, error, -, herror⟩ | ⟨hnone, -, hok⟩
  · rw [hok] at hrun
    obtain ⟨-, rfl⟩ := EStateM.Result.ok.inj hrun
    exact ⟨placed_assignReceiver h.toPlaced hentry rfl, h.quiet⟩
  · rw [herror] at hrun
    cases hrun
  · rw [hok] at hrun
    obtain ⟨-, rfl⟩ := EStateM.Result.ok.inj hrun
    exact ⟨placed_opened h.toPlaced hnone, h.quiet⟩

theorem build_reader {connection : ConnectionConfig} {reader : DataSetReaderConfig}
    (h : Building s) (hrun : buildReader surroundings connection reader s = .ok u s') :
    Building s' ∧ PubSub.buildReader surroundings connection reader s.engine =
      .ok u s'.engine := by
  obtain ⟨targets, s₁, hresult, hrest⟩ := estate_bind_eq_ok.1 hrun
  obtain ⟨htargets, rfl⟩ := estate_ofExcept_eq_ok.1 hresult
  obtain ⟨s₂, s₃, hget, hchecked⟩ := estate_bind_eq_ok.1 hrest
  obtain ⟨rfl, rfl⟩ := estate_get_eq_ok.1 hget
  have hreaders : s.engine.readers = s.readers := rfl
  by_cases hcontains : s.readers.contains
      ⟨reader.publisherId, reader.writerGroupId, reader.dataSetWriterId⟩ = true
  · simp [hcontains] at hchecked
  rw [if_neg hcontains] at hchecked
  obtain ⟨u₁, s₂, hset, hacquire⟩ := estate_bind_eq_ok.1 hchecked
  have hs₂ := estate_set_eq_ok.1 hset
  have hbuilding : Building s₂ := by
    rw [← hs₂]
    exact ⟨⟨h.distinct, h.live, h.opened, h.known⟩, h.quiet⟩
  have hagrees := agrees_acquireReceiver s₂
    (surroundings.receiver ⟨connection.host, connection.port⟩)
    ⟨connection.host, connection.port⟩ false
  rw [hacquire] at hagrees
  obtain ⟨receivers, hreceivers, hengine⟩ := except_map_eq_ok.1 hagrees
  refine ⟨build_acquireReceiver hbuilding hacquire, ?_⟩
  refine estate_bind_eq_ok.2 ⟨targets, s.engine, lifted_eq_ok.2 ⟨htargets, rfl⟩, ?_⟩
  refine estate_bind_eq_ok.2 ⟨s.engine, s.engine, estate_get_eq_ok.2 ⟨rfl, rfl⟩, ?_⟩
  rw [hreaders, if_neg hcontains]
  refine estate_bind_eq_ok.2 ⟨u₁, s₂.engine, estate_set_eq_ok.2 (by rw [← hs₂]; rfl), ?_⟩
  have hsame : s.engine.receivers = s₂.engine.receivers := by rw [← hs₂]; rfl
  refine estate_bind_eq_ok.2 ⟨receivers, s₂.engine, lifted_eq_ok.2 ⟨?_, rfl⟩, ?_⟩
  · rw [hsame]
    exact hreceivers
  · rw [estate_modify_eq_ok, ← hengine]

theorem build_connection {connection : ConnectionConfig} (h : Building s)
    (hrun : buildConnection surroundings configuration connection s = .ok u s') :
    Building s' ∧ PubSub.buildConnection surroundings configuration connection s.engine =
      .ok u s'.engine := by
  obtain ⟨u₁, s₁, hgroups, hreaders⟩ := estate_bind_eq_ok.1 hrun
  obtain ⟨h₁, hgroups'⟩ := forM_simulates
    (fun group _ s u s' h hrun => build_writerGroup h hrun) h hgroups
  obtain ⟨h', hreaders'⟩ := forM_simulates
    (fun reader _ s u s' h hrun => build_reader h hrun) h₁ hreaders
  exact ⟨h', estate_bind_eq_ok.2 ⟨u₁, s₁.engine, hgroups', hreaders'⟩⟩

/-- What the tables of a state call for. -/
def operations (s : State) : List Operation :=
  s.writerGroups.map .wait ++ s.receivers.entries.map fun entry => .receiveFrom entry.2.receiver

theorem uses_iff_mem_operations {operation : Operation} :
    s.Uses operation ↔ operation ∈ operations s := by
  rcases operation with group | receiver
  · simp [State.Uses, operations]
  · simp [State.Uses, operations, OrderedMap.mem_entries_iff]

theorem nodup_operations (h : Placed s) : (operations s).Nodup := by
  have hgroups : (s.writerGroups.map Operation.wait).Nodup :=
    h.distinct.map fun _ _ heq => by simpa using heq
  have hreceivers : (s.receivers.entries.map fun entry =>
      Operation.receiveFrom entry.2.receiver).Nodup := by
    rw [List.Nodup, List.pairwise_map]
    refine s.receivers.sorted.imp_of_mem ?_
    rintro ⟨endpoint, entry⟩ ⟨endpoint', entry'⟩ hentry hentry' hlt heq
    rw [OrderedMap.mem_entries_iff] at hentry hentry'
    have hendpoint := h.endpoint_eq hentry hentry' (by simpa using heq)
    rw [hendpoint] at hlt
    exact lt_irrefl _ hlt
  rw [operations, List.nodup_append]
  refine ⟨hgroups, hreceivers, ?_⟩
  rintro _ hgroup _ hreceiver rfl
  obtain ⟨group, -, rfl⟩ := List.mem_map.mp hgroup
  obtain ⟨entry, -, heq⟩ := List.mem_map.mp hreceiver
  cases heq

theorem armAll_eq (h : Building s) :
    armAll s = { s with
      io := (operations s).foldl IoContext.initiate .empty
      running := true } := by
  have hgroups : ∀ (groups : List Nat) (s : State), groups.foldl scheduleGroup s = { s with
      io := (groups.map Operation.wait).foldl
        (fun io operation => (io.cancel operation).initiate operation) s.io } := by
    intro groups
    induction groups with
    | nil => exact fun _ => rfl
    | cons group groups ih => exact fun s => ih (scheduleGroup s group)
  have hreceivers : ∀ (entries : List (ReceiverKey × ReceiverEntry)) (s : State),
      entries.foldl (fun s entry => armReceive s entry.2.receiver) s = { s with
        io := (entries.map fun entry => Operation.receiveFrom entry.2.receiver).foldl
          IoContext.initiate s.io } := by
    intro entries
    induction entries with
    | nil => exact fun _ => rfl
    | cons entry entries ih => exact fun s => ih (armReceive s entry.2.receiver)
  have hnodup := (List.nodup_append.mp (nodup_operations h.toPlaced)).1
  have hfresh : ∀ operation ∈ s.writerGroups.map Operation.wait,
      ¬ s.io.Mentions operation := by
    rw [h.quiet]
    intro operation _ hmentions
    simp [IoContext.Mentions, IoContext.empty] at hmentions
  rw [armAll, hgroups, hreceivers, IoContext.foldl_restart hnodup hfresh, operations,
    List.foldl_append, h.quiet]

theorem sound_armAll (h : Building s) : Sound (armAll s) := by
  have hpending : ∀ operation, s.Uses operation →
      ((operations s).foldl IoContext.initiate
        (.empty : IoContext Operation Outcome)).pending operation = 1 := by
    intro operation huses
    rw [IoContext.pending_foldl_initiate, IoContext.pending_empty, Nat.zero_add]
    exact List.count_eq_one_of_mem (nodup_operations h.toPlaced)
      (uses_iff_mem_operations.1 huses)
  rw [armAll_eq h]
  refine ⟨⟨h.distinct, h.live, h.opened, ?_⟩, ?_, ?_⟩
  · intro operation hmentions
    rcases IoContext.mentions_foldl_initiate.1 hmentions with hmem | hmentions
    · rcases operation with group | receiver
      · exact h.addressed group (uses_iff_mem_operations.2 hmem)
      · obtain ⟨endpoint, entry, hentry, rfl⟩ := uses_iff_mem_operations.2 hmem
        exact h.receiver_lt hentry
    · simp [IoContext.Mentions, IoContext.empty] at hmentions
  · exact fun group hgroup => hpending (.wait group) hgroup
  · exact fun endpoint entry hentry =>
      hpending (.receiveFrom entry.receiver) ⟨endpoint, entry, hentry, rfl⟩

theorem start_sound (h : Placed s)
    (hrun : startStaged surroundings configuration s = .ok u s') :
    Sound s' ∧ s'.running = true ∧
      PubSub.startStaged surroundings configuration s.engine = .ok u s'.engine := by
  obtain ⟨s₁, s₂, hget, hchecked⟩ := estate_bind_eq_ok.1 hrun
  obtain ⟨rfl, rfl⟩ := estate_get_eq_ok.1 hget
  have hrunning : s.engine.running = s.running := rfl
  by_cases hactive : s.running = true
  · simp [hactive] at hchecked
  rw [if_neg hactive] at hchecked
  obtain ⟨u₁, s₁, hset, hrest⟩ := estate_bind_eq_ok.1 hchecked
  have hs₁ := estate_set_eq_ok.1 hset
  have hbuilding : Building s₁ := by
    rw [← hs₁]
    refine ⟨h.withIo ?_, rfl⟩
    intro operation hmentions
    simp [IoContext.Mentions, IoContext.empty] at hmentions
  obtain ⟨u₂, s₂, hbuild, hmodify⟩ := estate_bind_eq_ok.1 hrest
  have hs' := estate_modify_eq_ok.1 hmodify
  obtain ⟨h₂, hbuild'⟩ := forM_simulates
    (fun connection _ s u s' h hrun => build_connection h hrun) hbuilding hbuild
  rw [← hs']
  refine ⟨sound_armAll h₂, rfl, ?_⟩
  refine estate_bind_eq_ok.2 ⟨s.engine, s.engine, estate_get_eq_ok.2 ⟨rfl, rfl⟩, ?_⟩
  rw [hrunning, if_neg hactive]
  refine estate_bind_eq_ok.2 ⟨u₂, s₂.engine, ?_, ?_⟩
  · rw [← hs₁] at hbuild'
    exact hbuild'
  · rw [estate_modify_eq_ok, armAll_eq h₂]
    rfl

end Start

section Shutdown

theorem foldl_stopGroup (groups : List Nat) (s : State) :
    (∀ group, (groups.foldl stopGroup s).groups[group]? =
      (s.groups[group]?).map fun object =>
        if group ∈ groups then { object with stopped := true } else object) ∧
      (groups.foldl stopGroup s).receiverObjects = s.receiverObjects ∧
      (groups.foldl stopGroup s).receivers = s.receivers := by
  induction groups generalizing s with
  | nil => simp
  | cons group groups ih =>
      obtain ⟨hgroups, hreceiverObjects, hreceivers⟩ := ih (stopGroup s group)
      refine ⟨?_, hreceiverObjects, hreceivers⟩
      intro other
      rw [List.foldl_cons, hgroups, stopGroup, List.getElem?_modify]
      rcases s.groups[other]? with _ | object
      · rfl
      · by_cases hother : group = other
        · simp [hother]
        · simp [hother, Ne.symm hother]

theorem foldl_stopReceiver (receivers : List Nat) (s : State) :
    (∀ receiver, (receivers.foldl stopReceiver s).receiverObjects[receiver]? =
      (s.receiverObjects[receiver]?).map fun object =>
        if receiver ∈ receivers then { object with isOpen := false } else object) ∧
      (receivers.foldl stopReceiver s).groups = s.groups := by
  induction receivers generalizing s with
  | nil => simp
  | cons receiver receivers ih =>
      obtain ⟨hreceivers, hgroups⟩ := ih (stopReceiver s receiver)
      refine ⟨?_, hgroups⟩
      intro other
      rw [List.foldl_cons, hreceivers, stopReceiver, List.getElem?_modify]
      rcases s.receiverObjects[other]? with _ | object
      · rfl
      · by_cases hother : receiver = other
        · simp [hother]
        · simp [hother, Ne.symm hother]

/-- What a shutdown leaves: objects that are stopped or closed, and no table. -/
theorem shutdown_cases (s : State) :
    (s.running = false ∧ shutdown s = s) ∨
    (s.running = true ∧ (shutdown s).running = false ∧ (shutdown s).writerGroups = [] ∧
      (shutdown s).receivers = .empty ∧ (shutdown s).readers = .empty ∧
      (shutdown s).io = .empty ∧
      (∀ group, (shutdown s).groups[group]? = (s.groups[group]?).map fun object =>
        if group ∈ s.writerGroups then { object with stopped := true } else object) ∧
      ∀ receiver, (shutdown s).receiverObjects[receiver]? =
        (s.receiverObjects[receiver]?).map fun object =>
          if receiver ∈ s.receivers.entries.map fun entry => entry.2.receiver then
            { object with isOpen := false } else object) := by
  rcases hrunning : s.running with _ | _
  · exact .inl ⟨rfl, by rw [shutdown, hrunning]; rfl⟩
  · right
    obtain ⟨hgroups, hobjects, hreceivers⟩ := foldl_stopGroup s.writerGroups s
    have hstop := foldl_stopReceiver
      ((s.writerGroups.foldl stopGroup s).receivers.entries.map fun entry => entry.2.receiver)
      (s.writerGroups.foldl stopGroup s)
    rw [List.foldl_map, hreceivers, hobjects] at hstop
    have hactive : ¬ (!s.running) = true := by simp [hrunning]
    simp only [shutdown, if_neg hactive, hreceivers]
    refine ⟨trivial, trivial, trivial, trivial, trivial, trivial, ?_, hstop.1⟩
    intro group
    rw [hstop.2]
    exact hgroups group

theorem sound_shutdown (h : Sound s) : Sound (shutdown s) := by
  rcases shutdown_cases s with ⟨-, heq⟩ | ⟨-, -, hwriterGroups, hreceivers, -, hio, hgroups, hobjects⟩
  · rw [heq]
    exact h
  refine ⟨⟨?_, ?_, ?_, ?_⟩, ?_, ?_⟩
  · rw [hwriterGroups]
    exact List.nodup_nil
  · intro group
    rw [hwriterGroups, hgroups]
    simp only [List.not_mem_nil, Option.map_eq_some_iff, false_iff, not_exists, not_and]
    rintro _ ⟨object, hobject, rfl⟩
    by_cases hmem : group ∈ s.writerGroups
    · simp [hmem]
    · rw [if_neg hmem]
      exact fun hlive => hmem ((h.live group).mpr ⟨object, hobject, hlive⟩)
  · intro receiver endpoint
    rw [hreceivers, hobjects]
    simp only [OrderedMap.find?_empty, reduceCtorEq, false_and, exists_false, iff_false,
      Option.map_eq_some_iff, not_exists, not_and]
    intro object hobject
    split
    · simp
    · rename_i hmem
      rintro rfl
      obtain ⟨entry, hentry, rfl⟩ := (h.opened receiver endpoint).mp hobject
      exact hmem (List.mem_map.mpr
        ⟨(endpoint, entry), (OrderedMap.mem_entries_iff _ _ _).mpr hentry, rfl⟩)
  · intro operation hmentions
    rw [hio] at hmentions
    simp [IoContext.Mentions, IoContext.empty] at hmentions
  · intro group hgroup
    rw [hwriterGroups] at hgroup
    cases hgroup
  · intro endpoint entry hentry
    rw [hreceivers] at hentry
    cases hentry

end Shutdown

end IoThread

end PubSub

end Supernova
