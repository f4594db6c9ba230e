/-
Every step of the io thread keeps the engine sound, and is a step of the engine of
the tables or leaves the tables as they are.
-/
import Supernova.PubSubIoOperations

namespace Supernova

namespace PubSub

namespace IoThread

variable {s s' : State}

/-- An engine that is not running has let go of everything. -/
def Idle (s : State) : Prop :=
  s.running = false →
    s.writerGroups = [] ∧ s.receivers = .empty ∧ s.readers = .empty ∧ s.io = .empty

/-- The operations of the tables that an event amounts to. -/
def tableEvents (s : State) : Event → List PubSub.Event
  | .start surroundings configuration => [.start surroundings configuration]
  | .ensureStarted => [.ensureStarted]
  | .addWriterGroup socket ownerTag publisherIdType publisherId group =>
      [.addWriterGroup socket ownerTag publisherIdType publisherId group]
  | .addReader socket ownerTag reader => [.addReader socket ownerTag reader]
  | .remove ownerTag => [.remove ownerTag]
  | .shutdown => [.shutdown]
  | .expire _ | .fail _ | .arrive _ _ => []
  | .complete position moment =>
      match s.io.queue[position]? with
      | some (.wait group, some _) =>
          if group ∈ s.writerGroups then [.timer (s.writerGroups.idxOf group) moment.sample]
          else []
      | some (.receiveFrom receiver, some (.datagram data)) =>
          match s.receiverObjects[receiver]? with
          | some ⟨endpoint, true⟩ =>
              if 0 < data.length then [.receive endpoint moment.signalled data] else []
          | _ => []
      | _ => []

section Refinement

/-- Replacing the value of one key of a list replaces one value. -/
theorem filterMap_eq_modify {α β : Type} [DecidableEq α] (f f' : α → Option β) (g : β → β)
    {a : α} {b : β} (ha : f a = some b) (ha' : f' a = some (g b))
    (hother : ∀ x, x ≠ a → f' x = f x) {l : List α} (hnodup : l.Nodup) (hmem : a ∈ l)
    (hsome : ∀ x ∈ l, (f x).isSome) :
    l.filterMap f' = (l.filterMap f).modify (l.idxOf a) g := by
  induction l with
  | nil => cases hmem
  | cons x l ih =>
      rw [List.nodup_cons] at hnodup
      rw [List.forall_mem_cons] at hsome
      by_cases hx : x = a
      · subst hx
        have htail : l.filterMap f' = l.filterMap f :=
          List.filterMap_congr fun y hy => hother y fun heq => hnodup.1 (heq ▸ hy)
        rw [List.filterMap_cons_some ha', List.filterMap_cons_some ha, List.idxOf_cons_self, htail]
        rfl
      · obtain ⟨y, hy⟩ := Option.isSome_iff_exists.mp hsome.1
        have hmem' := (List.mem_cons.mp hmem).resolve_left (Ne.symm hx)
        rw [List.filterMap_cons_some ((hother x hx).trans hy), List.filterMap_cons_some hy,
          List.idxOf_cons_ne l hx, ih hnodup.2 hmem' hsome.2]
        rfl

variable {io : IoContext Operation Outcome}

theorem engine_publish (h : Sound s) {group : Nat} {runtime : WriterGroupRuntime}
    (hobject : s.groups[group]? = some ⟨runtime, false⟩)
    (sample : Nat → Nat → Nat → Option UaVariant) :
    State.engine { s with
        groups := s.groups.set group ⟨(publishGroup sample runtime).1, false⟩ } =
      timerCompleted s.engine (s.writerGroups.idxOf group) sample := by
  have hlt := (List.getElem?_eq_some_iff.mp hobject).1
  have htable := filterMap_eq_modify s.runtime?
    (State.runtime? { s with
      groups := s.groups.set group ⟨(publishGroup sample runtime).1, false⟩ })
    (fun runtime => (publishGroup sample runtime).1)
    (by rw [State.runtime?, hobject]; rfl)
    (by rw [State.runtime?, List.getElem?_set_self hlt]; rfl)
    (fun other hother => by
      rw [State.runtime?, State.runtime?, List.getElem?_set_ne (Ne.symm hother)])
    h.distinct ((h.live group).mpr ⟨_, hobject, rfl⟩)
    (fun other hother => by
      obtain ⟨object, hfound, -⟩ := (h.live other).mp hother
      rw [State.runtime?, hfound]
      rfl)
  change Engine.mk _ _ _ _ = _
  rw [htable]
  rfl

theorem engine_waitCompleted (h : Sound s) (io : IoContext Operation Outcome)
    (sample : Nat → Nat → Nat → Option UaVariant) (group : Nat) (outcome : Outcome) :
    (waitCompleted { s with io } sample group (some outcome)).1.engine =
      if group ∈ s.writerGroups then
        timerCompleted s.engine (s.writerGroups.idxOf group) sample
      else s.engine := by
  rcases hobject : s.groups[group]? with _ | ⟨runtime, stopped⟩
  · have hunused : group ∉ s.writerGroups := by simp [h.live group, hobject]
    simp only [waitCompleted, hobject, if_neg hunused]
    rfl
  rcases stopped with _ | _
  · have huses : group ∈ s.writerGroups := (h.live group).mpr ⟨_, hobject, rfl⟩
    simp only [waitCompleted, hobject, Bool.false_eq_true, if_false, if_pos huses,
      engine_scheduleGroup]
    exact engine_publish h hobject sample
  · have hunused : group ∉ s.writerGroups := by simp [h.live group, hobject]
    simp only [waitCompleted, hobject, if_true, if_neg hunused]
    rfl

theorem engine_handleDatagram (s : State) (signalled : Nat → Bool) (data : Bytes) :
    (handleDatagram s signalled data).1.engine =
      (PubSub.handleDatagram s.engine signalled data).1 := by
  unfold handleDatagram PubSub.handleDatagram
  rcases decodeDatagram data with ⟨message, rest⟩ | ⟨error, rest⟩ <;> rfl

theorem engine_receiveCompleted (h : Sound s) (io : IoContext Operation Outcome)
    (signalled : Nat → Bool) {receiver : Nat} {endpoint : ReceiverKey}
    (hopen : s.receiverObjects[receiver]? = some ⟨endpoint, true⟩) {data : Bytes}
    (hdata : 0 < data.length) :
    (receiveCompleted { s with io } signalled receiver (some (.datagram data))).1.engine =
      (PubSub.receive s.engine endpoint signalled data).1 := by
  obtain ⟨entry, hentry, -⟩ := (h.opened receiver endpoint).mp hopen
  have hcontains : s.engine.receivers.contains endpoint = true := by
    change ((s.receivers.map ReceiverEntry.shared).find? endpoint).isSome = true
    rw [OrderedMap.find?_map, hentry]
    rfl
  simp only [receiveCompleted, hopen, Bool.not_true, Bool.false_eq_true, if_false, hdata, if_true,
    engine_armReceive]
  rw [PubSub.receive, if_pos hcontains, engine_handleDatagram]
  rfl

theorem engine_receiveCompleted_of_no_data {signalled : Nat → Bool} {receiver : Nat}
    {outcome : Option Outcome} (hno : ∀ data, outcome ≠ some (.datagram data)) :
    (receiveCompleted s signalled receiver outcome).1.engine = s.engine := by
  rcases hobject : s.receiverObjects[receiver]? with _ | ⟨endpoint, isOpen⟩
  · rcases outcome with _ | outcome <;> simp only [receiveCompleted, hobject]
  · rcases outcome with _ | _ | _ | data
    · simp only [receiveCompleted]
    · rcases isOpen with _ | _ <;> simp [receiveCompleted, hobject]
    · rcases isOpen with _ | _ <;> simp [receiveCompleted, hobject]
    · exact absurd rfl (hno data)

/-- A handler does to the tables what its event amounts to. -/
theorem engine_complete (h : Sound s) {position : Nat} {moment : Moment}
    {completion : Operation × Option Outcome}
    (htake : s.io.take position = some (completion, io)) :
    run advance s.engine (tableEvents s (.complete position moment)) =
      some (complete { s with io } moment completion).1.engine := by
  obtain ⟨hget, -⟩ := IoContext.take_eq_some.1 htake
  obtain ⟨group | receiver, outcome⟩ := completion
  · rcases outcome with _ | outcome
    · simp only [tableEvents, hget]
      rfl
    · simp only [tableEvents, hget, complete, engine_waitCompleted h]
      split <;> rfl
  · rcases outcome with _ | _ | _ | data
    · simp only [tableEvents, hget]
      rfl
    · simp only [tableEvents, hget, complete]
      rw [engine_receiveCompleted_of_no_data (by simp)]
      rfl
    · simp only [tableEvents, hget, complete]
      rw [engine_receiveCompleted_of_no_data (by simp)]
      rfl
    · rcases hobject : s.receiverObjects[receiver]? with _ | ⟨endpoint, isOpen⟩
      · simp only [tableEvents, hget, hobject, complete, receiveCompleted]
        rfl
      rcases isOpen with _ | _
      · simp only [tableEvents, hget, hobject, complete, receiveCompleted]
        rfl
      · by_cases hdata : 0 < data.length
        · simp only [tableEvents, hget, hobject, if_pos hdata, complete]
          rw [engine_receiveCompleted h io moment.signalled hobject hdata]
          rfl
        · simp only [tableEvents, hget, hobject, if_neg hdata, complete, receiveCompleted]
          rfl

end Refinement

section Steps

theorem sound_left (h : Sound s) {result : EStateM.Result Bytes State Unit}
    {expected : Except Bytes Engine} (hagrees : Agrees s result expected)
    (hok : ∀ u s', result = .ok u s' → Sound s') :
    Sound (left result) ∧ (left result).engine = unlessRefused s.engine expected := by
  rcases result with ⟨u, s'⟩ | ⟨error, s'⟩
  · have hexpected : expected = .ok s'.engine := hagrees
    rw [hexpected]
    exact ⟨hok u s' rfl, rfl⟩
  · obtain ⟨rfl, hexpected⟩ := hagrees
    rw [hexpected]
    exact ⟨h, rfl⟩

theorem sound_addDynamicWriterGroup (h : Sound s) {socket : Option Bytes} {ownerTag : Bytes}
    {publisherIdType : PublisherIdType} {publisherId : UInt64} {group : DynamicWriterGroup}
    {u : Unit}
    (hrun : addDynamicWriterGroup socket ownerTag publisherIdType publisherId group s =
      .ok u s') : Sound s' := by
  rw [addDynamicWriterGroup_eq] at hrun
  split at hrun
  · cases hrun
  · obtain ⟨-, rfl⟩ := EStateM.Result.ok.inj hrun
    exact sound_added h _

theorem sound_addDynamicReader (h : Sound s) {socket : Option Bytes} {ownerTag : Bytes}
    {reader : DynamicReader} {u : Unit}
    (hrun : addDynamicReader socket ownerTag reader s = .ok u s') : Sound s' := by
  rw [addDynamicReader_eq] at hrun
  split at hrun
  · cases hrun
  · rcases hacquire : acquireReceiver socket ⟨reader.host, reader.port⟩ true s with
      ⟨u, s₁⟩ | ⟨error, s₁⟩
    · rw [hacquire] at hrun
      obtain ⟨-, rfl⟩ := EStateM.Result.ok.inj hrun
      exact (sound_acquireReceiver h hacquire).withReaders _
    · rw [hacquire] at hrun
      cases hrun

theorem sound_ensureStarted (h : Sound s) (hidle : Idle s) : Sound (ensureStarted s) := by
  rcases hrunning : s.running with _ | _
  · obtain ⟨-, -, -, hio⟩ := hidle hrunning
    rw [ensureStarted, hrunning, if_neg Bool.false_ne_true, ← hio]
    exact ⟨⟨h.distinct, h.live, h.opened, h.known⟩, h.waiting, h.receiving⟩
  · rw [ensureStarted, hrunning, if_pos rfl]
    exact h

theorem engine_ensureStarted (s : State) :
    (ensureStarted s).engine = PubSub.ensureStarted s.engine := by
  rw [ensureStarted]
  split
  · rename_i hrunning
    simp [PubSub.ensureStarted, State.engine, hrunning]
  · rfl

theorem engine_shutdown (s : State) : (shutdown s).engine = PubSub.shutdown s.engine := by
  have hrunning : s.engine.running = s.running := rfl
  rcases shutdown_cases s with
    ⟨hidle, heq⟩ | ⟨hactive, hstopped, hwriterGroups, hreceivers, hreaders, -⟩
  · rw [heq, PubSub.shutdown, hrunning, hidle]
    rfl
  · rw [PubSub.shutdown, hrunning, hactive, State.engine, hstopped, hwriterGroups, hreceivers,
      hreaders]
    rfl

theorem step_start_eq_some {surroundings : Surroundings} {configuration : Configuration} :
    step s (.start surroundings configuration) = some s' ↔
      ∃ u, startStaged surroundings configuration s = .ok u s' := by
  rw [step, act]
  rcases startStaged surroundings configuration s with ⟨u, s₁⟩ | ⟨error, s₁⟩
  · simp
  · simp

/-- Every step keeps the engine sound, and is what its event amounts to on the
tables. -/
theorem step_sound (h : Sound s) (hidle : Idle s) {event : Event}
    (hstep : step s event = some s') :
    Sound s' ∧ run advance s.engine (tableEvents s event) = some s'.engine := by
  cases event with
  | start surroundings configuration =>
      obtain ⟨u, hstart⟩ := step_start_eq_some.1 hstep
      obtain ⟨hsound, -, hengine⟩ := start_sound h.toPlaced hstart
      refine ⟨hsound, ?_⟩
      simp only [tableEvents, run, advance, hengine]
  | ensureStarted =>
      obtain rfl := Option.some.inj hstep
      exact ⟨sound_ensureStarted h hidle, congrArg some (engine_ensureStarted s).symm⟩
  | addWriterGroup socket ownerTag publisherIdType publisherId group =>
      obtain rfl := Option.some.inj hstep
      obtain ⟨hsound, hengine⟩ := sound_left h
        (agrees_addDynamicWriterGroup h.addressed socket ownerTag publisherIdType publisherId group)
        fun u s' hrun => sound_addDynamicWriterGroup h hrun
      exact ⟨hsound, congrArg some hengine.symm⟩
  | addReader socket ownerTag reader =>
      obtain rfl := Option.some.inj hstep
      obtain ⟨hsound, hengine⟩ := sound_left h (agrees_addDynamicReader s socket ownerTag reader)
        fun u s' hrun => sound_addDynamicReader h hrun
      exact ⟨hsound, congrArg some hengine.symm⟩
  | remove ownerTag =>
      obtain rfl := Option.some.inj hstep
      exact ⟨sound_removeDynamic h ownerTag,
        congrArg some (engine_removeDynamic s ownerTag).symm⟩
  | shutdown =>
      obtain rfl := Option.some.inj hstep
      exact ⟨sound_shutdown h, congrArg some (engine_shutdown s).symm⟩
  | expire group =>
      simp only [step, act, Option.map_map, Option.map_eq_some_iff] at hstep
      obtain ⟨io, hfinish, rfl⟩ := hstep
      exact ⟨sound_finish h hfinish, rfl⟩
  | fail receiver =>
      simp only [step, act, Option.map_map, Option.map_eq_some_iff] at hstep
      obtain ⟨io, hfinish, rfl⟩ := hstep
      exact ⟨sound_finish h hfinish, rfl⟩
  | arrive receiver data =>
      simp only [step, act, Option.map_map, Option.map_eq_some_iff] at hstep
      obtain ⟨io, hfinish, rfl⟩ := hstep
      exact ⟨sound_finish h hfinish, rfl⟩
  | complete position moment =>
      simp only [step, act, Option.map_map, Option.map_eq_some_iff] at hstep
      obtain ⟨⟨completion, io⟩, htake, rfl⟩ := hstep
      exact ⟨sound_complete h moment htake, engine_complete h htake⟩

theorem running_complete (s : State) (moment : Moment) (completion : Operation × Option Outcome) :
    (complete s moment completion).1.running = s.running := by
  obtain ⟨group | receiver, outcome⟩ := completion
  · simp only [complete]
    unfold waitCompleted
    split
    · split <;> rfl
    · rfl
  · simp only [complete]
    unfold receiveCompleted
    split
    · split
      · rfl
      split
      · split
        · rename_i data _
          obtain ⟨readers, hreaders⟩ := handleDatagram_state s moment.signalled data
          change (armReceive (handleDatagram s moment.signalled data).1 receiver).running = _
          rw [hreaders]
          rfl
        · rfl
      · rfl
    · rfl

theorem idle_left (hidle : Idle s) {result : EStateM.Result Bytes State Unit}
    {expected : Except Bytes Engine} (hagrees : Agrees s result expected)
    (hrunning : ∀ e, expected = .ok e → e.running = true) : Idle (left result) := by
  rcases result with ⟨u, s'⟩ | ⟨error, s'⟩
  · intro hstopped
    have hactive : s'.running = true := hrunning s'.engine hagrees
    have hstopped : s'.running = false := hstopped
    rw [hstopped] at hactive
    cases hactive
  · obtain ⟨rfl, -⟩ := hagrees
    exact hidle

theorem idle_step (h : Sound s) (hidle : Idle s) {event : Event}
    (hstep : step s event = some s') : Idle s' := by
  have hactive : ∀ {s' : State}, s'.running = true → Idle s' := by
    intro s' hrunning hstopped
    rw [hrunning] at hstopped
    cases hstopped
  -- Nothing ends or completes while the engine is idle.
  have hquiet : ∀ (operation : Operation) (outcome : Outcome) io,
      s.io.finish operation outcome = some io → Idle { s with io } := by
    intro operation outcome io hfinish hstopped
    obtain ⟨-, -, -, hio⟩ := hidle hstopped
    rw [hio] at hfinish
    cases hfinish
  cases event with
  | start surroundings configuration =>
      obtain ⟨u, hstart⟩ := step_start_eq_some.1 hstep
      exact hactive (start_sound h.toPlaced hstart).2.1
  | ensureStarted =>
      obtain rfl := Option.some.inj hstep
      refine hactive ?_
      rw [ensureStarted]
      split
      · assumption
      · rfl
  | addWriterGroup socket ownerTag publisherIdType publisherId group =>
      obtain rfl := Option.some.inj hstep
      exact idle_left hidle
        (agrees_addDynamicWriterGroup h.addressed socket ownerTag publisherIdType publisherId group)
        fun e hadd => running_addDynamicWriterGroup hadd
  | addReader socket ownerTag reader =>
      obtain rfl := Option.some.inj hstep
      exact idle_left hidle (agrees_addDynamicReader s socket ownerTag reader)
        fun e hadd => running_addDynamicReader hadd
  | remove ownerTag =>
      obtain rfl := Option.some.inj hstep
      rcases hrunning : s.running with _ | _
      · change Idle (removeDynamic s ownerTag)
        rw [removeDynamic, hrunning, Bool.not_false, if_pos rfl]
        exact hidle
      · refine hactive ?_
        change (removeDynamic s ownerTag).engine.running = true
        rw [engine_removeDynamic, running_removeDynamic]
        exact hrunning
  | shutdown =>
      obtain rfl := Option.some.inj hstep
      change Idle (shutdown s)
      rcases shutdown_cases s with
        ⟨-, heq⟩ | ⟨-, -, hwriterGroups, hreceivers, hreaders, hio, -, -⟩
      · rw [heq]
        exact hidle
      · exact fun _ => ⟨hwriterGroups, hreceivers, hreaders, hio⟩
  | expire group =>
      simp only [step, act, Option.map_map, Option.map_eq_some_iff] at hstep
      obtain ⟨io, hfinish, rfl⟩ := hstep
      exact hquiet _ _ io hfinish
  | fail receiver =>
      simp only [step, act, Option.map_map, Option.map_eq_some_iff] at hstep
      obtain ⟨io, hfinish, rfl⟩ := hstep
      exact hquiet _ _ io hfinish
  | arrive receiver data =>
      simp only [step, act, Option.map_map, Option.map_eq_some_iff] at hstep
      obtain ⟨io, hfinish, rfl⟩ := hstep
      exact hquiet _ _ io hfinish
  | complete position moment =>
      simp only [step, act, Option.map_map, Option.map_eq_some_iff] at hstep
      obtain ⟨⟨completion, io⟩, htake, rfl⟩ := hstep
      intro hstopped
      change (complete { s with io } moment completion).1.running = false at hstopped
      rw [running_complete] at hstopped
      obtain ⟨-, -, -, hio⟩ := hidle hstopped
      rw [hio] at htake
      cases htake

theorem sound_initial : Sound .initial := by
  refine ⟨⟨List.nodup_nil, ?_, ?_, ?_⟩, ?_, ?_⟩
  · simp [State.initial]
  · simp [State.initial]
  · intro operation hmentions
    simp [State.initial, IoContext.Mentions, IoContext.empty] at hmentions
  · simp [State.initial]
  · simp [State.initial]

/-- Every run of the io thread is, on the tables, a run of the engine. -/
theorem run_sound {events : List Event} (hrun : run step .initial events = some s) :
    Sound s ∧ Idle s ∧ ∃ tableRun, run advance initial tableRun = some s.engine := by
  refine run_invariant (I := fun s => Sound s ∧ Idle s ∧
    ∃ tableRun, run advance initial tableRun = some s.engine) ?_ ?_ hrun
  · rintro s event s' ⟨h, hidle, tableRun, htable⟩ hstep
    obtain ⟨h', hengine⟩ := step_sound h hidle hstep
    exact ⟨h', idle_step h hidle hstep, tableRun ++ tableEvents s event,
      (run_append htable).trans hengine⟩
  · exact ⟨sound_initial, fun _ => ⟨rfl, rfl, rfl, rfl⟩, [], rfl⟩

end Steps

end IoThread

end PubSub

end Supernova
