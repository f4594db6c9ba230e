/-
The engine on its io thread refines the engine of the tables: each call, and each
handler, does to the tables what the abstract operation does, and an addition
that throws has changed nothing.
-/
import Supernova.PubSubIoThread
import Supernova.PubSubReceivers

namespace Supernova

namespace PubSub

namespace IoThread

/-- A group object by its number. -/
def State.runtime? (s : State) (group : Nat) : Option WriterGroupRuntime :=
  (s.groups[group]?).map (·.runtime)

/-- The use count of a receiver without its object. -/
def ReceiverEntry.shared (entry : ReceiverEntry) : PubSub.ReceiverEntry :=
  ⟨entry.useCount, entry.used⟩

/-- The tables of the engine, without what is under way on the io thread. -/
def State.engine (s : State) : Engine :=
  { running := s.running
    writerGroups := s.writerGroups.filterMap s.runtime?
    receivers := s.receivers.map ReceiverEntry.shared
    readers := s.readers }

/-- The task does to the tables what is expected; if it throws, it has changed
nothing at all. -/
def Agrees (s : State) (result : EStateM.Result Bytes State Unit)
    (expected : Except Bytes Engine) : Prop :=
  match result with
  | .ok _ s' => expected = .ok s'.engine
  | .error error s' => s' = s ∧ expected = .error error

section Frames

variable (s : State) (group receiver : Nat)

@[simp] theorem engine_scheduleGroup : (scheduleGroup s group).engine = s.engine := rfl

@[simp] theorem engine_armReceive : (armReceive s receiver).engine = s.engine := rfl

@[simp] theorem engine_stopReceiver : (stopReceiver s receiver).engine = s.engine := rfl

theorem runtime?_stopGroup (other : Nat) :
    (stopGroup s group).runtime? other = s.runtime? other := by
  simp only [State.runtime?, stopGroup, List.getElem?_modify]
  rcases s.groups[other]? with _ | object
  · rfl
  · simp only [Option.map_some, Option.map_eq_map]
    split <;> rfl

@[simp] theorem engine_stopGroup : (stopGroup s group).engine = s.engine := by
  have hruntimes : (stopGroup s group).runtime? = s.runtime? :=
    funext (runtime?_stopGroup s group)
  simp only [State.engine, hruntimes]
  rfl

end Frames

section Receivers

variable {s : State} {socket : Option Bytes} {endpoint : ReceiverKey} {armImmediately : Bool}

/-- The state with a new receiver object, armed or not. -/
def opened (s : State) (endpoint : ReceiverKey) (armImmediately : Bool) : State :=
  let s' : State := { s with receiverObjects := s.receiverObjects ++ [⟨endpoint, true⟩] }
  if armImmediately then armReceive s' s.receiverObjects.length else s'

/-- A receiver is shared, or cannot be opened, or is new. -/
theorem acquireReceiver_run (s : State) (socket : Option Bytes) (endpoint : ReceiverKey)
    (armImmediately : Bool) :
    (∃ entry, s.receivers.find? endpoint = some entry ∧
      acquireReceiver socket endpoint armImmediately s =
        .ok () (assignReceiver s endpoint
          ⟨entry.receiver, entry.useCount + 1, Nat.succ_pos _⟩)) ∨
    (s.receivers.find? endpoint = none ∧ ∃ error, socket = some error ∧
      acquireReceiver socket endpoint armImmediately s = .error error s) ∨
    (s.receivers.find? endpoint = none ∧ socket = none ∧
      acquireReceiver socket endpoint armImmediately s =
        .ok () (assignReceiver (opened s endpoint armImmediately) endpoint
          ⟨s.receiverObjects.length, 1, Nat.one_pos⟩)) := by
  rcases hfind : s.receivers.find? endpoint with _ | entry
  · rcases socket with _ | error
    · refine .inr (.inr ⟨rfl, rfl, ?_⟩)
      simp only [acquireReceiver, bind, EStateM.bind, get, getThe, MonadStateOf.get, EStateM.get,
        hfind]
      rfl
    · refine .inr (.inl ⟨rfl, error, rfl, ?_⟩)
      simp only [acquireReceiver, bind, EStateM.bind, get, getThe, MonadStateOf.get, EStateM.get,
        hfind]
      rfl
  · refine .inl ⟨entry, rfl, ?_⟩
    simp only [acquireReceiver, bind, EStateM.bind, get, getThe, MonadStateOf.get, EStateM.get,
      hfind]
    rfl

theorem engine_assignReceiver (s : State) (endpoint : ReceiverKey) (entry : ReceiverEntry) :
    (assignReceiver s endpoint entry).engine =
      { s.engine with receivers := s.engine.receivers.assign endpoint entry.shared } := by
  change Engine.mk _ _ _ _ = _
  rw [assignReceiver, OrderedMap.map_assign]
  rfl

theorem engine_opened (s : State) (endpoint : ReceiverKey) (armImmediately : Bool) :
    (opened s endpoint armImmediately).engine = s.engine := by
  rw [opened]
  split <;> rfl

theorem agrees_acquireReceiver (s : State) (socket : Option Bytes) (endpoint : ReceiverKey)
    (armImmediately : Bool) :
    Agrees s (acquireReceiver socket endpoint armImmediately s)
      ((PubSub.acquireReceiver s.engine.receivers socket endpoint).map fun receivers =>
        { s.engine with receivers }) := by
  have hfind : s.engine.receivers.find? endpoint =
      (s.receivers.find? endpoint).map ReceiverEntry.shared :=
    OrderedMap.find?_map _ _ _
  rcases acquireReceiver_run s socket endpoint armImmediately with
    ⟨entry, hentry, hrun⟩ | ⟨hnone, error, rfl, hrun⟩ | ⟨hnone, rfl, hrun⟩
  · rw [hrun]
    simp only [Agrees, engine_assignReceiver, PubSub.acquireReceiver, hfind, hentry,
      Option.map_some]
    rfl
  · rw [hrun]
    simp only [Agrees, PubSub.acquireReceiver, hfind, hnone, Option.map_none]
    exact ⟨trivial, rfl⟩
  · rw [hrun]
    simp only [Agrees, engine_assignReceiver, engine_opened, PubSub.acquireReceiver, hfind, hnone,
      Option.map_none]
    rfl

theorem engine_releaseReceiver (s : State) (endpoint : ReceiverKey) :
    (releaseReceiver s endpoint).engine =
      { s.engine with
        receivers := PubSub.releaseReceiver s.engine.receivers endpoint } := by
  have hfind : s.engine.receivers.find? endpoint =
      (s.receivers.find? endpoint).map ReceiverEntry.shared :=
    OrderedMap.find?_map _ _ _
  rw [releaseReceiver, PubSub.releaseReceiver, hfind]
  rcases s.receivers.find? endpoint with _ | entry
  · rfl
  · simp only [Option.map_some]
    by_cases hused : 0 < entry.useCount - 1
    · have hshared : 0 < entry.shared.useCount - 1 := hused
      rw [dif_pos hused, dif_pos hshared, engine_assignReceiver]
      rfl
    · have hshared : ¬ 0 < entry.shared.useCount - 1 := hused
      rw [dif_neg hused, dif_neg hshared]
      change Engine.mk _ _ _ _ = _
      rw [OrderedMap.map_erase]
      rfl

end Receivers

section DynamicEntities

variable {s : State} {socket : Option Bytes} {ownerTag : Bytes}

/-- The state with a new group in the table, its timer set. -/
def added (s : State) (runtime : WriterGroupRuntime) : State :=
  scheduleGroup
    (pushWriterGroup { s with groups := s.groups ++ [⟨runtime, false⟩] } s.groups.length)
    s.groups.length

theorem any_active (s : State) (publisherIdType : PublisherIdType) (publisherId : UInt64)
    (id : UInt16) :
    s.writerGroups.any (active s publisherIdType publisherId id) =
      s.engine.writerGroups.any (collides publisherIdType publisherId id) := by
  rw [State.engine, List.any_filterMap]
  refine congrArg s.writerGroups.any (funext fun group => ?_)
  rw [active, State.runtime?]
  cases s.groups[group]? <;> rfl

/-- The task throws exactly what the abstract operation throws, before it has
changed anything. -/
theorem addDynamicWriterGroup_eq (s : State) (socket : Option Bytes) (ownerTag : Bytes)
    (publisherIdType : PublisherIdType) (publisherId : UInt64) (group : DynamicWriterGroup) :
    addDynamicWriterGroup socket ownerTag publisherIdType publisherId group s =
      match PubSub.addDynamicWriterGroup s.engine socket ownerTag publisherIdType publisherId
        group with
      | .error error => .error error s
      | .ok _ => .ok () (added s (newWriterGroup ownerTag publisherIdType publisherId group)) := by
  have hrunning : s.engine.running = s.running := rfl
  simp only [addDynamicWriterGroup, PubSub.addDynamicWriterGroup, bind, EStateM.bind, get, getThe,
    MonadStateOf.get, EStateM.get, hrunning, ← any_active]
  split
  · rfl
  split
  · rfl
  split
  · rfl
  split
  · rfl
  · cases socket <;> rfl

theorem addDynamicReader_eq (s : State) (socket : Option Bytes) (ownerTag : Bytes)
    (reader : DynamicReader) :
    addDynamicReader socket ownerTag reader s =
      match PubSub.addDynamicReader s.engine socket ownerTag reader with
      | .error error => .error error s
      | .ok _ =>
          match acquireReceiver socket ⟨reader.host, reader.port⟩ true s with
          | .error error _ => .error error s
          | .ok _ s' => .ok () { s' with
              readers := s'.readers.assign reader.key (newReader ownerTag reader) } := by
  have hrunning : s.engine.running = s.running := rfl
  have hreaders : s.engine.readers = s.readers := rfl
  have hacquire := agrees_acquireReceiver s socket ⟨reader.host, reader.port⟩ true
  simp only [addDynamicReader, PubSub.addDynamicReader, bind, EStateM.bind, get, getThe,
    MonadStateOf.get, EStateM.get, hrunning, hreaders]
  split
  · rfl
  split
  · rfl
  split
  · rfl
  · rcases hrun : acquireReceiver socket ⟨reader.host, reader.port⟩ true s with
      ⟨u, s'⟩ | ⟨error, s'⟩
    · rw [hrun] at hacquire
      rcases hreceivers : PubSub.acquireReceiver s.engine.receivers socket
          ⟨reader.host, reader.port⟩ with error | receivers
      · rw [hreceivers] at hacquire
        cases hacquire
      · simp only [EStateM.bind, hrun]
        rfl
    · rw [hrun] at hacquire
      obtain ⟨rfl, hacquire⟩ := hacquire
      rcases hreceivers : PubSub.acquireReceiver s'.engine.receivers socket
          ⟨reader.host, reader.port⟩ with error' | receivers
      · rw [hreceivers] at hacquire
        obtain rfl := Except.error.inj hacquire
        simp only [EStateM.bind, hrun]
        rfl
      · rw [hreceivers] at hacquire
        cases hacquire

end DynamicEntities

section Committing

/-- What is in the table of writer groups has been created. -/
def Addressed (s : State) : Prop :=
  ∀ group ∈ s.writerGroups, group < s.groups.length

/-- A new group takes its place at the end of the table. -/
theorem engine_pushWriterGroup {s : State} (h : Addressed s) (runtime : WriterGroupRuntime) :
    (pushWriterGroup { s with groups := s.groups ++ [⟨runtime, false⟩] }
      s.groups.length).engine =
      { s.engine with writerGroups := s.engine.writerGroups ++ [runtime] } := by
  have hold : ∀ group ∈ s.writerGroups, ((s.groups ++ [(⟨runtime, false⟩ : GroupObject)])[group]?).map
      (·.runtime) = s.runtime? group := by
    intro group hgroup
    rw [List.getElem?_append_left (h group hgroup), State.runtime?]
  have hnew : ((s.groups ++ [(⟨runtime, false⟩ : GroupObject)])[s.groups.length]?).map (·.runtime) =
      some runtime := by
    simp
  change Engine.mk _ ((s.writerGroups ++ [s.groups.length]).filterMap
    fun group => ((s.groups ++ [(⟨runtime, false⟩ : GroupObject)])[group]?).map (·.runtime)) _ _ = _
  rw [List.filterMap_append, List.filterMap_congr hold]
  simp only [List.filterMap_cons, hnew, List.filterMap_nil]
  rfl

theorem agrees_addDynamicWriterGroup {s : State} (h : Addressed s) (socket : Option Bytes)
    (ownerTag : Bytes) (publisherIdType : PublisherIdType) (publisherId : UInt64)
    (group : DynamicWriterGroup) :
    Agrees s (addDynamicWriterGroup socket ownerTag publisherIdType publisherId group s)
      (PubSub.addDynamicWriterGroup s.engine socket ownerTag publisherIdType publisherId
        group) := by
  rw [addDynamicWriterGroup_eq]
  rcases hadd : PubSub.addDynamicWriterGroup s.engine socket ownerTag publisherIdType publisherId
      group with error | e'
  · exact ⟨rfl, rfl⟩
  · obtain ⟨-, rfl⟩ := addDynamicWriterGroup_eq_ok.1 hadd
    change Except.ok _ = Except.ok (added s _).engine
    rw [added, engine_scheduleGroup, engine_pushWriterGroup h]

theorem agrees_addDynamicReader (s : State) (socket : Option Bytes) (ownerTag : Bytes)
    (reader : DynamicReader) :
    Agrees s (addDynamicReader socket ownerTag reader s)
      (PubSub.addDynamicReader s.engine socket ownerTag reader) := by
  rw [addDynamicReader_eq]
  rcases hadd : PubSub.addDynamicReader s.engine socket ownerTag reader with error | e'
  · exact ⟨rfl, rfl⟩
  · obtain ⟨-, receivers, hreceivers, rfl⟩ := addDynamicReader_eq_ok.1 hadd
    have hacquire := agrees_acquireReceiver s socket ⟨reader.host, reader.port⟩ true
    rw [hreceivers] at hacquire
    rcases hrun : acquireReceiver socket ⟨reader.host, reader.port⟩ true s with
      ⟨u, s'⟩ | ⟨error, s'⟩
    · rw [hrun] at hacquire
      have hengine : { s.engine with receivers } = s'.engine := Except.ok.inj hacquire
      change Except.ok _ = Except.ok (Engine.mk s'.engine.running s'.engine.writerGroups
        s'.engine.receivers (s'.engine.readers.assign reader.key (newReader ownerTag reader)))
      rw [← hengine]
    · rw [hrun] at hacquire
      cases hacquire.2

end Committing

section Removal

variable {ownerTag : Bytes}

/-- The group object was added under the tag. -/
def State.owned (s : State) (ownerTag : Bytes) (group : Nat) : Bool :=
  (s.runtime? group).any fun runtime => runtime.ownerTag = ownerTag

theorem removeGroup_of_owned {s : State} {group : Nat} (h : s.owned ownerTag group = true) :
    removeGroup ownerTag s group =
      { stopGroup s group with
        writerGroups := s.writerGroups.filter fun other => other ≠ group } := by
  rw [removeGroup, if_pos]
  rw [State.owned, State.runtime?, Option.any_map] at h
  exact h

theorem removeGroup_of_not_owned {s : State} {group : Nat} (h : s.owned ownerTag group = false) :
    removeGroup ownerTag s group = s := by
  rw [removeGroup, if_neg]
  rw [State.owned, State.runtime?, Option.any_map] at h
  simpa using h

/-- What the group loop leaves of the tables. -/
theorem foldl_removeGroup (ownerTag : Bytes) (groups : List Nat) (s : State) :
    (∀ group, (groups.foldl (removeGroup ownerTag) s).runtime? group = s.runtime? group) ∧
      (groups.foldl (removeGroup ownerTag) s).writerGroups =
        s.writerGroups.filter (fun group => !(groups.contains group && s.owned ownerTag group)) ∧
      (groups.foldl (removeGroup ownerTag) s).running = s.running ∧
      (groups.foldl (removeGroup ownerTag) s).receiverObjects = s.receiverObjects ∧
      (groups.foldl (removeGroup ownerTag) s).receivers = s.receivers ∧
      (groups.foldl (removeGroup ownerTag) s).readers = s.readers := by
  induction groups generalizing s with
  | nil => simp
  | cons group groups ih =>
      rw [List.foldl_cons]
      rcases howned : s.owned ownerTag group with _ | _
      · rw [removeGroup_of_not_owned howned]
        obtain ⟨hruntimes, hgroups, hrest⟩ := ih s
        refine ⟨hruntimes, ?_, hrest⟩
        rw [hgroups]
        refine List.filter_congr fun other _ => ?_
        by_cases hother : other = group
        · simp [hother, howned]
        · simp [hother]
      · rw [removeGroup_of_owned howned]
        obtain ⟨hruntimes, hgroups, hrest⟩ := ih { stopGroup s group with
          writerGroups := s.writerGroups.filter fun other => other ≠ group }
        have hkept : ∀ other, State.runtime? { stopGroup s group with
            writerGroups := s.writerGroups.filter fun other => other ≠ group } other =
              s.runtime? other := runtime?_stopGroup s group
        refine ⟨fun other => (hruntimes other).trans (hkept other), ?_, hrest⟩
        rw [hgroups, List.filter_filter]
        refine List.filter_congr fun other _ => ?_
        rw [State.owned, hkept, ← State.owned]
        by_cases hother : other = group
        · simp [hother, howned]
        · simp [hother]

theorem engine_foldl_removeGroup (s : State) :
    (s.writerGroups.foldl (removeGroup ownerTag) s).engine =
      { s.engine with
        writerGroups := s.engine.writerGroups.filter fun group => group.ownerTag ≠ ownerTag } := by
  obtain ⟨hruntimes, hgroups, hrunning, -, hreceivers, hreaders⟩ :=
    foldl_removeGroup ownerTag s.writerGroups s
  have htable : (s.writerGroups.filter fun group =>
        !(s.writerGroups.contains group && s.owned ownerTag group)).filterMap s.runtime? =
      (s.writerGroups.filterMap s.runtime?).filter fun group => group.ownerTag ≠ ownerTag := by
    rw [List.filterMap_filter, List.filter_filterMap]
    refine List.filterMap_congr fun group hgroup => ?_
    rw [List.contains_iff_mem.mpr hgroup, State.owned]
    rcases s.runtime? group with _ | runtime
    · simp
    · by_cases htag : runtime.ownerTag = ownerTag
      · simp [htag, Option.filter]
      · simp [htag, Option.filter]
  rw [State.engine, funext hruntimes, hgroups, hrunning, hreceivers, hreaders, htable]
  rfl

theorem engine_removeReader (s : State) (entry : ReaderKey × ReaderRuntime) :
    (removeReader ownerTag s entry).engine = PubSub.removeReader ownerTag s.engine entry := by
  rw [removeReader, PubSub.removeReader]
  split
  · change Engine.mk (releaseReceiver s entry.2.endpoint).engine.running
      (releaseReceiver s entry.2.endpoint).engine.writerGroups
      (releaseReceiver s entry.2.endpoint).engine.receivers
      ((releaseReceiver s entry.2.endpoint).engine.readers.erase entry.1) = _
    rw [engine_releaseReceiver]
  · rfl

theorem engine_foldl_removeReader (entries : List (ReaderKey × ReaderRuntime)) (s : State) :
    (entries.foldl (removeReader ownerTag) s).engine =
      entries.foldl (PubSub.removeReader ownerTag) s.engine :=
  (List.foldl_hom State.engine fun s entry => (engine_removeReader s entry).symm).symm

theorem engine_removeDynamic (s : State) (ownerTag : Bytes) :
    (removeDynamic s ownerTag).engine = PubSub.removeDynamic s.engine ownerTag := by
  have hrunning : s.engine.running = s.running := rfl
  have hreaders : s.engine.readers = s.readers := rfl
  rw [removeDynamic, PubSub.removeDynamic, hrunning, hreaders]
  split
  · rfl
  · rw [engine_foldl_removeReader, engine_foldl_removeGroup]
    rfl

end Removal

end IoThread

end PubSub

end Supernova
