/-
The wire coordinates of the active writer groups.  A dynamic addition compares
them with those of every active group; the start from a configuration does not,
so they are distinct when the configured group ids are.
-/
import Supernova.PubSubReceivers

namespace Supernova

attribute [local semireducible] ByteArray.toList.loop

namespace PubSub

/-- What a subscriber tells a writer group by. -/
structure WireCoordinates where
  publisherIdType : PublisherIdType
  publisherId : UInt64
  writerGroupId : UInt16
deriving DecidableEq, Repr

def WriterGroupRuntime.coordinates (group : WriterGroupRuntime) : WireCoordinates :=
  ⟨group.publisherIdType, group.publisherId, group.id⟩

def activeCoordinates (e : Engine) : List WireCoordinates :=
  e.writerGroups.map WriterGroupRuntime.coordinates

/-- No two active writer groups share their wire coordinates. -/
def DistinctCoordinates (e : Engine) : Prop :=
  (activeCoordinates e).Nodup

/-- The ids of the configured writer groups, over all connections. -/
def Configuration.groupIds (configuration : Configuration) : List UInt16 :=
  configuration.connections.flatMap fun connection => connection.writerGroups.map (·.id)

/-- A start is from a configuration whose writer groups have distinct ids. -/
def Event.DistinctGroupIds : Event → Prop
  | .start _ configuration => configuration.groupIds.Nodup
  | _ => True

section Building

variable {surroundings : Surroundings} {configuration : Configuration} {e e' : Engine} {u : Unit}

theorem coordinates_buildWriterGroup {connection : ConnectionConfig} {group : WriterGroupConfig}
    (h : buildWriterGroup surroundings configuration connection group e = .ok u e') :
    activeCoordinates e' =
      activeCoordinates e ++
        [⟨configuration.publisherIdType, configuration.publisherId, group.id⟩] := by
  obtain ⟨runtime, hgroup, rfl⟩ := eq_of_buildWriterGroup h
  have hruns := groupRuntime_runsAs hgroup
  rw [activeCoordinates, List.map_append, List.map_singleton,
    WriterGroupRuntime.coordinates, hruns.publisherIdType, hruns.publisherId, hruns.id]
  rfl

theorem writerGroups_buildReader {connection : ConnectionConfig} {reader : DataSetReaderConfig}
    (h : buildReader surroundings connection reader e = .ok u e') :
    e'.writerGroups = e.writerGroups := by
  obtain ⟨key, runtime, receivers, -, -, -, rfl⟩ := eq_of_buildReader h
  rfl

theorem coordinates_buildConnection {connection : ConnectionConfig}
    (h : buildConnection surroundings configuration connection e = .ok u e') :
    activeCoordinates e' =
      activeCoordinates e ++
        connection.writerGroups.map fun group =>
          ⟨configuration.publisherIdType, configuration.publisherId, group.id⟩ := by
  obtain ⟨u₁, e₁, hgroups, hreaders⟩ := estate_bind_eq_ok.1 h
  have hkept : e'.writerGroups = e₁.writerGroups :=
    forM_keeps (I := fun e => e.writerGroups = e₁.writerGroups)
      (fun _ _ _ _ _ h hbuild => (writerGroups_buildReader hbuild).trans h) rfl hreaders
  have hadded : activeCoordinates e₁ =
      activeCoordinates e ++
        connection.writerGroups.flatMap fun group =>
          [⟨configuration.publisherIdType, configuration.publisherId, group.id⟩] :=
    forM_appends (fun _ _ _ _ _ h => coordinates_buildWriterGroup h) hgroups
  rw [activeCoordinates, hkept, ← activeCoordinates, hadded, List.map_eq_flatMap]

theorem coordinates_startStaged (h : startStaged surroundings configuration e = .ok u e') :
    e.running = false ∧ e'.running = true ∧
      activeCoordinates e' =
        activeCoordinates e ++
          configuration.groupIds.map fun id =>
            ⟨configuration.publisherIdType, configuration.publisherId, id⟩ := by
  obtain ⟨hstopped, u₁, e₁, hbuild, rfl⟩ := eq_of_startStaged h
  have hadded : activeCoordinates e₁ =
      activeCoordinates e ++
        configuration.connections.flatMap fun connection =>
          connection.writerGroups.map fun group =>
            ⟨configuration.publisherIdType, configuration.publisherId, group.id⟩ :=
    forM_appends (fun _ _ _ _ _ h => coordinates_buildConnection h) hbuild
  refine ⟨hstopped, rfl, ?_⟩
  change activeCoordinates e₁ = _
  rw [hadded, Configuration.groupIds, List.map_flatMap]
  simp only [List.map_map, Function.comp_def]

end Building

section Steps

variable {e e' : Engine} {event : Event}

/-- What the operations need to keep the coordinates distinct: an engine that does not
run has no groups. -/
structure Tidy (e : Engine) : Prop where
  distinct : DistinctCoordinates e
  stopped : e.running = false → e.writerGroups = []

theorem collides_iff (publisherIdType : PublisherIdType) (publisherId : UInt64) (id : UInt16)
    (group : WriterGroupRuntime) : collides publisherIdType publisherId id group = true ↔
      group.coordinates = ⟨publisherIdType, publisherId, id⟩ := by
  simp only [collides, Bool.and_eq_true, decide_eq_true_eq, WriterGroupRuntime.coordinates,
    WireCoordinates.mk.injEq]
  tauto

theorem distinct_addDynamicWriterGroup {socket : Option Bytes} {ownerTag : Bytes}
    {publisherIdType : PublisherIdType} {publisherId : UInt64} {group : DynamicWriterGroup}
    (h : DistinctCoordinates e)
    (hadd : addDynamicWriterGroup e socket ownerTag publisherIdType publisherId group = .ok e') :
    DistinctCoordinates e' := by
  obtain ⟨⟨-, -, -, hfree, -⟩, rfl⟩ := addDynamicWriterGroup_eq_ok.1 hadd
  rw [DistinctCoordinates, activeCoordinates, List.map_append, List.nodup_append]
  refine ⟨h, List.nodup_singleton _, ?_⟩
  intro coordinates hmem coordinates' hmem' heq
  obtain ⟨other, hother, rfl⟩ := List.mem_map.mp hmem
  rw [List.map_singleton, List.mem_singleton] at hmem'
  have hcollides := (collides_iff publisherIdType publisherId group.id other).mpr
    (heq.trans hmem')
  rw [hfree other hother] at hcollides
  cases hcollides

theorem coordinates_timerCompleted (e : Engine) (group : Nat)
    (sample : Nat → Nat → Nat → Option UaVariant) :
    activeCoordinates (timerCompleted e group sample) =
      activeCoordinates e := by
  apply List.ext_getElem?
  intro i
  simp only [activeCoordinates, timerCompleted, List.getElem?_map, List.getElem?_modify]
  split
  · rcases e.writerGroups[i]? with _ | runtime <;> rfl
  · simp

theorem writerGroups_receive (e : Engine) (endpoint : ReceiverKey) (signalled : Nat → Bool)
    (data : Bytes) : (receive e endpoint signalled data).1.writerGroups = e.writerGroups ∧
      (receive e endpoint signalled data).1.running = e.running := by
  unfold receive
  split
  · unfold handleDatagram
    split <;> exact ⟨rfl, rfl⟩
  · exact ⟨rfl, rfl⟩

/-- Every step but a start from colliding ids keeps the coordinates distinct. -/
theorem tidy_advance (h : Tidy e) (hevent : event.DistinctGroupIds)
    (hstep : advance e event = some e') : Tidy e' := by
  cases event with
  | start surroundings configuration =>
      obtain ⟨u, hstart⟩ := advance_start_eq_some.1 hstep
      obtain ⟨hstopped, hrunning, hadded⟩ := coordinates_startStaged hstart
      refine ⟨?_, fun hnot => by rw [hrunning] at hnot; cases hnot⟩
      rw [DistinctCoordinates, hadded, activeCoordinates, h.stopped hstopped, List.map_nil,
        List.nil_append]
      refine List.Nodup.map ?_ hevent
      intro id id' heq
      exact congrArg WireCoordinates.writerGroupId heq
  | ensureStarted =>
      obtain rfl := Option.some.inj hstep
      exact ⟨h.distinct, fun hnot => by cases hnot⟩
  | addWriterGroup socket ownerTag publisherIdType publisherId group =>
      obtain rfl := Option.some.inj hstep
      refine keeps_unlessRefused (I := Tidy) h fun e₁ hadd => ?_
      refine ⟨distinct_addDynamicWriterGroup h.distinct hadd, fun hnot => ?_⟩
      rw [running_addDynamicWriterGroup hadd] at hnot
      cases hnot
  | addReader socket ownerTag reader =>
      obtain rfl := Option.some.inj hstep
      refine keeps_unlessRefused (I := Tidy) h fun e₁ hadd => ?_
      obtain ⟨-, receivers, -, rfl⟩ := addDynamicReader_eq_ok.1 hadd
      exact ⟨h.distinct, h.stopped⟩
  | remove ownerTag =>
      obtain rfl := Option.some.inj hstep
      change Tidy (removeDynamic e ownerTag)
      cases hrunning : e.running with
      | false =>
          rw [removeDynamic_of_not_running hrunning]
          exact h
      | true =>
          refine ⟨?_, fun hnot => ?_⟩
          · rw [DistinctCoordinates, activeCoordinates, writerGroups_removeDynamic hrunning]
            exact h.distinct.sublist (List.filter_sublist.map _)
          · rw [running_removeDynamic, hrunning] at hnot
            cases hnot
  | timer group sample =>
      obtain rfl := Option.some.inj hstep
      refine ⟨?_, fun hnot => ?_⟩
      · change (activeCoordinates (timerCompleted e group sample)).Nodup
        rw [coordinates_timerCompleted]
        exact h.distinct
      · have hnone := coordinates_timerCompleted e group sample
        simp only [activeCoordinates, h.stopped hnot, List.map_nil, List.map_eq_nil_iff] at hnone
        exact hnone
  | receive endpoint signalled data =>
      obtain rfl := Option.some.inj hstep
      obtain ⟨hgroups, hrunning⟩ := writerGroups_receive e endpoint signalled data
      refine ⟨?_, fun hnot => ?_⟩
      · change (List.map _ (receive e endpoint signalled data).1.writerGroups).Nodup
        rw [hgroups]
        exact h.distinct
      · exact hgroups.trans (h.stopped (hrunning ▸ hnot))
  | shutdown =>
      obtain rfl := Option.some.inj hstep
      change Tidy (shutdown e)
      unfold shutdown
      split
      · exact h
      · exact ⟨List.nodup_nil, fun _ => rfl⟩

end Steps

/-- A start from colliding ids leaves two groups with the same coordinates. -/
theorem not_distinct_of_start {e e' : Engine} {event : Event}
    (hevent : ¬ event.DistinctGroupIds) (hstep : advance e event = some e') :
    ¬ DistinctCoordinates e' := by
  cases event with
  | start surroundings configuration =>
      obtain ⟨u, hstart⟩ := advance_start_eq_some.1 hstep
      obtain ⟨-, -, hadded⟩ := coordinates_startStaged hstart
      intro hdistinct
      rw [DistinctCoordinates, hadded] at hdistinct
      exact hevent (List.Nodup.of_map _ (List.nodup_append.mp hdistinct).2.1)
  | _ => exact absurd trivial hevent

/-- The active groups have distinct coordinates in every state of a run exactly when
every start in it is from a configuration with distinct group ids. -/
theorem distinctCoordinates_iff (events : List Event) :
    Throughout advance DistinctCoordinates initial events ↔
      Along advance (fun _ event => event.DistinctGroupIds) initial events := by
  refine throughout_iff_along (I := Tidy) ?_ ?_ ?_ ?_
  · exact fun e event e' h hevent hstep => tidy_advance h hevent hstep
  · exact fun e h => h.distinct
  · exact fun e event e' _ hevent hstep => not_distinct_of_start hevent hstep
  · exact ⟨List.nodup_nil, fun _ => rfl⟩

section Counterexample

/-- A group with one writer of one field, every 100 milliseconds. -/
def sharedIdGroup (writerId : UInt16) : Xsd.PubSubWriterGroup :=
  { id := 1
    publishingIntervalMs := ⟨0x4059000000000000⟩
    dataSetWriter := [
      { id := writerId
        field := [⟨some (text "a.x"), none⟩]
        fields_ne_nil := List.cons_ne_nil _ _ }]
    dataSetWriters_ne_nil := List.cons_ne_nil _ _ }

/-- A section with two writer groups of the same id. -/
def sharedIdSection : Xsd.PubSubSection :=
  { publisherId := 7
    connection := [
      { address := text "opc.udp://239.0.0.5:4840"
        writerGroup := [sharedIdGroup 1, sharedIdGroup 2]
        dataSetReader := [] }] }

def sharedIdConfiguration : Configuration :=
  ⟨.uInt16, 7, [⟨text "239.0.0.5", 4840, 1, true,
    [⟨1, ⟨0x4059000000000000⟩, [⟨1, [text "a.x"]⟩]⟩,
      ⟨1, ⟨0x4059000000000000⟩, [⟨2, [text "a.x"]⟩]⟩], []⟩]⟩

/-- Every node is a cache variable, and every socket opens. -/
def openSurroundings : Surroundings :=
  ⟨fun _ => some (some 0), fun _ => none, fun _ => none⟩

/-- The section is accepted and the engine starts with both groups. -/
theorem sharedId_not_distinct :
    configurationFromXsd sharedIdSection = .ok sharedIdConfiguration ∧
      (∃ e, advance initial (.start openSurroundings sharedIdConfiguration) = some e ∧
        activeCoordinates e = [⟨.uInt16, 7, 1⟩, ⟨.uInt16, 7, 1⟩]) ∧
      ¬ Throughout advance DistinctCoordinates initial
        [.start openSurroundings sharedIdConfiguration] := by
  have hstart : ∃ e, advance initial (.start openSurroundings sharedIdConfiguration) = some e ∧
      activeCoordinates e = [⟨.uInt16, 7, 1⟩, ⟨.uInt16, 7, 1⟩] := ⟨_, rfl, rfl⟩
  refine ⟨by decide, hstart, ?_⟩
  obtain ⟨e, hstep, hactive⟩ := hstart
  intro h
  have hdistinct : (activeCoordinates e).Nodup := by
    simpa [Throughout, hstep, DistinctCoordinates] using h.2
  rw [hactive] at hdistinct
  exact absurd hdistinct (by decide)

end Counterexample

end PubSub

end Supernova
