/-
Starting the engine from a staged configuration, and its runs: what is built in
which order, and the calls, cycles and datagrams that follow.
-/
import Mathlib
import Supernova.PubSubPublishing
import Supernova.Trace

namespace Supernova

namespace PubSub

/-- What the engine finds when it starts: the nodes of the address space, each
with its cache variable if it is one, and the sockets that cannot be opened. -/
structure Surroundings where
  node : Bytes → Option (Option Nat)
  transmitter : UdpTransmitter → Option Bytes
  receiver : ReceiverKey → Option Bytes

/-- A start that fails leaves what it has built so far. -/
abbrev Start := EStateM Bytes Engine

/-- The key that a reader is looked up by. -/
def ReaderRuntime.key (reader : ReaderRuntime) : ReaderKey :=
  ⟨reader.publisherId, reader.writerGroupId, reader.dataSetWriterId⟩

def resolveVariable (surroundings : Surroundings) (address : Bytes) : Except Bytes Nat :=
  match surroundings.node address with
  | none => throw (text "PubSub: address '" ++ address ++
      text "' does not exist in the address space")
  | some none => throw (text "PubSub: address '" ++ address ++ text "' is not a cache variable")
  | some (some v) => pure v

/-- A part of the start that changes nothing. -/
def lifted {α : Type} (result : Except Bytes α) : Start α :=
  match result with
  | .error error => throw error
  | .ok a => pure a

def writerRuntime (surroundings : Surroundings) (writer : DataSetWriterConfig) :
    Except Bytes WriterRuntime := do
  let fieldVariables ← writer.fields.mapM (resolveVariable surroundings)
  pure { id := writer.id, sequenceNumber := 0, fieldVariables }

def openTransmitter (surroundings : Surroundings) (transmitter : UdpTransmitter) :
    Except Bytes UdpTransmitter :=
  match surroundings.transmitter transmitter with
  | some error => throw error
  | none => pure transmitter

def groupRuntime (surroundings : Surroundings) (configuration : Configuration)
    (connection : ConnectionConfig) (group : WriterGroupConfig) :
    Except Bytes WriterGroupRuntime := do
  let transmitter ← openTransmitter surroundings
    ⟨connection.host, connection.port, connection.ttl, connection.loopback⟩
  let writers ← group.writers.mapM (writerRuntime surroundings)
  pure
    { id := group.id
      publishingIntervalMs := group.publishingIntervalMs
      sequenceNumber := 0
      publisherIdType := configuration.publisherIdType
      publisherId := configuration.publisherId
      ownerTag := []
      transmitter
      writers }

/-- One turn of the group loop of `buildRuntimes`. -/
def buildWriterGroup (surroundings : Surroundings) (configuration : Configuration)
    (connection : ConnectionConfig) (group : WriterGroupConfig) : Start Unit := do
  let runtime ← lifted (groupRuntime surroundings configuration connection group)
  modify fun e => { e with writerGroups := e.writerGroups ++ [runtime] }

/-- One turn of the reader loop; the reader is in the table before its receiver
is opened. -/
def buildReader (surroundings : Surroundings) (connection : ConnectionConfig)
    (reader : DataSetReaderConfig) : Start Unit := do
  let targets ← lifted (reader.targets.mapM (resolveVariable surroundings))
  let key : ReaderKey := ⟨reader.publisherId, reader.writerGroupId, reader.dataSetWriterId⟩
  let e ← get
  if e.readers.contains key then
    throw (text "PubSub: duplicate DataSetReader (publisherId/writerGroupId/dataSetWriterId)")
  else do
    let runtime : ReaderRuntime :=
      { publisherIdType := reader.publisherIdType
        publisherId := reader.publisherId
        writerGroupId := reader.writerGroupId
        dataSetWriterId := reader.dataSetWriterId
        ownerTag := []
        host := connection.host
        port := connection.port
        targets
        onFirstData := none
        firstDataSignalled := false
        dataSeen := false }
    set { e with readers := e.readers.assign key runtime }
    let endpoint : ReceiverKey := ⟨connection.host, connection.port⟩
    let receivers ← lifted
      (acquireReceiver e.receivers (surroundings.receiver endpoint) endpoint)
    modify fun e => { e with receivers := receivers }

def buildConnection (surroundings : Surroundings) (configuration : Configuration)
    (connection : ConnectionConfig) : Start Unit := do
  connection.writerGroups.forM (buildWriterGroup surroundings configuration connection)
  connection.readers.forM (buildReader surroundings connection)

def buildRuntimes (surroundings : Surroundings) (configuration : Configuration) : Start Unit :=
  configuration.connections.forM (buildConnection surroundings configuration)

/-- `startIfStaged` with this configuration staged. -/
def startStaged (surroundings : Surroundings) (configuration : Configuration) : Start Unit := do
  let e ← get
  if e.running then throw (text "PubSub: engine is already running")
  else do
    buildRuntimes surroundings configuration
    modify fun e => { e with running := true }

def ensureStarted (e : Engine) : Engine :=
  { e with running := true }

/-- The state that a call leaves behind, whether it returned or threw. -/
def after {α : Type} (result : EStateM.Result Bytes Engine α) : Engine :=
  match result with
  | .ok _ e => e
  | .error _ e => e

/-- A call that throws changes nothing. -/
def unlessRefused (e : Engine) (result : Except Bytes Engine) : Engine :=
  match result with
  | .error _ => e
  | .ok e' => e'

/-- What happens to the engine, with the outcome of what lies outside it. -/
inductive Event where
  | start (surroundings : Surroundings) (configuration : Configuration)
  | ensureStarted
  | addWriterGroup (socket : Option Bytes) (ownerTag : Bytes)
      (publisherIdType : PublisherIdType) (publisherId : UInt64) (group : DynamicWriterGroup)
  | addReader (socket : Option Bytes) (ownerTag : Bytes) (reader : DynamicReader)
  | remove (ownerTag : Bytes)
  | timer (group : Nat) (sample : Nat → Nat → Nat → Option UaVariant)
  | receive (endpoint : ReceiverKey) (signalled : Nat → Bool) (data : Bytes)
  | shutdown

/-- The timer of the group at a position completes. -/
def timerCompleted (e : Engine) (group : Nat) (sample : Nat → Nat → Nat → Option UaVariant) :
    Engine :=
  { e with writerGroups := e.writerGroups.modify group fun runtime =>
      (publishGroup sample runtime).1 }

def handle (e : Engine) : Event → Engine
  | .start surroundings configuration => after (startStaged surroundings configuration e)
  | .ensureStarted => ensureStarted e
  | .addWriterGroup socket ownerTag publisherIdType publisherId group =>
      unlessRefused e
        (addDynamicWriterGroup e socket ownerTag publisherIdType publisherId group)
  | .addReader socket ownerTag reader =>
      unlessRefused e (addDynamicReader e socket ownerTag reader)
  | .remove ownerTag => removeDynamic e ownerTag
  | .timer group sample => timerCompleted e group sample
  | .receive endpoint signalled data => (PubSub.receive e endpoint signalled data).1
  | .shutdown => shutdown e

def initial : Engine := ⟨false, [], .empty, .empty⟩

/-- Whether a step of the start succeeds or fails, it keeps `I`. -/
def Preserves {α : Type} (I : Engine → Prop) (p : Start α) : Prop :=
  ∀ e, I e → I (after (p e))

section Preserves

variable {α β : Type} {I : Engine → Prop}

theorem Preserves.bind {p : Start α} {f : α → Start β} (hp : Preserves I p)
    (hf : ∀ a, Preserves I (f a)) : Preserves I (p >>= f) := by
  intro e he
  have h := hp e he
  change I (after (EStateM.bind p f e))
  rw [EStateM.bind]
  rcases hrun : p e with ⟨a, e'⟩ | ⟨error, e'⟩
  · rw [hrun] at h
    exact hf a e' h
  · rw [hrun] at h
    exact h

theorem preserves_lifted (result : Except Bytes α) : Preserves I (lifted result) := by
  intro e he
  cases result <;> exact he

theorem Preserves.forM {f : α → Start PUnit} {as : List α}
    (hf : ∀ a ∈ as, Preserves I (f a)) : Preserves I (as.forM f) := by
  induction as with
  | nil => exact fun e he => he
  | cons a as ih =>
      rw [List.forall_mem_cons] at hf
      exact hf.1.bind fun _ => ih hf.2

end Preserves

section BuildRuntimes

variable {I : Engine → Prop} {surroundings : Surroundings} {configuration : Configuration}

theorem preserves_buildWriterGroup {connection : ConnectionConfig} {group : WriterGroupConfig}
    (h : ∀ e runtime, I e → groupRuntime surroundings configuration connection group =
      .ok runtime → I { e with writerGroups := e.writerGroups ++ [runtime] }) :
    Preserves I (buildWriterGroup surroundings configuration connection group) := by
  intro e he
  rcases hruntime : groupRuntime surroundings configuration connection group with error | runtime
  · simpa [buildWriterGroup, hruntime, lifted, bind, EStateM.bind, throw, throwThe,
      MonadExceptOf.throw, EStateM.throw, after] using he
  · have hkept := h e runtime he hruntime
    simpa [buildWriterGroup, hruntime, lifted, bind, EStateM.bind, pure, EStateM.pure, modify,
      modifyGet, MonadStateOf.modifyGet, EStateM.modifyGet, after] using hkept

theorem preserves_buildReader {connection : ConnectionConfig} {reader : DataSetReaderConfig}
    (hreader : ∀ e (runtime : ReaderRuntime), I e →
      runtime.ownerTag = [] ∧ runtime.onFirstData = none →
      I { e with readers := e.readers.assign runtime.key runtime })
    (hreceivers : ∀ e receivers, I e → I { e with receivers }) :
    Preserves I (buildReader surroundings connection reader) := by
  refine Preserves.bind (preserves_lifted _) fun targets e he => ?_
  by_cases hcontains : e.readers.contains
      ⟨reader.publisherId, reader.writerGroupId, reader.dataSetWriterId⟩ = true
  · simpa [hcontains, bind, EStateM.bind, get, getThe, MonadStateOf.get, EStateM.get, throw,
      throwThe, MonadExceptOf.throw, EStateM.throw, after] using he
  · have hkept := hreader e
      { publisherIdType := reader.publisherIdType
        publisherId := reader.publisherId
        writerGroupId := reader.writerGroupId
        dataSetWriterId := reader.dataSetWriterId
        ownerTag := []
        host := connection.host
        port := connection.port
        targets
        onFirstData := none
        firstDataSignalled := false
        dataSeen := false } he ⟨rfl, rfl⟩
    rcases hacquire : acquireReceiver e.receivers
        (surroundings.receiver ⟨connection.host, connection.port⟩)
        ⟨connection.host, connection.port⟩ with error | receivers
    · simpa [hcontains, hacquire, lifted, bind, EStateM.bind, get, getThe, MonadStateOf.get,
        EStateM.get, set, MonadStateOf.set, EStateM.set, throw, throwThe, MonadExceptOf.throw,
        EStateM.throw, after, ReaderRuntime.key] using hkept
    · simpa [hcontains, hacquire, lifted, bind, EStateM.bind, get, getThe, MonadStateOf.get,
        EStateM.get, set, MonadStateOf.set, EStateM.set, pure, EStateM.pure, modify, modifyGet,
        MonadStateOf.modifyGet, EStateM.modifyGet, after, ReaderRuntime.key]
        using hreceivers _ receivers hkept

/-- What every part of the start keeps, the start keeps. -/
theorem preserves_startStaged
    (hgroup : ∀ e connection group runtime, connection ∈ configuration.connections →
      group ∈ connection.writerGroups → I e →
      groupRuntime surroundings configuration connection group = .ok runtime →
      I { e with writerGroups := e.writerGroups ++ [runtime] })
    (hreader : ∀ e (runtime : ReaderRuntime), I e →
      runtime.ownerTag = [] ∧ runtime.onFirstData = none →
      I { e with readers := e.readers.assign runtime.key runtime })
    (hreceivers : ∀ e receivers, I e → I { e with receivers })
    (hrunning : ∀ e, I e → I { e with running := true }) :
    Preserves I (startStaged surroundings configuration) := by
  have hconnection : ∀ connection ∈ configuration.connections,
      Preserves I (buildConnection surroundings configuration connection) := by
    intro connection hconnection
    have hgroups := Preserves.forM fun group hmem => preserves_buildWriterGroup
      fun e runtime => hgroup e connection group runtime hconnection hmem
    have hreaders : Preserves I
        (connection.readers.forM (buildReader surroundings connection)) :=
      Preserves.forM fun reader _ => preserves_buildReader hreader hreceivers
    exact hgroups.bind fun _ => hreaders
  intro e he
  have hbuilt := Preserves.forM hconnection e he
  by_cases hactive : e.running = true
  · simpa [startStaged, hactive, bind, EStateM.bind, get, getThe, MonadStateOf.get, EStateM.get,
      throw, throwThe, MonadExceptOf.throw, EStateM.throw, after] using he
  · rcases hbuild : buildRuntimes surroundings configuration e with ⟨u, e'⟩ | ⟨error, e'⟩
    · rw [← buildRuntimes, hbuild] at hbuilt
      simpa [startStaged, hactive, hbuild, bind, EStateM.bind, get, getThe, MonadStateOf.get,
        EStateM.get, modify, modifyGet, MonadStateOf.modifyGet, EStateM.modifyGet, after]
        using hrunning e' hbuilt
    · rw [← buildRuntimes, hbuild] at hbuilt
      simpa [startStaged, hactive, hbuild, bind, EStateM.bind, get, getThe, MonadStateOf.get,
        EStateM.get, after] using hbuilt

end BuildRuntimes

theorem groupRuntime_runsAs {surroundings : Surroundings} {configuration : Configuration}
    {connection : ConnectionConfig} {group : WriterGroupConfig} {runtime : WriterGroupRuntime}
    (h : groupRuntime surroundings configuration connection group = .ok runtime) :
    runtime.RunsAs configuration group := by
  obtain ⟨transmitter, -, h⟩ := except_bind_eq_ok.1 h
  obtain ⟨writers, hwriters, h⟩ := except_bind_eq_ok.1 h
  rw [except_pure_eq_ok] at h
  subst h
  refine ⟨rfl, rfl, rfl, rfl, (mapM_eq_ok.1 hwriters).imp ?_⟩
  intro writer runtime hruntime
  obtain ⟨fieldVariables, hfields, hruntime⟩ := except_bind_eq_ok.1 hruntime
  rw [except_pure_eq_ok] at hruntime
  subst hruntime
  exact ⟨rfl, (mapM_eq_ok.1 hfields).length_eq.symm⟩

/-- A cycle changes nothing but sequence numbers. -/
theorem publishGroup_runsAs {configuration : Configuration} {group : WriterGroupConfig}
    {runtime : WriterGroupRuntime} (h : runtime.RunsAs configuration group)
    (sample : Nat → Nat → Nat → Option UaVariant) :
    (publishGroup sample runtime).1.RunsAs configuration group := by
  refine ⟨h.id, h.interval, h.publisherIdType, h.publisherId, ?_⟩
  simp only [publishGroup]
  rw [List.forall₂_map_right_iff]
  exact forall₂_mapIdx h.writers _ fun _ _ _ hwriter => hwriter

/-- The groups that a start on an empty engine brings up are the configured ones. -/
theorem startStaged_runsAs (surroundings : Surroundings) (configuration : Configuration) :
    ∀ runtime ∈ (after (startStaged surroundings configuration initial)).writerGroups,
      ∃ connection ∈ configuration.connections, ∃ group ∈ connection.writerGroups,
        runtime.RunsAs configuration group := by
  apply preserves_startStaged (I := fun e => ∀ runtime ∈ e.writerGroups,
    ∃ connection ∈ configuration.connections, ∃ group ∈ connection.writerGroups,
      runtime.RunsAs configuration group)
  · intro e connection group runtime hconnection hgroup h hruntime runtime' hmem
    rcases List.mem_append.mp hmem with hmem | hmem
    · exact h runtime' hmem
    · rw [List.mem_singleton.mp hmem]
      exact ⟨connection, hconnection, group, hgroup, groupRuntime_runsAs hruntime⟩
  · exact fun e runtime h _ => h
  · exact fun e receivers h => h
  · exact fun e h => h
  · simp [initial]

end PubSub

end Supernova
