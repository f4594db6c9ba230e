/-
The PubSub section of a configuration file: the elements that the schema
admits, the configuration of the engine, and the binding from one to the other.
-/
import Supernova.PubSubConfiguration

namespace Supernova

namespace PubSub

namespace Xsd

/-- Where the schema asks for one element or more, as in the writers below, the
list comes with the proof that it is not empty. -/
structure PubSubField where
  source : Option Bytes
  target : Option Bytes
deriving DecidableEq, Repr

structure PubSubDataSetWriter where
  id : UInt16
  field : List PubSubField
  fields_ne_nil : field ≠ []
deriving DecidableEq, Repr

structure PubSubWriterGroup where
  id : UInt16
  publishingIntervalMs : Double
  dataSetWriter : List PubSubDataSetWriter
  dataSetWriters_ne_nil : dataSetWriter ≠ []
deriving DecidableEq, Repr

structure PubSubDataSetReader where
  publisherId : UInt64
  publisherIdType : Bytes := text "UInt16"
  writerGroupId : UInt16
  dataSetWriterId : UInt16
  field : List PubSubField
  fields_ne_nil : field ≠ []
deriving DecidableEq, Repr

structure PubSubConnection where
  address : Bytes
  ttl : UInt8 := 1
  loopback : Bool := true
  writerGroup : List PubSubWriterGroup
  dataSetReader : List PubSubDataSetReader
deriving DecidableEq, Repr

structure PubSubSection where
  publisherId : UInt64
  publisherIdType : Bytes := text "UInt16"
  connection : List PubSubConnection
deriving DecidableEq, Repr

end Xsd

/-- A field is configured by the address of its variable. -/
structure DataSetWriterConfig where
  id : UInt16
  fields : List Bytes
deriving DecidableEq, Repr

structure WriterGroupConfig where
  id : UInt16
  publishingIntervalMs : Double
  writers : List DataSetWriterConfig
deriving DecidableEq, Repr

structure DataSetReaderConfig where
  publisherIdType : PublisherIdType
  publisherId : UInt64
  writerGroupId : UInt16
  dataSetWriterId : UInt16
  targets : List Bytes
deriving DecidableEq, Repr

structure ConnectionConfig where
  host : Bytes
  port : UInt16
  ttl : UInt8
  loopback : Bool
  writerGroups : List WriterGroupConfig
  readers : List DataSetReaderConfig
deriving DecidableEq, Repr

structure Configuration where
  publisherIdType : PublisherIdType
  publisherId : UInt64
  connections : List ConnectionConfig
deriving DecidableEq, Repr

def nonEmptyAddress (address : Bytes) : Except Bytes Bytes :=
  if address.isEmpty then throw (text "PubSub configuration: empty Field address")
  else pure address

def fieldFromXsd (xsd : Xsd.PubSubField) (wantSource : Bool) : Except Bytes Bytes :=
  if wantSource then
    match xsd.source, xsd.target with
    | some source, none => nonEmptyAddress source
    | _, _ => throw (text
        "PubSub configuration: DataSetWriter Fields take a 'source' attribute (and no 'target')")
  else
    match xsd.target, xsd.source with
    | some target, none => nonEmptyAddress target
    | _, _ => throw (text
        "PubSub configuration: DataSetReader Fields take a 'target' attribute (and no 'source')")

/-- One turn of the writer loop of `configurationFromXsd`. -/
def writerFromXsd (xsd : Xsd.PubSubDataSetWriter) : Except Bytes DataSetWriterConfig := do
  let fields ← xsd.field.mapM fun field => fieldFromXsd field true
  pure { id := xsd.id, fields }

/-- One turn of the group loop; a NaN is no interval that is refused. -/
def groupFromXsd (xsd : Xsd.PubSubWriterGroup) : Except Bytes WriterGroupConfig :=
  if xsd.publishingIntervalMs.notPositive then
    throw (text "PubSub configuration: publishingIntervalMs must be positive")
  else do
    let writers ← xsd.dataSetWriter.mapM writerFromXsd
    pure { id := xsd.id, publishingIntervalMs := xsd.publishingIntervalMs, writers }

def readerFromXsd (xsd : Xsd.PubSubDataSetReader) : Except Bytes DataSetReaderConfig := do
  let publisherIdType ← parsePublisherIdType xsd.publisherIdType
  let targets ← xsd.field.mapM fun field => fieldFromXsd field false
  pure
    { publisherIdType
      publisherId := xsd.publisherId
      writerGroupId := xsd.writerGroupId
      dataSetWriterId := xsd.dataSetWriterId
      targets }

def connectionFromXsd (xsd : Xsd.PubSubConnection) : Except Bytes ConnectionConfig := do
  let address ← parseNetworkAddress xsd.address
  let writerGroups ← xsd.writerGroup.mapM groupFromXsd
  let readers ← xsd.dataSetReader.mapM readerFromXsd
  if writerGroups.isEmpty && readers.isEmpty then
    throw (text
      "PubSub configuration: Connection with neither WriterGroups nor DataSetReaders")
  else
    pure
      { host := address.1
        port := address.2
        ttl := xsd.ttl
        loopback := xsd.loopback
        writerGroups
        readers }

def configurationFromXsd (xsd : Xsd.PubSubSection) : Except Bytes Configuration := do
  let publisherIdType ← parsePublisherIdType xsd.publisherIdType
  let connections ← xsd.connection.mapM connectionFromXsd
  if connections.isEmpty then
    throw (text "PubSub configuration: no Connection elements")
  else pure { publisherIdType, publisherId := xsd.publisherId, connections }

/-- What a configured group has whatever the section says: an interval that is
not refused, and writers. -/
structure WriterGroupConfig.Accepted (group : WriterGroupConfig) : Prop where
  interval : group.publishingIntervalMs.notPositive = false
  writers : group.writers ≠ []

theorem accepted_of_groupFromXsd {xsd : Xsd.PubSubWriterGroup} {group : WriterGroupConfig}
    (h : groupFromXsd xsd = .ok group) : group.Accepted := by
  rw [groupFromXsd] at h
  by_cases hinterval : xsd.publishingIntervalMs.notPositive = true
  · simp [hinterval] at h
  · rw [if_neg hinterval] at h
    obtain ⟨writers, hwriters, h⟩ := except_bind_eq_ok.1 h
    rw [except_pure_eq_ok] at h
    subst h
    have hlength := (mapM_eq_ok.1 hwriters).length_eq
    refine ⟨by simpa using hinterval, ?_⟩
    intro hnil
    rw [show writers = [] from hnil, List.length_nil, List.length_eq_zero_iff] at hlength
    exact xsd.dataSetWriters_ne_nil hlength

theorem accepted_of_configurationFromXsd {xsd : Xsd.PubSubSection} {configuration : Configuration}
    (h : configurationFromXsd xsd = .ok configuration) :
    ∀ connection ∈ configuration.connections, ∀ group ∈ connection.writerGroups,
      group.Accepted := by
  obtain ⟨publisherIdType, -, h⟩ := except_bind_eq_ok.1 h
  obtain ⟨connections, hconnections, h⟩ := except_bind_eq_ok.1 h
  have hgroups : ∀ connection ∈ connections, ∀ group ∈ connection.writerGroups,
      group.Accepted := by
    intro connection hmem group hgroup
    obtain ⟨xsdConnection, -, hconnection⟩ := source_of_mem_mapM hconnections hmem
    obtain ⟨address, -, hconnection⟩ := except_bind_eq_ok.1 hconnection
    obtain ⟨writerGroups, hwriterGroups, hconnection⟩ := except_bind_eq_ok.1 hconnection
    obtain ⟨readers, -, hconnection⟩ := except_bind_eq_ok.1 hconnection
    split at hconnection
    · simp at hconnection
    · rw [except_pure_eq_ok] at hconnection
      subst hconnection
      obtain ⟨xsdGroup, -, hgroup⟩ := source_of_mem_mapM hwriterGroups hgroup
      exact accepted_of_groupFromXsd hgroup
  split at h
  · simp at h
  · rw [except_pure_eq_ok] at h
    subst h
    exact hgroups

end PubSub

end Supernova
