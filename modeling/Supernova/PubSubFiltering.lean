/-
Which DataSetMessages reach a reader: what the headers of a datagram must carry,
over every run of the engine.
-/
import Supernova.PubSubEntities
import Supernova.PubSubStart
import Supernova.PubSubWireFraming
import Supernova.ReceiveDispatch

namespace Supernova

namespace PubSub

open Scanner

/-- Each reader is kept under its own ids. -/
def Keyed (e : Engine) : Prop :=
  ∀ key reader, e.readers.find? key = some reader → reader.key = key

theorem keyed_assign {e : Engine} (h : Keyed e) {reader : ReaderRuntime} {key : ReaderKey}
    (hkey : reader.key = key) : Keyed { e with readers := e.readers.assign key reader } := by
  intro key' reader' hfind
  rcases OrderedMap.find?_assign_eq_some.1 hfind with ⟨rfl, rfl⟩ | ⟨-, hfind⟩
  · exact hkey
  · exact h key' reader' hfind

theorem keyed_handleMessages (signalled : Nat → Bool) (message : NetworkMessage) (m : Nat)
    (messages : List DataSetMessage) {e : Engine} (h : Keyed e) :
    Keyed { e with readers := (handleMessages signalled message m messages e.readers).1 } := by
  induction messages generalizing m e with
  | nil => exact h
  | cons dsm messages ih =>
      rcases handleMessages_cons signalled message m dsm messages e.readers with
        ⟨-, heq⟩ | ⟨reader, -, hreader, heq⟩
      · rw [heq]
        exact ih (m + 1) h
      · rw [heq]
        have hids : (applyMessage (signalled m) dsm.fields reader).1.key = reader.key := by
          obtain ⟨_, _, hframe⟩ := applyMessage_frame (signalled m) dsm.fields reader
          rw [hframe]
          rfl
        exact ih (m + 1) (keyed_assign h (hids.trans (h _ reader hreader)))

theorem keyed_handle (event : Event) {e : Engine} (h : Keyed e) : Keyed (handle e event) := by
  cases event with
  | start surroundings configuration =>
      apply preserves_startStaged (I := Keyed)
      · exact fun e _ _ _ _ _ h _ => h
      · exact fun e runtime h _ => keyed_assign h rfl
      · exact fun e receivers h => h
      · exact fun e h => h
      · exact h
  | ensureStarted => exact h
  | addWriterGroup socket ownerTag publisherIdType publisherId group =>
      simp only [handle]
      rcases hadd : addDynamicWriterGroup e socket ownerTag publisherIdType publisherId group
        with error | e'
      · exact h
      · obtain ⟨-, rfl⟩ := addDynamicWriterGroup_eq_ok.1 hadd
        exact h
  | addReader socket ownerTag reader =>
      simp only [handle]
      rcases hadd : addDynamicReader e socket ownerTag reader with error | e'
      · exact h
      · obtain ⟨-, receivers, -, rfl⟩ := addDynamicReader_eq_ok.1 hadd
        exact keyed_assign (e := { e with receivers }) h rfl
  | remove ownerTag =>
      intro key reader hfind
      simp only [handle] at hfind
      rcases hrunning : e.running with _ | _
      · rw [removeDynamic_of_not_running hrunning] at hfind
        exact h key reader hfind
      · rw [find?_removeDynamic hrunning, Option.filter_eq_some_iff] at hfind
        exact h key reader hfind.1
  | timer group sample => exact h
  | receive endpoint signalled data =>
      simp only [handle]
      by_cases hreceiver : e.receivers.contains endpoint = true
      · rw [receive_eq e hreceiver, handleDatagram]
        rcases decodeDatagram data with ⟨message, c⟩ | ⟨error, c⟩
        · exact keyed_handleMessages signalled message 0 message.messages h
        · exact h
      · simpa [PubSub.receive, hreceiver] using h
  | shutdown =>
      simp only [handle, shutdown]
      split
      · exact h
      · intro key reader hfind
        cases hfind

theorem keyed_of_events (events : List Event) : Keyed (events.foldl handle initial) := by
  have hkeeps : ∀ e, Keyed e → Keyed (events.foldl handle e) := by
    induction events with
    | nil => exact fun e h => h
    | cons event events ih => exact fun e h => ih _ (keyed_handle event h)
  exact hkeeps initial fun key reader hfind => by cases hfind

/-- The datagram is applied to the reader of this key: it writes or calls back,
or changes what the engine keeps of the reader. -/
def Touches (e : Engine) (signalled : Nat → Bool) (data : Bytes) (key : ReaderKey) : Prop :=
  (∃ reaction, (key, reaction) ∈ (handleDatagram e signalled data).2) ∨
    (handleDatagram e signalled data).1.readers.find? key ≠ e.readers.find? key

/-- The headers carry what the reader is configured for, its publisher id in
the configured type, and leave nothing out. -/
def Selects (front : NetworkFront) (reader : ReaderRuntime) : Prop :=
  front.flags.publisherIdEnabled = true ∧
    front.out.publisherIdType = reader.publisherIdType ∧
    front.out.publisherId = reader.publisherId ∧
    front.out.writerGroupIdEnabled = true ∧ front.out.writerGroupId = reader.writerGroupId ∧
    front.flags.payloadHeaderEnabled = true ∧ reader.dataSetWriterId ∈ front.writerIds

/-- The ids are compared as numbers, and one that is left out counts as zero. -/
def Matches (front : NetworkFront) (reader : ReaderRuntime) : Prop :=
  (if front.flags.publisherIdEnabled then front.out.publisherId else 0) = reader.publisherId ∧
    (if front.out.writerGroupIdEnabled then front.out.writerGroupId else 0) =
      reader.writerGroupId ∧
    reader.dataSetWriterId ∈ (if front.flags.payloadHeaderEnabled then front.writerIds else [0])

theorem carries_of_touches {e : Engine} {signalled : Nat → Bool} {data : Bytes} {key : ReaderKey}
    (h : Touches e signalled data key) :
    Carries data key ∧ ∃ reader, e.readers.find? key = some reader := by
  rcases h with ⟨reaction, h⟩ | h
  · exact handleDatagram_reaction h
  · refine ⟨by_contra fun hnot => h (find?_handleDatagram_of_not_carried e hnot), ?_⟩
    rcases hfind : e.readers.find? key with _ | reader
    · exact absurd (find?_handleDatagram_none hfind) (hfind ▸ h)
    · exact ⟨reader, rfl⟩

/-- What the front of a datagram says where it leaves an id out. -/
theorem yields_networkFront : Yields (fun front : NetworkFront =>
    (front.flags.publisherIdEnabled = false → front.out.publisherId = 0) ∧
      (front.flags.payloadHeaderEnabled = false → front.writerIds = [0]))
    decodeNetworkFront := by
  have hpublisherId : ∀ flags, Yields (fun out : NetworkMessage =>
      flags.publisherIdEnabled = false → out.publisherId = 0) (decodePublisherId flags {}) := by
    intro flags
    unfold decodePublisherId
    by_cases henabled : flags.publisherIdEnabled = true
    · exact fun c out c' _ hdisabled => absurd henabled (by simp [hdisabled])
    · rw [if_neg henabled]
      exact yields_pure fun _ => rfl
  have hgroup : ∀ flags (out : NetworkMessage), Yields (fun out' : NetworkMessage =>
      out'.publisherId = out.publisherId) (decodeGroupHeader flags out) := by
    intro flags out
    unfold decodeGroupHeader
    split
    · iterate 5 refine Yields.bind_any fun _ => ?_
      exact yields_pure rfl
    · exact yields_pure rfl
  have hpayload : ∀ flags, Yields (fun writerIds : List UInt16 =>
      flags.payloadHeaderEnabled = false → writerIds = [0]) (decodePayloadHeader flags) := by
    intro flags
    unfold decodePayloadHeader
    by_cases henabled : flags.payloadHeaderEnabled = true
    · exact fun c out c' _ hdisabled => absurd henabled (by simp [hdisabled])
    · rw [if_neg henabled]
      exact yields_pure fun _ => rfl
  refine Yields.bind_any fun flags => (hpublisherId flags).bind fun out hout => ?_
  refine Yields.bind_any fun _ => (hgroup flags out).bind fun out' hout' => ?_
  refine (hpayload flags).bind fun writerIds hwriterIds => Yields.bind_any fun _ => ?_
  exact yields_pure ⟨fun hdisabled => hout'.trans (hout hdisabled), hwriterIds⟩

/-- The key of a carried data message is what the front of the datagram says. -/
theorem front_of_carries {data : Bytes} {key : ReaderKey} (h : Carries data key) :
    ∃ front c, decodeNetworkFront ⟨data, {}⟩ = .ok front c ∧
      key.publisherId = front.out.publisherId ∧
      key.writerGroupId =
        (if front.out.writerGroupIdEnabled then front.out.writerGroupId else 0) ∧
      key.dataSetWriterId ∈ front.writerIds := by
  obtain ⟨message, c, hdecode, dsm, hmem, -, rfl⟩ := h
  obtain ⟨front, sizes, networkFront, declaredSizes, chunks, hdata, hfront, -, -, hids, hout⟩ :=
    parts_of_decodeDatagram hdecode
  obtain ⟨k, hrun⟩ := hfront (sizes ++ (chunks.flatten ++ c.rest)) {}
  rw [← hdata] at hrun
  refine ⟨networkFront, _, hrun, ?_, ?_, ?_⟩
  · rw [messageKey, hout]
  · rw [messageKey, hout]
  · rw [← hids]
    exact List.mem_map_of_mem hmem

/-- A reader of publisher 7 of type UInt32, and a datagram of publisher 7 of type Byte. -/
def uInt32Reader : List Event :=
  [.ensureStarted, .addReader none [1]
    { publisherIdType := .uInt32
      publisherId := 7
      writerGroupId := 1
      dataSetWriterId := 1
      targets := [0]
      host := [1]
      port := 4840
      onFirstData := none }]

def datagramOfBytePublisher7 : Bytes := [113, 7, 1, 1, 0, 1, 1, 0, 1, 1, 0, 1, 1]

theorem uInt32Reader_touched : Touches (uInt32Reader.foldl handle initial) (fun _ => true)
    datagramOfBytePublisher7 ⟨7, 1, 1⟩ := by
  refine .inl ⟨.write 0 (.scalar (.boolean true)), ?_⟩
  decide

/-- A reader of publisher 0, group 0 and writer 0, and a datagram without any id. -/
def zeroReader : List Event :=
  [.ensureStarted, .addReader none [1]
    { publisherIdType := .uInt16
      publisherId := 0
      writerGroupId := 0
      dataSetWriterId := 0
      targets := [0]
      host := [1]
      port := 4840
      onFirstData := none }]

def datagramWithoutIds : Bytes := [1, 1, 1, 0, 1, 1]

theorem zeroReader_touched : Touches (zeroReader.foldl handle initial) (fun _ => true)
    datagramWithoutIds ⟨0, 0, 0⟩ := by
  refine .inl ⟨.write 0 (.scalar (.boolean true)), ?_⟩
  decide

end PubSub

end Supernova
