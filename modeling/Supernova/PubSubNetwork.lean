/-
Servers on one network.  What a cycle of a writer group samples is what the readers of
other servers write, whatever datagrams the network loses, repeats, reorders or takes
to the wrong place.
-/
import Supernova.PubSubSequence
import Supernova.PubSubStart

namespace Supernova

namespace PubSub

section Snapshots

/-- What the wire makes of a sampled value; a value that it does not carry is not written. -/
def conveyed (sampled : Option UaVariant) : Option UaVariant :=
  wireToUaVariant (publishedField sampled).received

theorem conveyed_of_plain {v : UaVariant} (hplain : v.Plain) :
    conveyed (some v) = if v.supported then some v else none :=
  wireToUaVariant_received_publishedField hplain

/-- What one cycle samples, by the id of the writer and by field. -/
structure Snapshot where
  publisherId : UInt64
  writerGroupId : UInt16
  rows : List (UInt16 × List (Option UaVariant))

/-- A value for a target of a reader. -/
structure Stored where
  key : ReaderKey
  target : Nat
  value : UaVariant
deriving DecidableEq, Repr

def Snapshot.key (snapshot : Snapshot) (dataSetWriterId : UInt16) : ReaderKey :=
  ⟨snapshot.publisherId, snapshot.writerGroupId, dataSetWriterId⟩

/-- A row goes to the targets of its reader, field by field. -/
def storedRow (key : ReaderKey) (row : List (Option UaVariant)) (targets : List Nat) :
    List Stored :=
  (row.zip targets).filterMap fun pair => pair.1.map (Stored.mk key pair.2)

/-- What the readers with these targets are to write. -/
def Snapshot.stored (snapshot : Snapshot) (targets : ReaderKey → Option (List Nat)) :
    List Stored :=
  snapshot.rows.flatMap fun row =>
    storedRow (snapshot.key row.1) row.2 ((targets (snapshot.key row.1)).getD [])

/-- The cycle of a group over some sample; the id of the publisher is as far as its type has
room for it. -/
def snapshot (sample : Sample) (group : WriterGroupRuntime) : Snapshot where
  publisherId := (publishGroup sample group).2.receivedPublisherId
  writerGroupId := group.id
  rows := group.writers.mapIdx fun w writer =>
    (writer.id, writer.fieldVariables.mapIdx fun f v => conveyed (sample w f v))

/-- The values among what a datagram makes the engine do. -/
def stored (reactions : List (ReaderKey × Reaction)) : List Stored :=
  reactions.filterMap fun entry =>
    match entry.2 with
    | .write target value => some ⟨entry.1, target, value⟩
    | .firstData _ => none

def Engine.targets (e : Engine) (key : ReaderKey) : Option (List Nat) :=
  (e.readers.find? key).map ReaderRuntime.targets

end Snapshots

section Datagrams

/-- The most that a UDP datagram over IPv4 carries; a longer one is not sent. -/
def udpPayloadLimit : Nat := 65507

/-- A scalar takes at least a byte, and a string a byte for each of its own. -/
theorem UaScalar.toWire_size (v : UaScalar) :
    1 ≤ v.toWire.scalarSize ∧
      (v.toWire.scalarSize ≤ udpPayloadLimit → v.toWire.scalarFits = true) := by
  cases v with
  | string s =>
      change 1 ≤ 4 + (s.takeWhile (· ≠ 0)).length ∧
        (4 + (s.takeWhile (· ≠ 0)).length ≤ udpPayloadLimit →
          decide ((s.takeWhile (· ≠ 0)).length < 2 ^ 31) = true)
      rw [decide_eq_true_eq, udpPayloadLimit]
      omega
  | _ => exact ⟨by simp [toWire, WireValue.scalarSize, WireValue.makeBoolean,
      WireValue.makeSigned, WireValue.makeUnsigned, WireValue.makeFloat, WireValue.makeDouble],
      fun _ => rfl⟩

/-- What is sampled and fits a datagram is read back whole. -/
theorem fits_publishedField {sampled : Option UaVariant}
    (hsize : (publishedField sampled).encodedSize ≤ udpPayloadLimit) :
    (publishedField sampled).fits = true := by
  rcases sampled with _ | _ | v | ⟨type, elements⟩ | _
  · rfl
  · rfl
  · by_cases hsByte : ∃ n, v = .sByte n
    · obtain ⟨n, rfl⟩ := hsByte
      rfl
    · have hwire : publishedField (some (.scalar v)) = v.toWire := by
        cases v with
        | sByte n => exact absurd ⟨n, rfl⟩ hsByte
        | _ => rfl
      rw [hwire, WireValue.encodedSize, isArray_toWire, if_neg Bool.false_ne_true] at hsize
      rw [hwire, WireValue.fits, isArray_toWire, if_neg Bool.false_ne_true]
      exact v.toWire_size.2 (by omega)
  · rcases htype : uaScalar type with _ | convert
    · rw [publishedField_of_unsupported (by simp [UaVariant.supported, htype])]
      rfl
    · have hwire : publishedField (some (.array type elements)) =
          .makeArray type (elements.map UaScalar.toWire) := by
        simp [publishedField, uaVariantToWire, uaArrayToWire_of_supported htype]
      have hcode : type.code.toNat < 64 := by
        cases type <;> first | decide | cases htype
      rw [hwire] at hsize ⊢
      have hsum : 1 + (4 + ((elements.map UaScalar.toWire).map WireValue.scalarSize).sum) ≤
          udpPayloadLimit := hsize
      have hmember : ∀ v ∈ elements, v.toWire.scalarFits = true := by
        intro v hv
        have hle := List.single_le_sum (by simp) v.toWire.scalarSize
          (List.mem_map_of_mem (List.mem_map_of_mem hv) :
            _ ∈ (elements.map UaScalar.toWire).map WireValue.scalarSize)
        exact v.toWire_size.2 (by omega)
      have hcount : elements.length ≤
          ((elements.map UaScalar.toWire).map WireValue.scalarSize).sum := by
        have hle := List.card_nsmul_le_sum
          ((elements.map UaScalar.toWire).map WireValue.scalarSize) 1 (by
            simp only [List.mem_map]
            rintro _ ⟨_, ⟨v, -, rfl⟩, rfl⟩
            exact v.toWire_size.1)
        simpa using hle
      simp only [WireValue.fits, WireValue.makeArray, if_true, Bool.and_eq_true,
        decide_eq_true_eq, List.length_map, List.all_map, List.all_eq_true, Function.comp_apply]
      rw [udpPayloadLimit] at hsum
      exact ⟨⟨decide_eq_true hcode, by omega⟩, hmember⟩
  · rfl

/-- What a cycle of a group hands to the network, if it encodes and fits a datagram. -/
def sentDatagram (sample : Sample) (group : WriterGroupRuntime) : Option Bytes :=
  match encodeNetworkMessage (publishGroup sample group).2 with
  | .error _ => none
  | .ok datagram => if datagram.length ≤ udpPayloadLimit then some datagram else none

theorem sentDatagram_eq_some {sample : Sample} {group : WriterGroupRuntime} {datagram : Bytes}
    (h : sentDatagram sample group = some datagram) :
    encodeNetworkMessage (publishGroup sample group).2 = .ok datagram ∧
      datagram.length ≤ udpPayloadLimit := by
  unfold sentDatagram at h
  split at h
  · cases h
  · rename_i datagram' hencode
    split_ifs at h with hshort
    cases h
    exact ⟨hencode, hshort⟩

/-- A list of sampled fields that fits a datagram. -/
theorem fits_of_encodedSize {message : DataSetMessage}
    (hfields : ∀ v ∈ message.fields, ∃ sampled, v = publishedField sampled)
    (hsize : message.encodedSize ≤ udpPayloadLimit) : message.fits = true := by
  have hsum : (message.fields.map WireValue.encodedSize).sum ≤ udpPayloadLimit := by
    rw [DataSetMessage.encodedSize] at hsize
    omega
  have hcount : message.fields.length ≤ (message.fields.map WireValue.encodedSize).sum := by
    have hle := List.card_nsmul_le_sum (message.fields.map WireValue.encodedSize) 1 (by
      simp only [List.mem_map]
      rintro _ ⟨v, -, rfl⟩
      rw [WireValue.encodedSize]
      split <;> omega)
    simpa using hle
  simp only [DataSetMessage.fits, Bool.and_eq_true, decide_eq_true_eq, List.all_eq_true]
  rw [udpPayloadLimit] at hsum
  refine ⟨by omega, ?_⟩
  intro v hv
  obtain ⟨sampled, rfl⟩ := hfields v hv
  have hle := List.single_le_sum (by simp) _
    (List.mem_map_of_mem hv : _ ∈ message.fields.map WireValue.encodedSize)
  exact fits_publishedField (by rw [udpPayloadLimit]; omega)

/-- Every message of a datagram that is sent can be read back. -/
theorem fits_of_sent {sample : Sample} {group : WriterGroupRuntime} {datagram : Bytes}
    (hsent : sentDatagram sample group = some datagram) :
    ∀ d ∈ (publishGroup sample group).2.messages, d.fits = true := by
  obtain ⟨hencode, hshort⟩ := sentDatagram_eq_some hsent
  obtain ⟨-, -, bodies, sizes, hbodies, -, rfl⟩ := encodeNetworkMessage_eq_ok.1 hencode
  have hlengths : bodies.map List.length = (publishGroup sample group).2.messages.map
      DataSetMessage.encodedSize :=
    map_of_mapM_eq_ok (fun _ _ => encodeDataSetMessage_length) hbodies
  simp only [List.length_append, List.length_flatten, hlengths] at hshort
  intro d hd
  have hle := List.single_le_sum (by simp) _
    (List.mem_map_of_mem hd : _ ∈ (publishGroup sample group).2.messages.map
      DataSetMessage.encodedSize)
  refine fits_of_encodedSize ?_ (by omega)
  rw [messages_publishGroup] at hd
  obtain ⟨w, hw, rfl⟩ := List.mem_mapIdx.mp hd
  intro v hv
  obtain ⟨f, hf, rfl⟩ := List.mem_mapIdx.mp hv
  exact ⟨_, rfl⟩

/-- The datagram of a cycle is decoded to what the cycle samples. -/
theorem decodeDatagram_of_sent {sample : Sample} {group : WriterGroupRuntime} {datagram : Bytes}
    (hsent : sentDatagram sample group = some datagram) :
    ∃ c, decodeDatagram datagram = .ok (publishGroup sample group).2.received c := by
  obtain ⟨k, hrun⟩ := reads_networkMessage (sentDatagram_eq_some hsent).1 (fits_of_sent hsent) [] {}
  rw [List.append_nil] at hrun
  exact ⟨_, hrun⟩

end Datagrams

section Applying

theorem map_mapIdx {α β γ : Type*} (f : Nat → α → β) (g : β → γ) (l : List α) :
    (l.mapIdx f).map g = l.mapIdx fun i a => g (f i a) := by
  apply List.ext_getElem?
  intro i
  simp [Option.map_map, Function.comp_def]

theorem stored_append (reactions reactions' : List (ReaderKey × Reaction)) :
    stored (reactions ++ reactions') = stored reactions ++ stored reactions' :=
  List.filterMap_append

theorem stored_writes (key : ReaderKey) (fields : List WireValue) (targets : List Nat) :
    stored ((writes fields targets).map fun reaction => (key, reaction)) =
      storedRow key (fields.map wireToUaVariant) targets := by
  rw [writes_eq, storedRow, stored, List.filterMap_map, List.filterMap_filterMap]
  apply List.filterMap_congr
  rintro ⟨value, target⟩ -
  cases value <;> rfl

theorem targets_applyMessage (signalled : Bool) (fields : List WireValue)
    (reader : ReaderRuntime) : (applyMessage signalled fields reader).1.targets = reader.targets := by
  unfold applyMessage
  by_cases hempty : min fields.length reader.targets.length = 0
  · rw [if_pos hempty]
  · rw [if_neg hempty]
    cases reader.onFirstData with
    | none => rfl
    | some name => cases reader.firstDataSignalled <;> rfl

theorem stored_applyMessage (signalled : Bool) (fields : List WireValue) (reader : ReaderRuntime)
    (key : ReaderKey) :
    stored ((applyMessage signalled fields reader).2.map fun reaction => (key, reaction)) =
      storedRow key (fields.map wireToUaVariant) reader.targets := by
  unfold applyMessage
  by_cases hempty : min fields.length reader.targets.length = 0
  · have hnil : (fields.map wireToUaVariant).zip reader.targets = [] :=
      List.length_eq_zero_iff.mp (by rw [List.length_zip, List.length_map, hempty])
    rw [if_pos hempty, storedRow, hnil]
    rfl
  · rw [if_neg hempty]
    cases reader.onFirstData with
    | none => exact stored_writes key fields reader.targets
    | some name =>
        cases reader.firstDataSignalled with
        | true => exact stored_writes key fields reader.targets
        | false =>
            change stored ((writes fields reader.targets ++ [Reaction.firstData name]).map _) = _
            rw [List.map_append, stored_append, stored_writes]
            exact List.append_nil _

/-- The message loop writes the fields of each message to the targets that its reader had when
the datagram came. -/
theorem stored_handleMessages (signalled : Nat → Bool) (message : NetworkMessage) (m : Nat)
    {messages : List DataSetMessage} (hdata : ∀ dsm ∈ messages, dsm.keepAlive = false)
    {readers : OrderedMap ReaderKey ReaderRuntime} {targets : ReaderKey → Option (List Nat)}
    (htargets : ∀ key, (readers.find? key).map ReaderRuntime.targets = targets key) :
    stored (handleMessages signalled message m messages readers).2 =
      messages.flatMap fun dsm => storedRow (messageKey message dsm)
        (dsm.fields.map wireToUaVariant) ((targets (messageKey message dsm)).getD []) := by
  induction messages generalizing m readers with
  | nil => rfl
  | cons dsm messages ih =>
      rw [List.forall_mem_cons] at hdata
      rw [handleMessages, hdata.1, if_neg Bool.false_ne_true, List.flatMap_cons]
      have hown := htargets (messageKey message dsm)
      cases hfind : readers.find? (messageKey message dsm) with
      | none =>
          rw [hfind] at hown
          rw [ih (m + 1) hdata.2 htargets, ← hown]
          simp [storedRow]
      | some reader =>
          rw [hfind] at hown
          have hlater : ∀ key, ((readers.assign (messageKey message dsm)
              (applyMessage (signalled m) dsm.fields reader).1).find? key).map
                ReaderRuntime.targets = targets key := by
            intro key
            rw [OrderedMap.find?_assign]
            split_ifs with hkey
            · rw [hkey, ← hown, Option.map_some, Option.map_some, targets_applyMessage]
            · exact htargets key
          rw [stored_append, stored_applyMessage, ih (m + 1) hdata.2 hlater, ← hown]
          rfl

/-- A datagram of a cycle is its snapshot. -/
theorem stored_handleDatagram (e : Engine) (signalled : Nat → Bool) {sample : Sample}
    {group : WriterGroupRuntime} {datagram : Bytes}
    (hsent : sentDatagram sample group = some datagram) :
    stored (handleDatagram e signalled datagram).2 =
      (snapshot sample group).stored e.targets := by
  obtain ⟨c, hdecode⟩ := decodeDatagram_of_sent hsent
  rw [handleDatagram, hdecode]
  have hmessages : (publishGroup sample group).2.received.messages =
      group.writers.mapIdx fun w writer => (publishWriter (sample w) writer).2.received := by
    rw [NetworkMessage.received, messages_publishGroup, map_mapIdx]
  have hdata : ∀ dsm ∈ (publishGroup sample group).2.received.messages,
      dsm.keepAlive = false := by
    rw [hmessages]
    intro dsm hdsm
    obtain ⟨w, hw, rfl⟩ := List.mem_mapIdx.mp hdsm
    rfl
  refine (stored_handleMessages signalled _ 0 hdata fun key => rfl).trans ?_
  have hrow : ∀ w writer, (publishWriter (sample w) writer).2.received.fields.map wireToUaVariant =
      writer.fieldVariables.mapIdx fun f v => conveyed (sample w f v) := by
    intro w writer
    change ((List.mapIdx _ _).map WireValue.received).map wireToUaVariant = _
    rw [map_mapIdx, map_mapIdx]
    rfl
  rw [hmessages, Snapshot.stored, List.flatMap_def, List.flatMap_def, map_mapIdx, snapshot,
    map_mapIdx]
  simp only [hrow]
  rfl

end Applying

section Network

variable {Server : Type} [DecidableEq Server]

/-- The engines of the servers, and every datagram that was sent.  The network may deliver
any of these to any server at any later time, again and again, or never. -/
structure Network (Server : Type) where
  engine : Server → Engine
  sent : List Bytes

def Network.initial : Network Server := ⟨fun _ => PubSub.initial, []⟩

/-- What a server does puts a datagram on the network when the timer of a group completes, and
takes one from it when one arrives. -/
def Network.step (n : Network Server) (e : Server × Event) : Option (Network Server) :=
  let engine := Function.update n.engine e.1 (handle (n.engine e.1) e.2)
  match e.2 with
  | .timer group sample =>
      some ⟨engine, n.sent ++
        (((n.engine e.1).writerGroups[group]?).bind (sentDatagram sample)).toList⟩
  | .receive _ _ datagram => if datagram ∈ n.sent then some { n with engine } else none
  | _ => some { n with engine }

/-- The datagram is that of a cycle among these events. -/
def SentBy (n₀ : Network Server) (events : List (Server × Event)) (datagram : Bytes)
    (sample : Sample) (runtime : WriterGroupRuntime) : Prop :=
  ∃ before sender group after n, events = before ++ (sender, .timer group sample) :: after ∧
    run Network.step n₀ before = some n ∧
    (n.engine sender).writerGroups[group]? = some runtime ∧
    sentDatagram sample runtime = some datagram

theorem sent_step {n n' : Network Server} {e : Server × Event} (hstep : n.step e = some n')
    {datagram : Bytes} (hsent : datagram ∈ n'.sent) : datagram ∈ n.sent ∨
      ∃ group sample runtime, e.2 = .timer group sample ∧
        (n.engine e.1).writerGroups[group]? = some runtime ∧
        sentDatagram sample runtime = some datagram := by
  obtain ⟨server, event⟩ := e
  cases event with
  | timer group sample =>
      cases hstep
      rcases List.mem_append.mp hsent with hsent | hsent
      · exact .inl hsent
      · rw [Option.mem_toList, Option.bind_eq_some_iff] at hsent
        obtain ⟨runtime, hgroup, hsent⟩ := hsent
        exact .inr ⟨group, sample, runtime, rfl, hgroup, hsent⟩
  | receive endpoint signalled data =>
      simp only [Network.step] at hstep
      split_ifs at hstep
      cases hstep
      exact .inl hsent
  | start | ensureStarted | addWriterGroup | addReader | remove | shutdown =>
      cases hstep
      exact .inl hsent

/-- Nothing is on the network but the datagrams of cycles. -/
theorem sentBy_of_sent {n₀ n : Network Server} {events : List (Server × Event)}
    (hrun : run Network.step n₀ events = some n) {datagram : Bytes} (hsent : datagram ∈ n.sent) :
    datagram ∈ n₀.sent ∨ ∃ sample runtime, SentBy n₀ events datagram sample runtime := by
  induction events generalizing n₀ with
  | nil =>
      cases hrun
      exact .inl hsent
  | cons e events ih =>
      obtain ⟨n₁, hstep, hrun⟩ := run_cons_eq_some.1 hrun
      rcases ih hrun with hearly | ⟨sample, runtime, before, sender, group, after, m, hevents,
        hbefore, hgroup, hsends⟩
      · rcases sent_step hstep hearly with hfirst | ⟨group, sample, runtime, htimer, hgroup, hsends⟩
        · exact .inl hfirst
        · refine .inr ⟨sample, runtime, [], e.1, group, events, n₀, ?_, rfl, hgroup, hsends⟩
          rw [List.nil_append, ← htimer]
      · refine .inr ⟨sample, runtime, e :: before, sender, group, after, m, ?_, ?_, hgroup,
          hsends⟩
        · rw [hevents, List.cons_append]
        · exact run_cons_eq_some.2 ⟨n₁, hstep, hbefore⟩

/-- In every run of any number of servers, what the arrival of a datagram writes is the
snapshot of one earlier cycle of one writer group, field by field, at the readers that have
its ids. -/
theorem received_from_one_cycle {events : List (Server × Event)} {n n' : Network Server}
    {server : Server} {endpoint : ReceiverKey} {signalled : Nat → Bool} {datagram : Bytes}
    (hrun : run Network.step Network.initial events = some n)
    (hstep : n.step (server, .receive endpoint signalled datagram) = some n') :
    ∃ sample runtime, SentBy Network.initial events datagram sample runtime ∧
      stored (receive (n.engine server) endpoint signalled datagram).2 =
        if (n.engine server).receivers.contains endpoint then
          (snapshot sample runtime).stored (n.engine server).targets
        else [] := by
  have hsent : datagram ∈ n.sent := by
    by_contra hnot
    simp only [Network.step, if_neg hnot] at hstep
    cases hstep
  rcases sentBy_of_sent hrun hsent with hearly | ⟨sample, runtime, hby⟩
  · exact absurd hearly List.not_mem_nil
  · refine ⟨sample, runtime, hby, ?_⟩
    obtain ⟨-, -, -, -, -, -, -, -, hsends⟩ := hby
    unfold receive
    split_ifs
    · exact stored_handleDatagram (n.engine server) signalled hsends
    · rfl

/-- One server publishes a Boolean and another one has a reader for it. -/
def exchange : List (Bool × Event) :=
  [(true, .ensureStarted),
    (true, .addWriterGroup none [1] .byte 7
      { id := 1
        dataSetWriterId := 1
        publishingIntervalMs := ⟨0x4059000000000000⟩
        fields := [5]
        host := [1]
        port := 4840 }),
    (false, .ensureStarted),
    (false, .addReader none [1]
      { publisherIdType := .byte
        publisherId := 7
        writerGroupId := 1
        dataSetWriterId := 1
        targets := [3]
        host := [1]
        port := 4840
        onFirstData := none }),
    (true, .timer 0 fun _ _ _ => some (.scalar (.boolean true)))]

def exchanged : Bytes := [113, 7, 9, 1, 0, 1, 0, 1, 1, 0, 9, 1, 0, 1, 0, 1, 1]

theorem received_from_one_cycle_exchange : ∃ n sample runtime,
    run Network.step Network.initial exchange = some n ∧
      SentBy Network.initial exchange exchanged sample runtime ∧
      stored (receive (n.engine false) ⟨[1], 4840⟩ (fun _ => true) exchanged).2 =
        (snapshot sample runtime).stored (n.engine false).targets := by
  obtain ⟨n, hrun⟩ : ∃ n, run Network.step Network.initial exchange = some n := ⟨_, rfl⟩
  have hn : n.engine false = handle (handle PubSub.initial .ensureStarted)
      (.addReader none [1] ⟨.byte, 7, 1, 1, [3], [1], 4840, none⟩) := by
    cases hrun
    rfl
  have hsent : exchanged ∈ n.sent := by
    cases hrun
    decide
  have hlistens : (n.engine false).receivers.contains ⟨[1], 4840⟩ = true := by
    rw [hn]
    decide
  obtain ⟨sample, runtime, hby, hstored⟩ := received_from_one_cycle hrun
    (show n.step (false, .receive ⟨[1], 4840⟩ (fun _ => true) exchanged) = some _ from if_pos hsent)
  rw [if_pos hlistens] at hstored
  exact ⟨n, sample, runtime, hrun, hby, hstored⟩

end Network

end PubSub

end Supernova
