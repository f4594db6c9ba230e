/-
The round trip of whole NetworkMessages: fields, DataSetMessages, the header,
and the exact condition under which the decoder returns what was encoded.
-/
import Supernova.PubSubValueRoundTrip

namespace Supernova

namespace PubSub

open Scanner

namespace DataSetMessage

/-- Every field fits, and the number of fields fits its 16-bit count. -/
def fits (message : DataSetMessage) : Bool :=
  message.fields.length ≤ 0xFFFF && message.fields.all WireValue.fits

/-- The decoded message that carries the same content. -/
def Matches (message out : DataSetMessage) : Prop :=
  out.dataSetWriterId = message.dataSetWriterId ∧
    out.sequenceNumberEnabled = message.sequenceNumberEnabled ∧
    (message.sequenceNumberEnabled = true → out.sequenceNumber = message.sequenceNumber) ∧
    out.keepAlive = message.keepAlive ∧
    List.Forall₂ (fun v w => v.equals w = true) message.fields out.fields

end DataSetMessage

namespace NetworkMessage

/-- The decoded message that carries the same identification and messages. -/
def Matches (message out : NetworkMessage) : Prop :=
  out.publisherIdType = message.publisherIdType ∧
    out.publisherId = message.publisherId ∧
    out.writerGroupIdEnabled = message.writerGroupIdEnabled ∧
    (message.writerGroupIdEnabled = true → out.writerGroupId = message.writerGroupId) ∧
    out.groupSequenceNumberEnabled = message.groupSequenceNumberEnabled ∧
    (message.groupSequenceNumberEnabled = true →
      out.groupSequenceNumber = message.groupSequenceNumber) ∧
    List.Forall₂ DataSetMessage.Matches message.messages out.messages

end NetworkMessage

theorem recovers_field {v : WireValue} {bytes : Bytes}
    (hbytes : encodeVariant v = .ok bytes) (hrange : v.inRange = true)
    (hnumber : v.hasNaN = false) :
    Recovers (decodeField FieldEncodingVariant) bytes (fun w => v.equals w = true)
      (v.fits = true) := by
  apply (recovers_variant hbytes hrange hnumber).bind_reads_nil id
  · intro w
    exact (reads_charge _).bind_nil (Reads.pure w)
  · simp

/-- The count is the number of fields modulo 2^16, and as many are read. -/
theorem recovers_fields {fields : List WireValue} {chunks : List Bytes}
    (hchunks : fields.mapM encodeVariant = .ok chunks)
    (hrange : ∀ v ∈ fields, v.inRange = true) (hnumber : ∀ v ∈ fields, v.hasNaN = false) :
    Recovers (decodeFields FieldEncodingVariant)
      (putU16 (UInt16.ofNat fields.length) ++ chunks.flatten)
      (List.Forall₂ (fun v w => v.equals w = true) fields)
      (fields.length ≤ 0xFFFF ∧ ∀ v ∈ fields, v.fits = true) := by
  have hall := mapM_eq_ok.1 hchunks
  have hrecovers : List.Forall₂ (fun v chunk => Recovers (decodeField FieldEncodingVariant)
      chunk (fun w => v.equals w = true) (v.fits = true)) fields chunks := by
    rw [List.forall₂_iff_zip] at hall ⊢
    refine ⟨hall.1, ?_⟩
    intro v chunk hmem
    have hv := (List.of_mem_zip hmem).1
    exact recovers_field (hall.2 hmem) (hrange v hv) (hnumber v hv)
  have hcount : (UInt16.ofNat fields.length).toNat = fields.length % 2 ^ 16 :=
    UInt16.toNat_ofNat'
  apply Recovers.bind_reads (reads_u16 _ _)
  rw [hcount]
  by_cases hlength : fields.length ≤ 0xFFFF
  · rw [Nat.mod_eq_of_lt (by omega)]
    exact (Recovers.times hrecovers).congr (by simp [hlength])
  · constructor
    · intro h
      exact absurd h.1 hlength
    · intro r k ws c hrun hgood
      have hread := length_of_times hrun
      have hsame := hgood.length_eq
      have hmod := Nat.mod_lt fields.length (by decide : 0 < 2 ^ 16)
      omega

theorem reads_skipIf_false (n : Nat) (diagnostic : String) :
    Reads (Reader.skipIf false n diagnostic) [] () :=
  Reads.pure ()

theorem reads_dataSetFlags (message : DataSetMessage) :
    Reads decodeDataSetFlags (putU8 (dataSetFlags1 message))
      { flags1 := dataSetFlags1 message } := by
  have hflags2 : dataSetFlags1 message &&& DsmFlags2Enabled = 0 := by
    cases h : message.sequenceNumberEnabled <;> simp only [dataSetFlags1, h] <;> rfl
  unfold decodeDataSetFlags
  have hreads := reads_u8 "truncated DataSetFlags1" (dataSetFlags1 message)
  rw [← List.append_nil (putU8 _)]
  apply hreads.bind
  simp only [hflags2, ne_eq, not_true_eq_false, if_false]
  exact Reads.pure _

theorem reads_dataSetHeader (message : DataSetMessage) :
    Reads (decodeDataSetHeader { flags1 := dataSetFlags1 message })
      (if message.sequenceNumberEnabled then putU16 message.sequenceNumber else [])
      (if message.sequenceNumberEnabled then some message.sequenceNumber else none) := by
  have hhas : ∀ bit ∈ [DsmStatusEnabled, DsmConfigMajorEnabled, DsmConfigMinorEnabled],
      ({ flags1 := dataSetFlags1 message } : DataSetFlags).has bit = false := by
    intro bit hbit
    rw [List.mem_cons, List.mem_cons, List.mem_singleton] at hbit
    rcases hbit with rfl | rfl | rfl <;> cases h : message.sequenceNumberEnabled <;>
      simp only [DataSetFlags.has, dataSetFlags1, h] <;> rfl
  have hsequence : ({ flags1 := dataSetFlags1 message } : DataSetFlags).has
      DsmSequenceNumberEnabled = message.sequenceNumberEnabled := by
    cases h : message.sequenceNumberEnabled <;>
      simp only [DataSetFlags.has, dataSetFlags1, h] <;> rfl
  have htail : ∀ v, Reads (do
      Reader.skipIf false 8 "truncated DataSetMessage timestamp"
      Reader.skipIf false 2 "truncated DataSetMessage picoseconds"
      Reader.skipIf false 2 "truncated DataSetMessage status"
      Reader.skipIf false 4 "truncated config major version"
      Reader.skipIf false 4 "truncated config minor version"
      pure v : Reader (Option UInt16)) [] v := by
    intro v
    iterate 5 apply (reads_skipIf_false _ _).bind_nil
    exact Reads.pure v
  unfold decodeDataSetHeader
  rw [hsequence, hhas DsmStatusEnabled (by simp), hhas DsmConfigMajorEnabled (by simp),
    hhas DsmConfigMinorEnabled (by simp)]
  cases message.sequenceNumberEnabled with
  | false => exact (Reads.pure none).bind_nil (htail none)
  | true =>
      have hreads := ((reads_u16 "truncated DataSetMessage sequence number"
        message.sequenceNumber).map some).bind (htail (some message.sequenceNumber))
      rwa [List.append_nil] at hreads

theorem recovers_dataSetMessage {message : DataSetMessage} {bytes : Bytes}
    (hbytes : encodeDataSetMessage message = .ok bytes) (hkeyFrame : message.keepAlive = false)
    (hrange : ∀ v ∈ message.fields, v.inRange = true)
    (hnumber : ∀ v ∈ message.fields, v.hasNaN = false) :
    Recovers (decodeDataSetMessage message.dataSetWriterId) bytes message.Matches
      (message.fits = true) := by
  obtain ⟨chunks, hchunks, rfl⟩ := encodeDataSetMessage_eq_ok.1 hbytes
  have hencoding : ({ flags1 := dataSetFlags1 message } : DataSetFlags).fieldEncoding =
      FieldEncodingVariant := by
    cases h : message.sequenceNumberEnabled <;>
      simp only [DataSetFlags.fieldEncoding, dataSetFlags1, h] <;> decide
  unfold decodeDataSetMessage
  apply Recovers.bind_reads (reads_dataSetFlags message)
  apply Recovers.bind_reads (reads_dataSetHeader message)
  rw [hencoding]
  simp only [show DsmTypeKeyFrame ≠ DsmTypeKeepAlive by decide,
    show FieldEncodingVariant ≠ FieldEncodingRawData by decide, if_false, ne_eq,
    not_true_eq_false]
  refine ((recovers_fields hchunks hrange hnumber).map _ fun ws => ?_).congr ?_
  · cases h : message.sequenceNumberEnabled <;> simp [DataSetMessage.Matches, h, hkeyFrame]
  · simp [DataSetMessage.fits]

/-- The message loop over the writer ids of the payload header. -/
theorem recovers_messages {messages : List DataSetMessage} {bodies : List Bytes}
    (hbodies : List.Forall₂ (fun d body => encodeDataSetMessage d = .ok body)
      messages bodies)
    (hkeyFrame : ∀ d ∈ messages, d.keepAlive = false)
    (hrange : ∀ d ∈ messages, ∀ v ∈ d.fields, v.inRange = true)
    (hnumber : ∀ d ∈ messages, ∀ v ∈ d.fields, v.hasNaN = false) :
    Recovers (decodeMessages (messages.map DataSetMessage.dataSetWriterId)) bodies.flatten
      (List.Forall₂ DataSetMessage.Matches messages) (∀ d ∈ messages, d.fits = true) := by
  induction hbodies with
  | nil =>
      exact (Recovers.of_reads (Reads.pure []) List.Forall₂.nil).congr (by simp)
  | @cons d body messages bodies hbody _ ih =>
      have hhead := recovers_dataSetMessage hbody (hkeyFrame d List.mem_cons_self)
        (hrange d List.mem_cons_self) (hnumber d List.mem_cons_self)
      have htail := ih (fun d' hd' => hkeyFrame d' (List.mem_cons_of_mem d hd'))
        (fun d' hd' => hrange d' (List.mem_cons_of_mem d hd'))
        (fun d' hd' => hnumber d' (List.mem_cons_of_mem d hd'))
      exact (hhead.cons htail).congr (by simp)

/-- The flags that the decoder reads off an encoded message. -/
def NetworkMessage.networkFlags (message : NetworkMessage) : NetworkFlags :=
  { flags := uadpFlags message, publisherIdType := message.publisherIdType.code }

theorem uadpFlags_bits (message : NetworkMessage) :
    uadpFlags message &&& 0x0F = UadpVersion ∧
      message.networkFlags.publisherIdEnabled = true ∧
      message.networkFlags.groupHeaderEnabled = message.groupHeaderEnabled ∧
      message.networkFlags.payloadHeaderEnabled = true ∧
      (uadpFlags message &&& NmExtendedFlags1 ≠ 0 ↔ message.extendedFlags1 = true) := by
  cases hgroup : message.groupHeaderEnabled <;> cases hext : message.extendedFlags1 <;>
    simp only [NetworkFlags.publisherIdEnabled, NetworkFlags.groupHeaderEnabled,
      NetworkFlags.payloadHeaderEnabled, NetworkMessage.networkFlags, uadpFlags, hgroup,
      hext] <;> decide

theorem reads_flags (message : NetworkMessage) :
    Reads decodeFlags (encodeFlags message) message.networkFlags := by
  obtain ⟨hversion, -, -, -, hextended⟩ := uadpFlags_bits message
  unfold decodeFlags encodeFlags
  apply (reads_u8 _ _).bind
  simp only [hversion, ne_eq, not_true_eq_false, if_false]
  by_cases hext : message.extendedFlags1 = true
  · rw [if_pos (hextended.mpr hext), if_pos hext, ← List.append_nil (putU8 _)]
    apply (reads_u8 _ _).bind
    cases htype : message.publisherIdType <;>
      simp only [NetworkMessage.networkFlags, htype] <;> exact Reads.pure _
  · rw [if_neg (mt hextended.mp hext), if_neg hext]
    have htype : message.publisherIdType = .byte := by
      simpa [NetworkMessage.extendedFlags1] using hext
    simp only [NetworkMessage.networkFlags, htype]
    exact Reads.pure _

theorem reads_publisherId (message out : NetworkMessage)
    (hid : message.publisherId ≤ publisherIdMaximum message.publisherIdType) :
    Reads (decodePublisherId message.networkFlags out) (encodePublisherId message)
      { out with
        publisherId := message.publisherId
        publisherIdType := message.publisherIdType } := by
  obtain ⟨-, henabled, -⟩ := uadpFlags_bits message
  rw [UInt64.le_iff_toNat_le] at hid
  simp only [decodePublisherId, henabled, if_true, encodePublisherId]
  cases htype : message.publisherIdType with
  | byte =>
      have hlt : message.publisherId.toNat < 2 ^ 8 := by
        simpa [publisherIdMaximum, htype, Nat.lt_succ_iff] using hid
      have hreads := (reads_u8 "truncated publisher id"
        (UInt8.ofNat message.publisherId.toNat)).map fun v =>
          { out with publisherId := UInt64.ofNat v.toNat, publisherIdType := .byte }
      rw [UInt8.toNat_ofNat_of_lt' hlt, UInt64.ofNat_toNat] at hreads
      simp only [NetworkMessage.networkFlags, htype]
      exact hreads
  | uInt16 =>
      have hlt : message.publisherId.toNat < 2 ^ 16 := by
        simpa [publisherIdMaximum, htype, Nat.lt_succ_iff] using hid
      have hreads := (reads_u16 "truncated publisher id"
        (UInt16.ofNat message.publisherId.toNat)).map fun v =>
          { out with publisherId := UInt64.ofNat v.toNat, publisherIdType := .uInt16 }
      rw [UInt16.toNat_ofNat_of_lt' hlt, UInt64.ofNat_toNat] at hreads
      simp only [NetworkMessage.networkFlags, htype]
      exact hreads
  | uInt32 =>
      have hlt : message.publisherId.toNat < 2 ^ 32 := by
        simpa [publisherIdMaximum, htype, Nat.lt_succ_iff] using hid
      have hreads := (reads_u32 "truncated publisher id"
        (UInt32.ofNat message.publisherId.toNat)).map fun v =>
          { out with publisherId := UInt64.ofNat v.toNat, publisherIdType := .uInt32 }
      rw [UInt32.toNat_ofNat_of_lt' hlt, UInt64.ofNat_toNat] at hreads
      simp only [NetworkMessage.networkFlags, htype]
      exact hreads
  | uInt64 =>
      have hreads := (reads_u64 "truncated publisher id" message.publisherId).map fun v =>
        { out with publisherId := v, publisherIdType := .uInt64 }
      simp only [NetworkMessage.networkFlags, htype]
      exact hreads

theorem reads_u16If (present : Bool) (v absent : UInt16) (diagnostic : String) :
    Reads (u16If present absent diagnostic) (if present then putU16 v else [])
      (if present then v else absent) := by
  cases present with
  | false => exact Reads.pure absent
  | true => exact reads_u16 diagnostic v

/-- The group header, with the values of the fields that are not enabled. -/
theorem reads_groupHeader (message out : NetworkMessage) :
    Reads (decodeGroupHeader message.networkFlags out) (encodeGroupHeader message)
      { out with
        writerGroupIdEnabled := message.writerGroupIdEnabled
        writerGroupId :=
          if message.writerGroupIdEnabled then message.writerGroupId
          else out.writerGroupId
        groupSequenceNumberEnabled := message.groupSequenceNumberEnabled
        groupSequenceNumber :=
          if message.groupSequenceNumberEnabled then message.groupSequenceNumber
          else out.groupSequenceNumber } := by
  obtain ⟨-, -, henabled, -⟩ := uadpFlags_bits message
  unfold decodeGroupHeader encodeGroupHeader
  rw [henabled]
  by_cases hheader : message.groupHeaderEnabled = true
  · have hbits : decide (groupFlags message &&& GroupWriterGroupIdEnabled ≠ 0) =
          message.writerGroupIdEnabled ∧
        decide (groupFlags message &&& GroupSequenceNumberEnabled ≠ 0) =
          message.groupSequenceNumberEnabled ∧
        decide (groupFlags message &&& GroupGroupVersionEnabled ≠ 0) = false ∧
        decide (groupFlags message &&& GroupNetworkMessageNumberEnabled ≠ 0) = false := by
      cases hid : message.writerGroupIdEnabled <;>
        cases hseq : message.groupSequenceNumberEnabled <;>
        simp only [groupFlags, hid, hseq] <;> decide
    simp only [hheader, if_true]
    apply (reads_u8 _ _).bind
    simp only [hbits]
    apply (reads_u16If _ _ _ _).bind
    apply (reads_skipIf_false _ _).bind_nil
    apply (reads_skipIf_false _ _).bind_nil
    exact (reads_u16If _ _ _ _).map _
  · simp only [hheader]
    have hoff : message.writerGroupIdEnabled = false ∧
        message.groupSequenceNumberEnabled = false := by
      simpa [NetworkMessage.groupHeaderEnabled] using hheader
    simp only [hoff, Bool.false_eq_true, if_false]
    exact Reads.pure _

theorem reads_payloadHeader (message : NetworkMessage) (hsome : message.messages ≠ [])
    (hlength : message.messages.length ≤ 255) :
    Reads (decodePayloadHeader message.networkFlags) (encodePayloadHeader message.messages)
      (message.messages.map DataSetMessage.dataSetWriterId) := by
  obtain ⟨-, -, -, henabled, -⟩ := uadpFlags_bits message
  have hcount : (UInt8.ofNat message.messages.length).toNat = message.messages.length :=
    UInt8.toNat_ofNat_of_lt' (by simp only [UInt8.size]; omega)
  have hnonzero : UInt8.ofNat message.messages.length ≠ 0 := by
    intro hzero
    have hlen := List.length_pos_iff.mpr hsome
    rw [hzero] at hcount
    simp at hcount
    omega
  unfold decodePayloadHeader encodePayloadHeader
  simp only [henabled, if_true]
  apply (reads_u8 _ _).bind
  rw [if_neg hnonzero, hcount]
  have hids : ∀ messages : List DataSetMessage, List.Forall₂
      (Reads (Reader.u16 "truncated PayloadHeader writer ids"))
      (messages.map fun d => putU16 d.dataSetWriterId)
      (messages.map DataSetMessage.dataSetWriterId) := by
    intro messages
    induction messages with
    | nil => exact List.Forall₂.nil
    | cons d messages ih => exact List.Forall₂.cons (reads_u16 _ _) ih
  have htimes := Reads.times (hids message.messages)
  rwa [List.length_map] at htimes

theorem reads_extendedHeader (message : NetworkMessage) :
    Reads (decodeExtendedHeader message.networkFlags) [] () := by
  unfold decodeExtendedHeader
  apply (reads_skipIf_false _ _).bind_nil
  apply (reads_skipIf_false _ _).bind_nil
  exact (Reads.pure _).bind_nil (Reads.pure _)

theorem reads_sizes (message : NetworkMessage) {bodies : List Bytes} {sizes : Bytes}
    (hsizes : encodeSizes bodies = .ok sizes)
    (hlength : bodies.length = message.messages.length) :
    Reads (decodeSizes message.networkFlags message.messages.length) sizes
      (if 1 < bodies.length then bodies.map fun body => UInt16.ofNat body.length
        else []) := by
  obtain ⟨-, -, -, henabled, -⟩ := uadpFlags_bits message
  obtain ⟨-, rfl⟩ := encodeSizes_eq_ok.1 hsizes
  unfold decodeSizes
  rw [henabled, ← hlength]
  by_cases hmany : 1 < bodies.length
  · simp only [hmany, and_self, if_true]
    have hreads : ∀ bodies : List Bytes, List.Forall₂
        (Reads (Reader.u16 "truncated DataSetMessage sizes"))
        (bodies.map fun body => putU16 (UInt16.ofNat body.length))
        (bodies.map fun body => UInt16.ofNat body.length) := by
      intro bodies
      induction bodies with
      | nil => exact List.Forall₂.nil
      | cons body bodies ih => exact List.Forall₂.cons (reads_u16 _ _) ih
    have htimes := Reads.times (hreads bodies)
    rwa [List.length_map] at htimes
  · simp only [hmany, and_false, if_false]
    exact Reads.pure []

/-- The header that the decoder reads off an encoded message. -/
def NetworkMessage.header (message : NetworkMessage) (declaredSizes : List UInt16) :
    NetworkHeader :=
  { out :=
      { publisherIdType := message.publisherIdType
        publisherId := message.publisherId
        writerGroupIdEnabled := message.writerGroupIdEnabled
        writerGroupId := if message.writerGroupIdEnabled then message.writerGroupId else 0
        groupSequenceNumberEnabled := message.groupSequenceNumberEnabled
        groupSequenceNumber :=
          if message.groupSequenceNumberEnabled then message.groupSequenceNumber else 0 }
    writerIds := message.messages.map DataSetMessage.dataSetWriterId
    declaredSizes }

theorem matches_header_iff (message : NetworkMessage) (declaredSizes : List UInt16)
    (messages : List DataSetMessage) :
    message.Matches { (message.header declaredSizes).out with messages } ↔
      List.Forall₂ DataSetMessage.Matches message.messages messages := by
  simp +contextual [NetworkMessage.Matches, NetworkMessage.header]

/-- The bytes in front of the declared sizes read back. -/
theorem reads_networkFront (message : NetworkMessage)
    (hid : message.publisherId ≤ publisherIdMaximum message.publisherIdType)
    (hsome : message.messages ≠ []) (hfew : message.messages.length ≤ 255) :
    Reads decodeNetworkFront
      (encodeFlags message ++ (encodePublisherId message ++
        (encodeGroupHeader message ++ encodePayloadHeader message.messages)))
      { flags := message.networkFlags
        out := (message.header []).out
        writerIds := (message.header []).writerIds } := by
  unfold decodeNetworkFront
  apply (reads_flags message).bind
  apply (reads_publisherId message {} hid).bind
  apply (reads_skipIf_false _ _).bind_nil
  apply (reads_groupHeader message _).bind
  rw [← List.append_nil (encodePayloadHeader _)]
  apply (reads_payloadHeader message hsome hfew).bind
  apply (reads_extendedHeader message).bind_nil
  exact Reads.pure _

/-- The bytes in front of the first message read back as the header. -/
theorem reads_networkHeader (message : NetworkMessage) {bodies : List Bytes} {sizes : Bytes}
    (hid : message.publisherId ≤ publisherIdMaximum message.publisherIdType)
    (hsome : message.messages ≠ []) (hfew : message.messages.length ≤ 255)
    (hsizes : encodeSizes bodies = .ok sizes)
    (hlength : bodies.length = message.messages.length) :
    ∃ declaredSizes, Reads decodeNetworkHeader
        (encodeFlags message ++ (encodePublisherId message ++
          (encodeGroupHeader message ++ encodePayloadHeader message.messages)) ++ sizes)
        (message.header declaredSizes) := by
  have hreads := reads_sizes message hsizes hlength
  refine ⟨if 1 < bodies.length then bodies.map fun body => UInt16.ofNat body.length
    else [], ?_⟩
  apply (reads_networkFront message hid hsome hfew).bind
  simp only [NetworkMessage.header, List.length_map]
  exact hreads.map _

namespace NetworkMessage

/-- The messages that the round trip is about: the publisher id fits its type,
there are no keep-alives, all scalars lie in their range and none is a NaN. -/
structure Legal (message : NetworkMessage) : Prop where
  publisherId : message.publisherId ≤ publisherIdMaximum message.publisherIdType
  keyFrames : ∀ d ∈ message.messages, d.keepAlive = false
  inRange : ∀ d ∈ message.messages, ∀ v ∈ d.fields, v.inRange = true
  numbers : ∀ d ∈ message.messages, ∀ v ∈ d.fields, v.hasNaN = false

/-- The encoder throws, or the decoder accepts its bytes and brings back the
same message. -/
def RoundTrips (message : NetworkMessage) : Prop :=
  ∀ bytes, encodeNetworkMessage message = .ok bytes →
    ∃ out c, decodeDatagram bytes = .ok out c ∧ message.Matches out

end NetworkMessage

/-- An encoded message comes back exactly when each of its messages fits. -/
theorem recovers_networkMessage {message : NetworkMessage} {bytes : Bytes}
    (hlegal : message.Legal) (hbytes : encodeNetworkMessage message = .ok bytes) :
    Recovers decodeNetworkMessage bytes message.Matches
      (∀ d ∈ message.messages, d.fits = true) := by
  obtain ⟨hsome, hfew, bodies, sizes, hbodies, hsizes, rfl⟩ :=
    encodeNetworkMessage_eq_ok.1 hbytes
  have hall := mapM_eq_ok.1 hbodies
  obtain ⟨declaredSizes, hheader⟩ := reads_networkHeader message hlegal.publisherId hsome
    hfew hsizes hall.length_eq.symm
  have hmessages := recovers_messages hall hlegal.keyFrames hlegal.inRange hlegal.numbers
  simp only [← List.append_assoc] at hheader ⊢
  exact Recovers.bind_reads hheader (hmessages.map _ (matches_header_iff message declaredSizes))

/-- A message that can be encoded round trips exactly when it fits. -/
theorem roundTrips_iff_of_encoded {message : NetworkMessage} {bytes : Bytes}
    (hlegal : message.Legal) (hbytes : encodeNetworkMessage message = .ok bytes) :
    message.RoundTrips ↔ ∀ d ∈ message.messages, d.fits = true := by
  have hrecovers := recovers_networkMessage hlegal hbytes
  constructor
  · intro hround
    obtain ⟨out, c, hrun, hmatches⟩ := hround bytes hbytes
    exact hrecovers.fits_of_ok [] {} out c (by rwa [List.append_nil]) hmatches
  · intro hfits bytes' hbytes'
    cases hbytes.symm.trans hbytes'
    obtain ⟨out, hreads, hmatches⟩ := hrecovers.reads hfits
    obtain ⟨k, hrun⟩ := hreads [] {}
    rw [List.append_nil] at hrun
    exact ⟨out, _, hrun, hmatches⟩

/-- A legal message round trips exactly when the encoder refuses it or each of
its messages fits the counts on the wire and the limits of the decoder. -/
theorem roundTrips_iff (message : NetworkMessage) (hlegal : message.Legal) :
    message.RoundTrips ↔
      (message.encodable = true → ∀ d ∈ message.messages, d.fits = true) := by
  rw [← encodeNetworkMessage_ok_iff]
  constructor
  · rintro hround ⟨bytes, hbytes⟩
    exact (roundTrips_iff_of_encoded hlegal hbytes).mp hround
  · intro hfits bytes hbytes
    exact (roundTrips_iff_of_encoded hlegal hbytes).mpr (hfits ⟨bytes, hbytes⟩) bytes hbytes

/-- One DataSetMessage of `n` Boolean fields. -/
def booleanFields (n : Nat) : NetworkMessage :=
  { messages := [{ fields := List.replicate n (.makeBoolean true) }] }

theorem booleanFields_legal (n : Nat) : (booleanFields n).Legal := by
  constructor
  · simp only [booleanFields]
    decide
  · simp [booleanFields]
  · simp [booleanFields, WireValue.inRange, WireValue.scalarInRange, WireValue.makeBoolean]
  · simp [booleanFields, WireValue.hasNaN, WireValue.scalarIsNaN, WireValue.makeBoolean]

/-- The encoder never refuses such a message, whatever the number of fields. -/
theorem booleanFields_encodable (n : Nat) : (booleanFields n).encodable = true := by
  simp [booleanFields, NetworkMessage.encodable, DataSetMessage.encodable,
    WireValue.encodable, WireValue.makeBoolean, BuiltinType.named]

theorem booleanFields_fits_iff (n : Nat) :
    (∀ d ∈ (booleanFields n).messages, d.fits = true) ↔ n ≤ 0xFFFF := by
  simp [booleanFields, DataSetMessage.fits, WireValue.fits, WireValue.scalarFits,
    WireValue.makeBoolean]

theorem roundTrips_iff_booleanFields : (booleanFields 1000).RoundTrips := by
  have hfits := (booleanFields_fits_iff 1000).mpr (by decide)
  exact (roundTrips_iff _ (booleanFields_legal 1000)).mpr fun _ => hfits

/-- One field too many for the 16-bit count: the message is encoded, and the
decoder does not bring it back. -/
theorem booleanFields_not_roundTrips :
    (booleanFields 65536).Legal ∧ ¬ (booleanFields 65536).RoundTrips := by
  obtain ⟨bytes, hbytes⟩ :=
    (encodeNetworkMessage_ok_iff _).mpr (booleanFields_encodable 65536)
  refine ⟨booleanFields_legal 65536, ?_⟩
  rw [roundTrips_iff_of_encoded (booleanFields_legal 65536) hbytes, booleanFields_fits_iff]
  decide

end PubSub

end Supernova
