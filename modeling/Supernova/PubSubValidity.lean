/-
DataSetMessages whose flags mark them as not valid, or whose field encoding is
the reserved value.  The decoder looks at neither: such a message delivers
nothing exactly when it is a keep-alive or announces no field.
-/
import Supernova.PubSubFiltering
import Supernova.PubSubWireFraming

namespace Supernova

namespace PubSub

open Scanner

section Layout

/-- The first byte of a DataSetMessage. -/
def statedFlags1 (chunk : Bytes) : UInt8 := chunk.headD 0

/-- The valid bit is clear, or the field encoding bits hold the reserved value. -/
def InvalidFlags (flags1 : UInt8) : Prop :=
  flags1 &&& DsmValid = 0 ∨ (flags1 &&& DsmFieldEncodingMask) >>> 1 = 3

instance (flags1 : UInt8) : Decidable (InvalidFlags flags1) :=
  inferInstanceAs (Decidable (_ ∨ _))

/-- What the flag bytes at the front of a DataSetMessage say. -/
def statedFlags (chunk : Bytes) : DataSetFlags :=
  if statedFlags1 chunk &&& DsmFlags2Enabled ≠ 0 then
    { flags1 := statedFlags1 chunk
      messageType := chunk.getD 1 0 &&& Dsm2TypeMask
      timestampPresent := chunk.getD 1 0 &&& Dsm2TimestampEnabled ≠ 0
      picosecondsPresent := chunk.getD 1 0 &&& Dsm2PicosecondsEnabled ≠ 0 }
  else { flags1 := statedFlags1 chunk }

/-- How many flag bytes there are. -/
def flagBytes (chunk : Bytes) : Nat :=
  if statedFlags1 chunk &&& DsmFlags2Enabled ≠ 0 then 2 else 1

/-- The bytes of the optional header fields behind the flags. -/
def optionalBytes (flags : DataSetFlags) : Nat :=
  (if flags.has DsmSequenceNumberEnabled then 2 else 0) +
    (if flags.timestampPresent then 8 else 0) +
    (if flags.picosecondsPresent then 2 else 0) +
    (if flags.has DsmStatusEnabled then 2 else 0) +
    (if flags.has DsmConfigMajorEnabled then 4 else 0) +
    (if flags.has DsmConfigMinorEnabled then 4 else 0)

/-- The number of fields that a DataSetMessage announces behind its header. -/
def statedFieldCount (chunk : Bytes) : Nat :=
  ofLittleEndian ((chunk.drop (flagBytes chunk + optionalBytes (statedFlags chunk))).take 2)

/-- A keep-alive, or a message that announces no field. -/
def CarriesNoField (chunk : Bytes) : Prop :=
  (statedFlags chunk).messageType = DsmTypeKeepAlive ∨ statedFieldCount chunk = 0

theorem take_eq_ok {n : Nat} {diagnostic : String} {c c' : Cursor UInt8 Built} {bytes : Bytes}
    (h : (Scanner.take n diagnostic : Reader Bytes) c = .ok bytes c') :
    n ≤ c.rest.length ∧ bytes = c.rest.take n ∧ c'.rest = c.rest.drop n := by
  unfold Scanner.take at h
  split at h
  · rename_i hn
    cases h
    exact ⟨hn, rfl, rfl⟩
  · cases h

theorem u8_eq_ok {diagnostic : String} {c c' : Cursor UInt8 Built} {v : UInt8}
    (h : Reader.u8 diagnostic c = .ok v c') : c.rest = v :: c'.rest := by
  obtain ⟨bytes, c₁, htake, hpure⟩ := bind_eq_ok.1 h
  cases hpure
  obtain ⟨hlength, rfl, hrest⟩ := take_eq_ok htake
  cases hbytes : c.rest with
  | nil => simp [hbytes] at hlength
  | cons b r =>
      rw [hrest, hbytes]
      simp [ofLittleEndian]

theorem u16_eq_ok {diagnostic : String} {c c' : Cursor UInt8 Built} {v : UInt16}
    (h : Reader.u16 diagnostic c = .ok v c') :
    v.toNat = ofLittleEndian (c.rest.take 2) ∧ c'.rest = c.rest.drop 2 := by
  obtain ⟨bytes, c₁, htake, hpure⟩ := bind_eq_ok.1 h
  cases hpure
  obtain ⟨hlength, rfl, hrest⟩ := take_eq_ok htake
  have hlt := ofLittleEndian_lt (c.rest.take 2)
  rw [List.length_take_of_le hlength] at hlt
  exact ⟨UInt16.toNat_ofNat_of_lt' hlt, hrest⟩

theorem skipIf_eq_ok {present : Bool} {n : Nat} {diagnostic : String}
    {c c' : Cursor UInt8 Built} (h : Reader.skipIf present n diagnostic c = .ok () c') :
    c'.rest = c.rest.drop (if present then n else 0) := by
  cases present with
  | false =>
      cases h
      rfl
  | true =>
      obtain ⟨bytes, c₁, htake, hpure⟩ := bind_eq_ok.1 h
      cases hpure
      exact (take_eq_ok htake).2.2

theorem decodeDataSetFlags_eq_ok {c c' : Cursor UInt8 Built} {flags : DataSetFlags}
    (h : decodeDataSetFlags c = .ok flags c') :
    flags = statedFlags c.rest ∧ c'.rest = c.rest.drop (flagBytes c.rest) := by
  obtain ⟨flags1, c₁, hflags1, h⟩ := bind_eq_ok.1 h
  have hrest := u8_eq_ok hflags1
  have hstated : statedFlags1 c.rest = flags1 := by rw [hrest]; rfl
  rw [statedFlags, flagBytes, hstated]
  split at h
  · rename_i hpresent
    obtain ⟨flags2, c₂, hflags2, hpure⟩ := bind_eq_ok.1 h
    cases hpure
    rw [if_pos hpresent, if_pos hpresent, hrest, u8_eq_ok hflags2]
    exact ⟨rfl, rfl⟩
  · rename_i habsent
    cases h
    rw [if_neg habsent, if_neg habsent, hrest]
    exact ⟨rfl, rfl⟩

theorem decodeDataSetHeader_eq_ok {flags : DataSetFlags} {c c' : Cursor UInt8 Built}
    {sequenceNumber : Option UInt16} (h : decodeDataSetHeader flags c = .ok sequenceNumber c') :
    c'.rest = c.rest.drop (optionalBytes flags) := by
  have hskips : ∀ {found : Option UInt16} {c₁ : Cursor UInt8 Built}, (do
      Reader.skipIf flags.timestampPresent 8 "truncated DataSetMessage timestamp"
      Reader.skipIf flags.picosecondsPresent 2 "truncated DataSetMessage picoseconds"
      Reader.skipIf (flags.has DsmStatusEnabled) 2 "truncated DataSetMessage status"
      Reader.skipIf (flags.has DsmConfigMajorEnabled) 4 "truncated config major version"
      Reader.skipIf (flags.has DsmConfigMinorEnabled) 4 "truncated config minor version"
      pure found : Reader (Option UInt16)) c₁ = .ok sequenceNumber c' →
      c₁.rest = c.rest.drop (if flags.has DsmSequenceNumberEnabled then 2 else 0) →
      c'.rest = c.rest.drop (optionalBytes flags) := by
    intro found c₁ hrun hfirst
    obtain ⟨_, c₂, htimestamp, hrun₂⟩ := bind_eq_ok.1 hrun
    obtain ⟨_, c₃, hpicoseconds, hrun₃⟩ := bind_eq_ok.1 hrun₂
    obtain ⟨_, c₄, hstatus, hrun₄⟩ := bind_eq_ok.1 hrun₃
    obtain ⟨_, c₅, hmajor, hrun₅⟩ := bind_eq_ok.1 hrun₄
    obtain ⟨_, c₆, hminor, hpure⟩ := bind_eq_ok.1 hrun₅
    obtain rfl : c₆ = c' := by
      cases hpure
      rfl
    rw [skipIf_eq_ok hminor, skipIf_eq_ok hmajor, skipIf_eq_ok hstatus,
      skipIf_eq_ok hpicoseconds, skipIf_eq_ok htimestamp, hfirst]
    simp only [List.drop_drop, optionalBytes]
  unfold decodeDataSetHeader at h
  split at h
  · rename_i hhas
    obtain ⟨v, c₁, hv, h⟩ := bind_eq_ok.1 h
    exact hskips h (by rw [(u16_eq_ok hv).2, if_pos hhas])
  · rename_i hhas
    exact hskips h (by rw [if_neg hhas, List.drop_zero])

/-- A decoded message is a keep-alive, or has as many fields as its bytes announce. -/
theorem decodeDataSetMessage_eq_ok {writerId : UInt16} {c c' : Cursor UInt8 Built}
    {message : DataSetMessage} (h : decodeDataSetMessage writerId c = .ok message c') :
    (message.keepAlive = true ↔ (statedFlags c.rest).messageType = DsmTypeKeepAlive) ∧
      (message.keepAlive = false → message.fields.length = statedFieldCount c.rest) := by
  obtain ⟨flags, c₁, hflags, h⟩ := bind_eq_ok.1 h
  obtain ⟨sequenceNumber, c₂, hheader, h⟩ := bind_eq_ok.1 h
  obtain ⟨rfl, hrest⟩ := decodeDataSetFlags_eq_ok hflags
  have hbehind := decodeDataSetHeader_eq_ok hheader
  rw [hrest, List.drop_drop] at hbehind
  dsimp only at h
  split at h
  · rename_i hkeepAlive
    cases h
    exact ⟨iff_of_true rfl hkeepAlive, fun h => by cases h⟩
  · rename_i hkeepAlive
    split at h
    · cases h
    · split at h
      · cases h
      · obtain ⟨fields, c₃, hfields, hpure⟩ := bind_eq_ok.1 h
        cases hpure
        obtain ⟨fieldCount, c₄, hcount, htimes⟩ := bind_eq_ok.1 hfields
        refine ⟨iff_of_false Bool.false_ne_true hkeepAlive, fun _ => ?_⟩
        rw [length_of_times htimes, (u16_eq_ok hcount).1, hbehind, statedFieldCount]

end Layout

/-- An accepted datagram decodes to `out`, and its message `dsm` is read from the bytes
`chunk` of the payload. -/
def DecodesFrom (data : Bytes) (out : NetworkMessage) (dsm : DataSetMessage) (chunk : Bytes) :
    Prop :=
  ∃ header c₁ c chunks, decodeNetworkHeader ⟨data, {}⟩ = .ok header c₁ ∧
    decodeDatagram data = .ok out c ∧ c₁.rest = chunks.flatten ++ c.rest ∧
    List.Forall₂ ReadFrom out.messages chunks ∧ (dsm, chunk) ∈ out.messages.zip chunks

/-- Whatever the readers are when the message loop comes to the message, it writes
to no target and marks no reader as having seen data. -/
def DeliversNothing (message : NetworkMessage) (dsm : DataSetMessage) : Prop :=
  ∀ (signalled : Nat → Bool) (m : Nat) (readers : OrderedMap ReaderKey ReaderRuntime),
    (∀ key target value,
      (key, Reaction.write target value) ∉
        (handleMessages signalled message m [dsm] readers).2) ∧
    ∀ key, ((handleMessages signalled message m [dsm] readers).1.find? key).map
      ReaderRuntime.dataSeen = (readers.find? key).map ReaderRuntime.dataSeen

/-- A reader with one target that has seen nothing yet. -/
def freshReader (key : ReaderKey) : ReaderRuntime :=
  { publisherIdType := .uInt16
    publisherId := key.publisherId
    writerGroupId := key.writerGroupId
    dataSetWriterId := key.dataSetWriterId
    ownerTag := []
    host := []
    port := 0
    targets := [0]
    onFirstData := none
    firstDataSignalled := false
    dataSeen := false }

theorem deliversNothing_iff_fields (message : NetworkMessage) (dsm : DataSetMessage) :
    DeliversNothing message dsm ↔ dsm.keepAlive = true ∨ dsm.fields = [] := by
  constructor
  · intro h
    by_contra hdelivers
    rw [not_or, Bool.not_eq_true] at hdelivers
    obtain ⟨hkeepAlive, hfields⟩ := hdelivers
    let key := messageKey message dsm
    have hmarks := (h (fun _ => true) 0 (OrderedMap.empty.assign key (freshReader key))).2 key
    have hlength : ¬ min dsm.fields.length 1 = 0 := by
      have := List.length_pos_of_ne_nil hfields
      omega
    have hfind : (OrderedMap.empty.assign key (freshReader key)).find? key =
        some (freshReader key) := by
      rw [OrderedMap.find?_assign, if_pos rfl]
    have happlied : (applyMessage true dsm.fields (freshReader key)).1.dataSeen = true := by
      change (if min dsm.fields.length 1 = 0 then _ else _ : ReaderRuntime × _).1.dataSeen = true
      rw [if_neg hlength]
      rfl
    rw [handleMessages, hkeepAlive, if_neg Bool.false_ne_true] at hmarks
    simp only [key] at hfind happlied hmarks
    simp only [hfind, handleMessages, OrderedMap.find?_assign, if_true, Option.map_some,
      happlied] at hmarks
    cases hmarks
  · rintro (hkeepAlive | hfields) signalled m readers
    · rw [handleMessages, if_pos hkeepAlive]
      exact ⟨fun _ _ _ => List.not_mem_nil, fun _ => rfl⟩
    · rw [handleMessages]
      split
      · exact ⟨fun _ _ _ => List.not_mem_nil, fun _ => rfl⟩
      · cases hfind : readers.find? (messageKey message dsm) with
        | none => exact ⟨fun _ _ _ => List.not_mem_nil, fun _ => rfl⟩
        | some reader =>
            have happlied : applyMessage (signalled m) dsm.fields reader = (reader, []) := by
              rw [applyMessage, hfields, List.length_nil, Nat.zero_min, if_pos rfl]
            simp only [happlied, handleMessages, List.map_nil, List.nil_append]
            refine ⟨fun _ _ _ => List.not_mem_nil, fun key => ?_⟩
            rw [OrderedMap.find?_assign]
            split
            · rename_i hkey
              rw [hkey, hfind]
            · rfl

/-- A decoded message delivers nothing exactly when its bytes carry no field. -/
theorem deliversNothing_iff_chunk {data chunk : Bytes} {out : NetworkMessage}
    {dsm : DataSetMessage} (h : DecodesFrom data out dsm chunk) :
    DeliversNothing out dsm ↔ CarriesNoField chunk := by
  obtain ⟨header, c₁, c, chunks, -, -, -, hall, hmem⟩ := h
  have hread : ReadFrom dsm chunk := (List.forall₂_iff_zip.mp hall).2 hmem
  obtain ⟨k, hrun⟩ := hread [] {}
  rw [List.append_nil] at hrun
  obtain ⟨hkeepAlive, hfields⟩ := decodeDataSetMessage_eq_ok hrun
  rw [deliversNothing_iff_fields, CarriesNoField, ← hkeepAlive]
  refine or_congr_right' fun hnot => ?_
  rw [← hfields (Bool.not_eq_true _ ▸ hnot), List.length_eq_zero_iff]

/-- The messages of a datagram whose flags are invalid deliver nothing exactly when
each of them carries no field: the decoder looks neither at the valid bit nor for the
reserved field encoding. -/
theorem invalid_deliversNothing_iff (data : Bytes) :
    (∀ out dsm chunk, DecodesFrom data out dsm chunk → InvalidFlags (statedFlags1 chunk) →
      DeliversNothing out dsm) ↔
    ∀ out dsm chunk, DecodesFrom data out dsm chunk → InvalidFlags (statedFlags1 chunk) →
      CarriesNoField chunk := by
  constructor
  · intro h out dsm chunk hdecodes hinvalid
    exact (deliversNothing_iff_chunk hdecodes).mp (h out dsm chunk hdecodes hinvalid)
  · intro h out dsm chunk hdecodes hinvalid
    exact (deliversNothing_iff_chunk hdecodes).mpr (h out dsm chunk hdecodes hinvalid)

section Counterexample

theorem decodesFrom_single {data chunk : Bytes} {header : NetworkHeader} {out : NetworkMessage}
    {dsm : DataSetMessage} {c₁ c c' : Cursor UInt8 Built}
    (hheader : decodeNetworkHeader ⟨data, {}⟩ = .ok header c₁)
    (hdecode : decodeDatagram data = .ok out c) (hrest : c₁.rest = chunk) (hc : c.rest = [])
    (hmessages : out.messages = [dsm])
    (hrun : decodeDataSetMessage dsm.dataSetWriterId ⟨chunk, {}⟩ = .ok dsm c')
    (hc' : c'.rest = []) : DecodesFrom data out dsm chunk := by
  obtain ⟨xs, hxs, hreads⟩ := exact_dataSetMessage _ _ _ _ hrun
  have hchunk : chunk = xs := by simpa [hc'] using hxs
  refine ⟨header, c₁, c, [chunk], hheader, hdecode, by simp [hrest, hc], ?_, ?_⟩
  · rw [hmessages, hchunk]
    exact .cons hreads .nil
  · rw [hmessages]
    exact List.mem_singleton_self _

/-- The valid bit is clear, and there is one field, a Boolean. -/
def notValidDatagram : Bytes := [1, 0, 1, 0, 1, 1]

/-- The field encoding is the reserved value, and there is one field, a data value. -/
def reservedEncodingDatagram : Bytes := [1, 7, 1, 0, 1, 1, 1]

/-- Both datagrams are accepted, deliver their field to a reader and mark it. -/
theorem invalid_delivered :
    (∃ out dsm chunk, DecodesFrom notValidDatagram out dsm chunk ∧
      statedFlags1 chunk &&& DsmValid = 0 ∧ ¬ DeliversNothing out dsm) ∧
    (∃ out dsm chunk, DecodesFrom reservedEncodingDatagram out dsm chunk ∧
      (statedFlags1 chunk &&& DsmFieldEncodingMask) >>> 1 = 3 ∧ ¬ DeliversNothing out dsm) ∧
    ∀ data ∈ [notValidDatagram, reservedEncodingDatagram],
      (handleDatagram (zeroReader.foldl handle initial) (fun _ => true) data).2 =
        [(⟨0, 0, 0⟩, .write 0 (.scalar (.boolean true)))] ∧
      (((handleDatagram (zeroReader.foldl handle initial) (fun _ => true) data).1.readers.find?
        ⟨0, 0, 0⟩).map ReaderRuntime.dataSeen) = some true := by
  refine ⟨⟨_, _, _, decodesFrom_single rfl rfl rfl rfl rfl rfl rfl, rfl, ?_⟩,
    ⟨_, _, _, decodesFrom_single rfl rfl rfl rfl rfl rfl rfl, rfl, ?_⟩, by decide⟩
  · rw [deliversNothing_iff_fields]
    decide
  · rw [deliversNothing_iff_fields]
    decide

end Counterexample

end PubSub

end Supernova
