/-
What the encoder accepts and how many bytes it writes: the size of every part
is a function of the value alone, so the limits on sizes are conditions on the
message and not on what the encoder computed.
-/
import Supernova.PubSubWire

namespace Supernova

namespace PubSub

namespace WireValue

/-- The number of bytes of an encoded scalar body. -/
def scalarSize (v : WireValue) : Nat :=
  match v.type with
  | .null | .unnamed _ _ => 0
  | .boolean | .sByte | .byte => 1
  | .int16 | .uInt16 => 2
  | .int32 | .uInt32 | .float => 4
  | .int64 | .uInt64 | .double | .dateTime => 8
  | .string => 4 + v.string.length

/-- The number of bytes of an encoded value, its mask included. -/
def encodedSize (v : WireValue) : Nat :=
  if v.isArray then 1 + (4 + (v.elements.map scalarSize).sum) else 1 + v.scalarSize

/-- What the encoder accepts: named scalars, and arrays of one such type that
are not longer than its own limit. -/
def encodable (v : WireValue) : Bool :=
  if v.isArray then
    v.elements.length ≤ 0xFFFFFF &&
      v.elements.all fun e => e.type = v.type && !e.isArray && e.type.named
  else v.type.named

end WireValue

namespace DataSetMessage

def encodable (message : DataSetMessage) : Bool :=
  message.fields.all WireValue.encodable

def encodedSize (message : DataSetMessage) : Nat :=
  1 + ((if message.sequenceNumberEnabled then 2 else 0) +
    (2 + (message.fields.map WireValue.encodedSize).sum))

end DataSetMessage

/-- What the encoder accepts: one to 255 messages of encodable fields, each
small enough for a declared size when sizes are declared. -/
def NetworkMessage.encodable (message : NetworkMessage) : Bool :=
  !message.messages.isEmpty && message.messages.length ≤ 255 &&
    message.messages.all DataSetMessage.encodable &&
    (message.messages.length ≤ 1 ||
      message.messages.all fun d => d.encodedSize ≤ 0xFFFF)

theorem encodeScalarBody_ok_iff (v : WireValue) :
    (∃ body, encodeScalarBody v = .ok body) ↔ v.type.named = true := by
  cases htype : v.type <;>
    simp [encodeScalarBody, htype, BuiltinType.named, except_pure_eq_ok]

theorem encodeScalarBody_length {v : WireValue} {body : Bytes}
    (hbody : encodeScalarBody v = .ok body) : body.length = v.scalarSize := by
  cases htype : v.type <;> simp only [encodeScalarBody, htype] at hbody <;> cases hbody <;>
    simp [WireValue.scalarSize, htype, putU8, putU16, putU32, putU64, putString]

theorem encodeElement_eq_ok {type : BuiltinType} {e : WireValue} {body : Bytes} :
    encodeElement type e = .ok body ↔
      (e.type = type ∧ e.isArray = false) ∧ encodeScalarBody e = .ok body := by
  unfold encodeElement
  by_cases hmixed : e.type ≠ type ∨ e.isArray = true
  · rw [if_pos hmixed]
    simp only [except_throw_eq_ok, false_iff, not_and]
    intro hsame
    simp [hsame.1, hsame.2] at hmixed
  · rw [if_neg hmixed]
    push Not at hmixed
    simp [hmixed.1, hmixed.2]

/-- The bytes of an array that the encoder accepted. -/
theorem encodeVariant_array_eq_ok {v : WireValue} {bytes : Bytes} (harray : v.isArray = true) :
    encodeVariant v = .ok bytes ↔ v.elements.length ≤ 0xFFFFFF ∧ ∃ bodies,
      v.elements.mapM (encodeElement v.type) = .ok bodies ∧
      putU8 (v.type.code ||| VariantArrayValuesFlag) ++
        (putU32 (UInt32.ofNat v.elements.length) ++ bodies.flatten) = bytes := by
  rw [encodeVariant, if_pos harray]
  by_cases hlarge : 0xFFFFFF < v.elements.length
  · rw [if_pos hlarge]
    simp [Nat.not_le.mpr hlarge]
  · rw [if_neg hlarge, and_iff_right (not_lt.mp hlarge)]
    simp only [except_bind_eq_ok, except_pure_eq_ok]

theorem encodeVariant_scalar_eq_ok {v : WireValue} {bytes : Bytes}
    (hscalar : v.isArray = false) :
    encodeVariant v = .ok bytes ↔ ∃ body, encodeScalarBody v = .ok body ∧
      putU8 v.type.code ++ body = bytes := by
  rw [encodeVariant, if_neg (by simp [hscalar])]
  simp only [except_bind_eq_ok, except_pure_eq_ok]

/-- The elements of an array are encoded exactly when they are scalars of its type. -/
theorem encodeElements_ok_iff (type : BuiltinType) (elements : List WireValue) :
    (∃ bodies, elements.mapM (encodeElement type) = .ok bodies) ↔
      ∀ e ∈ elements, (e.type = type ∧ e.isArray = false) ∧ e.type.named = true := by
  apply exists_mapM_eq_ok
  intro e
  simp only [encodeElement_eq_ok, exists_and_left, encodeScalarBody_ok_iff]

theorem encodeElements_length {type : BuiltinType} {elements : List WireValue}
    {bodies : List Bytes} (hbodies : elements.mapM (encodeElement type) = .ok bodies) :
    bodies.flatten.length = (elements.map WireValue.scalarSize).sum := by
  have hsize : ∀ e body, encodeElement type e = .ok body →
      body.length = e.scalarSize := fun e body hbody =>
    encodeScalarBody_length (encodeElement_eq_ok.1 hbody).2
  rw [List.length_flatten, map_of_mapM_eq_ok hsize hbodies]

theorem encodeVariant_ok_iff (v : WireValue) :
    (∃ bytes, encodeVariant v = .ok bytes) ↔ v.encodable = true := by
  by_cases harray : v.isArray = true
  · simp only [encodeVariant_array_eq_ok harray, WireValue.encodable, harray, if_true,
      Bool.and_eq_true, decide_eq_true_eq, List.all_eq_true, Bool.not_eq_true']
    rw [← encodeElements_ok_iff]
    constructor
    · rintro ⟨bytes, hlength, bodies, hbodies, -⟩
      exact ⟨hlength, bodies, hbodies⟩
    · rintro ⟨hlength, bodies, hbodies⟩
      exact ⟨_, hlength, bodies, hbodies, rfl⟩
  · have hscalar : v.isArray = false := by simpa using harray
    simp only [encodeVariant_scalar_eq_ok hscalar, WireValue.encodable, hscalar]
    rw [if_neg (by decide), ← encodeScalarBody_ok_iff]
    constructor
    · rintro ⟨bytes, body, hbody, -⟩
      exact ⟨body, hbody⟩
    · rintro ⟨body, hbody⟩
      exact ⟨_, body, hbody, rfl⟩

theorem encodeVariant_length {v : WireValue} {bytes : Bytes}
    (hbytes : encodeVariant v = .ok bytes) : bytes.length = v.encodedSize := by
  by_cases harray : v.isArray = true
  · obtain ⟨-, bodies, hbodies, rfl⟩ := (encodeVariant_array_eq_ok harray).mp hbytes
    simp [WireValue.encodedSize, harray, putU8, putU32, encodeElements_length hbodies]
    omega
  · have hscalar : v.isArray = false := by simpa using harray
    obtain ⟨body, hbody, rfl⟩ := (encodeVariant_scalar_eq_ok hscalar).mp hbytes
    simp [WireValue.encodedSize, hscalar, putU8, encodeScalarBody_length hbody]
    omega

/-- The bytes of an encoded DataSetMessage. -/
theorem encodeDataSetMessage_eq_ok {message : DataSetMessage} {bytes : Bytes} :
    encodeDataSetMessage message = .ok bytes ↔ ∃ chunks,
      message.fields.mapM encodeVariant = .ok chunks ∧
      bytes = putU8 (dataSetFlags1 message) ++
        ((if message.sequenceNumberEnabled then putU16 message.sequenceNumber else []) ++
          (putU16 (UInt16.ofNat message.fields.length) ++ chunks.flatten)) := by
  unfold encodeDataSetMessage
  cases hchunks : message.fields.mapM encodeVariant with
  | error e => simp [bind, Except.bind]
  | ok chunks =>
      constructor
      · intro h
        cases h
        exact ⟨chunks, rfl, rfl⟩
      · rintro ⟨chunks', h, rfl⟩
        cases h
        rfl

/-- The fields of a message are encoded exactly when each is encodable. -/
theorem encodeDataSetMessage_ok_iff (message : DataSetMessage) :
    (∃ bytes, encodeDataSetMessage message = .ok bytes) ↔ message.encodable = true := by
  rw [DataSetMessage.encodable, List.all_eq_true, ← exists_mapM_eq_ok encodeVariant_ok_iff]
  constructor
  · rintro ⟨bytes, hbytes⟩
    obtain ⟨chunks, hchunks, -⟩ := encodeDataSetMessage_eq_ok.1 hbytes
    exact ⟨chunks, hchunks⟩
  · rintro ⟨chunks, hchunks⟩
    exact ⟨_, encodeDataSetMessage_eq_ok.2 ⟨chunks, hchunks, rfl⟩⟩

theorem encodeDataSetMessage_length {message : DataSetMessage} {bytes : Bytes}
    (hbytes : encodeDataSetMessage message = .ok bytes) :
    bytes.length = message.encodedSize := by
  obtain ⟨chunks, hchunks, rfl⟩ := encodeDataSetMessage_eq_ok.1 hbytes
  have hsum : chunks.flatten.length = (message.fields.map WireValue.encodedSize).sum := by
    rw [List.length_flatten, map_of_mapM_eq_ok (fun _ _ => encodeVariant_length) hchunks]
  cases h : message.sequenceNumberEnabled <;>
    simp [DataSetMessage.encodedSize, h, putU8, putU16, hsum] <;> omega

theorem encodeSize_eq_ok {body chunk : Bytes} :
    encodeSize body = .ok chunk ↔
      body.length ≤ 0xFFFF ∧ putU16 (UInt16.ofNat body.length) = chunk := by
  unfold encodeSize
  split
  · rename_i hlarge
    simp only [except_throw_eq_ok, false_iff, not_and]
    intro hsmall
    exact absurd hlarge (not_lt.mpr hsmall)
  · rename_i hsmall
    rw [except_pure_eq_ok, and_iff_right (not_lt.mp hsmall)]

/-- The sizes of an encoded message, present when there is more than one body. -/
theorem encodeSizes_eq_ok {bodies : List Bytes} {sizes : Bytes} :
    encodeSizes bodies = .ok sizes ↔
      (1 < bodies.length → ∀ body ∈ bodies, body.length ≤ 0xFFFF) ∧
      (if 1 < bodies.length then
        (bodies.map fun body => putU16 (UInt16.ofNat body.length)).flatten else []) =
        sizes := by
  unfold encodeSizes
  by_cases hmany : 1 < bodies.length
  · simp only [hmany, if_true, true_imp_iff, except_bind_eq_ok, except_pure_eq_ok,
      mapM_eq_ok_of_check fun _ _ => encodeSize_eq_ok]
    constructor
    · rintro ⟨chunks, ⟨hsmall, rfl⟩, rfl⟩
      exact ⟨hsmall, rfl⟩
    · rintro ⟨hsmall, rfl⟩
      exact ⟨_, ⟨hsmall, rfl⟩, rfl⟩
  · simp [hmany, except_pure_eq_ok]

/-- What the encoder returns when it does not throw. -/
theorem encodeNetworkMessage_eq_ok {message : NetworkMessage} {bytes : Bytes} :
    encodeNetworkMessage message = .ok bytes ↔
      message.messages ≠ [] ∧ message.messages.length ≤ 255 ∧ ∃ bodies sizes,
        message.messages.mapM encodeDataSetMessage = .ok bodies ∧
        encodeSizes bodies = .ok sizes ∧
        encodeFlags message ++ (encodePublisherId message ++
          (encodeGroupHeader message ++ (encodePayloadHeader message.messages ++
            (sizes ++ bodies.flatten)))) = bytes := by
  unfold encodeNetworkMessage
  by_cases hempty : message.messages = []
  · simp [hempty]
  · by_cases hmany : 255 < message.messages.length
    · simp [hempty, hmany, Nat.not_le.mpr hmany]
    · simp only [List.isEmpty_iff, hempty, hmany, if_false, except_bind_eq_ok,
        except_pure_eq_ok, ne_eq, not_false_eq_true, true_and, not_lt.mp hmany]
      constructor
      · rintro ⟨bodies, hbodies, sizes, hsizes, h⟩
        exact ⟨bodies, sizes, hbodies, hsizes, h⟩
      · rintro ⟨bodies, sizes, hbodies, hsizes, h⟩
        exact ⟨bodies, hbodies, sizes, hsizes, h⟩

/-- The encoder returns bytes exactly for the encodable messages. -/
theorem encodeNetworkMessage_ok_iff (message : NetworkMessage) :
    (∃ bytes, encodeNetworkMessage message = .ok bytes) ↔ message.encodable = true := by
  have hsmall : ∀ bodies, message.messages.mapM encodeDataSetMessage = .ok bodies →
      ((∃ sizes, encodeSizes bodies = .ok sizes) ↔
        (1 < message.messages.length → ∀ d ∈ message.messages, d.encodedSize ≤ 0xFFFF)) := by
    intro bodies hbodies
    have hlength := (mapM_eq_ok.1 hbodies).length_eq
    have hsizes := map_of_mapM_eq_ok (fun _ _ => encodeDataSetMessage_length) hbodies
    have hbounds : (∀ body ∈ bodies, body.length ≤ 0xFFFF) ↔
        ∀ d ∈ message.messages, d.encodedSize ≤ 0xFFFF := by
      rw [← List.forall_mem_map (f := List.length) (P := fun n => n ≤ 0xFFFF), hsizes,
        List.forall_mem_map]
    simp only [encodeSizes_eq_ok, exists_and_left, exists_eq', and_true, hlength, hbounds]
  have hbodies : (∃ bodies, message.messages.mapM encodeDataSetMessage = .ok bodies) ↔
      ∀ d ∈ message.messages, d.encodable = true :=
    exists_mapM_eq_ok encodeDataSetMessage_ok_iff
  simp only [encodeNetworkMessage_eq_ok, NetworkMessage.encodable, Bool.and_eq_true,
    Bool.not_eq_true', List.isEmpty_eq_false_iff, decide_eq_true_eq, List.all_eq_true,
    Bool.or_eq_true, ← hbodies]
  constructor
  · rintro ⟨bytes, hsome, hfew, bodies, sizes, hencoded, hsizes, -⟩
    refine ⟨⟨⟨hsome, hfew⟩, bodies, hencoded⟩, ?_⟩
    have hbound := (hsmall bodies hencoded).mp ⟨sizes, hsizes⟩
    exact (Nat.lt_or_ge 1 _).symm.imp_right hbound
  · rintro ⟨⟨⟨hsome, hfew⟩, bodies, hencoded⟩, hbound⟩
    obtain ⟨sizes, hsizes⟩ := (hsmall bodies hencoded).mpr fun hmany =>
      hbound.resolve_left (Nat.not_le.mpr hmany)
    exact ⟨_, hsome, hfew, bodies, sizes, hencoded, hsizes, rfl⟩

end PubSub

end Supernova
