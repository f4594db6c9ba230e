/-
What the decoder reads off the bytes of any message that was encoded, with the
narrowing of the numbers written out.  No range is assumed of the values.
-/
import Supernova.PubSubWireRoundTrip

namespace Supernova

namespace PubSub

open Scanner

namespace WireValue

/-- The scalar that is read where `v` was written. -/
def receivedScalar (v : WireValue) : WireValue :=
  match v.type with
  | .null | .unnamed _ _ => .makeNull
  | .boolean => .makeBoolean v.boolValue
  | .sByte => .makeSigned .sByte (Int64.ofInt (toSigned 8 (lowBits 8 v.int)))
  | .byte => .makeUnsigned .byte (UInt64.ofNat (v.uint.toNat % 2 ^ 8))
  | .int16 => .makeSigned .int16 (Int64.ofInt (toSigned 16 (lowBits 16 v.int)))
  | .uInt16 => .makeUnsigned .uInt16 (UInt64.ofNat (v.uint.toNat % 2 ^ 16))
  | .int32 => .makeSigned .int32 (Int64.ofInt (toSigned 32 (lowBits 32 v.int)))
  | .uInt32 => .makeUnsigned .uInt32 (UInt64.ofNat (v.uint.toNat % 2 ^ 32))
  | .int64 => .makeSigned .int64 v.int
  | .uInt64 => .makeUnsigned .uInt64 v.uint
  | .float => .makeFloat v.float.toSingle
  | .double => .makeDouble v.float
  | .string => .makeString v.string
  | .dateTime => .makeDateTime v.int

def received (v : WireValue) : WireValue :=
  if v.isArray then .makeArray v.type (v.elements.map receivedScalar) else v.receivedScalar

end WireValue

def DataSetMessage.received (message : DataSetMessage) : DataSetMessage :=
  { dataSetWriterId := message.dataSetWriterId
    sequenceNumberEnabled := message.sequenceNumberEnabled
    sequenceNumber := if message.sequenceNumberEnabled then message.sequenceNumber else 0
    fields := message.fields.map WireValue.received }

namespace NetworkMessage

/-- The publisher id as far as its type has room for it. -/
def receivedPublisherId (message : NetworkMessage) : UInt64 :=
  match message.publisherIdType with
  | .byte => UInt64.ofNat (message.publisherId.toNat % 2 ^ 8)
  | .uInt16 => UInt64.ofNat (message.publisherId.toNat % 2 ^ 16)
  | .uInt32 => UInt64.ofNat (message.publisherId.toNat % 2 ^ 32)
  | .uInt64 => message.publisherId

def received (message : NetworkMessage) : NetworkMessage :=
  { publisherIdType := message.publisherIdType
    publisherId := message.receivedPublisherId
    writerGroupIdEnabled := message.writerGroupIdEnabled
    writerGroupId := if message.writerGroupIdEnabled then message.writerGroupId else 0
    groupSequenceNumberEnabled := message.groupSequenceNumberEnabled
    groupSequenceNumber :=
      if message.groupSequenceNumberEnabled then message.groupSequenceNumber else 0
    messages := message.messages.map DataSetMessage.received }

end NetworkMessage

theorem lowBits_64 (v : Int64) : Int64.ofInt (toSigned 64 (lowBits 64 v)) = v :=
  ofInt_toSigned_lowBits (by decide) (Int64.le_toInt v) (Int64.toInt_lt v)

/-- Every scalar is read back with its numbers narrowed to their wire width. -/
theorem reads_scalarBody {v : WireValue} {body : Bytes} (hbody : encodeScalarBody v = .ok body)
    (hfits : v.scalarFits = true) :
    Reads (decodeScalarBody v.type.code) body v.receivedScalar := by
  have hlt := fun bits => lowBits_lt bits v.int
  have h8 : (UInt8.ofNat (lowBits 8 v.int)).toNat = lowBits 8 v.int :=
    UInt8.toNat_ofNat_of_lt' (hlt 8)
  have h16 : (UInt16.ofNat (lowBits 16 v.int)).toNat = lowBits 16 v.int :=
    UInt16.toNat_ofNat_of_lt' (hlt 16)
  have h32 : (UInt32.ofNat (lowBits 32 v.int)).toNat = lowBits 32 v.int :=
    UInt32.toNat_ofNat_of_lt' (hlt 32)
  have h64 : (UInt64.ofNat (lowBits 64 v.int)).toNat = lowBits 64 v.int :=
    UInt64.toNat_ofNat_of_lt' (hlt 64)
  cases htype : v.type with
  | null =>
      simp only [encodeScalarBody, htype] at hbody
      cases hbody
      simp only [WireValue.receivedScalar, htype]
      exact Reads.pure _
  | boolean =>
      simp only [encodeScalarBody, htype] at hbody
      cases hbody
      simp only [WireValue.receivedScalar, htype]
      cases v.boolValue with
      | false => exact (reads_u8 _ 0).map fun b => WireValue.makeBoolean (b ≠ 0)
      | true => exact (reads_u8 _ 1).map fun b => WireValue.makeBoolean (b ≠ 0)
  | sByte =>
      simp only [encodeScalarBody, htype] at hbody
      cases hbody
      have h := (reads_u8 "truncated SByte" (UInt8.ofNat (lowBits 8 v.int))).map
        fun n => WireValue.makeSigned .sByte (Int64.ofInt (toSigned 8 n.toNat))
      rw [h8] at h
      simp only [WireValue.receivedScalar, htype]
      exact h
  | byte =>
      simp only [encodeScalarBody, htype] at hbody
      cases hbody
      have h := (reads_u8 "truncated Byte" (UInt8.ofNat v.uint.toNat)).map
        fun n => WireValue.makeUnsigned .byte (UInt64.ofNat n.toNat)
      rw [UInt8.toNat_ofNat'] at h
      simp only [WireValue.receivedScalar, htype]
      exact h
  | int16 =>
      simp only [encodeScalarBody, htype] at hbody
      cases hbody
      have h := (reads_u16 "truncated Int16" (UInt16.ofNat (lowBits 16 v.int))).map
        fun n => WireValue.makeSigned .int16 (Int64.ofInt (toSigned 16 n.toNat))
      rw [h16] at h
      simp only [WireValue.receivedScalar, htype]
      exact h
  | uInt16 =>
      simp only [encodeScalarBody, htype] at hbody
      cases hbody
      have h := (reads_u16 "truncated UInt16" (UInt16.ofNat v.uint.toNat)).map
        fun n => WireValue.makeUnsigned .uInt16 (UInt64.ofNat n.toNat)
      rw [UInt16.toNat_ofNat'] at h
      simp only [WireValue.receivedScalar, htype]
      exact h
  | int32 =>
      simp only [encodeScalarBody, htype] at hbody
      cases hbody
      have h := (reads_u32 "truncated Int32" (UInt32.ofNat (lowBits 32 v.int))).map
        fun n => WireValue.makeSigned .int32 (Int64.ofInt (toSigned 32 n.toNat))
      rw [h32] at h
      simp only [WireValue.receivedScalar, htype]
      exact h
  | uInt32 =>
      simp only [encodeScalarBody, htype] at hbody
      cases hbody
      have h := (reads_u32 "truncated UInt32" (UInt32.ofNat v.uint.toNat)).map
        fun n => WireValue.makeUnsigned .uInt32 (UInt64.ofNat n.toNat)
      rw [UInt32.toNat_ofNat'] at h
      simp only [WireValue.receivedScalar, htype]
      exact h
  | int64 =>
      simp only [encodeScalarBody, htype] at hbody
      cases hbody
      have h := (reads_u64 "truncated Int64" (UInt64.ofNat (lowBits 64 v.int))).map
        fun n => WireValue.makeSigned .int64 (Int64.ofInt (toSigned 64 n.toNat))
      rw [h64, lowBits_64] at h
      simp only [WireValue.receivedScalar, htype]
      exact h
  | uInt64 =>
      simp only [encodeScalarBody, htype] at hbody
      cases hbody
      simp only [WireValue.receivedScalar, htype]
      exact (reads_u64 _ _).map _
  | float =>
      simp only [encodeScalarBody, htype] at hbody
      cases hbody
      simp only [WireValue.receivedScalar, htype]
      exact (reads_u32 _ _).map fun bits => WireValue.makeFloat ⟨bits⟩
  | double =>
      simp only [encodeScalarBody, htype] at hbody
      cases hbody
      simp only [WireValue.receivedScalar, htype]
      exact (reads_u64 _ _).map fun bits => WireValue.makeDouble ⟨bits⟩
  | string =>
      simp only [encodeScalarBody, htype] at hbody
      cases hbody
      simp only [WireValue.scalarFits, htype, decide_eq_true_eq] at hfits
      obtain ⟨s, hreads, rfl⟩ := (recovers_str "truncated String" v.string).reads hfits
      simp only [WireValue.receivedScalar, htype]
      exact hreads.map _
  | dateTime =>
      simp only [encodeScalarBody, htype] at hbody
      cases hbody
      have h := (reads_u64 "truncated DateTime" (UInt64.ofNat (lowBits 64 v.int))).map
        fun n => WireValue.makeDateTime (Int64.ofInt (toSigned 64 n.toNat))
      rw [h64, lowBits_64] at h
      simp only [WireValue.receivedScalar, htype]
      exact h
  | unnamed code hcode =>
      simp only [encodeScalarBody, htype] at hbody
      cases hbody

theorem reads_element {type : BuiltinType} {e : WireValue} {body : Bytes}
    (hbody : encodeElement type e = .ok body) (hfits : e.scalarFits = true) :
    Reads (decodeElement type.code) body e.receivedScalar := by
  obtain ⟨⟨htype, -⟩, hscalarBody⟩ := encodeElement_eq_ok.1 hbody
  rw [← htype]
  have h := (reads_scalarBody hscalarBody hfits).bind (f := fun element => do
    chargeElement e.type.code
    pure element) ((reads_charge _).bind_nil (Reads.pure e.receivedScalar))
  rwa [List.append_nil] at h

theorem reads_elements {type : BuiltinType} {elements : List WireValue} {bodies : List Bytes}
    (hbodies : elements.mapM (encodeElement type) = .ok bodies)
    (hshort : elements.length ≤ 1000000) (hfits : ∀ e ∈ elements, e.scalarFits = true) :
    Reads (decodeElements type.code elements.length) bodies.flatten
      (elements.map WireValue.receivedScalar) := by
  have hall := mapM_eq_ok.1 hbodies
  have hreads : List.Forall₂ (Reads (decodeElement type.code)) bodies
      (elements.map WireValue.receivedScalar) := by
    rw [List.forall₂_map_right_iff]
    apply List.Forall₂.flip
    rw [List.forall₂_iff_zip] at hall ⊢
    refine ⟨hall.1, ?_⟩
    intro e body hmem
    exact reads_element (hall.2 hmem) (hfits e (List.of_mem_zip hmem).1)
  have htimes := Reads.times hreads
  rw [List.length_map] at htimes
  unfold decodeElements
  rw [Int.toNat_natCast]
  by_cases hpositive : 0 < elements.length
  · rw [if_pos (by exact_mod_cast hpositive), if_neg (by exact_mod_cast not_lt.mpr hshort)]
    exact htimes
  · have hnil : elements = [] := List.length_eq_zero_iff.mp (by omega)
    subst hnil
    cases hall
    exact Reads.pure []

theorem reads_variant {v : WireValue} {bytes : Bytes} (hbytes : encodeVariant v = .ok bytes)
    (hfits : v.fits = true) : Reads decodeVariant bytes v.received := by
  by_cases harray : v.isArray = true
  · obtain ⟨hlength, bodies, hbodies, rfl⟩ := (encodeVariant_array_eq_ok harray).mp hbytes
    simp only [WireValue.fits, harray, if_true, Bool.and_eq_true, decide_eq_true_eq,
      List.all_eq_true] at hfits
    obtain ⟨-, -, -, hdimensions, hflag, hmask⟩ := typeMask_of_lt hfits.1.1
    have hread : (UInt32.ofNat v.elements.length).toNat = v.elements.length :=
      UInt32.toNat_ofNat_of_lt' (by simp only [UInt32.size]; omega)
    apply (reads_u8 _ _).bind
    simp only [decodeVariantBody, hdimensions, hflag, hmask, ne_eq, not_true_eq_false,
      not_false_eq_true, if_false, if_true]
    apply (reads_u32 _ _).bind
    rw [hread, toSigned_of_lt (by omega)]
    simp only [WireValue.received, harray, if_true, BuiltinType.ofCode_code]
    exact (reads_elements hbodies hfits.1.2 hfits.2).map _
  · have hscalar : v.isArray = false := by simpa using harray
    obtain ⟨body, hbody, rfl⟩ := (encodeVariant_scalar_eq_ok hscalar).mp hbytes
    simp only [WireValue.fits, hscalar, Bool.false_eq_true, if_false] at hfits
    obtain ⟨hdimensions, hflag, hcode, -⟩ :=
      typeMask_of_lt (code_lt_of_named ((encodeScalarBody_ok_iff v).mp ⟨body, hbody⟩))
    apply (reads_u8 _ _).bind
    simp only [decodeVariantBody, hdimensions, hflag, hcode, ne_eq, not_true_eq_false,
      if_false, WireValue.received, hscalar, Bool.false_eq_true]
    exact reads_scalarBody hbody hfits

theorem reads_fields {fields : List WireValue} {chunks : List Bytes}
    (hchunks : fields.mapM encodeVariant = .ok chunks) (hfew : fields.length ≤ 0xFFFF)
    (hfits : ∀ v ∈ fields, v.fits = true) :
    Reads (decodeFields FieldEncodingVariant)
      (putU16 (UInt16.ofNat fields.length) ++ chunks.flatten)
      (fields.map WireValue.received) := by
  have hall := mapM_eq_ok.1 hchunks
  have hfield : ∀ {v : WireValue} {chunk : Bytes}, encodeVariant v = .ok chunk →
      v.fits = true → Reads (decodeField FieldEncodingVariant) chunk v.received := by
    intro v chunk hchunk hv
    have h := (reads_variant hchunk hv).bind (f := fun value => do
      Scanner.charge fun built => { built with values := built.values + 1 }
      pure value) ((reads_charge _).bind_nil (Reads.pure v.received))
    rwa [List.append_nil] at h
  have hreads : List.Forall₂ (Reads (decodeField FieldEncodingVariant)) chunks
      (fields.map WireValue.received) := by
    rw [List.forall₂_map_right_iff]
    apply List.Forall₂.flip
    rw [List.forall₂_iff_zip] at hall ⊢
    refine ⟨hall.1, ?_⟩
    intro v chunk hmem
    exact hfield (hall.2 hmem) (hfits v (List.of_mem_zip hmem).1)
  have htimes := Reads.times hreads
  rw [List.length_map] at htimes
  have hcount : (UInt16.ofNat fields.length).toNat = fields.length :=
    UInt16.toNat_ofNat_of_lt' (by simp only [UInt16.size]; omega)
  apply (reads_u16 _ _).bind
  rw [hcount]
  exact htimes

theorem reads_dataSetMessage {message : DataSetMessage} {bytes : Bytes}
    (hbytes : encodeDataSetMessage message = .ok bytes) (hfits : message.fits = true) :
    Reads (decodeDataSetMessage message.dataSetWriterId) bytes message.received := by
  obtain ⟨chunks, hchunks, rfl⟩ := encodeDataSetMessage_eq_ok.1 hbytes
  simp only [DataSetMessage.fits, Bool.and_eq_true, decide_eq_true_eq, List.all_eq_true]
    at hfits
  have hencoding : ({ flags1 := dataSetFlags1 message } : DataSetFlags).fieldEncoding =
      FieldEncodingVariant := by
    cases h : message.sequenceNumberEnabled <;>
      simp only [DataSetFlags.fieldEncoding, dataSetFlags1, h] <;> decide
  unfold decodeDataSetMessage
  apply (reads_dataSetFlags message).bind
  apply (reads_dataSetHeader message).bind
  rw [hencoding]
  simp only [show DsmTypeKeyFrame ≠ DsmTypeKeepAlive by decide,
    show FieldEncodingVariant ≠ FieldEncodingRawData by decide, if_false, ne_eq,
    not_true_eq_false]
  have hreceived : message.received =
      { dataSetWriterId := message.dataSetWriterId
        sequenceNumberEnabled := (if message.sequenceNumberEnabled
          then some message.sequenceNumber else none).isSome
        sequenceNumber := (if message.sequenceNumberEnabled
          then some message.sequenceNumber else none).getD 0
        fields := message.fields.map WireValue.received } := by
    cases h : message.sequenceNumberEnabled <;> simp [DataSetMessage.received, h]
  rw [hreceived]
  exact (reads_fields hchunks hfits.1 hfits.2).map _

theorem reads_messages {messages : List DataSetMessage} {bodies : List Bytes}
    (hbodies : List.Forall₂ (fun d body => encodeDataSetMessage d = .ok body)
      messages bodies) (hfits : ∀ d ∈ messages, d.fits = true) :
    Reads (decodeMessages (messages.map DataSetMessage.dataSetWriterId)) bodies.flatten
      (messages.map DataSetMessage.received) := by
  induction hbodies with
  | nil => exact Reads.pure []
  | @cons d body messages bodies hbody _ ih =>
      rw [List.forall_mem_cons] at hfits
      exact (reads_dataSetMessage hbody hfits.1).bind ((ih hfits.2).map _)

theorem receivedPublisherId_le (message : NetworkMessage) :
    message.receivedPublisherId ≤ publisherIdMaximum message.publisherIdType := by
  have hlt := message.publisherId.toNat_lt
  rw [UInt64.le_iff_toNat_le]
  cases htype : message.publisherIdType <;>
    simp only [NetworkMessage.receivedPublisherId, publisherIdMaximum, htype,
      UInt64.toNat_ofNat', UInt64.reduceToNat] <;>
    omega

theorem receivedPublisherId_of_le {message : NetworkMessage}
    (h : message.publisherId ≤ publisherIdMaximum message.publisherIdType) :
    message.receivedPublisherId = message.publisherId := by
  rw [UInt64.le_iff_toNat_le] at h
  cases htype : message.publisherIdType with
  | uInt64 => simp only [NetworkMessage.receivedPublisherId, htype]
  | _ =>
      simp only [publisherIdMaximum, htype, UInt64.reduceToNat] at h
      simp only [NetworkMessage.receivedPublisherId, htype]
      rw [Nat.mod_eq_of_lt (by omega), UInt64.ofNat_toNat]

/-- The bytes of a publisher id are those of what its type has room for. -/
theorem encodePublisherId_received (message : NetworkMessage) :
    encodePublisherId { message with publisherId := message.receivedPublisherId } =
      encodePublisherId message := by
  cases htype : message.publisherIdType with
  | byte =>
      simp only [encodePublisherId, NetworkMessage.receivedPublisherId, htype]
      refine congrArg putU8 (UInt8.toNat_inj.mp ?_)
      simp only [UInt8.toNat_ofNat', UInt64.toNat_ofNat']
      omega
  | uInt16 =>
      simp only [encodePublisherId, NetworkMessage.receivedPublisherId, htype]
      refine congrArg putU16 (UInt16.toNat_inj.mp ?_)
      simp only [UInt16.toNat_ofNat', UInt64.toNat_ofNat']
      omega
  | uInt32 =>
      simp only [encodePublisherId, NetworkMessage.receivedPublisherId, htype]
      refine congrArg putU32 (UInt32.toNat_inj.mp ?_)
      simp only [UInt32.toNat_ofNat', UInt64.toNat_ofNat']
      omega
  | uInt64 => simp only [encodePublisherId, NetworkMessage.receivedPublisherId, htype]

/-- Every encoded message whose counts and lengths fit the wire is read back,
from the first byte to the last. -/
theorem reads_networkMessage {message : NetworkMessage} {bytes : Bytes}
    (hbytes : encodeNetworkMessage message = .ok bytes)
    (hfits : ∀ d ∈ message.messages, d.fits = true) :
    Reads decodeNetworkMessage bytes message.received := by
  obtain ⟨hsome, hfew, bodies, sizes, hbodies, hsizes, rfl⟩ :=
    encodeNetworkMessage_eq_ok.1 hbytes
  have hall := mapM_eq_ok.1 hbodies
  obtain ⟨declaredSizes, hheader⟩ := reads_networkHeader
    { message with publisherId := message.receivedPublisherId }
    (receivedPublisherId_le message) hsome hfew hsizes hall.length_eq.symm
  rw [encodePublisherId_received] at hheader
  have hmessages := (reads_messages hall hfits).map fun messages => ({
    (NetworkMessage.header { message with publisherId := message.receivedPublisherId }
      declaredSizes).out with messages } : NetworkMessage)
  simp only [← List.append_assoc] at hheader ⊢
  exact hheader.bind hmessages

theorem yields_str (diagnostic : String) :
    Yields (fun s : Bytes => s.length < 2 ^ 31) (Reader.str diagnostic) := by
  refine Yields.bind_any fun length => ?_
  have hbound := (toSigned_bounds (by decide : 0 < 32) length.toNat).2
  by_cases hpositive : toSigned 32 length.toNat ≤ 0
  · simp only [hpositive, if_true]
    exact yields_pure (Nat.two_pow_pos 31)
  · simp only [hpositive, if_false]
    intro c s c' h
    unfold take at h
    split at h
    · rename_i hle
      simp only [EStateM.Result.ok.injEq] at h
      rw [← h.1, List.length_take_of_le hle]
      have hint : ((toSigned 32 length.toNat).toNat : Int) < 2 ^ 31 := by
        rw [Int.toNat_of_nonneg (not_le.mp hpositive).le]
        exact hbound
      exact_mod_cast hint
    · cases h

theorem yields_scalarBody (type : UInt8) :
    Yields (fun v => v.isArray = false ∧ v.scalarFits = true) (decodeScalarBody type) := by
  unfold decodeScalarBody
  split
  case h_1 => exact yields_pure ⟨rfl, rfl⟩
  case h_13 =>
      refine (yields_str _).bind fun s hs => ?_
      exact yields_pure ⟨rfl, decide_eq_true hs⟩
  case h_15 => exact yields_throw _
  all_goals
    apply Yields.bind_any
    intro v
    exact yields_pure ⟨rfl, rfl⟩

theorem yields_variant : Yields (fun v => v.fits = true) decodeVariant := by
  apply Yields.bind_any
  intro mask
  unfold decodeVariantBody
  have hscalar : ∀ type, Yields (fun v => v.fits = true) (decodeScalarBody type) := by
    intro type c v c' h
    obtain ⟨harray, hfits⟩ := yields_scalarBody type c v c' h
    simpa [WireValue.fits, harray] using hfits
  split
  · exact yields_throw _
  split
  · have helements : ∀ length : Int, Yields (fun elements : List WireValue =>
        elements.length ≤ 1000000 ∧ ∀ e ∈ elements, e.scalarFits = true)
        (decodeElements (mask &&& 0x3F) length) := by
      intro length
      unfold decodeElements
      split
      · split
        · exact yields_throw _
        · have helement : Yields (fun e => e.scalarFits = true)
              (decodeElement (mask &&& 0x3F)) := by
            refine (yields_scalarBody _).bind fun e he => ?_
            exact Yields.bind_any fun _ => yields_pure he.2
          intro c elements c' h
          obtain ⟨hlength, hall⟩ := helement.times length.toNat c elements c' h
          exact ⟨by omega, hall⟩
      · exact yields_pure ⟨by simp, by simp⟩
    refine Yields.bind_any fun rawLength => (helements _).bind fun elements h => ?_
    apply yields_pure
    have hcode : (mask &&& 0x3F).toNat < 64 := by
      rw [UInt8.toNat_and]
      exact Nat.lt_of_le_of_lt Nat.and_le_right (by decide)
    simp [WireValue.fits, WireValue.makeArray, -UInt8.toNat_and, hcode, h.1]
    exact h.2
  · exact hscalar _

theorem yields_field (encoding : UInt8) :
    Yields (fun v => v.fits = true) (decodeField encoding) := by
  have hstored : ∀ v : WireValue, v.fits = true → Yields (fun v => v.fits = true) (do
      Scanner.charge fun built => { built with values := built.values + 1 }
      pure v : Reader WireValue) := fun v hv => Yields.bind_any fun _ => yields_pure hv
  have htail : ∀ mask v, v.fits = true →
      Yields (fun v => v.fits = true) (decodeDataValueTail mask v) := by
    intro mask v hv
    unfold decodeDataValueTail
    iterate 5 refine Yields.bind_any fun _ => ?_
    exact yields_pure hv
  unfold decodeField
  split
  · exact Yields.bind yields_variant hstored
  · have hvalue : Yields (fun v => v.fits = true) decodeDataValueField := by
      refine Yields.bind_any fun mask => ?_
      dsimp only
      split
      · exact Yields.bind yields_variant (htail mask)
      · have hnull : Yields (fun v : WireValue => v.fits = true)
            (pure .makeNull : Reader WireValue) := yields_pure rfl
        exact hnull.bind (htail mask)
    exact hvalue.bind hstored

theorem yields_dataSetMessage (dataSetWriterId : UInt16) :
    Yields (fun d => d.fits = true) (decodeDataSetMessage dataSetWriterId) := by
  refine Yields.bind_any fun flags => Yields.bind_any fun sequenceNumber => ?_
  dsimp only
  split
  · exact yields_pure rfl
  split
  · exact yields_throw _
  split
  · exact yields_throw _
  · have hfields : Yields (fun fields : List WireValue =>
        fields.length ≤ 0xFFFF ∧ ∀ v ∈ fields, v.fits = true)
        (decodeFields flags.fieldEncoding) := by
      refine Yields.bind_any fun fieldCount => ?_
      intro c fields c' h
      obtain ⟨hlength, hall⟩ := (yields_field _).times _ c fields c' h
      have hcount := fieldCount.toNat_lt
      exact ⟨by omega, hall⟩
    refine hfields.bind fun fields h => yields_pure ?_
    simpa [DataSetMessage.fits] using h

/-- Whatever the decoder returns fits the counts and lengths of the wire. -/
theorem fits_of_decodeDatagram {data : Bytes} {out : NetworkMessage} {c : Cursor UInt8 Built}
    (h : decodeDatagram data = .ok out c) : ∀ d ∈ out.messages, d.fits = true := by
  have hmessages : ∀ writerIds, Yields (fun messages : List DataSetMessage =>
      ∀ d ∈ messages, d.fits = true) (decodeMessages writerIds) := by
    intro writerIds
    induction writerIds with
    | nil => exact yields_pure (by simp)
    | cons writerId writerIds ih =>
        refine (yields_dataSetMessage writerId).bind fun d hd => ih.bind fun ds hds => ?_
        exact yields_pure (by simpa using ⟨hd, hds⟩)
  have hyields : Yields (fun out : NetworkMessage => ∀ d ∈ out.messages, d.fits = true)
      decodeNetworkMessage :=
    Yields.bind_any fun header => (hmessages header.writerIds).bind fun messages h =>
      yields_pure h
  exact hyields _ out c h

theorem yields_publisherId (flags : NetworkFlags) :
    Yields (fun out : NetworkMessage => out.publisherId ≤ publisherIdMaximum out.publisherIdType)
      (decodePublisherId flags {}) := by
  have hle : ∀ (type : PublisherIdType) (n : Nat), n ≤ (publisherIdMaximum type).toNat →
      UInt64.ofNat n ≤ publisherIdMaximum type := by
    intro type n hn
    rw [UInt64.le_iff_toNat_le, UInt64.toNat_ofNat_of_lt' (hn.trans_lt (UInt64.toNat_lt _))]
    exact hn
  unfold decodePublisherId
  split
  · split
    · refine Yields.bind_any fun v => yields_pure (hle .byte _ ?_)
      have hlt := v.toNat_lt
      simp only [publisherIdMaximum, UInt64.reduceToNat]
      omega
    · refine Yields.bind_any fun v => yields_pure (hle .uInt16 _ ?_)
      have hlt := v.toNat_lt
      simp only [publisherIdMaximum, UInt64.reduceToNat]
      omega
    · refine Yields.bind_any fun v => yields_pure (hle .uInt32 _ ?_)
      have hlt := v.toNat_lt
      simp only [publisherIdMaximum, UInt64.reduceToNat]
      omega
    · refine Yields.bind_any fun v => yields_pure ?_
      have hlt := v.toNat_lt
      simp only [publisherIdMaximum, UInt64.le_iff_toNat_le, UInt64.reduceToNat]
      omega
    · exact yields_throw _
  · exact yields_pure (by decide)

/-- A decoded publisher id fits the type it is decoded with. -/
theorem publisherId_le_of_decodeDatagram {data : Bytes} {out : NetworkMessage}
    {c : Cursor UInt8 Built} (h : decodeDatagram data = .ok out c) :
    out.publisherId ≤ publisherIdMaximum out.publisherIdType := by
  have hgroup : ∀ flags (out : NetworkMessage),
      out.publisherId ≤ publisherIdMaximum out.publisherIdType →
      Yields (fun out : NetworkMessage =>
        out.publisherId ≤ publisherIdMaximum out.publisherIdType)
        (decodeGroupHeader flags out) := by
    intro flags out hout
    unfold decodeGroupHeader
    split
    · iterate 5 refine Yields.bind_any fun _ => ?_
      exact yields_pure hout
    · exact yields_pure hout
  have hfront : Yields (fun front : NetworkFront =>
      front.out.publisherId ≤ publisherIdMaximum front.out.publisherIdType)
      decodeNetworkFront := by
    refine Yields.bind_any fun flags => (yields_publisherId flags).bind fun out hout => ?_
    refine Yields.bind_any fun _ => (hgroup flags out hout).bind fun out hout => ?_
    refine Yields.bind_any fun _ => Yields.bind_any fun _ => yields_pure hout
  have hheader : Yields (fun header : NetworkHeader =>
      header.out.publisherId ≤ publisherIdMaximum header.out.publisherIdType)
      decodeNetworkHeader :=
    hfront.bind fun front hout => Yields.bind_any fun _ => yields_pure hout
  have hyields : Yields (fun out : NetworkMessage =>
      out.publisherId ≤ publisherIdMaximum out.publisherIdType) decodeNetworkMessage :=
    hheader.bind fun header hout => Yields.bind_any fun _ => yields_pure hout
  exact hyields _ out c h

end PubSub

end Supernova
