/-
What the parts of the decoder read.  A part that builds no value leaves the
account alone; every part depends on the bytes that it reads and on nothing
behind them, so a datagram falls apart into the ranges of its parts.
-/
import Supernova.PubSubWire

namespace Supernova

namespace PubSub

open Scanner

theorem consumes_u8 (diagnostic : String) : Consumes 1 (Reader.u8 diagnostic) :=
  (consumes_take 1 diagnostic).map _

theorem consumes_u16 (diagnostic : String) : Consumes 2 (Reader.u16 diagnostic) :=
  (consumes_take 2 diagnostic).map _

theorem consumes_u32 (diagnostic : String) : Consumes 4 (Reader.u32 diagnostic) :=
  (consumes_take 4 diagnostic).map _

theorem consumes_u64 (diagnostic : String) : Consumes 8 (Reader.u64 diagnostic) :=
  (consumes_take 8 diagnostic).map _

theorem consumes_str (diagnostic : String) : Consumes 4 (Reader.str diagnostic) := by
  apply (consumes_u32 diagnostic).bind_any
  intro length
  dsimp only
  split
  · exact consumes_pure []
  · exact (consumes_take _ diagnostic).mono (Nat.zero_le _)

theorem consumes_skip (n : Nat) (diagnostic : String) :
    Consumes n (Reader.skip n diagnostic) :=
  (consumes_take n diagnostic).map _

theorem consumes_skipIf (present : Bool) (n : Nat) (diagnostic : String) :
    Consumes 0 (Reader.skipIf present n diagnostic) := by
  cases present with
  | false => exact consumes_pure ()
  | true => exact (consumes_skip n diagnostic).mono (Nat.zero_le n)

/-- A scalar body carries at least one byte unless its type is Null. -/
theorem consumes_scalarBody (type : UInt8) :
    Consumes (if BuiltinType.ofCode type = .null then 0 else 1) (decodeScalarBody type) := by
  unfold decodeScalarBody
  cases htype : BuiltinType.ofCode type with
  | null => exact consumes_pure _
  | boolean => exact (consumes_u8 _).map _
  | sByte => exact (consumes_u8 _).map _
  | byte => exact (consumes_u8 _).map _
  | int16 => exact ((consumes_u16 _).map _).mono (by decide)
  | uInt16 => exact ((consumes_u16 _).map _).mono (by decide)
  | int32 => exact ((consumes_u32 _).map _).mono (by decide)
  | uInt32 => exact ((consumes_u32 _).map _).mono (by decide)
  | int64 => exact ((consumes_u64 _).map _).mono (by decide)
  | uInt64 => exact ((consumes_u64 _).map _).mono (by decide)
  | float => exact ((consumes_u32 _).map _).mono (by decide)
  | double => exact ((consumes_u64 _).map _).mono (by decide)
  | string => exact ((consumes_str _).map _).mono (by decide)
  | dateTime => exact ((consumes_u64 _).map _).mono (by decide)
  | unnamed code hcode => exact consumes_throw _ _

theorem consumes_dataValueTail (mask : UInt8) (value : WireValue) :
    Consumes 0 (decodeDataValueTail mask value) := by
  unfold decodeDataValueTail
  iterate 5 refine (consumes_skipIf _ _ _).bind_any fun _ => ?_
  exact consumes_pure value

theorem consumes_dataSetFlags : Consumes 0 decodeDataSetFlags := by
  apply ((consumes_u8 _).mono (Nat.zero_le _)).bind_any
  intro flags1
  split
  · exact ((consumes_u8 _).map _).mono (Nat.zero_le _)
  · exact consumes_pure _

theorem consumes_dataSetHeader (flags : DataSetFlags) :
    Consumes 0 (decodeDataSetHeader flags) := by
  have hskips : ∀ sequenceNumber : Option UInt16, Consumes 0 (do
      Reader.skipIf flags.timestampPresent 8 "truncated DataSetMessage timestamp"
      Reader.skipIf flags.picosecondsPresent 2 "truncated DataSetMessage picoseconds"
      Reader.skipIf (flags.has DsmStatusEnabled) 2 "truncated DataSetMessage status"
      Reader.skipIf (flags.has DsmConfigMajorEnabled) 4 "truncated config major version"
      Reader.skipIf (flags.has DsmConfigMinorEnabled) 4 "truncated config minor version"
      pure sequenceNumber : Reader (Option UInt16)) := by
    intro sequenceNumber
    iterate 5 refine (consumes_skipIf _ _ _).bind_any fun _ => ?_
    exact consumes_pure _
  unfold decodeDataSetHeader
  split
  · apply ((consumes_u16 _).mono (Nat.zero_le _)).bind_any
    intro v
    exact (consumes_pure (some v)).bind_any hskips
  · exact (consumes_pure none).bind_any hskips

theorem consumes_flags : Consumes 0 decodeFlags := by
  apply ((consumes_u8 _).mono (Nat.zero_le _)).bind_any
  intro flags
  split
  · exact consumes_throw _ _
  · split
    · apply ((consumes_u8 _).mono (Nat.zero_le _)).bind_any
      intro ext1
      dsimp only
      split
      · apply ((consumes_u8 _).mono (Nat.zero_le _)).bind_any
        intro ext2
        split
        · exact consumes_throw _ _
        · split
          · exact consumes_throw _ _
          · exact consumes_pure _
      · exact consumes_pure _
    · exact consumes_pure _

theorem consumes_publisherId (flags : NetworkFlags) (out : NetworkMessage) :
    Consumes 0 (decodePublisherId flags out) := by
  unfold decodePublisherId
  split
  · split
    · exact ((consumes_u8 _).map _).mono (Nat.zero_le _)
    · exact ((consumes_u16 _).map _).mono (Nat.zero_le _)
    · exact ((consumes_u32 _).map _).mono (Nat.zero_le _)
    · exact ((consumes_u64 _).map _).mono (Nat.zero_le _)
    · exact consumes_throw _ _
  · exact consumes_pure _

theorem consumes_u16If (present : Bool) (absent : UInt16) (diagnostic : String) :
    Consumes 0 (u16If present absent diagnostic) := by
  cases present with
  | false => exact consumes_pure absent
  | true => exact (consumes_u16 diagnostic).mono (Nat.zero_le _)

theorem consumes_groupHeader (flags : NetworkFlags) (out : NetworkMessage) :
    Consumes 0 (decodeGroupHeader flags out) := by
  unfold decodeGroupHeader
  split
  · apply ((consumes_u8 _).mono (Nat.zero_le _)).bind_any
    intro groupFlags
    apply (consumes_u16If _ _ _).bind_any
    intro writerGroupId
    apply (consumes_skipIf _ _ _).bind_any
    intro _
    apply (consumes_skipIf _ _ _).bind_any
    intro _
    exact (consumes_u16If _ _ _).map _
  · exact consumes_pure _

theorem consumes_payloadHeader (flags : NetworkFlags) :
    Consumes 0 (decodePayloadHeader flags) := by
  unfold decodePayloadHeader
  split
  · apply ((consumes_u8 _).mono (Nat.zero_le _)).bind_any
    intro messageCount
    split
    · exact consumes_throw _ _
    · exact ((consumes_u16 _).mono (Nat.zero_le _)).times _
  · exact consumes_pure _

theorem consumes_extendedHeader (flags : NetworkFlags) :
    Consumes 0 (decodeExtendedHeader flags) := by
  have hsecurity : ∀ u : Unit, Consumes 0 (if flags.securityPresent then
      throw "secured NetworkMessages are not supported" else pure () : Reader Unit) := by
    intro _
    split
    · exact consumes_throw _ _
    · exact consumes_pure _
  apply (consumes_skipIf _ _ _).bind_any
  intro _
  apply (consumes_skipIf _ _ _).bind_any
  intro _
  dsimp only
  split
  · apply ((consumes_u16 _).mono (Nat.zero_le _)).bind_any
    intro promotedSize
    exact ((consumes_skip _ _).mono (Nat.zero_le _)).bind_any hsecurity
  · exact hsecurity ()

theorem consumes_sizes (flags : NetworkFlags) (messageCount : Nat) :
    Consumes 0 (decodeSizes flags messageCount) := by
  unfold decodeSizes
  split
  · exact ((consumes_u16 _).mono (Nat.zero_le _)).times _
  · exact consumes_pure _

theorem consumes_networkFront : Consumes 0 decodeNetworkFront := by
  apply Consumes.bind_any consumes_flags
  intro flags
  apply (consumes_publisherId flags {}).bind_any
  intro out
  apply (consumes_skipIf _ _ _).bind_any
  intro _
  apply (consumes_groupHeader flags out).bind_any
  intro out
  apply (consumes_payloadHeader flags).bind_any
  intro writerIds
  exact (consumes_extendedHeader flags).map _

theorem consumes_networkHeader : Consumes 0 decodeNetworkHeader := by
  apply Consumes.bind_any consumes_networkFront
  intro front
  exact (consumes_sizes front.flags _).map _

theorem exact_element (elementType : UInt8) : Exact (decodeElement elementType) := by
  apply (consumes_scalarBody elementType).exact.bind
  intro element
  exact (exact_charge _).bind fun _ => exact_pure element

theorem exact_array (elementType : UInt8) : Exact (decodeArray elementType) := by
  apply (consumes_u32 _).exact.bind
  intro rawLength
  have helements : Exact (decodeElements elementType (toSigned 32 rawLength.toNat)) := by
    unfold decodeElements
    split
    · split
      · exact exact_throw _
      · exact (exact_element elementType).times _
    · exact exact_pure []
  exact helements.bind fun _ => exact_pure _

theorem exact_variant : Exact decodeVariant := by
  apply (consumes_u8 _).exact.bind
  intro mask
  unfold decodeVariantBody
  split
  · exact exact_throw _
  · split
    · exact exact_array _
    · exact (consumes_scalarBody _).exact

theorem exact_dataValueField : Exact decodeDataValueField := by
  apply (consumes_u8 _).exact.bind
  intro mask
  have htail := fun value => (consumes_dataValueTail mask value).exact
  dsimp only
  split
  · exact Exact.bind exact_variant htail
  · exact (exact_pure _).bind htail

theorem exact_fields (fieldEncoding : UInt8) : Exact (decodeFields fieldEncoding) := by
  have hstored : ∀ value : WireValue, Exact (do
      Scanner.charge fun built => { built with values := built.values + 1 }
      pure value : Reader WireValue) := fun value =>
    (exact_charge _).bind fun _ => exact_pure value
  have hfield : Exact (decodeField fieldEncoding) := by
    unfold decodeField
    split
    · exact Exact.bind exact_variant hstored
    · exact Exact.bind exact_dataValueField hstored
  exact (consumes_u16 _).exact.bind fun fieldCount => hfield.times _

/-- What a DataSetMessage decodes to depends on its own bytes only. -/
theorem exact_dataSetMessage (dataSetWriterId : UInt16) :
    Exact (decodeDataSetMessage dataSetWriterId) := by
  apply Exact.bind (Consumes.exact consumes_dataSetFlags)
  intro flags
  apply (consumes_dataSetHeader flags).exact.bind
  intro sequenceNumber
  dsimp only
  split
  · exact exact_pure _
  · split
    · exact exact_throw _
    · split
      · exact exact_throw _
      · exact (exact_fields _).bind fun _ => exact_pure _

end PubSub

end Supernova
