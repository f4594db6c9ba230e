/-
The UADP wire codec: wire values, DataSetMessages and NetworkMessages, the
encoder and the decoder.  The decoder's account counts the wire values it has
stored, so that the work a refused datagram causes can be stated as well.
-/
import Mathlib.Data.UInt
import Supernova.BinaryFloat
import Supernova.LittleEndian
import Supernova.Scanner

namespace Supernova

namespace PubSub

/-- The built-in types with their codes 0 to 13.  A cast from the wire can
leave an enumeration object without an enumerator, here `unnamed`. -/
inductive BuiltinType where
  | null
  | boolean
  | sByte
  | byte
  | int16
  | uInt16
  | int32
  | uInt32
  | int64
  | uInt64
  | float
  | double
  | string
  | dateTime
  | unnamed (code : UInt8) (hcode : 14 ≤ code.toNat)
deriving DecidableEq, Repr

namespace BuiltinType

def code : BuiltinType → UInt8
  | null => 0
  | boolean => 1
  | sByte => 2
  | byte => 3
  | int16 => 4
  | uInt16 => 5
  | int32 => 6
  | uInt32 => 7
  | int64 => 8
  | uInt64 => 9
  | float => 10
  | double => 11
  | string => 12
  | dateTime => 13
  | unnamed code _ => code

/-- `static_cast<BuiltinType>`. -/
def ofCode (code : UInt8) : BuiltinType :=
  match hcode : code.toNat with
  | 0 => null
  | 1 => boolean
  | 2 => sByte
  | 3 => byte
  | 4 => int16
  | 5 => uInt16
  | 6 => int32
  | 7 => uInt32
  | 8 => int64
  | 9 => uInt64
  | 10 => float
  | 11 => double
  | 12 => string
  | 13 => dateTime
  | _ + 14 => unnamed code (by omega)

/-- The type has an enumerator. -/
def named : BuiltinType → Bool
  | unnamed _ _ => false
  | _ => true

@[simp] theorem ofCode_code (type : BuiltinType) : ofCode type.code = type := by
  cases type with
  | unnamed code hcode =>
      simp only [ofCode, BuiltinType.code]
      split <;> first | omega | rfl
  | _ => rfl

@[simp] theorem code_ofCode (code : UInt8) : (ofCode code).code = code := by
  unfold ofCode
  split <;> first | rfl | exact UInt8.toNat_inj.mp (by simp_all [BuiltinType.code])

end BuiltinType

/-- A wire value with all the members of the class; the factories below are
the only way the code makes one. -/
structure WireValue where
  type : BuiltinType := .null
  int : Int64 := 0
  uint : UInt64 := 0
  float : Double := ⟨0⟩
  string : Bytes := []
  isArray : Bool := false
  elements : List WireValue := []
deriving Repr

namespace WireValue

def makeNull : WireValue := {}

def makeBoolean (value : Bool) : WireValue :=
  { type := .boolean, uint := if value then 1 else 0 }

def makeSigned (type : BuiltinType) (value : Int64) : WireValue :=
  { type, int := value }

def makeUnsigned (type : BuiltinType) (value : UInt64) : WireValue :=
  { type, uint := value }

def makeFloat (value : Single) : WireValue :=
  { type := .float, float := value.toDouble }

def makeDouble (value : Double) : WireValue :=
  { type := .double, float := value }

def makeString (value : Bytes) : WireValue :=
  { type := .string, string := value }

def makeDateTime (value : Int64) : WireValue :=
  { type := .dateTime, int := value }

/-- One-dimensional array of scalars of the same builtin type. -/
def makeArray (elementType : BuiltinType) (elements : List WireValue) : WireValue :=
  { type := elementType, isArray := true, elements }

def boolValue (v : WireValue) : Bool := v.uint ≠ 0

/-- The comparison of two values of one type that are not arrays. -/
def scalarEquals (v w : WireValue) : Bool :=
  match v.type with
  | .null => true
  | .boolean => v.boolValue == w.boolValue
  | .sByte | .int16 | .int32 | .int64 | .dateTime => v.int == w.int
  | .byte | .uInt16 | .uInt32 | .uInt64 => v.uint == w.uint
  | .float | .double => v.float.eq w.float
  | .string => v.string == w.string
  | .unnamed _ _ => false

mutual

def equals : WireValue → WireValue → Bool
  | ⟨type, int, uint, float, string, isArray, elements⟩,
    ⟨type', int', uint', float', string', isArray', elements'⟩ =>
      if type ≠ type' then false
      else if isArray ≠ isArray' then false
      else if isArray then equalsAll elements elements'
      else scalarEquals ⟨type, int, uint, float, string, isArray, elements⟩
        ⟨type', int', uint', float', string', isArray', elements'⟩

/-- The element loop of `equals`, after its comparison of the two sizes. -/
def equalsAll : List WireValue → List WireValue → Bool
  | [], [] => true
  | v :: vs, w :: ws => v.equals w && equalsAll vs ws
  | _, _ => false

end

end WireValue

inductive PublisherIdType where
  | byte
  | uInt16
  | uInt32
  | uInt64
deriving DecidableEq, Repr

namespace PublisherIdType

def code : PublisherIdType → UInt8
  | byte => 0
  | uInt16 => 1
  | uInt32 => 2
  | uInt64 => 3

end PublisherIdType

structure DataSetMessage where
  dataSetWriterId : UInt16 := 0
  sequenceNumberEnabled : Bool := false
  sequenceNumber : UInt16 := 0
  keepAlive : Bool := false
  fields : List WireValue := []
deriving Repr

structure NetworkMessage where
  publisherIdType : PublisherIdType := .uInt16
  publisherId : UInt64 := 0
  writerGroupIdEnabled : Bool := true
  writerGroupId : UInt16 := 0
  groupSequenceNumberEnabled : Bool := true
  groupSequenceNumber : UInt16 := 0
  messages : List DataSetMessage := []
deriving Repr

def UadpVersion : UInt8 := 1

def NmPublisherIdEnabled : UInt8 := 16
def NmGroupHeaderEnabled : UInt8 := 32
def NmPayloadHeaderEnabled : UInt8 := 64
def NmExtendedFlags1 : UInt8 := 128

def Ext1PublisherIdTypeMask : UInt8 := 7
def Ext1DataSetClassIdEnabled : UInt8 := 8
def Ext1SecurityEnabled : UInt8 := 16
def Ext1TimestampEnabled : UInt8 := 32
def Ext1PicosecondsEnabled : UInt8 := 64
def Ext1ExtendedFlags2 : UInt8 := 128

def Ext2ChunkMessage : UInt8 := 1
def Ext2PromotedFieldsEnabled : UInt8 := 2
def Ext2NetworkMessageTypeMask : UInt8 := 28

def GroupWriterGroupIdEnabled : UInt8 := 1
def GroupGroupVersionEnabled : UInt8 := 2
def GroupNetworkMessageNumberEnabled : UInt8 := 4
def GroupSequenceNumberEnabled : UInt8 := 8

def DsmValid : UInt8 := 1
def DsmFieldEncodingMask : UInt8 := 6
def DsmSequenceNumberEnabled : UInt8 := 8
def DsmStatusEnabled : UInt8 := 16
def DsmConfigMajorEnabled : UInt8 := 32
def DsmConfigMinorEnabled : UInt8 := 64
def DsmFlags2Enabled : UInt8 := 128

def Dsm2TypeMask : UInt8 := 15
def Dsm2TimestampEnabled : UInt8 := 16
def Dsm2PicosecondsEnabled : UInt8 := 32

def FieldEncodingVariant : UInt8 := 0
def FieldEncodingRawData : UInt8 := 1

def DsmTypeKeyFrame : UInt8 := 0
def DsmTypeKeepAlive : UInt8 := 3

def VariantArrayDimensionsFlag : UInt8 := 0x40
def VariantArrayValuesFlag : UInt8 := 0x80

def putU8 (v : UInt8) : Bytes := [v]

def putU16 (v : UInt16) : Bytes := littleEndian 2 v.toNat

def putU32 (v : UInt32) : Bytes := littleEndian 4 v.toNat

def putU64 (v : UInt64) : Bytes := littleEndian 8 v.toNat

/-- The length is narrowed to 32 bits. -/
def putString (s : Bytes) : Bytes := putU32 (UInt32.ofNat s.length) ++ s

/-- `static_cast<uintN_t>` of a signed value: its low bits. -/
def lowBits (bits : Nat) (v : Int64) : Nat := toUnsigned bits v.toInt

def encodeScalarBody (value : WireValue) : Except String Bytes :=
  match value.type with
  | .null => pure []
  | .boolean => pure (putU8 (if value.boolValue then 1 else 0))
  | .sByte => pure (putU8 (UInt8.ofNat (lowBits 8 value.int)))
  | .byte => pure (putU8 (UInt8.ofNat value.uint.toNat))
  | .int16 => pure (putU16 (UInt16.ofNat (lowBits 16 value.int)))
  | .uInt16 => pure (putU16 (UInt16.ofNat value.uint.toNat))
  | .int32 => pure (putU32 (UInt32.ofNat (lowBits 32 value.int)))
  | .uInt32 => pure (putU32 (UInt32.ofNat value.uint.toNat))
  | .int64 => pure (putU64 (UInt64.ofNat (lowBits 64 value.int)))
  | .uInt64 => pure (putU64 value.uint)
  | .float => pure (putU32 value.float.toSingle.bits)
  | .double => pure (putU64 value.float.bits)
  | .string => pure (putString value.string)
  | .dateTime => pure (putU64 (UInt64.ofNat (lowBits 64 value.int)))
  | .unnamed _ _ => throw "PubSub wire encoder: unsupported field type"

/-- One turn of the array loop of `encodeVariant`. -/
def encodeElement (type : BuiltinType) (element : WireValue) : Except String Bytes :=
  if element.type ≠ type ∨ element.isArray then
    throw "PubSub wire encoder: mixed-type array"
  else encodeScalarBody element

def encodeVariant (value : WireValue) : Except String Bytes :=
  if value.isArray then
    if 0xFFFFFF < value.elements.length then
      throw "PubSub wire encoder: array too large"
    else do
      let bodies ← value.elements.mapM (encodeElement value.type)
      pure (putU8 (value.type.code ||| VariantArrayValuesFlag) ++
        (putU32 (UInt32.ofNat value.elements.length) ++ bodies.flatten))
  else do
    let body ← encodeScalarBody value
    pure (putU8 value.type.code ++ body)

/-- `DataSetFlags1` of an encoded message: valid, Variant field encoding. -/
def dataSetFlags1 (message : DataSetMessage) : UInt8 :=
  DsmValid ||| (FieldEncodingVariant <<< 1) |||
    (if message.sequenceNumberEnabled then DsmSequenceNumberEnabled else 0)

/-- The field count is narrowed to 16 bits. -/
def encodeDataSetMessage (message : DataSetMessage) : Except String Bytes := do
  let fields ← message.fields.mapM encodeVariant
  pure (putU8 (dataSetFlags1 message) ++
    ((if message.sequenceNumberEnabled then putU16 message.sequenceNumber else []) ++
      (putU16 (UInt16.ofNat message.fields.length) ++ fields.flatten)))

def encodePublisherId (message : NetworkMessage) : Bytes :=
  match message.publisherIdType with
  | .byte => putU8 (UInt8.ofNat message.publisherId.toNat)
  | .uInt16 => putU16 (UInt16.ofNat message.publisherId.toNat)
  | .uInt32 => putU32 (UInt32.ofNat message.publisherId.toNat)
  | .uInt64 => putU64 message.publisherId

namespace NetworkMessage

def groupHeaderEnabled (message : NetworkMessage) : Bool :=
  message.writerGroupIdEnabled || message.groupSequenceNumberEnabled

def extendedFlags1 (message : NetworkMessage) : Bool :=
  message.publisherIdType ≠ .byte

end NetworkMessage

def uadpFlags (message : NetworkMessage) : UInt8 :=
  UadpVersion ||| NmPublisherIdEnabled ||| NmPayloadHeaderEnabled |||
    (if message.groupHeaderEnabled then NmGroupHeaderEnabled else 0) |||
    (if message.extendedFlags1 then NmExtendedFlags1 else 0)

/-- The UADP flags, and `ExtendedFlags1` when the publisher id is not a byte. -/
def encodeFlags (message : NetworkMessage) : Bytes :=
  putU8 (uadpFlags message) ++
    (if message.extendedFlags1 then putU8 message.publisherIdType.code else [])

def groupFlags (message : NetworkMessage) : UInt8 :=
  (if message.writerGroupIdEnabled then GroupWriterGroupIdEnabled else 0) |||
    (if message.groupSequenceNumberEnabled then GroupSequenceNumberEnabled else 0)

def encodeGroupHeader (message : NetworkMessage) : Bytes :=
  if message.groupHeaderEnabled then
    putU8 (groupFlags message) ++
      ((if message.writerGroupIdEnabled then putU16 message.writerGroupId else []) ++
        (if message.groupSequenceNumberEnabled then putU16 message.groupSequenceNumber
          else []))
  else []

/-- The message count, narrowed to 8 bits, and the writer ids. -/
def encodePayloadHeader (messages : List DataSetMessage) : Bytes :=
  putU8 (UInt8.ofNat messages.length) ++
    (messages.map fun message => putU16 message.dataSetWriterId).flatten

/-- One turn of the loop that checks and writes the sizes. -/
def encodeSize (body : Bytes) : Except String Bytes :=
  if 0xFFFF < body.length then throw "PubSub wire encoder: DataSetMessage too large"
  else pure (putU16 (UInt16.ofNat body.length))

/-- The declared sizes, present when there is more than one message. -/
def encodeSizes (bodies : List Bytes) : Except String Bytes :=
  if 1 < bodies.length then do
    let sizes ← bodies.mapM encodeSize
    pure sizes.flatten
  else pure []

def encodeNetworkMessage (message : NetworkMessage) : Except String Bytes :=
  if message.messages.isEmpty then
    throw "PubSub wire encoder: no DataSetMessages to encode"
  else if 255 < message.messages.length then
    throw "PubSub wire encoder: too many DataSetMessages for one NetworkMessage"
  else do
    let bodies ← message.messages.mapM encodeDataSetMessage
    let sizes ← encodeSizes bodies
    pure (encodeFlags message ++ (encodePublisherId message ++
      (encodeGroupHeader message ++ (encodePayloadHeader message.messages ++
        (sizes ++ bodies.flatten)))))

/-- The account of the decoder: how many wire values it has stored in fields
and arrays, the elements of Null arrays counted on their own. -/
structure Built where
  values : Nat := 0
  nullElements : Nat := 0
deriving DecidableEq, Repr

/-- The decoder reads bytes and fails with a diagnostic. -/
abbrev Reader := Scanner String UInt8 Built

namespace Reader

def u8 (diagnostic : String) : Reader UInt8 := do
  let bytes ← Scanner.take 1 diagnostic
  pure (UInt8.ofNat (ofLittleEndian bytes))

def u16 (diagnostic : String) : Reader UInt16 := do
  let bytes ← Scanner.take 2 diagnostic
  pure (UInt16.ofNat (ofLittleEndian bytes))

def u32 (diagnostic : String) : Reader UInt32 := do
  let bytes ← Scanner.take 4 diagnostic
  pure (UInt32.ofNat (ofLittleEndian bytes))

def u64 (diagnostic : String) : Reader UInt64 := do
  let bytes ← Scanner.take 8 diagnostic
  pure (UInt64.ofNat (ofLittleEndian bytes))

/-- A length that is not positive as `int32_t` stands for the empty string. -/
def str (diagnostic : String) : Reader Bytes := do
  let length ← u32 diagnostic
  let signedLength := toSigned 32 length.toNat
  if signedLength ≤ 0 then pure []
  else Scanner.take signedLength.toNat diagnostic

def skip (n : Nat) (diagnostic : String) : Reader Unit := do
  let _ ← Scanner.take n diagnostic
  pure ()

/-- An optional header field of which only the length matters. -/
def skipIf (present : Bool) (n : Nat) (diagnostic : String) : Reader Unit :=
  if present then skip n diagnostic else pure ()

end Reader

open Reader

def decodeScalarBody (type : UInt8) : Reader WireValue :=
  match BuiltinType.ofCode type with
  | .null => pure .makeNull
  | .boolean => do
      let v ← u8 "truncated Boolean"
      pure (.makeBoolean (v ≠ 0))
  | .sByte => do
      let v ← u8 "truncated SByte"
      pure (.makeSigned .sByte (Int64.ofInt (toSigned 8 v.toNat)))
  | .byte => do
      let v ← u8 "truncated Byte"
      pure (.makeUnsigned .byte (UInt64.ofNat v.toNat))
  | .int16 => do
      let v ← u16 "truncated Int16"
      pure (.makeSigned .int16 (Int64.ofInt (toSigned 16 v.toNat)))
  | .uInt16 => do
      let v ← u16 "truncated UInt16"
      pure (.makeUnsigned .uInt16 (UInt64.ofNat v.toNat))
  | .int32 => do
      let v ← u32 "truncated Int32"
      pure (.makeSigned .int32 (Int64.ofInt (toSigned 32 v.toNat)))
  | .uInt32 => do
      let v ← u32 "truncated UInt32"
      pure (.makeUnsigned .uInt32 (UInt64.ofNat v.toNat))
  | .int64 => do
      let v ← u64 "truncated Int64"
      pure (.makeSigned .int64 (Int64.ofInt (toSigned 64 v.toNat)))
  | .uInt64 => do
      let v ← u64 "truncated UInt64"
      pure (.makeUnsigned .uInt64 v)
  | .float => do
      let bits ← u32 "truncated Float"
      pure (.makeFloat ⟨bits⟩)
  | .double => do
      let bits ← u64 "truncated Double"
      pure (.makeDouble ⟨bits⟩)
  | .string => do
      let s ← str "truncated String"
      pure (.makeString s)
  | .dateTime => do
      let v ← u64 "truncated DateTime"
      pure (.makeDateTime (Int64.ofInt (toSigned 64 v.toNat)))
  | .unnamed _ _ => throw ("unsupported variant type " ++ toString type.toNat)

/-- `elements.push_back`, in the account. -/
def chargeElement (elementType : UInt8) : Reader Unit :=
  Scanner.charge fun built =>
    if BuiltinType.ofCode elementType = .null then
      { built with nullElements := built.nullElements + 1 }
    else { built with values := built.values + 1 }

def decodeElement (elementType : UInt8) : Reader WireValue := do
  let element ← decodeScalarBody elementType
  chargeElement elementType
  pure element

/-- The element loop, guarded against implausible lengths. -/
def decodeElements (elementType : UInt8) (length : Int) : Reader (List WireValue) :=
  if 0 < length then
    if 1000000 < length then throw "array length is implausible"
    else Scanner.times length.toNat (decodeElement elementType)
  else pure []

/-- The array branch of `decodeVariant`. -/
def decodeArray (elementType : UInt8) : Reader WireValue := do
  let rawLength ← u32 "truncated array length"
  let elements ← decodeElements elementType (toSigned 32 rawLength.toNat)
  pure (.makeArray (BuiltinType.ofCode elementType) elements)

/-- The part of `decodeVariant` behind its mask. -/
def decodeVariantBody (mask : UInt8) : Reader WireValue :=
  if mask &&& VariantArrayDimensionsFlag ≠ 0 then
    throw "multi-dimensional arrays are not supported"
  else if mask &&& VariantArrayValuesFlag ≠ 0 then decodeArray (mask &&& 0x3F)
  else decodeScalarBody (mask &&& 0x3F)

def decodeVariant : Reader WireValue := do
  let mask ← u8 "truncated variant mask"
  decodeVariantBody mask

/-- The optional parts of a DataValue behind its value. -/
def decodeDataValueTail (mask : UInt8) (value : WireValue) : Reader WireValue := do
  skipIf (mask &&& 2 ≠ 0) 4 "truncated DataValue status"
  skipIf (mask &&& 4 ≠ 0) 8 "truncated DataValue source timestamp"
  skipIf (mask &&& 8 ≠ 0) 8 "truncated DataValue server timestamp"
  skipIf (mask &&& 16 ≠ 0) 2 "truncated DataValue source picoseconds"
  skipIf (mask &&& 32 ≠ 0) 2 "truncated DataValue server picoseconds"
  pure value

def decodeDataValueField : Reader WireValue := do
  let mask ← u8 "truncated DataValue mask"
  let value ← if mask &&& 1 ≠ 0 then decodeVariant else pure .makeNull
  decodeDataValueTail mask value

/-- One turn of the field loop; `fields.push_back` is charged. -/
def decodeField (fieldEncoding : UInt8) : Reader WireValue := do
  let value ←
    if fieldEncoding = FieldEncodingVariant then decodeVariant else decodeDataValueField
  Scanner.charge fun built => { built with values := built.values + 1 }
  pure value

/-- What `DataSetFlags1` and the optional `DataSetFlags2` say. -/
structure DataSetFlags where
  flags1 : UInt8
  messageType : UInt8 := DsmTypeKeyFrame
  timestampPresent : Bool := false
  picosecondsPresent : Bool := false
deriving DecidableEq, Repr

namespace DataSetFlags

def fieldEncoding (flags : DataSetFlags) : UInt8 :=
  (flags.flags1 &&& DsmFieldEncodingMask) >>> 1

def has (flags : DataSetFlags) (bit : UInt8) : Bool := flags.flags1 &&& bit ≠ 0

end DataSetFlags

def decodeDataSetFlags : Reader DataSetFlags := do
  let flags1 ← u8 "truncated DataSetFlags1"
  if flags1 &&& DsmFlags2Enabled ≠ 0 then do
    let flags2 ← u8 "truncated DataSetFlags2"
    pure { flags1
           messageType := flags2 &&& Dsm2TypeMask
           timestampPresent := flags2 &&& Dsm2TimestampEnabled ≠ 0
           picosecondsPresent := flags2 &&& Dsm2PicosecondsEnabled ≠ 0 }
  else pure { flags1 }

/-- The sequence number, and the optional fields behind it that are skipped. -/
def decodeDataSetHeader (flags : DataSetFlags) : Reader (Option UInt16) := do
  let sequenceNumber ←
    if flags.has DsmSequenceNumberEnabled then do
      let v ← u16 "truncated DataSetMessage sequence number"
      pure (some v)
    else pure none
  skipIf flags.timestampPresent 8 "truncated DataSetMessage timestamp"
  skipIf flags.picosecondsPresent 2 "truncated DataSetMessage picoseconds"
  skipIf (flags.has DsmStatusEnabled) 2 "truncated DataSetMessage status"
  skipIf (flags.has DsmConfigMajorEnabled) 4 "truncated config major version"
  skipIf (flags.has DsmConfigMinorEnabled) 4 "truncated config minor version"
  pure sequenceNumber

def decodeFields (fieldEncoding : UInt8) : Reader (List WireValue) := do
  let fieldCount ← u16 "truncated field count"
  Scanner.times fieldCount.toNat (decodeField fieldEncoding)

/-- Decode into a message that already has its writer id. -/
def decodeDataSetMessage (dataSetWriterId : UInt16) : Reader DataSetMessage := do
  let flags ← decodeDataSetFlags
  let sequenceNumber ← decodeDataSetHeader flags
  let out : DataSetMessage :=
    { dataSetWriterId
      sequenceNumberEnabled := sequenceNumber.isSome
      sequenceNumber := sequenceNumber.getD 0 }
  if flags.messageType = DsmTypeKeepAlive then pure { out with keepAlive := true }
  else if flags.messageType ≠ DsmTypeKeyFrame then
    throw ("unsupported DataSetMessage type " ++ toString flags.messageType.toNat)
  else if flags.fieldEncoding = FieldEncodingRawData then
    throw "RawData field encoding is not supported"
  else do
    let fields ← decodeFields flags.fieldEncoding
    pure { out with fields }

/-- What the flag bytes of a NetworkMessage say. -/
structure NetworkFlags where
  flags : UInt8
  publisherIdType : UInt8 := PublisherIdType.byte.code
  dataSetClassIdPresent : Bool := false
  securityPresent : Bool := false
  timestampPresent : Bool := false
  picosecondsPresent : Bool := false
  promotedFieldsPresent : Bool := false
deriving DecidableEq, Repr

namespace NetworkFlags

def publisherIdEnabled (flags : NetworkFlags) : Bool :=
  flags.flags &&& NmPublisherIdEnabled ≠ 0

def groupHeaderEnabled (flags : NetworkFlags) : Bool :=
  flags.flags &&& NmGroupHeaderEnabled ≠ 0

def payloadHeaderEnabled (flags : NetworkFlags) : Bool :=
  flags.flags &&& NmPayloadHeaderEnabled ≠ 0

end NetworkFlags

def decodeExtendedFlags (flags : UInt8) : Reader NetworkFlags := do
  let ext1 ← u8 "truncated ExtendedFlags1"
  let extended : NetworkFlags :=
    { flags
      publisherIdType := ext1 &&& Ext1PublisherIdTypeMask
      dataSetClassIdPresent := ext1 &&& Ext1DataSetClassIdEnabled ≠ 0
      securityPresent := ext1 &&& Ext1SecurityEnabled ≠ 0
      timestampPresent := ext1 &&& Ext1TimestampEnabled ≠ 0
      picosecondsPresent := ext1 &&& Ext1PicosecondsEnabled ≠ 0 }
  if ext1 &&& Ext1ExtendedFlags2 ≠ 0 then do
    let ext2 ← u8 "truncated ExtendedFlags2"
    if ext2 &&& Ext2ChunkMessage ≠ 0 then
      throw "chunked NetworkMessages are not supported"
    else if ext2 &&& Ext2NetworkMessageTypeMask ≠ 0 then
      throw "not a DataSetMessage payload"
    else pure { extended with
      promotedFieldsPresent := ext2 &&& Ext2PromotedFieldsEnabled ≠ 0 }
  else pure extended

def decodeFlags : Reader NetworkFlags := do
  let flags ← u8 "empty datagram"
  if flags &&& 0x0F ≠ UadpVersion then
    throw ("unsupported UADP version " ++ toString (flags &&& 0x0F).toNat)
  else if flags &&& NmExtendedFlags1 ≠ 0 then decodeExtendedFlags flags
  else pure { flags }

/-- The publisher id, when it is enabled, written into a message. -/
def decodePublisherId (flags : NetworkFlags) (out : NetworkMessage) :
    Reader NetworkMessage :=
  if flags.publisherIdEnabled then
    match flags.publisherIdType.toNat with
    | 0 => do
        let v ← u8 "truncated publisher id"
        pure { out with publisherId := UInt64.ofNat v.toNat, publisherIdType := .byte }
    | 1 => do
        let v ← u16 "truncated publisher id"
        pure { out with publisherId := UInt64.ofNat v.toNat, publisherIdType := .uInt16 }
    | 2 => do
        let v ← u32 "truncated publisher id"
        pure { out with publisherId := UInt64.ofNat v.toNat, publisherIdType := .uInt32 }
    | 3 => do
        let v ← u64 "truncated publisher id"
        pure { out with publisherId := v, publisherIdType := .uInt64 }
    | _ => throw ("unsupported publisher id type " ++ toString flags.publisherIdType.toNat)
  else pure out

/-- A present 16-bit header field, or the value that stands when it is absent. -/
def u16If (present : Bool) (absent : UInt16) (diagnostic : String) : Reader UInt16 :=
  if present then u16 diagnostic else pure absent

def decodeGroupHeader (flags : NetworkFlags) (out : NetworkMessage) :
    Reader NetworkMessage :=
  if flags.groupHeaderEnabled then do
    let groupFlags ← u8 "truncated GroupHeader flags"
    let writerGroupIdEnabled := groupFlags &&& GroupWriterGroupIdEnabled ≠ 0
    let groupSequenceNumberEnabled := groupFlags &&& GroupSequenceNumberEnabled ≠ 0
    let writerGroupId ←
      u16If writerGroupIdEnabled out.writerGroupId "truncated WriterGroupId"
    skipIf (groupFlags &&& GroupGroupVersionEnabled ≠ 0) 4 "truncated GroupVersion"
    skipIf (groupFlags &&& GroupNetworkMessageNumberEnabled ≠ 0) 2
      "truncated NetworkMessageNumber"
    let groupSequenceNumber ←
      u16If groupSequenceNumberEnabled out.groupSequenceNumber
        "truncated group SequenceNumber"
    pure { out with
      writerGroupIdEnabled, writerGroupId, groupSequenceNumberEnabled, groupSequenceNumber }
  else pure { out with writerGroupIdEnabled := false, groupSequenceNumberEnabled := false }

/-- The writer ids of the payload header; a datagram without that header
carries one message with writer id zero. -/
def decodePayloadHeader (flags : NetworkFlags) : Reader (List UInt16) :=
  if flags.payloadHeaderEnabled then do
    let messageCount ← u8 "truncated PayloadHeader count"
    if messageCount = 0 then throw "PayloadHeader declares zero DataSetMessages"
    else Scanner.times messageCount.toNat (u16 "truncated PayloadHeader writer ids")
  else pure [0]

/-- Timestamp, picoseconds, promoted fields and the refusal of security. -/
def decodeExtendedHeader (flags : NetworkFlags) : Reader Unit := do
  skipIf flags.timestampPresent 8 "truncated NetworkMessage timestamp"
  skipIf flags.picosecondsPresent 2 "truncated NetworkMessage picoseconds"
  if flags.promotedFieldsPresent then do
    let promotedSize ← u16 "truncated PromotedFields size"
    skip promotedSize.toNat "truncated PromotedFields"
  else pure ()
  if flags.securityPresent then throw "secured NetworkMessages are not supported"
  else pure ()

/-- The declared sizes of the messages; the code calls each of them `ignored`. -/
def decodeSizes (flags : NetworkFlags) (messageCount : Nat) : Reader (List UInt16) :=
  if flags.payloadHeaderEnabled ∧ 1 < messageCount then
    Scanner.times messageCount (u16 "truncated DataSetMessage sizes")
  else pure []

/-- What stands in front of the declared sizes. -/
structure NetworkFront where
  flags : NetworkFlags
  out : NetworkMessage
  writerIds : List UInt16
deriving Repr

def decodeNetworkFront : Reader NetworkFront := do
  let flags ← decodeFlags
  let out ← decodePublisherId flags {}
  skipIf flags.dataSetClassIdPresent 16 "truncated DataSetClassId"
  let out ← decodeGroupHeader flags out
  let writerIds ← decodePayloadHeader flags
  decodeExtendedHeader flags
  pure { flags, out, writerIds }

/-- Everything in front of the first DataSetMessage. -/
structure NetworkHeader where
  out : NetworkMessage
  writerIds : List UInt16
  declaredSizes : List UInt16
deriving Repr

def decodeNetworkHeader : Reader NetworkHeader := do
  let front ← decodeNetworkFront
  let declaredSizes ← decodeSizes front.flags front.writerIds.length
  pure { out := front.out, writerIds := front.writerIds, declaredSizes }

/-- The message loop, one message for each writer id. -/
def decodeMessages : List UInt16 → Reader (List DataSetMessage)
  | [] => pure []
  | writerId :: writerIds => do
      let message ← decodeDataSetMessage writerId
      let messages ← decodeMessages writerIds
      pure (message :: messages)

/-- Decode a datagram into a fresh NetworkMessage. -/
def decodeNetworkMessage : Reader NetworkMessage := do
  let header ← decodeNetworkHeader
  let messages ← decodeMessages header.writerIds
  pure { header.out with messages }

/-- Run the decoder on a datagram. -/
def decodeDatagram (data : Bytes) :
    EStateM.Result String (Cursor UInt8 Built) NetworkMessage :=
  decodeNetworkMessage ⟨data, {}⟩

end PubSub

end Supernova
