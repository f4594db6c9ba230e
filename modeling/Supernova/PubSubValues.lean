/-
Values between two servers: sampled from a cache variable, put on the wire by
the publisher, read from the datagram and written by the subscriber.
-/
import Mathlib.Data.List.TakeWhile
import Supernova.PubSubEngine
import Supernova.PubSubReceived

namespace Supernova

namespace PubSub

namespace UaScalar

def type : UaScalar → BuiltinType
  | boolean _ => .boolean
  | sByte _ => .sByte
  | byte _ => .byte
  | int16 _ => .int16
  | uInt16 _ => .uInt16
  | int32 _ => .int32
  | uInt32 _ => .uInt32
  | int64 _ => .int64
  | uInt64 _ => .uInt64
  | float _ => .float
  | double _ => .double
  | string _ => .string

/-- A string is read through `toUtf8`, up to its first NUL. -/
def toWire : UaScalar → WireValue
  | boolean v => .makeBoolean v
  | sByte v => .makeSigned .sByte v.toInt64
  | byte v => .makeUnsigned .byte v.toUInt64
  | int16 v => .makeSigned .int16 v.toInt64
  | uInt16 v => .makeUnsigned .uInt16 v.toUInt64
  | int32 v => .makeSigned .int32 v.toInt64
  | uInt32 v => .makeUnsigned .uInt32 v.toUInt64
  | int64 v => .makeSigned .int64 v
  | uInt64 v => .makeUnsigned .uInt64 v
  | float v => .makeFloat v
  | double v => .makeDouble v
  | string v => .makeString (v.takeWhile (· ≠ 0))

/-- Neither a NaN nor a string with a NUL character. -/
def plain : UaScalar → Bool
  | float v => !v.isNaN
  | double v => !v.isNaN
  | string v => v.all (· ≠ 0)
  | _ => true

end UaScalar

def uaArrayToWire (type : BuiltinType) (elements : List UaScalar) : Option WireValue :=
  match type with
  | .null | .dateTime | .unnamed _ _ => none
  | _ => some (.makeArray type (elements.map UaScalar.toWire))

/-- A single SByte has no case, an array of them has one. -/
def uaVariantToWire : UaVariant → Option WireValue
  | .null => some .makeNull
  | .scalar (.sByte _) => none
  | .scalar v => some v.toWire
  | .array type elements => uaArrayToWire type elements
  | .other => none

/-- The field of `publishGroup` for a sampled value, Null when there is no value
or it cannot be encoded. -/
def publishedField (sampled : Option UaVariant) : WireValue :=
  (sampled.bind uaVariantToWire).getD .makeNull

namespace UaVariant

/-- The documented types: all scalars but SByte, and arrays of any of them. -/
def supported : UaVariant → Bool
  | null | other | scalar (.sByte _) => false
  | scalar _ => true
  | array type _ => (uaScalar type).isSome

/-- The elements of an array are of its type, and all scalars are plain. -/
def Plain : UaVariant → Prop
  | null | other => True
  | scalar v => v.plain = true
  | array type elements => ∀ e ∈ elements, e.type = type ∧ e.plain = true

end UaVariant

theorem isArray_toWire (v : UaScalar) : v.toWire.isArray = false := by
  cases v <;> rfl

theorem type_toWire (v : UaScalar) : v.toWire.type = v.type := by
  cases v <;> rfl

/-- The narrowing of the wire changes no scalar that came from a variant. -/
theorem receivedScalar_toWire {v : UaScalar} (hplain : v.plain = true) :
    v.toWire.receivedScalar = v.toWire := by
  have hsigned : ∀ bits (n : Int64), 0 < bits → -2 ^ (bits - 1) ≤ n.toInt →
      n.toInt < 2 ^ (bits - 1) → Int64.ofInt (toSigned bits (lowBits bits n)) = n :=
    fun bits n hbits hlow hhigh => ofInt_toSigned_lowBits hbits hlow hhigh
  have hunsigned : ∀ bits (n : UInt64), n.toNat < 2 ^ bits →
      UInt64.ofNat (n.toNat % 2 ^ bits) = n := by
    intro bits n hlt
    rw [Nat.mod_eq_of_lt hlt, UInt64.ofNat_toNat]
  cases v with
  | boolean v => cases v <;> rfl
  | sByte v =>
      have h := hsigned 8 v.toInt64 (by decide) (by simpa using v.le_toInt)
        (by simpa using v.toInt_lt)
      simp only [UaScalar.toWire, WireValue.receivedScalar, WireValue.makeSigned, h]
  | byte v =>
      have h := hunsigned 8 v.toUInt64 (by simpa using v.toNat_lt)
      simp only [UaScalar.toWire, WireValue.receivedScalar, WireValue.makeUnsigned, h]
  | int16 v =>
      have h := hsigned 16 v.toInt64 (by decide) (by simpa using v.le_toInt)
        (by simpa using v.toInt_lt)
      simp only [UaScalar.toWire, WireValue.receivedScalar, WireValue.makeSigned, h]
  | uInt16 v =>
      have h := hunsigned 16 v.toUInt64 (by simpa using v.toNat_lt)
      simp only [UaScalar.toWire, WireValue.receivedScalar, WireValue.makeUnsigned, h]
  | int32 v =>
      have h := hsigned 32 v.toInt64 (by decide) (by simpa using v.le_toInt)
        (by simpa using v.toInt_lt)
      simp only [UaScalar.toWire, WireValue.receivedScalar, WireValue.makeSigned, h]
  | uInt32 v =>
      have h := hunsigned 32 v.toUInt64 (by simpa using v.toNat_lt)
      simp only [UaScalar.toWire, WireValue.receivedScalar, WireValue.makeUnsigned, h]
  | int64 v => rfl
  | uInt64 v => rfl
  | float v =>
      have hnumber : v.isNaN = false := by simpa [UaScalar.plain] using hplain
      simp only [UaScalar.toWire, WireValue.receivedScalar, WireValue.makeFloat,
        Single.toSingle_toDouble hnumber]
  | double v => rfl
  | string v => rfl

/-- The subscriber's conversion undoes the publisher's. -/
theorem uaScalar_toWire {v : UaScalar} (hplain : v.plain = true) :
    ∃ convert, uaScalar v.type = some convert ∧ convert v.toWire = v := by
  cases v with
  | boolean v => exact ⟨_, rfl, by cases v <;> rfl⟩
  | sByte v => exact ⟨_, rfl, by simp [UaScalar.toWire, WireValue.makeSigned]⟩
  | byte v => exact ⟨_, rfl, by simp [UaScalar.toWire, WireValue.makeUnsigned]⟩
  | int16 v => exact ⟨_, rfl, by simp [UaScalar.toWire, WireValue.makeSigned]⟩
  | uInt16 v => exact ⟨_, rfl, by simp [UaScalar.toWire, WireValue.makeUnsigned]⟩
  | int32 v => exact ⟨_, rfl, by simp [UaScalar.toWire, WireValue.makeSigned]⟩
  | uInt32 v => exact ⟨_, rfl, by simp [UaScalar.toWire, WireValue.makeUnsigned]⟩
  | int64 v => exact ⟨_, rfl, rfl⟩
  | uInt64 v => exact ⟨_, rfl, rfl⟩
  | float v =>
      have hnumber : v.isNaN = false := by simpa [UaScalar.plain] using hplain
      exact ⟨_, rfl, by
        simp [UaScalar.toWire, WireValue.makeFloat, Single.toSingle_toDouble hnumber]⟩
  | double v => exact ⟨_, rfl, rfl⟩
  | string v =>
      have hall : v.takeWhile (· ≠ 0) = v :=
        List.takeWhile_eq_self_iff.mpr (List.all_eq_true.mp hplain)
      exact ⟨_, rfl, by simp only [UaScalar.toWire, WireValue.makeString, hall]⟩

theorem uaArrayToWire_of_supported {type : BuiltinType} {convert : WireValue → UaScalar}
    (htype : uaScalar type = some convert) (elements : List UaScalar) :
    uaArrayToWire type elements = some (.makeArray type (elements.map UaScalar.toWire)) := by
  cases type <;> first | rfl | cases htype

theorem uaArrayToWire_of_unsupported {type : BuiltinType} (htype : uaScalar type = none)
    (elements : List UaScalar) : uaArrayToWire type elements = none := by
  cases type <;> first | rfl | cases htype

/-- An unsupported value is published as Null. -/
theorem publishedField_of_unsupported {v : UaVariant} (h : v.supported = false) :
    publishedField (some v) = .makeNull := by
  rcases v with _ | v | ⟨type, elements⟩ | _
  · rfl
  · cases v <;> first | rfl | cases h
  · have htype : uaScalar type = none := by simpa [UaVariant.supported] using h
    simp [publishedField, uaVariantToWire, uaArrayToWire_of_unsupported htype]
  · rfl

/-- What the subscriber makes of a published field: the value itself, when its
type is supported, and nothing otherwise. -/
theorem wireToUaVariant_received_publishedField {v : UaVariant} (hplain : v.Plain) :
    wireToUaVariant (publishedField (some v)).received =
      if v.supported then some v else none := by
  by_cases hsupported : v.supported = true
  · rw [if_pos hsupported]
    rcases v with _ | v | ⟨type, elements⟩ | _
    · cases hsupported
    · have hwire : publishedField (some (.scalar v)) = v.toWire := by
        cases v <;> first | rfl | cases hsupported
      have hsByte : v.type ≠ .sByte := by
        cases v <;> simp_all [UaScalar.type, UaVariant.supported]
      obtain ⟨convert, hconvert, hback⟩ := uaScalar_toWire hplain
      rw [hwire, WireValue.received, isArray_toWire, if_neg Bool.false_ne_true,
        receivedScalar_toWire hplain, wireToUaVariant, isArray_toWire,
        if_neg Bool.false_ne_true, type_toWire, if_neg hsByte, hconvert, Option.map_some, hback]
    · obtain ⟨convert, hconvert⟩ := Option.isSome_iff_exists.mp hsupported
      have hwire : publishedField (some (.array type elements)) =
          .makeArray type (elements.map UaScalar.toWire) := by
        simp [publishedField, uaVariantToWire, uaArrayToWire_of_supported hconvert]
      have hback : ∀ e ∈ elements, convert e.toWire.receivedScalar = e := by
        intro e he
        obtain ⟨htype, heplain⟩ := hplain e he
        obtain ⟨convert', hconvert', hback⟩ := uaScalar_toWire heplain
        rw [htype, hconvert] at hconvert'
        cases hconvert'
        rw [receivedScalar_toWire heplain, hback]
      have hmap : elements.map (convert ∘ WireValue.receivedScalar ∘ UaScalar.toWire) =
          elements := (List.map_congr_left hback).trans (List.map_id' elements)
      rw [hwire]
      simp only [WireValue.received, WireValue.makeArray, wireToUaVariant, if_true, hconvert,
        Option.map_some, List.map_map, hmap]
    · cases hsupported
  · rw [publishedField_of_unsupported (by simpa using hsupported), if_neg hsupported]
    rfl

/-- What a reader writes depends on the converted fields only. -/
theorem writes_eq (fields : List WireValue) (targets : List Nat) :
    writes fields targets = ((fields.map wireToUaVariant).zip targets).filterMap
      fun pair => pair.1.map (.write pair.2) := by
  induction fields generalizing targets with
  | nil => rfl
  | cons field fields ih =>
      cases targets with
      | nil => rfl
      | cons target targets =>
          have ih := ih targets
          simp only [writes, List.zip_cons_cons, List.map_cons, List.filterMap_cons] at ih ⊢
          rw [ih]

/-- The decoded message carries the values of a writer: each supported one is
converted back to itself and written to its target, the others are skipped. -/
def CarriesValues (d : DataSetMessage) (row : List UaVariant) : Prop :=
  d.fields.map wireToUaVariant = (row.map fun v => if v.supported then some v else none) ∧
    ∀ targets, writes d.fields targets = (row.zip targets).filterMap fun pair =>
      if pair.1.supported then some (.write pair.2 pair.1) else none

theorem carriesValues_of_map {d : DataSetMessage} {row : List UaVariant}
    (h : d.fields.map wireToUaVariant = row.map fun v => if v.supported then some v else none) :
    CarriesValues d row := by
  refine ⟨h, ?_⟩
  intro targets
  rw [writes_eq, h]
  clear h
  induction row generalizing targets with
  | nil => rfl
  | cons v row ih =>
      cases targets with
      | nil => rfl
      | cons target targets =>
          simp only [List.map_cons, List.zip_cons_cons, List.filterMap_cons, ih]
          cases v.supported <;> rfl

/-- Values that one server samples and publishes, in any number of
DataSetMessages, are the values that another server's readers write. -/
theorem publishedValues_received {message : NetworkMessage} {bytes : Bytes}
    (values : List (List UaVariant))
    (hfields : message.messages.map DataSetMessage.fields =
      values.map fun row => row.map fun v => publishedField (some v))
    (hplain : ∀ row ∈ values, ∀ v ∈ row, v.Plain)
    (hencode : encodeNetworkMessage message = .ok bytes)
    (hfits : ∀ d ∈ message.messages, d.fits = true) :
    (∃ out c, decodeDatagram bytes = .ok out c ∧
      List.Forall₂ CarriesValues out.messages values) ∧
    ∀ row ∈ values, ∀ v ∈ row, v.supported = false →
      publishedField (some v) = .makeNull := by
  constructor
  · obtain ⟨k, hrun⟩ := reads_networkMessage hencode hfits [] {}
    rw [List.append_nil] at hrun
    refine ⟨message.received, _, hrun, ?_⟩
    have hrows : ∀ {rows : List (List UaVariant)} {messages : List DataSetMessage},
        (∀ row ∈ rows, ∀ v ∈ row, v.Plain) →
        (messages.map DataSetMessage.fields =
          rows.map fun row => row.map fun v => publishedField (some v)) →
        List.Forall₂ CarriesValues (messages.map DataSetMessage.received) rows := by
      intro rows messages hplain hfields
      induction rows generalizing messages with
      | nil =>
          rw [List.map_eq_nil_iff.mp hfields]
          exact List.Forall₂.nil
      | cons row rows ih =>
          obtain ⟨d, messages, rfl, hd, htail⟩ := List.map_eq_cons_iff.mp hfields
          rw [List.forall_mem_cons] at hplain
          refine List.Forall₂.cons (carriesValues_of_map ?_) (ih hplain.2 htail)
          simp only [DataSetMessage.received, hd, List.map_map]
          refine List.map_congr_left fun v hv => ?_
          exact wireToUaVariant_received_publishedField (hplain.1 v hv)
    exact hrows hplain hfields
  · intro row _ v _ hunsupported
    exact publishedField_of_unsupported hunsupported

/-- A Boolean, an empty array of SBytes and an unsupported value. -/
def sampledValues : List UaVariant := [.scalar (.boolean true), .array .sByte [], .other]

def sampledMessage : NetworkMessage :=
  { messages := [{ fields := sampledValues.map fun v => publishedField (some v) }] }

theorem publishedValues_received_sampled :
    ∃ bytes, encodeNetworkMessage sampledMessage = .ok bytes ∧
      (∃ out c, decodeDatagram bytes = .ok out c ∧
        List.Forall₂ CarriesValues out.messages [sampledValues]) ∧
      ∀ row ∈ [sampledValues], ∀ v ∈ row, v.supported = false →
        publishedField (some v) = .makeNull := by
  obtain ⟨bytes, hbytes⟩ : ∃ bytes, encodeNetworkMessage sampledMessage = .ok bytes := ⟨_, rfl⟩
  refine ⟨bytes, hbytes, publishedValues_received [sampledValues] rfl ?_ hbytes ?_⟩
  · simp [sampledValues, UaVariant.Plain, UaScalar.plain]
  · decide

end PubSub

end Supernova
